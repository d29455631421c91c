import VChat.Common.Defines
import Mathlib.Logic.Function.Iterate

/-! The keyed CRC: the table a key generates and the checksum computed over it, eight bytes
at a time. -/

namespace VChat

abbrev CrcTable := VByte → VUInt32

def crcBit (nKey c : VUInt32) : VUInt32 :=
  if c &&& 1 ≠ 0 then nKey ^^^ (c >>> 1) else c >>> 1

def crcTable (nKey : VUInt32) : CrcTable := fun n => (crcBit nKey)^[8] (n.setWidth 32)

def do1Byte (table : CrcTable) (crc : VUInt32) (b : VByte) : VUInt32 :=
  table ((crc ^^^ b.setWidth 32).setWidth 8) ^^^ (crc >>> 8)

def getCRC8 (table : CrcTable) : VUInt32 → List VByte → VUInt32 × List VByte
  | crc, b0 :: b1 :: b2 :: b3 :: b4 :: b5 :: b6 :: b7 :: pBuf =>
    let crc := do1Byte table (do1Byte table (do1Byte table (do1Byte table crc b0) b1) b2) b3
    let crc := do1Byte table (do1Byte table (do1Byte table (do1Byte table crc b4) b5) b6) b7
    getCRC8 table crc pBuf
  | crc, pBuf => (crc, pBuf)

def getCRC (crc : VUInt32) (pBuf : List VByte) (table : CrcTable) : VUInt32 :=
  let r := getCRC8 table (~~~crc) pBuf
  ~~~(r.2.foldl (do1Byte table) r.1)

end VChat
