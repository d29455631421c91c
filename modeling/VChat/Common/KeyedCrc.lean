import VChat.Codec.ShiftRegister
import VChat.Chat.World

/-! What the keyed checksum is, and which keys make it detect a change. -/

namespace VChat
open Codec

/-- The plain definition: one bit at a time, with no table and no unrolling. -/
def bitwiseCRC (nKey : VUInt32) (buf : List VByte) : VUInt32 :=
  ~~~ShiftRegister.run nKey (~~~nKey) buf

theorem crcBit_eq (nKey : VUInt32) : crcBit nKey = ShiftRegister.step nKey := by
  funext c
  have hbit : c &&& 1#32 ≠ 0#32 ↔ c.getLsbD 0 = true := by
    rw [BitVec.and_one_eq_setWidth_ofBool_getLsbD]
    cases c.getLsbD 0 <;> decide
  show (if c &&& 1#32 ≠ 0#32 then nKey ^^^ (c >>> 1) else c >>> 1) = _
  simp only [hbit, ShiftRegister.step]

theorem do1Byte_eq (nKey crc : VUInt32) (b : VByte) :
    do1Byte (crcTable nKey) crc b = ShiftRegister.feed nKey crc b := by
  have hrest : (crc ^^^ b.setWidth 32) >>> 8 = crc >>> 8 := by
    rw [BitVec.ushiftRight_xor_distrib]
    have hb : b.setWidth 32 >>> 8 = 0#32 := by
      apply BitVec.eq_of_getLsbD_eq
      intro i _
      simp
    rw [hb, BitVec.xor_zero]
  rw [ShiftRegister.feed, ShiftRegister.step_iterate_split, hrest, do1Byte, crcTable, crcBit_eq]

theorem getCRC8_foldl (table : CrcTable) (crc : VUInt32) (buf : List VByte) :
    (getCRC8 table crc buf).2.foldl (do1Byte table) (getCRC8 table crc buf).1 =
      buf.foldl (do1Byte table) crc := by
  induction crc, buf using getCRC8.induct table with
  | case1 crc b0 b1 b2 b3 b4 b5 b6 b7 buf _ _ ih => exact ih
  | case2 crc buf h => rw [getCRC8]; exact h

theorem getCRC_crcTable (nKey crc : VUInt32) (buf : List VByte) :
    getCRC crc buf (crcTable nKey) = ~~~ShiftRegister.run nKey (~~~crc) buf := by
  have hbyte : do1Byte (crcTable nKey) = ShiftRegister.feed nKey := by
    funext c b
    exact do1Byte_eq nKey c b
  simp only [getCRC]
  rw [getCRC8_foldl, hbyte]
  rfl

theorem getCRC_initSecretKey (u : VUser) (nKey : VUInt32) (buf : List VByte) :
    getCRC nKey buf (u.initSecretKey nKey).crcTable = bitwiseCRC nKey buf :=
  getCRC_crcTable nKey nKey buf

/-- Two buffers `GetCRC` can be given, one the other with at most four consecutive bytes
replaced. -/
def Tampered (x y : List VByte) : Prop :=
  x.length < 2 ^ 32 ∧ ShiftRegister.DifferWithin 4 x y

theorem Tampered.length_ne_zero {x y : List VByte} (h : Tampered x y) :
    x.length ≠ 0 ∧ y.length ≠ 0 := by
  obtain ⟨-, hne, hlen, -⟩ := h
  have hx : x.length ≠ 0 := by
    intro h0
    have hy0 : y.length = 0 := hlen.symm.trans h0
    exact hne ((List.length_eq_zero_iff.mp h0).trans (List.length_eq_zero_iff.mp hy0).symm)
  exact ⟨hx, hlen ▸ hx⟩

theorem getCRC_ne_of_tampered {nKey : VUInt32} (hKey : nKey.getLsbD 31 = true) {x y : List VByte}
    (h : Tampered x y) : getCRC nKey x (crcTable nKey) ≠ getCRC nKey y (crcTable nKey) := by
  have hinj : Function.Injective (ShiftRegister.step nKey) :=
    (ShiftRegister.step_injective_iff nKey (by decide)).mpr hKey
  rw [getCRC_crcTable, getCRC_crcTable]
  intro hcrc
  exact ShiftRegister.run_ne_of_differWithin nKey hinj (by decide) h.2 _ (BitVec.not_inj.mp hcrc)

theorem exists_tampered {nKey : VUInt32} (hKey : ¬ nKey.getLsbD 31 = true) :
    ∃ x y, Tampered x y ∧ getCRC nKey x (crcTable nKey) = getCRC nKey y (crcTable nKey) := by
  have hinj : ¬ Function.Injective (ShiftRegister.step nKey) := fun hinj =>
    hKey ((ShiftRegister.step_injective_iff nKey (by decide)).mp hinj)
  obtain ⟨x, y, hxy, hlen, hrun⟩ :=
    ShiftRegister.exists_collision nKey (n := 4) hinj (by decide) (by decide)
  refine ⟨x, y, ⟨hlen ▸ by decide, hxy⟩, ?_⟩
  rw [getCRC_crcTable, getCRC_crcTable, hrun]

theorem checkSecurity_accepts_iff (u : VUser) (nCRC nSeq : VUInt32) (body : List VByte) :
    (u.checkSecurity nCRC nSeq body).1 = true ↔
      nSeq = u.nSeq ∧ (body.length = 0 ∨ nCRC = getCRC u.nKey body u.crcTable) := by
  unfold VUser.checkSecurity
  split_ifs with hs hc
  · exact iff_of_true rfl ⟨hs, hc⟩
  · exact iff_of_false (by simp) fun h => hc h.2
  · exact iff_of_false (by simp) fun h => hs h.1

/-- The keys under which tampering shows are those with bit 31 set: in the checksum, and so in
what `CheckSecurity` accepts. -/
theorem tampering_detected_iff (u : VUser) (nKey : VUInt32) :
    let v := u.initSecretKey nKey
    ((∀ x y, Tampered x y → getCRC v.nKey x v.crcTable ≠ getCRC v.nKey y v.crcTable) ↔
        nKey.getLsbD 31 = true) ∧
      ((∀ nCRC nSeq x y, Tampered x y →
          ¬ ((v.checkSecurity nCRC nSeq x).1 = true ∧ (v.checkSecurity nCRC nSeq y).1 = true)) ↔
        nKey.getLsbD 31 = true) := by
  refine ⟨⟨fun h => ?_, fun hKey x y hxy => getCRC_ne_of_tampered hKey hxy⟩, fun h => ?_, ?_⟩
  · by_contra hKey
    obtain ⟨x, y, hxy, hcrc⟩ := exists_tampered hKey
    exact h x y hxy hcrc
  · by_contra hKey
    obtain ⟨x, y, hxy, hcrc⟩ := exists_tampered hKey
    apply h (getCRC nKey x (crcTable nKey)) 0 x y hxy
    rw [checkSecurity_accepts_iff, checkSecurity_accepts_iff]
    exact ⟨⟨rfl, .inr rfl⟩, rfl, .inr hcrc⟩
  · rintro hKey nCRC nSeq x y hxy ⟨hx, hy⟩
    obtain ⟨hposx, hposy⟩ := hxy.length_ne_zero
    rw [checkSecurity_accepts_iff] at hx hy
    have hcx := hx.2.resolve_left hposx
    have hcy := hy.2.resolve_left hposy
    exact getCRC_ne_of_tampered hKey hxy (hcx.symm.trans hcy)

end VChat
