import Mathlib.Algebra.Group.Nat.Defs
import Mathlib.Data.List.Basic

/-! The fixed-width types of the server, raw memory and the buffers that point into it. -/

namespace VChat

abbrev VInt8 := Int8
abbrev VInt32 := Int32
abbrev VByte := BitVec 8
abbrev VUInt16 := BitVec 16
abbrev VUInt32 := BitVec 32

abbrev Memory := Nat → VByte

namespace Memory

def read (m : Memory) (n : Nat) : List VByte := (List.range n).map m

def store (m : Memory) (offset : Nat) (bs : List VByte) : Memory := fun i =>
  if offset ≤ i ∧ i < offset + bs.length then bs.getD (i - offset) 0 else m i

@[simp] theorem length_read (m : Memory) (n : Nat) : (m.read n).length = n := by
  simp [read]

theorem read_store (m : Memory) (bs : List VByte) : (m.store 0 bs).read bs.length = bs := by
  apply List.ext_getElem?
  intro i
  by_cases hi : i < bs.length
  · simp [read, store, hi]
  · simp [read, hi]

end Memory

/-- A length and a pointer. Lengths are passed on as 32-bit words, and only an empty buffer
may have the null pointer. -/
structure VConstBuffer where
  first : Nat
  second : Option Memory
  first_lt : first < 2 ^ 32
  second_isSome : first ≠ 0 → second.isSome

namespace VConstBuffer

def bytes (b : VConstBuffer) : List VByte :=
  match b.second with
  | none => []
  | some m => m.read b.first

def empty : VConstBuffer := ⟨0, none, by decide, fun h => absurd rfl h⟩

@[simp] theorem length_bytes (b : VConstBuffer) : b.bytes.length = b.first := by
  unfold bytes
  split
  · rename_i hb
    by_contra hne
    have hsome := b.second_isSome fun h0 => hne h0.symm
    simp [hb] at hsome
  · exact Memory.length_read _ _

end VConstBuffer

/-- The packed packet header, the same on the wire, in the session and in the handlers. -/
structure Header where
  nLen : VUInt32
  nCrc : VUInt32
  nSeq : VUInt32
  nType : VUInt16
deriving DecidableEq

end VChat
