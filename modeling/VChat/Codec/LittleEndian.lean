import Mathlib.Data.List.Basic

/-! Machine words in little-endian byte order, read and written bit by bit. -/

namespace VChat.Codec

def bytesOf {w : Nat} (k : Nat) (v : BitVec w) : List (BitVec 8) :=
  (List.range k).map fun i => v.extractLsb' (8 * i) 8

def wordOf (w : Nat) : List (BitVec 8) → BitVec w
  | [] => 0
  | b :: bs => wordOf w bs <<< 8 ||| b.setWidth w

variable {w : Nat}

@[simp] theorem length_bytesOf (k : Nat) (v : BitVec w) : (bytesOf k v).length = k := by
  simp [bytesOf]

theorem getElem?_bytesOf {k i : Nat} (v : BitVec w) (hi : i < k) :
    (bytesOf k v)[i]? = some (v.extractLsb' (8 * i) 8) := by
  simp [bytesOf, hi]

theorem getLsbD_wordOf (bs : List (BitVec 8)) (i : Nat) :
    (wordOf w bs).getLsbD i = (decide (i < w) && (bs.getD (i / 8) 0).getLsbD (i % 8)) := by
  induction bs generalizing i with
  | nil => simp [wordOf]
  | cons b bs ih =>
    rw [wordOf, BitVec.getLsbD_or, BitVec.getLsbD_shiftLeft, BitVec.getLsbD_setWidth]
    by_cases hi : i < 8
    · have h0 : i / 8 = 0 := by omega
      have h1 : i % 8 = i := by omega
      simp [hi, h0, h1]
    · have hb : b.getLsbD i = false := BitVec.getLsbD_of_ge b i (by omega)
      have hd : i / 8 = (i - 8) / 8 + 1 := by omega
      have hm : i % 8 = (i - 8) % 8 := by omega
      rw [ih, hb, hd, hm, List.getD_cons_succ]
      by_cases hw : i < w
      · have hlt : i - 8 < w := by omega
        simp [hi, hw, hlt]
      · simp [hw]

theorem wordOf_bytesOf {k : Nat} (hw : w ≤ 8 * k) (v : BitVec w) : wordOf w (bytesOf k v) = v := by
  apply BitVec.eq_of_getLsbD_eq
  intro i hi
  have hk : i / 8 < k := by omega
  have hm : 8 * (i / 8) + i % 8 = i := Nat.div_add_mod i 8
  rw [getLsbD_wordOf, List.getD_eq_getElem?_getD, getElem?_bytesOf v hk, Option.getD_some,
    BitVec.getLsbD_extractLsb', hm]
  simp [hi, Nat.mod_lt i (show 0 < 8 by decide)]

theorem bytesOf_wordOf {bs : List (BitVec 8)} {k : Nat} (hk : bs.length = k) (hw : 8 * k ≤ w) :
    bytesOf k (wordOf w bs) = bs := by
  apply List.ext_getElem?
  intro j
  by_cases hj : j < k
  · have hjl : j < bs.length := hk ▸ hj
    rw [getElem?_bytesOf _ hj, List.getElem?_eq_getElem hjl, Option.some.injEq]
    apply BitVec.eq_of_getLsbD_eq
    intro i hi
    have hd : (8 * j + i) / 8 = j := by omega
    have hm : (8 * j + i) % 8 = i := by omega
    have hlt : 8 * j + i < w := by omega
    rw [BitVec.getLsbD_extractLsb', getLsbD_wordOf, hd, hm, List.getD_eq_getElem?_getD,
      List.getElem?_eq_getElem hjl, Option.getD_some]
    simp [hi, hlt]
  · rw [List.getElem?_eq_none (by simp; omega), List.getElem?_eq_none (by omega)]

end VChat.Codec
