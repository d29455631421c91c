import Mathlib.Order.Bounds.Basic
import VChat.Common.AllocatorSound

/-! For which sizes the search for a slot comes to an end. -/

namespace VChat.AllocateManager

/-- The loop of `FindSlot` from `slot` on. It has no result when it comes to shift by 32, which
is undefined. -/
def slotFrom (nSize : VUInt32) (slot : Nat) : Option Nat :=
  if slot < 32 then
    if 1#32 <<< slot < nSize then slotFrom nSize (slot + 1) else some slot
  else none
termination_by 32 - slot

theorem slotFrom_eq (nSize : VUInt32) {slot : Nat} (h : slot ≤ 32) :
    slotFrom nSize slot =
      (List.range' slot (32 - slot)).find? fun s => !decide (1#32 <<< s < nSize) := by
  induction hk : 32 - slot generalizing slot with
  | zero =>
    rw [slotFrom, if_neg (by omega)]
    rfl
  | succ k ih =>
    rw [slotFrom, if_pos (by omega), List.range'_succ, List.find?_cons]
    by_cases hlt : 1#32 <<< slot < nSize
    · rw [if_pos hlt, ih (by omega) (by omega)]
      simp [hlt]
    · rw [if_neg hlt]
      simp [hlt]

theorem slotFrom_zero (nSize : VUInt32) : slotFrom nSize 0 = findSlot nSize := by
  rw [slotFrom_eq nSize (Nat.zero_le 32), findSlot, List.range_eq_range']

/-- The search ends, and at the least slot that is large enough. -/
def FindsLeast (nSize : VUInt32) : Prop :=
  ∃ s, slotFrom nSize 0 = some s ∧ IsLeast {k | nSize.toNat ≤ 2 ^ k} s

theorem toNat_one_shiftLeft {slot : Nat} (h : slot < 32) : (1#32 <<< slot).toNat = 2 ^ slot := by
  rw [BitVec.toNat_shiftLeft, BitVec.toNat_ofNat, Nat.shiftLeft_eq, Nat.one_mod, Nat.one_mul]
  exact Nat.mod_eq_of_lt (Nat.pow_lt_pow_right (by decide) h)

theorem isLeast_of_findSlot {nSize : VUInt32} {s : Nat} (h : findSlot nSize = some s) :
    s < 32 ∧ IsLeast {k | nSize.toNat ≤ 2 ^ k} s := by
  obtain ⟨-, hs, hbelow⟩ := List.find?_range_eq_some.mp h
  have hs32 : s < 32 := List.mem_range.mp hs
  refine ⟨hs32, findSlot_spec h, fun k hk => ?_⟩
  by_contra hlt
  -- a lower slot was passed over because its size is too small
  have hsmall : 1#32 <<< k < nSize := by simpa using hbelow k (Nat.not_le.mp hlt)
  rw [BitVec.lt_def, toNat_one_shiftLeft (Nat.lt_trans (Nat.not_le.mp hlt) hs32)] at hsmall
  exact absurd hk (Nat.not_le.mpr hsmall)

theorem isSome_findSlot_iff (nSize : VUInt32) :
    (findSlot nSize).isSome = true ↔ nSize.toNat ≤ 2 ^ 31 := by
  constructor
  · intro h
    obtain ⟨s, hs⟩ := Option.isSome_iff_exists.mp h
    obtain ⟨hs32, hle, -⟩ := isLeast_of_findSlot hs
    exact Nat.le_trans hle (Nat.pow_le_pow_right (by decide) (Nat.le_of_lt_succ hs32))
  · intro h
    exact Option.isSome_iff_exists.mpr (exists_findSlot h)

theorem findsLeast_iff (nSize : VUInt32) : FindsLeast nSize ↔ nSize.toNat ≤ 2 ^ 31 := by
  rw [← isSome_findSlot_iff, FindsLeast, slotFrom_zero, Option.isSome_iff_exists]
  exact ⟨fun ⟨s, hs, _⟩ => ⟨s, hs⟩, fun ⟨s, hs⟩ => ⟨s, hs, (isLeast_of_findSlot hs).2⟩⟩

/-- The search ends with the right slot, `Allocate` returns, and `DeAllocate` of a block returns,
exactly for the sizes up to `2 ^ 31`. -/
theorem findSlot_ends_iff (pl : Platform) (nSize : VUInt32) :
    (FindsLeast nSize ↔ nSize.toNat ≤ 2 ^ 31) ∧
      (∀ (m : AllocateManager) fails,
        (m.allocate pl nSize fails).isSome = true ↔ nSize.toNat ≤ 2 ^ 31) ∧
      ∀ (m : AllocateManager) p,
        (m.deAllocate pl p nSize).isSome = true ↔ p = 0 ∨ nSize.toNat ≤ 2 ^ 31 := by
  refine ⟨findsLeast_iff nSize, fun m fails => ?_, fun m p => ?_⟩
  · rw [allocate, Option.isSome_map, isSome_findSlot_iff]
  · unfold deAllocate
    split_ifs with hp
    · exact iff_of_true rfl (.inl hp)
    · rw [Option.isSome_map, isSome_findSlot_iff]
      exact (or_iff_right hp).symm

/-- One byte more than the largest power of two that fits. -/
theorem not_findsLeast_large :
    ¬ FindsLeast 0x80000001#32 ∧
      ∀ (pl : Platform) (m : AllocateManager) fails,
        m.allocate pl 0x80000001#32 fails = none := by
  have hnone : findSlot 0x80000001#32 = none := by decide
  refine ⟨fun ⟨s, hs, _⟩ => ?_, fun pl m fails => ?_⟩
  · rw [slotFrom_zero, hnone] at hs
    cases hs
  · rw [allocate, hnone]
    rfl

end VChat.AllocateManager
