import VChat.Common.AllocatorRestart
import VChat.Common.FindSlot

/-! The sizes that containers and buffers ask the allocator for, and the bytes they then use. Sizes
are words of the width of `size_t`, and the allocator takes 32 bits of them. -/

namespace VChat
open Transition

namespace ContainerAlloc
variable {w : Nat}

/-- The size `allocate` passes on: `(VUInt32)_Count * sizeof(_Ty)`. -/
def allocateSize (sizeOf count : BitVec w) : VUInt32 :=
  ((count.setWidth 32).setWidth w * sizeOf).setWidth 32

def deallocateSize (sizeOf count : BitVec w) : VUInt32 :=
  ((count.setWidth 32).setWidth w * sizeOf).setWidth 32

def maxSize (sizeOf : BitVec w) : BitVec w :=
  let count := BitVec.allOnes w / sizeOf
  if 0 < count then count else 1

theorem toNat_allocateSize (hw : 32 ≤ w) (sizeOf count : BitVec w) :
    (allocateSize sizeOf count).toNat = count.toNat * sizeOf.toNat % 2 ^ 32 := by
  have hdvd : 2 ^ 32 ∣ 2 ^ w := Nat.pow_dvd_pow 2 hw
  have hcount : ((count.setWidth 32).setWidth w).toNat = count.toNat % 2 ^ 32 := by
    rw [BitVec.toNat_setWidth, BitVec.toNat_setWidth]
    exact Nat.mod_eq_of_lt (Nat.lt_of_lt_of_le (Nat.mod_lt _ (by decide))
      (Nat.pow_le_pow_right (by decide) hw))
  rw [allocateSize, BitVec.toNat_setWidth, BitVec.toNat_mul, hcount, Nat.mod_mod_of_dvd _ hdvd,
    Nat.mod_mul_mod]

theorem le_allocateSize_iff (hw : 32 ≤ w) (sizeOf count : BitVec w) :
    count.toNat * sizeOf.toNat ≤ (allocateSize sizeOf count).toNat ↔
      count.toNat * sizeOf.toNat < 2 ^ 32 := by
  rw [toNat_allocateSize hw]
  constructor
  · intro h
    exact Nat.lt_of_le_of_lt h (Nat.mod_lt _ (by decide))
  · intro h
    rw [Nat.mod_eq_of_lt h]

theorem mul_lt_of_le_maxSize {sizeOf count : BitVec w} (hs : sizeOf ≠ 0)
    (hc : count ≤ maxSize sizeOf) : count.toNat * sizeOf.toNat < 2 ^ w := by
  have hpos : 0 < sizeOf.toNat := Nat.pos_of_ne_zero fun h0 =>
    hs (BitVec.eq_of_toNat_eq (h0.trans (by simp)))
  have hlt := sizeOf.isLt
  have hmax : (BitVec.allOnes w / sizeOf).toNat = (2 ^ w - 1) / sizeOf.toNat := by
    rw [BitVec.toNat_udiv, BitVec.toNat_allOnes]
  have hcount : count.toNat ≤ (2 ^ w - 1) / sizeOf.toNat := by
    have hle : count.toNat ≤ (maxSize sizeOf).toNat := hc
    unfold maxSize at hle
    simp only at hle
    split_ifs at hle
    · exact hmax ▸ hle
    · have hone : (1 : BitVec w).toNat ≤ 1 := by simp [Nat.mod_le]
      exact Nat.le_trans hle (Nat.le_trans hone (Nat.div_pos (by omega) hpos))
  have hle : count.toNat * sizeOf.toNat ≤ 2 ^ w - 1 := (Nat.le_div_iff_mul_le hpos).mp hcount
  omega

end ContainerAlloc

abbrev Heap := VPointer → Memory

/-- `memcpy` into a block, from `offset` on. There is nothing to write to behind the null
pointer. -/
def Heap.memcpy (heap : Heap) (p : VPointer) (offset : Nat) (data : Memory) (n : Nat) :
    Option Heap :=
  if p = 0 then none else some (Function.update heap p ((heap p).store offset (data.read n)))

structure VSimpleBuffer (w : Nat) where
  data : VPointer
  len : BitVec w

namespace VSimpleBuffer
variable {w : Nat}

def isValid (b : VSimpleBuffer w) : Bool := b.data ≠ 0 && b.len ≠ 0

def copyPart (heap : Heap) (p : VPointer) (offset : Nat) (data : Option Memory) (l : BitVec w) :
    Option Heap :=
  match data with
  | none => some heap
  | some data => if l ≠ 0 then heap.memcpy p offset data l.toNat else some heap

def ofParts (pl : Platform) (m : AllocateManager) (heap : Heap) (data1 : Option Memory)
    (l1 : BitVec w) (data2 : Option Memory) (l2 : BitVec w) (fails : Bool) :
    Option (VSimpleBuffer w × AllocateManager × Heap) :=
  let l := l1 + l2
  if l ≠ 0 ∧ (data1.isSome ∨ data2.isSome) then do
    let (p, m) ← m.allocate pl (l.setWidth 32) fails
    let heap ← copyPart heap p 0 data1 l1
    let heap ← copyPart heap p l1.toNat data2 l2
    some (⟨p, l⟩, m, heap)
  else some (⟨0, 0⟩, m, heap)

structure HoldsParts (m : AllocateManager) (heap : Heap) (data1 : Option Memory) (l1 : BitVec w)
    (data2 : Option Memory) (l2 : BitVec w) (b : VSimpleBuffer w) : Prop where
  capacity : l1.toNat + l2.toNat ≤ m.capacity b.data
  first : ∀ d, data1 = some d → ∀ i < l1.toNat, heap b.data i = d i
  second : ∀ d, data2 = some d → ∀ i < l2.toNat, heap b.data (l1.toNat + i) = d i

/-- Unless `malloc` fails, the constructor returns, and a valid buffer holds the two parts. -/
def Constructs (pl : Platform) (m : AllocateManager) (heap : Heap) (data1 : Option Memory)
    (l1 : BitVec w) (data2 : Option Memory) (l2 : BitVec w) : Prop :=
  ∃ b m' heap', ofParts pl m heap data1 l1 data2 l2 false = some (b, m', heap') ∧
    (b.isValid = true → HoldsParts m' heap' data1 l1 data2 l2 b)

theorem exists_copyPart (heap : Heap) {p : VPointer} (hp : p ≠ 0) (offset : Nat)
    (data : Option Memory) (l : BitVec w) : ∃ heap', copyPart heap p offset data l = some heap' ∧
      (∀ d, data = some d → ∀ i < l.toNat, heap' p (offset + i) = d i) ∧
      ∀ i < offset, heap' p i = heap p i := by
  cases data with
  | none => exact ⟨heap, rfl, by simp, fun _ _ => rfl⟩
  | some d =>
    simp only [copyPart]
    split_ifs with hl
    · refine ⟨_, if_neg hp, fun d' hd i hi => ?_, fun i hi => ?_⟩
      · obtain rfl := Option.some.inj hd
        simp [Memory.store, Memory.read, hi]
      · rw [Function.update_self, Memory.store, if_neg fun h => Nat.not_le.mpr hi h.1]
    · have hzero : l = 0 := not_not.mp hl
      subst hzero
      exact ⟨heap, rfl, fun _ _ i hi => absurd hi (by simp), fun _ _ => rfl⟩

variable {pl : Platform} {m : AllocateManager}

theorem capacity_malloc (bytes : Nat) :
    (m.malloc bytes false).2.capacity (m.blocks + 1) = bytes := if_pos rfl

theorem ofParts_eq (pl : Platform) (honce : ∀ k i, AllocateManager.Once (m.container k i))
    (heap : Heap) {data1 data2 : Option Memory} {l1 l2 : BitVec w} (hl : l1 + l2 ≠ 0)
    (hdata : data1.isSome ∨ data2.isSome) {k : Nat}
    (hk : AllocateManager.findSlot ((l1 + l2).setWidth 32) = some k) :
    ∃ heap', ofParts pl m heap data1 l1 data2 l2 false = some (⟨m.blocks + 1, l1 + l2⟩,
        (m.malloc (if k < maxSlot then 2 ^ k else ((l1 + l2).setWidth 32).toNat) false).2, heap') ∧
      (∀ d, data1 = some d → ∀ i < l1.toNat, heap' (m.blocks + 1) i = d i) ∧
      ∀ d, data2 = some d → ∀ i < l2.toNat, heap' (m.blocks + 1) (l1.toNat + i) = d i := by
  have hp : m.blocks + 1 ≠ 0 := Nat.succ_ne_zero _
  obtain ⟨heap1, h1, hfirst, -⟩ := exists_copyPart heap hp 0 data1 l1
  obtain ⟨heap2, h2, hsecond, hframe⟩ := exists_copyPart heap1 hp l1.toNat data2 l2
  refine ⟨heap2, ?_, fun d hd i hi => ?_, hsecond⟩
  · rw [ofParts, if_pos ⟨hl, hdata⟩, AllocateManager.allocate_of_once honce, hk]
    show ((copyPart heap (m.blocks + 1) 0 data1 l1).bind fun heap =>
      (copyPart heap (m.blocks + 1) l1.toNat data2 l2).bind fun heap => _) = _
    rw [h1, Option.bind_some, h2, Option.bind_some]
    rfl
  · rw [hframe i hi, ← hfirst d hd i hi, Nat.zero_add]

theorem constructs_of_skip (heap : Heap) {data1 data2 : Option Memory} {l1 l2 : BitVec w}
    (h : ¬(l1 + l2 ≠ 0 ∧ (data1.isSome ∨ data2.isSome))) :
    Constructs pl m heap data1 l1 data2 l2 := by
  refine ⟨⟨0, 0⟩, m, heap, if_neg h, fun hvalid => ?_⟩
  simp [isValid] at hvalid

theorem constructs_iff_of_ne (honce : ∀ k i, AllocateManager.Once (m.container k i)) (hw : 32 ≤ w)
    (heap : Heap) {data1 data2 : Option Memory} {l1 l2 : BitVec w} (hl : l1 + l2 ≠ 0)
    (hdata : data1.isSome ∨ data2.isSome) :
    Constructs pl m heap data1 l1 data2 l2 ↔ l1.toNat + l2.toNat ≤ 2 ^ 31 := by
  constructor
  · rintro ⟨b, m', heap', hb, hholds⟩
    obtain ⟨k, hk⟩ : ∃ k, AllocateManager.findSlot ((l1 + l2).setWidth 32) = some k := by
      cases hk : AllocateManager.findSlot ((l1 + l2).setWidth 32) with
      | some k => exact ⟨k, rfl⟩
      | none =>
        rw [ofParts, if_pos ⟨hl, hdata⟩, AllocateManager.allocate, hk] at hb
        cases hb
    obtain ⟨heap2, heq, -, -⟩ := ofParts_eq pl honce heap hl hdata hk
    rw [heq] at hb
    obtain ⟨rfl, hrest⟩ := Prod.mk.inj (Option.some.inj hb)
    obtain ⟨rfl, rfl⟩ := Prod.mk.inj hrest
    have hcap := (hholds (by simpa [isValid] using hl)).capacity
    rw [capacity_malloc] at hcap
    refine Nat.le_trans hcap ?_
    split_ifs with hslot
    · exact Nat.pow_le_pow_right (by decide) (Nat.le_trans (Nat.le_of_lt hslot) (by decide))
    · exact (AllocateManager.isSome_findSlot_iff _).mp (by rw [hk]; rfl)
  · intro hle
    have hlt : l1.toNat + l2.toNat < 2 ^ w :=
      Nat.lt_of_le_of_lt hle (Nat.pow_lt_pow_right (by decide) (Nat.lt_of_lt_of_le (by decide) hw))
    have hsum : ((l1 + l2).setWidth 32).toNat = l1.toNat + l2.toNat := by
      rw [BitVec.toNat_setWidth, BitVec.toNat_add, Nat.mod_eq_of_lt hlt]
      exact Nat.mod_eq_of_lt (Nat.lt_of_le_of_lt hle (by decide))
    have hsize : ((l1 + l2).setWidth 32).toNat ≤ 2 ^ 31 := hsum ▸ hle
    obtain ⟨k, hk⟩ := AllocateManager.exists_findSlot hsize
    obtain ⟨heap', heq, hfirst, hsecond⟩ := ofParts_eq pl honce heap hl hdata hk
    refine ⟨_, _, heap', heq, fun _ => ⟨?_, hfirst, hsecond⟩⟩
    rw [capacity_malloc, ← hsum]
    split_ifs
    · exact AllocateManager.findSlot_spec hk
    · exact Nat.le_refl _

theorem constructs_iff (honce : ∀ k i, AllocateManager.Once (m.container k i)) (hw : 32 ≤ w)
    (heap : Heap) (data1 data2 : Option Memory) (l1 l2 : BitVec w) :
    Constructs pl m heap data1 l1 data2 l2 ↔ (data1 = none ∧ data2 = none) ∨
      l1.toNat + l2.toNat = 2 ^ w ∨ l1.toNat + l2.toNat ≤ 2 ^ 31 := by
  by_cases hdata : data1.isSome ∨ data2.isSome
  · have hnone : ¬(data1 = none ∧ data2 = none) := by
      rintro ⟨rfl, rfl⟩
      simp at hdata
    rw [or_iff_right hnone]
    by_cases hl : l1 + l2 = 0
    · refine iff_of_true (constructs_of_skip heap fun h => h.1 hl) ?_
      have hmod : (l1.toNat + l2.toNat) % 2 ^ w = 0 := by
        rw [← BitVec.toNat_add, hl]
        simp
      obtain ⟨c, hc⟩ := Nat.dvd_of_mod_eq_zero hmod
      have h1 := l1.isLt
      have h2 := l2.isLt
      match c, hc with
      | 0, hc => exact .inr (by omega)
      | 1, hc => exact .inl (by omega)
      | c + 2, hc =>
        rw [Nat.mul_add] at hc
        have hpos := Nat.zero_le (2 ^ w * c)
        omega
    · have hne : l1.toNat + l2.toNat ≠ 2 ^ w := fun h =>
        hl (BitVec.eq_of_toNat_eq (by rw [BitVec.toNat_add, h]; simp))
      rw [constructs_iff_of_ne honce hw heap hl hdata, or_iff_right hne]
  · refine iff_of_true (constructs_of_skip heap fun h => hdata h.2) (.inl ?_)
    simpa [not_or] using hdata

end VSimpleBuffer

open VSimpleBuffer ContainerAlloc

/-- Containers get their bytes exactly when these number less than `2 ^ 32`, which `max_size`
promises only for a 32-bit `size_t`. Two parts get theirs exactly when there is nothing to
allocate or they have at most `2 ^ 31` bytes. -/
theorem allocated_bytes_iff {w : Nat} (hw : 32 ≤ w) {pl : Platform} {uninit : Nat → VPointer}
    {es : List AllocateManager.Event} {m : AllocateManager}
    (hm : exec (AllocateManager.step pl) (AllocateManager.new uninit) es = some m)
    (sizeOf count : BitVec w) (heap : Heap) (data1 data2 : Option Memory) (l1 l2 : BitVec w) :
    (count.toNat * sizeOf.toNat ≤ (allocateSize sizeOf count).toNat ∧
        deallocateSize sizeOf count = allocateSize sizeOf count ↔
      count.toNat * sizeOf.toNat < 2 ^ 32) ∧
      (w = 32 → sizeOf ≠ 0 → count ≤ maxSize sizeOf → count.toNat * sizeOf.toNat < 2 ^ 32) ∧
      (Constructs pl m heap data1 l1 data2 l2 ↔ (data1 = none ∧ data2 = none) ∨
        l1.toNat + l2.toNat = 2 ^ w ∨ l1.toNat + l2.toNat ≤ 2 ^ 31) := by
  refine ⟨?_, fun hw32 hs hc => ?_, ?_⟩
  · have hsame : deallocateSize sizeOf count = allocateSize sizeOf count := rfl
    rw [and_iff_left hsame]
    exact le_allocateSize_iff hw sizeOf count
  · subst hw32
    exact mul_lt_of_le_maxSize hs hc
  · exact constructs_iff (AllocateManager.once_of_exec hm) hw heap data1 data2 l1 l2

theorem allocated_bytes_small :
    3 * 4 ≤ (allocateSize 4#64 3#64).toNat ∧
      Constructs .win32 (.new fun _ => 0) (fun _ _ => 0) (some fun _ => 7) 3#64
        (some fun _ => 9) 4#64 := by
  have h := @allocated_bytes_iff 64 (by decide) .win32 (fun _ => 0) [] (.new fun _ => 0) rfl 4#64
    3#64 (fun _ _ => 0) (some fun _ => 7) (some fun _ => 9) 3#64 4#64
  exact ⟨(h.1.mpr (by decide)).1, h.2.2.mpr (.inr (.inr (by decide)))⟩

/-- With a 64-bit `size_t` a container of `2 ^ 32` bytes is within `max_size` and asks for none;
with a 32-bit one the sum of two lengths wraps. -/
theorem not_allocated_wraps :
    0x100000000#64 ≤ maxSize 1#64 ∧ allocateSize 1#64 0x100000000#64 = 0 ∧
      ¬ Constructs .win32 (.new fun _ => 0) (fun _ _ => 0) (some fun _ => 7) 0xFFFFFFFF#32
        (some fun _ => 7) 2#32 := by
  refine ⟨by decide, by decide, fun h => ?_⟩
  have honce : ∀ k i, AllocateManager.Once
      ((AllocateManager.new fun _ => 0).container k i) := fun _ _ => .inl ⟨rfl, rfl⟩
  rw [constructs_iff honce (Nat.le_refl 32)] at h
  rcases h with ⟨h, -⟩ | h | h
  · cases h
  · exact absurd h (by decide)
  · exact absurd h (by decide)

end VChat
