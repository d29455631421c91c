import Mathlib.Data.Finset.Card

/-! A counter that threads, any number of them, use as a lock they never wait for: each
decrements it, is inside if that made it 0, and increments it when it is done. A thread inside
may also leave by a second decrement, and then nobody enters again. -/

namespace VChat.Transition

inductive Zone where
  | outside
  | refused
  | inside
deriving DecidableEq

/-- `shut` counts the threads that left by a second decrement. -/
structure TryLock where
  zone : Nat → Zone
  signal : Int
  shut : Nat

namespace TryLock

def put (l : TryLock) (i : Nat) (z : Zone) (signal : Int) (shut : Nat) : TryLock :=
  ⟨fun j => if j = i then z else l.zone j, signal, shut⟩

inductive Move : TryLock → TryLock → Prop
  | skip (l) : Move l l
  | refuse (l) (i) (h : l.zone i = .outside) (h0 : l.signal - 1 ≠ 0) :
      Move l (l.put i .refused (l.signal - 1) l.shut)
  | enter (l) (i) (h : l.zone i = .outside) (h0 : l.signal - 1 = 0) :
      Move l (l.put i .inside (l.signal - 1) l.shut)
  | leave (l) (i) (h : l.zone i ≠ .outside) : Move l (l.put i .outside (l.signal + 1) l.shut)
  | shut (l) (i) (h : l.zone i = .inside) :
      Move l (l.put i .outside (l.signal - 1) (l.shut + 1))

/-- The counter is 1, less one for each thread between its first and its last change of it, less
two for each that shut the lock. -/
structure Counted (l : TryLock) : Prop where
  busy : ∃ A : Finset Nat, (∀ i, i ∈ A ↔ l.zone i ≠ .outside) ∧
    l.signal = 1 - A.card - 2 * l.shut
  alone : ∀ i j, l.zone i = .inside → l.zone j = .inside → i = j
  empty_of_shut : l.shut ≠ 0 → ∀ i, l.zone i ≠ .inside

variable {l l' : TryLock}

theorem Counted.signal_le (h : l.Counted) {i : Nat} (hi : l.zone i ≠ .outside) : l.signal ≤ 0 := by
  obtain ⟨A, hA, hsignal⟩ := h.busy
  have hpos : 0 < A.card := Finset.card_pos.mpr ⟨i, (hA i).mpr hi⟩
  omega

theorem Counted.idle_of_signal (h : l.Counted) (h1 : l.signal = 1) :
    (∀ i, l.zone i = .outside) ∧ l.shut = 0 := by
  obtain ⟨A, hA, hsignal⟩ := h.busy
  have hcard : A.card = 0 := by omega
  refine ⟨fun i => ?_, by omega⟩
  by_contra hi
  have hmem : i ∈ A := (hA i).mpr hi
  rw [Finset.card_eq_zero.mp hcard] at hmem
  simp at hmem

theorem busy_insert {A : Finset Nat} (hA : ∀ j, j ∈ A ↔ l.zone j ≠ .outside) {i : Nat} {z : Zone}
    (hz : z ≠ .outside) (signal : Int) (shut : Nat) (j : Nat) :
    j ∈ insert i A ↔ (l.put i z signal shut).zone j ≠ .outside := by
  rw [Finset.mem_insert, hA, put]
  by_cases hj : j = i
  · simp [hj, hz]
  · simp [hj]

theorem busy_erase {A : Finset Nat} (hA : ∀ j, j ∈ A ↔ l.zone j ≠ .outside) {i : Nat}
    (signal : Int) (shut : Nat) (j : Nat) :
    j ∈ A.erase i ↔ (l.put i .outside signal shut).zone j ≠ .outside := by
  rw [Finset.mem_erase, hA, put]
  by_cases hj : j = i
  · simp [hj]
  · simp [hj]

theorem zone_put_inside {i j : Nat} {z : Zone} {signal : Int} {shut : Nat} (hz : z ≠ .inside)
    (h : (l.put i z signal shut).zone j = .inside) : l.zone j = .inside := by
  simp only [put] at h
  split_ifs at h with hj
  · exact absurd h hz
  · exact h

theorem Counted.move (h : l.Counted) (hm : Move l l') : l'.Counted := by
  obtain ⟨A, hA, hsignal⟩ := h.busy
  cases hm with
  | skip => exact h
  | refuse i hi h0 =>
    have hout : i ∉ A := fun hmem => (hA i).mp hmem hi
    refine ⟨⟨insert i A, busy_insert hA (by decide) _ _, ?_⟩, fun j k hj hk => ?_,
      fun hs j hj => ?_⟩
    · rw [Finset.card_insert_of_notMem hout]
      simp only [put]
      omega
    · exact h.alone j k (zone_put_inside (by decide) hj) (zone_put_inside (by decide) hk)
    · exact h.empty_of_shut hs j (zone_put_inside (by decide) hj)
  | enter i hi h0 =>
    obtain ⟨hidle, hshut⟩ := h.idle_of_signal (by omega)
    have hout : i ∉ A := fun hmem => (hA i).mp hmem hi
    have honly : ∀ j, (l.put i .inside (l.signal - 1) l.shut).zone j = .inside → j = i := by
      intro j hj
      by_contra hne
      simp [put, hne, hidle j] at hj
    refine ⟨⟨insert i A, busy_insert hA (by decide) _ _, ?_⟩, fun j k hj hk => ?_, fun hs => ?_⟩
    · rw [Finset.card_insert_of_notMem hout]
      simp only [put]
      omega
    · rw [honly j hj, honly k hk]
    · exact absurd hshut hs
  | leave i hi =>
    have hmem : i ∈ A := (hA i).mpr hi
    have hcard := Finset.card_erase_add_one hmem
    refine ⟨⟨A.erase i, busy_erase hA _ _, ?_⟩, fun j k hj hk => ?_, fun hs j hj => ?_⟩
    · simp only [put]
      omega
    · exact h.alone j k (zone_put_inside (by decide) hj) (zone_put_inside (by decide) hk)
    · exact h.empty_of_shut hs j (zone_put_inside (by decide) hj)
  | shut i hi =>
    have hmem : i ∈ A := (hA i).mpr (by rw [hi]; decide)
    have hcard := Finset.card_erase_add_one hmem
    have hnone : ∀ j, (l.put i .outside (l.signal - 1) (l.shut + 1)).zone j ≠ .inside := by
      intro j hj
      have hji : j = i := h.alone j i (zone_put_inside (by decide) hj) hi
      simp [put, hji] at hj
    refine ⟨⟨A.erase i, busy_erase hA _ _, ?_⟩, fun j k hj => absurd hj (hnone j), fun _ => hnone⟩
    simp only [put]
    omega

/-- The counter started at 0, and so no decrement makes it 0. -/
structure Shut (l : TryLock) : Prop where
  busy : ∃ A : Finset Nat, (∀ i, i ∈ A ↔ l.zone i ≠ .outside) ∧ l.signal = -A.card
  nobody : ∀ i, l.zone i ≠ .inside

theorem Shut.signal_nonpos (h : l.Shut) : l.signal ≤ 0 := by
  obtain ⟨A, -, hsignal⟩ := h.busy
  omega

theorem Shut.move (h : l.Shut) (hm : Move l l') : l'.Shut := by
  have hle := h.signal_nonpos
  obtain ⟨A, hA, hsignal⟩ := h.busy
  cases hm with
  | skip => exact h
  | refuse i hi h0 =>
    have hout : i ∉ A := fun hmem => (hA i).mp hmem hi
    refine ⟨⟨insert i A, busy_insert hA (by decide) _ _, ?_⟩, fun j hj => ?_⟩
    · rw [Finset.card_insert_of_notMem hout]
      simp only [put]
      omega
    · exact h.nobody j (zone_put_inside (by decide) hj)
  | enter i hi h0 => omega
  | leave i hi =>
    have hmem : i ∈ A := (hA i).mpr hi
    have hcard := Finset.card_erase_add_one hmem
    refine ⟨⟨A.erase i, busy_erase hA _ _, ?_⟩, fun j hj => ?_⟩
    · simp only [put]
      omega
    · exact h.nobody j (zone_put_inside (by decide) hj)
  | shut i hi => exact absurd hi (h.nobody i)

end TryLock
end VChat.Transition
