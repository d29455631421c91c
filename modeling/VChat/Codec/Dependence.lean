import Mathlib.Data.List.TakeWhile
import Mathlib.Logic.Function.Basic
import Mathlib.Logic.Nontrivial.Basic

/-! Which cells of a memory a value read from it depends on. -/

namespace VChat.Codec
variable {α α' β : Type*}

def AgreeOff (S : Nat → Prop) (m t : Nat → β) : Prop := ∀ i, ¬ S i → t i = m i

/-- Whatever the cells of `S` hold instead, `f` reads what it reads from `m`. -/
def Settled (S : Nat → Prop) (m : Nat → β) (f : (Nat → β) → α) : Prop :=
  ∀ t, AgreeOff S m t → f t = f m

def cells (m : Nat → β) (a k : Nat) : List β := (List.range k).map fun i => m (a + i)

def text [DecidableEq β] (z : β) (m : Nat → β) (a k : Nat) : List β :=
  (cells m a k).takeWhile fun b => b ≠ z

variable {S : Nat → Prop} {m t : Nat → β} {f : (Nat → β) → α} {g : (Nat → β) → α'} {a k i : Nat}

theorem agreeOff_refl (S : Nat → Prop) (m : Nat → β) : AgreeOff S m m := fun _ _ => rfl

theorem agreeOff_update (h : S i) (m : Nat → β) (b : β) : AgreeOff S m (Function.update m i b) := by
  intro j hj
  have hne : j ≠ i := by
    rintro rfl
    exact hj h
  exact Function.update_of_ne hne b m

theorem Settled.eq {t' : Nat → β} (h : Settled S m f) (ht : AgreeOff S m t)
    (ht' : AgreeOff S m t') : f t = f t' := (h t ht).trans (h t' ht').symm

theorem Settled.map (h : Settled S m f) (φ : α → α') : Settled S m fun t => φ (f t) :=
  fun t ht => congrArg φ (h t ht)

theorem settled_map_iff {φ : α → α'} (hφ : Function.Injective φ) :
    Settled S m (fun t => φ (f t)) ↔ Settled S m f :=
  ⟨fun h t ht => hφ (h t ht), fun h => h.map φ⟩

theorem settled_pair_iff :
    Settled S m (fun t => (f t, g t)) ↔ Settled S m f ∧ Settled S m g := by
  refine ⟨fun h => ⟨h.map Prod.fst, h.map Prod.snd⟩, ?_⟩
  rintro ⟨hf, hg⟩ t ht
  show (f t, g t) = (f m, g m)
  rw [hf t ht, hg t ht]

theorem settled_guard_iff (p : α → Prop) [DecidablePred p] :
    Settled S m (fun t => if p (f t) then some (f t) else none) ↔
      Settled S m f ∨ ∀ t, AgreeOff S m t → ¬ p (f t) := by
  constructor
  · intro h
    by_cases hsome : ∃ t, AgreeOff S m t ∧ p (f t)
    · obtain ⟨t, ht, hpt⟩ := hsome
      have hkept : ∀ t', AgreeOff S m t' → f t' = f t := by
        intro t' ht'
        have heq := h.eq ht' ht
        rw [if_pos hpt] at heq
        split_ifs at heq
        exact Option.some.inj heq
      exact .inl fun t' ht' => (hkept t' ht').trans (hkept m (agreeOff_refl S m)).symm
    · exact .inr fun t ht hpt => hsome ⟨t, ht, hpt⟩
  · rintro (h | h)
    · exact h.map fun v => if p v then some v else none
    · intro t ht
      have hdrop : ∀ t', AgreeOff S m t' → (if p (f t') then some (f t') else none) = none :=
        fun t' ht' => if_neg (h t' ht')
      exact (hdrop t ht).trans (hdrop m (agreeOff_refl S m)).symm

@[simp] theorem length_cells (m : Nat → β) (a k : Nat) : (cells m a k).length = k := by simp [cells]

theorem cells_add (m : Nat → β) (a k l : Nat) :
    cells m a (k + l) = cells m a k ++ cells m (a + k) l := by
  have hcell : ∀ i, m (a + (k + i)) = m (a + k + i) := fun i => by rw [Nat.add_assoc]
  simp [cells, List.range_add, Function.comp_def, hcell]

theorem cells_succ (m : Nat → β) (a k : Nat) : cells m a (k + 1) = m a :: cells m (a + 1) k := by
  rw [Nat.add_comm, cells_add]
  rfl

theorem cells_eq_iff : cells t a k = cells m a k ↔ ∀ i < k, t (a + i) = m (a + i) := by
  simp [cells]

theorem settled_cells_iff [Nontrivial β] :
    Settled S m (cells · a k) ↔ ∀ i < k, ¬ S (a + i) := by
  constructor
  · intro h i hi hS
    obtain ⟨b, hb⟩ := exists_ne (m (a + i))
    have heq := cells_eq_iff.mp (h _ (agreeOff_update hS m b)) i hi
    rw [Function.update_self] at heq
    exact hb heq
  · intro h t ht
    exact cells_eq_iff.mpr fun i hi => ht _ (h i hi)

section Text
variable [DecidableEq β] {z : β}

theorem text_succ (z : β) (m : Nat → β) (a k : Nat) :
    text z m a (k + 1) = if m a = z then [] else m a :: text z m (a + 1) k := by
  rw [text, cells_succ, List.takeWhile_cons]
  by_cases hz : m a = z
  · simp [hz]
  · simp [hz, text]

theorem text_of_no_end {l : Nat} (h : ∀ i < k, m (a + i) ≠ z) :
    text z m a (k + l) = cells m a k ++ text z m (a + k) l := by
  rw [text, cells_add]
  apply List.takeWhile_append_of_pos
  intro b hb
  obtain ⟨i, hi, rfl⟩ := List.mem_map.mp hb
  simpa using h i (List.mem_range.mp hi)

theorem text_update (h : ∀ j < i, m (a + j) ≠ z) (hi : i < k) (b : β) :
    text z (Function.update m (a + i) b) a k =
      cells m a i ++ if b = z then [] else b :: text z m (a + i + 1) (k - i - 1) := by
  obtain ⟨l, rfl⟩ : ∃ l, k = i + (l + 1) := ⟨k - i - 1, by omega⟩
  have hbefore : ∀ j < i, Function.update m (a + i) b (a + j) = m (a + j) := by
    intro j hj
    apply Function.update_of_ne
    omega
  have hafter : cells (Function.update m (a + i) b) (a + i + 1) l = cells m (a + i + 1) l := by
    apply cells_eq_iff.mpr
    intro j _
    apply Function.update_of_ne
    omega
  have hl : i + (l + 1) - i - 1 = l := by omega
  rw [text_of_no_end fun j hj => (hbefore j hj).symm ▸ h j hj, cells_eq_iff.mpr hbefore, text_succ,
    Function.update_self, hl, text, text, hafter]

theorem settled_text_iff [Nontrivial β] :
    Settled S m (text z · a k) ↔ ∀ i < k, S (a + i) → ∃ j < i, m (a + j) = z := by
  constructor
  · intro h i hi hS
    by_contra hnone
    have hend : ∀ j < i, m (a + j) ≠ z := fun j hj hz => hnone ⟨j, hj, hz⟩
    obtain ⟨b, hb⟩ := exists_ne z
    have heq := h.eq (agreeOff_update hS m z) (agreeOff_update hS m b)
    simp [text_update hend hi, hb] at heq
  · intro h t ht
    induction k generalizing a with
    | zero => rfl
    | succ k ih =>
      have hcell : t a = m a := by
        apply ht
        intro hS
        obtain ⟨j, hj, -⟩ := h 0 (Nat.succ_pos k) hS
        exact absurd hj (Nat.not_lt_zero j)
      show text z t a (k + 1) = text z m a (k + 1)
      rw [text_succ, text_succ, hcell]
      by_cases hz : m a = z
      · rw [if_pos hz, if_pos hz]
      · rw [if_neg hz, if_neg hz]
        congr 1
        apply ih
        intro i hi hS
        have hshift : a + 1 + i = a + (i + 1) := by omega
        obtain ⟨j, hj, hjz⟩ := h (i + 1) (Nat.succ_lt_succ hi) (hshift ▸ hS)
        cases j with
        | zero => exact absurd hjz hz
        | succ j =>
          have hshift' : a + 1 + j = a + (j + 1) := by omega
          exact ⟨j, Nat.lt_of_succ_lt_succ hj, hshift' ▸ hjz⟩

end Text
end VChat.Codec
