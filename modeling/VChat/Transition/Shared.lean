import Mathlib.Data.List.Perm.Basic
import Mathlib.Logic.Function.Basic

/-! Shared objects and their reference counts. `refs` lists the references there are, an object
once for each of its holders. -/

namespace VChat.Transition
variable {ι : Type*} [DecidableEq ι]

def Counts (count : ι → Nat) (refs : List ι) : Prop := ∀ i, count i = refs.count i

def acquire (count : ι → Nat) (i : ι) : ι → Nat := Function.update count i (count i + 1)

def release (count : ι → Nat) (i : ι) : (ι → Nat) × Bool :=
  (Function.update count i (count i - 1), count i = 1)

variable {count : ι → Nat} {refs refs' : List ι} {i : ι}

theorem counts_nil : Counts (fun _ : ι => 0) [] := fun _ => rfl

theorem Counts.perm (h : Counts count refs) (hperm : refs.Perm refs') : Counts count refs' :=
  fun j => (h j).trans (hperm.count_eq j)

theorem Counts.acquire (h : Counts count refs) (i : ι) :
    Counts (Transition.acquire count i) (i :: refs) := by
  intro j
  rw [Transition.acquire, List.count_cons]
  by_cases hj : j = i
  · subst hj
    rw [Function.update_self, h j]
    simp
  · rw [Function.update_of_ne hj, h j]
    simp [Ne.symm hj]

theorem Counts.release (h : Counts count (i :: refs)) :
    Counts (Transition.release count i).1 refs ∧
      ((Transition.release count i).2 = true ↔ i ∉ refs) := by
  have hi : count i = refs.count i + 1 := by rw [h i, List.count_cons_self]
  refine ⟨fun j => ?_, ?_⟩
  · show Function.update count i (count i - 1) j = refs.count j
    by_cases hj : j = i
    · subst hj
      rw [Function.update_self, hi, Nat.add_sub_cancel]
    · rw [Function.update_of_ne hj, h j, List.count_cons_of_ne (Ne.symm hj)]
  · show decide (count i = 1) = true ↔ i ∉ refs
    rw [decide_eq_true_iff, hi, ← List.count_eq_zero]
    omega

theorem Counts.pos_iff (h : Counts count refs) : 0 < count i ↔ i ∈ refs := by
  rw [h i, List.count_pos_iff]

/-- Of the objects made, each has references or is gone, once. -/
structure Lives (count : ι → Nat) (refs gone made : List ι) : Prop where
  counts : Counts count refs
  mem_made : ∀ j ∈ refs, j ∈ made
  nodup : gone.Nodup
  mem_gone : ∀ j, j ∈ gone ↔ j ∈ made ∧ j ∉ refs

variable {gone gone' made : List ι}

theorem Lives.perm (h : Lives count refs gone made) (hrefs : refs.Perm refs')
    (hgone : gone.Perm gone') : Lives count refs' gone' made := by
  refine ⟨h.counts.perm hrefs, fun j hj => h.mem_made j (hrefs.mem_iff.mpr hj),
    hgone.nodup_iff.mp h.nodup, fun j => ?_⟩
  rw [← hgone.mem_iff, ← hrefs.mem_iff]
  exact h.mem_gone j

theorem Lives.acquire (h : Lives count refs gone made) (hi : i ∈ refs) :
    Lives (Transition.acquire count i) (i :: refs) gone made := by
  have hmem : ∀ j, j ∈ i :: refs ↔ j ∈ refs := by
    intro j
    rw [List.mem_cons, or_iff_right_of_imp]
    rintro rfl
    exact hi
  refine ⟨h.counts.acquire i, fun j hj => h.mem_made j ((hmem j).mp hj), h.nodup, fun j => ?_⟩
  rw [hmem]
  exact h.mem_gone j

theorem Lives.make (h : Lives count refs gone made) (hi : i ∉ made) :
    Lives (Function.update count i 1) (i :: refs) gone (made ++ [i]) := by
  have hout : i ∉ refs := fun hmem => hi (h.mem_made i hmem)
  have hzero : count i = 0 := by
    rw [h.counts i]
    exact List.count_eq_zero_of_not_mem hout
  have hcount : Function.update count i 1 = Transition.acquire count i := by
    rw [Transition.acquire, hzero]
  refine ⟨hcount ▸ h.counts.acquire i, fun j hj => ?_, h.nodup, fun j => ?_⟩
  · rcases List.mem_cons.mp hj with rfl | hj
    · exact List.mem_append_right _ (List.mem_singleton_self j)
    · exact List.mem_append_left _ (h.mem_made j hj)
  · rw [h.mem_gone j, List.mem_append, List.mem_singleton, List.mem_cons]
    constructor
    · rintro ⟨hmade, hrefs⟩
      refine ⟨.inl hmade, ?_⟩
      rintro (rfl | hj)
      · exact hi hmade
      · exact hrefs hj
    · rintro ⟨hmade, hrefs⟩
      have hne : j ≠ i := fun hj => hrefs (.inl hj)
      exact ⟨hmade.resolve_right hne, fun hj => hrefs (.inr hj)⟩

theorem Lives.release (h : Lives count (i :: refs) gone made) :
    Lives (Transition.release count i).1 refs
      (if (Transition.release count i).2 then i :: gone else gone) made := by
  obtain ⟨hcounts, hlast⟩ := h.counts.release
  have hmade : i ∈ made := h.mem_made i (List.mem_cons_self ..)
  have hrefs : ∀ j ∈ refs, j ∈ made := fun j hj => h.mem_made j (List.mem_cons_of_mem i hj)
  have hout : i ∉ gone := fun hi => ((h.mem_gone i).mp hi).2 (List.mem_cons_self ..)
  by_cases hr : (Transition.release count i).2 = true
  · have hi := hlast.mp hr
    rw [if_pos hr]
    refine ⟨hcounts, hrefs, List.nodup_cons.mpr ⟨hout, h.nodup⟩, fun j => ?_⟩
    rw [List.mem_cons, h.mem_gone j, List.mem_cons]
    by_cases hj : j = i
    · subst hj
      exact iff_of_true (.inl rfl) ⟨hmade, hi⟩
    · simp only [hj, false_or]
  · have hi : i ∈ refs := by
      by_contra hi
      exact hr (hlast.mpr hi)
    rw [if_neg hr]
    refine ⟨hcounts, hrefs, h.nodup, fun j => (h.mem_gone j).trans (and_congr_right fun _ => ?_)⟩
    rw [List.mem_cons, not_or]
    refine and_iff_right_of_imp fun hj => ?_
    rintro rfl
    exact hj hi

variable {α : Type*}

omit [DecidableEq ι] in
theorem perm_flatMap_set {f : α → List ι} {xs : List α} {c : Nat} {x : α} (hx : xs[c]? = some x)
    (y : α) : (f x ++ (xs.set c y).flatMap f).Perm (f y ++ xs.flatMap f) := by
  induction xs generalizing c with
  | nil => cases hx
  | cons z xs ih =>
    cases c with
    | zero =>
      obtain rfl := Option.some.inj hx
      rw [List.set_cons_zero, List.flatMap_cons, List.flatMap_cons]
      exact List.perm_append_comm_assoc _ _ _
    | succ c =>
      rw [List.set_cons_succ, List.flatMap_cons, List.flatMap_cons]
      refine (List.perm_append_comm_assoc _ _ _).trans ?_
      refine ((ih hx).append_left (f z)).trans ?_
      exact List.perm_append_comm_assoc _ _ _

omit [DecidableEq ι] in
theorem perm_append_cons {l t t' : List ι} (h : t'.Perm (i :: t)) :
    (l ++ t').Perm (i :: (l ++ t)) :=
  (h.append_left l).trans List.perm_middle

omit [DecidableEq ι] in
theorem perm_flatMap_set_append {f : α → List ι} {xs : List α} {c : Nat} {x y : α}
    (hx : xs[c]? = some x) {l : List ι} (hf : f y = l ++ f x) :
    ((xs.set c y).flatMap f).Perm (l ++ xs.flatMap f) := by
  have hperm := perm_flatMap_set (f := f) hx y
  rw [hf, List.append_assoc] at hperm
  refine (List.perm_append_left_iff (f x)).mp (hperm.trans ?_)
  exact List.perm_append_comm_assoc l (f x) _

omit [DecidableEq ι] in
theorem append_flatMap_set_perm {f : α → List ι} {xs : List α} {c : Nat} {x y : α}
    (hx : xs[c]? = some x) {l : List ι} (hf : f x = l ++ f y) :
    (l ++ (xs.set c y).flatMap f).Perm (xs.flatMap f) := by
  have hperm := perm_flatMap_set (f := f) hx y
  rw [hf, List.append_assoc] at hperm
  refine (List.perm_append_left_iff (f y)).mp (.trans ?_ hperm)
  exact List.perm_append_comm_assoc (f y) l _

omit [DecidableEq ι] in
theorem perm_flatMap_set_of_eq {f : α → List ι} {xs : List α} {c : Nat} {x y : α}
    (hx : xs[c]? = some x) (hf : f y = f x) : ((xs.set c y).flatMap f).Perm (xs.flatMap f) := by
  have hperm := perm_flatMap_set (f := f) hx y
  rw [hf] at hperm
  exact (List.perm_append_left_iff _).mp hperm

theorem countP_set_add {p : α → Bool} {xs : List α} {c : Nat} {x : α} (hx : xs[c]? = some x)
    (y : α) : (xs.set c y).countP p + (p x).toNat = xs.countP p + (p y).toNat := by
  induction xs generalizing c with
  | nil => cases hx
  | cons z xs ih =>
    cases c with
    | zero =>
      obtain rfl := Option.some.inj hx
      rw [List.set_cons_zero]
      cases hz : p z <;> cases hy : p y <;> simp [hz, hy]
    | succ c =>
      have hxs := ih hx
      rw [List.set_cons_succ, List.countP_cons, List.countP_cons]
      omega

end VChat.Transition
