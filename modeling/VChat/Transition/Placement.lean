import Mathlib.Data.List.Nodup

/-! Membership recorded twice: each place lists its members, and each member records its
place. -/

namespace VChat.Transition

variable {U R : Type*} [DecidableEq U] [DecidableEq R]

/-- Every list holds exactly the members whose place it is, each of them once. -/
def Agrees (members : R → List U) (place : U → Option R) : Prop :=
  ∀ u r, (members r).count u = if place u = some r then 1 else 0

namespace Agrees
variable {members members' : R → List U} {place place' : U → Option R} {u : U} {r : R}

theorem mem_iff (h : Agrees members place) : u ∈ members r ↔ place u = some r := by
  rw [← List.count_pos_iff, h u r]
  split_ifs with hp <;> simp [hp]

theorem nodup (h : Agrees members place) (r : R) : (members r).Nodup := by
  rw [List.nodup_iff_count_le_one]
  intro u
  rw [h u r]
  split_ifs <;> omega

theorem nodup_flatMap (h : Agrees members place) {rs : List R} (hrs : rs.Nodup) :
    (rs.flatMap members).Nodup := by
  rw [List.nodup_flatMap]
  refine ⟨fun r _ => h.nodup r, hrs.imp fun {r s} hne u hr hs => hne ?_⟩
  exact Option.some.inj ((h.mem_iff.mp hr).symm.trans (h.mem_iff.mp hs))

theorem erase (h : Agrees members place) (hu : u ∈ members r)
    (hm : ∀ s, members' s = if s = r then (members s).erase u else members s)
    (hp : ∀ v, place' v = if v = u then none else place v) : Agrees members' place' := by
  have hur := h.mem_iff.mp hu
  intro v s
  rw [hm, hp]
  by_cases hv : v = u
  · subst hv
    have hcount := h v s
    by_cases hs : s = r
    · rw [hs, hur, if_pos rfl] at hcount
      simp [hs, hcount]
    · have hne : r ≠ s := Ne.symm hs
      rw [hur] at hcount
      simpa [hs, hne] using hcount
  · rw [if_neg hv, ← h v s]
    split_ifs
    · exact List.count_erase_of_ne hv
    · rfl

theorem append (h : Agrees members place) (hu : place u = none)
    (hm : ∀ s, members' s = if s = r then members s ++ [u] else members s)
    (hp : ∀ v, place' v = if v = u then some r else place v) : Agrees members' place' := by
  intro v s
  rw [hm, hp]
  have hcount := h v s
  by_cases hv : v = u
  · subst hv
    rw [hu] at hcount
    by_cases hs : s = r
    · simpa [hs] using hcount
    · have hne : r ≠ s := Ne.symm hs
      simpa [hs, hne] using hcount
  · rw [if_neg hv, ← hcount]
    split_ifs
    · rw [List.count_append, List.count_singleton]
      simp [Ne.symm hv]
    · rfl

theorem perm (h : Agrees members place) (hm : ∀ r, (members' r).Perm (members r)) :
    Agrees members' place := by
  intro u r
  rw [(hm r).count_eq, h u r]

theorem move (h : Agrees members place) (hu : u ∈ members r) {q : R}
    (hm : ∀ s, (members' s).Perm (if s = r then (members s).erase u
      else if s = q then u :: members s else members s)) (hq : q ≠ r) :
    Agrees members' fun v => if v = u then some q else place v := by
  have herase : Agrees (fun s => if s = r then (members s).erase u else members s)
      (fun v => if v = u then none else place v) := h.erase hu (fun _ => rfl) fun _ => rfl
  have happend : Agrees
      (fun s => if s = q then (if s = r then (members s).erase u else members s) ++ [u]
        else if s = r then (members s).erase u else members s)
      (fun v => if v = u then some q else if v = u then none else place v) :=
    herase.append (if_pos rfl) (fun _ => rfl) fun _ => rfl
  have hplace : (fun v => if v = u then some q else if v = u then none else place v) =
      fun v => if v = u then some q else place v := by
    funext v
    split_ifs <;> rfl
  rw [hplace] at happend
  refine happend.perm fun s => (hm s).trans ?_
  by_cases hs : s = q
  · rw [if_neg (hs ▸ hq), if_pos hs, if_pos hs, if_neg (hs ▸ hq)]
    exact (List.perm_append_singleton u (members s)).symm
  · rw [if_neg hs, if_neg hs]

end Agrees
end VChat.Transition
