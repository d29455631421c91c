import Mathlib.Data.List.Nodup

/-! Who is together with whom, told from everyone's moves between named places. A name that is
closed leads to a new place from then on, and those who are in the old one stay together. -/

namespace VChat.Transition

inductive Move (U K : Type*) where
  | goes (u : U) (k : Option K)
  | closes (k : K)
deriving DecidableEq

/-- A place is a name, and how often that name had been closed before. -/
abbrev Place (K : Type*) := K × Nat

namespace Move

variable {U K : Type*} [DecidableEq U]

/-- Everyone who has moved, in the order of their last moves; the latest move comes first. -/
def movers : List (Move U K) → List U
  | [] => []
  | .goes v _ :: ms => (movers ms).erase v ++ [v]
  | .closes _ :: ms => movers ms

theorem nodup_movers (ms : List (Move U K)) : (movers ms).Nodup := by
  induction ms with
  | nil => exact List.nodup_nil
  | cons m ms ih =>
    cases m with
    | goes v k =>
      apply List.nodup_append.mpr
      refine ⟨ih.erase v, List.nodup_singleton v, fun a ha b hb hab => ?_⟩
      rw [hab, List.mem_singleton.mp hb] at ha
      exact ih.not_mem_erase ha
    | closes k => exact ih

variable [DecidableEq K]

def closings (ms : List (Move U K)) (k : K) : Nat := ms.count (.closes k)

def leadsTo (ms : List (Move U K)) (k : K) : Place K := (k, closings ms k)

def place : List (Move U K) → U → Option (Place K)
  | [], _ => none
  | .goes v k :: ms, u => if u = v then k.map (leadsTo ms) else place ms u
  | .closes _ :: ms, u => place ms u

def company (ms : List (Move U K)) (p : Place K) : List U :=
  (movers ms).filter fun u => place ms u = some p

variable {ms : List (Move U K)} {u v : U} {k : K} {p : Place K}

theorem mem_movers_of_place (h : place ms u = some p) : u ∈ movers ms := by
  induction ms with
  | nil => cases h
  | cons m ms ih =>
    cases m with
    | goes v k =>
      rw [place] at h
      split_ifs at h with hu
      · exact List.mem_append_right _ (List.mem_singleton.mpr hu)
      · exact List.mem_append_left _ ((List.mem_erase_of_ne hu).mpr (ih h))
    | closes k => exact ih h

theorem mem_company : u ∈ company ms p ↔ place ms u = some p := by
  simp only [company, List.mem_filter, decide_eq_true_eq]
  exact and_iff_right_of_imp mem_movers_of_place

theorem company_goes (v : U) (k : Option K) (ms : List (Move U K)) (p : Place K) :
    company (.goes v k :: ms) p =
      (company ms p).erase v ++ if k.map (leadsTo ms) = some p then [v] else [] := by
  have hstay : ((movers ms).erase v).filter (fun u => place (.goes v k :: ms) u = some p) =
      ((movers ms).erase v).filter fun u => place ms u = some p := by
    refine List.filter_congr fun u hu => ?_
    have hne : u ≠ v := fun h => (nodup_movers ms).not_mem_erase (h ▸ hu)
    rw [place, if_neg hne]
  rw [company, movers, List.filter_append, hstay, (nodup_movers ms).erase_eq_filter,
    List.filter_filter]
  congr 1
  · rw [company, ((nodup_movers ms).filter _).erase_eq_filter, List.filter_filter]
    exact List.filter_congr fun u _ => Bool.and_comm _ _
  · rw [List.filter_singleton, place, if_pos rfl]
    by_cases h : k.map (leadsTo ms) = some p <;> simp [h]

theorem company_leaves (v : U) (ms : List (Move U K)) (p : Place K) :
    company (.goes v none :: ms) p = (company ms p).erase v := by
  rw [company_goes]
  simp

theorem closings_goes (v : U) (k : Option K) (ms : List (Move U K)) :
    closings (.goes v k :: ms) = closings ms := by
  funext k'
  exact List.count_cons_of_ne (by simp)

theorem closings_closes (k k' : K) (ms : List (Move U K)) :
    closings (.closes k :: ms) k' = closings ms k' + if k = k' then 1 else 0 := by
  unfold closings
  rw [List.count_cons]
  by_cases h : k = k' <;> simp [h]

@[simp] theorem leadsTo_goes (v : U) (k : Option K) (ms : List (Move U K)) :
    leadsTo (.goes v k :: ms) = leadsTo ms := by
  funext k'
  rw [leadsTo, closings_goes, leadsTo]

theorem place_goes_goes (v : U) (k k' : Option K) (ms : List (Move U K)) :
    place (.goes v k :: .goes v k' :: ms) = place (.goes v k :: ms) := by
  funext u
  simp only [place, leadsTo_goes]
  split_ifs <;> rfl

theorem company_goes_goes (v : U) (k k' : Option K) (ms : List (Move U K)) :
    company (.goes v k :: .goes v k' :: ms) = company (.goes v k :: ms) := by
  funext p
  have hmovers : movers (.goes v k :: .goes v k' :: ms) = movers (.goes v k :: ms) := by
    have hv : v ∉ (movers ms).erase v := (nodup_movers ms).not_mem_erase
    simp only [movers, List.erase_append_right _ hv]
    simp
  rw [company, hmovers, place_goes_goes, company]

end Move
end VChat.Transition
