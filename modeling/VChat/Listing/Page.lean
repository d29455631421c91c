import Mathlib.Data.List.Basic

/-! The part of a list between two positions, and a list put together from consecutive parts. -/

namespace VChat.Listing
variable {α : Type*}

/-- The elements whose position is at least `nFrom` and below `nTo`; a negative `nTo` is no
limit. -/
def page (xs : List α) (nFrom nTo : Int) : List α :=
  (xs.zipIdx.filter fun x => nFrom ≤ x.2 ∧ (nTo < 0 ∨ x.2 < nTo)).map Prod.fst

def below (xs : List α) (nTo : Int) : List α := if nTo < 0 then xs else xs.take nTo.toNat

theorem page_zipIdx (xs : List α) (k : Nat) (nFrom nTo : Int) :
    ((xs.zipIdx k).filter fun x => nFrom ≤ x.2 ∧ (nTo < 0 ∨ x.2 < nTo)).map Prod.fst =
      (if nTo < 0 then xs else xs.take (nTo - k).toNat).drop (nFrom - k).toNat := by
  induction xs generalizing k with
  | nil => simp
  | cons x xs ih =>
    have hnext : ∀ n : Int, (n - ((k + 1 : Nat) : Int)).toNat = (n - k).toNat - 1 := by
      intro n
      omega
    have ih := ih (k + 1)
    rw [hnext, hnext] at ih
    rw [List.zipIdx_cons, List.filter_cons]
    rcases Int.lt_or_le (k : Int) nFrom with hbefore | hfrom
    · have hdrop : (nFrom - k).toNat = (nFrom - k).toNat - 1 + 1 := by omega
      rw [if_neg (by simp; omega), ih, hdrop, Nat.add_sub_cancel]
      split_ifs with hopen
      · rfl
      · rcases Int.lt_or_le (k : Int) nTo with hlt | hge
        · have htake : (nTo - k).toNat = (nTo - k).toNat - 1 + 1 := by omega
          rw [htake, List.take_succ_cons, Nat.add_sub_cancel]
          rfl
        · have htake : (nTo - k).toNat = 0 := by omega
          simp [htake]
    · have hdrop : (nFrom - k).toNat = 0 := by omega
      rw [hdrop, List.drop_zero] at ih ⊢
      split_ifs with hin hopen hopen
      · rw [List.map_cons, ih, if_pos hopen]
      · have htake : (nTo - k).toNat = (nTo - k).toNat - 1 + 1 := by simp at hin; omega
        rw [List.map_cons, ih, if_neg hopen, htake, List.take_succ_cons, Nat.add_sub_cancel]
      · simp [hfrom, hopen] at hin
      · have htake : (nTo - k).toNat = 0 := by simp at hin; omega
        rw [ih, if_neg hopen, htake]
        rfl

theorem page_eq (xs : List α) (nFrom nTo : Int) :
    page xs nFrom nTo = (below xs nTo).drop nFrom.toNat := by
  have h := page_zipIdx xs 0 nFrom nTo
  rwa [Int.natCast_zero, Int.sub_zero, Int.sub_zero] at h

theorem page_open (xs : List α) (nFrom : Int) {nTo : Int} (h : nTo < 0) :
    page xs nFrom nTo = xs.drop nFrom.toNat := by
  rw [page_eq, below, if_pos h]

theorem page_of_nonneg (xs : List α) (nFrom : Int) {nTo : Int} (h : 0 ≤ nTo) :
    page xs nFrom nTo = (xs.take nTo.toNat).drop nFrom.toNat := by
  rw [page_eq, below, if_neg (Int.not_lt.mpr h)]

theorem drop_take_eq_drop_iff (xs : List α) (limit b : Nat) :
    (xs.take limit).drop b = xs.drop b ↔ xs.length ≤ limit ∨ xs.length ≤ b := by
  constructor
  · intro heq
    have hlen := congrArg List.length heq
    rw [List.length_drop, List.length_drop, List.length_take] at hlen
    omega
  · rintro (h | h)
    · rw [List.take_of_length_le h]
    · have htake : (xs.take limit).length ≤ b := Nat.le_trans (List.length_take_le' _ _) h
      rw [List.drop_eq_nil_of_le h, List.drop_eq_nil_of_le htake]

theorem take_drop_append (xs : List α) {b c e : Nat} (hbc : b ≤ c) (hce : c ≤ e) :
    (xs.take c).drop b ++ (xs.take e).drop c = (xs.take e).drop b := by
  have hcut : xs.take c = (xs.take e).take c := by rw [List.take_take, Nat.min_eq_left hce]
  rw [hcut, List.drop_take, ← Nat.add_sub_cancel' hbc, ← List.drop_drop, Nat.add_sub_cancel_left]
  exact List.take_append_drop _ _

def pages {ι : Type*} (get : ι → ι → List α) : ι → List ι → List α
  | _, [] => []
  | b, c :: bs => get b c ++ pages get c bs

theorem pages_eq {ι : Type*} {get : ι → ι → List α} (pos : ι → Nat) {xs : List α}
    {R : ι → ι → Prop} (hpos : ∀ b c, R b c → pos b ≤ pos c)
    (hget : ∀ b c, R b c → get b c = (xs.take (pos c)).drop (pos b)) (b : ι) {bs : List ι}
    (hbs : (b :: bs).Pairwise R) :
    pages get b bs = (xs.take (pos (bs.getLastD b))).drop (pos b) := by
  induction bs generalizing b with
  | nil => simp [pages]
  | cons c bs ih =>
    obtain ⟨hb, hbs⟩ := List.pairwise_cons.mp hbs
    have hbc : R b c := hb c List.mem_cons_self
    have hlast : pos c ≤ pos (bs.getLastD c) := by
      have hmem : bs.getLastD c ∈ c :: bs := List.getLastD_mem_cons
      rcases List.mem_cons.mp hmem with heq | hmem
      · exact Nat.le_of_eq (congrArg pos heq.symm)
      · exact hpos c _ ((List.pairwise_cons.mp hbs).1 _ hmem)
    rw [pages, hget b c hbc, ih c hbs, List.getLastD_cons]
    exact take_drop_append xs (hpos b c hbc) hlast

end VChat.Listing
