import Mathlib.Data.List.DropRight
import Mathlib.Data.Nat.ModEq

/-! Values written round after round into `n` cells, and the last `n` of them read back. -/

namespace VChat.Listing
variable {α : Type*} {n : Nat} {cells : Nat → α} {ys : List α}

/-- Of all values `ys`, the last `n` stand in the cells they were written to. -/
def Holds (n : Nat) (cells : Nat → α) (ys : List α) : Prop :=
  ∀ i (h : i < ys.length), ys.length ≤ i + n → cells (i % n) = ys[i]

theorem holds_nil : Holds n cells [] := fun _ h => absurd h (Nat.not_lt_zero _)

theorem mod_ne_mod {i k : Nat} (hlt : i < k) (hle : k < i + n) : i % n ≠ k % n := by
  intro h
  have hdvd : n ∣ k - i := (Nat.modEq_iff_dvd' (Nat.le_of_lt hlt)).mp h
  have hpos : 0 < k - i := Nat.sub_pos_of_lt hlt
  exact absurd (Nat.le_of_dvd hpos hdvd) (by omega)

theorem Holds.concat (h : Holds n cells ys) (y : α) :
    Holds n (Function.update cells (ys.length % n) y) (ys ++ [y]) := by
  intro i hi hle
  rw [List.length_append, List.length_singleton] at hi hle
  rcases Nat.lt_or_eq_of_le (Nat.le_of_lt_succ hi) with hlt | rfl
  · rw [Function.update_of_ne (mod_ne_mod hlt hle), h i hlt (Nat.le_of_succ_le hle),
      List.getElem_append_left hlt]
  · rw [Function.update_self, List.getElem_concat_length rfl]

theorem Holds.rtake_of_le (h : Holds n cells ys) (hn : n ≤ ys.length) :
    (List.range n).map (fun i => cells ((ys.length + i) % n)) = ys.rtake n := by
  apply List.ext_getElem
  · simp [List.rtake, Nat.sub_sub_self hn]
  · intro i hi hi'
    rw [List.length_map, List.length_range] at hi
    have hsplit : ys.length + i = (ys.length - n + i) + n := by omega
    have hcell := h (ys.length - n + i) (by omega) (by omega)
    simp only [List.getElem_map, List.getElem_range, List.rtake, List.getElem_drop]
    rw [hsplit, Nat.add_mod_right, hcell]

theorem Holds.rtake_of_lt (h : Holds n cells ys) (hn : ys.length < n) :
    (List.range ys.length).map cells = ys.rtake n := by
  rw [List.rtake, Nat.sub_eq_zero_of_le (Nat.le_of_lt hn), List.drop_zero]
  apply List.ext_getElem
  · simp
  · intro i hi hi'
    have hcell := h i hi' (by omega)
    rw [Nat.mod_eq_of_lt (Nat.lt_trans hi' hn)] at hcell
    simpa using hcell

end VChat.Listing
