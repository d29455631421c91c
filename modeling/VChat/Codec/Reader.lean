import Mathlib.Data.List.Basic

/-! A reader that asks for a fixed number of items at a time and is run against a finite
stream: each read completes with exactly the items it asked for, or is aborted. -/

namespace VChat.Codec

structure Reader (σ α ω : Type*) where
  /-- The number of items the pending read asks for, if one is pending. -/
  ask : σ → Option Nat
  complete : σ → List α → σ × List ω
  abort : σ → σ × List ω
  ask_pos : ∀ s n, ask s = some n → 0 < n

namespace Reader
variable {σ α ω : Type*} (R : Reader σ α ω)

def run : Nat → σ → List α → List ω
  | 0, _, _ => []
  | fuel + 1, s, stream =>
    match R.ask s with
    | none => []
    | some n =>
      if stream.length < n then (R.abort s).2
      else (R.complete s (stream.take n)).2 ++
        run fuel (R.complete s (stream.take n)).1 (stream.drop n)

def outputs (s : σ) (stream : List α) : List ω := R.run (stream.length + 1) s stream

theorem run_fuel {f g : Nat} (s : σ) (stream : List α) (hf : stream.length < f)
    (hg : stream.length < g) : R.run f s stream = R.run g s stream := by
  induction f generalizing g s stream with
  | zero => exact absurd hf (Nat.not_lt_zero _)
  | succ f ih =>
    obtain ⟨g, rfl⟩ := Nat.exists_eq_succ_of_ne_zero (Nat.ne_zero_of_lt hg)
    unfold run
    cases hask : R.ask s with
    | none => rfl
    | some n =>
      have hn := R.ask_pos s n hask
      by_cases hlt : stream.length < n
      · simp only [hlt, if_true]
      · have hdrop : (stream.drop n).length < stream.length := by
          rw [List.length_drop]
          omega
        simp only [hlt, if_false]
        rw [ih _ _ (by omega) (by omega : (stream.drop n).length < g)]

variable {R}

theorem outputs_idle {s : σ} (h : R.ask s = none) (stream : List α) : R.outputs s stream = [] := by
  rw [outputs, run, h]

theorem outputs_abort {s : σ} {n : Nat} {stream : List α} (h : R.ask s = some n)
    (hn : stream.length < n) : R.outputs s stream = (R.abort s).2 := by
  rw [outputs, run, h]
  simp only [hn, if_true]

theorem outputs_complete {s : σ} {n : Nat} {stream : List α} (h : R.ask s = some n)
    (hn : n ≤ stream.length) :
    R.outputs s stream = (R.complete s (stream.take n)).2 ++
      R.outputs (R.complete s (stream.take n)).1 (stream.drop n) := by
  have hpos := R.ask_pos s n h
  have hdrop : (stream.drop n).length < stream.length := by
    rw [List.length_drop]
    omega
  rw [outputs, run, h]
  simp only [Nat.not_lt.mpr hn, if_false]
  rw [outputs, R.run_fuel _ _ hdrop (Nat.lt_succ_self _)]

theorem outputs_forall {P : ω → Prop} (hcomplete : ∀ s bs, ∀ x ∈ (R.complete s bs).2, P x)
    (habort : ∀ s, ∀ x ∈ (R.abort s).2, P x) (s : σ) (stream : List α) :
    ∀ x ∈ R.outputs s stream, P x := by
  induction hk : stream.length using Nat.strongRecOn generalizing s stream with
  | ind k ih =>
    subst hk
    intro x hx
    cases hask : R.ask s with
    | none => simp [outputs_idle hask] at hx
    | some n =>
      by_cases hlt : stream.length < n
      · rw [outputs_abort hask hlt] at hx
        exact habort s x hx
      · rw [outputs_complete hask (Nat.not_lt.mp hlt)] at hx
        have hpos := R.ask_pos s n hask
        rcases List.mem_append.mp hx with hx | hx
        · exact hcomplete s _ x hx
        · refine ih _ ?_ _ _ rfl x hx
          rw [List.length_drop]
          omega

end Reader
end VChat.Codec
