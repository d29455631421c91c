import Mathlib.Data.List.Basic

/-! Objects with total operations: what a sequence of calls returns. -/

namespace VChat.Transition

variable {σ τ ε ω : Type*}

def answers (call : σ → ε → ω × σ) : σ → List ε → List ω
  | _, [] => []
  | s, e :: es => (call s e).1 :: answers call (call s e).2 es

variable {call : σ → ε → ω × σ} {call' : τ → ε → ω × τ}

@[simp] theorem answers_nil (s : σ) : answers call s [] = [] := rfl

@[simp] theorem answers_cons (s : σ) (e : ε) (es : List ε) :
    answers call s (e :: es) = (call s e).1 :: answers call (call s e).2 es := rfl

theorem answers_eq_iff_of_fixed {s : σ} {t : τ} {p : ε → Prop} (hs : ∀ e, (call s e).2 = s)
    (ht : ∀ e, (call' t e).2 = t ∨ ¬ p e) (h : ∀ e, (call s e).1 = (call' t e).1 ↔ p e)
    (es : List ε) : answers call s es = answers call' t es ↔ ∀ e ∈ es, p e := by
  induction es with
  | nil => simp
  | cons e es ih =>
    rw [answers_cons, answers_cons, List.cons.injEq, h e, hs e, List.forall_mem_cons]
    refine and_congr_right fun he => ?_
    rw [(ht e).resolve_right fun hn => hn he, ih]

end VChat.Transition
