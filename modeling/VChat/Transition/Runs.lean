import Mathlib.Data.List.Induction

/-! Runs of a guarded step function. A step that is not enabled yields `none`;
the rules here carry an invariant, or a condition on the steps, along a run. -/

namespace VChat.Transition

variable {σ ε ω : Type*}

def exec (step : σ → ε → Option σ) : σ → List ε → Option σ
  | s, [] => some s
  | s, e :: es => (step s e).bind fun t => exec step t es

/-- Every step the run takes satisfies `C`, read on the state before, the event and
the state after. -/
def Along (step : σ → ε → Option σ) (C : σ → ε → σ → Prop) : σ → List ε → Prop
  | _, [] => True
  | s, e :: es => ∀ t, step s e = some t → C s e t ∧ Along step C t es

variable {step : σ → ε → Option σ}

@[simp] theorem exec_nil (s : σ) : exec step s [] = some s := rfl

theorem exec_cons (s : σ) (e : ε) (es : List ε) :
    exec step s (e :: es) = (step s e).bind fun t => exec step t es := rfl

theorem exec_cons_eq_some {s u : σ} {e : ε} {es : List ε} :
    exec step s (e :: es) = some u ↔ ∃ t, step s e = some t ∧ exec step t es = some u := by
  rw [exec_cons, Option.bind_eq_some_iff]

theorem exec_append_eq_some {s u : σ} (as bs : List ε) :
    exec step s (as ++ bs) = some u ↔ ∃ t, exec step s as = some t ∧ exec step t bs = some u := by
  induction as generalizing s with
  | nil => simp only [List.nil_append, exec_nil, Option.some.injEq, exists_eq_left']
  | cons e es ih =>
    simp only [List.cons_append, exec_cons_eq_some, ih]
    constructor
    · rintro ⟨t, ht, v, hv, hu⟩
      exact ⟨v, ⟨t, ht, hv⟩, hu⟩
    · rintro ⟨v, ⟨t, ht, hv⟩, hu⟩
      exact ⟨t, ht, v, hv, hu⟩

/-- The run rule: what holds of the empty run and survives one more step holds of every run. -/
theorem exec_induction {P : List ε → σ → Prop} {s : σ} (hnil : P [] s)
    (hstep : ∀ es t e u, P es t → step t e = some u → P (es ++ [e]) u)
    {es : List ε} {t : σ} (h : exec step s es = some t) : P es t := by
  induction es using List.reverseRecOn generalizing t with
  | nil => exact Option.some.inj h ▸ hnil
  | append_singleton es e ih =>
    obtain ⟨u, hu, he⟩ := (exec_append_eq_some es [e]).mp h
    obtain ⟨v, hv, ht⟩ := exec_cons_eq_some.mp he
    obtain rfl := Option.some.inj ht
    exact hstep es u e v (ih hu) hv

theorem exec_invariant {I : σ → Prop} (hstep : ∀ s e t, I s → step s e = some t → I t)
    {s t : σ} {es : List ε} (hs : I s) (h : exec step s es = some t) : I t :=
  exec_induction (P := fun _ t => I t) hs (fun _ t e u ht hu => hstep t e u ht hu) h

theorem Along.cons {C : σ → ε → σ → Prop} {s t : σ} {e : ε} {es : List ε}
    (h : step s e = some t) (hC : C s e t) (hes : Along step C t es) :
    Along step C s (e :: es) := by
  intro u hu
  obtain rfl := Option.some.inj (h.symm.trans hu)
  exact ⟨hC, hes⟩

theorem Along.imp_of_invariant {C D : σ → ε → σ → Prop} {J : σ → Prop}
    (hstep : ∀ s e t, J s → C s e t → step s e = some t → J t ∧ D s e t)
    {s : σ} {es : List ε} (hC : Along step C s es) (hs : J s) : Along step D s es := by
  induction es generalizing s with
  | nil => trivial
  | cons e es ih =>
    intro t ht
    obtain ⟨hc, hC⟩ := hC t ht
    obtain ⟨hJ, hD⟩ := hstep s e t hs hc ht
    exact ⟨hD, ih hC hJ⟩

/-- Two conditions on steps that agree wherever `J` holds, the second of which keeps `J`,
hold along the same runs from a state with `J`. -/
theorem along_iff_along {C D : σ → ε → σ → Prop} {J : σ → Prop}
    (hD : ∀ s e t, J s → step s e = some t → D s e t → J t)
    (hstep : ∀ s e t, J s → step s e = some t → (C s e t ↔ D s e t))
    {s : σ} (es : List ε) (hs : J s) : Along step C s es ↔ Along step D s es := by
  induction es generalizing s with
  | nil => exact Iff.rfl
  | cons e es ih =>
    refine forall_congr' fun t => forall_congr' fun ht => ?_
    rw [hstep s e t hs ht]
    refine and_congr_right fun hDt => ?_
    exact ih (hD s e t hs ht hDt)

theorem not_along_of_breach {D : σ → ε → σ → Prop} {K R : σ → Prop}
    (hkeep : ∀ s e t, K s → step s e = some t → D s e t → K t) (hrest : ∀ s, R s → ¬ K s)
    {s t : σ} {es : List ε} (hs : K s) (h : exec step s es = some t) (ht : R t) :
    ¬ Along step D s es := by
  induction es generalizing s with
  | nil =>
    obtain rfl := Option.some.inj h
    exact fun _ => hrest s ht hs
  | cons e es ih =>
    obtain ⟨u, hu, h⟩ := exec_cons_eq_some.mp h
    intro hD
    obtain ⟨hDu, hD⟩ := hD u hu
    exact ih (hkeep s e u hs hu hDu) h hD

/-- A breach of `C` that lasts, under `D`, until the run comes to rest, where there is none:
so a run that comes to rest and satisfies `D` satisfies `C`. -/
theorem Along.of_rest {C D : σ → ε → σ → Prop} {J K R : σ → Prop}
    (hJ : ∀ s e t, J s → C s e t → step s e = some t → J t)
    (hbreach : ∀ s e t, J s → ¬ C s e t → step s e = some t → D s e t → K t)
    (hkeep : ∀ s e t, K s → step s e = some t → D s e t → K t) (hrest : ∀ s, R s → ¬ K s)
    {s t : σ} {es : List ε} (hs : J s) (h : exec step s es = some t) (ht : R t)
    (hD : Along step D s es) : Along step C s es := by
  induction es generalizing s with
  | nil => trivial
  | cons e es ih =>
    obtain ⟨v, hv, h⟩ := exec_cons_eq_some.mp h
    obtain ⟨hDv, hD⟩ := hD v hv
    have hC : C s e v := by
      by_contra hC
      exact not_along_of_breach hkeep hrest (hbreach s e v hs hC hv hDv) h ht hD
    exact .cons hv hC (ih (hJ s e v hs hC hv) h hD)

/-- A condition that is exactly what keeps `J`, where a breach of `J` shows in one of the
continuations `B`: it holds along the runs that satisfy `D` however they are continued, at their
end and at every point before. -/
theorem along_iff_continued {C D : σ → ε → σ → Prop} {J : σ → Prop} {B : List ε → Prop}
    (hJ : ∀ s e t, J s → step s e = some t → (C s e t ↔ J t))
    (hD : ∀ s e t, J s → step s e = some t → D s e t)
    (hB : ∀ s bs, J s → B bs → Along step C s bs)
    (hbreach : ∀ s, ¬ J s → ∃ bs, B bs ∧ ¬ Along step D s bs) {s : σ} (hs : J s) (es : List ε) :
    Along step C s es ↔ ∀ as, as <+: es → ∀ bs, B bs → Along step D s (as ++ bs) := by
  have hCD : ∀ s es, J s → Along step C s es → Along step D s es := fun s es hs hC =>
    hC.imp_of_invariant (fun s e t hs hC ht => ⟨(hJ s e t hs ht).mp hC, hD s e t hs ht⟩) hs
  constructor
  · rintro hC as ⟨cs, rfl⟩ bs hbs
    induction as generalizing s with
    | nil => exact hCD s bs hs (hB s bs hs hbs)
    | cons a as ih =>
      intro t ht
      obtain ⟨hCt, hC⟩ := hC t ht
      exact ⟨hD s a t hs ht, ih ((hJ s a t hs ht).mp hCt) hC⟩
  · intro hall
    induction es generalizing s with
    | nil => trivial
    | cons e es ih =>
      intro t ht
      have hJt : J t := by
        by_contra hJt
        obtain ⟨bs, hbs, hnot⟩ := hbreach t hJt
        exact hnot (hall [e] ⟨es, rfl⟩ bs hbs t ht).2
      refine ⟨(hJ s e t hs ht).mpr hJt, ih hJt fun as has bs hbs => ?_⟩
      exact (hall (e :: as) ((List.prefix_cons_inj e).mpr has) bs hbs t ht).2

/-- The rank rule: where events of one kind lower a rank and the others never raise it, a run has
no more events of that kind than the rank at its start. -/
theorem countP_add_rank_le (rank : σ → Nat) {own : ε → Bool} {C : ε → Prop}
    (hown : ∀ s e t, own e = true → step s e = some t → rank t < rank s)
    (hother : ∀ s e t, own e = false → C e → step s e = some t → rank t ≤ rank s)
    {s t : σ} {es : List ε} (hC : ∀ e ∈ es, C e) (h : exec step s es = some t) :
    es.countP own + rank t ≤ rank s := by
  induction es generalizing s with
  | nil =>
    obtain rfl := Option.some.inj h
    exact Nat.le_of_eq (Nat.zero_add (rank s))
  | cons e es ih =>
    obtain ⟨u, hu, h⟩ := exec_cons_eq_some.mp h
    obtain ⟨hCe, hC⟩ := List.forall_mem_cons.mp hC
    have hle := ih hC h
    cases he : own e with
    | true =>
      have hlt := hown s e u he hu
      rw [List.countP_cons_of_pos he]
      omega
    | false =>
      have hkept := hother s e u he hCe hu
      rw [List.countP_cons_of_neg (by simp [he])]
      exact Nat.le_trans hle hkept

/-- A step function with outputs, as a step function on states that carry the log of
all outputs so far. -/
def traced (step : σ → ε → Option (σ × List ω)) : σ × List ω → ε → Option (σ × List ω) :=
  fun s e => (step s.1 e).map fun r => (r.1, s.2 ++ r.2)

theorem traced_eq_some {step : σ → ε → Option (σ × List ω)} {s t : σ × List ω} {e : ε} :
    traced step s e = some t ↔ ∃ out, step s.1 e = some (t.1, out) ∧ t.2 = s.2 ++ out := by
  simp only [traced, Option.map_eq_some_iff, Prod.exists]
  constructor
  · rintro ⟨t', out, hstep, rfl⟩
    exact ⟨out, hstep, rfl⟩
  · rintro ⟨out, hstep, hlog⟩
    exact ⟨t.1, out, hstep, Prod.ext rfl hlog.symm⟩

theorem exec_traced {step : σ → ε → Option (σ × List ω)} {s t : σ} {log log' : List ω}
    {es : List ε} : exec (traced step) (s, log) es = some (t, log') ↔
      ∃ out, exec (traced step) (s, []) es = some (t, out) ∧ log' = log ++ out := by
  induction es generalizing s log log' with
  | nil =>
    simp only [exec_nil, Option.some.injEq, Prod.mk.injEq]
    constructor
    · rintro ⟨rfl, rfl⟩
      exact ⟨[], ⟨rfl, rfl⟩, (List.append_nil log).symm⟩
    · rintro ⟨out, ⟨rfl, rfl⟩, rfl⟩
      exact ⟨rfl, (List.append_nil log).symm⟩
  | cons e es ih =>
    simp only [exec_cons_eq_some, traced_eq_some, Prod.exists]
    constructor
    · rintro ⟨u, _, ⟨out, hstep, rfl⟩, h⟩
      obtain ⟨rest, hrest, rfl⟩ := ih.mp h
      exact ⟨out ++ rest, ⟨u, out, ⟨out, hstep, rfl⟩, ih.mpr ⟨rest, hrest, rfl⟩⟩,
        List.append_assoc log out rest⟩
    · rintro ⟨_, ⟨u, out, ⟨_, hstep, rfl⟩, h⟩, rfl⟩
      obtain ⟨rest, hrest, rfl⟩ := ih.mp h
      refine ⟨u, log ++ out, ⟨out, hstep, rfl⟩, ih.mpr ⟨rest, hrest, ?_⟩⟩
      exact (List.append_assoc log out rest).symm

theorem exec_traced_cons {step : σ → ε → Option (σ × List ω)} {s t : σ} {e : ε} {es : List ε}
    {log : List ω} : exec (traced step) (s, []) (e :: es) = some (t, log) ↔
      ∃ u out rest, step s e = some (u, out) ∧ exec (traced step) (u, []) es = some (t, rest) ∧
        log = out ++ rest := by
  rw [exec_cons_eq_some]
  constructor
  · rintro ⟨⟨u, mid⟩, hu, h⟩
    obtain ⟨out, hstep, hmid⟩ := traced_eq_some.mp hu
    obtain ⟨rest, hrest, rfl⟩ := exec_traced.mp h
    exact ⟨u, out, rest, hstep, hrest, congrArg (· ++ rest) hmid⟩
  · rintro ⟨u, out, rest, hstep, hrest, rfl⟩
    exact ⟨(u, out), traced_eq_some.mpr ⟨out, hstep, rfl⟩, exec_traced.mpr ⟨rest, hrest, rfl⟩⟩

theorem along_append {step : σ → ε → Option σ} {C : σ → ε → σ → Prop} {s : σ} {as bs : List ε} :
    Along step C s (as ++ bs) ↔
      Along step C s as ∧ ∀ t, exec step s as = some t → Along step C t bs := by
  induction as generalizing s with
  | nil =>
    constructor
    · intro h
      refine ⟨trivial, fun t ht => ?_⟩
      obtain rfl := Option.some.inj ht
      exact h
    · exact fun h => h.2 s rfl
  | cons e es ih =>
    constructor
    · intro h
      refine ⟨fun t ht => ⟨(h t ht).1, (ih.mp (h t ht).2).1⟩, fun u hu => ?_⟩
      obtain ⟨t, ht, hrest⟩ := exec_cons_eq_some.mp hu
      exact (ih.mp (h t ht).2).2 u hrest
    · rintro ⟨h, hrest⟩ t ht
      refine ⟨(h t ht).1, ih.mpr ⟨(h t ht).2, fun u hu => ?_⟩⟩
      exact hrest u (exec_cons_eq_some.mpr ⟨t, ht, hu⟩)

theorem along_traced {step : σ → ε → Option (σ × List ω)} {C : σ → ε → σ → Prop} {s : σ}
    {log : List ω} {es : List ε} :
    Along (traced step) (fun x e y => C x.1 e y.1) (s, log) es ↔
      Along (fun s e => (step s e).map Prod.fst) C s es := by
  induction es generalizing s log with
  | nil => exact Iff.rfl
  | cons e es ih =>
    constructor
    · intro h t ht
      obtain ⟨⟨u, out⟩, hstep, rfl⟩ := Option.map_eq_some_iff.mp ht
      obtain ⟨hnow, hlater⟩ := h (u, log ++ out) (traced_eq_some.mpr ⟨out, hstep, rfl⟩)
      exact ⟨hnow, ih.mp hlater⟩
    · rintro h ⟨u, log'⟩ hu
      obtain ⟨out, hstep, -⟩ := traced_eq_some.mp hu
      obtain ⟨hnow, hlater⟩ := h u (Option.map_eq_some_iff.mpr ⟨(u, out), hstep, rfl⟩)
      exact ⟨hnow, ih.mpr hlater⟩

theorem exec_untraced {step : σ → ε → Option (σ × List ω)} {s t : σ} {log log' : List ω}
    {es : List ε} (h : exec (traced step) (s, log) es = some (t, log')) :
    exec (fun s e => (step s e).map Prod.fst) s es = some t := by
  induction es generalizing s log with
  | nil =>
    obtain ⟨rfl, -⟩ := Prod.mk.inj (Option.some.inj h)
    rfl
  | cons e es ih =>
    obtain ⟨⟨u, mid⟩, hu, h⟩ := exec_cons_eq_some.mp h
    obtain ⟨out, hstep, -⟩ := traced_eq_some.mp hu
    exact exec_cons_eq_some.mpr ⟨u, Option.map_eq_some_iff.mpr ⟨_, hstep, rfl⟩, ih h⟩

def recorded (step : σ → ε → Option σ) : σ × List (σ × ε) → ε → Option (σ × List (σ × ε)) :=
  traced fun s e => (step s e).map fun t => (t, [(s, e)])

theorem recorded_eq_some {s t : σ × List (σ × ε)} {e : ε} :
    recorded step s e = some t ↔ step s.1 e = some t.1 ∧ t.2 = s.2 ++ [(s.1, e)] := by
  rw [recorded, traced_eq_some]
  simp only [Option.map_eq_some_iff, Prod.mk.injEq]
  constructor
  · rintro ⟨out, ⟨u, hu, rfl, rfl⟩, hlog⟩
    exact ⟨hu, hlog⟩
  · rintro ⟨hstep, hlog⟩
    exact ⟨_, ⟨t.1, hstep, rfl, rfl⟩, hlog⟩

end VChat.Transition
