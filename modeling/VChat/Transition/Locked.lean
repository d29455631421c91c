import VChat.Transition.Calls
import VChat.Transition.Runs
import Mathlib.Logic.Function.Basic

/-! An object that threads, any number of them, use under one lock, every operation in steps of its
own. What the calls return is what they return one after the other, in the order in which they get
the lock, which each does between its call and its return. -/

namespace VChat.Transition

/-- The steps of the operations: where one begins, and what a step makes of the object and of the
place it is at, which in the end is what the call returns. -/
structure Guarded (σ ε L ω : Type*) where
  enter : ε → L
  work : σ → L → σ × (L ⊕ ω)

namespace Guarded
variable {σ ε L ω : Type*}

inductive Phase (ε L ω : Type*) where
  | idle
  | waiting (e : ε)
  | inside (l : L)
  | leaving (r : ω)

structure State (σ ε L ω : Type*) where
  object : σ
  owner : Option Nat
  phase : Nat → Phase ε L ω

inductive Event (ε : Type*) where
  | call (i : Nat) (e : ε)
  | lock (i : Nat)
  | work (i : Nat)
  | unlock (i : Nat)

inductive Output (ε ω : Type*) where
  | called (i : Nat) (e : ε)
  | locked (i : Nat) (e : ε)
  | returned (i : Nat) (r : ω)

def Output.thread : Output ε ω → Nat
  | .called i _ => i
  | .locked i _ => i
  | .returned i _ => i

def opened (object : σ) : State σ ε L ω := ⟨object, none, fun _ => .idle⟩

variable (g : Guarded σ ε L ω)

def step (s : State σ ε L ω) : Event ε → Option (State σ ε L ω × List (Output ε ω))
  | .call i e =>
    match s.phase i with
    | .idle => some (⟨s.object, s.owner, Function.update s.phase i (.waiting e)⟩, [.called i e])
    | _ => none
  | .lock i =>
    match s.phase i, s.owner with
    | .waiting e, none => some
      (⟨s.object, some i, Function.update s.phase i (.inside (g.enter e))⟩, [.locked i e])
    | _, _ => none
  | .work i =>
    match s.phase i with
    | .inside l =>
      match g.work s.object l with
      | (object, .inl l') => some
        (⟨object, s.owner, Function.update s.phase i (.inside l')⟩, [])
      | (object, .inr r) => some
        (⟨object, s.owner, Function.update s.phase i (.leaving r)⟩, [])
    | _ => none
  | .unlock i =>
    match s.phase i with
    | .leaving r => some
      (⟨s.object, none, Function.update s.phase i .idle⟩, [.returned i r])
    | _ => none

inductive Ends : σ → L → ω × σ → Prop
  | last {s t : σ} {l : L} {r : ω} (h : g.work s l = (t, .inr r)) : Ends s l (r, t)
  | next {s t : σ} {l l' : L} {x : ω × σ} (h : g.work s l = (t, .inl l')) (hx : Ends t l' x) :
    Ends s l x

def entered (log : List (Output ε ω)) : List (Nat × ε) :=
  log.filterMap fun
    | .locked i e => some (i, e)
    | _ => none

def results (log : List (Output ε ω)) : List (Nat × ω) :=
  log.filterMap fun
    | .returned i r => some (i, r)
    | _ => none

def inTurn (call : σ → ε → ω × σ) (s : σ) (calls : List (Nat × ε)) : List (Nat × ω) :=
  (calls.map Prod.fst).zip (answers call s (calls.map Prod.snd))

def after (call : σ → ε → ω × σ) (s : σ) (calls : List (Nat × ε)) : σ :=
  calls.foldl (fun s x => (call s x.2).2) s

inductive Stage where
  | out
  | asking
  | within

def Stage.next : Stage → Output ε ω → Option Stage
  | .out, .called _ _ => some .asking
  | .asking, .locked _ _ => some .within
  | .within, .returned _ _ => some .out
  | _, _ => none

def Phase.stage : Phase ε L ω → Stage
  | .idle => .out
  | .waiting _ => .asking
  | .inside _ => .within
  | .leaving _ => .within

def Phase.holds : Phase ε L ω → Bool
  | .inside _ => true
  | .leaving _ => true
  | _ => false

inductive Holds (call : σ → ε → ω × σ) (s : σ) (e : ε) : σ → Phase ε L ω → Prop
  | inside {object : σ} {l : L} (h : g.Ends object l (call s e)) : Holds call s e object (.inside l)
  | leaving {object : σ} {r : ω} (h : call s e = (r, object)) : Holds call s e object (.leaving r)

/-- `done` are the calls that have returned. -/
structure Serial (call : σ → ε → ω × σ) (s₀ : σ) (s : State σ ε L ω) (log : List (Output ε ω))
    (done : List (Nat × ε)) : Prop where
  results : results log = inTurn call s₀ done
  stage : ∀ i, exec Stage.next .out (log.filter fun o => o.thread = i) = some (s.phase i).stage
  alone : ∀ i, (s.phase i).holds = true ↔ s.owner = some i
  free : s.owner = none → entered log = done ∧ s.object = after call s₀ done
  held : ∀ i, s.owner = some i → ∃ e, entered log = done ++ [(i, e)] ∧
    g.Holds call (after call s₀ done) e s.object (s.phase i)

variable {g} {call : σ → ε → ω × σ} {s₀ : σ} {s t : State σ ε L ω} {log : List (Output ε ω)}
  {done : List (Nat × ε)}

theorem entered_append (log out : List (Output ε ω)) :
    entered (log ++ out) = entered log ++ entered out := List.filterMap_append

theorem results_append (log out : List (Output ε ω)) :
    results (log ++ out) = results log ++ results out := List.filterMap_append

theorem serial_opened (s₀ : σ) : Serial g call s₀ (opened s₀) [] [] :=
  ⟨rfl, fun _ => rfl, fun _ => by simp [opened, Phase.holds], fun _ => ⟨rfl, rfl⟩,
    fun _ hi => by simp [opened] at hi⟩

theorem stage_update {i : Nat} {p : Phase ε L ω} {o : Output ε ω}
    (h : ∀ j, exec Stage.next .out (log.filter fun o => o.thread = j) = some (s.phase j).stage)
    (hi : o.thread = i) (hnext : (s.phase i).stage.next o = some p.stage) (j : Nat) :
    exec Stage.next .out ((log ++ [o]).filter fun o => o.thread = j) =
      some (Function.update s.phase i p j).stage := by
  rw [List.filter_append]
  by_cases hj : j = i
  · subst hj
    rw [Function.update_self, List.filter_singleton, decide_eq_true hi]
    apply (exec_append_eq_some _ _).mpr
    exact ⟨_, h j, exec_cons_eq_some.mpr ⟨_, hnext, rfl⟩⟩
  · have hne : ¬ o.thread = j := fun h => hj (h.symm.trans hi)
    rw [Function.update_of_ne hj, List.filter_singleton, decide_eq_false hne, cond_false,
      List.append_nil]
    exact h j

theorem holds_update {i : Nat} {p : Phase ε L ω} {owner : Option Nat}
    (h : ∀ j, (s.phase j).holds = true ↔ s.owner = some j) (hp : p.holds = true ↔ owner = some i)
    (hother : ∀ j, j ≠ i → (owner = some j ↔ s.owner = some j)) (j : Nat) :
    (Function.update s.phase i p j).holds = true ↔ owner = some j := by
  by_cases hj : j = i
  · subst hj
    rw [Function.update_self]
    exact hp
  · rw [Function.update_of_ne hj, h j, hother j hj]

theorem Serial.owner_ne (h : Serial g call s₀ s log done) {i : Nat}
    (hi : (s.phase i).holds = false) : s.owner ≠ some i := by
  intro howner
  rw [(h.alone i).mpr howner] at hi
  cases hi

theorem Serial.calls (h : Serial g call s₀ s log done) {i : Nat} (e : ε)
    (hi : s.phase i = .idle) :
    Serial g call s₀ ⟨s.object, s.owner, Function.update s.phase i (.waiting e)⟩
      (log ++ [.called i e]) done := by
  have howner := h.owner_ne (i := i) (by rw [hi]; rfl)
  have hentered : entered (log ++ [.called i e]) = entered log := by
    rw [entered_append]
    exact List.append_nil _
  refine ⟨?_, stage_update h.stage rfl (by rw [hi]; rfl),
    holds_update h.alone ?_ fun _ _ => Iff.rfl, fun hfree => ?_, fun j hj => ?_⟩
  · rw [results_append, h.results]
    exact List.append_nil _
  · simp [Phase.holds, howner]
  · rw [hentered]
    exact h.free hfree
  · obtain ⟨e', hlast, hholds⟩ := h.held j hj
    have hne : j ≠ i := fun heq => howner (heq ▸ hj)
    refine ⟨e', hentered.trans hlast, ?_⟩
    show g.Holds call _ e' s.object (Function.update s.phase i _ j)
    rw [Function.update_of_ne hne]
    exact hholds

theorem Serial.enters (h : Serial g call s₀ s log done)
    (hcall : ∀ s e, g.Ends s (g.enter e) (call s e)) {i : Nat} {e : ε}
    (hi : s.phase i = .waiting e) (hfree : s.owner = none) :
    Serial g call s₀ ⟨s.object, some i, Function.update s.phase i (.inside (g.enter e))⟩
      (log ++ [.locked i e]) done := by
  obtain ⟨hentered, hobject⟩ := h.free hfree
  refine ⟨?_, stage_update h.stage rfl (by rw [hi]; rfl), holds_update h.alone ?_ fun j hj => ?_,
    nofun, fun j hj => ?_⟩
  · rw [results_append, h.results]
    exact List.append_nil _
  · simp [Phase.holds]
  · simp [hfree, Ne.symm hj]
  · obtain rfl := Option.some.inj hj
    refine ⟨e, ?_, ?_⟩
    · rw [entered_append, hentered]
      rfl
    · show g.Holds call _ e s.object (Function.update s.phase i _ i)
      rw [Function.update_self, ← hobject]
      exact .inside (hcall s.object e)

theorem Serial.works (h : Serial g call s₀ s log done) {i : Nat} {l : L}
    (hi : s.phase i = .inside l) {object : σ} {p : Phase ε L ω} (hp : p.holds = true)
    (hstep : ∀ s' e, g.Ends s.object l (call s' e) → g.Holds call s' e object p) :
    Serial g call s₀ ⟨object, s.owner, Function.update s.phase i p⟩ log done := by
  have howner : s.owner = some i := (h.alone i).mp (by rw [hi]; rfl)
  have hstage : p.stage = (s.phase i).stage := by
    rw [hi]
    cases p with
    | idle => cases hp
    | waiting e => cases hp
    | inside l => rfl
    | leaving r => rfl
  refine ⟨h.results, fun j => ?_, holds_update h.alone (by simp [hp, howner]) fun _ _ => Iff.rfl,
    fun hnone => ?_, fun j hj => ?_⟩
  · rw [h.stage j]
    show some (s.phase j).stage = some (Function.update s.phase i p j).stage
    by_cases hj : j = i
    · rw [hj, Function.update_self, hstage]
    · rw [Function.update_of_ne hj]
  · rw [howner] at hnone
    cases hnone
  · obtain rfl : i = j := Option.some.inj (howner.symm.trans hj)
    obtain ⟨e, hentered, hholds⟩ := h.held i howner
    refine ⟨e, hentered, ?_⟩
    rw [hi] at hholds
    show g.Holds call _ e object (Function.update s.phase i p i)
    rw [Function.update_self]
    cases hholds with
    | inside hends => exact hstep _ e hends

theorem answers_append_singleton (call : σ → ε → ω × σ) (s : σ) (es : List ε) (e : ε) :
    answers call s (es ++ [e]) =
      answers call s es ++ [(call (es.foldl (fun s e => (call s e).2) s) e).1] := by
  induction es generalizing s with
  | nil => rfl
  | cons e' es ih => rw [List.cons_append, answers_cons, answers_cons, ih, List.foldl_cons]; rfl

theorem length_answers (call : σ → ε → ω × σ) (s : σ) (es : List ε) :
    (answers call s es).length = es.length := by
  induction es generalizing s with
  | nil => rfl
  | cons e es ih => rw [answers_cons, List.length_cons, ih, List.length_cons]

theorem inTurn_append (call : σ → ε → ω × σ) (s : σ) (calls : List (Nat × ε)) (i : Nat) (e : ε) :
    inTurn call s (calls ++ [(i, e)]) =
      inTurn call s calls ++ [(i, (call (after call s calls) e).1)] := by
  have hafter : after call s calls =
      (calls.map Prod.snd).foldl (fun s e => (call s e).2) s := by
    rw [List.foldl_map, after]
  rw [inTurn, List.map_append, List.map_append, List.map_singleton, List.map_singleton,
    answers_append_singleton, List.zip_append, ← hafter]
  · rfl
  · rw [length_answers, List.length_map, List.length_map]

theorem Serial.leaves (h : Serial g call s₀ s log done) {i : Nat} {r : ω}
    (hi : s.phase i = .leaving r) :
    ∃ e, Serial g call s₀ ⟨s.object, none, Function.update s.phase i .idle⟩
      (log ++ [.returned i r]) (done ++ [(i, e)]) := by
  have howner : s.owner = some i := (h.alone i).mp (by rw [hi]; rfl)
  obtain ⟨e, hentered, hholds⟩ := h.held i howner
  rw [hi] at hholds
  have hcall : call (after call s₀ done) e = (r, s.object) := by
    cases hholds with
    | leaving hcall => exact hcall
  refine ⟨e, ?_, stage_update h.stage rfl (by rw [hi]; rfl), holds_update h.alone ?_
    fun j hj => ?_, fun _ => ⟨?_, ?_⟩, nofun⟩
  · rw [results_append, h.results, inTurn_append, hcall]
    rfl
  · simp [Phase.holds]
  · simp [howner, Ne.symm hj]
  · rw [entered_append, hentered]
    exact List.append_nil _
  · rw [after, List.foldl_append]
    exact (congrArg Prod.snd hcall).symm

theorem Serial.step (h : Serial g call s₀ s log done)
    (hcall : ∀ s e, g.Ends s (g.enter e) (call s e)) {e : Event ε} {out : List (Output ε ω)}
    (hstep : step g s e = some (t, out)) :
    ∃ done', Serial g call s₀ t (log ++ out) done' := by
  cases e with
  | call i e =>
    simp only [Guarded.step] at hstep
    split at hstep
    · rename_i hi
      obtain ⟨rfl, rfl⟩ := Prod.mk.inj (Option.some.inj hstep)
      exact ⟨done, h.calls e hi⟩
    · cases hstep
  | lock i =>
    simp only [Guarded.step] at hstep
    split at hstep
    · rename_i e hi hfree
      obtain ⟨rfl, rfl⟩ := Prod.mk.inj (Option.some.inj hstep)
      exact ⟨done, h.enters hcall hi hfree⟩
    · cases hstep
  | work i =>
    simp only [Guarded.step] at hstep
    split at hstep
    · rename_i l hi
      split at hstep
      · rename_i object l' hwork
        obtain ⟨rfl, rfl⟩ := Prod.mk.inj (Option.some.inj hstep)
        rw [List.append_nil]
        refine ⟨done, h.works hi rfl fun s' e hends => ?_⟩
        generalize hx : call s' e = x at hends
        cases hends with
        | last hlast =>
          rw [hwork] at hlast
          cases hlast
        | next hnext hrest =>
          rw [hwork] at hnext
          cases hnext
          exact .inside (hx ▸ hrest)
      · rename_i object r hwork
        obtain ⟨rfl, rfl⟩ := Prod.mk.inj (Option.some.inj hstep)
        rw [List.append_nil]
        refine ⟨done, h.works hi rfl fun s' e hends => ?_⟩
        generalize hx : call s' e = x at hends
        cases hends with
        | last hlast =>
          rw [hwork] at hlast
          cases hlast
          exact .leaving hx
        | next hnext hrest =>
          rw [hwork] at hnext
          cases hnext
    · cases hstep
  | unlock i =>
    simp only [Guarded.step] at hstep
    split at hstep
    · rename_i r hi
      obtain ⟨rfl, rfl⟩ := Prod.mk.inj (Option.some.inj hstep)
      obtain ⟨e, hleft⟩ := h.leaves hi
      exact ⟨_, hleft⟩
    · cases hstep

def Event.thread : Event ε → Nat
  | .call i _ => i
  | .lock i => i
  | .work i => i
  | .unlock i => i

theorem step_unlock {i : Nat} {r : ω} (hi : s.phase i = .leaving r) :
    Guarded.step g s (.unlock i) =
      some (⟨s.object, none, Function.update s.phase i .idle⟩, [.returned i r]) := by
  simp only [Guarded.step, hi]

theorem frees_cons {i : Nat} {e : Event ε} {out : List (Output ε ω)} (hi : e.thread = i)
    (hstep : Guarded.step g s e = some (t, out))
    (h : ∃ es u log', (∀ e ∈ es, Event.thread e = i) ∧
      exec (traced (Guarded.step g)) (t, log ++ out) es = some (u, log') ∧ u.owner = none) :
    ∃ es u log', (∀ e ∈ es, Event.thread e = i) ∧
      exec (traced (Guarded.step g)) (s, log) es = some (u, log') ∧ u.owner = none := by
  obtain ⟨es, u, log', hes, hrun, hu⟩ := h
  refine ⟨e :: es, u, log', List.forall_mem_cons.mpr ⟨hi, hes⟩, ?_, hu⟩
  exact exec_cons_eq_some.mpr ⟨(t, log ++ out), traced_eq_some.mpr ⟨out, hstep, rfl⟩, hrun⟩

theorem works_off {i : Nat} {l : L} {object : σ} {x : ω × σ} (h : g.Ends object l x)
    {s : State σ ε L ω} (hobject : s.object = object) (hi : s.phase i = .inside l)
    (log : List (Output ε ω)) :
    ∃ es t log', (∀ e ∈ es, Event.thread e = i) ∧
      exec (traced (Guarded.step g)) (s, log) es = some (t, log') ∧ t.owner = none := by
  induction h generalizing s log with
  | @last object object' l r hwork =>
    have hstep : Guarded.step g s (.work i) =
        some (⟨object', s.owner, Function.update s.phase i (.leaving r)⟩, []) := by
      simp only [Guarded.step, hi, hobject, hwork]
    have hleaving : (⟨object', s.owner, Function.update s.phase i (.leaving r)⟩ :
        State σ ε L ω).phase i = .leaving r := Function.update_self ..
    apply frees_cons rfl hstep
    apply frees_cons rfl (step_unlock hleaving)
    exact ⟨[], _, _, fun e he => absurd he List.not_mem_nil, rfl, rfl⟩
  | @next object object' l l' x hwork hrest ih =>
    have hstep : Guarded.step g s (.work i) =
        some (⟨object', s.owner, Function.update s.phase i (.inside l')⟩, []) := by
      simp only [Guarded.step, hi, hobject, hwork]
    apply frees_cons rfl hstep
    exact @ih ⟨object', s.owner, Function.update s.phase i (.inside l')⟩ rfl
      (Function.update_self ..) _

theorem Serial.frees (h : Serial g call s₀ s log done) {i : Nat} (hi : s.owner = some i) :
    ∃ es t log', (∀ e ∈ es, Event.thread e = i) ∧
      exec (traced (Guarded.step g)) (s, log) es = some (t, log') ∧ t.owner = none := by
  obtain ⟨e, -, hholds⟩ := h.held i hi
  generalize hphase : s.phase i = p at hholds
  cases hholds with
  | inside hends => exact works_off hends rfl hphase log
  | leaving hcall =>
    apply frees_cons rfl (step_unlock hphase)
    exact ⟨[], _, _, fun e he => absurd he List.not_mem_nil, rfl, rfl⟩

theorem serial_run (hcall : ∀ s e, g.Ends s (g.enter e) (call s e)) {es : List (Event ε)}
    (h : exec (traced (Guarded.step g)) (opened s₀, []) es = some (s, log)) :
    ∃ done, Serial g call s₀ s log done := by
  refine exec_invariant (I := fun x => ∃ done, Serial g call s₀ x.1 x.2 done)
    (fun x e y hx hstep => ?_) ⟨[], serial_opened s₀⟩ h
  obtain ⟨done, hx⟩ := hx
  obtain ⟨out, hstep, hlog⟩ := traced_eq_some.mp hstep
  rw [hlog]
  exact hx.step hcall hstep

end Guarded
end VChat.Transition
