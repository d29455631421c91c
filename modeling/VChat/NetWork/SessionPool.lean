import VChat.Chat.World
import VChat.Transition.BoundedStack
import VChat.Transition.Placement
import VChat.Transition.Runs

/-! Sessions recycled through a pool, by any number of threads in `create_session` and
`close_session`. The pool is a bounded stack whose `push` and `pop` are one step each. -/

namespace VChat.NetWork.SessionPool
open Transition

/-- What a thread does next. A call of `close_session` carries how often its session had been
handed out when the call began. -/
inductive Pc where
  | idle
  | reset (s : VSessionRef) (nth : Nat)
  | push (s : VSessionRef) (nth : Nat)
  | resetUser (s : VSessionRef) (nth : Nat)
  | closeSocket (s : VSessionRef) (nth : Nat)
  | destroy (s : VSessionRef)
  | pop
  | create
  | created (s : VSessionRef) (recycled : Bool)

/-- `socketOpen` and `user` are the sessions' `socket_` and `user_`; `refs` are the sessions of the
live `session_ref`s, and `handed` counts how often `create_session` returned a session. -/
structure Manager (recycleSession : Nat) where
  poolSession : BoundedStack VSessionRef recycleSession
  socketOpen : VSessionRef → Bool
  user : VSessionRef → Option VChatUserRef
  nextSession : Nat
  refs : List VSessionRef
  handed : VSessionRef → Nat
  thread : Nat → Pc

/-- `closeSession`: the last `session_ref` of the session goes away in this thread. The last three
are the owners' doing: a connection is accepted, the socket closed, a user bound. -/
inductive Event where
  | createSession (t : Nat)
  | closeSession (t : Nat) (s : VSessionRef)
  | proceed (t : Nat)
  | accept (s : VSessionRef)
  | close (s : VSessionRef)
  | setUser (s : VSessionRef) (refUser : Option VChatUserRef)

variable {n : Nat}

namespace Manager

def goto (m : Manager n) (t : Nat) (pc : Pc) : Manager n :=
  { m with thread := fun i => if i = t then pc else m.thread i }

def setSocket (m : Manager n) (s : VSessionRef) (isOpen : Bool) : Manager n :=
  { m with socketOpen := fun i => if i = s then isOpen else m.socketOpen i }

def setUser (m : Manager n) (s : VSessionRef) (refUser : Option VChatUserRef) : Manager n :=
  { m with user := fun i => if i = s then refUser else m.user i }

def handOut (m : Manager n) (s : VSessionRef) : Manager n :=
  { m with refs := m.refs ++ [s], handed := fun i => if i = s then m.handed i + 1 else m.handed i }

end Manager

/-- `session::reset` reaches the user only; what it does there is not the pool's. -/
def proceed (m : Manager n) (t : Nat) : Option (Manager n) :=
  match m.thread t with
  | .idle => none
  | .reset s nth => some (m.goto t (.push s nth))
  | .push s nth =>
    let r := m.poolSession.push s
    some ({ m with poolSession := r.2 }.goto t (if r.1 then .resetUser s nth else .destroy s))
  | .resetUser s nth => some ((m.setUser s none).goto t (.closeSocket s nth))
  | .closeSocket s _ => some ((m.setSocket s false).goto t .idle)
  | .destroy _ => some (m.goto t .idle)
  | .pop =>
    let r := m.poolSession.pop
    match r.1 with
    | some s => some ({ m with poolSession := r.2 }.goto t (.created s true))
    | none => some (m.goto t .create)
  | .create =>
    let s := m.nextSession
    some ((({ m with nextSession := s + 1 }.setSocket s false).setUser s none).goto t
      (.created s false))
  | .created s _ => some ((m.handOut s).goto t .idle)

def isIdle (m : Manager n) (t : Nat) : Bool :=
  match m.thread t with
  | .idle => true
  | _ => false

def step (m : Manager n) : Event → Option (Manager n)
  | .createSession t => if isIdle m t then some (m.goto t .pop) else none
  | .closeSession t s =>
    if isIdle m t ∧ s ∈ m.refs then
      some ({ m with refs := m.refs.erase s }.goto t (.reset s (m.handed s)))
    else none
  | .proceed t => proceed m t
  | .accept s => if s ∈ m.refs then some (m.setSocket s true) else none
  | .close s => if s ∈ m.refs then some (m.setSocket s false) else none
  | .setUser s refUser => if s ∈ m.refs then some (m.setUser s refUser) else none

def start : Manager n :=
  ⟨.empty, fun _ => false, fun _ => none, 0, [], fun _ => 0, fun _ => .idle⟩

inductive Holder where
  | pool
  | refs
  | thread (t : Nat)
deriving DecidableEq

def Pc.hand : Pc → List VSessionRef
  | .reset s _ => [s]
  | .push s _ => [s]
  | .destroy s => [s]
  | .created s _ => [s]
  | _ => []

def heldBy (m : Manager n) : Holder → List VSessionRef
  | .pool => m.poolSession.elems
  | .refs => m.refs
  | .thread t => (m.thread t).hand

/-- Every session is in one place: the pool, a `session_ref`, or the hand of one thread. -/
def Placed (m : Manager n) : Prop :=
  ∃ place, Agrees (heldBy m) place ∧ ∀ s, m.nextSession ≤ s → place s = none

section
variable {m m' : Manager n} {t : Nat} {s : VSessionRef}

theorem Placed.same (h : Placed m) (hheld : ∀ r, heldBy m' r = heldBy m r)
    (hnext : m'.nextSession = m.nextSession) : Placed m' := by
  obtain ⟨place, hagrees, hnew⟩ := h
  exact ⟨place, hagrees.perm fun r => by rw [hheld], fun s hs => hnew s (hnext ▸ hs)⟩

theorem Placed.goto (h : Placed m) {pc : Pc} (hpc : pc.hand = (m.thread t).hand) :
    Placed (m.goto t pc) := by
  apply h.same
  · intro r
    cases r with
    | pool => rfl
    | refs => rfl
    | thread i =>
      show (if i = t then pc else m.thread i).hand = (m.thread i).hand
      split_ifs with hi
      · rw [hpc, hi]
      · rfl
  · rfl

theorem Placed.move (h : Placed m) {r q : Holder} (hs : s ∈ heldBy m r) (hq : q ≠ r)
    (hheld : ∀ k, (heldBy m' k).Perm (if k = r then (heldBy m k).erase s
      else if k = q then s :: heldBy m k else heldBy m k))
    (hnext : m'.nextSession = m.nextSession) : Placed m' := by
  obtain ⟨place, hagrees, hnew⟩ := h
  refine ⟨_, hagrees.move hs hheld hq, fun v hv => ?_⟩
  have hv' : place v = none := hnew v (hnext ▸ hv)
  have hne : v ≠ s := by
    rintro rfl
    simp [hagrees.mem_iff.mp hs] at hv'
  simp only [if_neg hne, hv']

theorem Placed.putDown (h : Placed m) {pc : Pc} {q : Holder} (hs : (m.thread t).hand = [s])
    (hpc : pc.hand = []) (hthread : ∀ i, m'.thread i = if i = t then pc else m.thread i)
    (hq : ∀ i, q ≠ .thread i) (hgiven : (heldBy m' q).Perm (s :: heldBy m q))
    (hpool : q = .pool ∨ m'.poolSession = m.poolSession) (hrefs : q = .refs ∨ m'.refs = m.refs)
    (hnext : m'.nextSession = m.nextSession) : Placed m' := by
  have hmem : s ∈ heldBy m (.thread t) := by simp [heldBy, hs]
  refine h.move hmem (hq t) (fun k => ?_) hnext
  by_cases hkq : k = q
  · rw [hkq, if_neg (hq t), if_pos rfl]
    exact hgiven
  · rw [if_neg hkq]
    cases k with
    | thread i =>
      by_cases hi : i = t
      · simp [heldBy, hthread, hi, hpc, hs]
      · simp [heldBy, hthread, hi]
    | pool => simp [heldBy, hpool.resolve_left (Ne.symm hkq)]
    | refs => simp [heldBy, hrefs.resolve_left (Ne.symm hkq)]

theorem Placed.takeUp (h : Placed m) {pc : Pc} {r : Holder} (hs : s ∈ heldBy m r)
    (hidle : (m.thread t).hand = []) (hpc : pc.hand = [s])
    (hthread : ∀ i, m'.thread i = if i = t then pc else m.thread i)
    (hr : ∀ i, r ≠ .thread i) (htaken : heldBy m' r = (heldBy m r).erase s)
    (hpool : r = .pool ∨ m'.poolSession = m.poolSession) (hrefs : r = .refs ∨ m'.refs = m.refs)
    (hnext : m'.nextSession = m.nextSession) : Placed m' := by
  refine h.move hs (hr t).symm (fun k => ?_) hnext
  by_cases hkr : k = r
  · rw [hkr, if_pos rfl, htaken]
  · rw [if_neg hkr]
    cases k with
    | thread i =>
      by_cases hi : i = t
      · simp [heldBy, hthread, hi, hpc, hidle]
      · simp [heldBy, hthread, hi]
    | pool => simp [heldBy, hpool.resolve_left (Ne.symm hkr)]
    | refs => simp [heldBy, hrefs.resolve_left (Ne.symm hkr)]

theorem Placed.create (h : Placed m)
    (hheld : ∀ k, heldBy m' k = if k = .thread t then heldBy m k ++ [m.nextSession] else heldBy m k)
    (hnext : m'.nextSession = m.nextSession + 1) : Placed m' := by
  obtain ⟨place, hagrees, hnew⟩ := h
  refine ⟨_, hagrees.append (hnew _ (Nat.le_refl _)) hheld fun _ => rfl, fun v hv => ?_⟩
  rw [hnext] at hv
  simp only [if_neg (Nat.ne_of_gt hv), hnew v (Nat.le_of_succ_le hv)]

theorem Placed.destroy (h : Placed m) (hpc : m.thread t = .destroy s) :
    Placed (m.goto t .idle) := by
  obtain ⟨place, hagrees, hnew⟩ := h
  have hs : s ∈ heldBy m (.thread t) := by simp [heldBy, hpc, Pc.hand]
  refine ⟨_, hagrees.erase hs (fun k => ?_) fun _ => rfl, fun v hv => ?_⟩
  · cases k with
    | pool => rfl
    | refs => rfl
    | thread i =>
      by_cases hi : i = t
      · subst hi
        simp [heldBy, hpc, Pc.hand, Manager.goto]
      · simp [heldBy, Manager.goto, hi]
  · have hv' : place v = none := hnew v hv
    simp only [hv', ite_self]

theorem Placed.proceed (h : Placed m) (hstep : proceed m t = some m') : Placed m' := by
  unfold SessionPool.proceed at hstep
  cases hpc : m.thread t with
  | idle => simp [hpc] at hstep
  | reset s nth =>
    obtain rfl := by simpa [hpc] using hstep
    exact h.goto (by simp [hpc, Pc.hand])
  | push s nth =>
    obtain rfl := by simpa [hpc] using hstep
    by_cases hfull : m.poolSession.elems.length < n
    · simp only [m.poolSession.push_of_lt hfull, if_true]
      have hs : (m.thread t).hand = [s] := by simp [hpc, Pc.hand]
      exact h.putDown (q := .pool) hs rfl (fun _ => rfl) (by simp) (.refl _) (.inl rfl) (.inr rfl)
        rfl
    · simp only [m.poolSession.push_of_full (Nat.not_lt.mp hfull), Bool.false_eq_true, if_false]
      exact h.goto (by simp [hpc, Pc.hand])
  | resetUser s nth =>
    obtain rfl := by simpa [hpc] using hstep
    exact (h.goto (by simp [hpc, Pc.hand])).same (fun _ => rfl) rfl
  | closeSocket s nth =>
    obtain rfl := by simpa [hpc] using hstep
    exact (h.goto (by simp [hpc, Pc.hand])).same (fun _ => rfl) rfl
  | destroy s =>
    obtain rfl := by simpa [hpc] using hstep
    exact h.destroy hpc
  | pop =>
    cases hpool : m.poolSession.elems with
    | nil =>
      obtain rfl := by simpa [hpc, BoundedStack.pop, hpool] using hstep
      exact h.goto (by simp [hpc, Pc.hand])
    | cons s rest =>
      obtain rfl := by simpa [hpc, BoundedStack.pop, hpool] using hstep
      have hs : s ∈ heldBy m .pool := by simp [heldBy, hpool]
      refine h.takeUp hs (by simp [hpc, Pc.hand]) rfl (fun _ => rfl) (by simp) ?_ (.inl rfl)
        (.inr rfl) rfl
      simp [heldBy, hpool, Manager.goto]
  | create =>
    obtain rfl := by simpa [hpc] using hstep
    refine h.create (t := t) (fun k => ?_) rfl
    cases k with
    | pool => rfl
    | refs => rfl
    | thread i =>
      by_cases hi : i = t
      · subst hi
        simp [heldBy, hpc, Pc.hand, Manager.goto, Manager.setSocket, Manager.setUser]
      · simp [heldBy, Manager.goto, Manager.setSocket, Manager.setUser, hi]
  | created s recycled =>
    obtain rfl := by simpa [hpc] using hstep
    have hs : (m.thread t).hand = [s] := by simp [hpc, Pc.hand]
    exact h.putDown (q := .refs) hs rfl (fun _ => rfl) (by simp)
      (List.perm_append_singleton s m.refs) (.inr rfl) (.inl rfl) rfl

theorem isIdle_iff : isIdle m t = true ↔ m.thread t = .idle := by
  unfold isIdle
  cases m.thread t <;> simp

theorem Placed.step {e : Event} (h : Placed m) (hstep : step m e = some m') : Placed m' := by
  cases e with
  | createSession t =>
    obtain ⟨hidle, rfl⟩ := by simpa [SessionPool.step, isIdle_iff] using hstep
    exact h.goto (by simp [hidle, Pc.hand])
  | closeSession t s =>
    obtain ⟨⟨hidle, hs⟩, rfl⟩ := by simpa [SessionPool.step, isIdle_iff] using hstep
    exact h.takeUp (r := .refs) hs (by simp [hidle, Pc.hand]) rfl (fun _ => rfl) (by simp) rfl
      (.inr rfl) (.inl rfl) rfl
  | proceed t => exact h.proceed hstep
  | accept s =>
    obtain ⟨-, rfl⟩ := by simpa [SessionPool.step] using hstep
    exact h.same (fun _ => rfl) rfl
  | close s =>
    obtain ⟨-, rfl⟩ := by simpa [SessionPool.step] using hstep
    exact h.same (fun _ => rfl) rfl
  | setUser s refUser =>
    obtain ⟨-, rfl⟩ := by simpa [SessionPool.step] using hstep
    exact h.same (fun _ => rfl) rfl

theorem Placed.holder_unique (h : Placed m) {r q : Holder} (hr : s ∈ heldBy m r)
    (hq : s ∈ heldBy m q) : r = q := by
  obtain ⟨place, hagrees, -⟩ := h
  exact Option.some.inj ((hagrees.mem_iff.mp hr).symm.trans (hagrees.mem_iff.mp hq))

theorem Placed.nodup (h : Placed m) : m.refs.Nodup := by
  obtain ⟨place, hagrees, -⟩ := h
  exact hagrees.nodup .refs

end

end VChat.NetWork.SessionPool
