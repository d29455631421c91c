import VChat.Common.RingClosed
import VChat.Transition.Runs
import VChat.Transition.Shared

/-! The server's accept loop over any number of threads, with the session pool as it is: made by
the constructor that takes a size. A session closes with its last reference. -/

namespace VChat.NetWork.AcceptLoop
open Transition
open RingRace (Pops Pushes Closed)

/-- A session by its address; 0 is the null pointer. -/
abbrev VSessionPtr := Nat

/-- What a thread does next, and the references on its stack that it has yet to give up. -/
inductive Pc where
  | idle
  | pop (refs : List VSessionPtr)
  | create (refs : List VSessionPtr)
  | accept (newSession : VSessionPtr) (refs : List VSessionPtr)
  | leave (refs : List VSessionPtr)
  | reset (session : VSessionPtr) (refs : List VSessionPtr)
  | push (session : VSessionPtr) (refs : List VSessionPtr)
  | destroy (session : VSessionPtr) (refs : List VSessionPtr)

/-- `pending` are the sessions that an `async_accept` waits with. `others` are the references held
by reads, writes and callers. `handed` is what `create_session` returned, and `failed` counts how
often that was null; `accepted` are the calls of `handle_accept`, each with whether it had no
error. -/
structure Server where
  pool : RingRace.State VSessionPtr
  thread : List Pc
  pending : List VSessionPtr
  useCount : VSessionPtr → Nat
  others : List VSessionPtr
  created : Nat
  handed : List VSessionPtr
  failed : Nat
  accepted : List (VSessionPtr × Bool)
  destroyed : List VSessionPtr

inductive Event where
  | handleAccept (t i : Nat) (ok starts : Bool)
  | hold (session : VSessionPtr)
  | drop (t : Nat) (session : VSessionPtr)
  | proceed (t : Nat) (dataFirst fails : Bool)

namespace Server

def goto (s : Server) (t : Nat) (pc : Pc) : Server := { s with thread := s.thread.set t pc }

def startAccept (s : Server) (t : Nat) (refs : List VSessionPtr) : Option Server :=
  (RingRace.step s.pool (.pop t)).map fun pool => { s with pool := pool }.goto t (.pop refs)

/-- `start` reads, with a reference of its own, unless it fails. -/
def start (s : Server) (session : VSessionPtr) (starts : Bool) : Server :=
  if starts then
    { s with useCount := acquire s.useCount session, others := s.others ++ [session] }
  else s

def handOut (s : Server) (t : Nat) (session : VSessionPtr) (refs : List VSessionPtr) : Server :=
  { s with
    useCount := Function.update s.useCount session 1
    handed := s.handed ++ [session] }.goto t (.accept session refs)

end Server

/-- `close_session` closes the socket of a session that went to the pool, and destroys any other. -/
def proceed (s : Server) (t : Nat) (dataFirst fails : Bool) : Option Server :=
  match s.thread[t]? with
  | none | some .idle => none
  | some (.pop refs) =>
    (RingRace.act s.pool t dataFirst).map fun pool =>
      match (s.pool.thread t).pc with
      | .popDone session =>
        if session ≠ 0 then { s with pool := pool }.handOut t session refs
        else { s with pool := pool }.goto t (.create refs)
      | _ => { s with pool := pool }
  | some (.create refs) =>
    if fails then some ({ s with failed := s.failed + 1 }.goto t (.accept 0 refs))
    else some ({ s with created := s.created + 1 }.handOut t (s.created + 1) refs)
  | some (.accept newSession refs) =>
    if newSession = 0 then some (s.goto t (.leave refs))
    else some ({ s with
      pending := s.pending ++ [newSession]
      useCount := acquire s.useCount newSession }.goto t (.leave (newSession :: refs)))
  | some (.leave []) => some (s.goto t .idle)
  | some (.leave (session :: refs)) =>
    let r := release s.useCount session
    some ({ s with useCount := r.1 }.goto t (if r.2 then .reset session refs else .leave refs))
  | some (.reset session refs) =>
    (RingRace.step s.pool (.push t session)).map fun pool =>
      { s with pool := pool }.goto t (.push session refs)
  | some (.push session refs) =>
    (RingRace.act s.pool t dataFirst).map fun pool =>
      match (s.pool.thread t).pc with
      | .pushDone _ => { s with pool := pool }.goto t (.leave refs)
      | .pushFail => { s with pool := pool }.goto t (.destroy session refs)
      | _ => { s with pool := pool }
  | some (.destroy session refs) =>
    some ({ s with destroyed := s.destroyed ++ [session] }.goto t (.leave refs))

/-- `hold` is a copy of a live reference; one that is given up may be the last. -/
def step (s : Server) : Event → Option Server
  | .handleAccept t i ok starts =>
    match s.thread[t]?, s.pending[i]? with
    | some .idle, some session =>
      let s := { s with
        pending := s.pending.eraseIdx i
        accepted := s.accepted ++ [(session, ok)] }
      (if ok then s.start session starts else s).startAccept t [session]
    | _, _ => none
  | .hold session =>
    if 0 < s.useCount session then
      some { s with useCount := acquire s.useCount session, others := s.others ++ [session] }
    else none
  | .drop t session =>
    match s.thread[t]? with
    | some .idle =>
      if session ∈ s.others then
        some ({ s with others := s.others.erase session }.goto t (.leave [session]))
      else none
    | _ => none
  | .proceed t dataFirst fails => proceed s t dataFirst fails

/-- The constructor has called `start_accept`; it and `n` more threads are there to go on. -/
def opened (uninit : Nat → VSessionPtr) (recycleSession n : Nat) : Server where
  pool := (RingRace.startSized uninit recycleSession).goto 0 .pop
  thread := .pop [] :: List.replicate n .idle
  pending := []
  useCount := fun _ => 0
  others := []
  created := 0
  handed := []
  failed := 0
  accepted := []
  destroyed := []

namespace Pc

def refs : Pc → List VSessionPtr
  | idle => []
  | accept newSession refs => if newSession = 0 then refs else newSession :: refs
  | pop refs | create refs | leave refs | reset _ refs | push _ refs | destroy _ refs => refs

def accepting : Pc → Bool
  | pop _ | create _ => true
  | accept newSession _ => newSession ≠ 0
  | _ => false

def claim : Pc → List VSessionPtr
  | accept newSession _ => if newSession = 0 then [] else [newSession]
  | _ => []

def closing : Pc → List VSessionPtr
  | reset session _ | push session _ | destroy session _ => [session]
  | _ => []

def Agrees : Pc → RingRace.Pc VSessionPtr → Prop
  | pop _, pc => Pops pc
  | push session _, pc => Pushes session pc
  | _, pc => pc = .idle

end Pc

def refs (s : Server) : List VSessionPtr :=
  s.others ++ (s.pending ++ s.thread.flatMap Pc.refs)

def gone (s : Server) : List VSessionPtr := s.destroyed ++ s.thread.flatMap Pc.closing

def claimed (s : Server) : List VSessionPtr :=
  s.accepted.map Prod.fst ++ (s.pending ++ s.thread.flatMap Pc.claim)

structure Inv (s : Server) : Prop where
  closed : Closed s.pool
  agree : ∀ (t : Nat) (pc : Pc), s.thread[t]? = some pc → pc.Agrees (s.pool.thread t).pc
  life : Lives s.useCount (refs s) (gone s) s.handed
  one : s.pending.length + s.thread.countP Pc.accepting + s.failed = 1
  order : (claimed s).Perm s.handed
  fresh : s.handed = List.range' 1 s.created

variable {s s' : Server} {t : Nat} {pc pc' : Pc} {x : VSessionPtr}

theorem agree_set (h : Inv s) {pool : RingRace.State VSessionPtr}
    (hother : ∀ j, j ≠ t → pool.thread j = s.pool.thread j) (hpc : pc'.Agrees (pool.thread t).pc)
    (j : Nat) (q : Pc) (hq : (s.thread.set t pc')[j]? = some q) : q.Agrees (pool.thread j).pc := by
  rw [List.getElem?_set] at hq
  split_ifs at hq with hj
  · subst hj
    obtain rfl := Option.some.inj hq
    exact hpc
  · rw [hother j (Ne.symm hj)]
    exact h.agree j q hq

theorem one_set (ht : s.thread[t]? = some pc) (q : Pc) (hsame : q.accepting = pc.accepting) :
    (s.thread.set t q).countP Pc.accepting = s.thread.countP Pc.accepting := by
  have hcount := countP_set_add (p := Pc.accepting) ht q
  rw [hsame] at hcount
  exact Nat.add_right_cancel hcount

theorem refs_set (ht : s.thread[t]? = some pc) (q : Pc) (hsame : q.refs = pc.refs) :
    (s.others ++ (s.pending ++ (s.thread.set t q).flatMap Pc.refs)).Perm (refs s) :=
  ((perm_flatMap_set_of_eq ht hsame).append_left _).append_left _

theorem gone_set (ht : s.thread[t]? = some pc) (q : Pc) (hsame : q.closing = pc.closing) :
    (s.destroyed ++ (s.thread.set t q).flatMap Pc.closing).Perm (gone s) :=
  (perm_flatMap_set_of_eq ht hsame).append_left _

theorem claimed_set (ht : s.thread[t]? = some pc) (q : Pc) (hsame : q.claim = pc.claim) :
    (s.accepted.map Prod.fst ++ (s.pending ++ (s.thread.set t q).flatMap Pc.claim)).Perm
      (claimed s) :=
  ((perm_flatMap_set_of_eq ht hsame).append_left _).append_left _

theorem Inv.frame (h : Inv s) (ht : s.thread[t]? = some pc) {pool : RingRace.State VSessionPtr}
    {destroyed : List VSessionPtr} (hclosed : Closed pool)
    (hother : ∀ j, j ≠ t → pool.thread j = s.pool.thread j) (hpc : pc'.Agrees (pool.thread t).pc)
    (hrefs : pc'.refs = pc.refs) (haccepting : pc'.accepting = pc.accepting)
    (hclaim : pc'.claim = pc.claim)
    (hgone : (destroyed ++ (s.thread.set t pc').flatMap Pc.closing).Perm (gone s)) :
    Inv { s with pool := pool, thread := s.thread.set t pc', destroyed := destroyed } where
  closed := hclosed
  agree := agree_set h hother hpc
  life := h.life.perm (refs_set ht _ hrefs).symm hgone.symm
  one := by
    simp only [one_set ht _ haccepting]
    exact h.one
  order := (claimed_set ht _ hclaim).trans h.order
  fresh := h.fresh

theorem Inv.handOut (h : Inv s) {refs : List VSessionPtr}
    (ht : s.thread[t]? = some (.create refs)) :
    Inv ({ s with created := s.created + 1 }.handOut t (s.created + 1) refs) := by
  have hidle := h.agree t _ ht
  refine ⟨h.closed, agree_set h (fun _ _ => rfl) hidle, ?_, ?_, ?_, ?_⟩
  · have hnew : s.created + 1 ∉ s.handed := by
      rw [h.fresh, List.mem_range'_1]
      omega
    have hset := perm_flatMap_set_append (f := Pc.refs) (y := .accept (s.created + 1) refs)
      (l := [s.created + 1]) ht (by simp [Pc.refs])
    refine (h.life.make hnew).perm (perm_append_cons (perm_append_cons hset)).symm ?_
    exact (gone_set ht _ (by rfl)).symm
  · have hset := one_set ht (.accept (s.created + 1) refs) (by simp [Pc.accepting])
    simp only [Server.handOut, Server.goto, hset]
    exact h.one
  · have hset := perm_flatMap_set_append (f := Pc.claim) (y := .accept (s.created + 1) refs)
      (l := [s.created + 1]) ht (by simp [Pc.claim])
    refine (perm_append_cons (perm_append_cons hset)).trans ?_
    exact (h.order.cons _).trans (List.perm_append_singleton _ _).symm
  · simp only [Server.handOut, Server.goto, h.fresh, List.range'_1_concat, Nat.add_comm 1]

theorem Inv.fail (h : Inv s) {refs : List VSessionPtr}
    (ht : s.thread[t]? = some (.create refs)) :
    Inv ({ s with failed := s.failed + 1 }.goto t (.accept 0 refs)) := by
  have hidle := h.agree t _ ht
  refine ⟨h.closed, agree_set h (fun _ _ => rfl) hidle, ?_, ?_, ?_, h.fresh⟩
  · exact h.life.perm (refs_set ht _ (by rfl)).symm (gone_set ht _ (by rfl)).symm
  · have hset := countP_set_add (p := Pc.accepting) ht (.accept 0 refs)
    have hone := h.one
    simp only [Pc.accepting, ne_eq, not_true, decide_false, Bool.toNat_true, Bool.toNat_false]
      at hset
    simp only [Server.goto]
    omega
  · exact (claimed_set ht _ (by rfl)).trans h.order

theorem Inv.accept (h : Inv s) {refs : List VSessionPtr} (hx : x ≠ 0)
    (ht : s.thread[t]? = some (.accept x refs)) :
    Inv ({ s with
      pending := s.pending ++ [x]
      useCount := acquire s.useCount x }.goto t (.leave (x :: refs))) := by
  have hidle := h.agree t _ ht
  refine ⟨h.closed, agree_set h (fun _ _ => rfl) hidle, ?_, ?_, ?_, h.fresh⟩
  · have hset := refs_set ht (.leave (x :: refs)) (by simp [Pc.refs, hx])
    have hmem : x ∈ AcceptLoop.refs s := by
      refine List.mem_append_right _ (List.mem_append_right _ (List.mem_flatMap.mpr ?_))
      exact ⟨_, List.mem_of_getElem? ht, by simp [Pc.refs, hx]⟩
    refine (h.life.acquire hmem).perm ?_ (gone_set ht _ (by rfl)).symm
    refine (hset.symm.cons x).trans ?_
    refine List.perm_middle.symm.trans (.append_left _ ?_)
    rw [← List.cons_append]
    exact (List.perm_append_singleton x _).symm.append_right _
  · have hset := countP_set_add (p := Pc.accepting) ht (.leave (x :: refs))
    have hone := h.one
    simp only [Pc.accepting, ne_eq, hx, not_false_eq_true, decide_true, Bool.toNat_true,
      Bool.toNat_false] at hset
    simp only [Server.goto, List.length_append, List.length_singleton]
    omega
  · have hset := append_flatMap_set_perm (f := Pc.claim) (y := .leave (x :: refs)) (l := [x]) ht
      (by simp [Pc.claim, hx])
    refine .trans ?_ h.order
    rw [claimed, Server.goto, List.append_assoc s.pending]
    exact (hset.append_left _).append_left _

theorem Inv.release (h : Inv s) {refs : List VSessionPtr}
    (ht : s.thread[t]? = some (.leave (x :: refs))) :
    let r := release s.useCount x
    Inv ({ s with useCount := r.1 }.goto t (if r.2 then .reset x refs else .leave refs)) := by
  intro r
  have hidle := h.agree t _ ht
  have hrefs : ∀ q : Pc, q.refs = refs → (AcceptLoop.refs s).Perm
      (x :: (s.others ++ (s.pending ++ (s.thread.set t q).flatMap Pc.refs))) := by
    intro q hq
    have hset := append_flatMap_set_perm (f := Pc.refs) (y := q) (l := [x]) ht (by rw [hq]; rfl)
    exact perm_append_cons (perm_append_cons hset.symm)
  cases hr : r.2 with
  | true =>
    have hlife := (h.life.perm (hrefs (.reset x refs) rfl) (.refl _)).release
    change Lives r.1 _ (if r.2 = true then x :: gone s else gone s) _ at hlife
    rw [hr, if_pos rfl] at hlife
    refine ⟨h.closed, agree_set h (fun _ _ => rfl) hidle, hlife.perm (.refl _) ?_, ?_, ?_, h.fresh⟩
    · have hset := perm_flatMap_set_append (f := Pc.closing) (y := .reset x refs) (l := [x]) ht rfl
      exact (perm_append_cons hset).symm
    · simp only [if_true, Server.goto, one_set ht (.reset x refs) rfl]
      exact h.one
    · exact (claimed_set ht _ (by rfl)).trans h.order
  | false =>
    have hlife := (h.life.perm (hrefs (.leave refs) rfl) (.refl _)).release
    change Lives r.1 _ (if r.2 = true then x :: gone s else gone s) _ at hlife
    rw [hr, if_neg Bool.false_ne_true] at hlife
    refine ⟨h.closed, agree_set h (fun _ _ => rfl) hidle, ?_, ?_, ?_, h.fresh⟩
    · exact hlife.perm (.refl _) (gone_set ht _ (by rfl)).symm
    · simp only [Bool.false_eq_true, if_false, Server.goto, one_set ht (.leave refs) rfl]
      exact h.one
    · exact (claimed_set ht _ (by rfl)).trans h.order

theorem Inv.take (h : Inv s) {i : Nat} (ht : s.thread[t]? = some .idle)
    (hi : s.pending[i]? = some x) (ok : Bool) :
    Inv { s with
      pool := s.pool.goto t .pop
      thread := s.thread.set t (.pop [x])
      pending := s.pending.eraseIdx i
      accepted := s.accepted ++ [(x, ok)] } := by
  have hidle : (s.pool.thread t).pc = .idle := h.agree t _ ht
  obtain ⟨hlt, hget⟩ := List.getElem?_eq_some_iff.mp hi
  have hpending : (x :: s.pending.eraseIdx i).Perm s.pending := by
    rw [← hget]
    exact List.getElem_cons_eraseIdx_perm hlt
  refine ⟨h.closed.call hidle fun _ => rfl, agree_set h (fun j hj => if_neg hj) ?_, ?_, ?_, ?_,
    h.fresh⟩
  · simp [Pc.Agrees, RingRace.State.goto, Pops]
  · have hset := perm_flatMap_set_append (f := Pc.refs) (y := .pop [x]) (l := [x]) ht rfl
    refine h.life.perm (.append_left _ ?_) (gone_set ht _ (by rfl)).symm
    refine .trans ?_ (perm_append_cons hset).symm
    exact (hpending.symm.append_right _)
  · have hset := countP_set_add (p := Pc.accepting) ht (.pop [x])
    have hone := h.one
    have hlen := hpending.length_eq
    simp only [Pc.accepting, Bool.toNat_true, Bool.toNat_false, List.length_cons] at hset hlen
    simp only
    omega
  · have hset := perm_flatMap_set_of_eq (f := Pc.claim) (y := .pop [x]) ht rfl
    refine .trans ?_ h.order
    rw [claimed, List.map_append, List.append_assoc]
    refine .append_left _ ?_
    exact (hpending.append_right _).trans (hset.append_left _)

theorem Inv.hold (h : Inv s) (hx : x ∈ refs s) :
    Inv { s with useCount := acquire s.useCount x, others := s.others ++ [x] } := by
  refine ⟨h.closed, h.agree, (h.life.acquire hx).perm ?_ (.refl _), h.one, h.order, h.fresh⟩
  rw [refs, refs, ← List.cons_append]
  exact (List.perm_append_singleton x s.others).symm.append_right _

theorem Inv.drop (h : Inv s) (ht : s.thread[t]? = some .idle) (hx : x ∈ s.others) :
    Inv ({ s with others := s.others.erase x }.goto t (.leave [x])) := by
  have hidle := h.agree t _ ht
  refine ⟨h.closed, agree_set h (fun _ _ => rfl) hidle, ?_, ?_, ?_, h.fresh⟩
  · have hset := perm_flatMap_set_append (f := Pc.refs) (y := .leave [x]) (l := [x]) ht rfl
    refine h.life.perm ?_ (gone_set ht _ (by rfl)).symm
    refine ((List.perm_cons_erase hx).append_right _).trans ?_
    exact (perm_append_cons (.refl _)).symm.trans (.append_left _ (perm_append_cons hset).symm)
  · simp only [Server.goto, one_set ht (.leave [x]) rfl]
    exact h.one
  · exact (claimed_set ht _ (by rfl)).trans h.order

theorem Inv.inside (h : Inv s) (ht : s.thread[t]? = some pc) {dataFirst : Bool}
    {pool : RingRace.State VSessionPtr} (hact : RingRace.act s.pool t dataFirst = some pool)
    (hpc : pc.Agrees (pool.thread t).pc) : Inv { s with pool := pool } := by
  refine ⟨h.closed.act hact, fun j q hq => ?_, h.life, h.one, h.order, h.fresh⟩
  by_cases hj : j = t
  · subst hj
    obtain rfl := Option.some.inj (ht.symm.trans hq)
    exact hpc
  · rw [RingRace.thread_act_of_ne hact hj]
    exact h.agree j q hq

theorem Inv.pop (h : Inv s) {refs : List VSessionPtr} (ht : s.thread[t]? = some (.pop refs))
    (dataFirst fails : Bool) : ∃ s', proceed s t dataFirst fails = some s' ∧ Inv s' := by
  have hpops : Pops (s.pool.thread t).pc := h.agree t _ ht
  have hbusy : (s.pool.thread t).pc ≠ .idle := by
    intro hidle
    rw [hidle] at hpops
    exact hpops
  obtain ⟨pool, hact⟩ := Option.isSome_iff_exists.mp (RingRace.isSome_act hbusy dataFirst)
  obtain ⟨-, ⟨⟨p, hp⟩, hidle⟩ | ⟨hnot, hpops'⟩⟩ := RingRace.act_pops hpops hact
  · obtain rfl := h.closed.nulls t p hp
    refine ⟨{ s with pool := pool }.goto t (.create refs), ?_, ?_⟩
    · simp only [proceed, ht, hact, Option.map_some, hp, ne_eq, not_true, if_false]
    · exact h.frame ht (h.closed.act hact) (fun _ hj => RingRace.thread_act_of_ne hact hj) hidle
        rfl rfl rfl (gone_set ht _ rfl)
  · refine ⟨{ s with pool := pool }, ?_, h.inside ht hact hpops'⟩
    simp only [proceed, ht, hact, Option.map_some]

theorem Inv.push (h : Inv s) {refs : List VSessionPtr} (ht : s.thread[t]? = some (.push x refs))
    (dataFirst fails : Bool) : ∃ s', proceed s t dataFirst fails = some s' ∧ Inv s' := by
  have hpushes : Pushes x (s.pool.thread t).pc := h.agree t _ ht
  have hbusy : (s.pool.thread t).pc ≠ .idle := by
    intro hidle
    rw [hidle] at hpushes
    exact hpushes
  obtain ⟨pool, hact⟩ := Option.isSome_iff_exists.mp (RingRace.isSome_act hbusy dataFirst)
  have hclosed := h.closed.act hact
  rcases RingRace.act_pushes hpushes hact with ⟨hend, hidle, -⟩ | ⟨⟨hdone, hfail⟩, hpc⟩
  · have hfail : (s.pool.thread t).pc = .pushFail := by
      rcases h.closed.pushes hpushes with hpc | hpc
      · simp [hpc] at hend
      · exact hpc
    refine ⟨{ s with pool := pool }.goto t (.destroy x refs), ?_, ?_⟩
    · simp only [proceed, ht, hact, Option.map_some, hfail]
    · exact h.frame ht hclosed (fun _ hj => RingRace.thread_act_of_ne hact hj) hidle
        rfl rfl rfl (gone_set ht _ rfl)
  · have hpushes' : Pushes x (pool.thread t).pc := by
      rcases hpc with ⟨hpushes', -⟩ | ⟨-, hstored⟩
      · exact hpushes'
      · rw [hclosed.stored] at hstored
        exact absurd hstored.symm (List.concat_ne_nil x _)
    refine ⟨{ s with pool := pool }, ?_, h.inside ht hact hpushes'⟩
    rcases h.closed.pushes hpushes with hpc | hpc
    · simp only [proceed, ht, hact, Option.map_some, hpc]
    · exact absurd hpc hfail

theorem goto_self (ht : s.thread[t]? = some pc) : s.goto t pc = s := by
  obtain ⟨hlt, hget⟩ := List.getElem?_eq_some_iff.mp ht
  rw [Server.goto, ← hget, List.set_getElem_self]

theorem Inv.proceed (h : Inv s) (ht : s.thread[t]? = some pc) (hpc : pc ≠ .idle)
    (dataFirst fails : Bool) : ∃ s', proceed s t dataFirst fails = some s' ∧ Inv s' := by
  cases pc with
  | idle => exact absurd rfl hpc
  | pop refs => exact h.pop ht dataFirst fails
  | push x refs => exact h.push ht dataFirst fails
  | create refs =>
    cases fails with
    | true => exact ⟨_, by simp only [AcceptLoop.proceed, ht, if_true], h.fail ht⟩
    | false =>
      exact ⟨_, by simp only [AcceptLoop.proceed, ht, Bool.false_eq_true, if_false], h.handOut ht⟩
  | accept x refs =>
    have hidle := h.agree t _ ht
    by_cases hx : x = 0
    · subst hx
      refine ⟨s.goto t (.leave refs), by simp only [AcceptLoop.proceed, ht, if_true], ?_⟩
      exact h.frame ht h.closed (fun _ _ => rfl) hidle rfl rfl rfl (gone_set ht _ rfl)
    · exact ⟨_, by simp only [AcceptLoop.proceed, ht, if_neg hx], h.accept hx ht⟩
  | leave refs =>
    have hidle := h.agree t _ ht
    cases refs with
    | nil =>
      refine ⟨s.goto t .idle, by simp only [AcceptLoop.proceed, ht], ?_⟩
      exact h.frame ht h.closed (fun _ _ => rfl) hidle rfl rfl rfl (gone_set ht _ rfl)
    | cons x refs => exact ⟨_, by simp only [AcceptLoop.proceed, ht], h.release ht⟩
  | reset x refs =>
    have hidle : (s.pool.thread t).pc = .idle := h.agree t _ ht
    have hstep : RingRace.step s.pool (.push t x) = some (s.pool.goto t (.push x)) :=
      if_pos (by simp [RingRace.isIdle, hidle])
    refine ⟨{ s with pool := s.pool.goto t (.push x) }.goto t (.push x refs), ?_, ?_⟩
    · simp only [AcceptLoop.proceed, ht, hstep, Option.map_some]
    · refine h.frame ht (h.closed.call hidle fun _ => rfl) (fun j hj => if_neg hj) ?_ rfl rfl rfl
        (gone_set ht _ rfl)
      simp [Pc.Agrees, RingRace.State.goto, Pushes]
  | destroy x refs =>
    have hidle := h.agree t _ ht
    refine ⟨{ s with destroyed := s.destroyed ++ [x] }.goto t (.leave refs), ?_, ?_⟩
    · simp only [AcceptLoop.proceed, ht]
    refine h.frame ht h.closed (fun _ _ => rfl) hidle rfl rfl rfl ?_
    have hset := append_flatMap_set_perm (f := Pc.closing) (y := .leave refs) (l := [x]) ht rfl
    rw [List.append_assoc]
    exact hset.append_left _

theorem Inv.handleAccept (h : Inv s) {i : Nat} (ht : s.thread[t]? = some .idle)
    (hi : s.pending[i]? = some x) (ok starts : Bool) :
    ∃ s', step s (.handleAccept t i ok starts) = some s' ∧ Inv s' := by
  have hidle : (s.pool.thread t).pc = .idle := h.agree t _ ht
  have hstep : RingRace.step s.pool (.pop t) = some (s.pool.goto t .pop) :=
    if_pos (by simp [RingRace.isIdle, hidle])
  have htake := h.take ht hi ok
  have hmem : x ∈ s.others ++ (s.pending.eraseIdx i ++
      (s.thread.set t (.pop [x])).flatMap Pc.refs) := by
    have hset := perm_flatMap_set_append (f := Pc.refs) (y := .pop [x]) (l := [x]) ht rfl
    exact (perm_append_cons (perm_append_cons hset)).mem_iff.mpr (List.mem_cons_self ..)
  simp only [step, ht, hi, Server.startAccept]
  cases ok with
  | false =>
    refine ⟨_, ?_, htake⟩
    simp only [Bool.false_eq_true, if_false, hstep, Option.map_some, Server.goto]
  | true =>
    cases starts with
    | false =>
      refine ⟨_, ?_, htake⟩
      simp only [Bool.false_eq_true, if_false, if_true, Server.start, hstep, Option.map_some,
        Server.goto]
    | true =>
      refine ⟨_, ?_, htake.hold hmem⟩
      simp only [if_true, Server.start, hstep, Option.map_some, Server.goto]

theorem Inv.step (h : Inv s) {e : Event} (hs : step s e = some s') : Inv s' := by
  cases e with
  | proceed t dataFirst fails =>
    cases ht : s.thread[t]? with
    | none => simp [AcceptLoop.step, AcceptLoop.proceed, ht] at hs
    | some pc =>
      have hpc : pc ≠ .idle := by
        rintro rfl
        simp [AcceptLoop.step, AcceptLoop.proceed, ht] at hs
      obtain ⟨u, hu, hinv⟩ := h.proceed ht hpc dataFirst fails
      obtain rfl := Option.some.inj (hu.symm.trans hs)
      exact hinv
  | hold x =>
    simp only [AcceptLoop.step] at hs
    split_ifs at hs with hx
    obtain rfl := Option.some.inj hs
    exact h.hold (h.life.counts.pos_iff.mp hx)
  | drop t x =>
    simp only [AcceptLoop.step] at hs
    split at hs
    · rename_i ht
      split_ifs at hs with hx
      obtain rfl := Option.some.inj hs
      exact h.drop ht hx
    · cases hs
  | handleAccept t i ok starts =>
    cases ht : s.thread[t]? with
    | none => simp [AcceptLoop.step, ht] at hs
    | some pc =>
      cases hi : s.pending[i]? with
      | none => cases pc <;> simp [AcceptLoop.step, ht, hi] at hs
      | some x =>
        have hpc : pc = .idle := by
          cases pc <;> first | rfl | simp [AcceptLoop.step, ht, hi] at hs
        obtain ⟨u, hu, hinv⟩ := h.handleAccept (hpc ▸ ht) hi ok starts
        obtain rfl := Option.some.inj (hu.symm.trans hs)
        exact hinv

theorem inv_opened (uninit : Nat → VSessionPtr) (recycleSession n : Nat) :
    Inv (opened uninit recycleSession n) := by
  have hnil : ∀ f : Pc → List VSessionPtr, f (.pop []) = [] → f .idle = [] →
      (opened uninit recycleSession n).thread.flatMap f = [] := by
    intro f hpop hidle
    rw [List.flatMap_eq_nil_iff]
    intro pc hpc
    rcases List.mem_cons.mp hpc with rfl | hpc
    · exact hpop
    · rw [List.eq_of_mem_replicate hpc, hidle]
  have hrefs : refs (opened uninit recycleSession n) = [] := hnil Pc.refs rfl rfl
  have hgone : gone (opened uninit recycleSession n) = [] := hnil Pc.closing rfl rfl
  have hclaimed : claimed (opened uninit recycleSession n) = [] := hnil Pc.claim rfl rfl
  refine ⟨(RingRace.closed_start uninit recycleSession).call rfl fun _ => rfl, ?_, ?_, ?_, ?_, rfl⟩
  · intro t pc ht
    cases t with
    | zero =>
      obtain rfl : Pc.pop [] = pc := by simpa [opened] using ht
      trivial
    | succ t =>
      obtain rfl : pc = .idle := List.eq_of_mem_replicate (List.mem_of_getElem? ht)
      rfl
  · rw [hrefs, hgone]
    exact ⟨counts_nil, nofun, List.nodup_nil, fun _ => by simp [opened]⟩
  · have hidle : (List.replicate n Pc.idle).countP Pc.accepting = 0 := by
      rw [List.countP_replicate]
      rfl
    simp [opened, List.countP_cons, hidle, Pc.accepting]
  · rw [hclaimed]
    rfl

/-- However the threads interleave: until `create_session` fails, one accept is waited for or on
its way; every session it returns is new, and goes to one accept; it is destroyed once, and not
before its last reference is gone; the pool stays empty; and no thread ever waits. -/
theorem accept_run {uninit : Nat → VSessionPtr} {recycleSession n : Nat} {es : List Event}
    (h : exec step (opened uninit recycleSession n) es = some s) :
    s.pending.length + s.thread.countP Pc.accepting + s.failed = 1 ∧
      s.handed = List.range' 1 s.created ∧ (claimed s).Perm s.handed ∧
      s.destroyed.Nodup ∧ (∀ x ∈ s.destroyed, s.useCount x = 0) ∧
      ((∀ pc ∈ s.thread, pc = .idle) →
        ∀ x ∈ s.handed, x ∈ s.destroyed ↔ s.useCount x = 0) ∧
      s.pool.ring.held = [] ∧
      ∀ t pc, s.thread[t]? = some pc → pc ≠ .idle → ∀ dataFirst fails,
        (step s (.proceed t dataFirst fails)).isSome := by
  have hinv : Inv s := exec_invariant (I := Inv) (fun _ _ _ hs hstep => hs.step hstep)
    (inv_opened uninit recycleSession n) h
  have hzero : ∀ x, s.useCount x = 0 ↔ x ∉ refs s := by
    intro x
    rw [← hinv.life.counts.pos_iff]
    omega
  refine ⟨hinv.one, hinv.fresh, hinv.order, (List.nodup_append.mp hinv.life.nodup).1,
    fun x hx => ?_, fun hidle x hx => ?_, ?_, fun t pc ht hpc dataFirst fails => ?_⟩
  · rw [hzero]
    exact ((hinv.life.mem_gone x).mp (List.mem_append_left _ hx)).2
  · have hgone : gone s = s.destroyed := by
      have hnil : s.thread.flatMap Pc.closing = [] := by
        rw [List.flatMap_eq_nil_iff]
        intro pc hpc
        rw [hidle pc hpc]
        rfl
      rw [gone, hnil, List.append_nil]
    rw [hzero, ← hgone, hinv.life.mem_gone x]
    exact and_iff_right hx
  · simp [SafeRingBuffer.held, hinv.closed.cur]
  · obtain ⟨u, hu, -⟩ := hinv.proceed ht hpc dataFirst fails
    rw [step, hu]
    rfl

/-- One thread closes a session in the pool while another makes the next. -/
theorem accept_run_two :
    let next : Nat → Event := fun t => .proceed t false false
    let es := List.replicate 6 (next 0) ++ [.handleAccept 1 0 true true] ++
      List.replicate 7 (next 1) ++
        [.drop 0 1, next 0, next 0, next 0, .handleAccept 1 0 false false,
        next 1, next 0, next 1, next 0, next 0] ++ List.replicate 9 (next 1)
    ∃ s, exec step (opened (fun _ => 0) 4 1) es = some s ∧ s.pending = [3] ∧
      s.destroyed = [1, 2] ∧ s.pool.ring.held = [] ∧ (claimed s).Perm [1, 2, 3] := by
  intro next es
  obtain ⟨s, h, hpending, hdestroyed, hhanded⟩ : ∃ s,
      exec step (opened (fun _ => 0) 4 1) es = some s ∧ s.pending = [3] ∧ s.destroyed = [1, 2] ∧
        s.handed = [1, 2, 3] := ⟨_, rfl, rfl, rfl, rfl⟩
  obtain ⟨-, -, hclaimed, -, -, -, hheld, -⟩ := accept_run h
  exact ⟨s, h, hpending, hdestroyed, hheld, hhanded ▸ hclaimed⟩

end VChat.NetWork.AcceptLoop
