import VChat.Transition.Runs
import VChat.Transition.Since
import VChat.Transition.Link
import Mathlib.Logic.Relation

/-! The outgoing queue of a session. `send_buffer` posts `do_write` on the strand, and
`do_write` and `handle_write` start the writes. -/

namespace VChat.NetWork.WriteQueue
open Transition

/-- The block the constructor obtained (none for the null pointer) and its length. -/
structure VSimpleBuffer where
  data : Option Nat
  len : Nat
deriving DecidableEq

def VSimpleBuffer.isValid (b : VSimpleBuffer) : Bool := b.data.isSome && b.len != 0

/-- `writes` holds the buffers of the `async_write`s begun and not yet completed. -/
structure Session where
  datas : List VSimpleBuffer
  writes : List VSimpleBuffer

def Session.new : Session := ⟨[], []⟩

inductive Output where
  | started
  | posted (b : VSimpleBuffer)
  | asyncWrite (b : VSimpleBuffer)
  | written (b : VSimpleBuffer)
  | failed (b : VSimpleBuffer)
  | reset
deriving DecidableEq

def drain : List VSimpleBuffer → List VSimpleBuffer
  | [] => []
  | _ :: q => drain q

/-- `sockOk` is false when `set_option` or `io_control` throws, before the queue is drained. -/
def start (s : Session) (sockOk : Bool) : Session × List Output :=
  if sockOk then ({ s with datas := drain s.datas }, [.started]) else (s, [])

def asyncWrite (s : Session) (b : VSimpleBuffer) : Session × List Output :=
  ({ s with writes := s.writes ++ [b] }, [.asyncWrite b])

def doWrite (s : Session) (error : Bool) (buffer : VSimpleBuffer) : Session × List Output :=
  if !error then
    if s.datas.isEmpty then asyncWrite { s with datas := s.datas ++ [buffer] } buffer
    else ({ s with datas := s.datas ++ [buffer] }, [])
  else (s, [])

def sendBuffer (s : Session) (buffer : VSimpleBuffer) : Session × List Output :=
  if buffer.isValid then
    let r := doWrite s false buffer
    (r.1, .posted buffer :: r.2)
  else (s, [])

def handleWrite (s : Session) (error : Bool) : Session × List Output :=
  if !error then
    match s.datas.tail with
    | [] => ({ s with datas := [] }, [])
    | buffer :: q => asyncWrite { s with datas := buffer :: q } buffer
  else (s, [.reset])

inductive Event where
  | start (sockOk : Bool)
  | sendBuffer (buffer : VSimpleBuffer)
  | handleWrite (i : Nat) (error : Bool)
deriving DecidableEq

/-- `start` runs only while no write is outstanding, and the completion of the `i`-th
outstanding write runs `handle_write` once. -/
def step (s : Session) : Event → Option (Session × List Output)
  | .start sockOk => if s.writes = [] then some (start s sockOk) else none
  | .sendBuffer buffer => some (sendBuffer s buffer)
  | .handleWrite i error =>
    match s.writes[i]? with
    | none => none
    | some b =>
      let r := handleWrite { s with writes := s.writes.eraseIdx i } error
      some (r.1, (if error then .failed b else .written b) :: r.2)

def Output.isStarted : Output → Bool
  | .started => true
  | _ => false

def Output.isFailed : Output → Bool
  | .failed _ => true
  | _ => false

def Output.isAsyncWrite : Output → Bool
  | .asyncWrite _ => true
  | _ => false

def epoch (log : List Output) : List Output := sinceLast Output.isStarted log

def posted (log : List Output) : List VSimpleBuffer :=
  log.filterMap fun | .posted b => some b | _ => none

def written (log : List Output) : List VSimpleBuffer :=
  log.filterMap fun | .written b => some b | _ => none

def Event.isStart : Event → Bool
  | .start sockOk => sockOk
  | _ => false

def Event.validBuffer : Event → Option VSimpleBuffer
  | .sendBuffer buffer => if buffer.isValid then some buffer else none
  | _ => none

/-- The valid buffers given to `send_buffer` since the last `start` that went through. -/
def sent (es : List Event) : List VSimpleBuffer :=
  (sinceLast Event.isStart es).filterMap Event.validBuffer

theorem drain_eq_nil (q : List VSimpleBuffer) : drain q = [] := by
  induction q with
  | nil => rfl
  | cons b q ih => exact ih

structure Runs (s : Session) (log : List Output) (l : Link VSimpleBuffer) : Prop where
  datas : s.datas = l.pending
  writes : s.writes = l.inFlight
  posted_eq : posted (epoch log) = l.posted
  written_eq : written (epoch log) = l.delivered
  failed_iff : l.failed = true ↔ ∃ x ∈ epoch log, x.isFailed = true
  quiet : (epoch log).Pairwise fun x y => x.isFailed = true → y.isAsyncWrite = false

theorem runs_new : Runs Session.new [] .opened :=
  ⟨rfl, rfl, rfl, rfl, by simp [epoch], .nil⟩

theorem runs_start {s : Session} {log : List Output} {l : Link VSimpleBuffer}
    (h : Runs s log l) (hw : s.writes = []) (sockOk : Bool) :
    ∃ m, l.Step m ∧ Runs (start s sockOk).1 (log ++ (start s sockOk).2) m := by
  cases sockOk with
  | false => exact ⟨l, .skip l, by simpa [start] using h⟩
  | true =>
    have hlog : epoch (log ++ [.started]) = [] := sinceLast_append_mark rfl (by simp) log
    refine ⟨.opened, .reopen l, ?_⟩
    constructor <;> simp only [start, if_true, hlog]
    · exact drain_eq_nil _
    · exact hw
    · rfl
    · rfl
    · simp
    · exact .nil

theorem Runs.extend {s t : Session} {log out : List Output} {l m : Link VSimpleBuffer}
    (h : Runs s log l) (hout : ∀ x ∈ out, x.isStarted = false)
    (hd : t.datas = m.pending) (hw : t.writes = m.inFlight)
    (hp : l.posted ++ posted out = m.posted) (hwr : l.delivered ++ written out = m.delivered)
    (hf : m.failed = true ↔ l.failed = true ∨ ∃ x ∈ out, x.isFailed = true)
    (hq : out.Pairwise fun x y => x.isFailed = true → y.isAsyncWrite = false)
    (hlq : l.failed = true → ∀ y ∈ out, y.isAsyncWrite = false) : Runs t (log ++ out) m := by
  have hlog : epoch (log ++ out) = epoch log ++ out := sinceLast_append_of_not hout log
  constructor
  · exact hd
  · exact hw
  · rw [hlog, posted, List.filterMap_append, ← posted, ← posted, h.posted_eq, hp]
  · rw [hlog, written, List.filterMap_append, ← written, ← written, h.written_eq, hwr]
  · rw [hf, h.failed_iff, hlog]
    simp only [List.mem_append, or_and_right, exists_or]
  · rw [hlog, List.pairwise_append]
    exact ⟨h.quiet, hq, fun x hx y hy hxf => hlq (h.failed_iff.mpr ⟨x, hx, hxf⟩) y hy⟩

theorem runs_sendBuffer {s : Session} {log : List Output} {l : Link VSimpleBuffer}
    (h : Runs s log l) (buffer : VSimpleBuffer) :
    ∃ m, l.Step m ∧ Runs (sendBuffer s buffer).1 (log ++ (sendBuffer s buffer).2) m := by
  by_cases hb : buffer.isValid = true
  swap
  · exact ⟨l, .skip l, by simpa [sendBuffer, hb] using h⟩
  refine ⟨l.post buffer, .post l buffer, ?_⟩
  cases hp : l.pending with
  | nil =>
    -- an empty queue cannot be stuck, so the buffer goes straight on the wire
    have hf : l.failed = false := by
      by_contra hf
      exact l.failed_pending (by simpa using hf) hp
    have hd : s.datas = [] := h.datas.trans hp
    have hw : s.writes = [] := h.writes.trans (by simp [Link.inFlight, hp])
    apply h.extend <;>
      simp [sendBuffer, hb, doWrite, asyncWrite, hd, hw, hp, hf, Link.inFlight, Link.posted,
        posted, written, Output.isStarted, Output.isFailed]
  | cons c q =>
    have hd : s.datas = c :: q := h.datas.trans hp
    have hw := h.writes
    apply h.extend <;>
      simp [sendBuffer, hb, doWrite, hd, hw, hp, Link.inFlight, Link.posted, posted, written,
        Output.isStarted, Output.isFailed, Output.isAsyncWrite]

theorem runs_handleWrite {s : Session} {log : List Output} {l : Link VSimpleBuffer}
    (h : Runs s log l) {i : Nat} {b : VSimpleBuffer} (hi : s.writes[i]? = some b)
    (error : Bool) :
    ∃ m, l.Step m ∧ Runs (handleWrite { s with writes := s.writes.eraseIdx i } error).1
      (log ++ (if error then .failed b else .written b) ::
        (handleWrite { s with writes := s.writes.eraseIdx i } error).2) m := by
  have hmem : b ∈ l.inFlight := h.writes ▸ List.mem_of_getElem? hi
  have hhead := Link.head_of_mem_inFlight hmem
  have hf : l.failed = false := by
    by_contra hf
    simp [Link.inFlight, hf] at hmem
  obtain ⟨q, hp⟩ : ∃ q, l.pending = b :: q := by
    cases hl : l.pending with
    | nil => simp [hl] at hhead
    | cons c q => exact ⟨q, by simpa [hl] using hhead⟩
  have hd : s.datas = b :: q := h.datas.trans hp
  have hw : s.writes = [b] := h.writes.trans (by simp [Link.inFlight, hp, hf])
  obtain rfl : i = 0 := by
    rw [hw] at hi
    have hlt := (List.getElem?_eq_some_iff.mp hi).1
    simpa using hlt
  cases error with
  | true =>
    refine ⟨l.fail (by simp [hp]), .fail l _, ?_⟩
    apply h.extend <;>
      simp [handleWrite, hd, hw, hp, hf, Link.inFlight, Link.posted, posted, written,
        Output.isStarted, Output.isFailed, Output.isAsyncWrite]
  | false =>
    refine ⟨l.deliver hf, .deliver l hf, ?_⟩
    cases q with
    | nil =>
      apply h.extend <;>
        simp [handleWrite, hd, hw, hp, hf, Link.inFlight, Link.posted, posted, written,
          Output.isStarted, Output.isFailed]
    | cons c q =>
      apply h.extend <;>
        simp [handleWrite, asyncWrite, hd, hw, hp, hf, Link.inFlight, Link.posted, posted,
          written, Output.isStarted, Output.isFailed]

theorem step_runs {s t : Session} {log log' : List Output} {l : Link VSimpleBuffer} {e : Event}
    (h : Runs s log l) (hstep : traced step (s, log) e = some (t, log')) :
    ∃ m, l.Step m ∧ Runs t log' m := by
  obtain ⟨out, hstep, rfl⟩ := traced_eq_some.mp hstep
  cases e with
  | start sockOk =>
    simp only [step] at hstep
    split_ifs at hstep with hw
    have hmove := runs_start h hw sockOk
    rwa [Option.some.inj hstep] at hmove
  | sendBuffer buffer =>
    have hmove := runs_sendBuffer h buffer
    rwa [Option.some.inj hstep] at hmove
  | handleWrite i error =>
    simp only [step] at hstep
    split at hstep
    · cases hstep
    · rename_i b hi
      have hmove := runs_handleWrite h hi error
      obtain ⟨rfl, rfl⟩ := Prod.mk.inj (Option.some.inj hstep)
      exact hmove

theorem exec_runs {es : List Event} {s : Session} {log : List Output}
    (h : exec (traced step) (Session.new, []) es = some (s, log)) :
    ∃ l, Relation.ReflTransGen Link.Step .opened l ∧ Runs s log l := by
  refine exec_invariant
    (I := fun p => ∃ l, Relation.ReflTransGen Link.Step .opened l ∧ Runs p.1 p.2 l)
    ?_ ⟨.opened, .refl, runs_new⟩ h
  rintro p e q ⟨l, hreach, hl⟩ hstep
  obtain ⟨m, hmove, hm⟩ := step_runs hl hstep
  exact ⟨m, hreach.tail hmove, hm⟩

theorem posted_append (as bs : List Output) : posted (as ++ bs) = posted as ++ posted bs :=
  List.filterMap_append

theorem doWrite_out (s : Session) (error : Bool) (buffer : VSimpleBuffer) :
    ∀ x ∈ (doWrite s error buffer).2, x.isStarted = false ∧ posted [x] = [] := by
  intro x hx
  unfold doWrite asyncWrite at hx
  split_ifs at hx <;> simp only [List.mem_singleton, List.not_mem_nil] at hx
  subst hx
  exact ⟨rfl, rfl⟩

theorem handleWrite_out (s : Session) (error : Bool) :
    ∀ x ∈ (handleWrite s error).2, x.isStarted = false ∧ posted [x] = [] := by
  intro x hx
  unfold handleWrite asyncWrite at hx
  split_ifs at hx
  · split at hx <;> simp only [List.mem_singleton, List.not_mem_nil] at hx
    subst hx
    exact ⟨rfl, rfl⟩
  · obtain rfl := List.mem_singleton.mp hx
    exact ⟨rfl, rfl⟩

theorem posted_eq_nil {out : List Output} (h : ∀ x ∈ out, posted [x] = []) : posted out = [] := by
  induction out with
  | nil => rfl
  | cons x out ih =>
    rw [← List.singleton_append, posted_append, h x (by simp), ih fun y hy => h y (by simp [hy])]
    rfl

theorem step_posted {s t : Session} {log log' : List Output} {e : Event}
    (hstep : traced step (s, log) e = some (t, log')) :
    posted (epoch log') =
      if e.isStart then [] else posted (epoch log) ++ e.validBuffer.toList := by
  obtain ⟨out, hstep, rfl⟩ := traced_eq_some.mp hstep
  have hext (hout : ∀ x ∈ out, x.isStarted = false) :
      posted (epoch (log ++ out)) = posted (epoch log) ++ posted out := by
    rw [epoch, sinceLast_append_of_not hout, posted_append, ← epoch]
  cases e with
  | start sockOk =>
    simp only [step] at hstep
    split_ifs at hstep
    cases sockOk with
    | false =>
      obtain ⟨-, rfl⟩ := Prod.mk.inj (Option.some.inj hstep)
      simp [Event.isStart, Event.validBuffer]
    | true =>
      obtain ⟨-, rfl⟩ := Prod.mk.inj (Option.some.inj hstep)
      rw [epoch, sinceLast_append_mark rfl (by simp)]
      rfl
  | sendBuffer buffer =>
    have hout : (sendBuffer s buffer).2 = out := congrArg Prod.snd (Option.some.inj hstep)
    by_cases hb : buffer.isValid = true
    · have hw := doWrite_out s false buffer
      have hsend : (sendBuffer s buffer).2 = .posted buffer :: (doWrite s false buffer).2 := by
        simp [sendBuffer, hb]
      have hpost : posted out = [buffer] := by
        rw [← hout, hsend, ← List.singleton_append, posted_append,
          posted_eq_nil fun x hx => (hw x hx).2]
        rfl
      rw [hext, hpost]
      · simp [Event.isStart, Event.validBuffer, hb]
      · intro x hx
        rw [← hout, hsend] at hx
        rcases List.mem_cons.mp hx with rfl | hx
        · rfl
        · exact (hw x hx).1
    · obtain rfl : [] = out := by simpa [sendBuffer, hb] using hout
      simp [Event.isStart, Event.validBuffer, hb]
  | handleWrite i error =>
    simp only [step] at hstep
    split at hstep
    · cases hstep
    · obtain ⟨-, rfl⟩ := Prod.mk.inj (Option.some.inj hstep)
      have hw := handleWrite_out { s with writes := s.writes.eraseIdx i } error
      rw [hext]
      · rw [← List.singleton_append, posted_append, posted_eq_nil fun x hx => (hw x hx).2]
        cases error <;> simp [posted, Event.isStart, Event.validBuffer]
      · intro x hx
        rcases List.mem_cons.mp hx with rfl | hx
        · cases error <;> rfl
        · exact (hw x hx).1

theorem exec_posted {es : List Event} {s : Session} {log : List Output}
    (h : exec (traced step) (Session.new, []) es = some (s, log)) :
    posted (epoch log) = sent es := by
  refine exec_induction (P := fun es p => posted (epoch p.2) = sent es) rfl ?_ h
  intro es p e q ih hstep
  rw [step_posted hstep, ih, sent, sent, sinceLast_concat]
  cases e.isStart with
  | true => rfl
  | false =>
    rw [if_neg Bool.false_ne_true, if_neg Bool.false_ne_true, List.filterMap_append]
    cases hv : e.validBuffer <;> simp [hv]

/-- One write at a time, always of the queue's front; nothing lost, duplicated or
reordered; no stall before a failure and no write after one. -/
theorem writeQueue_run {es : List Event} {s : Session} {log : List Output}
    (h : exec (traced step) (Session.new, []) es = some (s, log)) :
    s.writes.length ≤ 1 ∧
      (∀ b ∈ s.writes, s.datas.head? = some b) ∧
      written (epoch log) ++ s.datas = sent es ∧
      ((∀ b, .failed b ∉ epoch log) → s.datas ≠ [] → s.writes ≠ []) ∧
      (epoch log).Pairwise fun x y => x.isFailed = true → y.isAsyncWrite = false := by
  obtain ⟨l, -, hl⟩ := exec_runs h
  refine ⟨?_, ?_, ?_, ?_, hl.quiet⟩
  · rw [hl.writes]
    exact l.inFlight_length_le
  · intro b hb
    rw [hl.datas]
    exact Link.head_of_mem_inFlight (hl.writes ▸ hb)
  · rw [hl.written_eq, hl.datas, ← exec_posted h, hl.posted_eq, Link.posted]
  · intro hok hd
    have hf : l.failed = false := by
      rw [← Bool.not_eq_true, hl.failed_iff]
      rintro ⟨x, hx, hxf⟩
      cases x <;> simp only [Output.isFailed, Bool.false_eq_true] at hxf
      exact hok _ hx
    rw [hl.writes]
    exact Link.inFlight_ne_nil hf (hl.datas ▸ hd)

/-- The second write fails, and the session is started again. -/
theorem writeQueue_run_restarted :
    let es := [.start true, .sendBuffer ⟨some 1, 14⟩, .sendBuffer ⟨some 2, 30⟩,
      .handleWrite 0 false, .handleWrite 0 true, .sendBuffer ⟨some 3, 9⟩, .start true,
      .sendBuffer ⟨some 4, 5⟩, .sendBuffer ⟨some 5, 6⟩, .handleWrite 0 false]
    ∃ s log, exec (traced step) (Session.new, []) es = some (s, log) ∧ s.writes.length ≤ 1 ∧
      written (epoch log) ++ s.datas = [⟨some 4, 5⟩, ⟨some 5, 6⟩] := by
  intro es
  obtain ⟨s, log, h⟩ : ∃ s log, exec (traced step) (Session.new, []) es = some (s, log) :=
    ⟨_, _, rfl⟩
  have hrun := writeQueue_run h
  exact ⟨s, log, h, hrun.1, hrun.2.2.1⟩

end VChat.NetWork.WriteQueue
