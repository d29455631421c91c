import VChat.Common.SafeRingBuffer
import VChat.Transition.Runs
import VChat.Transition.TryLock

/-! Any number of threads in `push` and `pop` of one buffer. Each change of `signal_` and each
read or write of `cur_` and of `data_` is a step of its own. -/

namespace VChat.RingRace
open Transition SafeRingBuffer

inductive Pc (T : Type*)
  | idle
  | push (t : T)
  | pushTest (t : T)
  | pushRead (t : T)
  | pushWrite (t : T) (c : Nat)
  | pushWriteCur (t : T) (c : Nat)
  | pushWriteData (t : T) (c : Nat)
  | pushDone (t : T)
  | pushFail
  | pop
  | popTest
  | popRead
  | popWriteCur (c : Nat)
  | popIndex
  | popReadData (c : Nat)
  | popDone (t : T)

/-- `entered`: its last change of `signal_` was a decrement that yielded `exchange_value`. -/
structure Thread (T : Type*) where
  pc : Pc T
  entered : Bool

/-- `stored`, `succeeded` and `popped` are the values that pushes put into `data_`, that they
returned true for, and that pops took out of `data_`. -/
structure State (T : Type*) where
  ring : SafeRingBuffer T
  thread : Nat → Thread T
  stored : List T
  succeeded : List T
  popped : List T

inductive Event (T : Type*)
  | push (i : Nat) (t : T)
  | pop (i : Nat)
  | act (i : Nat) (dataFirst : Bool)

namespace State
variable {T : Type*}

def goto (s : State T) (i : Nat) (pc : Pc T) : State T :=
  { s with thread := fun j => if j = i then ⟨pc, (s.thread i).entered⟩ else s.thread j }

def decrement (s : State T) (i : Nat) (yes no : Pc T) : State T :=
  let v := s.ring.signal - 1
  let th : Thread T := if v = exchangeValue then ⟨yes, true⟩ else ⟨no, false⟩
  { s with
    ring := { s.ring with signal := v }
    thread := fun j => if j = i then th else s.thread j }

def increment (s : State T) (i : Nat) : State T :=
  { s with
    ring := { s.ring with signal := s.ring.signal + 1 }
    thread := fun j => if j = i then ⟨.idle, false⟩ else s.thread j }

def writeCur (s : State T) (c : Nat) : State T := { s with ring := { s.ring with cur := c } }

def writeData (s : State T) (c : Nat) (t : T) : State T :=
  { s with ring := { s.ring with data := fun i => if i = c then t else s.ring.data i } }

end State

variable {T : Type*}

/-- The two writes of `data_[cur_++] = t` come in either order. -/
def act [Zero T] (s : State T) (i : Nat) (dataFirst : Bool) : Option (State T) :=
  match (s.thread i).pc with
  | .idle => none
  | .push t => some (s.decrement i (.pushTest t) .pushFail)
  | .pushTest t => some (s.goto i (if s.ring.cur < s.ring.size then .pushRead t else .pushFail))
  | .pushRead t => some (s.goto i (.pushWrite t s.ring.cur))
  | .pushWrite t c =>
    if dataFirst then some ((s.writeData c t).goto i (.pushWriteCur t c))
    else some ((s.writeCur (c + 1)).goto i (.pushWriteData t c))
  | .pushWriteCur t c =>
    some { (s.writeCur (c + 1)).goto i (.pushDone t) with stored := s.stored ++ [t] }
  | .pushWriteData t c =>
    some { (s.writeData c t).goto i (.pushDone t) with stored := s.stored ++ [t] }
  | .pushDone t => some { s.decrement i .idle .idle with succeeded := s.succeeded ++ [t] }
  | .pushFail => some (s.increment i)
  | .pop => some (s.decrement i .popTest (.popDone 0))
  | .popTest => some (s.goto i (if s.ring.cur > 0 then .popRead else .popDone 0))
  | .popRead => some (s.goto i (.popWriteCur s.ring.cur))
  | .popWriteCur c => some ((s.writeCur (c - 1)).goto i .popIndex)
  | .popIndex => some (s.goto i (.popReadData s.ring.cur))
  | .popReadData c =>
    some { s.goto i (.popDone (s.ring.data c)) with popped := s.popped ++ [s.ring.data c] }
  | .popDone _ => some (s.increment i)

def isIdle (s : State T) (i : Nat) : Bool :=
  match (s.thread i).pc with
  | .idle => true
  | _ => false

def step [Zero T] (s : State T) : Event T → Option (State T)
  | .push i t => if isIdle s i then some (s.goto i (.push t)) else none
  | .pop i => if isIdle s i then some (s.goto i .pop) else none
  | .act i dataFirst => act s i dataFirst

/-- A buffer made ready by the default constructor and `size(n)`, and no calls yet. -/
def start [Zero T] (uninit : Nat → T) (n : Nat) : State T :=
  ⟨(SafeRingBuffer.new uninit).setSize n, fun _ => ⟨.idle, false⟩, [], [], []⟩

def storing (s : State T) (i : Nat) : Bool :=
  match (s.thread i).pc with
  | .pushWriteCur _ _ | .pushWriteData _ _ => true
  | _ => false

def returning (s : State T) (i : Nat) : Bool :=
  match (s.thread i).pc with
  | .pushDone _ => true
  | _ => false

def zone (th : Thread T) : Zone :=
  match th.pc with
  | .idle | .push _ | .pop => .outside
  | .pushFail | .popDone _ => if th.entered then .inside else .refused
  | _ => .inside

def lock (s : State T) : TryLock := ⟨fun i => zone (s.thread i), s.ring.signal, s.succeeded.length⟩

/-- The counter tells who is inside, and every thread knows whether it is. -/
structure Locked (s : State T) : Prop where
  counted : (lock s).Counted
  entered_iff : ∀ i, zone (s.thread i) = .inside ↔ (s.thread i).entered = true

section
variable {s s' : State T} {i : Nat}

theorem Locked.keep (h : Locked s) {pc : Pc T}
    (hz : zone ⟨pc, (s.thread i).entered⟩ = zone (s.thread i))
    (hthread : ∀ j, s'.thread j = if j = i then ⟨pc, (s.thread i).entered⟩ else s.thread j)
    (hsignal : s'.ring.signal = s.ring.signal) (hsucc : s'.succeeded = s.succeeded) :
    Locked s' := by
  have hzone : ∀ j, zone (s'.thread j) = zone (s.thread j) := by
    intro j
    rw [hthread]
    split_ifs with hj
    · rw [hz, hj]
    · rfl
  have hlock : lock s' = lock s := by simp only [lock, hzone, hsignal, hsucc]
  refine ⟨hlock ▸ h.counted, fun j => ?_⟩
  rw [hzone, h.entered_iff, hthread]
  split_ifs with hj
  · rw [hj]
  · rfl

theorem Locked.move (h : Locked s) {th : Thread T} {signal : Int} {shut : Nat}
    (hm : TryLock.Move (lock s) ((lock s).put i (zone th) signal shut))
    (hth : zone th = .inside ↔ th.entered = true)
    (hthread : ∀ j, s'.thread j = if j = i then th else s.thread j)
    (hsignal : s'.ring.signal = signal) (hsucc : s'.succeeded.length = shut) : Locked s' := by
  have hlock : lock s' = (lock s).put i (zone th) signal shut := by
    simp only [lock, TryLock.put, hsignal, hsucc, TryLock.mk.injEq, and_true]
    funext j
    rw [hthread]
    split_ifs <;> rfl
  refine ⟨hlock ▸ h.counted.move hm, fun j => ?_⟩
  rw [hthread]
  split_ifs with hj
  · exact hth
  · exact h.entered_iff j

theorem Locked.decrement (h : Locked s) {yes no : Pc T} (hi : zone (s.thread i) = .outside)
    (hyes : zone ⟨yes, true⟩ = .inside) (hno : zone ⟨no, false⟩ = .refused) :
    Locked (s.decrement i yes no) := by
  by_cases hv : s.ring.signal - 1 = exchangeValue
  · have hm : TryLock.Move (lock s)
        ((lock s).put i (zone (⟨yes, true⟩ : Thread T)) (s.ring.signal - 1) s.succeeded.length) :=
      hyes ▸ .enter (lock s) i hi hv
    exact h.move hm (iff_of_true hyes rfl) (fun j => by simp [State.decrement, hv]) rfl rfl
  · have hm : TryLock.Move (lock s)
        ((lock s).put i (zone (⟨no, false⟩ : Thread T)) (s.ring.signal - 1) s.succeeded.length) :=
      hno ▸ .refuse (lock s) i hi hv
    have hth : zone (⟨no, false⟩ : Thread T) = .inside ↔ false = true := by rw [hno]; decide
    exact h.move hm hth (fun j => by simp [State.decrement, hv]) rfl rfl

theorem Locked.increment (h : Locked s) (hi : zone (s.thread i) ≠ .outside) :
    Locked (s.increment i) := by
  have hm : TryLock.Move (lock s)
      ((lock s).put i (zone (⟨.idle, false⟩ : Thread T)) (s.ring.signal + 1) s.succeeded.length) :=
    .leave (lock s) i hi
  exact h.move hm (iff_of_false (by simp [zone]) (by simp)) (fun _ => rfl) rfl rfl

/-- The second decrement of a push cannot yield `exchange_value`. -/
theorem Locked.shut (h : Locked s) {t : T} (hi : zone (s.thread i) = .inside) :
    Locked { s.decrement i .idle .idle with succeeded := s.succeeded ++ [t] } := by
  have hbusy : (lock s).zone i ≠ .outside := by
    show zone (s.thread i) ≠ .outside
    rw [hi]
    decide
  have hle : s.ring.signal ≤ 0 := h.counted.signal_le hbusy
  have hv : s.ring.signal - 1 ≠ exchangeValue := by
    unfold exchangeValue
    omega
  have hm : TryLock.Move (lock s) ((lock s).put i (zone (⟨.idle, false⟩ : Thread T))
      (s.ring.signal - 1) (s.succeeded.length + 1)) :=
    .shut (lock s) i hi
  exact h.move hm (iff_of_false (by simp [zone]) (by simp))
    (fun j => by simp [State.decrement, hv]) rfl (by simp)

end

def Fresh [Zero T] (s : State T) : Prop :=
  s.ring.cur = 0 ∧ s.stored = [] ∧ (0 < s.ring.size → s.ring.data 0 = 0)

def Full (s : State T) (t : T) : Prop :=
  0 < s.ring.size ∧ s.ring.cur = 1 ∧ s.ring.data 0 = t ∧ s.stored = [t]

/-- What the thread inside can rely on, by what it does next. A pop never finds a value: the
push that stored it has shut the lock. -/
def Good [Zero T] (s : State T) : Pc T → Prop
  | .idle | .push _ | .pop => True
  | .pushTest _ | .pushFail | .popTest | .popDone _ => Fresh s
  | .pushRead _ => Fresh s ∧ 0 < s.ring.size
  | .pushWrite _ c => Fresh s ∧ 0 < s.ring.size ∧ c = 0
  | .pushWriteCur t c =>
    0 < s.ring.size ∧ c = 0 ∧ s.ring.cur = 0 ∧ s.ring.data 0 = t ∧ s.stored = []
  | .pushWriteData _ c =>
    0 < s.ring.size ∧ c = 0 ∧ s.ring.cur = 1 ∧ s.ring.data 0 = 0 ∧ s.stored = []
  | .pushDone t => Full s t
  | .popRead | .popWriteCur _ | .popIndex | .popReadData _ => False

structure Sound [Zero T] (s : State T) : Prop extends Locked s where
  popped : s.popped = []
  inside : ∀ i, zone (s.thread i) = .inside → Good s (s.thread i).pc
  quiet : (∀ i, zone (s.thread i) ≠ .inside) →
    (s.succeeded = [] ∧ Fresh s) ∨ ∃ t, s.succeeded = [t] ∧ Full s t

section
variable [Zero T] {s s' : State T} {i : Nat}

theorem good_congr (hring : s'.ring.cur = s.ring.cur) (hdata : s'.ring.data = s.ring.data)
    (hsize : s'.ring.size = s.ring.size) (hstored : s'.stored = s.stored) :
    Good s' = Good s := by
  funext pc
  cases pc <;> simp only [Good, Fresh, Full, hring, hdata, hsize, hstored]

theorem Sound.succeeded_nil (h : Sound s) (hi : zone (s.thread i) = .inside) :
    s.succeeded = [] := by
  by_contra hne
  have hlen : s.succeeded.length ≠ 0 := fun h0 => hne (List.length_eq_zero_iff.mp h0)
  exact h.counted.empty_of_shut hlen i hi

/-- The thread inside moves on: only what it relies on next has to be shown. -/
theorem Sound.critical (h : Sound s) {pc : Pc T} (hi : zone (s.thread i) = .inside)
    (hz : zone ⟨pc, (s.thread i).entered⟩ = .inside)
    (hthread : ∀ j, s'.thread j = if j = i then ⟨pc, (s.thread i).entered⟩ else s.thread j)
    (hsignal : s'.ring.signal = s.ring.signal) (hsucc : s'.succeeded = s.succeeded)
    (hpopped : s'.popped = s.popped) (hgood : Good s' pc) : Sound s' where
  toLocked := h.toLocked.keep (hz.trans hi.symm) hthread hsignal hsucc
  popped := hpopped.trans h.popped
  inside := by
    intro j hj
    rw [hthread] at hj ⊢
    split_ifs at hj ⊢ with hji
    · exact hgood
    · exact absurd (h.counted.alone j i hj hi) hji
  quiet := by
    intro hquiet
    -- the thread is still inside, so the buffer is not quiet
    have hin : zone (s'.thread i) = .inside := by rw [hthread, if_pos rfl, hz]
    exact absurd hin (hquiet i)

theorem Sound.outer (h : Sound s) (i : Nat) (th : Thread T) (hlocked : Locked s')
    (hi : zone (s.thread i) ≠ .inside) (hz : zone th ≠ .inside)
    (hthread : ∀ j, s'.thread j = if j = i then th else s.thread j)
    (hring : s'.ring = { s.ring with signal := s'.ring.signal }) (hstored : s'.stored = s.stored)
    (hsucc : s'.succeeded = s.succeeded) (hpopped : s'.popped = s.popped) : Sound s' where
  toLocked := hlocked
  popped := hpopped.trans h.popped
  inside := by
    have hgood : Good s' = Good s :=
      good_congr (by rw [hring]) (by rw [hring]) (by rw [hring]) hstored
    intro j hj
    rw [hthread] at hj ⊢
    split_ifs at hj ⊢ with hji
    · exact absurd hj hz
    · exact hgood ▸ h.inside j hj
  quiet := by
    intro hquiet
    have hbefore : ∀ j, zone (s.thread j) ≠ .inside := by
      intro j hj
      have hji : j ≠ i := fun hji => hi (hji ▸ hj)
      have hj' := hquiet j
      rw [hthread, if_neg hji] at hj'
      exact hj' hj
    simp only [Fresh, Full, hsucc, hstored]
    rw [hring]
    exact h.quiet hbefore

theorem Sound.fresh_of_signal (h : Sound s) (h1 : s.ring.signal = initValue) :
    (∀ j, zone (s.thread j) = .outside) ∧ Fresh s := by
  obtain ⟨hidle, hshut⟩ := h.counted.idle_of_signal h1
  refine ⟨hidle, ?_⟩
  have hquiet : ∀ j, zone (s.thread j) ≠ .inside := by
    intro j hj
    have hout : zone (s.thread j) = .outside := hidle j
    simp [hout] at hj
  rcases h.quiet hquiet with ⟨-, hfresh⟩ | ⟨t, ht, -⟩
  · exact hfresh
  · have hlen : s.succeeded.length = 0 := hshut
    simp [ht] at hlen

theorem Sound.decrement (h : Sound s) {yes no : Pc T} (hi : zone (s.thread i) = .outside)
    (hyes : zone ⟨yes, true⟩ = .inside) (hno : zone ⟨no, false⟩ = .refused)
    (hgood : ∀ s' : State T, Fresh s' → Good s' yes) : Sound (s.decrement i yes no) := by
  have hlocked : Locked (s.decrement i yes no) := h.toLocked.decrement hi hyes hno
  by_cases hv : s.ring.signal - 1 = exchangeValue
  · have h1 : s.ring.signal = initValue := by
      unfold exchangeValue at hv
      unfold initValue
      omega
    obtain ⟨hidle, hfresh⟩ := h.fresh_of_signal h1
    have hthread : ∀ j, (s.decrement i yes no).thread j =
        if j = i then ⟨yes, true⟩ else s.thread j := fun j => by simp [State.decrement, hv]
    refine ⟨hlocked, h.popped, fun j hj => ?_, fun hquiet => ?_⟩
    · rw [hthread] at hj ⊢
      split_ifs at hj ⊢ with hji
      · exact hgood _ hfresh
      · simp [hidle j] at hj
    · have hin : zone ((s.decrement i yes no).thread i) = .inside := by
        rw [hthread, if_pos rfl, hyes]
      exact absurd hin (hquiet i)
  · exact h.outer i ⟨no, false⟩ hlocked (by simp [hi]) (by simp [hno])
      (fun j => by simp [State.decrement, hv]) rfl rfl rfl rfl

theorem Sound.increment (h : Sound s) (hi : zone (s.thread i) ≠ .outside)
    (hgood : Good s (s.thread i).pc → Fresh s) : Sound (s.increment i) := by
  have hlocked : Locked (s.increment i) := h.toLocked.increment hi
  by_cases hin : zone (s.thread i) = .inside
  · refine ⟨hlocked, h.popped, fun j hj => ?_, fun _ => .inl ⟨h.succeeded_nil hin, ?_⟩⟩
    · simp only [State.increment] at hj ⊢
      split_ifs at hj ⊢ with hji
      · trivial
      · exact absurd (h.counted.alone j i hj hin) hji
    · exact hgood (h.inside i hin)
  · exact h.outer i ⟨.idle, false⟩ hlocked hin (by simp [zone]) (fun _ => rfl) rfl rfl rfl rfl

theorem Sound.shut (h : Sound s) {t : T} (hin : zone (s.thread i) = .inside) (hfull : Full s t) :
    Sound { s.decrement i .idle .idle with succeeded := s.succeeded ++ [t] } := by
  refine ⟨h.toLocked.shut hin, h.popped, fun j hj => ?_, fun _ => .inr ⟨t, ?_, hfull⟩⟩
  · by_cases hji : j = i
    · simp only [State.decrement, if_pos hji] at hj ⊢
      split_ifs <;> trivial
    · simp only [State.decrement, if_neg hji] at hj ⊢
      exact absurd (h.counted.alone j i hj hin) hji
  · rw [h.succeeded_nil hin, List.nil_append]

theorem Sound.call (h : Sound s) (hidle : isIdle s i = true) {pc : Pc T}
    (hz : ∀ b, zone ⟨pc, b⟩ = .outside) : Sound (s.goto i pc) := by
  have hi : zone (s.thread i) = .outside := by
    unfold isIdle at hidle
    cases hpc : (s.thread i).pc <;> simp [hpc, zone] at hidle ⊢
  have hlocked : Locked (s.goto i pc) :=
    h.toLocked.keep ((hz _).trans hi.symm) (fun _ => rfl) rfl rfl
  exact h.outer i ⟨pc, (s.thread i).entered⟩ hlocked (by simp [hi]) (by simp [hz])
    (fun _ => rfl) rfl rfl rfl rfl

theorem Sound.act (h : Sound s) {dataFirst : Bool} (hact : act s i dataFirst = some s') :
    Sound s' := by
  have hinside := h.inside i
  have hentered := (h.entered_iff i).mp
  unfold RingRace.act at hact
  cases hpc : (s.thread i).pc with
  | idle => simp [hpc] at hact
  | push t =>
    obtain rfl := by simpa [hpc] using hact
    exact h.decrement (by simp [zone, hpc]) (by simp [zone]) (by simp [zone]) fun _ hf => hf
  | pushTest t =>
    obtain rfl := by simpa [hpc] using hact
    have hin : zone (s.thread i) = .inside := by simp [zone, hpc]
    have hfresh : Good s (.pushTest t) := hpc ▸ hinside hin
    by_cases hcur : s.ring.cur < s.ring.size
    · rw [if_pos hcur]
      exact h.critical hin (by simp [zone]) (fun _ => rfl) rfl rfl rfl
        ⟨hfresh, Nat.zero_lt_of_lt hcur⟩
    · rw [if_neg hcur]
      exact h.critical hin (by simp [zone, hentered hin]) (fun _ => rfl) rfl rfl rfl hfresh
  | pushRead t =>
    obtain rfl := by simpa [hpc] using hact
    have hin : zone (s.thread i) = .inside := by simp [zone, hpc]
    have hgood : Good s (.pushRead t) := hpc ▸ hinside hin
    obtain ⟨hfresh, hsize⟩ := hgood
    exact h.critical hin (by simp [zone]) (fun _ => rfl) rfl rfl rfl ⟨hfresh, hsize, hfresh.1⟩
  | pushWrite t c =>
    have hin : zone (s.thread i) = .inside := by simp [zone, hpc]
    have hgood : Good s (.pushWrite t c) := hpc ▸ hinside hin
    obtain ⟨⟨hcur, hstored, hdata⟩, hsize, rfl⟩ := hgood
    -- whichever write comes first, nobody else gets in before the other
    cases dataFirst with
    | true =>
      obtain rfl := by simpa [hpc] using hact
      exact h.critical hin (by simp [zone]) (fun _ => rfl) rfl rfl rfl
        ⟨hsize, rfl, hcur, by simp [State.writeData, State.goto], hstored⟩
    | false =>
      obtain rfl := by simpa [hpc] using hact
      exact h.critical hin (by simp [zone]) (fun _ => rfl) rfl rfl rfl
        ⟨hsize, rfl, rfl, hdata hsize, hstored⟩
  | pushWriteCur t c =>
    obtain rfl := by simpa [hpc] using hact
    have hin : zone (s.thread i) = .inside := by simp [zone, hpc]
    have hgood : Good s (.pushWriteCur t c) := hpc ▸ hinside hin
    obtain ⟨hsize, rfl, -, hdata, hstored⟩ := hgood
    exact h.critical hin (by simp [zone]) (fun _ => rfl) rfl rfl rfl
      ⟨hsize, rfl, hdata, by simp [hstored]⟩
  | pushWriteData t c =>
    obtain rfl := by simpa [hpc] using hact
    have hin : zone (s.thread i) = .inside := by simp [zone, hpc]
    have hgood : Good s (.pushWriteData t c) := hpc ▸ hinside hin
    obtain ⟨hsize, rfl, hcur, -, hstored⟩ := hgood
    exact h.critical hin (by simp [zone]) (fun _ => rfl) rfl rfl rfl
      ⟨hsize, hcur, by simp [State.writeData, State.goto], by simp [hstored]⟩
  | pushDone t =>
    obtain rfl := by simpa [hpc] using hact
    have hin : zone (s.thread i) = .inside := by simp [zone, hpc]
    have hfull : Good s (.pushDone t) := hpc ▸ hinside hin
    exact h.shut hin hfull
  | pushFail =>
    obtain rfl := by simpa [hpc] using hact
    have hbusy : zone (s.thread i) ≠ .outside := by
      simp only [zone, hpc]
      split_ifs <;> decide
    exact h.increment hbusy fun hgood => show Good s .pushFail from hpc ▸ hgood
  | pop =>
    obtain rfl := by simpa [hpc] using hact
    exact h.decrement (by simp [zone, hpc]) (by simp [zone]) (by simp [zone]) fun _ hf => hf
  | popTest =>
    obtain rfl := by simpa [hpc] using hact
    have hin : zone (s.thread i) = .inside := by simp [zone, hpc]
    have hfresh : Good s .popTest := hpc ▸ hinside hin
    have hcur : ¬ 0 < s.ring.cur := by simp [hfresh.1]
    rw [if_neg hcur]
    exact h.critical hin (by simp [zone, hentered hin]) (fun _ => rfl) rfl rfl rfl hfresh
  | popRead | popWriteCur c | popIndex | popReadData c =>
    -- `cur_` was 0 when it was tested, so no pop gets here
    have hin : zone (s.thread i) = .inside := by simp [zone, hpc]
    exact absurd (hinside hin) (by simp [hpc, Good])
  | popDone t =>
    obtain rfl := by simpa [hpc] using hact
    have hbusy : zone (s.thread i) ≠ .outside := by
      simp only [zone, hpc]
      split_ifs <;> decide
    exact h.increment hbusy fun hgood => show Good s (.popDone t) from hpc ▸ hgood

theorem Sound.step {e : Event T} (h : Sound s) (hstep : step s e = some s') : Sound s' := by
  cases e with
  | push i t =>
    obtain ⟨hidle, rfl⟩ := by simpa [RingRace.step] using hstep
    exact h.call hidle fun _ => rfl
  | pop i =>
    obtain ⟨hidle, rfl⟩ := by simpa [RingRace.step] using hstep
    exact h.call hidle fun _ => rfl
  | act i dataFirst => exact h.act hstep

theorem sound_start (uninit : Nat → T) (n : Nat) : Sound (start uninit n) := by
  have hout : ∀ i, zone ((start uninit n).thread i) = .outside := fun _ => rfl
  have hfresh : Fresh (start uninit n) := by
    unfold Fresh start SafeRingBuffer.setSize SafeRingBuffer.new
    by_cases hn : n > 0
    · simp [hn]
    · simp [hn]
  have hsignal : (start uninit n).ring.signal = 1 := by
    unfold start SafeRingBuffer.setSize
    split_ifs <;> rfl
  refine ⟨⟨⟨⟨∅, fun i => ?_, ?_⟩, fun i j hi => ?_, fun hs => absurd rfl hs⟩, fun i => ?_⟩, rfl,
    fun i hi => ?_, fun _ => .inl ⟨rfl, hfresh⟩⟩
  · simp [lock, hout]
  · simp [lock, show (start uninit n).succeeded = [] from rfl, hsignal]
  · simp [lock, hout] at hi
  · simp [zone, start]
  · simp [hout] at hi

theorem Sound.contents (h : Sound s) :
    (s.ring.cur = 0 ∧ s.stored = [] ∧ s.succeeded = []) ∨
      (0 < s.ring.size ∧ s.ring.cur = 1 ∧ s.stored = [s.ring.data 0] ∧
        (s.succeeded = s.stored ∨ ∃ i, returning s i = true)) ∨
      (0 < s.ring.size ∧ s.ring.cur = 1 ∧ s.stored = [] ∧ s.succeeded = [] ∧
        s.ring.data 0 = 0 ∧ ∃ i, storing s i = true) := by
  by_cases hquiet : ∀ i, zone (s.thread i) ≠ .inside
  · rcases h.quiet hquiet with ⟨hsucc, hcur, hstored, -⟩ | ⟨t, hsucc, hsize, hcur, rfl, hstored⟩
    · exact .inl ⟨hcur, hstored, hsucc⟩
    · exact .inr (.inl ⟨hsize, hcur, hstored, .inl (hsucc.trans hstored.symm)⟩)
  · -- how far the thread inside has got tells what is held
    obtain ⟨i, hi⟩ := not_forall_not.mp hquiet
    have hsucc : s.succeeded = [] := h.succeeded_nil hi
    have hgood := h.inside i hi
    cases hpc : (s.thread i).pc <;> rw [hpc] at hgood
    case idle | push | pop => simp [zone, hpc] at hi
    case pushTest | pushFail | popTest | popDone => exact .inl ⟨hgood.1, hgood.2.1, hsucc⟩
    case pushRead | pushWrite => exact .inl ⟨hgood.1.1, hgood.1.2.1, hsucc⟩
    case pushWriteCur => exact .inl ⟨hgood.2.2.1, hgood.2.2.2.2, hsucc⟩
    case pushWriteData =>
      obtain ⟨hsize, -, hcur, hdata, hstored⟩ := hgood
      exact .inr (.inr ⟨hsize, hcur, hstored, hsucc, hdata, i, by simp [storing, hpc]⟩)
    case pushDone =>
      obtain ⟨hsize, hcur, rfl, hstored⟩ := hgood
      exact .inr (.inl ⟨hsize, hcur, hstored, .inr ⟨i, by simp [returning, hpc]⟩⟩)
    case popRead | popWriteCur | popIndex | popReadData => exact hgood.elim

theorem sound_of_exec {uninit : Nat → T} {n : Nat} {es : List (Event T)}
    (h : exec RingRace.step (start uninit n) es = some s) : Sound s :=
  exec_invariant (I := Sound) (fun _ _ _ hs hstep => hs.step hstep) (sound_start uninit n) h

/-- Whatever the threads do: one of them at most is inside, `cur_` stays in bounds, and the values
pushed are the values held and the values popped. While a push has done only one of its two
writes, the place it is about to fill holds the null pointer. -/
theorem ring_run [DecidableEq T] {uninit : Nat → T} {n : Nat} {es : List (Event T)}
    (h : exec RingRace.step (start uninit n) es = some s) :
    (∀ i j, (s.thread i).entered = true → (s.thread j).entered = true → i = j) ∧
      s.ring.cur ≤ s.ring.size ∧
      (s.stored.filter (· ≠ 0)).Perm ((s.ring.held ++ s.popped).filter (· ≠ 0)) ∧
      ((∀ i, storing s i = false) → s.stored.Perm (s.ring.held ++ s.popped)) ∧
      ((∀ i, returning s i = false) → s.succeeded = s.stored) ∧
      (s.stored.Nodup → s.popped.Nodup) := by
  have hs : Sound s := sound_of_exec h
  refine ⟨fun i j hi hj => ?_, ?_, ?_, fun hstoring => ?_, fun hreturning => ?_, fun _ => ?_⟩
  · exact hs.counted.alone i j ((hs.entered_iff i).mpr hi) ((hs.entered_iff j).mpr hj)
  · rcases hs.contents with ⟨hcur, -⟩ | ⟨hsize, hcur, -⟩ | ⟨hsize, hcur, -⟩
    · exact hcur ▸ Nat.zero_le _
    · exact hcur ▸ hsize
    · exact hcur ▸ hsize
  · rcases hs.contents with ⟨hcur, hstored, -⟩ | ⟨-, hcur, hstored, -⟩ |
      ⟨-, hcur, hstored, -, hdata, -⟩
    · simp [held, hcur, hstored, hs.popped]
    · simp [held, hcur, hstored, hs.popped]
    · simp [held, hcur, hstored, hs.popped, hdata]
  · rcases hs.contents with ⟨hcur, hstored, -⟩ | ⟨-, hcur, hstored, -⟩ | ⟨-, -, -, -, -, i, hi⟩
    · simp [held, hcur, hstored, hs.popped]
    · simp [held, hcur, hstored, hs.popped]
    · simp [hstoring i] at hi
  · rcases hs.contents with ⟨-, hstored, hsucc⟩ | ⟨-, -, -, hsucc | ⟨i, hi⟩⟩ |
      ⟨-, -, hstored, hsucc, -⟩
    · rw [hstored, hsucc]
    · exact hsucc
    · simp [hreturning i] at hi
    · rw [hstored, hsucc]
  · rw [hs.popped]
    exact List.nodup_nil

/-- A pop that comes while a push is inside is refused; the value pushed stays where it is. -/
theorem ring_run_refused :
    let es : List (Event Nat) := [.push 0 5, .act 0 false, .pop 1, .act 1 false, .act 0 false,
      .act 0 false, .act 0 false, .act 1 false, .act 0 false, .act 0 false]
    ∃ s, exec RingRace.step (start (fun _ => 0) 2) es = some s ∧
      (∀ i j, (s.thread i).entered = true → (s.thread j).entered = true → i = j) ∧
      s.ring.cur ≤ s.ring.size ∧ (s.stored.filter (· ≠ 0)).Perm [5] := by
  intro es
  obtain ⟨s, h, hheld⟩ : ∃ s, exec RingRace.step (start (fun _ => 0) 2) es = some s ∧
      s.ring.held ++ s.popped = [5] := ⟨_, rfl, rfl⟩
  have hrun := ring_run h
  rw [hheld] at hrun
  exact ⟨s, h, hrun.1, hrun.2.1, hrun.2.2.1⟩

end

end VChat.RingRace
