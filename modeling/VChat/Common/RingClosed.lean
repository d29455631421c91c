import VChat.Common.RingCalls

/-! A buffer made by the constructor that takes a size, which starts `signal_` at 0. -/

namespace VChat.RingRace
open Transition
variable {T : Type*} [Zero T]

def startSized (uninit : Nat → T) (n : Nat) : State T :=
  ⟨SafeRingBuffer.ofSize uninit n, fun _ => ⟨.idle, false⟩, [], [], []⟩

structure Closed (s : State T) : Prop where
  shut : (lock s).Shut
  nulls : Nulls s
  cur : s.ring.cur = 0
  stored : s.stored = []

variable {s s' : State T} {i : Nat} {dataFirst : Bool}

theorem Closed.put (h : Closed s) {th : Thread T} {signal : Int}
    (hm : TryLock.Move (lock s) ((lock s).put i (zone th) signal s.succeeded.length))
    (hth : ∀ t, th.pc = .popDone t → t = 0)
    (hthread : ∀ j, s'.thread j = if j = i then th else s.thread j)
    (hring : s'.ring = { s.ring with signal := signal }) (hstored : s'.stored = s.stored)
    (hsucc : s'.succeeded = s.succeeded) : Closed s' := by
  have hlock : lock s' = (lock s).put i (zone th) signal s.succeeded.length := by
    simp only [lock, TryLock.put, hring, hsucc, TryLock.mk.injEq, and_true]
    funext j
    rw [hthread]
    split_ifs <;> rfl
  refine ⟨hlock ▸ h.shut.move hm, fun j t hj => ?_, ?_, hstored.trans h.stored⟩
  · rw [hthread] at hj
    split_ifs at hj
    · exact hth t hj
    · exact h.nulls j t hj
  · rw [hring]
    exact h.cur

theorem Closed.decrement (h : Closed s) {yes no : Pc T} (hi : zone (s.thread i) = .outside)
    (hno : zone ⟨no, false⟩ = .refused) (hnull : ∀ t, no = .popDone t → t = 0) :
    Closed (s.decrement i yes no) ∧ (s.decrement i yes no).thread i = ⟨no, false⟩ := by
  have hle : s.ring.signal ≤ 0 := h.shut.signal_nonpos
  have hv : s.ring.signal - 1 ≠ SafeRingBuffer.exchangeValue := by
    unfold SafeRingBuffer.exchangeValue
    omega
  have hm : TryLock.Move (lock s) ((lock s).put i (zone (⟨no, false⟩ : Thread T))
      (s.ring.signal - 1) s.succeeded.length) :=
    hno ▸ .refuse (lock s) i hi hv
  refine ⟨h.put hm hnull (fun j => ?_) rfl rfl rfl, ?_⟩
  · simp [State.decrement, hv]
  · simp [State.decrement, hv]

theorem Closed.increment (h : Closed s) (hi : zone (s.thread i) ≠ .outside) :
    Closed (s.increment i) := by
  have hm : TryLock.Move (lock s) ((lock s).put i (zone (⟨.idle, false⟩ : Thread T))
      (s.ring.signal + 1) s.succeeded.length) :=
    .leave (lock s) i hi
  exact h.put hm (by simp) (fun _ => rfl) rfl rfl rfl

theorem Closed.call (h : Closed s) (hidle : (s.thread i).pc = .idle) {pc : Pc T}
    (hz : ∀ b, zone ⟨pc, b⟩ = .outside) : Closed (s.goto i pc) := by
  have hout : zone (s.thread i) = .outside := by simp [zone, hidle]
  have hput : (lock s).put i (zone (⟨pc, (s.thread i).entered⟩ : Thread T)) s.ring.signal
      s.succeeded.length = lock s := by
    simp only [lock, TryLock.put, TryLock.mk.injEq, and_true]
    funext j
    split_ifs with hj
    · rw [hj, hz, hout]
    · rfl
  have hm : TryLock.Move (lock s) ((lock s).put i (zone (⟨pc, (s.thread i).entered⟩ : Thread T))
      s.ring.signal s.succeeded.length) := by
    rw [hput]
    exact .skip _
  refine h.put hm (fun t ht => ?_) (fun _ => rfl) rfl rfl rfl
  have hbusy := hz false
  rw [show pc = .popDone t from ht] at hbusy
  simp [zone] at hbusy

theorem Closed.act (h : Closed s) (hact : act s i dataFirst = some s') : Closed s' := by
  have hnobody : zone (s.thread i) ≠ .inside := h.shut.nobody i
  unfold RingRace.act at hact
  cases hpc : (s.thread i).pc with
  | idle => simp [hpc] at hact
  | push t =>
    obtain rfl := by simpa [hpc] using hact
    exact (h.decrement (by simp [zone, hpc]) (by simp [zone]) (by simp)).1
  | pop =>
    obtain rfl := by simpa [hpc] using hact
    refine (h.decrement (by simp [zone, hpc]) (by simp [zone]) fun t ht => ?_).1
    exact (Pc.popDone.inj ht).symm
  | pushFail | popDone t =>
    obtain rfl := by simpa [hpc] using hact
    apply h.increment
    simp only [zone, hpc]
    split_ifs <;> decide
  | _ => exact absurd (by simp [zone, hpc]) hnobody

theorem Closed.pushes (h : Closed s) {p : T} (hpc : Pushes p (s.thread i).pc) :
    (s.thread i).pc = .push p ∨ (s.thread i).pc = .pushFail := by
  have hnobody : zone (s.thread i) ≠ .inside := h.shut.nobody i
  cases hi : (s.thread i).pc <;> rw [hi] at hpc
  case push t => exact .inl (congrArg _ hpc)
  case pushFail => exact .inr rfl
  all_goals first
    | exact hpc.elim
    | exact absurd (by simp [zone, hi]) hnobody

theorem closed_start (uninit : Nat → T) (n : Nat) : Closed (startSized uninit n) where
  shut := ⟨⟨∅, fun i => by simp [lock, startSized, zone], by simp [lock, startSized,
    SafeRingBuffer.ofSize]⟩, fun i => by simp [lock, startSized, zone]⟩
  nulls := fun _ _ h => by simp [startSized] at h
  cur := rfl
  stored := rfl

end VChat.RingRace
