import VChat.Common.RingRace

/-! What a call of `push` or `pop` makes of its thread, seen from outside the buffer. -/

namespace VChat.RingRace
open Transition
variable {T : Type*}

def Pops : Pc T → Prop
  | .pop | .popTest | .popRead | .popWriteCur _ | .popIndex | .popReadData _ | .popDone _ => True
  | _ => False

def Pushes (p : T) : Pc T → Prop
  | .push t | .pushTest t | .pushRead t | .pushWrite t _ | .pushWriteCur t _ | .pushWriteData t _
  | .pushDone t => t = p
  | .pushFail => True
  | _ => False

def Nulls [Zero T] (s : State T) : Prop := ∀ i t, (s.thread i).pc = .popDone t → t = 0

variable [Zero T] {s s' : State T} {i j : Nat} {dataFirst : Bool}

theorem thread_act_of_ne (h : act s i dataFirst = some s') (hj : j ≠ i) :
    s'.thread j = s.thread j := by
  unfold act at h
  cases hpc : (s.thread i).pc with
  | idle => simp [hpc] at h
  | pushWrite t c =>
    cases dataFirst with
    | true =>
      obtain rfl := by simpa [hpc] using h
      exact if_neg hj
    | false =>
      obtain rfl := by simpa [hpc] using h
      exact if_neg hj
  | _ =>
    obtain rfl := by simpa [hpc] using h
    exact if_neg hj

theorem isSome_act (h : (s.thread i).pc ≠ .idle) (dataFirst : Bool) :
    (act s i dataFirst).isSome := by
  unfold act
  cases hpc : (s.thread i).pc with
  | idle => exact absurd hpc h
  | pushWrite t c => cases dataFirst <;> rfl
  | _ => rfl

def left : Pc T → Nat
  | .idle => 0
  | .push _ | .popTest => 6
  | .pushTest _ | .popRead => 5
  | .pushRead _ | .popWriteCur _ => 4
  | .pushWrite _ _ | .popIndex => 3
  | .pushWriteCur _ _ | .pushWriteData _ _ | .popReadData _ => 2
  | .pushDone _ | .pushFail | .popDone _ => 1
  | .pop => 7

theorem left_act (h : act s i dataFirst = some s') :
    left (s'.thread i).pc < left (s.thread i).pc := by
  unfold act at h
  cases hpc : (s.thread i).pc with
  | idle => simp [hpc] at h
  | push t | pushDone t | pop =>
    obtain rfl := by simpa [hpc] using h
    simp only [State.decrement, if_true]
    split_ifs <;> simp [left]
  | pushTest t | popTest =>
    obtain rfl := by simpa [hpc] using h
    simp only [State.goto, if_true]
    split_ifs <;> simp [left]
  | pushWrite t c =>
    cases dataFirst with
    | true =>
      obtain rfl := by simpa [hpc] using h
      simp [State.goto, left]
    | false =>
      obtain rfl := by simpa [hpc] using h
      simp [State.goto, left]
  | pushFail | popDone t =>
    obtain rfl := by simpa [hpc] using h
    simp [State.increment, left]
  | pushRead t | pushWriteCur t c | pushWriteData t c | popRead | popWriteCur c | popIndex
  | popReadData c =>
    obtain rfl := by simpa [hpc] using h
    simp [State.goto, left]

theorem act_pops (hpc : Pops (s.thread i).pc) (h : act s i dataFirst = some s') :
    s'.stored = s.stored ∧ ((∃ t, (s.thread i).pc = .popDone t) ∧ (s'.thread i).pc = .idle ∨
      (∀ t, (s.thread i).pc ≠ .popDone t) ∧ Pops (s'.thread i).pc) := by
  unfold act at h
  cases hi : (s.thread i).pc <;> rw [hi] at hpc
  case pop =>
    obtain rfl := by simpa [hi] using h
    refine ⟨rfl, .inr ⟨by simp, ?_⟩⟩
    simp only [State.decrement, if_true]
    split_ifs <;> trivial
  case popTest =>
    obtain rfl := by simpa [hi] using h
    refine ⟨rfl, .inr ⟨by simp, ?_⟩⟩
    simp only [State.goto, if_true]
    split_ifs <;> trivial
  case popRead | popWriteCur | popIndex | popReadData =>
    obtain rfl := by simpa [hi] using h
    exact ⟨rfl, .inr ⟨by simp, by simp [State.goto, Pops]⟩⟩
  case popDone t =>
    obtain rfl := by simpa [hi] using h
    exact ⟨rfl, .inl ⟨⟨t, rfl⟩, by simp [State.increment]⟩⟩
  all_goals exact hpc.elim

theorem act_pushes {p : T} (hpc : Pushes p (s.thread i).pc) (h : act s i dataFirst = some s') :
    ((s.thread i).pc = .pushDone p ∨ (s.thread i).pc = .pushFail) ∧
        (s'.thread i).pc = .idle ∧ s'.stored = s.stored ∨
      ((s.thread i).pc ≠ .pushDone p ∧ (s.thread i).pc ≠ .pushFail) ∧
        (Pushes p (s'.thread i).pc ∧ (s'.thread i).pc ≠ .pushDone p ∧ s'.stored = s.stored ∨
          (s'.thread i).pc = .pushDone p ∧ s'.stored = s.stored ++ [p]) := by
  unfold act at h
  cases hi : (s.thread i).pc <;> rw [hi] at hpc
  case push t =>
    obtain rfl := by simpa [hi] using h
    obtain rfl : t = p := hpc
    refine .inr ⟨⟨by simp, by simp⟩, .inl ⟨?_, ?_, rfl⟩⟩
    · simp only [State.decrement, if_true]
      split_ifs <;> trivial
    · simp only [State.decrement, if_true]
      split_ifs <;> simp
  case pushTest t =>
    obtain rfl := by simpa [hi] using h
    obtain rfl : t = p := hpc
    refine .inr ⟨⟨by simp, by simp⟩, .inl ⟨?_, ?_, rfl⟩⟩
    · simp only [State.goto, if_true]
      split_ifs <;> trivial
    · simp only [State.goto, if_true]
      split_ifs <;> simp
  case pushRead t =>
    obtain rfl := by simpa [hi] using h
    obtain rfl : t = p := hpc
    exact .inr ⟨⟨by simp, by simp⟩, .inl (by simp [State.goto, Pushes])⟩
  case pushWrite t c =>
    obtain rfl : t = p := hpc
    cases dataFirst with
    | true =>
      obtain rfl := by simpa [hi] using h
      exact .inr ⟨⟨by simp, by simp⟩, .inl (by simp [State.goto, State.writeData, Pushes])⟩
    | false =>
      obtain rfl := by simpa [hi] using h
      exact .inr ⟨⟨by simp, by simp⟩, .inl (by simp [State.goto, State.writeCur, Pushes])⟩
  case pushWriteCur t c | pushWriteData t c =>
    obtain rfl := by simpa [hi] using h
    obtain rfl : t = p := hpc
    exact .inr ⟨⟨by simp, by simp⟩, .inr ⟨by simp [State.goto], rfl⟩⟩
  case pushDone t =>
    obtain rfl := by simpa [hi] using h
    obtain rfl : t = p := hpc
    refine .inl ⟨.inl rfl, ?_, rfl⟩
    simp only [State.decrement, if_true]
    split_ifs <;> rfl
  case pushFail =>
    obtain rfl := by simpa [hi] using h
    exact .inl ⟨.inr rfl, by simp [State.increment], rfl⟩
  all_goals exact hpc.elim

theorem Nulls.goto (h : Nulls s) {pc : Pc T} (hpc : ∀ t, pc = .popDone t → t = 0) :
    Nulls (s.goto i pc) := by
  intro j t hj
  simp only [State.goto] at hj
  split_ifs at hj with hji
  · exact hpc t hj
  · exact h j t hj

theorem Nulls.act (h : Nulls s) (hs : Sound s) (hact : act s i dataFirst = some s') :
    Nulls s' := by
  intro j t hj
  by_cases hji : j = i
  case neg =>
    rw [thread_act_of_ne hact hji] at hj
    exact h j t hj
  subst hji
  unfold RingRace.act at hact
  cases hpc : (s.thread j).pc with
  | idle => simp [hpc] at hact
  | pop =>
    obtain rfl := by simpa [hpc] using hact
    simp only [State.decrement, if_true] at hj
    split_ifs at hj
    exact (Pc.popDone.inj hj).symm
  | popTest =>
    obtain rfl := by simpa [hpc] using hact
    simp only [State.goto, if_true] at hj
    split_ifs at hj
    exact (Pc.popDone.inj hj).symm
  | popReadData c =>
    -- a pop has never found a value
    have hin : zone (s.thread j) = .inside := by simp [zone, hpc]
    have hgood := hs.inside j hin
    rw [hpc] at hgood
    exact hgood.elim
  | push t' | pushDone t' =>
    obtain rfl := by simpa [hpc] using hact
    simp only [State.decrement, if_true] at hj
    split_ifs at hj
  | pushTest t' =>
    obtain rfl := by simpa [hpc] using hact
    simp only [State.goto, if_true] at hj
    split_ifs at hj
  | pushWrite t' c =>
    cases dataFirst with
    | true =>
      obtain rfl := by simpa [hpc] using hact
      simp [State.goto] at hj
    | false =>
      obtain rfl := by simpa [hpc] using hact
      simp [State.goto] at hj
  | pushFail | popDone t' =>
    obtain rfl := by simpa [hpc] using hact
    simp [State.increment] at hj
  | pushRead t' | pushWriteCur t' c | pushWriteData t' c | popRead | popWriteCur c | popIndex =>
    obtain rfl := by simpa [hpc] using hact
    simp [State.goto] at hj

end VChat.RingRace
