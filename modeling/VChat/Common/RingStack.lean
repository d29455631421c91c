import VChat.Common.SafeRingBuffer
import VChat.Transition.Calls
import VChat.Transition.BoundedStack

/-! `SafeRingBuffer` beside the bounded stack it is meant to be. -/

namespace VChat.RingStack
open Transition

variable {T : Type*} [Zero T]

/-- No call pushes the null pointer. -/
inductive RingCall (T : Type*) [Zero T]
  | push (t : T) (ht : t ≠ 0)
  | pop

inductive RingResult (T : Type*)
  | pushed (done : Bool)
  | popped (t : T)
deriving DecidableEq

def RingCall.isPush : RingCall T → Bool
  | .push _ _ => true
  | .pop => false

def ringCall (b : SafeRingBuffer T) : RingCall T → RingResult T × SafeRingBuffer T
  | .push t _ => (.pushed (b.push t).1, (b.push t).2)
  | .pop => (.popped b.pop.1, b.pop.2)

/-- The stack of capacity `n`, with 0 for no value. -/
def stackCall {n : Nat} (s : BoundedStack T n) : RingCall T → RingResult T × BoundedStack T n
  | .push t _ => (.pushed (s.push t).1, (s.push t).2)
  | .pop => (.popped (s.pop.1.getD 0), s.pop.2)

/-- After the first push there is no call, or the capacity is 1 and there are pushes only. -/
def OnePush (n : Nat) : List (RingCall T) → Prop
  | [] => True
  | .pop :: cs => OnePush n cs
  | .push _ _ :: cs => cs = [] ∨ (n = 1 ∧ ∀ c ∈ cs, c.isPush = true)

theorem ringCall_of_closed {b : SafeRingBuffer T} (h : b.signal ≠ SafeRingBuffer.initValue)
    (c : RingCall T) :
    ringCall b c = (if c.isPush then .pushed false else .popped 0, b) := by
  cases c with
  | push t ht =>
    simp only [ringCall, b.push_of_closed h, RingCall.isPush, if_true]
  | pop =>
    simp only [ringCall, b.pop_of_closed h, RingCall.isPush, Bool.false_eq_true, if_false]

theorem answers_closed_empty {n : Nat} (hn : 0 < n) {b : SafeRingBuffer T}
    (h : b.signal ≠ SafeRingBuffer.initValue) (cs : List (RingCall T)) :
    answers ringCall b cs = answers stackCall (BoundedStack.empty : BoundedStack T n) cs ↔
      ∀ c ∈ cs, c.isPush = false := by
  apply answers_eq_iff_of_fixed
  · intro c
    rw [ringCall_of_closed h]
  · intro c
    cases c with
    | push t ht => exact .inr (by simp [RingCall.isPush])
    | pop => exact .inl rfl
  · intro c
    rw [ringCall_of_closed h]
    cases c with
    | push t ht => simp [RingCall.isPush, stackCall, BoundedStack.push, BoundedStack.empty, hn]
    | pop => simp [RingCall.isPush, stackCall, BoundedStack.pop, BoundedStack.empty]

theorem answers_closed_full {b : SafeRingBuffer T} (h : b.signal ≠ SafeRingBuffer.initValue)
    {t : T} (ht : t ≠ 0) (cs : List (RingCall T)) :
    answers ringCall b cs = answers stackCall (⟨[t], Nat.le_refl 1⟩ : BoundedStack T 1) cs ↔
      ∀ c ∈ cs, c.isPush = true := by
  apply answers_eq_iff_of_fixed
  · intro c
    rw [ringCall_of_closed h]
  · intro c
    cases c with
    | push a ha => exact .inl rfl
    | pop => exact .inr (by simp [RingCall.isPush])
  · intro c
    rw [ringCall_of_closed h]
    cases c with
    | push a ha => simp [RingCall.isPush, stackCall, BoundedStack.push]
    | pop => simp [RingCall.isPush, stackCall, BoundedStack.pop, ht.symm]

theorem answers_closed_pushed {n : Nat} (hn : 1 < n) {b : SafeRingBuffer T}
    (h : b.signal ≠ SafeRingBuffer.initValue) {t : T} (ht : t ≠ 0) (c : RingCall T)
    (cs : List (RingCall T)) :
    answers ringCall b (c :: cs) ≠
      answers stackCall (⟨[t], Nat.le_of_lt hn⟩ : BoundedStack T n) (c :: cs) := by
  rw [answers_cons, answers_cons, ringCall_of_closed h]
  intro heq
  obtain ⟨hhead, -⟩ := List.cons.inj heq
  cases c with
  | push a ha => simp [RingCall.isPush, stackCall, BoundedStack.push, hn] at hhead
  | pop => simp [RingCall.isPush, stackCall, BoundedStack.pop, ht.symm] at hhead

theorem answers_sized {n : Nat} (hn : 0 < n) (uninit : Nat → T) (cs : List (RingCall T)) :
    answers ringCall ((SafeRingBuffer.new uninit).setSize n) cs =
        answers stackCall (BoundedStack.empty : BoundedStack T n) cs ↔ OnePush n cs := by
  have hsize : (SafeRingBuffer.new uninit).setSize n = ⟨fun _ => 0, 1, n, 0⟩ := if_pos hn
  rw [hsize]
  induction cs with
  | nil => exact iff_of_true rfl trivial
  | cons c cs ih =>
    cases c with
    | pop =>
      rw [answers_cons, answers_cons, List.cons.injEq]
      exact (and_iff_right rfl).trans ih
    | push t ht =>
      have hring : ringCall (⟨fun _ => 0, 1, n, 0⟩ : SafeRingBuffer T) (.push t ht) =
          (.pushed true, ⟨fun i => if i = 0 then t else 0, -1, n, 1⟩) := by
        rw [ringCall, SafeRingBuffer.push_of_open _ rfl hn]
      have hstack : stackCall (BoundedStack.empty : BoundedStack T n) (.push t ht) =
          (.pushed true, ⟨[t], hn⟩) := by
        simp [stackCall, BoundedStack.push, BoundedStack.empty, hn]
      have hclosed : (-1 : Int) ≠ SafeRingBuffer.initValue := by decide
      rw [answers_cons, answers_cons, hring, hstack, List.cons.injEq, and_iff_right rfl]
      show _ ↔ cs = [] ∨ (n = 1 ∧ ∀ c ∈ cs, c.isPush = true)
      cases cs with
      | nil => simp
      | cons c cs =>
        rcases Nat.lt_or_eq_of_le (Nat.succ_le_of_lt hn) with h1 | h1
        · have hne : n ≠ 1 := Nat.ne_of_gt h1
          simp only [reduceCtorEq, hne, false_and, or_false, iff_false]
          exact answers_closed_pushed h1 hclosed ht c cs
        · subst h1
          rw [answers_closed_full hclosed ht]
          simp

/-- When the buffer answers as the stack of its capacity does. -/
theorem answers_eq_stack_iff {n : Nat} (hn : 0 < n) (uninit : Nat → T) (cs : List (RingCall T)) :
    (answers ringCall (SafeRingBuffer.ofSize uninit n) cs =
        answers stackCall (BoundedStack.empty : BoundedStack T n) cs ↔
      ∀ c ∈ cs, c.isPush = false) ∧
      (answers ringCall ((SafeRingBuffer.new uninit).setSize n) cs =
        answers stackCall (BoundedStack.empty : BoundedStack T n) cs ↔ OnePush n cs) := by
  have hclosed : (SafeRingBuffer.ofSize uninit n).signal ≠ SafeRingBuffer.initValue := by
    simp [SafeRingBuffer.ofSize, SafeRingBuffer.initValue]
  exact ⟨answers_closed_empty hn hclosed cs, answers_sized hn uninit cs⟩

theorem answers_eq_stack_iff_two :
    0 < 2 ∧ OnePush 2 [RingCall.pop, .push 5 (by decide : (5 : Nat) ≠ 0)] ∧
      answers ringCall ((SafeRingBuffer.new fun _ => 0).setSize 2)
          [.pop, .push 5 (by decide : (5 : Nat) ≠ 0)] = [.popped 0, .pushed true] := by
  have hone : OnePush 2 [RingCall.pop, .push 5 (by decide : (5 : Nat) ≠ 0)] := .inl rfl
  refine ⟨by decide, hone, ?_⟩
  rw [(answers_eq_stack_iff (by decide : 0 < 2) (fun _ => 0) _).2.mpr hone]
  rfl

/-- The value pushed first is never given back, and a buffer constructed with its size takes
none. -/
theorem not_stack_push_pop :
    answers ringCall ((SafeRingBuffer.new fun _ => 0).setSize 2)
          [.push 5 (by decide : (5 : Nat) ≠ 0), .pop] ≠
        answers stackCall (BoundedStack.empty : BoundedStack Nat 2)
          [.push 5 (by decide : (5 : Nat) ≠ 0), .pop] ∧
      answers ringCall (SafeRingBuffer.ofSize (fun _ => 0) 2)
          [.push 5 (by decide : (5 : Nat) ≠ 0)] ≠
        answers stackCall (BoundedStack.empty : BoundedStack Nat 2)
          [.push 5 (by decide : (5 : Nat) ≠ 0)] := by
  decide

end VChat.RingStack
