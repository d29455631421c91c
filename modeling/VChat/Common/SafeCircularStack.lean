import VChat.Common.CircularStack
import VChat.Transition.Locked

/-! The circular stack behind a mutex, with every read and write of its cells and its index a step
of its own. -/

namespace VChat
open Transition

namespace VSafeCircularStack
open VCircularStack
variable {T : Type} {w : Nat} {N : BitVec w}

inductive Part where
  | top
  | bottom
  | low

inductive Pc (T : Type) (w : Nat) where
  | pushBack (t : T)
  | store (t : T) (index : BitVec w)
  | clear
  | get (data_ : Nat → T) (bReset : Bool)
  | wrap (data_ : Nat → T) (bReset : Bool)
  | wrapped (data_ : Nat → T) (bReset : Bool)
  | small (data_ : Nat → T) (bReset : Bool)
  | copying (part : Part) (first last offset : Nat) (data_ : Nat → T) (bReset : Bool)
  | counted (n : BitVec w) (data_ : Nat → T) (bReset : Bool)

def enter : Call T → Pc T w
  | .pushBack t => .pushBack t
  | .clear => .clear
  | .get data_ bReset => .get data_ bReset

abbrev Result (T : Type) (w : Nat) := Option (BitVec w × (Nat → T))

def work (s : VCircularStack T N) : Pc T w → VCircularStack T N × (Pc T w ⊕ Result T w)
  | .pushBack t => (⟨s.datas, s.index + 1⟩, .inl (.store t s.index))
  | .store t index => (⟨Function.update s.datas (index % N).toNat t, s.index⟩, .inr none)
  | .clear => (⟨s.datas, 0⟩, .inr none)
  | .get data_ bReset =>
    (s, .inl (if N ≤ s.index then .wrap data_ bReset else .small data_ bReset))
  | .wrap data_ bReset => (⟨s.datas, s.index % N⟩, .inl (.wrapped data_ bReset))
  | .wrapped data_ bReset => (s, .inl (.copying .top s.index.toNat N.toNat 0 data_ bReset))
  | .small data_ bReset =>
    (s, .inl (if 0 < s.index then .copying .low 0 s.index.toNat 0 data_ bReset
      else .counted 0 data_ bReset))
  | .copying part first last offset data_ bReset =>
    if first < last then
      (s, .inl (.copying part (first + 1) last (offset + 1)
        (Function.update data_ offset (s.datas first)) bReset))
    else
      match part with
      | .top =>
        (s, .inl (if 0 < s.index then
            .copying .bottom 0 s.index.toNat (N - s.index).toNat data_ bReset
          else .counted N data_ bReset))
      | .bottom => (s, .inl (.counted N data_ bReset))
      | .low => (s, .inl (.counted s.index data_ bReset))
  | .counted n data_ bReset => (⟨s.datas, if bReset then 0 else s.index⟩, .inr (some (n, data_)))

def guarded (T : Type) {w : Nat} (N : BitVec w) :
    Guarded (VCircularStack T N) (Call T) (Pc T w) (Result T w) := ⟨enter, work⟩

def call (s : VCircularStack T N) : Call T → Result T w × VCircularStack T N
  | .pushBack t => (none, s.pushBack t)
  | .clear => (none, s.clear)
  | .get data_ bReset => (some (s.get data_ bReset).1, (s.get data_ bReset).2)

variable {s : VCircularStack T N} {part : Part} {first last offset : Nat} {data_ : Nat → T}
  {bReset : Bool} {x : Result T w × VCircularStack T N}

theorem copy_cons (datas : Nat → T) (h : first < last) :
    copy datas (first + 1) last (Function.update data_ offset (datas first)) (offset + 1) =
      copy datas first last data_ offset := by
  funext i
  simp only [copy]
  rcases Nat.lt_trichotomy i offset with hi | rfl | hi
  · rw [if_neg (by omega), if_neg (by omega), Function.update_of_ne (Nat.ne_of_lt hi)]
  · rw [if_neg (by omega), if_pos (by omega), Function.update_self, Nat.sub_self, Nat.add_zero]
  · have hnext : first + 1 + (i - (offset + 1)) = first + (i - offset) := by omega
    have hcell : offset + 1 ≤ i ∧ i < offset + 1 + (last - (first + 1)) ↔
        offset ≤ i ∧ i < offset + (last - first) := by omega
    simp only [hcell, hnext, Function.update_of_ne (Nat.ne_of_gt hi)]

theorem copy_of_le (datas : Nat → T) (h : last ≤ first) :
    copy datas first last data_ offset = data_ := by
  funext i
  rw [copy, if_neg (by omega)]

theorem ends_copying
    (h : ∀ first' offset', ¬ first' < last → (guarded T N).Ends s (.copying part first' last offset'
      (copy s.datas first last data_ offset) bReset) x) :
    (guarded T N).Ends s (.copying part first last offset data_ bReset) x := by
  induction hn : last - first generalizing first offset data_ with
  | zero =>
    have hle : last ≤ first := Nat.sub_eq_zero_iff_le.mp hn
    have hdone := h first offset (Nat.not_lt.mpr hle)
    rwa [copy_of_le s.datas hle] at hdone
  | succ n ih =>
    have hlt : first < last := by omega
    have hstep : work s (.copying part first last offset data_ bReset) =
        (s, .inl (.copying part (first + 1) last (offset + 1)
          (Function.update data_ offset (s.datas first)) bReset)) := if_pos hlt
    refine .next hstep (ih (fun first' offset' hdone => ?_) (by omega))
    rw [copy_cons s.datas hlt]
    exact h first' offset' hdone

theorem ends_counted (s : VCircularStack T N) (n : BitVec w) (data_ : Nat → T) (bReset : Bool) :
    (guarded T N).Ends s (.counted n data_ bReset)
      (some (n, data_), ⟨s.datas, if bReset then 0 else s.index⟩) := .last rfl

/-- From the division on: a full round, which begins with the oldest value. -/
theorem ends_wrapped (s : VCircularStack T N) (data_ : Nat → T) (bReset : Bool) :
    (guarded T N).Ends s (.wrapped data_ bReset)
      (some (N, if 0 < s.index then
          copy s.datas 0 s.index.toNat (copy s.datas s.index.toNat N.toNat data_ 0)
            (N - s.index).toNat
        else copy s.datas s.index.toNat N.toNat data_ 0),
        ⟨s.datas, if bReset then 0 else s.index⟩) := by
  apply Guarded.Ends.next rfl
  apply ends_copying
  intro first offset hdone
  apply Guarded.Ends.next (if_neg hdone)
  by_cases hpos : 0 < s.index
  · rw [if_pos hpos, if_pos hpos]
    apply ends_copying
    intro first' offset' hdone'
    exact .next (if_neg hdone') (ends_counted s N _ bReset)
  · rw [if_neg hpos, if_neg hpos]
    exact ends_counted s N _ bReset

theorem ends_small (s : VCircularStack T N) (data_ : Nat → T) (bReset : Bool) :
    (guarded T N).Ends s (.small data_ bReset)
      (some (if 0 < s.index then (s.index, copy s.datas 0 s.index.toNat data_ 0) else (0, data_)),
        ⟨s.datas, if bReset then 0 else s.index⟩) := by
  apply Guarded.Ends.next rfl
  by_cases hpos : 0 < s.index
  · rw [if_pos hpos, if_pos hpos]
    apply ends_copying
    intro first offset hdone
    exact .next (if_neg hdone) (ends_counted s s.index _ bReset)
  · rw [if_neg hpos, if_neg hpos]
    exact ends_counted s 0 data_ bReset

theorem ends_get (s : VCircularStack T N) (data_ : Nat → T) (bReset : Bool) :
    (guarded T N).Ends s (.get data_ bReset) (call s (.get data_ bReset)) := by
  apply Guarded.Ends.next rfl
  simp only [call, VCircularStack.get]
  by_cases hfull : N ≤ s.index
  · simp only [if_pos hfull]
    apply Guarded.Ends.next rfl
    exact ends_wrapped ⟨s.datas, s.index % N⟩ data_ bReset
  · simp only [if_neg hfull]
    have hsmall := ends_small s data_ bReset
    by_cases hpos : 0 < s.index
    · simpa only [if_pos hpos] using hsmall
    · simpa only [if_neg hpos] using hsmall

theorem ends_call (s : VCircularStack T N) (c : Call T) :
    (guarded T N).Ends s ((guarded T N).enter c) (call s c) := by
  cases c with
  | pushBack t => exact .next rfl (.last rfl)
  | clear => exact .last rfl
  | get data_ bReset => exact ends_get s data_ bReset

/-- However the steps of the threads interleave, the calls return what they return one after the
other, in the order in which they get the mutex. `done` are those that have returned. -/
theorem safe_run (s₀ : VCircularStack T N) {es : List (Guarded.Event (Call T))}
    {s : Guarded.State (VCircularStack T N) (Call T) (Pc T w) (Result T w)}
    {log : List (Guarded.Output (Call T) (Result T w))}
    (h : exec (traced (guarded T N).step) (Guarded.opened s₀, []) es = some (s, log)) :
    ∃ done, Guarded.results log = Guarded.inTurn call s₀ done ∧
      (s.owner = none → Guarded.entered log = done ∧ s.object = Guarded.after call s₀ done) ∧
      (∀ i, s.owner = some i → (∃ c, Guarded.entered log = done ++ [(i, c)]) ∧
        ∃ es t log', (∀ e ∈ es, e.thread = i) ∧
          exec (traced (guarded T N).step) (s, log) es = some (t, log') ∧ t.owner = none) ∧
      ∀ i, exec Guarded.Stage.next .out (log.filter fun o => o.thread = i) =
        some (s.phase i).stage := by
  obtain ⟨done, hserial⟩ := Guarded.serial_run ends_call h
  refine ⟨done, hserial.results, hserial.free, fun i hi => ⟨?_, hserial.frees hi⟩, hserial.stage⟩
  obtain ⟨c, hentered, -⟩ := hserial.held i hi
  exact ⟨c, hentered⟩

/-- One thread pushes while another waits to get. -/
theorem safe_run_two :
    let s₀ : VCircularStack Nat 2#64 := new fun _ => 9
    ∃ s log, exec (traced (guarded Nat 2#64).step) (Guarded.opened s₀, [])
        ([.call 1 (.get (fun _ => 0) true), .call 0 (.pushBack 7), .lock 0, .work 0, .work 0,
          .unlock 0, .lock 1] ++ List.replicate 5 (.work 1) ++ [.unlock 1]) = some (s, log) ∧
      s.owner = none ∧ (Guarded.results log).map Prod.fst = [0, 1] ∧
      Guarded.results log = Guarded.inTurn call s₀ (Guarded.entered log) := by
  intro s₀
  obtain ⟨s, log, hrun, howner, hthreads⟩ : ∃ s log,
      exec (traced (guarded Nat 2#64).step) (Guarded.opened s₀, [])
        ([.call 1 (.get (fun _ => 0) true), .call 0 (.pushBack 7), .lock 0, .work 0, .work 0,
          .unlock 0, .lock 1] ++ List.replicate 5 (.work 1) ++ [.unlock 1]) = some (s, log) ∧
      s.owner = none ∧ (Guarded.results log).map Prod.fst = [0, 1] := ⟨_, _, rfl, rfl, rfl⟩
  obtain ⟨done, hresults, hfree, -⟩ := safe_run s₀ hrun
  rw [← (hfree howner).1] at hresults
  exact ⟨s, log, hrun, howner, hthreads, hresults⟩

end VSafeCircularStack
end VChat
