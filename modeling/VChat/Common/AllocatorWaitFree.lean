import VChat.Common.AllocatorRace

/-! How long a call of `Allocate` or `DeAllocate` takes, while other threads are in calls too. -/

namespace VChat.AllocatorRace
open Transition
open RingRace (Pc)

variable {pl : Platform} {s t : State} {k a i : Nat} {r : RingRace.State VPointer} {c : Call}


/-- How many more steps the call takes at most. -/
def rank (pl : Platform) : Call → (Nat → Nat → Pc VPointer) → Nat
  | .popping _ nSlot i, pcs | .pushing _ nSlot i, pcs =>
    (pl.maxThread - (i + 1)) * 7 + RingRace.left (pcs nSlot i) + 1
  | .mallocing _ _, _ | .freeing _, _ => 1
  | .idle, _ => 0

def Event.isAct (k : Nat) : Event → Bool
  | .act j _ _ => j == k
  | _ => false

def Event.isCall (k : Nat) : Event → Bool
  | .allocate j _ | .deAllocate j _ _ => j == k
  | .act _ _ _ => false

theorem rank_popNext {nSize : VUInt32} (h : popNext pl s k nSize a i = some t) :
    rank pl (t.call k) (pcs t k) ≤ (pl.maxThread - i) * 7 + 1 := by
  unfold popNext at h
  split_ifs at h with hi
  · obtain ⟨r, hr, rfl⟩ := Option.map_eq_some_iff.mp h
    simp only [RingRace.step] at hr
    split_ifs at hr
    obtain rfl := Option.some.inj hr
    have hpc : pcs ((s.setPool a i ((s.pool a i).goto k .pop)).goto k (.popping nSize a i)) k a i =
        .pop := by
      refine (pcs_setPool s k a i).trans ?_
      rw [if_pos rfl]
      simp [RingRace.State.goto]
    simp only [State.goto, Function.update_self] at hpc ⊢
    rw [rank, hpc, RingRace.left]
    omega
  · obtain rfl := Option.some.inj h
    simp [State.goto, rank]

theorem rank_pushNext {p : VPointer} (h : pushNext pl s k p a i = some t) :
    rank pl (t.call k) (pcs t k) ≤ (pl.maxThread - i) * 7 + 1 := by
  unfold pushNext at h
  split_ifs at h with hi
  · obtain ⟨r, hr, rfl⟩ := Option.map_eq_some_iff.mp h
    simp only [RingRace.step] at hr
    split_ifs at hr
    obtain rfl := Option.some.inj hr
    have hpc : pcs ((s.setPool a i ((s.pool a i).goto k (.push p))).goto k (.pushing p a i)) k a i =
        .push p := by
      refine (pcs_setPool s k a i).trans ?_
      rw [if_pos rfl]
      simp [RingRace.State.goto]
    simp only [State.goto, Function.update_self] at hpc ⊢
    rw [rank, hpc, RingRace.left]
    omega
  · obtain rfl := Option.some.inj h
    simp [State.goto, rank]

theorem call_give (s : State) (k : Nat) (p : VPointer) (nSize : VUInt32) :
    (s.give k p nSize).1.call = Function.update s.call k .idle := by
  unfold State.give
  split_ifs <;> rfl

theorem call_malloc (s : State) (k : Nat) (nSize : VUInt32) (bytes : Nat) (fails : Bool) :
    (s.malloc k nSize bytes fails).1.call = Function.update s.call k .idle := by
  unfold State.malloc
  split_ifs <;> exact call_give ..

theorem rank_setPool (hcall : s.call k = c) {dataFirst : Bool}
    (hc : (∃ nSize, c = .popping nSize a i) ∨ ∃ p, c = .pushing p a i)
    (hr : RingRace.act (s.pool a i) k dataFirst = some r) :
    rank pl ((s.setPool a i r).call k) (pcs (s.setPool a i r) k) < rank pl c (pcs s k) := by
  have hleft : RingRace.left (r.thread k).pc < RingRace.left (pcs s k a i) := RingRace.left_act hr
  change rank pl (s.call k) _ < _
  rw [hcall]
  rcases hc with ⟨nSize, rfl⟩ | ⟨p, rfl⟩ <;> rw [rank, rank, pcs_setPool, if_pos rfl] <;> omega

/-- A step of the thread brings it nearer to the end of its call. -/
theorem rank_act {dataFirst fails : Bool} {out : List VPointer}
    (h : act pl s k dataFirst fails = some (t, out)) :
    rank pl (t.call k) (pcs t k) < rank pl (s.call k) (pcs s k) := by
  have hidle : ∀ u : State, u.call k = .idle → rank pl (u.call k) (pcs u k) = 0 := by
    intro u hu
    rw [hu, rank]
  unfold act at h
  cases hcall : s.call k with
  | idle => simp [hcall] at h
  | popping nSize a i =>
    simp only [hcall] at h
    obtain ⟨r, hr, h⟩ := Option.bind_eq_some_iff.mp h
    have hpos : (pl.maxThread - (i + 1)) * 7 + 1 < rank pl (.popping nSize a i) (pcs s k) := by
      have hleft : 0 < RingRace.left (pcs s k a i) := Nat.zero_lt_of_lt (RingRace.left_act hr)
      rw [rank]
      omega
    split at h
    · split_ifs at h
      · obtain rfl : _ = t := congrArg Prod.fst (Option.some.inj h)
        rw [hidle]
        · exact Nat.zero_lt_of_lt hpos
        · rw [call_give, Function.update_self]
      · obtain ⟨u, hu, h⟩ := Option.map_eq_some_iff.mp h
        obtain ⟨rfl, -⟩ := Prod.mk.inj h
        exact Nat.lt_of_le_of_lt (rank_popNext hu) hpos
    · obtain rfl : _ = t := congrArg Prod.fst (Option.some.inj h)
      exact rank_setPool hcall (.inl ⟨_, rfl⟩) hr
  | mallocing nSize bytes =>
    simp only [hcall] at h
    obtain rfl : _ = t := congrArg Prod.fst (Option.some.inj h)
    rw [hidle]
    · exact Nat.one_pos
    · rw [call_malloc, Function.update_self]
  | pushing p a i =>
    simp only [hcall] at h
    obtain ⟨r, hr, h⟩ := Option.bind_eq_some_iff.mp h
    have hpos : (pl.maxThread - (i + 1)) * 7 + 1 < rank pl (.pushing p a i) (pcs s k) := by
      have hleft : 0 < RingRace.left (pcs s k a i) := Nat.zero_lt_of_lt (RingRace.left_act hr)
      rw [rank]
      omega
    split at h
    · obtain rfl : _ = t := congrArg Prod.fst (Option.some.inj h)
      rw [hidle]
      · exact Nat.zero_lt_of_lt hpos
      · simp [State.goto]
    · obtain ⟨u, hu, h⟩ := Option.map_eq_some_iff.mp h
      obtain ⟨rfl, -⟩ := Prod.mk.inj h
      exact Nat.lt_of_le_of_lt (rank_pushNext hu) hpos
    · obtain rfl : _ = t := congrArg Prod.fst (Option.some.inj h)
      exact rank_setPool hcall (.inr ⟨_, rfl⟩) hr
  | freeing p =>
    simp only [hcall] at h
    obtain rfl : _ = t := congrArg Prod.fst (Option.some.inj h)
    rw [hidle]
    · exact Nat.one_pos
    · simp [State.goto]

def Kept (k : Nat) (s t : State) : Prop := t.call k = s.call k ∧ pcs t k = pcs s k

theorem kept_goto (s : State) {j : Nat} (hj : k ≠ j) (c : Call) : Kept k s (s.goto j c) :=
  ⟨Function.update_of_ne hj .., rfl⟩

theorem kept_setPool {j : Nat} (hj : k ≠ j) (c : Call)
    (hother : r.thread k = (s.pool a i).thread k) : Kept k s ((s.setPool a i r).goto j c) :=
  ⟨Function.update_of_ne hj .., pcs_setPool_of_ne hother⟩

theorem kept_give (s : State) {j : Nat} (hj : k ≠ j) (p : VPointer) (nSize : VUInt32) :
    Kept k s (s.give j p nSize).1 := by
  refine ⟨?_, ?_⟩
  · rw [call_give, Function.update_of_ne hj]
  · unfold State.give
    split_ifs <;> rfl

theorem kept_popNext {j : Nat} (hj : k ≠ j) {nSize : VUInt32}
    (h : popNext pl s j nSize a i = some t) : Kept k s t := by
  unfold popNext at h
  split_ifs at h
  · obtain ⟨r, hr, rfl⟩ := Option.map_eq_some_iff.mp h
    simp only [RingRace.step] at hr
    split_ifs at hr
    obtain rfl := Option.some.inj hr
    exact kept_setPool hj _ (thread_goto_of_ne hj _)
  · obtain rfl := Option.some.inj h
    exact kept_goto s hj _

theorem kept_pushNext {j : Nat} (hj : k ≠ j) {p : VPointer}
    (h : pushNext pl s j p a i = some t) : Kept k s t := by
  unfold pushNext at h
  split_ifs at h
  · obtain ⟨r, hr, rfl⟩ := Option.map_eq_some_iff.mp h
    simp only [RingRace.step] at hr
    split_ifs at hr
    obtain rfl := Option.some.inj hr
    exact kept_setPool hj _ (thread_goto_of_ne hj _)
  · obtain rfl := Option.some.inj h
    exact kept_goto s hj _

theorem kept_act {j : Nat} (hj : k ≠ j) {dataFirst fails : Bool} {out : List VPointer}
    (h : act pl s j dataFirst fails = some (t, out)) : Kept k s t := by
  unfold act at h
  cases hcall : s.call j with
  | idle => simp [hcall] at h
  | popping nSize a i =>
    simp only [hcall] at h
    obtain ⟨r, hr, h⟩ := Option.bind_eq_some_iff.mp h
    have hother : pcs (s.setPool a i r) k = pcs s k :=
      pcs_setPool_of_ne (RingRace.thread_act_of_ne hr hj)
    split at h
    · split_ifs at h
      · obtain rfl : _ = t := congrArg Prod.fst (Option.some.inj h)
        obtain ⟨hcall', hpcs⟩ := kept_give (s.setPool a i r) hj _ nSize
        exact ⟨hcall', hpcs.trans hother⟩
      · obtain ⟨u, hu, h⟩ := Option.map_eq_some_iff.mp h
        obtain rfl : u = t := congrArg Prod.fst h
        obtain ⟨hcall', hpcs⟩ := kept_popNext hj hu
        exact ⟨hcall', hpcs.trans hother⟩
    · obtain rfl : _ = t := congrArg Prod.fst (Option.some.inj h)
      exact ⟨rfl, hother⟩
  | mallocing nSize bytes =>
    simp only [hcall] at h
    obtain rfl : _ = t := congrArg Prod.fst (Option.some.inj h)
    unfold State.malloc
    split_ifs
    · exact kept_give s hj 0 nSize
    · exact kept_give _ hj _ nSize
  | pushing p a i =>
    simp only [hcall] at h
    obtain ⟨r, hr, h⟩ := Option.bind_eq_some_iff.mp h
    have hthread := RingRace.thread_act_of_ne hr hj
    split at h
    · obtain rfl : _ = t := congrArg Prod.fst (Option.some.inj h)
      exact kept_setPool hj .idle hthread
    · obtain ⟨u, hu, h⟩ := Option.map_eq_some_iff.mp h
      obtain rfl : u = t := congrArg Prod.fst h
      obtain ⟨hcall', hpcs⟩ := kept_pushNext hj hu
      exact ⟨hcall', hpcs.trans (pcs_setPool_of_ne hthread)⟩
    · obtain rfl : _ = t := congrArg Prod.fst (Option.some.inj h)
      exact ⟨rfl, pcs_setPool_of_ne hthread⟩
  | freeing p =>
    simp only [hcall] at h
    obtain rfl : _ = t := congrArg Prod.fst (Option.some.inj h)
    exact kept_goto s hj .idle

theorem rank_call {e : Event} (he : e.isCall k = true) {out : List VPointer}
    (h : step pl s e = some (t, out)) :
    rank pl (t.call k) (pcs t k) ≤ pl.maxThread * 7 + 1 := by
  cases e with
  | act j dataFirst fails => cases he
  | allocate j nSize =>
    obtain rfl : j = k := by simpa [Event.isCall] using he
    simp only [step] at h
    split_ifs at h
    obtain ⟨nSlot, -, h⟩ := Option.bind_eq_some_iff.mp h
    split_ifs at h
    · obtain ⟨u, hu, h⟩ := Option.map_eq_some_iff.mp h
      obtain rfl : u = t := congrArg Prod.fst h
      exact rank_popNext hu
    · obtain rfl : _ = t := congrArg Prod.fst (Option.some.inj h)
      simp [State.goto, rank]
  | deAllocate j p nSize =>
    obtain rfl : j = k := by simpa [Event.isCall] using he
    simp only [step] at h
    split_ifs at h
    obtain ⟨nSlot, -, h⟩ := Option.bind_eq_some_iff.mp h
    split_ifs at h
    · obtain ⟨u, hu, h⟩ := Option.map_eq_some_iff.mp h
      obtain rfl : u = t := congrArg Prod.fst h
      exact rank_pushNext hu
    · obtain rfl : _ = t := congrArg Prod.fst (Option.some.inj h)
      simp [State.goto, rank]

theorem kept_step {e : Event} (hact : e.isAct k = false) (hcall : e.isCall k = false)
    {out : List VPointer} (h : step pl s e = some (t, out)) : Kept k s t := by
  cases e with
  | act j dataFirst fails =>
    have hj : k ≠ j := by
      rintro rfl
      simp [Event.isAct] at hact
    exact kept_act hj h
  | allocate j nSize =>
    have hj : k ≠ j := by
      rintro rfl
      simp [Event.isCall] at hcall
    simp only [step] at h
    split_ifs at h
    obtain ⟨nSlot, -, h⟩ := Option.bind_eq_some_iff.mp h
    split_ifs at h
    · obtain ⟨u, hu, h⟩ := Option.map_eq_some_iff.mp h
      obtain rfl : u = t := congrArg Prod.fst h
      exact kept_popNext hj hu
    · obtain rfl : _ = t := congrArg Prod.fst (Option.some.inj h)
      exact kept_goto s hj _
  | deAllocate j p nSize =>
    have hj : k ≠ j := by
      rintro rfl
      simp [Event.isCall] at hcall
    simp only [step] at h
    split_ifs at h
    obtain ⟨nSlot, -, h⟩ := Option.bind_eq_some_iff.mp h
    split_ifs at h
    · obtain ⟨u, hu, h⟩ := Option.map_eq_some_iff.mp h
      obtain rfl : u = t := congrArg Prod.fst h
      exact kept_pushNext (s := { s with live := s.live.erase (p, nSize) }) hj hu
    · obtain rfl : _ = t := congrArg Prod.fst (Option.some.inj h)
      exact kept_goto { s with live := s.live.erase (p, nSize) } hj _

theorem rank_pos (pl : Platform) (h : isIdle s k = false) : 0 < rank pl (s.call k) (pcs s k) := by
  cases hcall : s.call k with
  | idle => simp [isIdle, hcall] at h
  | mallocing nSize bytes | freeing p => exact Nat.one_pos
  | popping nSize a i | pushing p a i => exact Nat.succ_pos _

/-- Whatever the other threads do, a call has returned after seven steps of its own for each pool
and one more. -/
theorem calls_return {uninit : Nat → VPointer} {es fs : List Event} {e : Event}
    {log : List VPointer} (he : e.isCall k = true) (hfs : ∀ f ∈ fs, f.isCall k = false)
    (h : exec (traced (step pl)) (start pl uninit, []) (es ++ e :: fs) = some (s, log)) :
    fs.countP (Event.isAct k) ≤ pl.maxThread * 7 + 1 ∧
      (pl.maxThread * 7 + 1 ≤ fs.countP (Event.isAct k) → isIdle s k = true) := by
  obtain ⟨u, -, h⟩ := (exec_append_eq_some es (e :: fs)).mp h
  obtain ⟨v, hv, h⟩ := exec_cons_eq_some.mp h
  obtain ⟨out, hv, -⟩ := traced_eq_some.mp hv
  have hstart := rank_call he hv
  have hrun : fs.countP (Event.isAct k) + rank pl (s.call k) (pcs s k) ≤
      rank pl (v.1.call k) (pcs v.1 k) := by
    refine countP_add_rank_le (fun x : State × List VPointer => rank pl (x.1.call k) (pcs x.1 k))
      ?_ ?_ hfs h
    · intro x f y hown hstep
      obtain ⟨out, hstep, -⟩ := traced_eq_some.mp hstep
      cases f with
      | act j dataFirst fails =>
        obtain rfl : j = k := by simpa [Event.isAct] using hown
        exact rank_act hstep
      | allocate j nSize | deAllocate j p nSize => cases hown
    · intro x f y hown hcall hstep
      obtain ⟨out, hstep, -⟩ := traced_eq_some.mp hstep
      obtain ⟨hcall, hpcs⟩ := kept_step hown hcall hstep
      rw [hcall, hpcs]
  refine ⟨by omega, fun hlong => ?_⟩
  by_contra hidle
  have hpos := rank_pos pl (Bool.eq_false_of_not_eq_true hidle)
  omega

theorem calls_return_refused :
    let es : List Event := .allocate 0 8 :: List.replicate 13 (.act 0 false false) ++
      [.deAllocate 0 1 8, .act 0 false false]
    let fs : List Event := .act 1 false false :: List.replicate 5 (.act 0 true false) ++
      List.replicate 11 (.act 1 false false)
    (∃ s log, exec (traced (step .win32)) (start .win32 fun _ => 0, [])
      (es ++ .allocate 1 8 :: fs) = some (s, log)) ∧ fs.countP (Event.isAct 1) ≤ 29 := by
  intro es fs
  obtain ⟨s, log, h⟩ : ∃ s log, exec (traced (step .win32)) (start .win32 fun _ => 0, [])
      (es ++ .allocate 1 8 :: fs) = some (s, log) := ⟨_, _, rfl⟩
  exact ⟨⟨s, log, h⟩, (calls_return (k := 1) rfl (by decide) h).1⟩

end VChat.AllocatorRace
