import VChat.Common.AllocatorSound
import VChat.Common.RingCalls
import VChat.Transition.Placement

/-! Any number of threads in `Allocate` and `DeAllocate`. A call goes from pool to pool, and its
steps in a pool are those of `push` and `pop`, one at a time. -/

namespace VChat.AllocatorRace
open Transition AllocateManager
open RingRace (Pc)

inductive Call where
  | idle
  | popping (nSize : VUInt32) (nSlot i : Nat)
  | mallocing (nSize : VUInt32) (bytes : Nat)
  | pushing (pointer : VPointer) (nSlot i : Nat)
  | freeing (pointer : VPointer)

structure State where
  pool : Nat → Nat → RingRace.State VPointer
  call : Nat → Call
  blocks : Nat
  capacity : VPointer → Nat
  frees : List VPointer
  live : List (VPointer × VUInt32)

inductive Event where
  | allocate (k : Nat) (nSize : VUInt32)
  | deAllocate (k : Nat) (pointer : VPointer) (nSize : VUInt32)
  | act (k : Nat) (dataFirst fails : Bool)

namespace State

def setPool (s : State) (nSlot i : Nat) (r : RingRace.State VPointer) : State :=
  { s with pool := Function.update s.pool nSlot (Function.update (s.pool nSlot) i r) }

def goto (s : State) (k : Nat) (c : Call) : State :=
  { s with call := Function.update s.call k c }

def give (s : State) (k : Nat) (pointer : VPointer) (nSize : VUInt32) : State × List VPointer :=
  if pointer = 0 then (s.goto k .idle, [])
  else ({ s.goto k .idle with live := s.live ++ [(pointer, nSize)] }, [pointer])

def malloc (s : State) (k : Nat) (nSize : VUInt32) (bytes : Nat) (fails : Bool) :
    State × List VPointer :=
  if fails then s.give k 0 nSize
  else
    let pointer := s.blocks + 1
    State.give { s with
      blocks := pointer
      capacity := Function.update s.capacity pointer bytes } k pointer nSize

end State

variable (pl : Platform)

def popNext (s : State) (k : Nat) (nSize : VUInt32) (nSlot i : Nat) : Option State :=
  if i < pl.maxThread then
    (RingRace.step (s.pool nSlot i) (.pop k)).map fun r =>
      (s.setPool nSlot i r).goto k (.popping nSize nSlot i)
  else some (s.goto k (.mallocing nSize (2 ^ nSlot)))

def pushNext (s : State) (k : Nat) (pointer : VPointer) (nSlot i : Nat) : Option State :=
  if i < pl.maxThread then
    (RingRace.step (s.pool nSlot i) (.push k pointer)).map fun r =>
      (s.setPool nSlot i r).goto k (.pushing pointer nSlot i)
  else some (s.goto k (.freeing pointer))

def act (s : State) (k : Nat) (dataFirst fails : Bool) : Option (State × List VPointer) :=
  match s.call k with
  | .idle => none
  | .popping nSize nSlot i =>
    (RingRace.act (s.pool nSlot i) k dataFirst).bind fun r =>
      match ((s.pool nSlot i).thread k).pc with
      | .popDone t =>
        if t ≠ 0 then some ((s.setPool nSlot i r).give k t nSize)
        else (popNext pl (s.setPool nSlot i r) k nSize nSlot (i + 1)).map fun s => (s, [])
      | _ => some (s.setPool nSlot i r, [])
  | .mallocing nSize bytes => some (s.malloc k nSize bytes fails)
  | .pushing pointer nSlot i =>
    (RingRace.act (s.pool nSlot i) k dataFirst).bind fun r =>
      match ((s.pool nSlot i).thread k).pc with
      | .pushDone _ => some ((s.setPool nSlot i r).goto k .idle, [])
      | .pushFail =>
        (pushNext pl (s.setPool nSlot i r) k pointer nSlot (i + 1)).map fun s => (s, [])
      | _ => some (s.setPool nSlot i r, [])
  | .freeing pointer =>
    some ({ s.goto k .idle with frees := s.frees ++ [pointer] }, [])

def isIdle (s : State) (k : Nat) : Bool :=
  match s.call k with
  | .idle => true
  | _ => false

def step (s : State) : Event → Option (State × List VPointer)
  | .allocate k nSize =>
    if isIdle s k then
      (findSlot nSize).bind fun nSlot =>
        if nSlot < maxSlot then (popNext pl s k nSize nSlot 0).map fun s => (s, [])
        else some (s.goto k (.mallocing nSize nSize.toNat), [])
    else none
  | .deAllocate k pointer nSize =>
    if isIdle s k ∧ (s.live.contains (pointer, nSize)) then
      let s := { s with live := s.live.erase (pointer, nSize) }
      (findSlot nSize).bind fun nSlot =>
        if nSlot < maxSlot then (pushNext pl s k pointer nSlot 0).map fun s => (s, [])
        else some (s.goto k (.freeing pointer), [])
    else none
  | .act k dataFirst fails => act pl s k dataFirst fails

def start (uninit : Nat → VPointer) : State where
  pool := fun _ _ => RingRace.start uninit (pl.defaultSizePool / pl.maxThread)
  call := fun _ => .idle
  blocks := 0
  capacity := fun _ => 0
  frees := []
  live := []

inductive Place where
  | live
  | giving (k : Nat)
  | pooled (nSlot i : Nat)
  | freed
deriving DecidableEq

def pcs (s : State) (k : Nat) (nSlot i : Nat) : Pc VPointer := ((s.pool nSlot i).thread k).pc

def stay : Call → (Nat → Nat → Pc VPointer) → List VPointer
  | .pushing pointer nSlot i, pcs =>
    match pcs nSlot i with
    | .pushDone _ => []
    | _ => [pointer]
  | .freeing pointer, _ => [pointer]
  | _, _ => []

def members (s : State) : Place → List VPointer
  | .live => s.live.map Prod.fst
  | .giving k => stay (s.call k) (pcs s k)
  | .pooled nSlot i => (s.pool nSlot i).stored
  | .freed => s.frees

def Agree : Call → (Nat → Nat → Pc VPointer) → Prop
  | .popping _ nSlot i, pcs =>
    RingRace.Pops (pcs nSlot i) ∧ ∀ a j, (a, j) ≠ (nSlot, i) → pcs a j = .idle
  | .pushing pointer nSlot i, pcs =>
    RingRace.Pushes pointer (pcs nSlot i) ∧ ∀ a j, (a, j) ≠ (nSlot, i) → pcs a j = .idle
  | _, pcs => ∀ a j, pcs a j = .idle

def Sized : Call → Prop
  | .popping nSize nSlot _ => nSize.toNat ≤ 2 ^ nSlot
  | .mallocing nSize bytes => nSize.toNat ≤ bytes
  | _ => True

def Placed (s : State) : Prop :=
  ∃ place : VPointer → Option Place, Agrees (members s) place ∧
    ∀ p : Nat, (place p).isSome ↔ 0 < p ∧ p ≤ s.blocks

structure Inv (s : State) : Prop where
  sound : ∀ a i, RingRace.Sound (s.pool a i)
  nulls : ∀ a i, RingRace.Nulls (s.pool a i)
  agree : ∀ k, Agree (s.call k) (pcs s k)
  sized : ∀ k, Sized (s.call k)
  fits : ∀ p nSize, (p, nSize) ∈ s.live → nSize.toNat ≤ s.capacity p
  placed : Placed s

variable {pl : Platform} {s t : State} {k a i : Nat} {r : RingRace.State VPointer} {c : Call}

theorem pool_setPool (s : State) (a i : Nat) (r : RingRace.State VPointer) (b j : Nat) :
    (s.setPool a i r).pool b j = if (b, j) = (a, i) then r else s.pool b j := by
  simp only [State.setPool, Prod.mk.injEq]
  by_cases hb : b = a
  · subst hb
    rw [Function.update_self]
    by_cases hj : j = i
    · rw [hj, Function.update_self, if_pos ⟨rfl, rfl⟩]
    · rw [Function.update_of_ne hj, if_neg fun h => hj h.2]
  · rw [Function.update_of_ne hb, if_neg fun h => hb h.1]

theorem pcs_setPool (s : State) (k : Nat) (b j : Nat) :
    pcs (s.setPool a i r) k b j = if (b, j) = (a, i) then (r.thread k).pc else pcs s k b j := by
  rw [pcs, pool_setPool]
  split_ifs <;> rfl

theorem pcs_setPool_of_ne {j : Nat} (hother : r.thread j = (s.pool a i).thread j) :
    pcs (s.setPool a i r) j = pcs s j := by
  funext b l
  rw [pcs_setPool]
  split_ifs with h
  · obtain ⟨rfl, rfl⟩ := Prod.mk.inj h
    rw [hother]
    rfl
  · rfl

theorem Inv.setPool (h : Inv s) (hsound : RingRace.Sound r) (hnulls : RingRace.Nulls r)
    (hother : ∀ j, j ≠ k → r.thread j = (s.pool a i).thread j)
    (hagree : Agree c (pcs (s.setPool a i r) k)) (hsized : Sized c)
    (hplaced : Placed ((s.setPool a i r).goto k c)) : Inv ((s.setPool a i r).goto k c) where
  sound := by
    intro b j
    change RingRace.Sound ((s.setPool a i r).pool b j)
    rw [pool_setPool]
    split_ifs
    · exact hsound
    · exact h.sound b j
  nulls := by
    intro b j
    change RingRace.Nulls ((s.setPool a i r).pool b j)
    rw [pool_setPool]
    split_ifs
    · exact hnulls
    · exact h.nulls b j
  agree := by
    intro j
    change Agree (Function.update s.call k c j) (pcs (s.setPool a i r) j)
    by_cases hj : j = k
    · subst hj
      rwa [Function.update_self]
    · rw [Function.update_of_ne hj, pcs_setPool_of_ne (hother j hj)]
      exact h.agree j
  sized := by
    intro j
    change Sized (Function.update s.call k c j)
    by_cases hj : j = k
    · subst hj
      rwa [Function.update_self]
    · rw [Function.update_of_ne hj]
      exact h.sized j
  fits := h.fits
  placed := hplaced

theorem members_goto_self (s : State) (k : Nat) (c : Call) :
    members (s.goto k c) (.giving k) = stay c (pcs s k) := by
  simp only [members, State.goto, Function.update_self]
  rfl

theorem members_setPool (hother : ∀ j, j ≠ k → r.thread j = (s.pool a i).thread j) (q : Place) :
    members ((s.setPool a i r).goto k c) q =
      if q = .giving k then stay c (pcs (s.setPool a i r) k)
      else if q = .pooled a i then r.stored else members s q := by
  cases q with
  | live => rfl
  | freed => rfl
  | giving j =>
    by_cases hj : j = k
    · subst hj
      rw [if_pos rfl, members_goto_self]
    · have hne : Place.giving j ≠ .giving k := fun h => hj (Place.giving.inj h)
      rw [if_neg hne, if_neg nofun]
      simp only [members, State.goto, Function.update_of_ne hj]
      exact congrArg _ (pcs_setPool_of_ne (hother j hj))
  | pooled b j =>
    rw [if_neg nofun]
    change ((s.setPool a i r).pool b j).stored = _
    rw [pool_setPool]
    by_cases hj : (b, j) = (a, i)
    · obtain ⟨rfl, rfl⟩ := Prod.mk.inj hj
      rw [if_pos rfl, if_pos rfl]
    · rw [if_neg hj, if_neg fun h => hj (by rw [(Place.pooled.inj h).1, (Place.pooled.inj h).2])]
      rfl

theorem Inv.move (h : Inv s) (hsound : RingRace.Sound r) (hnulls : RingRace.Nulls r)
    (hother : ∀ j, j ≠ k → r.thread j = (s.pool a i).thread j)
    (hagree : Agree c (pcs (s.setPool a i r) k)) (hsized : Sized c)
    (hstored : r.stored = (s.pool a i).stored)
    (hstay : stay c (pcs (s.setPool a i r) k) = stay (s.call k) (pcs s k)) :
    Inv ((s.setPool a i r).goto k c) := by
  have hmembers : members ((s.setPool a i r).goto k c) = members s := by
    funext q
    rw [members_setPool hother]
    split_ifs with hq hq
    · rw [hq, hstay]
      rfl
    · rw [hq, hstored]
      rfl
    · rfl
  obtain ⟨place, hagrees, hsome⟩ := h.placed
  exact h.setPool hsound hnulls hother hagree hsized ⟨place, hmembers ▸ hagrees, hsome⟩

theorem Placed.move (h : Placed s) (q' : Place) {p : VPointer} {q : Place} (hp : p ∈ members s q)
    (hm : ∀ x, (members t x).Perm (if x = q then (members s x).erase p
      else if x = q' then p :: members s x else members s x)) (hne : q' ≠ q)
    (hblocks : t.blocks = s.blocks) : Placed t := by
  obtain ⟨place, hagrees, hsome⟩ := h
  refine ⟨_, hagrees.move hp hm hne, fun x => ?_⟩
  rw [hblocks, ← hsome x]
  split_ifs with hx
  · rw [hx, hagrees.mem_iff.mp hp]
    rfl
  · rfl

theorem Inv.store (h : Inv s) {p : VPointer} (hsound : RingRace.Sound r)
    (hnulls : RingRace.Nulls r) (hother : ∀ j, j ≠ k → r.thread j = (s.pool a i).thread j)
    (hagree : Agree c (pcs (s.setPool a i r) k)) (hsized : Sized c)
    (hstored : r.stored = (s.pool a i).stored ++ [p])
    (hbefore : stay (s.call k) (pcs s k) = [p])
    (hafter : stay c (pcs (s.setPool a i r) k) = []) : Inv ((s.setPool a i r).goto k c) := by
  have hp : p ∈ members s (.giving k) := by
    rw [members, hbefore]
    exact List.mem_singleton_self p
  refine h.setPool hsound hnulls hother hagree hsized (h.placed.move (.pooled a i) hp
    (fun q => ?_) nofun rfl)
  rw [members_setPool hother]
  split_ifs with hq hq
  · rw [hafter, hq, members, hbefore]
    simp
  · rw [hstored, hq]
    exact List.perm_append_singleton p _
  · exact .refl _

theorem Inv.goto (h : Inv s) (hagree : Agree c (pcs s k)) (hsized : Sized c)
    (hstay : stay c (pcs s k) = stay (s.call k) (pcs s k)) : Inv (s.goto k c) := by
  have hself : s.setPool 0 0 (s.pool 0 0) = s := by
    simp only [State.setPool, Function.update_eq_self]
  rw [← hself] at hagree hstay ⊢
  exact h.move (h.sound 0 0) (h.nulls 0 0) (fun _ _ => rfl) hagree hsized rfl
    (hstay.trans (by rw [hself]))

theorem goto_goto (s : State) (k : Nat) (c d : Call) : (s.goto k c).goto k d = s.goto k d := by
  simp only [State.goto, Function.update_idem]

theorem popNext_goto (s : State) (k : Nat) (c : Call) (nSize : VUInt32) (a i : Nat) :
    popNext pl (s.goto k c) k nSize a i = popNext pl s k nSize a i := by
  unfold popNext
  split_ifs
  · exact congrArg (Option.map · _) (funext fun r => goto_goto (s.setPool a i r) k c _)
  · rw [goto_goto]

theorem pushNext_goto (s : State) (k : Nat) (c : Call) (pointer : VPointer) (a i : Nat) :
    pushNext pl (s.goto k c) k pointer a i = pushNext pl s k pointer a i := by
  unfold pushNext
  split_ifs
  · exact congrArg (Option.map · _) (funext fun r => goto_goto (s.setPool a i r) k c _)
  · rw [goto_goto]

theorem pcs_enter (pc : Pc VPointer) (a i : Nat) (hidle : ∀ b j, pcs s k b j = .idle) :
    pcs (s.setPool a i ((s.pool a i).goto k pc)) k a i = pc ∧
      ∀ b j, (b, j) ≠ (a, i) → pcs (s.setPool a i ((s.pool a i).goto k pc)) k b j = .idle := by
  refine ⟨?_, fun b j hne => ?_⟩
  · rw [pcs_setPool, if_pos rfl]
    simp [RingRace.State.goto]
  · rw [pcs_setPool, if_neg hne, hidle]

theorem isIdle_of_pcs (hidle : ∀ b j, pcs s k b j = .idle) :
    RingRace.isIdle (s.pool a i) k = true := by
  have hpc : ((s.pool a i).thread k).pc = .idle := hidle a i
  rw [RingRace.isIdle, hpc]

theorem thread_goto_of_ne {j : Nat} (hj : j ≠ k) (pc : Pc VPointer) :
    (r.goto k pc).thread j = r.thread j := if_neg hj

theorem Inv.popNext (pl : Platform) (h : Inv s) (hidle : ∀ b j, pcs s k b j = .idle)
    (hstay : stay (s.call k) (pcs s k) = []) {nSize : VUInt32} (hsize : nSize.toNat ≤ 2 ^ a) :
    ∃ t, popNext pl s k nSize a i = some t ∧ Inv t ∧ t.blocks = s.blocks := by
  by_cases hi : i < pl.maxThread
  · have hstep : RingRace.step (s.pool a i) (.pop k) = some ((s.pool a i).goto k .pop) :=
      if_pos (isIdle_of_pcs hidle)
    obtain ⟨hat, helse⟩ := pcs_enter .pop a i hidle
    refine ⟨(s.setPool a i ((s.pool a i).goto k .pop)).goto k (.popping nSize a i), ?_, ?_, rfl⟩
    · rw [AllocatorRace.popNext, if_pos hi, hstep]
      rfl
    · refine h.move ((h.sound a i).step hstep) ((h.nulls a i).goto nofun)
        (fun j hj => thread_goto_of_ne hj _) ⟨by rw [hat]; trivial, helse⟩ hsize rfl hstay.symm
  · refine ⟨s.goto k (.mallocing nSize (2 ^ a)), ?_, h.goto hidle hsize hstay.symm, rfl⟩
    rw [AllocatorRace.popNext, if_neg hi]

theorem Inv.pushNext (pl : Platform) (h : Inv s) (hidle : ∀ b j, pcs s k b j = .idle) {p : VPointer}
    (hstay : stay (s.call k) (pcs s k) = [p]) :
    ∃ t, pushNext pl s k p a i = some t ∧ Inv t ∧ t.blocks = s.blocks := by
  by_cases hi : i < pl.maxThread
  · have hstep : RingRace.step (s.pool a i) (.push k p) =
        some ((s.pool a i).goto k (.push p)) := if_pos (isIdle_of_pcs hidle)
    obtain ⟨hat, helse⟩ := pcs_enter (.push p) a i hidle
    refine ⟨(s.setPool a i ((s.pool a i).goto k (.push p))).goto k (.pushing p a i), ?_, ?_, rfl⟩
    · rw [AllocatorRace.pushNext, if_pos hi, hstep]
      rfl
    · refine h.move ((h.sound a i).step hstep) ((h.nulls a i).goto nofun)
        (fun j hj => thread_goto_of_ne hj _) ⟨by rw [hat]; rfl, helse⟩ trivial rfl ?_
      rw [hstay, stay, hat]
  · refine ⟨s.goto k (.freeing p), ?_, h.goto hidle trivial hstay.symm, rfl⟩
    rw [AllocatorRace.pushNext, if_neg hi]

theorem Inv.outside (h : Inv s) (hpool : t.pool = s.pool)
    (hcall : t.call = Function.update s.call k c) (hagree : Agree c (pcs s k)) (hsized : Sized c)
    (hfits : ∀ p nSize, (p, nSize) ∈ t.live → nSize.toNat ≤ t.capacity p) (hplaced : Placed t) :
    Inv t where
  sound := fun b j => hpool ▸ h.sound b j
  nulls := fun b j => hpool ▸ h.nulls b j
  agree := by
    intro j
    have hpcs : pcs t j = pcs s j := by
      funext b i
      rw [pcs, pcs, hpool]
    rw [hcall, hpcs]
    by_cases hj : j = k
    · subst hj
      rwa [Function.update_self]
    · rw [Function.update_of_ne hj]
      exact h.agree j
  sized := by
    intro j
    rw [hcall]
    by_cases hj : j = k
    · subst hj
      rwa [Function.update_self]
    · rw [Function.update_of_ne hj]
      exact h.sized j
  fits := hfits
  placed := hplaced

theorem members_giving (hpool : t.pool = s.pool) (hcall : t.call = Function.update s.call k c)
    (j : Nat) : members t (.giving j) =
      if j = k then stay c (pcs s k) else members s (.giving j) := by
  have hpcs : pcs t j = pcs s j := by
    funext b i
    rw [pcs, pcs, hpool]
  simp only [members, hcall, hpcs]
  split_ifs with hj
  · rw [hj, Function.update_self]
  · rw [Function.update_of_ne hj]

theorem Inv.mem_blocks (h : Inv s) {p : Nat} {q : Place} (hp : p ∈ members s q) :
    0 < p ∧ p ≤ s.blocks := by
  obtain ⟨place, hagrees, hsome⟩ := h.placed
  rw [← hsome p, hagrees.mem_iff.mp hp]
  rfl

theorem Placed.append (h : Placed s) (hblocks : t.blocks = s.blocks + 1)
    (hm : ∀ q, members t q = if q = .live then members s q ++ [s.blocks + 1] else members s q) :
    Placed t := by
  obtain ⟨place, hagrees, hsome⟩ := h
  have hnew : place (s.blocks + 1) = none := by
    rw [← Option.not_isSome_iff_eq_none, hsome]
    omega
  refine ⟨_, hagrees.append hnew hm fun _ => rfl, fun p => ?_⟩
  rw [hblocks]
  split_ifs with hp
  · rw [hp]
    exact iff_of_true rfl ⟨Nat.succ_pos _, Nat.le_refl _⟩
  · have hne : ¬ (p : Nat) = s.blocks + 1 := hp
    rw [hsome p]
    omega

theorem Inv.malloc (h : Inv s) {nSize : VUInt32} {bytes : Nat}
    (hcall : s.call k = .mallocing nSize bytes) (fails : Bool) :
    Inv (s.malloc k nSize bytes fails).1 ∧ s.blocks ≤ (s.malloc k nSize bytes fails).1.blocks ∧
      (s.malloc k nSize bytes fails).2 =
        List.range' (s.blocks + 1) ((s.malloc k nSize bytes fails).1.blocks - s.blocks) := by
  have hagree := h.agree k
  have hsized := h.sized k
  rw [hcall] at hagree hsized
  cases fails with
  | true =>
    refine ⟨h.goto hagree trivial (by rw [hcall]; rfl), Nat.le_refl _, ?_⟩
    simp [State.malloc, State.give, State.goto]
  | false =>
    have hne : s.blocks + 1 ≠ 0 := Nat.succ_ne_zero _
    simp only [State.malloc, State.give, if_neg hne, Bool.false_eq_true, if_false]
    refine ⟨h.outside rfl rfl hagree trivial (fun p n hp => ?_) (h.placed.append rfl fun q => ?_),
      Nat.le_succ _, by simp [State.goto]⟩
    · rcases List.mem_append.mp hp with hp | hp
      · have hle := (h.mem_blocks (q := .live) (List.mem_map_of_mem hp)).2
        have hpne : p ≠ s.blocks + 1 := Nat.ne_of_lt (Nat.lt_succ_of_le hle)
        simp only [State.goto, Function.update_of_ne hpne]
        exact h.fits p n hp
      · obtain ⟨rfl, rfl⟩ := Prod.mk.inj (List.mem_singleton.mp hp)
        simp only [State.goto, Function.update_self]
        exact hsized
    · cases q with
      | live => simp [members]
      | pooled b j => rfl
      | freed => rfl
      | giving j =>
        rw [if_neg nofun]
        refine .trans (members_giving (s := s) (k := k) (c := .idle) (by rfl) (by rfl) j) ?_
        split_ifs with hj
        · rw [hj, members, hcall]
          rfl
        · rfl

theorem Inv.free (h : Inv s) {p : VPointer} (hcall : s.call k = .freeing p) :
    Inv { s.goto k .idle with frees := s.frees ++ [p] } := by
  have hagree := h.agree k
  rw [hcall] at hagree
  have hgiving : members s (.giving k) = [p] := by
    rw [members, hcall]
    rfl
  have hp : p ∈ members s (.giving k) := hgiving ▸ List.mem_singleton_self p
  refine h.outside rfl rfl hagree trivial h.fits (h.placed.move .freed hp (fun q => ?_)
    nofun rfl)
  cases q with
  | live => exact .refl _
  | pooled b j => exact .refl _
  | freed => exact List.perm_append_singleton p _
  | giving j =>
    have hgiven : members { s.goto k .idle with frees := s.frees ++ [p] } (.giving j) =
        if j = k then stay .idle (pcs s k) else members s (.giving j) :=
      members_giving (by rfl) (by rfl) j
    rw [hgiven]
    by_cases hj : j = k
    · subst hj
      rw [if_pos rfl, if_pos rfl, hgiving]
      simp [stay]
    · have hne : Place.giving j ≠ .giving k := fun h => hj (Place.giving.inj h)
      rw [if_neg hj, if_neg hne, if_neg nofun]

def Handed (s t : State) (out : List VPointer) : Prop :=
  s.blocks ≤ t.blocks ∧ out = List.range' (s.blocks + 1) (t.blocks - s.blocks)

theorem handed_nil (h : t.blocks = s.blocks) : Handed s t [] := by
  refine ⟨h.ge, ?_⟩
  rw [h, Nat.sub_self]
  rfl

theorem goto_self (s : State) (a i : Nat) (r : RingRace.State VPointer) (k : Nat) :
    (s.setPool a i r).goto k (s.call k) = s.setPool a i r := by
  simp only [State.goto, State.setPool, Function.update_eq_self]

theorem pcs_after (helse : ∀ b j, (b, j) ≠ (a, i) → pcs s k b j = .idle) :
    pcs (s.setPool a i r) k a i = (r.thread k).pc ∧
      ∀ b j, (b, j) ≠ (a, i) → pcs (s.setPool a i r) k b j = .idle := by
  refine ⟨?_, fun b j hne => ?_⟩
  · rw [pcs_setPool, if_pos rfl]
  · rw [pcs_setPool, if_neg hne, helse b j hne]

theorem pcs_left (helse : ∀ b j, (b, j) ≠ (a, i) → pcs s k b j = .idle)
    (hr : (r.thread k).pc = .idle) : ∀ b j, pcs (s.setPool a i r) k b j = .idle := by
  intro b j
  rw [pcs_setPool]
  split_ifs with hne
  · exact hr
  · exact helse b j hne

theorem Inv.popping (h : Inv s) {nSize : VUInt32} (hcall : s.call k = .popping nSize a i)
    (dataFirst fails : Bool) : ∃ t out, act pl s k dataFirst fails = some (t, out) ∧ Inv t ∧
      Handed s t out := by
  have hagree := h.agree k
  have hsize := h.sized k
  rw [hcall] at hagree hsize
  obtain ⟨hpops, helse⟩ := hagree
  have hbusy : ((s.pool a i).thread k).pc ≠ .idle := by
    intro hidle
    rw [pcs, hidle] at hpops
    exact hpops
  obtain ⟨r, hr⟩ := Option.isSome_iff_exists.mp (RingRace.isSome_act hbusy dataFirst)
  have hsound := (h.sound a i).act hr
  have hnulls := (h.nulls a i).act (h.sound a i) hr
  have hother : ∀ j, j ≠ k → r.thread j = (s.pool a i).thread j := fun j hj =>
    RingRace.thread_act_of_ne hr hj
  obtain ⟨hstored, ⟨⟨p, hp⟩, hidle⟩ | ⟨hnot, hpops'⟩⟩ := RingRace.act_pops hpops hr
  · -- the pool had nothing, so the loop goes on
    obtain rfl := h.nulls a i k p hp
    have hleft := pcs_left helse hidle
    have hinv : Inv ((s.setPool a i r).goto k (.mallocing nSize (2 ^ a))) :=
      h.move hsound hnulls hother hleft hsize hstored (by rw [hcall]; rfl)
    obtain ⟨t, ht, hinv', hblocks⟩ := hinv.popNext pl (i := i + 1) hleft
      (by simp [State.goto, stay]) hsize
    rw [popNext_goto] at ht
    refine ⟨t, [], ?_, hinv', handed_nil hblocks⟩
    simp only [AllocatorRace.act, hcall, hr, Option.bind_some, hp, ne_eq, not_true, if_false, ht]
    rfl
  · obtain ⟨hat, helse'⟩ := pcs_after (r := r) helse
    refine ⟨s.setPool a i r, [], ?_, ?_, handed_nil rfl⟩
    · simp only [AllocatorRace.act, hcall, hr, Option.bind_some]
    · rw [← goto_self s a i r k]
      refine h.move hsound hnulls hother ?_ (h.sized k) hstored ?_
      · rw [hcall]
        exact ⟨by rwa [hat], helse'⟩
      · rw [hcall]
        rfl

theorem stay_of_done {pcs : Nat → Nat → Pc VPointer} {p : VPointer}
    (h : pcs a i = .pushDone p) : stay (.pushing p a i) pcs = [] := by
  simp only [stay, h]

theorem stay_of_not_done {pcs : Nat → Nat → Pc VPointer} {p : VPointer}
    (hpushes : RingRace.Pushes p (pcs a i)) (h : pcs a i ≠ .pushDone p) :
    stay (.pushing p a i) pcs = [p] := by
  simp only [stay]
  split
  · rename_i t ht
    rw [ht] at hpushes h
    obtain rfl : t = p := hpushes
    exact absurd rfl h
  · rfl

theorem Inv.pushing (h : Inv s) {p : VPointer} (hcall : s.call k = .pushing p a i)
    (dataFirst fails : Bool) : ∃ t out, act pl s k dataFirst fails = some (t, out) ∧ Inv t ∧
      Handed s t out := by
  have hagree := h.agree k
  rw [hcall] at hagree
  obtain ⟨hpushes, helse⟩ := hagree
  have hbusy : ((s.pool a i).thread k).pc ≠ .idle := by
    intro hidle
    rw [pcs, hidle] at hpushes
    exact hpushes
  obtain ⟨r, hr⟩ := Option.isSome_iff_exists.mp (RingRace.isSome_act hbusy dataFirst)
  have hsound := (h.sound a i).act hr
  have hnulls := (h.nulls a i).act (h.sound a i) hr
  have hother : ∀ j, j ≠ k → r.thread j = (s.pool a i).thread j := fun j hj =>
    RingRace.thread_act_of_ne hr hj
  have hinside : (∀ q, ((s.pool a i).thread k).pc ≠ .pushDone q) →
      ((s.pool a i).thread k).pc ≠ .pushFail →
      act pl s k dataFirst fails = some (s.setPool a i r, []) := by
    intro hdone hfail
    simp only [AllocatorRace.act, hcall, hr, Option.bind_some]
  have honly : ∀ q, ((s.pool a i).thread k).pc = .pushDone q → q = p := by
    intro q hq
    rw [pcs, hq] at hpushes
    exact hpushes
  rcases RingRace.act_pushes hpushes hr with ⟨hdone | hfail, hidle, hstored⟩ |
    ⟨⟨hdone, hfail⟩, ⟨hpushes', hdone', hstored⟩ | ⟨hdone', hstored⟩⟩
  · -- the block was stored before
    have hleft := pcs_left helse hidle
    refine ⟨(s.setPool a i r).goto k .idle, [], ?_, ?_, handed_nil rfl⟩
    · simp only [AllocatorRace.act, hcall, hr, Option.bind_some, hdone]
    · refine h.move hsound hnulls hother hleft trivial hstored ?_
      rw [hcall, stay_of_done hdone]
      rfl
  · -- the pool did not take the block, so the loop goes on
    have hleft := pcs_left helse hidle
    have hinv : Inv ((s.setPool a i r).goto k (.freeing p)) := by
      refine h.move hsound hnulls hother hleft trivial hstored ?_
      have hnot : pcs s k a i ≠ .pushDone p := by
        rw [pcs, hfail]
        nofun
      rw [hcall, stay_of_not_done hpushes hnot]
      rfl
    obtain ⟨t, ht, hinv', hblocks⟩ := hinv.pushNext pl (p := p) (a := a) (i := i + 1) hleft
      (by simp [State.goto, stay])
    rw [pushNext_goto] at ht
    refine ⟨t, [], ?_, hinv', handed_nil hblocks⟩
    simp only [AllocatorRace.act, hcall, hr, Option.bind_some, hfail, ht]
    rfl
  · obtain ⟨hat, helse'⟩ := pcs_after (r := r) helse
    refine ⟨s.setPool a i r, [], hinside ?_ hfail, ?_, handed_nil rfl⟩
    · exact fun q hq => hdone (honly q hq ▸ hq)
    · rw [← goto_self s a i r k, hcall]
      rw [← hat] at hpushes' hdone'
      refine h.move hsound hnulls hother ⟨hpushes', helse'⟩ trivial hstored ?_
      rw [hcall, stay_of_not_done hpushes hdone, stay_of_not_done hpushes' hdone']
  · obtain ⟨hat, helse'⟩ := pcs_after (r := r) helse
    refine ⟨s.setPool a i r, [], hinside ?_ hfail, ?_, handed_nil rfl⟩
    · exact fun q hq => hdone (honly q hq ▸ hq)
    · rw [← goto_self s a i r k, hcall]
      rw [← hat] at hdone'
      refine h.store hsound hnulls hother ⟨hdone' ▸ rfl, helse'⟩ trivial hstored ?_ ?_
      · rw [hcall, stay_of_not_done hpushes hdone]
      · exact stay_of_done hdone'

theorem Inv.act (pl : Platform) (h : Inv s) (hbusy : isIdle s k = false) (dataFirst fails : Bool) :
    ∃ t out, act pl s k dataFirst fails = some (t, out) ∧ Inv t ∧ Handed s t out := by
  cases hcall : s.call k with
  | idle => simp [isIdle, hcall] at hbusy
  | popping nSize a i => exact h.popping hcall dataFirst fails
  | mallocing nSize bytes =>
    obtain ⟨hinv, hblocks, hout⟩ := h.malloc hcall fails
    refine ⟨_, _, ?_, hinv, hblocks, hout⟩
    simp only [AllocatorRace.act, hcall]
  | pushing p a i => exact h.pushing hcall dataFirst fails
  | freeing p =>
    refine ⟨_, [], ?_, h.free hcall, handed_nil rfl⟩
    simp only [AllocatorRace.act, hcall]

theorem perm_map_erase {α β : Type*} [BEq α] [LawfulBEq α] [BEq β] [LawfulBEq β] (f : α → β)
    {l : List α} {x : α} (h : x ∈ l) : ((l.erase x).map f).Perm ((l.map f).erase (f x)) := by
  have hperm : ((l.map f).erase (f x)).Perm ((f x :: (l.erase x).map f).erase (f x)) :=
    ((List.perm_cons_erase h).map f).erase (f x)
  rw [List.erase_cons_head] at hperm
  exact hperm.symm

theorem call_of_isIdle (h : isIdle s k = true) : s.call k = .idle := by
  unfold isIdle at h
  split at h
  · assumption
  · cases h

theorem Inv.release (h : Inv s) (hidle : isIdle s k = true) {p : VPointer} {nSize : VUInt32}
    (hmem : (p, nSize) ∈ s.live) :
    Inv (State.goto { s with live := s.live.erase (p, nSize) } k (.freeing p)) := by
  have hcall := call_of_isIdle hidle
  have hagree := h.agree k
  rw [hcall] at hagree
  have hp : p ∈ members s .live := List.mem_map_of_mem hmem
  refine h.outside rfl rfl hagree trivial (fun q n hq => h.fits q n (List.mem_of_mem_erase hq))
    (h.placed.move (.giving k) hp (fun q => ?_) nofun rfl)
  cases q with
  | live =>
    rw [if_pos rfl]
    exact perm_map_erase Prod.fst hmem
  | pooled b j => exact .refl _
  | freed => exact .refl _
  | giving j =>
    have hgiven : members (State.goto { s with live := s.live.erase (p, nSize) } k (.freeing p))
        (.giving j) = if j = k then stay (.freeing p) (pcs s k) else members s (.giving j) :=
      members_giving (by rfl) (by rfl) j
    rw [hgiven]
    by_cases hj : j = k
    · subst hj
      rw [if_pos rfl, if_neg nofun, if_pos rfl, members, hcall]
      exact .refl _
    · have hne : Place.giving j ≠ .giving k := fun hq => hj (Place.giving.inj hq)
      rw [if_neg hj, if_neg hne, if_neg nofun]

theorem Inv.step (h : Inv s) {e : Event} {out : List VPointer}
    (hs : step pl s e = some (t, out)) : Inv t ∧ Handed s t out := by
  cases e with
  | act k dataFirst fails =>
    cases hidle : isIdle s k with
    | true => simp [AllocatorRace.step, AllocatorRace.act, call_of_isIdle hidle] at hs
    | false =>
      obtain ⟨t', out', hact, hinv, hhanded⟩ := h.act pl hidle dataFirst fails
      obtain ⟨rfl, rfl⟩ := Prod.mk.inj (Option.some.inj (hact.symm.trans hs))
      exact ⟨hinv, hhanded⟩
  | allocate k nSize =>
    simp only [AllocatorRace.step] at hs
    split_ifs at hs with hidle
    obtain ⟨nSlot, hslot, hs⟩ := Option.bind_eq_some_iff.mp hs
    have hcall := call_of_isIdle hidle
    have hagree := h.agree k
    rw [hcall] at hagree
    split_ifs at hs
    · obtain ⟨t', ht, hinv, hblocks⟩ := h.popNext pl (i := 0) hagree (by rw [hcall]; rfl)
        (findSlot_spec hslot)
      rw [ht] at hs
      obtain ⟨rfl, rfl⟩ := Prod.mk.inj (Option.some.inj hs)
      exact ⟨hinv, handed_nil hblocks⟩
    · obtain ⟨rfl, rfl⟩ := Prod.mk.inj (Option.some.inj hs)
      exact ⟨h.goto hagree (Nat.le_refl _) (by rw [hcall]; rfl), handed_nil rfl⟩
  | deAllocate k p nSize =>
    simp only [AllocatorRace.step] at hs
    split_ifs at hs with hidle
    obtain ⟨hidle, hmem⟩ := hidle
    have hinv := h.release hidle (List.contains_iff_mem.mp hmem)
    obtain ⟨nSlot, -, hs⟩ := Option.bind_eq_some_iff.mp hs
    have hcall := call_of_isIdle hidle
    have hagree := h.agree k
    rw [hcall] at hagree
    split_ifs at hs
    · obtain ⟨t', ht, hinv', hblocks⟩ := hinv.pushNext pl (p := p) (a := nSlot) (i := 0) hagree
        (by simp [State.goto, stay])
      rw [pushNext_goto] at ht
      rw [ht] at hs
      obtain ⟨rfl, rfl⟩ := Prod.mk.inj (Option.some.inj hs)
      exact ⟨hinv', handed_nil hblocks⟩
    · obtain ⟨rfl, rfl⟩ := Prod.mk.inj (Option.some.inj hs)
      exact ⟨hinv, handed_nil rfl⟩

theorem inv_start (pl : Platform) (uninit : Nat → VPointer) : Inv (start pl uninit) where
  sound := fun _ _ => RingRace.sound_start ..
  nulls := fun _ _ => nofun
  agree := fun _ _ _ => rfl
  sized := fun _ => trivial
  fits := fun _ _ h => absurd h List.not_mem_nil
  placed := by
    have hnone : ∀ q, members (start pl uninit) q = [] := by
      intro q
      cases q <;> rfl
    refine ⟨fun _ => none, fun p q => ?_, fun p => iff_of_false nofun ?_⟩
    · rw [hnone, if_neg nofun]
      rfl
    · exact fun h => absurd (Nat.lt_of_lt_of_le h.1 h.2) (Nat.lt_irrefl 0)

theorem stored_of_sound (h : RingRace.Sound r) : r.stored.length ≤ 1 ∧
    ((∀ j, RingRace.storing r j = false) → r.stored = r.ring.held) := by
  rcases h.contents with ⟨hcur, hstored, -⟩ | ⟨-, hcur, hstored, -⟩ | ⟨-, -, hstored, -, -, j, hj⟩
  · exact ⟨by simp [hstored], fun _ => by simp [hstored, SafeRingBuffer.held, hcur]⟩
  · exact ⟨by simp [hstored], fun _ => by simp [hstored, SafeRingBuffer.held, hcur]⟩
  · refine ⟨by simp [hstored], fun hstoring => ?_⟩
    rw [hstoring j] at hj
    cases hj

/-- However the threads interleave: every block that `malloc` gave out is in one place, with its
caller, on its way back, in a pool or freed, and large enough for its caller; what `Allocate`
returns are the blocks of `malloc`, each once; a pool keeps at most one block, which is what it
holds when no push is under way; and no call ever waits. -/
theorem allocator_race {uninit : Nat → VPointer} {es : List Event} {log : List VPointer}
    (h : exec (traced (step pl)) (start pl uninit, []) es = some (s, log)) :
    Placed s ∧ (∀ p nSize, (p, nSize) ∈ s.live → nSize.toNat ≤ s.capacity p) ∧
      log = List.range' 1 s.blocks ∧
      (∀ a i, (s.pool a i).stored.length ≤ 1 ∧
        ((∀ j, RingRace.storing (s.pool a i) j = false) →
          (s.pool a i).stored = (s.pool a i).ring.held)) ∧
      ∀ k, isIdle s k = false → ∀ dataFirst fails,
        (step pl s (.act k dataFirst fails)).isSome := by
  obtain ⟨hinv, hlog⟩ : Inv s ∧ log = List.range' 1 s.blocks := by
    refine exec_invariant (I := fun x => Inv x.1 ∧ x.2 = List.range' 1 x.1.blocks)
      (fun x e y hx hstep => ?_) ⟨inv_start pl uninit, rfl⟩ h
    obtain ⟨out, hstep, hlog⟩ := traced_eq_some.mp hstep
    obtain ⟨hinv, hle, rfl⟩ := hx.1.step hstep
    refine ⟨hinv, ?_⟩
    rw [hlog, hx.2, Nat.add_comm x.1.blocks 1, List.range'_append_1, Nat.add_sub_cancel' hle]
  refine ⟨hinv.placed, hinv.fits, hlog, fun a i => stored_of_sound (hinv.sound a i), ?_⟩
  intro k hbusy dataFirst fails
  obtain ⟨t, out, hact, -⟩ := hinv.act pl hbusy dataFirst fails
  rw [AllocatorRace.step, hact]
  rfl

/-- One thread is refused by the pool that another gives its block back to. -/
theorem allocator_race_two :
    let es : List Event := .allocate 0 8 :: List.replicate 13 (.act 0 false false) ++
      [.deAllocate 0 1 8, .act 0 false false, .allocate 1 8, .act 1 false false] ++
      List.replicate 5 (.act 0 true false) ++ List.replicate 11 (.act 1 false false)
    ∃ s, exec (traced (step .win32)) (start .win32 fun _ => 0, []) es = some (s, [1, 2]) ∧
      s.live = [(2, 8#32)] ∧ (s.pool 3 0).stored = [1] ∧ Placed s ∧ 8 ≤ s.capacity 2 := by
  intro es
  obtain ⟨s, h, hlive, hstored⟩ : ∃ s,
      exec (traced (step .win32)) (start .win32 fun _ => 0, []) es = some (s, [1, 2]) ∧
        s.live = [(2, 8#32)] ∧ (s.pool 3 0).stored = [1] := ⟨_, rfl, rfl, rfl⟩
  obtain ⟨hplaced, hfits, -⟩ := allocator_race h
  have hmem : (2, 8#32) ∈ s.live := hlive ▸ List.mem_singleton_self _
  exact ⟨s, h, hlive, hstored, hplaced, hfits 2 8#32 hmem⟩

end VChat.AllocatorRace
