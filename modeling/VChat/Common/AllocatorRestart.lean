import VChat.Common.AllocatorSound
import VChat.Transition.Since

/-! Runs of the allocator with any number of `Start` and `Stop`. -/

namespace VChat.AllocateManager
open Transition

/-- All a pool can be: a push shuts it for good, and `size` and `clear` do not open it again. -/
def Once (b : AllocateSlot) : Prop :=
  (b.signal = SafeRingBuffer.initValue ∧ b.cur = 0) ∨ (b.signal = -1 ∧ b.cur = 1)

theorem Once.pop {b : AllocateSlot} (h : Once b) : b.pop = (0, b) := by
  rcases h with ⟨-, hcur⟩ | ⟨hsignal, -⟩
  · exact b.pop_of_empty hcur
  · exact b.pop_of_closed (hsignal ▸ by decide)

theorem Once.push {b : AllocateSlot} (h : Once b) (p : VPointer) : Once (b.push p).2 := by
  rcases h with ⟨hsignal, hcur⟩ | ⟨hsignal, hcur⟩
  · by_cases hsize : b.cur < b.size
    · rw [b.push_of_open hsignal hsize]
      exact .inr ⟨rfl, by simp [hcur]⟩
    · rw [b.push_of_full (Nat.not_lt.mp hsize)]
      exact .inl ⟨hsignal, hcur⟩
  · rw [b.push_of_closed (hsignal ▸ by decide)]
    exact .inr ⟨hsignal, hcur⟩

theorem Once.setSize {b : AllocateSlot} (h : Once b) (n : Nat) : Once (b.setSize n) := by
  unfold SafeRingBuffer.setSize
  split_ifs
  · exact h
  · exact h

theorem popFirst_of_once {pools : Nat → AllocateSlot} (h : ∀ i, Once (pools i)) (is : List Nat) :
    popFirst pools is = (0, pools) := by
  induction is with
  | nil => rfl
  | cons i is ih => simp [popFirst, (h i).pop, ih]

theorem once_pushFirst {pools : Nat → AllocateSlot} (h : ∀ i, Once (pools i)) (p : VPointer)
    (is : List Nat) (i : Nat) : Once ((pushFirst pools p is).2 i) := by
  induction is generalizing pools with
  | nil => exact h i
  | cons j is ih =>
    have hupd : ∀ i, Once (Function.update pools j ((pools j).push p).2 i) := by
      intro i
      by_cases hij : i = j
      · subst hij
        rw [Function.update_self]
        exact (h i).push p
      · rw [Function.update_of_ne hij]
        exact h i
    simp only [pushFirst]
    split_ifs
    · exact hupd i
    · exact ih hupd

variable {pl : Platform} {m m' : AllocateManager}

theorem allocate_of_once (h : ∀ k i, Once (m.container k i)) (nSize : VUInt32) (fails : Bool) :
    m.allocate pl nSize fails = (findSlot nSize).map fun k =>
      m.malloc (if k < maxSlot then 2 ^ k else nSize.toNat) fails := by
  unfold allocate
  congr 1
  funext k
  simp only [popFirst_of_once (h k), setPools_self, if_true]
  split_ifs <;> rfl

theorem once_deAllocate (h : ∀ k i, Once (m.container k i)) {p : VPointer} {nSize : VUInt32}
    (hr : m.deAllocate pl p nSize = some m') (k i : Nat) : Once (m'.container k i) := by
  have hfree : ∀ m : AllocateManager, (m.free p).container = m.container := by
    intro m
    unfold free
    split_ifs <;> rfl
  unfold deAllocate at hr
  split_ifs at hr with hp
  · exact Option.some.inj hr ▸ h k i
  · obtain ⟨slot, -, hr⟩ := Option.map_eq_some_iff.mp hr
    have hset : ∀ k i, Once ((m.setPools slot
        (pushFirst (m.container slot) p (List.range pl.maxThread)).2).container k i) := by
      intro k i
      by_cases hk : k = slot
      · subst hk
        simp only [setPools, Function.update_self]
        exact once_pushFirst (h k) p _ i
      · simp only [setPools, Function.update_of_ne hk]
        exact h k i
    simp only at hr
    split_ifs at hr
    · exact hr ▸ hset k i
    · rw [← hr, hfree]
      exact hset k i
    · rw [← hr, hfree]
      exact h k i

theorem foldl_free (l : List VPointer) (m : AllocateManager) :
    l.foldl free m = { m with frees := m.frees ++ l.filter (· ≠ 0) } := by
  induction l generalizing m with
  | nil => simp
  | cons p l ih =>
    rw [List.foldl_cons, ih]
    by_cases hp : p = 0
    · simp [free, hp]
    · simp [free, hp]

theorem once_step (h : ∀ k i, Once (m.container k i)) {e : Event} (hs : step pl m e = some m')
    (k i : Nat) : Once (m'.container k i) := by
  cases e with
  | start =>
    obtain rfl := Option.some.inj hs
    exact (h k i).setSize _
  | stop =>
    obtain rfl := Option.some.inj hs
    rw [stop, foldl_free]
    exact h k i
  | allocate nSize fails =>
    obtain ⟨r, ha, rfl⟩ := Option.map_eq_some_iff.mp hs
    rw [allocate_of_once h] at ha
    obtain ⟨slot, -, rfl⟩ := Option.map_eq_some_iff.mp ha
    cases fails with
    | true => exact h k i
    | false =>
      rw [hold_malloc]
      exact h k i
  | deAllocate p nSize =>
    obtain ⟨-, hr⟩ := by simpa [step] using hs
    exact once_deAllocate (m := { m with live := m.live.erase (p, nSize) }) h hr k i

/-- However often the allocator is started and stopped, the pools give nothing back. -/
theorem once_of_exec {uninit : Nat → VPointer} {es : List Event}
    (h : exec (step pl) (new uninit) es = some m) : ∀ k i, Once (m.container k i) :=
  exec_induction (P := fun _ m => ∀ k i, Once (m.container k i)) (fun _ _ => .inl ⟨rfl, rfl⟩)
    (fun _ _ _ _ ih hs => once_step ih hs) h

theorem pooled_start : (m.start pl).pooled pl = [] := by
  have hsize : pl.defaultSizePool / pl.maxThread > 0 := by cases pl <;> decide
  have hnull : ∀ k i, blocksOf ((m.start pl).container k i) = [] := by
    intro k i
    simp [blocksOf, start, SafeRingBuffer.setSize, hsize, SafeRingBuffer.held]
  simp [pooled_eq, hnull]

/-- `Stop` comes before any pooled block was freed, `Start` after all of them were. -/
def Meets (pl : Platform) (m : AllocateManager) : Event → Prop
  | .stop => ∀ p ∈ m.pooled pl, p ∉ m.frees
  | .start => ∀ p ∈ m.pooled pl, p ∈ m.frees
  | _ => True

/-- What a step has to keep: no block is freed twice, none that was freed is handed out, and a
block in a pool stays there until it is handed out or the next `Stop` frees it. -/
structure Keeps (pl : Platform) (m : AllocateManager) (e : Event) (m' : AllocateManager) :
    Prop where
  frees : m'.frees.Nodup
  allocated : ∀ nSize fails r, e = .allocate nSize fails → m.allocate pl nSize fails = some r →
    r.1 ∉ m.frees
  pooled : ∀ p ∈ m.pooled pl, p ∉ m.frees →
    p ∈ m'.pooled pl ∨ p ∈ m'.pointers ∨ p ∈ m'.frees
  stopped : e = .stop → ∀ p ∈ m.pooled pl, p ∈ m'.frees

structure Placed (pl : Platform) (m : AllocateManager) : Prop where
  once : ∀ k i, Once (m.container k i)
  nodup : (m.pooled pl ++ m.pointers).Nodup
  live : ∀ p ∈ m.pointers, p ∉ m.frees
  known : ∀ p, p ∈ m.pooled pl ∨ p ∈ m.pointers ∨ p ∈ m.frees → p ≠ 0 ∧ p ≤ m.blocks

theorem placed_new (uninit : Nat → VPointer) : Placed pl (new uninit) := by
  have hpooled : (new uninit).pooled pl = [] := by
    simp [pooled, held, new, SafeRingBuffer.new, SafeRingBuffer.held]
  have hpointers : (new uninit).pointers = [] := rfl
  have hfrees : (new uninit).frees = [] := rfl
  refine ⟨fun k i => .inl ⟨rfl, rfl⟩, ?_, fun p hp => ?_, fun p hp => ?_⟩
  · rw [hpooled, hpointers]
    exact List.nodup_nil
  · simp [hpointers] at hp
  · simp [hpooled, hpointers, hfrees] at hp

theorem stop_eq : m.stop pl = { m with frees := m.frees ++ m.pooled pl } := foldl_free _ m

theorem Placed.start (h : Placed pl m) : Placed pl (m.start pl) := by
  refine ⟨fun k i => (h.once k i).setSize _, ?_, h.live, fun p hp => h.known p ?_⟩
  · rw [pooled_start]
    exact (List.nodup_append.mp h.nodup).2.1
  · rw [pooled_start] at hp
    exact .inr (hp.resolve_left List.not_mem_nil)

theorem Placed.stop (h : Placed pl m) : Placed pl (m.stop pl) := by
  have hlive : ∀ p ∈ m.pointers, p ∉ m.pooled pl := fun p hp hpool =>
    (List.nodup_append.mp h.nodup).2.2 p hpool p hp rfl
  rw [stop_eq]
  refine ⟨h.once, h.nodup, fun p hp hfree => ?_, fun p hp => h.known p ?_⟩
  · rcases List.mem_append.mp hfree with hfree | hpool
    · exact h.live p hp hfree
    · exact hlive p hp hpool
  · rcases hp with hpool | hp | hfree
    · exact .inl hpool
    · exact .inr (.inl hp)
    · rcases List.mem_append.mp hfree with hfree | hpool
      · exact .inr (.inr hfree)
      · exact .inl hpool

theorem Placed.fresh (h : Placed pl m) {p : VPointer}
    (hp : p ∈ m.pooled pl ∨ p ∈ m.pointers ∨ p ∈ m.frees) : p ≠ m.blocks + 1 :=
  Nat.ne_of_lt (Nat.lt_succ_of_le (h.known p hp).2)

theorem Placed.allocate (h : Placed pl m) {nSize : VUInt32} {fails : Bool}
    {r : VPointer × AllocateManager} (ha : m.allocate pl nSize fails = some r) :
    Placed pl (r.2.hold r.1 nSize) ∧ (r.2.hold r.1 nSize).pooled pl = m.pooled pl ∧
      (r.2.hold r.1 nSize).frees = m.frees ∧ r.1 ∉ m.frees := by
  rw [allocate_of_once h.once] at ha
  obtain ⟨k, -, rfl⟩ := Option.map_eq_some_iff.mp ha
  cases fails with
  | true => exact ⟨h, rfl, rfl, fun hfree => (h.known _ (.inr (.inr hfree))).1 rfl⟩
  | false =>
    rw [hold_malloc]
    refine ⟨⟨h.once, ?_, fun p hp hfree => ?_, fun p hp => ?_⟩, rfl, rfl,
      fun hfree => h.fresh (.inr (.inr hfree)) rfl⟩
    · refine List.perm_middle.nodup_iff.mpr (List.nodup_cons.mpr ⟨fun hmem => ?_, h.nodup⟩)
      rcases List.mem_append.mp hmem with hpool | hlive
      · exact h.fresh (.inl hpool) rfl
      · exact h.fresh (.inr (.inl hlive)) rfl
    · rcases List.mem_cons.mp hp with rfl | hp
      · exact h.fresh (.inr (.inr hfree)) rfl
      · exact h.live p hp hfree
    · show p ≠ 0 ∧ p ≤ m.blocks + 1
      by_cases hp' : p = m.blocks + 1
      · exact ⟨hp' ▸ Nat.succ_ne_zero _, hp' ▸ Nat.le_refl _⟩
      · have hold : p ∈ m.pooled pl ∨ p ∈ m.pointers ∨ p ∈ m.frees := by
          rcases hp with hpool | hlive | hfree
          · exact .inl hpool
          · exact .inr (.inl ((List.mem_cons.mp hlive).resolve_left hp'))
          · exact .inr (.inr hfree)
        exact ⟨(h.known p hold).1, Nat.le_succ_of_le (h.known p hold).2⟩

def takes (pl : Platform) (m : AllocateManager) (p : VPointer) (nSize : VUInt32) : Bool :=
  (findSlot nSize).any fun nSlot =>
    nSlot < maxSlot && (pushFirst (m.container nSlot) p (List.range pl.maxThread)).1

theorem frees_deAllocate {p : VPointer} (hp : p ≠ 0) {nSize : VUInt32}
    (hr : m.deAllocate pl p nSize = some m') :
    m'.frees = if takes pl m p nSize then m.frees else m.frees ++ [p] := by
  rw [deAllocate, if_neg hp] at hr
  obtain ⟨k, hk, rfl⟩ := Option.map_eq_some_iff.mp hr
  simp only [takes, hk, Option.any_some, Bool.and_eq_true, decide_eq_true_eq]
  split_ifs with hslot hpush hboth hboth
  · rfl
  · exact absurd ⟨hslot, hpush⟩ hboth
  · exact absurd hboth.2 hpush
  · rw [free_of_ne hp]
    rfl
  · exact absurd (And.left ‹_›) hslot
  · rw [free_of_ne hp]

theorem pointers_erase {p : VPointer} {nSize : VUInt32} (hlive : (p, nSize) ∈ m.live) :
    m.pointers.Perm (p :: (m.live.erase (p, nSize)).map Prod.fst) :=
  (List.perm_cons_erase hlive).map Prod.fst

theorem Placed.held (h : Placed pl m) {p : VPointer} {nSize : VUInt32}
    (hlive : (p, nSize) ∈ m.live) : p ≠ 0 ∧ p ∉ m.pooled pl ∧ p ∉ m.frees := by
  have hmem : p ∈ m.pointers := List.mem_map_of_mem hlive
  refine ⟨(h.known p (.inr (.inl hmem))).1, fun hpool => ?_, h.live p hmem⟩
  exact (List.nodup_append.mp h.nodup).2.2 p hpool p hmem rfl

theorem Placed.deAllocate (h : Placed pl m) {p : VPointer} {nSize : VUInt32}
    (hlive : (p, nSize) ∈ m.live)
    (hr : deAllocate pl { m with live := m.live.erase (p, nSize) } p nSize = some m') :
    Placed pl m' := by
  have honce : ∀ k i, Once (m'.container k i) :=
    once_deAllocate (m := { m with live := m.live.erase (p, nSize) }) h.once hr
  have hmem : p ∈ m.pointers := List.mem_map_of_mem hlive
  have hp : p ≠ 0 := (h.held hlive).1
  have hpointers := pointers_erase hlive
  have hsub : ∀ q ∈ (m.live.erase (p, nSize)).map Prod.fst, q ∈ m.pointers := fun q hq =>
    hpointers.mem_iff.mpr (List.mem_cons_of_mem p hq)
  have hnodup := ((hpointers.append_left (m.pooled pl)).trans List.perm_middle).nodup_iff.mp h.nodup
  cases released_of_deAllocate hp hr with
  | keep k i pools hk hslot hheld hother hperm =>
    refine ⟨honce, ?_, fun q hq => h.live q (hsub q hq), fun q hq => h.known q ?_⟩
    · exact (hperm.append_right _).nodup_iff.mpr hnodup
    · rcases hq with hq | hq | hfree
      · rcases List.mem_cons.mp (hperm.mem_iff.mp hq) with rfl | hq
        · exact .inr (.inl hmem)
        · exact .inl hq
      · exact .inr (.inl (hsub q hq))
      · exact .inr (.inr hfree)
  | free =>
    rw [free_of_ne hp] at honce ⊢
    refine ⟨honce, (List.nodup_cons.mp hnodup).2, fun q hq hfree => ?_, fun q hq => h.known q ?_⟩
    · rcases List.mem_append.mp hfree with hfree | hfree
      · exact h.live q (hsub q hq) hfree
      · obtain rfl := List.mem_singleton.mp hfree
        exact (List.nodup_cons.mp hnodup).1 (List.mem_append_right _ hq)
    · rcases hq with hq | hq | hfree
      · exact .inl hq
      · exact .inr (.inl (hsub q hq))
      · rcases List.mem_append.mp hfree with hfree | hfree
        · exact .inr (.inr hfree)
        · exact List.mem_singleton.mp hfree ▸ .inr (.inl hmem)

theorem deAllocate_cases {p : VPointer} (hp : p ≠ 0) {nSize : VUInt32}
    {live : List (VPointer × VUInt32)}
    (hr : deAllocate pl { m with live := live } p nSize = some m') :
    takes pl m p nSize = true ∧ (m'.pooled pl).Perm (p :: m.pooled pl) ∧ m'.frees = m.frees ∨
      takes pl m p nSize = false ∧ m'.pooled pl = m.pooled pl ∧ m'.frees = m.frees ++ [p] := by
  have hfrees : m'.frees = if takes pl m p nSize then m.frees else m.frees ++ [p] :=
    frees_deAllocate (m := { m with live := live }) hp hr
  cases released_of_deAllocate hp hr with
  | keep k i pools hk hslot hheld hother hperm =>
    have htakes : takes pl m p nSize = true := by
      by_contra hnot
      rw [if_neg hnot] at hfrees
      have hsame : m.frees = m.frees ++ [p] := hfrees
      exact absurd hsame (by simp)
    exact .inl ⟨htakes, hperm, rfl⟩
  | free =>
    have htakes : takes pl m p nSize = false := by
      by_contra hnot
      rw [if_pos (by simpa using hnot), free_of_ne hp] at hfrees
      exact absurd hfrees (by simp)
    rw [free_of_ne hp]
    exact .inr ⟨htakes, rfl, rfl⟩

theorem Placed.step (h : Placed pl m) {e : Event} (hs : step pl m e = some m') :
    Placed pl m' := by
  cases e with
  | start => exact Option.some.inj hs ▸ h.start
  | stop => exact Option.some.inj hs ▸ h.stop
  | allocate nSize fails =>
    obtain ⟨r, ha, rfl⟩ := Option.map_eq_some_iff.mp hs
    exact (h.allocate ha).1
  | deAllocate p nSize =>
    obtain ⟨hlive, hr⟩ := by simpa [AllocateManager.step] using hs
    exact h.deAllocate hlive hr

theorem Placed.start_iff (h : Placed pl m) (hfrees : m.frees.Nodup) :
    Meets pl m .start ↔ Keeps pl m .start (m.start pl) := by
  constructor
  · intro hmeets
    exact ⟨hfrees, by simp, fun p hp hfree => absurd (hmeets p hp) hfree, by simp⟩
  · intro hkeeps p hp
    by_contra hfree
    rcases hkeeps.pooled p hp hfree with hpool | hlive | hfree'
    · simp [pooled_start] at hpool
    · -- `Start` hands nothing out, so a caller would have had the block before
      exact (List.nodup_append.mp h.nodup).2.2 p hp p hlive rfl
    · exact hfree hfree'

theorem Placed.stop_iff (h : Placed pl m) (hfrees : m.frees.Nodup) :
    Meets pl m .stop ↔ Keeps pl m .stop (m.stop pl) := by
  have hpooled : (m.pooled pl).Nodup := (List.nodup_append.mp h.nodup).1
  rw [stop_eq]
  constructor
  · intro hmeets
    refine ⟨?_, by simp, fun p hp _ => .inr (.inr (List.mem_append_right _ hp)),
      fun _ p hp => List.mem_append_right _ hp⟩
    exact List.nodup_append.mpr ⟨hfrees, hpooled, fun p hp q hq hpq => hmeets q hq (hpq ▸ hp)⟩
  · intro hkeeps p hp hfree
    exact (List.nodup_append.mp hkeeps.frees).2.2 p hfree p hp rfl

theorem Placed.meets_iff (h : Placed pl m) (hfrees : m.frees.Nodup) {e : Event}
    (hs : AllocateManager.step pl m e = some m') : Meets pl m e ↔ Keeps pl m e m' := by
  have hnew : ∀ nSize fails r, m.allocate pl nSize fails = some r → r.1 ∉ m.frees :=
    fun _ _ _ ha => (h.allocate ha).2.2.2
  cases e with
  | start =>
    obtain rfl := Option.some.inj hs
    exact h.start_iff hfrees
  | stop =>
    obtain rfl := Option.some.inj hs
    exact h.stop_iff hfrees
  | allocate nSize fails =>
    obtain ⟨r, ha, rfl⟩ := Option.map_eq_some_iff.mp hs
    obtain ⟨-, hpooled, hsame, -⟩ := h.allocate ha
    refine iff_of_true trivial ⟨hsame ▸ hfrees, fun _ _ _ _ ha => hnew _ _ _ ha,
      fun p hp _ => .inl ?_, by simp⟩
    rw [hpooled]
    exact hp
  | deAllocate p nSize =>
    obtain ⟨hlive, hr⟩ := by simpa [AllocateManager.step] using hs
    obtain ⟨hp, -, hfree⟩ := h.held hlive
    rcases deAllocate_cases hp hr with ⟨-, hperm, hsame⟩ | ⟨-, hpooled, hmore⟩
    · refine iff_of_true trivial ⟨hsame ▸ hfrees, by simp, fun q hq _ => .inl ?_, by simp⟩
      exact hperm.mem_iff.mpr (List.mem_cons_of_mem p hq)
    · refine iff_of_true trivial ⟨?_, by simp, fun q hq _ => .inl (hpooled ▸ hq), by simp⟩
      rw [hmore]
      exact (List.perm_append_singleton p m.frees).nodup_iff.mpr
        (List.nodup_cons.mpr ⟨hfree, hfrees⟩)

/-! ### The condition as an order of the calls -/

inductive Call where
  | start
  | stop
  | pooled
deriving DecidableEq

/-- `DeAllocate` counts when a pool takes the block. -/
def callsOf (pl : Platform) (m : AllocateManager) : Event → List Call
  | .start => [.start]
  | .stop => [.stop]
  | .allocate _ _ => []
  | .deAllocate p nSize => if takes pl m p nSize then [.pooled] else []

def calling (pl : Platform) (m : AllocateManager) (e : Event) :
    Option (AllocateManager × List Call) :=
  (step pl m e).map fun m' => (m', callsOf pl m e)

def sinceStart (calls : List Call) : List Call := sinceLast (fun c => c = .start) calls

def sinceStop (calls : List Call) : List Call :=
  (sinceStart calls).rtakeWhile fun c => c ≠ .stop

def untilStop (calls : List Call) : List Call :=
  (sinceStart calls).rdropWhile fun c => c ≠ .stop

/-- `Stop` comes when no earlier `Stop` since the last `Start` came after a block was pooled, and
`Start` when no block was pooled since the last of either. -/
def InOrder (calls : List Call) : Event → Prop
  | .stop => .pooled ∉ untilStop calls
  | .start => .pooled ∉ sinceStop calls
  | _ => True

structure Told (pl : Platform) (m : AllocateManager) (calls : List Call) : Prop where
  listed : (∃ p, p ∈ m.pooled pl) ↔ .pooled ∈ sinceStart calls
  unfreed : (∃ p ∈ m.pooled pl, p ∉ m.frees) ↔ .pooled ∈ sinceStop calls
  freed : (∃ p ∈ m.pooled pl, p ∈ m.frees) ↔ .pooled ∈ untilStop calls

variable {calls : List Call}

theorem Told.meets_iff (h : Told pl m calls) (e : Event) : Meets pl m e ↔ InOrder calls e := by
  cases e with
  | start =>
    rw [Meets, InOrder, ← h.unfreed]
    simp only [not_exists, not_and, not_not]
  | stop =>
    rw [Meets, InOrder, ← h.freed]
    simp only [not_exists, not_and]
  | allocate nSize fails => exact Iff.rfl
  | deAllocate p nSize => exact Iff.rfl

theorem Told.congr (h : Told pl m calls) (hpooled : m'.pooled pl = m.pooled pl)
    (hfrees : ∀ p ∈ m.pooled pl, p ∈ m'.frees ↔ p ∈ m.frees) : Told pl m' calls := by
  refine ⟨hpooled ▸ h.listed, ?_, ?_⟩
  · rw [hpooled, ← h.unfreed]
    exact exists_congr fun p => and_congr_right fun hp => not_congr (hfrees p hp)
  · rw [hpooled, ← h.freed]
    exact exists_congr fun p => and_congr_right fun hp => hfrees p hp

theorem Told.start (calls : List Call) : Told pl (m.start pl) (calls ++ [.start]) := by
  have hsince : sinceStart (calls ++ [.start]) = [] := sinceLast_append_mark rfl (by simp) calls
  refine ⟨?_, ?_, ?_⟩ <;> simp [pooled_start, sinceStop, untilStop, hsince]

theorem sinceStart_concat {c : Call} (hc : c ≠ .start) (calls : List Call) :
    sinceStart (calls ++ [c]) = sinceStart calls ++ [c] := by
  refine sinceLast_append_of_not (fun d hd => ?_) calls
  rw [List.mem_singleton.mp hd]
  exact decide_eq_false hc

theorem Told.stop (h : Told pl m calls) : Told pl (m.stop pl) (calls ++ [.stop]) := by
  have hsince := sinceStart_concat (by decide : Call.stop ≠ .start) calls
  have hstop : sinceStop (calls ++ [.stop]) = [] := by
    rw [sinceStop, hsince, List.rtakeWhile_concat]
    rfl
  have huntil : untilStop (calls ++ [.stop]) = sinceStart calls ++ [.stop] := by
    rw [untilStop, hsince, List.rdropWhile_concat]
    rfl
  have hpooled : (m.stop pl).pooled pl = m.pooled pl := by
    rw [stop_eq]
    rfl
  have hfrees : (m.stop pl).frees = m.frees ++ m.pooled pl := by rw [stop_eq]
  refine ⟨?_, ?_, ?_⟩
  · simpa [hsince, hpooled] using h.listed
  · rw [hstop, hpooled, hfrees]
    simp +contextual
  · have hall : (∃ p ∈ m.pooled pl, p ∈ m.frees ++ m.pooled pl) ↔ ∃ p, p ∈ m.pooled pl :=
      exists_congr fun p => and_iff_left_of_imp fun hp => List.mem_append_right _ hp
    rw [huntil, hpooled, hfrees, hall, h.listed]
    simp

theorem Told.pooled (h : Told pl m calls) {p : VPointer} (hfree : p ∉ m.frees)
    (hpooled : (m'.pooled pl).Perm (p :: m.pooled pl)) (hfrees : m'.frees = m.frees) :
    Told pl m' (calls ++ [.pooled]) := by
  have hsince := sinceStart_concat (by decide : Call.pooled ≠ .start) calls
  have hstop : sinceStop (calls ++ [.pooled]) = sinceStop calls ++ [.pooled] := by
    rw [sinceStop, hsince, List.rtakeWhile_concat]
    rfl
  have huntil : untilStop (calls ++ [.pooled]) = untilStop calls := by
    rw [untilStop, hsince, List.rdropWhile_concat]
    rfl
  refine ⟨?_, ?_, ?_⟩
  · simp [hsince, hpooled.mem_iff]
  · simp [hstop, hpooled.mem_iff, hfrees, hfree]
  · rw [huntil, ← h.freed]
    simp [hpooled.mem_iff, hfrees, hfree]

theorem Told.step (h : Told pl m calls) (hplaced : Placed pl m) {e : Event}
    (hs : AllocateManager.step pl m e = some m') : Told pl m' (calls ++ callsOf pl m e) := by
  cases e with
  | start => exact Option.some.inj hs ▸ Told.start calls
  | stop => exact Option.some.inj hs ▸ h.stop
  | allocate nSize fails =>
    obtain ⟨r, ha, rfl⟩ := Option.map_eq_some_iff.mp hs
    obtain ⟨-, hpooled, hfrees, -⟩ := hplaced.allocate ha
    rw [callsOf, List.append_nil]
    exact h.congr hpooled fun p _ => by rw [hfrees]
  | deAllocate p nSize =>
    obtain ⟨hlive, hr⟩ := by simpa [AllocateManager.step] using hs
    obtain ⟨hp, hpool, hfree⟩ := hplaced.held hlive
    rcases deAllocate_cases hp hr with ⟨htakes, hperm, hfrees⟩ | ⟨htakes, hpooled, hfrees⟩
    · rw [callsOf, if_pos htakes]
      exact h.pooled hfree hperm hfrees
    · rw [callsOf, htakes, if_neg Bool.false_ne_true, List.append_nil]
      refine h.congr hpooled fun q hq => ?_
      have hne : q ≠ p := fun hqp => hpool (hqp ▸ hq)
      rw [hfrees, List.mem_append, List.mem_singleton, or_iff_left hne]

/-- The condition on the state is, over a run, one on the order of the calls. -/
theorem along_inOrder_iff (uninit : Nat → VPointer) (es : List Event) :
    Along (traced (calling pl)) (fun x e _ => InOrder x.2 e) (new uninit, []) es ↔
      Along (step pl) (fun m e _ => Meets pl m e) (new uninit) es := by
  have hstep : (fun m e => (calling pl m e).map Prod.fst) = step pl := by
    funext m e
    rw [calling, Option.map_map]
    exact Option.map_id'
  have htold : Told pl (new uninit) [] := by
    have hpooled : (new uninit).pooled pl = [] := by
      simp [pooled, held, new, SafeRingBuffer.new, SafeRingBuffer.held]
    refine ⟨?_, ?_, ?_⟩ <;> simp [hpooled, sinceStop, untilStop, sinceStart]
  have hiff : Along (traced (calling pl)) (fun x e _ => InOrder x.2 e) (new uninit, []) es ↔
      Along (traced (calling pl)) (fun x e _ => Meets pl x.1 e) (new uninit, []) es := by
    refine along_iff_along (J := fun x => Placed pl x.1 ∧ Told pl x.1 x.2) ?_ ?_ es
      ⟨placed_new uninit, htold⟩
    · rintro ⟨m, calls⟩ e ⟨m', calls'⟩ ⟨hplaced, htold⟩ hcall -
      obtain ⟨out, hcalling, rfl⟩ := traced_eq_some.mp hcall
      obtain ⟨t, hs, heq⟩ := Option.map_eq_some_iff.mp hcalling
      obtain ⟨rfl, rfl⟩ := Prod.mk.inj heq
      exact ⟨hplaced.step hs, htold.step hplaced hs⟩
    · exact fun x e _ h _ => (h.2.meets_iff e).symm
  rw [hiff, ← hstep]
  exact along_traced (C := fun m e _ => Meets pl m e)

/-- Exactly in the runs whose every `Start` and `Stop` meets its condition, on the state before it
or on the order of the calls, are blocks freed at most once, never handed out again after that, and
never forgotten in a pool. -/
theorem restart_run_iff (pl : Platform) (uninit : Nat → VPointer) (es : List Event) :
    (Along (step pl) (fun m e _ => Meets pl m e) (new uninit) es ↔
        Along (step pl) (Keeps pl) (new uninit) es) ∧
      (Along (traced (calling pl)) (fun x e _ => InOrder x.2 e) (new uninit, []) es ↔
        Along (step pl) (Keeps pl) (new uninit) es) := by
  have hiff : Along (step pl) (fun m e _ => Meets pl m e) (new uninit) es ↔
      Along (step pl) (Keeps pl) (new uninit) es :=
    along_iff_along (J := fun m => Placed pl m ∧ m.frees.Nodup)
      (fun _ _ _ h hs hkeeps => ⟨h.1.step hs, hkeeps.frees⟩)
      (fun _ _ _ h hs => h.1.meets_iff h.2 hs) es ⟨placed_new uninit, List.nodup_nil⟩
  exact ⟨hiff, (along_inOrder_iff uninit es).trans hiff⟩

/-- A second `Stop` frees what the pools still list. -/
theorem not_keeps_stop_twice :
    ∃ m m', exec (step .win32) (new fun _ => 0)
        [.start, .allocate 1 false, .deAllocate 1 1, .stop] = some m ∧
      step .win32 m .stop = some m' ∧ m'.frees = [1, 1] ∧ ¬ Keeps .win32 m .stop m' := by
  obtain ⟨m, m', hm, hm', hfrees⟩ : ∃ m m', exec (step .win32) (new fun _ => 0)
      [.start, .allocate 1 false, .deAllocate 1 1, .stop] = some m ∧
      step .win32 m .stop = some m' ∧ m'.frees = [1, 1] := ⟨_, _, rfl, rfl, rfl⟩
  refine ⟨m, m', hm, hm', hfrees, fun hkeeps => ?_⟩
  have hnodup := hkeeps.frees
  rw [hfrees] at hnodup
  exact absurd hnodup (by decide)

end VChat.AllocateManager
