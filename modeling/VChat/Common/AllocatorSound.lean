import VChat.Common.AllocateManager

/-! Runs of the allocator between one `Start` and the next `Stop`. -/

namespace VChat.AllocateManager
open Transition

/-- Two families of lists that differ in one place, by the elements `as` that one has more. -/
theorem perm_flatMap_of_take {α : Type*} {f g : Nat → List α} {ks : List Nat} (hnd : ks.Nodup)
    {k : Nat} (hk : k ∈ ks) (hne : ∀ j, j ≠ k → g j = f j) {as : List α}
    (h : (f k).Perm (as ++ g k)) : (ks.flatMap f).Perm (as ++ ks.flatMap g) := by
  induction ks with
  | nil => cases hk
  | cons j ks ih =>
    obtain ⟨hj, hnd⟩ := List.nodup_cons.mp hnd
    rw [List.flatMap_cons, List.flatMap_cons]
    rcases List.mem_cons.mp hk with rfl | hk
    · have hrest : ks.flatMap g = ks.flatMap f := by
        rw [List.flatMap_def, List.flatMap_def]
        refine congrArg List.flatten (List.map_congr_left fun i hi => hne i ?_)
        exact fun hik => hj (hik ▸ hi)
      rw [hrest, ← List.append_assoc]
      exact h.append_right _
    · have hjk : j ≠ k := fun hjk => hj (hjk ▸ hk)
      rw [hne j hjk]
      refine ((ih hnd hk).append_left (f j)).trans ?_
      exact List.perm_append_comm_assoc _ _ _

theorem findSlot_spec {nSize : VUInt32} {k : Nat} (h : findSlot nSize = some k) :
    nSize.toNat ≤ 2 ^ k := by
  have hk : ¬ 1#32 <<< k < nSize := by simpa using List.find?_some h
  have hle : nSize.toNat ≤ (1#32 <<< k).toNat := BitVec.not_lt.mp hk
  rw [BitVec.toNat_shiftLeft, BitVec.toNat_ofNat, Nat.shiftLeft_eq, Nat.one_mod, Nat.one_mul] at hle
  exact Nat.le_trans hle (Nat.mod_le _ _)

theorem exists_findSlot {nSize : VUInt32} (h : nSize.toNat ≤ 2 ^ 31) :
    ∃ k, findSlot nSize = some k := by
  rw [← Option.isSome_iff_exists, findSlot, List.find?_isSome]
  refine ⟨31, by decide, ?_⟩
  have hle : nSize ≤ 1#32 <<< 31 := h
  simpa using hle

def blocksOf (b : AllocateSlot) : List VPointer := b.held.filter (· ≠ 0)

def given (pointer : VPointer) : List VPointer := [pointer].filter (· ≠ 0)

theorem pop_blocksOf (b : AllocateSlot) :
    (blocksOf b).Perm (given b.pop.1 ++ blocksOf b.pop.2) := by
  rcases b.pop_held with hheld | hpop
  · rw [blocksOf, hheld, List.filter_append]
    exact List.perm_append_comm
  · rw [hpop]
    exact .refl _

theorem pop_mem {b : AllocateSlot} {p : VPointer} (h : p ∈ given b.pop.1 ++ b.pop.2.held) :
    p ∈ b.held := by
  rcases b.pop_held with hheld | hpop
  · rw [hheld]
    rcases List.mem_append.mp h with h | h
    · exact List.mem_append_right _ (List.mem_of_mem_filter h)
    · exact List.mem_append_left _ h
  · rw [hpop] at h
    exact h

theorem popFirst_of_not_mem {i : Nat} {is : List Nat} (hi : i ∉ is) (pools : Nat → AllocateSlot) :
    (popFirst pools is).2 i = pools i := by
  induction is generalizing pools with
  | nil => rfl
  | cons j is ih =>
    rw [List.mem_cons, not_or] at hi
    obtain ⟨hij, hi⟩ := hi
    have hupd : Function.update pools j (pools j).pop.2 i = pools i := Function.update_of_ne hij _ _
    simp only [popFirst]
    split_ifs with h0
    · exact hupd
    · rw [ih hi, hupd]

theorem popFirst_blocksOf {is : List Nat} (hnd : is.Nodup) (pools : Nat → AllocateSlot) :
    (is.flatMap fun i => blocksOf (pools i)).Perm
      (given (popFirst pools is).1 ++ is.flatMap fun i => blocksOf ((popFirst pools is).2 i)) := by
  induction is generalizing pools with
  | nil => exact .refl _
  | cons i is ih =>
    obtain ⟨hi, hnd'⟩ := List.nodup_cons.mp hnd
    have hpop : ((i :: is).flatMap fun j => blocksOf (pools j)).Perm (given (pools i).pop.1 ++
        (i :: is).flatMap fun j => blocksOf (Function.update pools i (pools i).pop.2 j)) := by
      refine perm_flatMap_of_take hnd List.mem_cons_self (fun j hj => ?_) ?_
      · rw [Function.update_of_ne hj]
      · rw [Function.update_self]
        exact pop_blocksOf (pools i)
    refine hpop.trans ?_
    simp only [popFirst]
    split_ifs with h0
    · exact .refl _
    · have hnull : given (pools i).pop.1 = [] := by simp [given, not_not.mp h0]
      rw [hnull, List.nil_append, List.flatMap_cons, List.flatMap_cons, popFirst_of_not_mem hi]
      refine ((ih hnd' _).append_left _).trans ?_
      exact List.perm_append_comm_assoc _ _ _

theorem popFirst_mem {is : List Nat} {pools : Nat → AllocateSlot} {i : Nat} {p : VPointer}
    (h : p ∈ ((popFirst pools is).2 i).held) : p ∈ (pools i).held := by
  induction is generalizing pools with
  | nil => exact h
  | cons j is ih =>
    have hupd : p ∈ (Function.update pools j (pools j).pop.2 i).held → p ∈ (pools i).held := by
      intro hp
      by_cases hij : i = j
      · subst hij
        rw [Function.update_self] at hp
        exact pop_mem (List.mem_append_right _ hp)
      · rwa [Function.update_of_ne hij] at hp
    simp only [popFirst] at h
    split_ifs at h with h0
    · exact hupd h
    · exact hupd (ih h)

theorem popFirst_mem_of_ne {is : List Nat} {pools : Nat → AllocateSlot}
    (h : (popFirst pools is).1 ≠ 0) : ∃ i ∈ is, (popFirst pools is).1 ∈ (pools i).held := by
  induction is generalizing pools with
  | nil => exact absurd rfl h
  | cons j is ih =>
    simp only [popFirst] at h ⊢
    split_ifs at h ⊢ with h0
    · refine ⟨j, List.mem_cons_self, pop_mem (List.mem_append_left _ ?_)⟩
      simp [given, h0]
    · obtain ⟨i, hi, hp⟩ := ih h
      refine ⟨i, List.mem_cons_of_mem j hi, ?_⟩
      by_cases hij : i = j
      · subst hij
        rw [Function.update_self] at hp
        exact pop_mem (List.mem_append_right _ hp)
      · rwa [Function.update_of_ne hij] at hp

theorem pushFirst_spec {is : List Nat} {pools : Nat → AllocateSlot} {p : VPointer} :
    ((pushFirst pools p is).1 = true → ∃ i ∈ is, ((pushFirst pools p is).2 i).held =
        (pools i).held ++ [p] ∧ ∀ j, j ≠ i → (pushFirst pools p is).2 j = pools j) ∧
      ((pushFirst pools p is).1 = false → (pushFirst pools p is).2 = pools) := by
  induction is with
  | nil => exact ⟨by simp [pushFirst], fun _ => rfl⟩
  | cons i is ih =>
    simp only [pushFirst]
    obtain ⟨hdone, hfail⟩ := (pools i).push_held p
    split_ifs with hpush
    · refine ⟨fun _ => ⟨i, List.mem_cons_self, ?_, fun j hj => ?_⟩, by simp⟩
      · simp only [Function.update_self]
        exact hdone hpush
      · exact Function.update_of_ne hj _ _
    · have hsame : Function.update pools i ((pools i).push p).2 = pools := by
        rw [hfail (Bool.eq_false_iff.mpr hpush)]
        exact Function.update_eq_self i pools
      -- the pool that refused is unchanged, so the others are asked from the same pools
      rw [hsame]
      refine ⟨fun h => ?_, ih.2⟩
      obtain ⟨j, hj, hheld, hother⟩ := ih.1 h
      exact ⟨j, List.mem_cons_of_mem i hj, hheld, hother⟩

variable (pl : Platform) (m : AllocateManager)

def pooled : List VPointer := (m.held pl).filter (· ≠ 0)

theorem pooled_eq : m.pooled pl = (List.range maxSlot).flatMap fun k =>
    (List.range pl.maxThread).flatMap fun i => blocksOf (m.container k i) := by
  simp only [pooled, held, List.filter_flatMap]
  rfl

inductive Allocated (nSize : VUInt32) : VPointer → AllocateManager → Prop
  | reuse (k : Nat) (pools : Nat → AllocateSlot) (p : VPointer) (hk : findSlot nSize = some k)
      (hslot : k < maxSlot) (hp : p ≠ 0)
      (hmem : ∃ i ∈ List.range pl.maxThread, p ∈ (m.container k i).held)
      (hperm : (m.pooled pl).Perm (p :: (m.setPools k pools).pooled pl))
      (hsub : ∀ i q, q ∈ (pools i).held → q ∈ (m.container k i).held) :
      Allocated nSize p (m.setPools k pools)
  | malloc (k : Nat) (pools : Nat → AllocateSlot) (fails : Bool) (hk : findSlot nSize = some k)
      (hperm : (m.pooled pl).Perm ((m.setPools k pools).pooled pl))
      (hsub : ∀ i q, q ∈ (pools i).held → q ∈ (m.container k i).held) :
      Allocated nSize
        ((m.setPools k pools).malloc (if k < maxSlot then 2 ^ k else nSize.toNat) fails).1
        ((m.setPools k pools).malloc (if k < maxSlot then 2 ^ k else nSize.toNat) fails).2

inductive Released (p : VPointer) (nSize : VUInt32) : AllocateManager → Prop
  | keep (k i : Nat) (pools : Nat → AllocateSlot) (hk : findSlot nSize = some k)
      (hslot : k < maxSlot) (hheld : (pools i).held = (m.container k i).held ++ [p])
      (hother : ∀ j, j ≠ i → pools j = m.container k j)
      (hperm : ((m.setPools k pools).pooled pl).Perm (p :: m.pooled pl)) :
      Released p nSize (m.setPools k pools)
  | free : Released p nSize (m.free p)

variable {pl m}

theorem setPools_self (k : Nat) : m.setPools k (m.container k) = m := by
  rw [setPools, Function.update_eq_self]

theorem pooled_setPools {k : Nat} (hk : k < maxSlot) {pools : Nat → AllocateSlot}
    {as : List VPointer}
    (h : ((List.range pl.maxThread).flatMap fun i => blocksOf (m.container k i)).Perm
      (as ++ (List.range pl.maxThread).flatMap fun i => blocksOf (pools i))) :
    (m.pooled pl).Perm (as ++ (m.setPools k pools).pooled pl) := by
  rw [pooled_eq, pooled_eq]
  refine perm_flatMap_of_take List.nodup_range (List.mem_range.mpr hk) (fun j hj => ?_) ?_
  · simp only [setPools]
    rw [Function.update_of_ne hj]
  · simp only [setPools, Function.update_self]
    exact h

theorem allocated_of_allocate {nSize : VUInt32} {fails : Bool} {p : VPointer}
    {m' : AllocateManager} (h : m.allocate pl nSize fails = some (p, m')) :
    Allocated pl m nSize p m' := by
  obtain ⟨k, hk, h⟩ := Option.map_eq_some_iff.mp h
  by_cases hslot : k < maxSlot
  · rw [if_pos hslot] at h
    have hpop := popFirst_blocksOf (@List.nodup_range pl.maxThread) (m.container k)
    have hsub : ∀ i q, q ∈ ((popFirst (m.container k) (List.range pl.maxThread)).2 i).held →
        q ∈ (m.container k i).held := fun _ _ hq => popFirst_mem hq
    have hne := @popFirst_mem_of_ne (List.range pl.maxThread) (m.container k)
    generalize popFirst (m.container k) (List.range pl.maxThread) = r at h hpop hsub hne
    have hperm : (m.pooled pl).Perm (given r.1 ++ (m.setPools k r.2).pooled pl) :=
      pooled_setPools hslot hpop
    simp only at h
    split_ifs at h with h0
    · have hmalloc : Allocated pl m nSize _ _ :=
        .malloc k r.2 fails hk (by simpa [given, h0] using hperm) hsub
      rw [if_pos hslot, h] at hmalloc
      exact hmalloc
    · obtain ⟨rfl, rfl⟩ := Prod.mk.inj h
      exact .reuse k r.2 r.1 hk hslot h0 (hne h0) (by simpa [given, h0] using hperm) hsub
  · rw [if_neg hslot] at h
    have hmalloc : Allocated pl m nSize _ _ :=
      .malloc k (m.container k) fails hk (by rw [setPools_self]) fun _ _ hq => hq
    rw [if_neg hslot, setPools_self, h] at hmalloc
    exact hmalloc

theorem released_of_deAllocate {p : VPointer} (hp : p ≠ 0) {nSize : VUInt32}
    {m' : AllocateManager} (h : m.deAllocate pl p nSize = some m') : Released pl m p nSize m' := by
  rw [deAllocate, if_neg hp] at h
  obtain ⟨k, hk, h⟩ := Option.map_eq_some_iff.mp h
  by_cases hslot : k < maxSlot
  · rw [if_pos hslot] at h
    obtain ⟨hkeep, hfail⟩ := @pushFirst_spec (List.range pl.maxThread) (m.container k) p
    generalize pushFirst (m.container k) p (List.range pl.maxThread) = r at h hkeep hfail
    simp only at h
    split_ifs at h with hpush
    · obtain ⟨i, hi, hheld, hother⟩ := hkeep hpush
      subst h
      -- putting the old pools back takes the block out again
      have hback : (m.setPools k r.2).setPools k (m.container k) = m := by
        simp only [setPools, Function.update_idem, Function.update_eq_self]
      have hperm : ((m.setPools k r.2).pooled pl).Perm
          ([p] ++ ((m.setPools k r.2).setPools k (m.container k)).pooled pl) := by
        refine pooled_setPools hslot (perm_flatMap_of_take List.nodup_range hi (fun j hj => ?_) ?_)
        · simp only [setPools, Function.update_self]
          rw [hother j hj]
        · simp only [setPools, Function.update_self]
          rw [blocksOf, hheld, List.filter_append]
          simp only [List.filter_cons, hp, ne_eq, not_false_eq_true, decide_true, if_true]
          exact List.perm_append_comm
      rw [hback] at hperm
      exact .keep k i r.2 hk hslot hheld hother hperm
    · rw [hfail (Bool.eq_false_iff.mpr hpush), setPools_self] at h
      exact h ▸ .free
  · rw [if_neg hslot] at h
    exact h ▸ .free

def pointers (m : AllocateManager) : List VPointer := m.live.map Prod.fst

def ledger (pl : Platform) (m : AllocateManager) : List VPointer :=
  m.pooled pl ++ (m.pointers ++ m.frees)

structure Sound (pl : Platform) (m : AllocateManager) : Prop where
  nodup : (m.ledger pl).Nodup
  bound : ∀ p ∈ m.ledger pl, p ≤ m.blocks
  slot : ∀ k i, ∀ p ∈ (m.container k i).held, p ≠ 0 ∧ p ≤ m.blocks ∧ m.capacity p = 2 ^ k
  size : ∀ x ∈ m.live, x.1 ≠ 0 ∧
    ∃ k, findSlot x.2 = some k ∧ m.capacity x.1 = if k < maxSlot then 2 ^ k else x.2.toNat

theorem Sound.not_mem_pooled (h : Sound pl m) {p : VPointer} (hp : p ∈ m.pointers) :
    p ∉ m.pooled pl := by
  intro hmem
  exact (List.nodup_append.mp h.nodup).2.2 p hmem p (List.mem_append_left _ hp) rfl

theorem Sound.slot_sub (h : Sound pl m) {k : Nat} {pools : Nat → AllocateSlot}
    (hsub : ∀ i q, q ∈ (pools i).held → q ∈ (m.container k i).held) (j i : Nat) (p : VPointer)
    (hp : p ∈ ((m.setPools k pools).container j i).held) :
    p ≠ 0 ∧ p ≤ m.blocks ∧ m.capacity p = 2 ^ j := by
  by_cases hj : j = k
  · subst hj
    simp only [setPools, Function.update_self] at hp
    exact h.slot j i p (hsub i p hp)
  · simp only [setPools, Function.update_of_ne hj] at hp
    exact h.slot j i p hp

theorem hold_malloc (bytes : Nat) (nSize : VUInt32) :
    (m.malloc bytes false).2.hold (m.malloc bytes false).1 nSize =
      { (m.malloc bytes false).2 with live := (m.blocks + 1, nSize) :: m.live } :=
  if_neg (Nat.succ_ne_zero m.blocks)

theorem Sound.malloc (h : Sound pl m) {nSize : VUInt32} {k : Nat} (hk : findSlot nSize = some k) :
    let r := m.malloc (if k < maxSlot then 2 ^ k else nSize.toNat) false
    Sound pl (r.2.hold r.1 nSize) ∧
      (r.1 ≠ 0 → nSize.toNat ≤ r.2.capacity r.1 ∧ r.1 ∉ m.pointers) := by
  intro r
  -- blocks are numbered in order, so the ledger has none with the next number
  have hfresh : ∀ p ∈ m.ledger pl, p ≠ m.blocks + 1 := fun p hp =>
    Nat.ne_of_lt (Nat.lt_succ_of_le (h.bound p hp))
  have hcap : ∀ p, p ≤ m.blocks → r.2.capacity p = m.capacity p := fun p hp =>
    if_neg (Nat.ne_of_lt (Nat.lt_succ_of_le hp))
  have hself : r.2.capacity r.1 = if k < maxSlot then 2 ^ k else nSize.toNat := if_pos rfl
  have hhold : r.2.hold r.1 nSize = { r.2 with live := (r.1, nSize) :: m.live } :=
    hold_malloc _ nSize
  have hledger : ((r.2.hold r.1 nSize).ledger pl).Perm ((m.blocks + 1) :: m.ledger pl) := by
    rw [hhold]
    exact List.perm_middle
  refine ⟨⟨?_, fun p hp => ?_, fun j i p hp => ?_, fun x hx => ?_⟩, fun _ => ⟨?_, fun hlive => ?_⟩⟩
  · rw [hledger.nodup_iff, List.nodup_cons]
    exact ⟨fun hmem => hfresh _ hmem rfl, h.nodup⟩
  · rw [hhold]
    show p ≤ m.blocks + 1
    rcases List.mem_cons.mp (hledger.mem_iff.mp hp) with rfl | hp
    · exact Nat.le_refl _
    · exact Nat.le_succ_of_le (h.bound p hp)
  · rw [hhold] at hp ⊢
    obtain ⟨hp0, hle, hpcap⟩ := h.slot j i p hp
    exact ⟨hp0, Nat.le_succ_of_le hle, (hcap p hle).trans hpcap⟩
  · rw [hhold] at hx ⊢
    rcases List.mem_cons.mp hx with rfl | hx
    · exact ⟨Nat.succ_ne_zero _, k, hk, hself⟩
    · obtain ⟨hx0, j, hj, hxcap⟩ := h.size x hx
      have hmem : x.1 ∈ m.ledger pl :=
        List.mem_append_right _ (List.mem_append_left _ (List.mem_map_of_mem hx))
      exact ⟨hx0, j, hj, (hcap _ (h.bound _ hmem)).trans hxcap⟩
  · rw [hself]
    split_ifs
    · exact findSlot_spec hk
    · exact Nat.le_refl _
  · exact hfresh _ (List.mem_append_right _ (List.mem_append_left _ hlive)) rfl

theorem Sound.allocate (h : Sound pl m) {nSize : VUInt32} {p : VPointer} {m' : AllocateManager}
    (ha : Allocated pl m nSize p m') :
    Sound pl (m'.hold p nSize) ∧ (p ≠ 0 → nSize.toNat ≤ m'.capacity p ∧ p ∉ m.pointers) := by
  cases ha with
  | reuse k pools p hk hslot hp hmem hperm hsub =>
    obtain ⟨i, -, hi⟩ := hmem
    obtain ⟨-, hle, hcap⟩ := h.slot k i p hi
    have hledger : (((m.setPools k pools).hold p nSize).ledger pl).Perm (m.ledger pl) := by
      rw [hold, if_neg hp]
      refine List.perm_middle.trans ?_
      exact (hperm.append_right (m.pointers ++ m.frees)).symm
    have hpooled : p ∈ m.pooled pl := hperm.mem_iff.mpr List.mem_cons_self
    refine ⟨⟨hledger.nodup_iff.mpr h.nodup, fun q hq => ?_, ?_, ?_⟩, fun _ => ⟨?_, fun hlive => ?_⟩⟩
    · rw [hold, if_neg hp] at hledger hq
      rw [hold, if_neg hp]
      exact h.bound q (hledger.mem_iff.mp hq)
    · rw [hold, if_neg hp]
      exact h.slot_sub hsub
    · rw [hold, if_neg hp]
      intro x hx
      rcases List.mem_cons.mp hx with rfl | hx
      · exact ⟨hp, k, hk, by rw [if_pos hslot]; exact hcap⟩
      · exact h.size x hx
    · show nSize.toNat ≤ m.capacity p
      rw [hcap]
      exact findSlot_spec hk
    · exact h.not_mem_pooled hlive hpooled
  | malloc k pools fails hk hperm hsub =>
    have hledger : ((m.setPools k pools).ledger pl).Perm (m.ledger pl) :=
      hperm.symm.append_right (m.pointers ++ m.frees)
    have hkept : Sound pl (m.setPools k pools) :=
      ⟨hledger.nodup_iff.mpr h.nodup, fun q hq => h.bound q (hledger.mem_iff.mp hq),
        h.slot_sub hsub, h.size⟩
    cases fails with
    | true => exact ⟨hkept, fun hp => absurd rfl hp⟩
    | false => exact hkept.malloc hk

theorem free_of_ne {p : VPointer} (hp : p ≠ 0) : m.free p = { m with frees := m.frees ++ [p] } :=
  if_neg hp

theorem ledger_free {p : VPointer} (hp : p ≠ 0) :
    ((m.free p).ledger pl).Perm (p :: m.ledger pl) := by
  have hfrees : (m.pointers ++ (m.frees ++ [p])).Perm (p :: (m.pointers ++ m.frees)) := by
    rw [← List.append_assoc]
    exact List.perm_append_singleton p _
  rw [free_of_ne hp]
  exact (hfrees.append_left (m.pooled pl)).trans List.perm_middle

def Settled (pl : Platform) (m : AllocateManager) (p : VPointer) (m' : AllocateManager) : Prop :=
  ((m'.pooled pl).count p = 1 ∧ m'.frees = m.frees) ∨
    (p ∉ m'.pooled pl ∧ p ∉ m.frees ∧ m'.frees = m.frees ++ [p])

theorem Sound.release (h : Sound pl m) {p : VPointer} {nSize : VUInt32}
    (hlive : (p, nSize) ∈ m.live) {m' : AllocateManager}
    (hr : Released pl { m with live := m.live.erase (p, nSize) } p nSize m') :
    Sound pl m' ∧ Settled pl m p m' := by
  obtain ⟨hp, k, hk, hcap⟩ := h.size _ hlive
  have hle : p ≤ m.blocks :=
    h.bound p (List.mem_append_right _ (List.mem_append_left _ (List.mem_map_of_mem hlive)))
  have hsize : ∀ x ∈ m.live.erase (p, nSize), x ∈ m.live := fun x hx => List.mem_of_mem_erase hx
  -- the caller has let go: the block is nowhere in the ledger until it is put back
  generalize hm0 : { m with live := m.live.erase (p, nSize) } = m0 at hr
  have hpointers : m.pointers.Perm (p :: m0.pointers) := by
    subst hm0
    exact (List.perm_cons_erase hlive).map Prod.fst
  have hledger : (m.ledger pl).Perm (p :: m0.ledger pl) := by
    subst hm0
    exact ((hpointers.append_right _).append_left _).trans List.perm_middle
  have hnot : p ∉ m0.ledger pl := (List.nodup_cons.mp (hledger.nodup_iff.mp h.nodup)).1
  have hnotPooled : p ∉ m0.pooled pl := fun hmem => hnot (List.mem_append_left _ hmem)
  have hnotFrees : p ∉ m0.frees := fun hmem =>
    hnot (List.mem_append_right _ (List.mem_append_right _ hmem))
  subst hm0
  cases hr with
  | keep k' i pools hk' hslot hheld hother hperm =>
    -- the size given back is the size asked for, so it is the slot the block came from
    obtain rfl : k = k' := Option.some.inj (hk.symm.trans hk')
    rw [if_pos hslot] at hcap
    have hledger' := (hperm.append_right _).trans hledger.symm
    refine ⟨⟨hledger'.nodup_iff.mpr h.nodup, fun q hq => h.bound q (hledger'.mem_iff.mp hq),
      fun j l q hq => ?_, fun x hx => h.size x (hsize x hx)⟩, .inl ⟨?_, rfl⟩⟩
    · by_cases hj : j = k
      · subst hj
        simp only [setPools, Function.update_self] at hq
        by_cases hl : l = i
        · subst hl
          rw [hheld] at hq
          rcases List.mem_append.mp hq with hq | hq
          · exact h.slot j l q hq
          · rw [List.mem_singleton.mp hq]
            exact ⟨hp, hle, hcap⟩
        · rw [hother l hl] at hq
          exact h.slot j l q hq
      · simp only [setPools, Function.update_of_ne hj] at hq
        exact h.slot j l q hq
    · rw [hperm.count_eq, List.count_cons_self, List.count_eq_zero_of_not_mem hnotPooled]
  | free =>
    have hledger' := (ledger_free hp).trans hledger.symm
    rw [free_of_ne hp] at hledger' ⊢
    exact ⟨⟨hledger'.nodup_iff.mpr h.nodup, fun q hq => h.bound q (hledger'.mem_iff.mp hq),
      h.slot, fun x hx => h.size x (hsize x hx)⟩, .inr ⟨hnotPooled, hnotFrees, rfl⟩⟩

theorem held_start_new (uninit : Nat → VPointer) (k i : Nat) :
    (((new uninit).start pl).container k i).held = [] := by
  simp only [start, new, SafeRingBuffer.setSize, SafeRingBuffer.new]
  split_ifs <;> rfl

theorem sound_start (uninit : Nat → VPointer) : Sound pl ((new uninit).start pl) := by
  have hledger : ((new uninit).start pl).ledger pl = [] := by
    have hheld : ((new uninit).start pl).held pl = [] := by simp [held, held_start_new]
    rw [ledger, pooled, hheld]
    rfl
  refine ⟨?_, fun p hp => ?_, fun k i p hp => ?_, fun x hx => ?_⟩
  · rw [hledger]
    exact List.nodup_nil
  · simp [hledger] at hp
  · simp [held_start_new] at hp
  · simp [start, new] at hx

def Event.isCall : Event → Bool
  | .allocate _ _ => true
  | .deAllocate _ _ => true
  | _ => false

theorem Sound.step (h : Sound pl m) {e : Event} (he : e.isCall = true) {m' : AllocateManager}
    (hstep : step pl m e = some m') : Sound pl m' := by
  cases e with
  | start => simp [Event.isCall] at he
  | stop => simp [Event.isCall] at he
  | allocate nSize fails =>
    obtain ⟨⟨p, m1⟩, ha, rfl⟩ := Option.map_eq_some_iff.mp hstep
    exact (h.allocate (allocated_of_allocate ha)).1
  | deAllocate p nSize =>
    obtain ⟨hlive, hr⟩ := by simpa [AllocateManager.step] using hstep
    exact (h.release hlive (released_of_deAllocate (h.size _ hlive).1 hr)).1

theorem sound_of_exec {uninit : Nat → VPointer} {es : List Event} {m : AllocateManager}
    (hes : ∀ e ∈ es, e.isCall = true)
    (h : exec (AllocateManager.step pl) ((new uninit).start pl) es = some m) : Sound pl m := by
  have hrun : (∀ e ∈ es, e.isCall = true) → Sound pl m := by
    refine exec_induction (P := fun es m => (∀ e ∈ es, e.isCall = true) → Sound pl m)
      (fun _ => sound_start uninit) (fun es m e m' ih hstep hes => ?_) h
    have hm : Sound pl m := ih fun e he => hes e (List.mem_append_left _ he)
    exact hm.step (hes e (by simp)) hstep
  exact hrun hes

/-- After one `Start`, whatever is allocated and given back: no block is in two places, the pools
keep blocks of their own size, and each call does what it should. -/
theorem allocator_run {uninit : Nat → VPointer} {es : List Event} {m : AllocateManager}
    (hes : ∀ e ∈ es, e.isCall = true)
    (h : exec (AllocateManager.step pl) ((new uninit).start pl) es = some m) :
    (m.pooled pl).Nodup ∧ m.frees.Nodup ∧ (∀ p ∈ m.pointers, p ∉ m.pooled pl) ∧
      (∀ k i, ∀ p ∈ (m.container k i).held, m.capacity p = 2 ^ k) ∧
      (∀ nSize fails, nSize.toNat ≤ 2 ^ 31 → ∃ p m', m.allocate pl nSize fails = some (p, m') ∧
        (p ≠ 0 → nSize.toNat ≤ m'.capacity p ∧ p ∉ m.pointers)) ∧
      (∀ p nSize, (p, nSize) ∈ m.live → ∃ m',
        AllocateManager.step pl m (.deAllocate p nSize) = some m' ∧ Settled pl m p m') := by
  have hm : Sound pl m := sound_of_exec hes h
  obtain ⟨hpooled, hrest, -⟩ := List.nodup_append.mp hm.nodup
  refine ⟨hpooled, (List.nodup_append.mp hrest).2.1, fun p hp => hm.not_mem_pooled hp,
    fun k i p hp => (hm.slot k i p hp).2.2, fun nSize fails hle => ?_, fun p nSize hlive => ?_⟩
  · obtain ⟨k, hk⟩ := exists_findSlot hle
    obtain ⟨⟨p, m'⟩, ha⟩ : ∃ r, m.allocate pl nSize fails = some r := by
      rw [allocate, hk]
      exact ⟨_, rfl⟩
    exact ⟨p, m', ha, (hm.allocate (allocated_of_allocate ha)).2⟩
  · obtain ⟨hp, k, hk, -⟩ := hm.size _ hlive
    obtain ⟨m', hr⟩ : ∃ m', deAllocate pl { m with live := m.live.erase (p, nSize) } p nSize =
        some m' := by
      rw [deAllocate, if_neg hp, hk]
      exact ⟨_, rfl⟩
    exact ⟨m', (if_pos hlive).trans hr, (hm.release hlive (released_of_deAllocate hp hr)).2⟩

/-- A small block goes back to a pool, and one too large for the pools is freed. -/
theorem allocator_run_two :
    ∃ m, exec (AllocateManager.step .win32) ((new fun _ => 0).start .win32)
        [.allocate 5 false, .allocate 70000 false, .deAllocate 1 5, .deAllocate 2 70000] = some m ∧
      m.frees = [2] ∧ (m.pooled .win32).Nodup ∧
      ∀ k i, ∀ p ∈ (m.container k i).held, m.capacity p = 2 ^ k := by
  obtain ⟨m, h, hfrees⟩ : ∃ m, exec (AllocateManager.step .win32) ((new fun _ => 0).start .win32)
      [.allocate 5 false, .allocate 70000 false, .deAllocate 1 5, .deAllocate 2 70000] = some m ∧
      m.frees = [2] := ⟨_, rfl, rfl⟩
  have hrun := allocator_run (by decide) h
  exact ⟨m, h, hfrees, hrun.1, hrun.2.2.2.1⟩

end VChat.AllocateManager
