import Mathlib.Data.BitVec
import VChat.Listing.LastWritten

/-! The stack that overwrites its oldest value when it is full. -/

namespace VChat
open Listing

/-- `N` cells, and the number of values pushed since the last reset as a word of the width of
`size_t`. -/
structure VCircularStack (T : Type) {w : Nat} (N : BitVec w) where
  datas : Nat → T
  index : BitVec w

namespace VCircularStack
variable {T : Type} {w : Nat} {N : BitVec w}

/-- `std::copy` of `datas[first]` up to `datas[last]` to `data_ + offset`. -/
def copy (datas : Nat → T) (first last : Nat) (data_ : Nat → T) (offset : Nat) :
    Nat → T := fun i =>
  if offset ≤ i ∧ i < offset + (last - first) then datas (first + (i - offset)) else data_ i

/-- The constructor leaves the cells as they are. -/
def new (datas : Nat → T) : VCircularStack T N := ⟨datas, 0⟩

def pushBack (s : VCircularStack T N) (t : T) : VCircularStack T N :=
  ⟨Function.update s.datas (s.index % N).toNat t, s.index + 1⟩

def clear (s : VCircularStack T N) : VCircularStack T N := { s with index := 0 }

/-- Returns the number of values, with the caller's array and the stack after the call. -/
def get (s : VCircularStack T N) (data_ : Nat → T) (bReset : Bool) :
    (BitVec w × (Nat → T)) × VCircularStack T N :=
  let r :=
    if N ≤ s.index then
      let index := s.index % N
      let data_ := copy s.datas index.toNat N.toNat data_ 0
      let data_ :=
        if 0 < index then copy s.datas 0 index.toNat data_ (N - index).toNat else data_
      (N, data_, index)
    else if 0 < s.index then (s.index, copy s.datas 0 s.index.toNat data_ 0, s.index)
    else (0, data_, s.index)
  ((r.1, r.2.1), ⟨s.datas, if bReset then 0 else r.2.2⟩)

inductive Call (T : Type)
  | pushBack (t : T)
  | clear
  | get (data_ : Nat → T) (bReset : Bool)

def step (s : VCircularStack T N) : Call T → VCircularStack T N
  | .pushBack t => s.pushBack t
  | .clear => s.clear
  | .get data_ bReset => (s.get data_ bReset).2

def answers : VCircularStack T N → List (Call T) → List (BitVec w × (Nat → T))
  | _, [] => []
  | s, .pushBack t :: cs => answers (s.pushBack t) cs
  | s, .clear :: cs => answers s.clear cs
  | s, .get data_ bReset :: cs => (s.get data_ bReset).1 :: answers (s.get data_ bReset).2 cs

def Call.observes : Call T → Bool
  | .get _ bReset => !bReset
  | _ => false

def Call.record (ys : List T) : Call T → List T
  | .pushBack t => ys ++ [t]
  | _ => []

def pushed (cs : List (Call T)) : List T := cs.foldl Call.record []

variable {s : VCircularStack T N}

@[simp] theorem copy_none (datas data_ : Nat → T) (first offset : Nat) :
    copy datas first first data_ offset = data_ := by
  funext i
  rw [copy, if_neg (by omega)]

theorem copy_first (datas data_ : Nat → T) (last : Nat) :
    copy datas 0 last data_ 0 = fun i => if i < last then datas i else data_ i := by
  funext i
  simp [copy]

theorem copy_copy (datas data_ : Nat → T) {first last : Nat} (h : first < last) :
    copy datas 0 first (copy datas first last data_ 0) (last - first) =
      fun i => if i < last then datas ((first + i) % last) else data_ i := by
  funext i
  simp only [copy]
  rcases Nat.lt_or_ge i (last - first) with hi | hi
  · have hmod : (first + i) % last = first + i := Nat.mod_eq_of_lt (by omega)
    rw [if_neg (by omega), if_pos (by omega), if_pos (by omega), hmod, Nat.sub_zero]
  · rcases Nat.lt_or_ge i last with hlast | hlast
    · have hmod : (first + i) % last = 0 + (i - (last - first)) := by
        rw [Nat.mod_eq_sub_mod (by omega), Nat.mod_eq_of_lt (by omega)]
        omega
      rw [if_pos (by omega), if_pos hlast, hmod]
    · rw [if_neg (by omega), if_neg (by omega), if_neg (by omega)]

theorem get_of_le (hN : 0 < N.toNat) (h : N ≤ s.index) (data_ : Nat → T) (bReset : Bool) :
    s.get data_ bReset = ((N, fun i => if i < N.toNat then
      s.datas ((s.index.toNat + i) % N.toNat) else data_ i),
      ⟨s.datas, if bReset then 0 else s.index % N⟩) := by
  have hr : (s.index % N).toNat < N.toNat := by
    rw [BitVec.toNat_umod]
    exact Nat.mod_lt _ hN
  have hsub : (N - s.index % N).toNat = N.toNat - (s.index % N).toNat :=
    BitVec.toNat_sub_of_le (Nat.le_of_lt hr)
  have hcell : ∀ i, ((s.index % N).toNat + i) % N.toNat = (s.index.toNat + i) % N.toNat := by
    intro i
    rw [BitVec.toNat_umod, Nat.mod_add_mod]
  have hrotate := copy_copy s.datas data_ hr
  have hpieces : (if 0 < s.index % N then copy s.datas 0 (s.index % N).toNat
        (copy s.datas (s.index % N).toNat N.toNat data_ 0) (N.toNat - (s.index % N).toNat)
      else copy s.datas (s.index % N).toNat N.toNat data_ 0) = fun i =>
        if i < N.toNat then s.datas ((s.index.toNat + i) % N.toNat) else data_ i := by
    simp only [hcell] at hrotate
    split_ifs with hpos
    · exact hrotate
    · have hzero : (s.index % N).toNat = 0 := Nat.eq_zero_of_not_pos hpos
      rw [hzero, copy_none] at hrotate
      rwa [hzero]
  simp only [get, if_pos h, hsub, hpieces]

theorem get_of_lt (h : s.index < N) (data_ : Nat → T) (bReset : Bool) :
    s.get data_ bReset = ((s.index, fun i => if i < s.index.toNat then s.datas i else data_ i),
      ⟨s.datas, if bReset then 0 else s.index⟩) := by
  have hle : ¬ N ≤ s.index := BitVec.not_le.mpr h
  by_cases hpos : 0 < s.index
  · simp only [get, if_neg hle, if_pos hpos, copy_first]
  · have hzero : s.index = 0 := BitVec.eq_of_toNat_eq (Nat.eq_zero_of_not_pos hpos)
    simp only [get, if_neg hle, if_neg hpos]
    simp [hzero]

structure Tracks (s : VCircularStack T N) (ys : List T) : Prop where
  index : s.index = BitVec.ofNat w ys.length
  holds : ys.length ≤ 2 ^ w → Holds N.toNat s.datas ys

theorem tracks_nil {s : VCircularStack T N} (h : s.index = 0) : Tracks s [] :=
  ⟨h, fun _ => holds_nil⟩

theorem Tracks.toNat_index {ys : List T} (h : Tracks s ys) (hlt : ys.length < 2 ^ w) :
    s.index.toNat = ys.length := by
  rw [h.index, BitVec.toNat_ofNat, Nat.mod_eq_of_lt hlt]

theorem Tracks.pushBack {ys : List T} (h : Tracks s ys) (t : T) :
    Tracks (s.pushBack t) (ys ++ [t]) := by
  constructor
  · rw [VCircularStack.pushBack, h.index, List.length_append, List.length_singleton,
      BitVec.ofNat_add]
    rfl
  · intro hle
    rw [List.length_append, List.length_singleton] at hle
    have hcell : (s.index % N).toNat = ys.length % N.toNat := by
      rw [BitVec.toNat_umod, h.toNat_index hle]
    rw [VCircularStack.pushBack, hcell]
    exact (h.holds (Nat.le_of_succ_le hle)).concat t

theorem Tracks.step {ys : List T} (h : Tracks s ys) {c : Call T} (hc : c.observes = false) :
    Tracks (s.step c) (c.record ys) := by
  cases c with
  | pushBack t => exact h.pushBack t
  | clear => exact tracks_nil rfl
  | get data_ bReset =>
    obtain rfl : bReset = true := by simpa [Call.observes] using hc
    exact tracks_nil rfl

theorem tracks_run (dirty : Nat → T) {cs : List (Call T)} (hcs : ∀ c ∈ cs, c.observes = false) :
    Tracks (cs.foldl step (new dirty) : VCircularStack T N) (pushed cs) :=
  List.foldl_rel (r := Tracks) (tracks_nil rfl) fun c hc _ _ h => h.step (hcs c hc)

/-- Whatever was called before, `get` copies the values pushed since the last reset, the last `N`
of them if there are more, oldest first, and leaves the stack empty. -/
theorem get_keeps_last (hN : 0 < N.toNat) (dirty : Nat → T) {cs : List (Call T)}
    (hcs : ∀ c ∈ cs, c.observes = false) (hk : (pushed cs).length < 2 ^ w) (data_ : Nat → T) :
    let s : VCircularStack T N := cs.foldl step (new dirty)
    let r := s.get data_ true
    r.1.1.toNat = min (pushed cs).length N.toNat ∧
      (List.range r.1.1.toNat).map r.1.2 = (pushed cs).rtake N.toNat ∧
      (∀ i, r.1.1.toNat ≤ i → r.1.2 i = data_ i) ∧ r.2 = s.clear := by
  intro s r
  have htracks : Tracks s (pushed cs) := tracks_run dirty hcs
  have hindex : s.index.toNat = (pushed cs).length := htracks.toNat_index hk
  have hholds := htracks.holds (Nat.le_of_lt hk)
  rcases Nat.lt_or_ge (pushed cs).length N.toNat with hlt | hle
  · have hget : r = _ := get_of_lt (BitVec.lt_def.mpr (hindex ▸ hlt)) data_ true
    rw [hget, hindex, ← hholds.rtake_of_lt hlt]
    refine ⟨(Nat.min_eq_left (Nat.le_of_lt hlt)).symm, List.map_congr_left fun i hi => ?_,
      fun i hi => if_neg (Nat.not_lt.mpr hi), rfl⟩
    exact if_pos (List.mem_range.mp hi)
  · have hget : r = _ := get_of_le hN (BitVec.le_def.mpr (hindex ▸ hle)) data_ true
    rw [hget, hindex, ← hholds.rtake_of_le hle]
    refine ⟨(Nat.min_eq_right hle).symm, List.map_congr_left fun i hi => ?_,
      fun i hi => if_neg (Nat.not_lt.mpr hi), rfl⟩
    exact if_pos (List.mem_range.mp hi)

/-- Four values into three cells. -/
theorem get_keeps_last_three :
    let s : VCircularStack Nat 3#64 :=
      [.pushBack 1, .pushBack 2, .pushBack 3, .pushBack 4].foldl step (new fun _ => 9)
    let r := s.get (fun _ => 0) true
    r.1.1.toNat = 3 ∧ (List.range r.1.1.toNat).map r.1.2 = [2, 3, 4] := by
  intro s r
  obtain ⟨hcount, hvalues, -, -⟩ := @get_keeps_last Nat 64 3#64 (by decide) (fun _ => 9)
    [.pushBack 1, .pushBack 2, .pushBack 3, .pushBack 4] (by simp [Call.observes]) (by decide)
    (fun _ => 0)
  exact ⟨hcount, hvalues⟩

structure Behind (s s' : VCircularStack T N) : Prop where
  datas : s'.datas = s.datas
  full : N.toNat ≤ s.index.toNat
  le : s'.index.toNat ≤ s.index.toNat
  mod : s'.index.toNat % N.toNat = s.index.toNat % N.toNat

def pushesFirst : List (Call T) → Nat
  | .pushBack _ :: cs => pushesFirst cs + 1
  | _ => 0

def GetsNext : List (Call T) → Prop
  | .pushBack _ :: cs => GetsNext cs
  | .get _ _ :: _ => True
  | _ => False

theorem toNat_succ {x : BitVec w} (h : x.toNat + 1 < 2 ^ w) : (x + 1).toNat = x.toNat + 1 := by
  have hone : (1 : BitVec w).toNat = 1 % 2 ^ w := BitVec.toNat_ofNat 1 w
  rw [BitVec.toNat_add, hone, Nat.add_mod_mod, Nat.mod_eq_of_lt h]

theorem Behind.pushBack {s s' : VCircularStack T N} (h : Behind s s') (t : T)
    (hlt : s.index.toNat + 1 < 2 ^ w) : Behind (s.pushBack t) (s'.pushBack t) := by
  have hcell : (s'.index % N).toNat = (s.index % N).toNat := by
    rw [BitVec.toNat_umod, BitVec.toNat_umod, h.mod]
  have hindex : (s.pushBack t).index.toNat = s.index.toNat + 1 := toNat_succ hlt
  have hindex' : (s'.pushBack t).index.toNat = s'.index.toNat + 1 :=
    toNat_succ (Nat.lt_of_le_of_lt (Nat.succ_le_succ h.le) hlt)
  refine ⟨?_, ?_, ?_, ?_⟩
  · simp only [VCircularStack.pushBack, h.datas, hcell]
  · rw [hindex]
    exact Nat.le_succ_of_le h.full
  · rw [hindex, hindex']
    exact Nat.succ_le_succ h.le
  · rw [hindex, hindex', Nat.add_mod, h.mod, ← Nat.add_mod]

theorem Behind.get {s s' : VCircularStack T N} (hN : 0 < N.toNat) (h : Behind s s')
    (hfull : N.toNat ≤ s'.index.toNat) (data_ : Nat → T) (bReset : Bool) :
    s'.get data_ bReset = s.get data_ bReset := by
  have hmod : s'.index % N = s.index % N := BitVec.eq_of_toNat_eq (by
    rw [BitVec.toNat_umod, BitVec.toNat_umod, h.mod])
  have hcell : ∀ i, (s'.index.toNat + i) % N.toNat = (s.index.toNat + i) % N.toNat := by
    intro i
    rw [Nat.add_mod, h.mod, ← Nat.add_mod]
  rw [get_of_le hN (BitVec.le_def.mpr hfull), get_of_le hN (BitVec.le_def.mpr h.full), h.datas,
    hmod]
  simp only [hcell]

theorem Behind.get_ne {s s' : VCircularStack T N} (hN : 0 < N.toNat) (h : Behind s s')
    (hpart : s'.index.toNat < N.toNat) (data_ : Nat → T) (bReset : Bool) :
    (s'.get data_ bReset).1 ≠ (s.get data_ bReset).1 := by
  rw [get_of_lt (BitVec.lt_def.mpr hpart), get_of_le hN (BitVec.le_def.mpr h.full)]
  intro heq
  have hcount : s'.index = N := congrArg Prod.fst heq
  exact Nat.lt_irrefl _ (hcount ▸ hpart)

theorem Behind.answers_iff (hN : 0 < N.toNat) (cs : List (Call T)) {s s' : VCircularStack T N}
    (h : Behind s s') (hlt : s.index.toNat + pushesFirst cs < 2 ^ w) :
    s'.answers cs = s.answers cs ↔
      (GetsNext cs → N.toNat ≤ s'.index.toNat + pushesFirst cs) := by
  induction cs generalizing s s' with
  | nil => exact iff_of_true rfl fun h => h.elim
  | cons c cs ih =>
    cases c with
    | pushBack t =>
      have hpush : s.index.toNat + 1 + pushesFirst cs < 2 ^ w := by
        rw [pushesFirst] at hlt
        omega
      have hlt' : s.index.toNat + 1 < 2 ^ w := Nat.lt_of_le_of_lt (Nat.le_add_right _ _) hpush
      have hindex' : (s'.pushBack t).index.toNat = s'.index.toNat + 1 :=
        toNat_succ (Nat.lt_of_le_of_lt (Nat.succ_le_succ h.le) hlt')
      have hindex : (s.pushBack t).index.toNat = s.index.toNat + 1 := toNat_succ hlt'
      have hcs := ih (h.pushBack t hlt') (hindex ▸ hpush)
      rw [hindex', Nat.add_assoc, Nat.add_comm 1] at hcs
      exact hcs
    | clear =>
      have hclear : s'.clear = s.clear := by
        rw [VCircularStack.clear, VCircularStack.clear, h.datas]
      exact iff_of_true (by rw [answers, answers, hclear]) fun h => h.elim
    | get data_ bReset =>
      simp only [answers, pushesFirst, GetsNext, forall_const, Nat.add_zero]
      rcases Nat.lt_or_ge s'.index.toNat N.toNat with hpart | hfull
      · refine iff_of_false (fun heq => ?_) (Nat.not_le.mpr hpart)
        exact h.get_ne hN hpart data_ bReset (List.cons.inj heq).1
      · exact iff_of_true (by rw [h.get hN hfull]) hfull

theorem snd_get_false (h : s.index < N) (data_ : Nat → T) : (s.get data_ false).2 = s := by
  rw [get_of_lt h]
  rfl

theorem behind_get_false (hN : 0 < N.toNat) (h : N ≤ s.index) (data_ : Nat → T) :
    Behind s (s.get data_ false).2 := by
  have hindex : (s.get data_ false).2.index.toNat = s.index.toNat % N.toNat := by
    rw [get_of_le hN h]
    exact BitVec.toNat_umod
  refine ⟨rfl, BitVec.le_def.mp h, ?_, ?_⟩
  · rw [hindex]
    exact Nat.mod_le _ _
  · rw [hindex, Nat.mod_mod]

/-- A `get` that does not reset goes unnoticed exactly while the stack has not been filled: in any
continuation, and when it is called twice. Where the index does not wrap, the continuations that do
not notice it are those that come to no `get` before a `clear`, or first fill the stack again. -/
theorem get_observes_iff (hN : 0 < N.toNat) (s : VCircularStack T N) (data_ : Nat → T) :
    ((∀ cs, (s.get data_ false).2.answers cs = s.answers cs) ↔ s.index < N) ∧
      (((s.get data_ false).2.get data_ false).1 = (s.get data_ false).1 ↔ s.index < N) ∧
      ∀ cs, s.index.toNat + pushesFirst cs < 2 ^ w →
        ((s.get data_ false).2.answers cs = s.answers cs ↔ s.index < N ∨
          (GetsNext cs → N.toNat ≤ s.index.toNat % N.toNat + pushesFirst cs)) := by
  rcases Nat.lt_or_ge s.index.toNat N.toNat with hlt | hle
  · have hsame : (s.get data_ false).2 = s := snd_get_false hlt data_
    refine ⟨iff_of_true (fun cs => ?_) hlt, iff_of_true ?_ hlt, fun cs _ => ?_⟩
    · rw [hsame]
    · rw [hsame]
    · rw [hsame]
      exact iff_of_true rfl (.inl hlt)
  · have hbehind : Behind s (s.get data_ false).2 := behind_get_false hN hle data_
    have hindex : (s.get data_ false).2.index.toNat = s.index.toNat % N.toNat := by
      rw [get_of_le hN hle]
      exact BitVec.toNat_umod
    have hpart : (s.get data_ false).2.index.toNat < N.toNat := hindex ▸ Nat.mod_lt _ hN
    have hne := hbehind.get_ne hN hpart data_ false
    have hnot : ¬ s.index < N := Nat.not_lt.mpr hle
    refine ⟨iff_of_false (fun h => ?_) hnot, iff_of_false hne hnot, fun cs hcs => ?_⟩
    · exact hne (List.cons.inj (h [.get data_ false])).1
    · rw [hbehind.answers_iff hN cs hcs, or_iff_right hnot, hindex]

/-- A full stack of two: the first `get` returns both values, the second none. -/
theorem not_get_observes_full :
    let s : VCircularStack Nat 2#64 := [.pushBack 1, .pushBack 2].foldl step (new fun _ => 0)
    (s.get (fun _ => 0) false).1.1 = 2 ∧
      ((s.get (fun _ => 0) false).2.get (fun _ => 0) false).1.1 = 0 ∧
      ¬ ∀ cs, (s.get (fun _ => 0) false).2.answers cs = s.answers cs := by
  refine ⟨by decide, by decide, fun h => ?_⟩
  have hcount := congrArg (List.map fun r => r.1) (h [.get (fun _ => 0) false])
  exact absurd hcount (by decide)

/-- A stack of two of which one place is filled. -/
theorem get_observes_of_part :
    let s : VCircularStack Nat 2#64 := (new fun _ => 0).step (.pushBack 1)
    (s.get (fun _ => 0) false).1.1 = 1 ∧
      ∀ cs, (s.get (fun _ => 0) false).2.answers cs = s.answers cs := by
  intro s
  exact ⟨by decide, (get_observes_iff (by decide) s fun _ => 0).1.mpr (by decide)⟩

end VCircularStack
end VChat
