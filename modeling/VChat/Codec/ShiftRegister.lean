import VChat.Codec.LittleEndian
import Mathlib.Logic.Function.Iterate

/-! A shift register with feedback, fed a byte at a time, over words of any width. -/

namespace VChat.Codec.ShiftRegister

variable {w : Nat}

/-- Shift right by one, and xor the key in when the bit shifted out was 1. -/
def step (key c : BitVec w) : BitVec w := if c.getLsbD 0 then key ^^^ (c >>> 1) else c >>> 1

def feed (key c : BitVec w) (b : BitVec 8) : BitVec w := (step key)^[8] (c ^^^ b.setWidth w)

def run (key : BitVec w) : BitVec w → List (BitVec 8) → BitVec w := List.foldl (feed key)

variable (key : BitVec w)

@[simp] theorem step_zero : step key 0#w = 0#w := by simp [step]

theorem step_xor (c d : BitVec w) : step key (c ^^^ d) = step key c ^^^ step key d := by
  apply BitVec.eq_of_getLsbD_eq
  intro i _
  unfold step
  rw [BitVec.getLsbD_xor]
  cases hc : c.getLsbD 0 <;> cases hd : d.getLsbD 0 <;>
    simp only [Bool.xor_true, Bool.xor_false, Bool.not_true, Bool.not_false, Bool.false_eq_true,
      if_true, if_false, BitVec.getLsbD_xor, BitVec.getLsbD_ushiftRight]
  · rw [Bool.xor_left_comm]
  · rw [Bool.xor_assoc]
  · cases key.getLsbD i <;> cases c.getLsbD (1 + i) <;> cases d.getLsbD (1 + i) <;> rfl

theorem step_iterate_xor (n : Nat) (c d : BitVec w) :
    (step key)^[n] (c ^^^ d) = (step key)^[n] c ^^^ (step key)^[n] d := by
  induction n generalizing c d with
  | zero => rfl
  | succ n ih =>
    simp only [Function.iterate_succ_apply]
    rw [step_xor, ih]

theorem step_iterate_of_low {n : Nat} {c : BitVec w} (h : ∀ i < n, c.getLsbD i = false) :
    (step key)^[n] c = c >>> n := by
  induction n generalizing c with
  | zero => exact (BitVec.ushiftRight_zero c).symm
  | succ n ih =>
    have hstep : step key c = c >>> 1 := by
      rw [step, h 0 (Nat.succ_pos n)]
      rfl
    have hlow : ∀ i < n, (c >>> 1).getLsbD i = false := by
      intro i hi
      rw [BitVec.getLsbD_ushiftRight]
      exact h (1 + i) (by omega)
    rw [Function.iterate_succ_apply, hstep, ih hlow, ← BitVec.shiftRight_add, Nat.add_comm]

theorem step_iterate_split (c : BitVec w) :
    (step key)^[8] c = (step key)^[8] ((c.setWidth 8).setWidth w) ^^^ (c >>> 8) := by
  have hlow : ∀ i < 8, (c ^^^ (c.setWidth 8).setWidth w).getLsbD i = false := by
    intro i hi
    rw [BitVec.getLsbD_xor, BitVec.getLsbD_setWidth, BitVec.getLsbD_setWidth]
    by_cases hw : i < w
    · simp [hi, hw]
    · simp [hw, BitVec.getLsbD_of_ge c i (by omega)]
  have hrest : (c ^^^ (c.setWidth 8).setWidth w) >>> 8 = c >>> 8 := by
    apply BitVec.eq_of_getLsbD_eq
    intro i _
    simp only [BitVec.getLsbD_ushiftRight, BitVec.getLsbD_xor, BitVec.getLsbD_setWidth,
      show ¬ 8 + i < 8 by omega]
    simp
  have hc : c = (c.setWidth 8).setWidth w ^^^ (c ^^^ (c.setWidth 8).setWidth w) := by
    rw [BitVec.xor_comm c, ← BitVec.xor_assoc, BitVec.xor_self, BitVec.zero_xor]
  calc (step key)^[8] c
      = (step key)^[8] ((c.setWidth 8).setWidth w ^^^ (c ^^^ (c.setWidth 8).setWidth w)) := by
        rw [← hc]
    _ = (step key)^[8] ((c.setWidth 8).setWidth w) ^^^ (c >>> 8) := by
        rw [step_iterate_xor, step_iterate_of_low key hlow, hrest]

/-- The word the register steps to zero from when the top bit of its key is clear. -/
def kernel : BitVec w := key <<< 1 ||| 1

theorem shift_back {c : BitVec w} (h : c.getLsbD (w - 1) = false) : (c <<< 1) >>> 1 = c := by
  apply BitVec.eq_of_getLsbD_eq
  intro i hi
  rw [BitVec.getLsbD_ushiftRight, BitVec.getLsbD_shiftLeft]
  by_cases hl : i = w - 1
  · rw [hl, h]
    simp
    omega
  · have hlt : 1 + i < w := by omega
    simp [hlt]

theorem kernel_shift {c : BitVec w} (h : c.getLsbD (w - 1) = false) : kernel c >>> 1 = c := by
  have hone : (1 : BitVec w) >>> 1 = 0 := by
    apply BitVec.eq_of_getLsbD_eq
    intro i _
    simp [BitVec.getLsbD_one]
  rw [kernel, BitVec.ushiftRight_or_distrib, shift_back h, hone]
  exact BitVec.or_zero

theorem kernel_odd (hw : 0 < w) (c : BitVec w) : (kernel c).getLsbD 0 = true := by
  simp [kernel, hw]

theorem step_kernel (hw : 0 < w) (h : key.getLsbD (w - 1) = false) :
    step key (kernel key) = 0#w := by
  rw [step, if_pos (kernel_odd hw key), kernel_shift h, BitVec.xor_self]

theorem eq_zero_of_step (hw : 0 < w) (h : key.getLsbD (w - 1) = true) {c : BitVec w}
    (hc : step key c = 0#w) : c = 0#w := by
  unfold step at hc
  split_ifs at hc with hodd
  · -- the top bit of the key cannot be cancelled by a word just shifted
    have hbit : (key ^^^ (c >>> 1)).getLsbD (w - 1) = true := by
      rw [BitVec.getLsbD_xor, h, BitVec.getLsbD_ushiftRight,
        BitVec.getLsbD_of_ge c (1 + (w - 1)) (by omega)]
      rfl
    rw [hc] at hbit
    simp at hbit
  · apply BitVec.eq_of_getLsbD_eq
    intro i _
    rw [BitVec.getLsbD_zero]
    cases i with
    | zero => exact Bool.eq_false_iff.mpr hodd
    | succ i =>
      have hbit : (c >>> 1).getLsbD i = false := by
        rw [hc]
        exact BitVec.getLsbD_zero
      rw [BitVec.getLsbD_ushiftRight, Nat.add_comm] at hbit
      exact hbit

theorem step_injective_iff (hw : 0 < w) :
    Function.Injective (step key) ↔ key.getLsbD (w - 1) = true := by
  constructor
  · intro hinj
    by_contra h
    have hker : kernel key = 0#w := by
      apply hinj
      rw [step_kernel key hw (Bool.eq_false_iff.mpr h), step_zero]
    have hodd : (kernel key).getLsbD 0 = true := kernel_odd hw key
    rw [hker] at hodd
    simp at hodd
  · intro h c d hcd
    have hx : step key (c ^^^ d) = 0#w := by rw [step_xor, hcd, BitVec.xor_self]
    have hz : c ^^^ d = 0#w := eq_zero_of_step key hw h hx
    calc c = (c ^^^ d) ^^^ d := by rw [BitVec.xor_assoc, BitVec.xor_self, BitVec.xor_zero]
      _ = d := by rw [hz, BitVec.zero_xor]

/-- The word before, for a key whose top bit is set: the bit shifted in on the left tells whether
the key was xored. -/
def unstep (key c : BitVec w) : BitVec w :=
  if c.getLsbD (w - 1) then kernel (c ^^^ key) else c <<< 1

theorem step_unstep (hw : 0 < w) (h : key.getLsbD (w - 1) = true) (c : BitVec w) :
    step key (unstep key c) = c := by
  unfold unstep
  split_ifs with hc
  · have htop : (c ^^^ key).getLsbD (w - 1) = false := by
      rw [BitVec.getLsbD_xor, hc, h]
      rfl
    rw [step, if_pos (kernel_odd hw _), kernel_shift htop, BitVec.xor_comm c key,
      ← BitVec.xor_assoc, BitVec.xor_self, BitVec.zero_xor]
  · have heven : ¬ (c <<< 1).getLsbD 0 = true := by simp
    rw [step, if_neg heven, shift_back (Bool.eq_false_iff.mpr hc)]

def unfeed (key c : BitVec w) (b : BitVec 8) : BitVec w := (unstep key)^[8] c ^^^ b.setWidth w

def rewind (key c : BitVec w) (bs : List (BitVec 8)) : BitVec w :=
  bs.foldr (fun b c => unfeed key c b) c

theorem feed_eq_iff (hw : 0 < w) (h : key.getLsbD (w - 1) = true) {c d : BitVec w}
    {b : BitVec 8} : feed key c b = d ↔ c = unfeed key d b := by
  have hright : Function.RightInverse (unstep key) (step key) := step_unstep key hw h
  have hleft : Function.LeftInverse (unstep key) (step key) :=
    hright.leftInverse_of_injective ((step_injective_iff key hw).mpr h)
  have hsteps : feed key c b = d ↔ c ^^^ b.setWidth w = (unstep key)^[8] d := by
    constructor
    · rintro rfl
      exact (hleft.iterate 8 _).symm
    · intro hc
      rw [feed, hc]
      exact hright.iterate 8 d
  rw [hsteps, unfeed]
  constructor
  · intro hc
    rw [← hc, BitVec.xor_assoc, BitVec.xor_self, BitVec.xor_zero]
  · rintro rfl
    rw [BitVec.xor_assoc, BitVec.xor_self, BitVec.xor_zero]

theorem run_append (c : BitVec w) (as bs : List (BitVec 8)) :
    run key c (as ++ bs) = run key (run key c as) bs := List.foldl_append

def xorBytes : List (BitVec 8) → List (BitVec 8) → List (BitVec 8) := List.zipWith (· ^^^ ·)

theorem feed_xor (c d : BitVec w) (a b : BitVec 8) :
    feed key (c ^^^ d) (a ^^^ b) = feed key c a ^^^ feed key d b := by
  have hword : c ^^^ d ^^^ (a ^^^ b).setWidth w =
      (c ^^^ a.setWidth w) ^^^ (d ^^^ b.setWidth w) := by
    rw [BitVec.setWidth_xor]
    ac_rfl
  rw [feed, hword, step_iterate_xor]
  rfl

theorem run_xorBytes {as bs : List (BitVec 8)} (h : as.length = bs.length) (c d : BitVec w) :
    run key (c ^^^ d) (xorBytes as bs) = run key c as ^^^ run key d bs := by
  induction as generalizing bs c d with
  | nil =>
    obtain rfl := List.length_eq_zero_iff.mp h.symm
    rfl
  | cons a as ih =>
    cases bs with
    | nil => cases h
    | cons b bs =>
      have htail : as.length = bs.length := Nat.succ.inj h
      calc run key (c ^^^ d) (xorBytes (a :: as) (b :: bs))
          = run key (feed key (c ^^^ d) (a ^^^ b)) (xorBytes as bs) := rfl
        _ = run key (feed key c a) as ^^^ run key (feed key d b) bs := by
          rw [feed_xor, ih htail]

variable {key} in
theorem run_injective (h : Function.Injective (step key)) (bs : List (BitVec 8)) :
    Function.Injective fun c => run key c bs := by
  induction bs with
  | nil => exact fun _ _ hcd => hcd
  | cons b bs ih =>
    intro c d hcd
    have hfeed : feed key c b = feed key d b := ih hcd
    exact (BitVec.xor_left_inj _).mp (h.iterate 8 hfeed)

theorem run_eq_iff (hw : 0 < w) (h : key.getLsbD (w - 1) = true) {c d : BitVec w}
    {bs : List (BitVec 8)} : run key c bs = d ↔ c = rewind key d bs := by
  induction bs generalizing c with
  | nil => exact Iff.rfl
  | cons b bs ih =>
    have htail : run key c (b :: bs) = d ↔ feed key c b = rewind key d bs := ih
    rw [htail, feed_eq_iff key hw h]
    rfl

theorem wordOf_cons_eq_xor (b : BitVec 8) (bs : List (BitVec 8)) :
    wordOf w (b :: bs) = b.setWidth w ^^^ wordOf w bs <<< 8 := by
  apply BitVec.eq_of_getLsbD_eq
  intro i _
  rw [wordOf, BitVec.getLsbD_or, BitVec.getLsbD_xor, BitVec.getLsbD_shiftLeft,
    BitVec.getLsbD_setWidth]
  by_cases hi : i < 8
  · simp [hi]
  · simp [BitVec.getLsbD_of_ge b i (by omega)]

theorem run_eq_iterate (c : BitVec w) {bs : List (BitVec 8)} (h : 8 * bs.length ≤ w) :
    run key c bs = (step key)^[8 * bs.length] (c ^^^ wordOf w bs) := by
  induction bs generalizing c with
  | nil => exact (BitVec.xor_zero).symm
  | cons b bs ih =>
    rw [List.length_cons] at h
    have hlow : ∀ i < 8, (wordOf w bs <<< 8).getLsbD i = false := by
      intro i hi
      simp [hi]
    have hback : (wordOf w bs <<< 8) >>> 8 = wordOf w bs := by
      apply BitVec.eq_of_getLsbD_eq
      intro i hi
      rw [BitVec.getLsbD_ushiftRight, BitVec.getLsbD_shiftLeft, getLsbD_wordOf, getLsbD_wordOf]
      by_cases hw : 8 + i < w
      · simp [hw, hi]
      · have hlen : bs.length ≤ i / 8 := by omega
        simp [hw, List.getElem?_eq_none hlen]
    have hfeed : feed key c b ^^^ wordOf w bs = (step key)^[8] (c ^^^ wordOf w (b :: bs)) := by
      rw [wordOf_cons_eq_xor, ← BitVec.xor_assoc, step_iterate_xor, step_iterate_of_low key hlow,
        hback]
      rfl
    calc run key c (b :: bs) = run key (feed key c b) bs := rfl
      _ = (step key)^[8 * bs.length] ((step key)^[8] (c ^^^ wordOf w (b :: bs))) := by
        rw [ih _ (by omega), hfeed]
      _ = (step key)^[8 * (b :: bs).length] (c ^^^ wordOf w (b :: bs)) := by
        rw [← Function.iterate_add_apply, List.length_cons, Nat.mul_succ]

/-- The two lists have one length, and differ in a window of `n` places only. -/
def DifferWithin {α : Type*} (n : Nat) (xs ys : List α) : Prop :=
  xs ≠ ys ∧ xs.length = ys.length ∧ ∃ i, ∀ j, xs[j]? ≠ ys[j]? → i ≤ j ∧ j < i + n

theorem DifferWithin.split {α : Type*} {n : Nat} {xs ys : List α} (h : DifferWithin n xs ys) :
    ∃ pre as bs suf, xs = pre ++ (as ++ suf) ∧ ys = pre ++ (bs ++ suf) ∧ as ≠ bs ∧
      as.length = bs.length ∧ as.length ≤ n := by
  obtain ⟨hne, hlen, i, hi⟩ := h
  have hpre : xs.take i = ys.take i := by
    apply List.ext_getElem?
    intro j
    rw [List.getElem?_take, List.getElem?_take]
    split_ifs with hj
    · by_contra hd
      exact absurd (hi j hd).1 (by omega)
    · rfl
  have hsuf : (xs.drop i).drop n = (ys.drop i).drop n := by
    apply List.ext_getElem?
    intro j
    rw [List.drop_drop, List.drop_drop, List.getElem?_drop, List.getElem?_drop]
    by_contra hd
    exact absurd (hi _ hd).2 (by omega)
  have hx : xs = xs.take i ++ ((xs.drop i).take n ++ (xs.drop i).drop n) := by
    rw [List.take_append_drop, List.take_append_drop]
  have hy : ys = xs.take i ++ ((ys.drop i).take n ++ (xs.drop i).drop n) := by
    rw [hpre, hsuf, List.take_append_drop, List.take_append_drop]
  refine ⟨xs.take i, (xs.drop i).take n, (ys.drop i).take n, (xs.drop i).drop n, hx, hy, ?_, ?_,
    List.length_take_le n _⟩
  · intro hab
    rw [hab] at hx
    exact hne (hx.trans hy.symm)
  · rw [List.length_take, List.length_take, List.length_drop, List.length_drop, hlen]

/-- With an injective step no difference that fits the register is ever cancelled. -/
theorem run_ne_of_differWithin {n : Nat} (hinj : Function.Injective (step key)) (hn : 8 * n ≤ w)
    {xs ys : List (BitVec 8)} (h : DifferWithin n xs ys) (c : BitVec w) :
    run key c xs ≠ run key c ys := by
  obtain ⟨pre, as, bs, suf, rfl, rfl, hne, hlen, hle⟩ := h.split
  intro hrun
  simp only [run_append] at hrun
  generalize run key c pre = d at hrun
  have hwin : run key d as = run key d bs := run_injective hinj suf hrun
  rw [run_eq_iterate key d (by omega), run_eq_iterate key d (by omega), hlen] at hwin
  have hword : wordOf w as = wordOf w bs := (BitVec.xor_right_inj _).mp (hinj.iterate _ hwin)
  apply hne
  calc as = bytesOf as.length (wordOf w as) := (bytesOf_wordOf rfl (by omega)).symm
    _ = bytesOf bs.length (wordOf w bs) := by rw [hword, hlen]
    _ = bs := bytesOf_wordOf rfl (by omega)

/-- Otherwise two words that step to one word make two messages that no start tells apart. -/
theorem exists_collision {n : Nat} (hinj : ¬ Function.Injective (step key)) (hn : 8 * n = w)
    (hw : 0 < w) :
    ∃ xs ys, DifferWithin n xs ys ∧ xs.length = n ∧ ∀ c, run key c xs = run key c ys := by
  obtain ⟨a, b, hab, hne⟩ := Function.not_injective_iff.mp hinj
  have hword (v : BitVec w) : wordOf w (bytesOf n v) = v := wordOf_bytesOf (Nat.le_of_eq hn.symm) v
  refine ⟨bytesOf n a, bytesOf n b, ⟨?_, ?_, 0, ?_⟩, length_bytesOf n a, fun c => ?_⟩
  · intro hbytes
    exact hne (by rw [← hword a, hbytes, hword b])
  · rw [length_bytesOf, length_bytesOf]
  · intro j hj
    refine ⟨Nat.zero_le j, ?_⟩
    by_contra hjn
    rw [List.getElem?_eq_none (by simp; omega), List.getElem?_eq_none (by simp; omega)] at hj
    exact hj rfl
  · have hsame : (step key)^[w] a = (step key)^[w] b := by
      obtain ⟨m, rfl⟩ := Nat.exists_eq_succ_of_ne_zero (Nat.ne_of_gt hw)
      rw [Function.iterate_succ_apply, Function.iterate_succ_apply, hab]
    rw [run_eq_iterate key c (by simp; omega), run_eq_iterate key c (by simp; omega), hword, hword,
      length_bytesOf, length_bytesOf, hn, step_iterate_xor, step_iterate_xor, hsame]

end VChat.Codec.ShiftRegister
