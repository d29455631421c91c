import Mathlib.Algebra.GroupWithZero.Nat
import Mathlib.Data.List.Basic

/-! The array of pointers behind the pools, guarded by a counter instead of a lock. -/

namespace VChat

/-- `data` is what `data_` points to. -/
structure SafeRingBuffer (T : Type*) where
  data : Nat → T
  signal : Int
  size : Nat
  cur : Nat

namespace SafeRingBuffer

def initValue : Int := 1
def exchangeValue : Int := 0

variable {T : Type*}

/-- The default constructor leaves `data_` as the memory was. -/
def new (uninit : Nat → T) : SafeRingBuffer T := ⟨uninit, initValue, 0, 0⟩

def ofSize [Zero T] (uninit : Nat → T) (size : Nat) : SafeRingBuffer T :=
  ⟨if size ≠ 0 then fun _ => 0 else uninit, 0, size, 0⟩

def setSize [Zero T] (b : SafeRingBuffer T) (size : Nat) : SafeRingBuffer T :=
  if size > 0 then { b with size := size, data := fun _ => 0 } else b

def push (b : SafeRingBuffer T) (t : T) : Bool × SafeRingBuffer T :=
  let b := { b with signal := b.signal - 1 }
  if b.signal = exchangeValue then
    if b.cur < b.size then
      let b := { b with data := fun i => if i = b.cur then t else b.data i, cur := b.cur + 1 }
      (true, { b with signal := b.signal - 1 })
    else (false, { b with signal := b.signal + 1 })
  else (false, { b with signal := b.signal + 1 })

def pop [Zero T] (b : SafeRingBuffer T) : T × SafeRingBuffer T :=
  let b := { b with signal := b.signal - 1 }
  if b.signal = exchangeValue then
    if b.cur > 0 then
      let b := { b with cur := b.cur - 1 }
      (b.data b.cur, { b with signal := b.signal + 1 })
    else (0, { b with signal := b.signal + 1 })
  else (0, { b with signal := b.signal + 1 })

/-- What `clear` hands to its handler. -/
def held (b : SafeRingBuffer T) : List T := (List.range b.cur).map b.data

variable (b : SafeRingBuffer T)

theorem push_of_closed (h : b.signal ≠ initValue) (t : T) : b.push t = (false, b) := by
  have hdec : b.signal - 1 ≠ exchangeValue := by
    unfold initValue at h
    unfold exchangeValue
    omega
  simp only [push, if_neg hdec, Int.sub_add_cancel]

theorem pop_of_closed [Zero T] (h : b.signal ≠ initValue) : b.pop = (0, b) := by
  have hdec : b.signal - 1 ≠ exchangeValue := by
    unfold initValue at h
    unfold exchangeValue
    omega
  simp only [pop, if_neg hdec, Int.sub_add_cancel]

theorem push_of_full (h : b.size ≤ b.cur) (t : T) : b.push t = (false, b) := by
  have hcur : ¬ b.cur < b.size := Nat.not_lt.mpr h
  simp only [push, if_neg hcur, Int.sub_add_cancel, ite_self]

theorem pop_of_empty [Zero T] (h : b.cur = 0) : b.pop = (0, b) := by
  have hcur : ¬ b.cur > 0 := by omega
  simp only [pop, if_neg hcur, Int.sub_add_cancel, ite_self]

theorem push_of_open (h : b.signal = initValue) (hcur : b.cur < b.size) (t : T) :
    b.push t = (true, ⟨fun i => if i = b.cur then t else b.data i, -1, b.size, b.cur + 1⟩) := by
  simp [push, h, hcur, initValue, exchangeValue]

theorem pop_of_open [Zero T] (h : b.signal = initValue) (hcur : 0 < b.cur) :
    b.pop = (b.data (b.cur - 1), ⟨b.data, initValue, b.size, b.cur - 1⟩) := by
  simp [pop, h, hcur, initValue, exchangeValue]

theorem push_held (t : T) :
    ((b.push t).1 = true → (b.push t).2.held = b.held ++ [t]) ∧
      ((b.push t).1 = false → (b.push t).2 = b) := by
  by_cases hs : b.signal = initValue
  · by_cases hcur : b.cur < b.size
    · rw [push_of_open b hs hcur]
      refine ⟨fun _ => ?_, by simp⟩
      have hbelow :
          (List.range b.cur).map (fun i => if i = b.cur then t else b.data i) = b.held := by
        apply List.map_congr_left
        intro i hi
        exact if_neg (Nat.ne_of_lt (List.mem_range.mp hi))
      simp only [held, List.range_succ, List.map_append, List.map_cons, List.map_nil, if_true]
      rw [hbelow]
      rfl
    · rw [push_of_full b (Nat.not_lt.mp hcur)]
      exact ⟨by simp, fun _ => rfl⟩
  · rw [push_of_closed b hs]
    exact ⟨by simp, fun _ => rfl⟩

theorem pop_held [Zero T] : b.held = b.pop.2.held ++ [b.pop.1] ∨ b.pop = (0, b) := by
  by_cases hs : b.signal = initValue
  · by_cases hcur : b.cur = 0
    · exact .inr (pop_of_empty b hcur)
    · left
      rw [pop_of_open b hs (Nat.pos_of_ne_zero hcur)]
      obtain ⟨n, hn⟩ := Nat.exists_eq_succ_of_ne_zero hcur
      simp [held, hn, List.range_succ]
  · exact .inr (pop_of_closed b hs)

end SafeRingBuffer
end VChat
