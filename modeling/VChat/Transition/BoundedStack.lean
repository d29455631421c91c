import Mathlib.Data.List.Basic

/-! A stack that holds at most `n` values: a push is refused when it is full. -/

namespace VChat.Transition

structure BoundedStack (α : Type*) (n : Nat) where
  elems : List α
  length_le : elems.length ≤ n

namespace BoundedStack
variable {α : Type*} {n : Nat}

def empty : BoundedStack α n := ⟨[], Nat.zero_le n⟩

def push (s : BoundedStack α n) (a : α) : Bool × BoundedStack α n :=
  if h : s.elems.length < n then (true, ⟨a :: s.elems, h⟩) else (false, s)

def pop (s : BoundedStack α n) : Option α × BoundedStack α n :=
  (s.elems.head?, ⟨s.elems.tail, Nat.le_trans (by simp) s.length_le⟩)

theorem push_of_lt (s : BoundedStack α n) (h : s.elems.length < n) (a : α) :
    s.push a = (true, ⟨a :: s.elems, h⟩) := dif_pos h

theorem push_of_full (s : BoundedStack α n) (h : n ≤ s.elems.length) (a : α) :
    s.push a = (false, s) := dif_neg (Nat.not_lt.mpr h)

end BoundedStack
end VChat.Transition
