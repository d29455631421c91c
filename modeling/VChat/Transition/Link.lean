import Mathlib.Data.List.Basic

/-! An in-order link: items are posted, at most one is in flight, and after a failure
nothing more is put in flight until the link is opened again. -/

namespace VChat.Transition

structure Link (β : Type*) where
  delivered : List β
  pending : List β
  failed : Bool
  failed_pending : failed = true → pending ≠ []

namespace Link
variable {β : Type*}

def opened : Link β := ⟨[], [], false, by simp⟩

def posted (l : Link β) : List β := l.delivered ++ l.pending

def inFlight (l : Link β) : List β := if l.failed then [] else l.pending.take 1

def post (l : Link β) (b : β) : Link β :=
  ⟨l.delivered, l.pending ++ [b], l.failed, fun _ => by simp⟩

def deliver (l : Link β) (_ : l.failed = false) : Link β :=
  ⟨l.delivered ++ l.pending.take 1, l.pending.tail, false, by simp⟩

def fail (l : Link β) (h : l.pending ≠ []) : Link β := ⟨l.delivered, l.pending, true, fun _ => h⟩

inductive Step : Link β → Link β → Prop
  | skip (l) : Step l l
  | reopen (l) : Step l opened
  | post (l) (b : β) : Step l (l.post b)
  | deliver (l) (h : l.failed = false) : Step l (l.deliver h)
  | fail (l) (h : l.pending ≠ []) : Step l (l.fail h)

@[simp] theorem opened_failed : (opened : Link β).failed = false := rfl
@[simp] theorem post_delivered (l : Link β) (b : β) : (l.post b).delivered = l.delivered := rfl
@[simp] theorem post_pending (l : Link β) (b : β) : (l.post b).pending = l.pending ++ [b] := rfl
@[simp] theorem post_failed (l : Link β) (b : β) : (l.post b).failed = l.failed := rfl
@[simp] theorem fail_delivered (l : Link β) (h : l.pending ≠ []) :
    (l.fail h).delivered = l.delivered := rfl
@[simp] theorem fail_pending (l : Link β) (h : l.pending ≠ []) :
    (l.fail h).pending = l.pending := rfl
@[simp] theorem fail_failed (l : Link β) (h : l.pending ≠ []) : (l.fail h).failed = true := rfl

@[simp] theorem deliver_delivered (l : Link β) (h : l.failed = false) :
    (l.deliver h).delivered = l.delivered ++ l.pending.take 1 := rfl
@[simp] theorem deliver_pending (l : Link β) (h : l.failed = false) :
    (l.deliver h).pending = l.pending.tail := rfl
@[simp] theorem deliver_failed (l : Link β) (h : l.failed = false) :
    (l.deliver h).failed = false := rfl

theorem inFlight_length_le (l : Link β) : l.inFlight.length ≤ 1 := by
  unfold inFlight
  split_ifs
  · exact Nat.zero_le 1
  · exact List.length_take_le 1 l.pending

theorem head_of_mem_inFlight {l : Link β} {b : β} (h : b ∈ l.inFlight) :
    l.pending.head? = some b := by
  unfold inFlight at h
  split_ifs at h
  · cases h
  · cases hp : l.pending with
    | nil => simp [hp] at h
    | cons c q =>
      have hbc : b = c := by simpa [hp] using h
      rw [hbc, List.head?_cons]

theorem inFlight_ne_nil {l : Link β} (hf : l.failed = false) (hp : l.pending ≠ []) :
    l.inFlight ≠ [] := by
  cases h : l.pending with
  | nil => exact absurd h hp
  | cons c q => simp [inFlight, hf, h]

end Link
end VChat.Transition
