import Mathlib.Data.List.DropRight

/-! The part of a log after the last entry of a kind. -/

namespace VChat.Transition

variable {ω : Type*}

def sinceLast (mark : ω → Bool) (log : List ω) : List ω := log.rtakeWhile fun x => !mark x

variable (mark : ω → Bool)

@[simp] theorem sinceLast_nil : sinceLast mark [] = [] := rfl

theorem sinceLast_concat (log : List ω) (x : ω) :
    sinceLast mark (log ++ [x]) = if mark x then [] else sinceLast mark log ++ [x] := by
  rw [sinceLast, List.rtakeWhile_concat]
  cases mark x <;> rfl

variable {mark}

theorem sinceLast_append_of_not {out : List ω} (h : ∀ x ∈ out, mark x = false) (log : List ω) :
    sinceLast mark (log ++ out) = sinceLast mark log ++ out := by
  induction out using List.reverseRecOn with
  | nil => simp only [List.append_nil]
  | append_singleton out x ih =>
    have hx : mark x = false := h x (by simp)
    have hout : ∀ y ∈ out, mark y = false := fun y hy => h y (List.mem_append_left _ hy)
    rw [← List.append_assoc, sinceLast_concat, ih hout, hx, List.append_assoc]
    rfl

theorem sinceLast_append_mark {x : ω} {out : List ω} (hx : mark x = true)
    (h : ∀ y ∈ out, mark y = false) (log : List ω) : sinceLast mark (log ++ x :: out) = out := by
  rw [List.append_cons, sinceLast_append_of_not h, sinceLast_concat, hx]
  rfl

theorem mem_sinceLast {x : ω} {log : List ω} :
    x ∈ sinceLast mark log ↔
      ∃ pre post, log = pre ++ x :: post ∧ mark x = false ∧ ∀ y ∈ post, mark y = false := by
  induction log using List.reverseRecOn with
  | nil => simp
  | append_singleton log z ih =>
    rw [sinceLast_concat]
    constructor
    · intro hx
      split_ifs at hx with hz
      · cases hx
      · rcases List.mem_append.mp hx with hx | hx
        · obtain ⟨pre, post, rfl, hm, hpost⟩ := ih.mp hx
          refine ⟨pre, post ++ [z], by simp, hm, fun y hy => ?_⟩
          rcases List.mem_append.mp hy with hy | hy
          · exact hpost y hy
          · rw [List.mem_singleton.mp hy]
            exact Bool.eq_false_iff.mpr hz
        · rw [List.mem_singleton.mp hx]
          exact ⟨log, [], rfl, Bool.eq_false_iff.mpr hz, by simp⟩
    · rintro ⟨pre, post, hlog, hm, hpost⟩
      rcases List.eq_nil_or_concat post with rfl | ⟨post', y, rfl⟩
      · obtain ⟨-, hzx⟩ := List.append_inj' hlog rfl
        obtain rfl : z = x := by simpa using hzx
        simp [hm]
      · rw [List.concat_eq_append, ← List.cons_append, ← List.append_assoc] at hlog
        obtain ⟨hpre, hzy⟩ := List.append_inj' hlog rfl
        obtain rfl : z = y := by simpa using hzy
        have hz : mark z = false := hpost z (by simp)
        have hx : x ∈ sinceLast mark log :=
          ih.mpr ⟨pre, post', hpre, hm, fun w hw => hpost w (by simp [hw])⟩
        simp [hz, hx]

end VChat.Transition
