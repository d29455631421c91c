import Mathlib.Logic.Basic

/-! A link that is stored on both sides, each side written on its own, between objects that come
and go. -/

namespace VChat.Transition

/-- `fst` is what an `α` is attached to and `snd` the one a `β` points to; `left` and `right` say
which objects are there. -/
@[ext] structure TwoSided (α β : Type*) where
  fst : α → Option β
  snd : β → Option α
  left : α → Prop
  right : β → Prop

namespace TwoSided
variable {α β : Type*} [DecidableEq α] [DecidableEq β]

/-- Each `β` points to everyone attached to it, so there is one at most, and to no one who is
attached elsewhere. -/
structure Exact (p : TwoSided α β) : Prop where
  points : ∀ a b, p.left a → p.right b → p.fst a = some b → p.snd b = some a
  only : ∀ a b b', p.left a → p.right b → p.right b' → p.snd b = some a → p.fst a = some b' → b' = b

def attach (p : TwoSided α β) (a : α) (b : β) : TwoSided α β :=
  { p with fst := fun x => if x = a then some b else p.fst x }

def point (p : TwoSided α β) (b : β) (target : Option α) : TwoSided α β :=
  { p with snd := fun y => if y = b then target else p.snd y }

variable {p q : TwoSided α β} {a : α} {b : β} {target : Option α}

omit [DecidableEq α] [DecidableEq β] in
theorem Exact.weaken (h : p.Exact) (hleft : ∀ a, q.left a → p.left a)
    (hright : ∀ b, q.right b → p.right b) (hsnd : ∀ b, q.right b → q.snd b = p.snd b)
    (hfst : ∀ a b, q.left a → q.fst a = some b → p.fst a = some b) : q.Exact := by
  constructor
  · intro a b ha hb hab
    rw [hsnd b hb]
    exact h.points a b (hleft a ha) (hright b hb) (hfst a b ha hab)
  · intro a b b' ha hb hb' hba hab'
    rw [hsnd b hb] at hba
    exact h.only a b b' (hleft a ha) (hright b hb) (hright b' hb') hba (hfst a b' ha hab')

omit [DecidableEq β] in
/-- One side alone is written exactly when the other side is there already, and there only. -/
theorem attach_iff (h : p.Exact) (ha : p.left a) (hb : p.right b) :
    (p.attach a b).Exact ↔
      p.snd b = some a ∧ ∀ b', p.right b' → p.snd b' = some a → b' = b := by
  have hself : (p.attach a b).fst a = some b := if_pos rfl
  constructor
  · intro hq
    exact ⟨hq.points a b ha hb hself, fun b' hb' hba =>
      (hq.only a b' b ha hb' hb hba hself).symm⟩
  · rintro ⟨hpoints, honly⟩
    constructor
    · intro x y hx hy hxy
      by_cases hxa : x = a
      · subst hxa
        obtain rfl := Option.some.inj (hself.symm.trans hxy)
        exact hpoints
      · exact h.points x y hx hy ((if_neg hxa).symm.trans hxy)
    · intro x y y' hx hy hy' hyx hxy'
      by_cases hxa : x = a
      · subst hxa
        obtain rfl := Option.some.inj (hself.symm.trans hxy')
        exact (honly y hy hyx).symm
      · exact h.only x y y' hx hy hy' hyx ((if_neg hxa).symm.trans hxy')

/-- Both sides written: exact when they agree and neither has a partner left from before. -/
theorem attach_point_iff (h : p.Exact) (ha : p.left a) (hb : p.right b) :
    ((p.attach a b).point b target).Exact ↔
      target = some a ∧ (∀ x, p.left x → x ≠ a → p.fst x ≠ some b) ∧
        ∀ y, p.right y → y ≠ b → p.snd y ≠ some a := by
  have hself : ((p.attach a b).point b target).fst a = some b := if_pos rfl
  have htarget : ((p.attach a b).point b target).snd b = target := if_pos rfl
  constructor
  · intro hq
    have hnew : target = some a := htarget.symm.trans (hq.points a b ha hb hself)
    refine ⟨hnew, fun x hx hxa hxb => ?_, fun y hy hyb hya => ?_⟩
    · have hpoints := hq.points x b hx hb ((if_neg hxa).trans hxb)
      exact hxa (Option.some.inj (hpoints.symm.trans (htarget.trans hnew)))
    · exact hyb (hq.only a y b ha hy hb ((if_neg hyb).trans hya) hself).symm
  · rintro ⟨rfl, hfst, hsnd⟩
    constructor
    · intro x y hx hy hxy
      by_cases hxa : x = a
      · subst hxa
        obtain rfl := Option.some.inj (hself.symm.trans hxy)
        exact htarget
      · replace hxy : p.fst x = some y := (if_neg hxa).symm.trans hxy
        have hyb : y ≠ b := by
          rintro rfl
          exact hfst x hx hxa hxy
        exact (if_neg hyb).trans (h.points x y hx hy hxy)
    · intro x y y' hx hy hy' hyx hxy'
      by_cases hyb : y = b
      · subst hyb
        obtain rfl := Option.some.inj (htarget.symm.trans hyx)
        exact Option.some.inj (hxy'.symm.trans hself)
      · replace hyx : p.snd y = some x := (if_neg hyb).symm.trans hyx
        have hxa : x ≠ a := by
          rintro rfl
          exact hsnd y hy hyb hyx
        exact h.only x y y' hx hy hy' hyx ((if_neg hxa).symm.trans hxy')

end TwoSided
end VChat.Transition
