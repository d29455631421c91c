import VChat.Chat.CreateRace

/-! Whether the user that `CreateUser` returns is still in the registry, where its call put
it. -/

namespace VChat.CreateRace
open Transition World

def Call.user : Call → Option VChatUserRef
  | .idle => none
  | .create .. => none
  | .count user _ => some user
  | .insert user _ => some user
  | .finish user _ => some user

def Call.pending : Call → Option (VChatUserRef × VInt32)
  | .idle => none
  | .create .. => none
  | .count user nUserID => some (user, nUserID)
  | .insert user nUserID => some (user, nUserID)
  | .finish .. => none

/-- A call that returns a user has put it into the registry under its id, and it is still
there. -/
def ReturnsOwned (x : Server × List Output) (e : Event) : Prop :=
  ∀ i user nUserID, e = .proceed i → x.1.call i = .finish user nUserID →
    .inserted i nUserID user ∈ x.2 ∧ x.1.world.pUsers[nUserID]? = some user

def Unreturned (s : Server) (user : VChatUserRef) : Prop :=
  ∃ i nUserID, s.call i = .finish user nUserID

/-- The second count finds room, and no user is replaced or removed before the call that
created it has returned. -/
structure KeepsUnreturned (sv : UserServices) (x : Server × List Output) (e : Event) : Prop where
  counted : ∀ i user nUserID, e = .proceed i → x.1.call i = .count user nUserID →
    x.1.world.getUserCount < sv.nMaxPlayer
  replaced : ∀ i user nUserID old, e = .proceed i → x.1.call i = .insert user nUserID →
    x.1.world.pUsers[(x.1.world.user user).nPlayerID]? = some old → ¬ Unreturned x.1 old
  removed : ∀ user, e = .removeUser user →
    x.1.world.pUsers[(x.1.world.user user).nPlayerID]? = some user → ¬ Unreturned x.1 user

structure Threads (s : Server) : Prop where
  created : ∀ i user, (s.call i).user = some user → user < s.world.nextUser
  distinct : ∀ i j user, (s.call i).user = some user → (s.call j).user = some user → i = j
  fresh : ∀ i user nUserID, (s.call i).pending = some (user, nUserID) →
    (∀ id : VInt32, s.world.pUsers[id]? ≠ some user) ∧ (s.world.user user).nPlayerID = nUserID
  registered : ∀ (id : VInt32) user, s.world.pUsers[id]? = some user → user < s.world.nextUser
  injective : ∀ (id id' : VInt32) user, s.world.pUsers[id]? = some user →
    s.world.pUsers[id']? = some user → id = id'

def Owned (x : Server × List Output) : Prop :=
  ∀ i user nUserID, x.1.call i = .finish user nUserID →
    .inserted i nUserID user ∈ x.2 ∧ x.1.world.pUsers[nUserID]? = some user

def Lost (s : Server) : Prop :=
  ∃ i user nUserID, s.call i = .finish user nUserID ∧
    ∀ id : VInt32, s.world.pUsers[id]? ≠ some user

section Step
variable {sv : UserServices} {s t : Server} {x y : Server × List Output} {e : Event}
  {out : List Output} {i : Nat} {c : Call}

theorem user_of_pending {user : VChatUserRef} {nUserID : VInt32}
    (h : c.pending = some (user, nUserID)) : c.user = some user := by
  cases c <;> cases h <;> rfl

theorem threads_idle {w : World} (hempty : w.pUsers = ∅) : Threads ⟨w, fun _ => .idle⟩ := by
  have hnone (id : VInt32) : w.pUsers[id]? = none := by rw [hempty, Std.TreeMap.getElem?_emptyc]
  refine ⟨by simp [Call.user], by simp [Call.user], by simp [Call.pending],
    fun id user hu => ?_, fun id id' user hu => ?_⟩
  · rw [hnone] at hu
    cases hu
  · rw [hnone] at hu
    cases hu

theorem threads_setCall (h : Threads s)
    (huser : ∀ user, c.user = some user → (s.call i).user = some user)
    (hpending : ∀ p, c.pending = some p → (s.call i).pending = some p) :
    Threads (s.setCall i c) := by
  have hold (j : Nat) (user : VChatUserRef) (hj : ((s.setCall i c).call j).user = some user) :
      (s.call j).user = some user := by
    rw [Server.setCall_call] at hj
    split_ifs at hj with hji
    · exact hji ▸ huser user hj
    · exact hj
  refine ⟨fun j user hj => h.created j user (hold j user hj),
    fun j k user hj hk => h.distinct j k user (hold j user hj) (hold k user hk),
    fun j user nUserID hj => ?_, h.registered, h.injective⟩
  rw [Server.setCall_call] at hj
  split_ifs at hj with hji
  · exact h.fresh i user nUserID (hpending _ hj)
  · exact h.fresh j user nUserID hj

theorem threads_leave (h : Threads s) (hc : c.user = none) : Threads (s.setCall i c) := by
  refine threads_setCall h (fun user hu => ?_) (fun p hp => ?_)
  · rw [hc] at hu
    cases hu
  · rw [user_of_pending hp] at hc
    cases hc

theorem threads_world (h : Threads s) {w : World} (hnext : s.world.nextUser ≤ w.nextUser)
    (hmap : ∀ (id : VInt32) user, w.pUsers[id]? = some user → s.world.pUsers[id]? = some user)
    (hid : ∀ user, user < s.world.nextUser → (∀ id : VInt32, s.world.pUsers[id]? ≠ some user) →
      (w.user user).nPlayerID = (s.world.user user).nPlayerID) :
    Threads { s with world := w } := by
  refine ⟨fun j user hj => Nat.lt_of_lt_of_le (h.created j user hj) hnext, h.distinct,
    fun j user nUserID hj => ?_, fun id user hu => ?_, fun id id' user hu hu' => ?_⟩
  · obtain ⟨hnone, hkey⟩ := h.fresh j user nUserID hj
    refine ⟨fun id hu => hnone id (hmap id user hu), ?_⟩
    rw [hid user (h.created j user (user_of_pending hj)) hnone, hkey]
  · exact Nat.lt_of_lt_of_le (h.registered id user (hmap id user hu)) hnext
  · exact h.injective id id' user (hmap id user hu) (hmap id' user hu')

theorem find_of_removeUser (hsv : sv.Lawful) {w : World} {u user : VChatUserRef} {id : VInt32}
    (h : (w.removeUser sv u).1.pUsers[id]? = some user) : w.pUsers[id]? = some user := by
  by_cases hu : w.pUsers[(w.user u).nPlayerID]? = some u
  · rw [(removeUser_of_find hsv hu).2.1, Std.TreeMap.getElem?_erase] at h
    split_ifs at h
    exact h
  · rwa [removeUser_of_not_find hu] at h

theorem threads_removeUser (hsv : sv.Lawful) (h : Threads s) (u : VChatUserRef) :
    Threads { s with world := (s.world.removeUser sv u).1 } := by
  refine threads_world h ?_ (fun id user => find_of_removeUser hsv) fun user _ hnone => ?_
  · by_cases hu : s.world.pUsers[(s.world.user u).nPlayerID]? = some u
    · exact Nat.le_of_eq (removeUser_of_find hsv hu).2.2.1.symm
    · exact Nat.le_of_eq (by rw [removeUser_of_not_find hu])
  · by_cases hu : s.world.pUsers[(s.world.user u).nPlayerID]? = some u
    · exact (removeUser_of_find hsv hu).2.2.2 user fun heq => hnone _ (heq ▸ hu)
    · rw [removeUser_of_not_find hu]

theorem threads_create (h : Threads s) (i : Nat) (nUserID : VInt32)
    (session : Option VSessionRef) (strName : String) :
    Threads (({ s with world := s.world.prepareUser nUserID session strName }).setCall i
      (.count s.world.nextUser nUserID)) := by
  have hw : Threads { s with world := s.world.prepareUser nUserID session strName } := by
    refine threads_world h ?_ (fun id user hu => ?_) fun user hlt _ => ?_
    · rw [prepareUser_nextUser]
      exact Nat.le_succ _
    · rwa [prepareUser_pUsers] at hu
    · rw [prepareUser_nPlayerID, if_neg (Nat.ne_of_lt hlt)]
  have hnew (j : Nat) (user : VChatUserRef) (hj : (s.call j).user = some user) :
      user ≠ s.world.nextUser := Nat.ne_of_lt (h.created j user hj)
  refine ⟨fun j user hj => ?_, fun j k user hj hk => ?_, fun j user id hj => ?_,
    hw.registered, hw.injective⟩
  · rw [Server.setCall_call] at hj
    split_ifs at hj
    · obtain rfl := Option.some.inj hj
      simp only [Server.setCall_world, prepareUser_nextUser]
      exact Nat.lt_succ_self _
    · exact hw.created j user hj
  · rw [Server.setCall_call] at hj hk
    split_ifs at hj hk with hji hki hki
    · rw [hji, hki]
    · exact absurd (Option.some.inj hj).symm (hnew k user hk)
    · exact absurd (Option.some.inj hk).symm (hnew j user hj)
    · exact h.distinct j k user hj hk
  · rw [Server.setCall_call] at hj
    split_ifs at hj
    · cases hj
      refine ⟨fun id hid => ?_, ?_⟩
      · rw [Server.setCall_world, prepareUser_pUsers] at hid
        exact Nat.lt_irrefl _ (h.registered id _ hid)
      · rw [Server.setCall_world, prepareUser_nPlayerID, if_pos rfl]
    · exact hw.fresh j user id hj

theorem threads_insert (hsv : sv.Lawful) (h : Threads s) {user : VChatUserRef}
    {nUserID : VInt32} (hi : s.call i = .insert user nUserID) :
    Threads (({ s with world := s.world.insertUser sv user }).setCall i
      (.finish user nUserID)) := by
  have hiu : (s.call i).user = some user := by rw [hi]; rfl
  have hip : (s.call i).pending = some (user, nUserID) := by rw [hi]; rfl
  obtain ⟨hnone, hkey⟩ := h.fresh i user nUserID hip
  have hmoved : Threads (s.setCall i (.finish user nUserID)) :=
    threads_setCall h (fun v hv => by rw [hiu]; exact hv) (by simp [Call.pending])
  refine ⟨fun j v hj => ?_, hmoved.distinct, fun j v id hj => ?_, fun id v hv => ?_,
    fun id id' v hv hv' => ?_⟩
  · rw [Server.setCall_world, insertUser_nextUser hsv]
    exact hmoved.created j v hj
  · obtain ⟨hvnone, hvkey⟩ := hmoved.fresh j v id hj
    -- the user inserted is in the hands of this thread alone, which is done with it
    have hne : user ≠ v := by
      rintro rfl
      have hji := hmoved.distinct j i user (user_of_pending hj)
        (by simp [Server.setCall_call, Call.user])
      subst hji
      simp [Server.setCall_call, Call.pending] at hj
    refine ⟨fun id' hid' => ?_, ?_⟩
    · rw [Server.setCall_world, insertUser_find hsv] at hid'
      split_ifs at hid'
      · exact hne (Option.some.inj hid')
      · exact hvnone id' hid'
    · exact (insertUser_nPlayerID hsv (hvnone _)).trans hvkey
  · rw [Server.setCall_world, insertUser_find hsv] at hv
    rw [Server.setCall_world, insertUser_nextUser hsv]
    split_ifs at hv
    · exact Option.some.inj hv ▸ h.created i user hiu
    · exact h.registered id v hv
  · rw [Server.setCall_world, insertUser_find hsv] at hv hv'
    split_ifs at hv hv' with hid hid' hid'
    · exact hid.symm.trans hid'
    · exact absurd hv' (Option.some.inj hv ▸ hnone id')
    · exact absurd hv (Option.some.inj hv' ▸ hnone id)
    · exact h.injective id id' v hv hv'

theorem threads_step (hsv : sv.Lawful) (h : Threads s) (hstep : step sv s e = some (t, out)) :
    Threads t := by
  cases effect_of_step hstep with
  | started hidle => exact threads_leave h rfl
  | refused => exact h
  | created hcall => exact threads_create h ..
  | unallocated hcall => exact threads_leave h rfl
  | counted hcall _ =>
    exact threads_setCall h (fun v hv => by rw [hcall]; exact hv) fun p hp => by
      rw [hcall]
      exact hp
  | full hcall =>
    exact threads_setCall h (fun v hv => by rw [hcall]; exact hv) (by simp [Call.pending])
  | inserted hcall => exact threads_insert hsv h hcall
  | returned hcall => exact threads_leave h rfl
  | @removed pUser => exact threads_removeUser hsv h pUser

theorem owned_of_kept (ho : Owned x) (hlog : y.2 = x.2 ++ out)
    (hcall : ∀ j user nUserID, y.1.call j = .finish user nUserID →
      x.1.call j = .finish user nUserID)
    (hmap : ∀ user (id : VInt32), Unreturned x.1 user → x.1.world.pUsers[id]? = some user →
      y.1.world.pUsers[id]? = some user) : Owned y := by
  intro j user nUserID hj
  have hj := hcall j user nUserID hj
  obtain ⟨hlogged, hu⟩ := ho j user nUserID hj
  refine ⟨?_, hmap user nUserID ⟨j, nUserID, hj⟩ hu⟩
  rw [hlog]
  exact List.mem_append_left _ hlogged

theorem finish_of_setCall (hc : ∀ user nUserID, c ≠ .finish user nUserID) (j : Nat)
    (user : VChatUserRef) (nUserID : VInt32)
    (hj : (s.setCall i c).call j = .finish user nUserID) : s.call j = .finish user nUserID := by
  rw [Server.setCall_call] at hj
  split_ifs at hj
  · exact absurd hj (hc user nUserID)
  · exact hj

theorem owned_setCall (ho : Owned x) (hc : ∀ user nUserID, c ≠ .finish user nUserID) :
    Owned (x.1.setCall i c, x.2 ++ out) :=
  owned_of_kept ho rfl (finish_of_setCall hc) fun _ _ _ hid => hid

theorem owned_removeUser (hsv : sv.Lawful) (ho : Owned x) {u : VChatUserRef}
    (hremoved : x.1.world.pUsers[(x.1.world.user u).nPlayerID]? = some u → ¬ Unreturned x.1 u) :
    Owned ({ x.1 with world := (x.1.world.removeUser sv u).1 }, x.2 ++ []) := by
  refine owned_of_kept ho rfl (fun j user nUserID hj => hj) fun user id hback hid => ?_
  by_cases hu : x.1.world.pUsers[(x.1.world.user u).nPlayerID]? = some u
  · simp only [(removeUser_of_find hsv hu).2.1]
    rw [Std.TreeMap.getElem?_erase]
    split_ifs with hkey
    · have hkey := Std.LawfulEqCmp.compare_eq_iff_eq.mp hkey
      have huser : u = user := Option.some.inj (hu.symm.trans (hkey ▸ hid))
      exact absurd (huser ▸ hback) (hremoved hu)
    · exact hid
  · simp only [removeUser_of_not_find hu]
    exact hid

theorem owned_insert (hsv : sv.Lawful) (h : Threads x.1) (ho : Owned x) {user : VChatUserRef}
    {nUserID : VInt32} (hi : x.1.call i = .insert user nUserID)
    (hreplaced : ∀ old, x.1.world.pUsers[(x.1.world.user user).nPlayerID]? = some old →
      ¬ Unreturned x.1 old) :
    Owned (({ x.1 with world := x.1.world.insertUser sv user }).setCall i (.finish user nUserID),
      x.2 ++ [.inserted i (x.1.world.user user).nPlayerID user]) := by
  have hkey : (x.1.world.user user).nPlayerID = nUserID :=
    (h.fresh i user nUserID (by rw [hi]; rfl)).2
  intro j v id hj
  rw [Server.setCall_call] at hj
  rw [Server.setCall_world, insertUser_find hsv]
  split_ifs at hj with hji
  · cases hj
    rw [hji, hkey, if_pos rfl]
    exact ⟨List.mem_append_right _ (List.mem_singleton.mpr rfl), rfl⟩
  · obtain ⟨hlogged, hv⟩ := ho j v id hj
    have hne : (x.1.world.user user).nPlayerID ≠ id :=
      fun hid => hreplaced v (hid ▸ hv) ⟨j, id, hj⟩
    rw [if_neg hne]
    exact ⟨List.mem_append_left _ hlogged, hv⟩

theorem owned_step (hsv : sv.Lawful) (h : Threads x.1) (ho : Owned x)
    (hC : KeepsUnreturned sv x e) (hstep : traced (step sv) x e = some y) : Owned y := by
  obtain ⟨t, log⟩ := y
  obtain ⟨out, hstep, rfl⟩ := traced_eq_some.mp hstep
  have heffect : Effect sv x.1 e t out := effect_of_step hstep
  cases heffect with
  | started hidle => exact owned_setCall ho (by simp)
  | refused => exact owned_of_kept ho rfl (fun _ _ _ hj => hj) fun _ _ _ hid => hid
  | created hcall =>
    refine owned_of_kept ho rfl (finish_of_setCall (by simp)) fun user id _ hid => ?_
    rwa [Server.setCall_world, prepareUser_pUsers]
  | unallocated hcall => exact owned_setCall ho (by simp)
  | counted hcall _ => exact owned_setCall ho (by simp)
  | @full i user nUserID hcall hfull => exact absurd (hC.counted i user nUserID rfl hcall) hfull
  | @inserted i user nUserID hcall =>
    exact owned_insert hsv h ho hcall fun old => hC.replaced i user nUserID old rfl hcall
  | returned hcall => exact owned_setCall ho (by simp)
  | @removed pUser => exact owned_removeUser hsv ho (hC.removed pUser rfl)

theorem find_of_step (hsv : sv.Lawful) (hstep : step sv s e = some (t, out)) {id : VInt32}
    {user : VChatUserRef} (hu : t.world.pUsers[id]? = some user) :
    s.world.pUsers[id]? = some user ∨
      ∃ i nUserID, e = .proceed i ∧ s.call i = .insert user nUserID := by
  cases effect_of_step hstep with
  | started hidle => exact .inl hu
  | refused => exact .inl hu
  | created hcall =>
    rw [Server.setCall_world, prepareUser_pUsers] at hu
    exact .inl hu
  | unallocated hcall => exact .inl hu
  | counted hcall _ => exact .inl hu
  | full hcall => exact .inl hu
  | @inserted i v nUserID hcall =>
    rw [Server.setCall_world, insertUser_find hsv] at hu
    split_ifs at hu
    · exact .inr ⟨i, nUserID, rfl, Option.some.inj hu ▸ hcall⟩
    · exact .inl hu
  | returned hcall => exact .inl hu
  | removed => exact .inl (find_of_removeUser hsv hu)

theorem call_of_step (hstep : step sv s e = some (t, out)) (he : e ≠ .proceed i)
    (hbusy : s.call i ≠ .idle) : t.call i = s.call i := by
  have hother {j : Nat} (hj : e = .proceed j) : i ≠ j := fun hij => he (hij ▸ hj)
  cases effect_of_step hstep with
  | @started j _ _ _ _ hidle =>
    have hij : i ≠ j := by
      rintro rfl
      exact hbusy hidle
    rw [Server.setCall_call, if_neg hij]
  | refused => rfl
  | created hcall => exact if_neg (hother rfl)
  | unallocated hcall => exact if_neg (hother rfl)
  | counted hcall _ => exact if_neg (hother rfl)
  | full hcall => exact if_neg (hother rfl)
  | inserted hcall => exact if_neg (hother rfl)
  | returned hcall => exact if_neg (hother rfl)
  | removed => rfl

theorem lost_step (hsv : sv.Lawful) (h : Threads x.1) (hlost : Lost x.1)
    (hstep : traced (step sv) x e = some y) (hD : ReturnsOwned x e) : Lost y.1 := by
  obtain ⟨out, hstep, -⟩ := traced_eq_some.mp hstep
  obtain ⟨i, user, nUserID, hi, hnone⟩ := hlost
  have he : e ≠ .proceed i := fun he => hnone nUserID (hD i user nUserID he hi).2
  have hbusy : x.1.call i ≠ .idle := by simp [hi]
  refine ⟨i, user, nUserID, (call_of_step hstep he hbusy).trans hi, fun id hu => ?_⟩
  rcases find_of_step hsv hstep hu with hu | ⟨j, nUserID', rfl, hj⟩
  · exact hnone id hu
  · have hji := h.distinct j i user (by rw [hj]; rfl) (by rw [hi]; rfl)
    exact he (hji ▸ rfl)

theorem unreturned_of_step (hstep : step sv s e = some (t, out)) {user : VChatUserRef}
    (h : Unreturned s user) (he : ∀ i nUserID, e = .proceed i → s.call i ≠ .finish user nUserID) :
    Unreturned t user := by
  obtain ⟨i, nUserID, hi⟩ := h
  have hbusy : s.call i ≠ .idle := by simp [hi]
  have hother : e ≠ .proceed i := fun heq => he i nUserID heq hi
  exact ⟨i, nUserID, (call_of_step hstep hother hbusy).trans hi⟩

theorem keepsUnreturned_of_not_lost (hsv : sv.Lawful) (h : Threads x.1)
    (hstep : traced (step sv) x e = some y) (hlost : ¬ Lost y.1) : KeepsUnreturned sv x e := by
  obtain ⟨out, hstep, -⟩ := traced_eq_some.mp hstep
  have hmem {user : VChatUserRef} (hback : Unreturned y.1 user) :
      ∃ id : VInt32, y.1.world.pUsers[id]? = some user := by
    obtain ⟨j, nUserID, hj⟩ := hback
    by_contra hnone
    exact hlost ⟨j, user, nUserID, hj, fun id hid => hnone ⟨id, hid⟩⟩
  refine ⟨fun i user nUserID he hi => ?_, fun i user nUserID old he hi hold hback => ?_,
    fun user he hu hback => ?_⟩
  · -- a full registry: the user goes on to be returned without having been inserted
    subst he
    by_contra hfull
    simp only [step, hi, proceed, if_neg hfull, Option.some.injEq, Prod.mk.injEq] at hstep
    have hback : Unreturned y.1 user := by
      refine ⟨i, nUserID, ?_⟩
      rw [← hstep.1, Server.setCall_call, if_pos rfl]
    obtain ⟨id, hid⟩ := hmem hback
    rw [← hstep.1] at hid
    exact (h.fresh i user nUserID (by rw [hi]; rfl)).1 id hid
  · subst he
    have hback := unreturned_of_step hstep hback fun j _ hj => by
      cases hj
      simp [hi]
    obtain ⟨id, hid⟩ := hmem hback
    simp only [step, hi, proceed, Option.some.injEq, Prod.mk.injEq] at hstep
    rw [← hstep.1, Server.setCall_world, insertUser_find hsv] at hid
    obtain ⟨hnone, -⟩ := h.fresh i user nUserID (by rw [hi]; rfl)
    split_ifs at hid with hkey
    · exact hnone _ (hold.trans hid.symm)
    · exact hkey (h.injective _ id old hold hid)
  · subst he
    obtain ⟨id, hid⟩ := hmem (unreturned_of_step hstep hback (by simp))
    simp only [step, Option.some.injEq, Prod.mk.injEq] at hstep
    rw [← hstep.1] at hid
    simp only [(removeUser_of_find hsv hu).2.1, Std.TreeMap.getElem?_erase] at hid
    split_ifs at hid with hkey
    exact hkey (Std.LawfulEqCmp.compare_eq_iff_eq.mpr (h.injective _ id user hu hid))

end Step

/-- Whatever the interleaving: if the second count always finds room, and no user is replaced
or removed before its call has returned, then every user `CreateUser` returns was put into the
registry by that call and is still there; and in a run in which all calls return, only then. -/
theorem createUser_run {sv : UserServices} (hsv : sv.Lawful) {w : World}
    (hempty : w.pUsers = ∅) (es : List Event) :
    (Along (traced (step sv)) (fun x e _ => KeepsUnreturned sv x e) (⟨w, fun _ => .idle⟩, []) es →
        Along (traced (step sv)) (fun x e _ => ReturnsOwned x e) (⟨w, fun _ => .idle⟩, []) es) ∧
      ∀ s log, exec (traced (step sv)) (⟨w, fun _ => .idle⟩, []) es = some (s, log) →
        (∀ i, s.call i = .idle) →
          Along (traced (step sv)) (fun x e _ => ReturnsOwned x e) (⟨w, fun _ => .idle⟩, []) es →
            Along (traced (step sv)) (fun x e _ => KeepsUnreturned sv x e)
              (⟨w, fun _ => .idle⟩, []) es := by
  have h₀ : Threads ⟨w, fun _ => .idle⟩ := threads_idle hempty
  have ho₀ : Owned (⟨w, fun _ => .idle⟩, []) := by simp [Owned]
  have hthreads : ∀ x e y, Threads x.1 → traced (step sv) x e = some y → Threads y.1 :=
    fun x e y hx hstep => by
      obtain ⟨out, hstep, -⟩ := traced_eq_some.mp hstep
      exact threads_step hsv hx hstep
  refine ⟨fun hC => ?_, fun s log hrun hidle hD => ?_⟩
  · refine hC.imp_of_invariant (J := fun x => Threads x.1 ∧ Owned x)
      (fun x e y hx hC hstep => ?_) ⟨h₀, ho₀⟩
    exact ⟨⟨hthreads x e y hx.1 hstep, owned_step hsv hx.1 hx.2 hC hstep⟩,
      fun i user nUserID _ hi => hx.2 i user nUserID hi⟩
  · refine hD.of_rest (J := fun x => Threads x.1) (K := fun x => Threads x.1 ∧ Lost x.1)
      (R := fun x => ∀ i, x.1.call i = .idle) (fun x e y hx _ hstep => hthreads x e y hx hstep)
      (fun x e y hx hC hstep _ => ⟨hthreads x e y hx hstep, ?_⟩)
      (fun x e y hx hstep hDx => ⟨hthreads x e y hx.1 hstep, lost_step hsv hx.1 hx.2 hstep hDx⟩)
      (fun x hx hlost => ?_) h₀ hrun hidle
    · by_contra hlost
      exact hC (keepsUnreturned_of_not_lost hsv hx hstep hlost)
    · obtain ⟨i, user, nUserID, hi, -⟩ := hlost.2
      rw [hx i] at hi
      cases hi

/-- Two logins with room for both, each section of the one after that of the other. -/
theorem createUser_run_two :
    Along (traced (step (.plain 2))) (fun x e _ => ReturnsOwned x e) (⟨start, fun _ => .idle⟩, [])
      [.createUser 0 true 5 none "a", .createUser 1 true 6 none "b", .proceed 0, .proceed 1,
        .proceed 0, .proceed 1, .proceed 0, .proceed 1, .proceed 1, .proceed 0] := by
  refine (createUser_run (UserServices.lawful_plain 2) rfl _).1 ?_
  have hother {x : Server × List Output} {i : Nat} (hcount : ∀ u id, x.1.call i ≠ .count u id)
      (hinsert : ∀ u id, x.1.call i ≠ .insert u id) :
      KeepsUnreturned (.plain 2) x (.proceed i) := by
    refine ⟨?_, ?_, by simp⟩
    · rintro i user nUserID ⟨⟩ hi
      exact absurd hi (hcount user nUserID)
    · rintro i user nUserID old ⟨⟩ hi
      exact absurd hi (hinsert user nUserID)
  have hcounts {x : Server × List Output} {i : Nat} {u : VChatUserRef} {id : VInt32}
      (hi : x.1.call i = .count u id) (hroom : x.1.world.getUserCount < 2) :
      KeepsUnreturned (.plain 2) x (.proceed i) := by
    refine ⟨fun _ _ _ _ _ => hroom, ?_, by simp⟩
    rintro i user nUserID old ⟨⟩ hj
    cases hi.symm.trans hj
  have hinserts {x : Server × List Output} {i : Nat} {u : VChatUserRef} {id : VInt32}
      (hi : x.1.call i = .insert u id)
      (hnew : x.1.world.pUsers[(x.1.world.user u).nPlayerID]? = none) :
      KeepsUnreturned (.plain 2) x (.proceed i) := by
    refine ⟨?_, ?_, by simp⟩
    · rintro i user nUserID ⟨⟩ hj
      cases hi.symm.trans hj
    · rintro i user nUserID old ⟨⟩ hj hold
      cases hi.symm.trans hj
      cases hnew.symm.trans hold
  refine .cons rfl ⟨by simp, by simp, by simp⟩ (.cons rfl ⟨by simp, by simp, by simp⟩ ?_)
  refine .cons rfl (hother (by rintro _ _ ⟨⟩) (by rintro _ _ ⟨⟩)) ?_
  refine .cons rfl (hother (by rintro _ _ ⟨⟩) (by rintro _ _ ⟨⟩)) ?_
  refine .cons rfl (hcounts rfl (by decide)) (.cons rfl (hcounts rfl (by decide)) ?_)
  refine .cons rfl (hinserts rfl (by decide)) (.cons rfl (hinserts rfl (by decide)) ?_)
  refine .cons rfl (hother (by rintro _ _ ⟨⟩) (by rintro _ _ ⟨⟩)) ?_
  exact .cons rfl (hother (by rintro _ _ ⟨⟩) (by rintro _ _ ⟨⟩)) trivial

/-- Two logins at a limit of 1: the second counts again after the first has inserted, its user
is not inserted and is returned all the same. -/
theorem not_returnsOwned_full : ∃ s log,
    exec (traced (step (.plain 1))) (⟨start, fun _ => .idle⟩, [])
        [.createUser 0 true 5 none "a", .createUser 1 true 6 none "b", .proceed 0, .proceed 1,
          .proceed 0, .proceed 0, .proceed 1, .proceed 1] = some (s, log) ∧
      .returned 1 (some 1) ∈ log ∧ .inserted 1 6 1 ∉ log ∧
        s.world.pUsers[(6 : VInt32)]? = none :=
  ⟨_, _, rfl, by decide, by decide, by decide⟩

end VChat.CreateRace
