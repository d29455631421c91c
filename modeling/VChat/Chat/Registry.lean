import VChat.Chat.UserManager
import VChat.Transition.Runs

/-! The keys of the user registry against the ids of the users, over runs of logins, removals
and lost connections. -/

namespace VChat.Registry
open Transition World

inductive Event where
  | createUser (allocated : Bool) (nUserID : VInt32) (session : Option VSessionRef)
      (strName : String)
  | removeUser (pUser : VChatUserRef)
  | resetSession (s : VSessionRef)
deriving DecidableEq

variable (sv : UserServices)

def step (w : World) : Event → Option World
  | .createUser allocated nUserID session strName =>
    some (w.createUser sv allocated nUserID session strName).1
  | .removeUser pUser => some (w.removeUser sv pUser).1
  | .resetSession s => some (w.resetSession s)

structure KeysTrue (w : World) : Prop where
  key : ∀ (id : VInt32) u, w.pUsers[id]? = some u → (w.user u).nPlayerID = id
  removed : ∀ (id : VInt32) u, w.pUsers[id]? = some u →
    (w.removeUser sv u).2 = true ∧ ∀ id' : VInt32, (w.removeUser sv u).1.pUsers[id']? ≠ some u

/-- A session is torn down only when its user is not registered, or registered under 0. -/
def ResetUnregistered (w : World) (e : Event) : Prop :=
  ∀ s u (id : VInt32), e = .resetSession s → w.userOf s = some u → w.pUsers[id]? = some u → id = 0

structure Keyed (w : World) : Prop where
  key : ∀ (id : VInt32) u, w.pUsers[id]? = some u → (w.user u).nPlayerID = id
  created : ∀ (id : VInt32) u, w.pUsers[id]? = some u → u < w.nextUser

section Step
variable {sv} {w t : World} {e : Event}

theorem userAlive_of_find {u : VChatUserRef} {id : VInt32} (h : w.pUsers[id]? = some u) :
    w.userAlive u = true := by
  have hmem := Std.TreeMap.mem_toList_iff_getElem?_eq_some.mpr h
  rw [userAlive, Bool.or_eq_true, List.any_eq_true]
  exact .inr ⟨(id, u), hmem, decide_eq_true rfl⟩

theorem keyed_prepareUser (h : Keyed w) (nUserID : VInt32) (session : Option VSessionRef)
    (strName : String) : Keyed (w.prepareUser nUserID session strName) := by
  refine ⟨fun id u hu => ?_, fun id u hu => ?_⟩
  · rw [prepareUser_pUsers] at hu
    have hne : u ≠ w.nextUser := Nat.ne_of_lt (h.created id u hu)
    rw [prepareUser_nPlayerID, if_neg hne]
    exact h.key id u hu
  · rw [prepareUser_pUsers] at hu
    rw [prepareUser_nextUser]
    exact Nat.lt_succ_of_lt (h.created id u hu)

theorem keyed_insertUser (hsv : sv.Lawful) (h : Keyed w) {u : VChatUserRef}
    (hlt : u < w.nextUser) (hnew : ∀ id : VInt32, w.pUsers[id]? ≠ some u) :
    Keyed (w.insertUser sv u) := by
  refine ⟨fun id v hv => ?_, fun id v hv => ?_⟩
  · rw [insertUser_find hsv] at hv
    split_ifs at hv with hid
    · obtain rfl := Option.some.inj hv
      rw [insertUser_nPlayerID hsv (hnew _), hid]
    · rw [insertUser_nPlayerID hsv fun hold => hid ((h.key _ v hold).symm.trans (h.key id v hv))]
      exact h.key id v hv
  · rw [insertUser_find hsv] at hv
    rw [insertUser_nextUser hsv]
    split_ifs at hv
    · exact Option.some.inj hv ▸ hlt
    · exact h.created id v hv

theorem keyed_createUser (hsv : sv.Lawful) (h : Keyed w) (allocated : Bool) (nUserID : VInt32)
    (session : Option VSessionRef) (strName : String) :
    Keyed (w.createUser sv allocated nUserID session strName).1 := by
  simp only [createUser, addUser]
  have hprepared := keyed_prepareUser h nUserID session strName
  split_ifs
  · refine keyed_insertUser hsv hprepared ?_ fun id hid => ?_
    · rw [prepareUser_nextUser]
      exact Nat.lt_succ_self _
    · rw [prepareUser_pUsers] at hid
      exact Nat.lt_irrefl _ (h.created id _ hid)
  · exact hprepared
  · exact h
  · exact h

theorem keyed_removeUser (hsv : sv.Lawful) (h : Keyed w) (u : VChatUserRef) :
    Keyed (w.removeUser sv u).1 := by
  by_cases hu : w.pUsers[(w.user u).nPlayerID]? = some u
  · obtain ⟨-, hmap, hnext, hid⟩ := removeUser_of_find hsv hu
    refine ⟨fun id v hv => ?_, fun id v hv => ?_⟩
    · rw [hmap, Std.TreeMap.getElem?_erase] at hv
      split_ifs at hv with hne
      have hvu : v ≠ u := by
        rintro rfl
        exact hne (by rw [Std.LawfulEqCmp.compare_eq_iff_eq, h.key id v hv])
      rw [hid v hvu, h.key id v hv]
    · rw [hmap, Std.TreeMap.getElem?_erase] at hv
      split_ifs at hv
      rw [hnext]
      exact h.created id v hv
  · rw [removeUser_of_not_find hu]
    exact h

theorem keysTrue_of_keyed (hsv : sv.Lawful) (h : Keyed w) : KeysTrue sv w := by
  refine ⟨h.key, fun id u hu => ?_⟩
  have hfind : w.pUsers[(w.user u).nPlayerID]? = some u := by rw [h.key id u hu, hu]
  obtain ⟨hret, hmap, -, -⟩ := removeUser_of_find hsv hfind
  refine ⟨hret, fun id' hid' => ?_⟩
  rw [hmap, Std.TreeMap.getElem?_erase] at hid'
  split_ifs at hid' with hne
  exact hne (by rw [Std.LawfulEqCmp.compare_eq_iff_eq, h.key id' u hid'])

theorem resetSession_of_alive {s : VSessionRef} {u : VChatUserRef} (hs : w.userOf s = some u)
    (hu : w.userAlive u = true) : w.resetSession s = w.modifyUser u VChatUser.closeSession := by
  rw [resetSession, hs, Option.filter_some, if_pos hu]

theorem resetSession_cases (w : World) (s : VSessionRef) :
    w.resetSession s = w ∨
      ∃ u, w.userOf s = some u ∧ w.resetSession s = w.modifyUser u VChatUser.closeSession := by
  unfold resetSession
  cases h : (w.userOf s).filter w.userAlive with
  | none => exact .inl rfl
  | some u => exact .inr ⟨u, (Option.filter_eq_some_iff.mp h).1, rfl⟩

theorem resetSession_pUsers (w : World) (s : VSessionRef) :
    (w.resetSession s).pUsers = w.pUsers ∧ (w.resetSession s).nextUser = w.nextUser := by
  rcases resetSession_cases w s with heq | ⟨u, -, heq⟩ <;> rw [heq] <;> exact ⟨rfl, rfl⟩

theorem created_resetSession (h : Keyed w) (s : VSessionRef) (id : VInt32) (u : VChatUserRef)
    (hu : (w.resetSession s).pUsers[id]? = some u) : u < (w.resetSession s).nextUser := by
  rw [(resetSession_pUsers w s).1] at hu
  rw [(resetSession_pUsers w s).2]
  exact h.created id u hu

/-- Closing the session of a registered user sets its id to 0, which is its key only if it was
registered under 0. -/
theorem key_resetSession_iff (h : Keyed w) (s : VSessionRef) :
    (∀ u (id : VInt32), w.userOf s = some u → w.pUsers[id]? = some u → id = 0) ↔
      ∀ (id : VInt32) u, (w.resetSession s).pUsers[id]? = some u →
        ((w.resetSession s).user u).nPlayerID = id := by
  rw [(resetSession_pUsers w s).1]
  constructor
  · intro hreset id u hu
    rcases resetSession_cases w s with heq | ⟨v, hv, heq⟩
    · rw [heq]
      exact h.key id u hu
    · rw [heq, modifyUser_user]
      split_ifs with huv
      · subst huv
        exact (hreset u id hv hu).symm
      · exact h.key id u hu
  · intro hkey u id hs hu
    -- a registered user can always be locked, so its session is closed for good
    have hid := hkey id u hu
    rw [resetSession_of_alive hs (userAlive_of_find hu), modifyUser_user_self] at hid
    exact hid.symm

theorem resetUnregistered_iff (hsv : sv.Lawful) (h : Keyed w) (hstep : step sv w e = some t) :
    ResetUnregistered w e ↔ KeysTrue sv t := by
  cases e with
  | createUser allocated nUserID session strName =>
    obtain rfl := Option.some.inj hstep
    exact iff_of_true (by simp [ResetUnregistered])
      (keysTrue_of_keyed hsv (keyed_createUser hsv h allocated nUserID session strName))
  | removeUser pUser =>
    obtain rfl := Option.some.inj hstep
    exact iff_of_true (by simp [ResetUnregistered])
      (keysTrue_of_keyed hsv (keyed_removeUser hsv h pUser))
  | resetSession s =>
    obtain rfl := Option.some.inj hstep
    constructor
    · intro hreset
      have hkey := (key_resetSession_iff h s).mp fun u id => hreset s u id rfl
      exact keysTrue_of_keyed hsv ⟨hkey, created_resetSession h s⟩
    · intro ht s' u id heq
      cases heq
      exact (key_resetSession_iff h s).mpr ht.key u id

theorem keyed_of_keysTrue (hsv : sv.Lawful) (h : Keyed w) (hstep : step sv w e = some t)
    (ht : KeysTrue sv t) : Keyed t := by
  refine ⟨ht.key, ?_⟩
  cases e with
  | createUser allocated nUserID session strName =>
    obtain rfl := Option.some.inj hstep
    exact (keyed_createUser hsv h allocated nUserID session strName).created
  | removeUser pUser =>
    obtain rfl := Option.some.inj hstep
    exact (keyed_removeUser hsv h pUser).created
  | resetSession s =>
    obtain rfl := Option.some.inj hstep
    exact created_resetSession h s

end Step

/-- From an empty registry, all users stay registered under their own ids, and removable, if
and only if no session is torn down while its user is registered under another id than 0. -/
theorem registry_run_iff {sv : UserServices} (hsv : sv.Lawful) {w : World}
    (hempty : ∀ id : VInt32, w.pUsers[id]? = none) (es : List Event) :
    Along (step sv) (fun w e _ => ResetUnregistered w e) w es ↔
      Along (step sv) (fun _ _ t => KeysTrue sv t) w es := by
  have h₀ : Keyed w := by
    constructor <;> intro id u hu <;> rw [hempty] at hu <;> cases hu
  exact along_iff_along (fun _ _ _ hw hstep ht => keyed_of_keysTrue hsv hw hstep ht)
    (fun _ _ _ hw hstep => resetUnregistered_iff hsv hw hstep) es h₀

/-- The session of a user that was replaced is torn down, and that of one that was removed. -/
theorem registry_run_iff_replaced :
    Along (step (.plain 9)) (fun _ _ t => KeysTrue (.plain 9) t) start
      [.createUser true 5 (some 7) "a", .createUser true 5 (some 8) "a", .resetSession 7,
        .removeUser 1, .resetSession 8] := by
  have hlisted {w : World} {s : VSessionRef} {l : List (VInt32 × VChatUserRef)}
      (hlist : w.pUsers.toList = l) (hl : ∀ x ∈ l, w.userOf s ≠ some x.2) :
      ResetUnregistered w (.resetSession s) := by
    rintro s' u id ⟨⟩ hs hu
    have hmem : (id, u) ∈ l := hlist ▸ Std.TreeMap.mem_toList_iff_getElem?_eq_some.mpr hu
    exact absurd hs (hl (id, u) hmem)
  refine (registry_run_iff (UserServices.lawful_plain 9) (fun _ => Std.TreeMap.getElem?_emptyc)
    _).mp ?_
  refine .cons rfl (by rintro _ _ _ ⟨⟩) (.cons rfl (by rintro _ _ _ ⟨⟩) ?_)
  refine .cons rfl (hlisted (l := [(5, 1)]) rfl (by decide)) ?_
  refine .cons rfl (by rintro _ _ _ ⟨⟩) ?_
  exact .cons rfl (hlisted (l := []) rfl (by decide)) trivial

/-- A connection lost before the user is removed: the user stays registered under 5 with id 0,
and cannot be removed. -/
theorem not_keysTrue_disconnected : ∃ w,
    exec (step (.plain 9)) start [.createUser true 5 (some 7) "a", .resetSession 7] = some w ∧
      w.pUsers[(5 : VInt32)]? = some 0 ∧ (w.user 0).nPlayerID = 0 ∧
        (w.removeUser (.plain 9) 0).2 = false :=
  ⟨_, rfl, by decide, by decide, by decide⟩

end VChat.Registry
