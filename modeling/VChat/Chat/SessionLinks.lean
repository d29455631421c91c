import VChat.Chat.UserManager
import VChat.Transition.Runs
import VChat.Transition.TwoSided

/-! Logging in and out: a session and its user refer to each other by weak references, which the
setters write one side at a time. -/

namespace VChat

/-- Both leave the references between sessions and users alone, but that the user who goes may drop
its session, and end no one's ownership. -/
structure UserServices.KeepsSessions (sv : UserServices) : Prop extends sv.Lawful where
  joinNullRoom_userOf : ∀ w u, (sv.joinNullRoom w u).userOf = w.userOf
  joinNullRoom_alive : ∀ w u, (sv.joinNullRoom w u).alive = w.alive
  joinNullRoom_held : ∀ w u, (sv.joinNullRoom w u).held = w.held
  joinNullRoom_session : ∀ w u v, ((sv.joinNullRoom w u).user v).session = (w.user v).session ∨
    v = u ∧ ((sv.joinNullRoom w u).user v).session = none
  close_userOf : ∀ w u, (sv.close w u).userOf = w.userOf
  close_alive : ∀ w u, (sv.close w u).alive = w.alive
  close_held : ∀ w u, (sv.close w u).held = w.held
  close_session : ∀ w u v, ((sv.close w u).user v).session = (w.user v).session ∨
    v = u ∧ ((sv.close w u).user v).session = none

namespace World

def setSession (w : World) (u : VChatUserRef) (pSession : Option VSessionRef) : World :=
  w.modifyUser u fun usr => { usr with toVUser := usr.toVUser.setSessionInternal pSession }

def setSessionExternalTo (w : World) (u : VChatUserRef) (pSession : Option VSessionRef)
    (refUser : Option VChatUserRef) : World :=
  match pSession with
  | some s =>
    { w.modifyUser u fun usr => { usr with session := some s } with
      userOf := fun s' => if s' = s then refUser else w.userOf s' }
  | none => w.modifyUser u fun usr => { usr with session := none }

theorem setSessionExternal_eq (w : World) (u : VChatUserRef) (pSession : Option VSessionRef) :
    w.setSessionExternal u pSession = w.setSessionExternalTo u pSession (some u) := by
  cases pSession <;> rfl

def hold (w : World) (u : VChatUserRef) (held : Bool) : World :=
  { w with held := fun v => if v = u then held else w.held v }

def lockUser (w : World) (s : VSessionRef) : Option VChatUserRef := (w.userOf s).filter w.userAlive

/-- `session_manager::close_session`, which the last owner of a session runs: `reset`, and then
`close_socket` or the end of the object. -/
def closeSession (w : World) (s : VSessionRef) : World :=
  { w.resetSession s with
    alive := fun s' => if s' = s then false else w.alive s'
    userOf := fun s' => if s' = s then none else w.userOf s' }

end World

namespace SessionLinks
open Transition World

structure Server where
  world : World
  admitted : List VSessionRef

/-- Every session of the run is there from the start. `handlerError` and `closeSession` are the two
ways to `session::reset`; `getUser` and `release` are the first and the last owner of a user outside
the registry. -/
inductive Event where
  | login (s : VSessionRef)
  | createUser (allocated : Bool) (nUserID : VInt32) (session : Option VSessionRef)
      (strName : String)
  | addUser (pUser : VChatUserRef)
  | getUser (u : VChatUserRef)
  | release (u : VChatUserRef)
  | removeUser (pUser : VChatUserRef)
  | setSession (u : VChatUserRef) (pSession : Option VSessionRef)
  | setSessionExternal (u : VChatUserRef) (pSession : Option VSessionRef)
      (refUser : Option VChatUserRef)
  | userCloseSession (u : VChatUserRef)
  | handlerError (s : VSessionRef)
  | closeSession (s : VSessionRef)

variable (sv : UserServices)

def creates (w : World) (allocated : Bool) : Prop := w.getUserCount < sv.nMaxPlayer ∧ allocated

instance (w : World) (allocated : Bool) : Decidable (creates sv w allocated) :=
  inferInstanceAs (Decidable (_ ∧ _))

/-- `CreateUser` up to `AddUser`; the new user is held until the call returns. -/
def beginCreate (w : World) (allocated : Bool) (nUserID : VInt32) (session : Option VSessionRef)
    (strName : String) : World :=
  if creates sv w allocated then (w.prepareUser nUserID session strName).hold w.nextUser true
  else w

/-- Calls on a user need a reference to it, and sessions that are passed on are there. -/
def step (s : Server) : Event → Option Server
  | .login c =>
    if s.world.alive c ∧ s.world.lockUser c = none then
      some { s with admitted := c :: s.admitted }
    else none
  | .createUser allocated nUserID session strName =>
    if session.all fun c => s.world.alive c && s.admitted.contains c then
      some ⟨beginCreate sv s.world allocated nUserID session strName,
        session.elim s.admitted s.admitted.erase⟩
    else none
  | .addUser pUser =>
    if s.world.held pUser then some { s with world := (s.world.addUser sv pUser).1 } else none
  | .getUser u =>
    if s.world.userAlive u then some { s with world := s.world.hold u true } else none
  | .release u => some { s with world := s.world.hold u false }
  | .removeUser pUser => some { s with world := (s.world.removeUser sv pUser).1 }
  | .setSession u pSession =>
    if s.world.userAlive u ∧ pSession.all s.world.alive then
      some { s with world := s.world.setSession u pSession }
    else none
  | .setSessionExternal u pSession refUser =>
    if s.world.userAlive u ∧ pSession.all s.world.alive ∧ refUser.all s.world.userAlive then
      some { s with world := s.world.setSessionExternalTo u pSession refUser }
    else none
  | .userCloseSession u =>
    if s.world.userAlive u then
      some { s with world := s.world.modifyUser u VChatUser.closeSession }
    else none
  | .handlerError c =>
    if s.world.alive c then some { s with world := s.world.resetSession c } else none
  | .closeSession c =>
    if s.world.alive c then some { s with world := s.world.closeSession c } else none

def start (alive : VSessionRef → Bool) : Server := ⟨{ World.start with alive := alive }, []⟩

/-- What `reset` of `s` is to do: each user there whose session is `s` has its session closed, and
one whose session is another that is still there stays as it is. -/
def Closes (s : VSessionRef) (w t : World) : Prop :=
  ∀ u, w.userAlive u →
    ((w.user u).session = some s → t.user u = (w.user u).closeSession) ∧
      ∀ s', (w.user u).session = some s' → w.alive s' → s' ≠ s → t.user u = w.user u

def Event.reset : Event → Option VSessionRef
  | .handlerError s => some s
  | .closeSession s => some s
  | _ => none

def ResetsExactly (e : Event) (s t : Server) : Prop :=
  ∀ c, e.reset = some c → Closes c s.world t.world

/-- A login completes only while no user there is has its session, and a session and a user are
linked by hand only when that leaves neither with a partner from before. -/
def Meets (s : Server) : Event → Prop
  | .createUser allocated _ (some c) _ => creates sv s.world allocated →
    ∀ v, s.world.userAlive v → (s.world.user v).session ≠ some c
  | .setSession u (some c) => s.world.userOf c = some u ∧
    ∀ c', s.world.alive c' → s.world.userOf c' = some u → c' = c
  | .setSessionExternal u (some c) refUser => refUser = some u ∧
    (∀ v, s.world.userAlive v → v ≠ u → (s.world.user v).session ≠ some c) ∧
      ∀ c', s.world.alive c' → c' ≠ c → s.world.userOf c' ≠ some u
  | _ => True

def links (w : World) : TwoSided VChatUserRef VSessionRef where
  fst := fun u => (w.user u).session
  snd := w.userOf
  left := fun u => w.userAlive u
  right := fun s => w.alive s

structure Known (w : World) : Prop where
  userAlive : ∀ u, w.userAlive u → u < w.nextUser
  userOf : ∀ s u, w.userOf s = some u → u < w.nextUser

structure Kept (w t : World) : Prop where
  nextUser : t.nextUser = w.nextUser
  userAlive : ∀ u, t.userAlive u → w.userAlive u
  alive : ∀ s, t.alive s → w.alive s
  userOf : ∀ s u, t.userOf s = some u → w.userOf s = some u
  userOf_alive : ∀ s, t.alive s → t.userOf s = w.userOf s
  session : ∀ u s, (t.user u).session = some s → (w.user u).session = some s

section
variable {w t : World} {u v : VChatUserRef} {c : VSessionRef}

theorem lockUser_eq_some {s : VSessionRef} :
    w.lockUser s = some u ↔ w.userOf s = some u ∧ w.userAlive u = true :=
  Option.filter_eq_some_iff

theorem resetSession_eq (w : World) (s : VSessionRef) :
    w.resetSession s = (w.lockUser s).elim w fun u => w.modifyUser u VChatUser.closeSession := by
  unfold resetSession lockUser
  cases (w.userOf s).filter w.userAlive <;> rfl

theorem resetSession_user (w : World) (s : VSessionRef) (u : VChatUserRef) :
    (w.resetSession s).user u =
      if w.lockUser s = some u then (w.user u).closeSession else w.user u := by
  rw [resetSession_eq]
  cases w.lockUser s with
  | none => rfl
  | some v =>
    rw [Option.elim_some, modifyUser_user]
    by_cases huv : u = v
    · rw [if_pos huv, if_pos (congrArg some huv.symm)]
    · rw [if_neg huv, if_neg fun h => huv (Option.some.inj h).symm]

theorem closeSession_ne {usr : VChatUser} {s : VSessionRef} (h : usr.session = some s) :
    usr.closeSession ≠ usr := by
  intro heq
  have hnone : usr.closeSession.session = none := rfl
  rw [heq, h] at hnone
  cases hnone

/-- The references are exact if and only if every reset, if it came now, closed what it is to. -/
theorem closes_iff :
    (∀ s, w.alive s → Closes s w (w.resetSession s)) ↔ (links w).Exact := by
  constructor
  · intro h
    constructor
    · intro u s hu hs hus
      have hclosed := (h s hs u hu).1 hus
      rw [resetSession_user] at hclosed
      split_ifs at hclosed with hlock
      · exact (lockUser_eq_some.mp hlock).1
      · exact absurd hclosed.symm (closeSession_ne hus)
    · intro u s s' hu hs hs' hsu hus'
      by_contra hne
      have hkept := (h s hs u hu).2 s' hus' hs' hne
      rw [resetSession_user, if_pos (lockUser_eq_some.mpr ⟨hsu, hu⟩)] at hkept
      exact closeSession_ne hus' hkept
  · intro h s hs u hu
    refine ⟨fun hus => ?_, fun s' hus' hs' hne => ?_⟩
    · have hlock : w.lockUser s = some u := lockUser_eq_some.mpr ⟨h.points u s hu hs hus, hu⟩
      rw [resetSession_user, if_pos hlock]
    · rw [resetSession_user]
      refine if_neg fun hlock => ?_
      exact hne (h.only u s s' hu hs hs' (lockUser_eq_some.mp hlock).1 hus')

theorem userAlive_iff :
    w.userAlive u = true ↔ w.held u = true ∨ ∃ id : VInt32, w.pUsers[id]? = some u := by
  rw [userAlive, Bool.or_eq_true, List.any_eq_true]
  refine or_congr_right ⟨?_, ?_⟩
  · rintro ⟨it, hit, hu⟩
    obtain rfl := of_decide_eq_true hu
    exact ⟨it.1, Std.TreeMap.mem_toList_iff_getElem?_eq_some.mp hit⟩
  · rintro ⟨id, hid⟩
    exact ⟨(id, u), Std.TreeMap.mem_toList_iff_getElem?_eq_some.mpr hid, decide_eq_true rfl⟩

theorem Kept.exact (h : Kept w t) (hw : (links w).Exact) : (links t).Exact :=
  hw.weaken h.userAlive h.alive h.userOf_alive fun u s _ => h.session u s

theorem Kept.known (h : Kept w t) (hw : Known w) : Known t where
  userAlive := fun u hu => h.nextUser ▸ hw.userAlive u (h.userAlive u hu)
  userOf := fun s u hs => h.nextUser ▸ hw.userOf s u (h.userOf s u hs)

theorem Kept.refl (w : World) : Kept w w :=
  ⟨rfl, fun _ => id, fun _ => id, fun _ _ => id, fun _ _ => rfl, fun _ _ => id⟩

theorem kept_modifyUser (w : World) (u : VChatUserRef) {f : VChatUser → VChatUser}
    (hf : ∀ usr, (f usr).session = usr.session ∨ (f usr).session = none) :
    Kept w (w.modifyUser u f) := by
  refine ⟨rfl, fun _ => id, fun _ => id, fun _ _ => id, fun _ _ => rfl, fun v s hs => ?_⟩
  rw [modifyUser_user] at hs
  split_ifs at hs
  · rcases hf (w.user v) with hsame | hnone
    · exact hsame ▸ hs
    · rw [hnone] at hs
      cases hs
  · exact hs

theorem kept_hold_false (w : World) (u : VChatUserRef) : Kept w (w.hold u false) := by
  refine ⟨rfl, fun v hv => ?_, fun _ => id, fun _ _ => id, fun _ _ => rfl, fun _ _ => id⟩
  rw [userAlive_iff] at hv ⊢
  refine hv.imp_left fun hheld => ?_
  simp only [hold] at hheld
  split_ifs at hheld
  exact hheld

theorem kept_hold_true (hu : w.userAlive u = true) : Kept w (w.hold u true) := by
  refine ⟨rfl, fun v hv => ?_, fun _ => id, fun _ _ => id, fun _ _ => rfl, fun _ _ => id⟩
  by_cases hvu : v = u
  · exact hvu ▸ hu
  · rw [userAlive_iff] at hv ⊢
    exact hv.imp_left fun hheld => (if_neg hvu).symm.trans hheld

theorem kept_resetSession (w : World) (s : VSessionRef) : Kept w (w.resetSession s) := by
  rw [resetSession_eq]
  cases w.lockUser s with
  | none => exact .refl w
  | some u => exact kept_modifyUser w u fun _ => .inr rfl

theorem kept_closeSession (w : World) (s : VSessionRef) : Kept w (w.closeSession s) := by
  have hreset := kept_resetSession w s
  have halive : ∀ s', (w.closeSession s).alive s' = true → s' ≠ s ∧ w.alive s' = true := by
    intro s' hs'
    simp only [World.closeSession] at hs'
    split_ifs at hs' with h
    exact ⟨h, hs'⟩
  refine ⟨hreset.nextUser, hreset.userAlive, fun s' hs' => (halive s' hs').2, ?_, ?_,
    hreset.session⟩
  · intro s' u hs'
    simp only [World.closeSession] at hs'
    split_ifs at hs'
    exact hs'
  · exact fun s' hs' => if_neg (halive s' hs').1

structure SameSessions (w t : World) : Prop where
  userOf : t.userOf = w.userOf
  alive : t.alive = w.alive
  held : t.held = w.held
  session : ∀ v, (t.user v).session = (w.user v).session ∨ (t.user v).session = none

theorem SameSessions.trans {s : World} (h : SameSessions w t) (h' : SameSessions t s) :
    SameSessions w s := by
  refine ⟨h'.userOf.trans h.userOf, h'.alive.trans h.alive, h'.held.trans h.held, fun v => ?_⟩
  rcases h'.session v with hsame | hnone
  · rw [hsame]
    exact h.session v
  · exact .inr hnone

theorem SameSessions.kept (h : SameSessions w t) (hnextUser : t.nextUser = w.nextUser)
    (hfind : ∀ (id : VInt32) u, t.pUsers[id]? = some u → w.userAlive u) : Kept w t := by
  refine ⟨hnextUser, fun u hu => ?_, fun s hs => h.alive ▸ hs, fun s u hs => h.userOf ▸ hs,
    fun s _ => by rw [h.userOf], fun u s hs => ?_⟩
  · rcases userAlive_iff.mp hu with hheld | ⟨id, hid⟩
    · exact userAlive_iff.mpr (.inl (h.held ▸ hheld))
    · exact hfind id u hid
  · rcases h.session u with hsame | hnone
    · exact hsame ▸ hs
    · rw [hnone] at hs
      cases hs

section Services
variable {sv : UserServices} (hsv : sv.KeepsSessions)
include hsv

theorem sameSessions_sendAway (w : World) (u : VChatUserRef) :
    SameSessions w (sv.close (sv.joinNullRoom w u) u) := by
  have hjoin : SameSessions w (sv.joinNullRoom w u) :=
    ⟨hsv.joinNullRoom_userOf w u, hsv.joinNullRoom_alive w u, hsv.joinNullRoom_held w u,
      fun v => (hsv.joinNullRoom_session w u v).imp_right And.right⟩
  exact hjoin.trans ⟨hsv.close_userOf _ u, hsv.close_alive _ u, hsv.close_held _ u,
    fun v => (hsv.close_session _ u v).imp_right And.right⟩

theorem sameSessions_insertUser (w : World) (u : VChatUserRef) :
    SameSessions w (w.insertUser sv u) := by
  have hinsert : ∀ pUsers, SameSessions w { w with pUsers := pUsers } :=
    fun _ => ⟨rfl, rfl, rfl, fun _ => .inl rfl⟩
  simp only [insertUser]
  split
  · rename_i old _
    refine (hinsert _).trans ((sameSessions_sendAway hsv _ old).trans ⟨rfl, rfl, rfl, fun v => ?_⟩)
    left
    rw [modifyUser_user]
    split_ifs
    · rfl
    · rfl
  · exact hinsert _

theorem kept_addUser (hu : w.userAlive u = true) : Kept w (w.addUser sv u).1 := by
  unfold addUser
  split_ifs
  · refine (sameSessions_insertUser hsv w u).kept (insertUser_nextUser hsv.toLawful w u) ?_
    intro id v hv
    rw [insertUser_find hsv.toLawful] at hv
    split_ifs at hv
    · exact Option.some.inj hv ▸ hu
    · exact userAlive_iff.mpr (.inr ⟨id, hv⟩)
  · exact .refl w

theorem kept_removeUser (w : World) (u : VChatUserRef) : Kept w (w.removeUser sv u).1 := by
  by_cases hfind : w.pUsers[(w.user u).nPlayerID]? = some u
  · obtain ⟨-, hpUsers, hnextUser, -⟩ := removeUser_of_find hsv.toLawful hfind
    have hsame : SameSessions w (w.removeUser sv u).1 := by
      simp only [removeUser, hfind, if_true]
      exact (sameSessions_sendAway hsv w u).trans ⟨rfl, rfl, rfl, fun _ => .inl rfl⟩
    -- one entry less in the registry, and every user there was there before
    refine hsame.kept hnextUser fun id v hv => ?_
    rw [hpUsers, Std.TreeMap.getElem?_erase] at hv
    split_ifs at hv
    exact userAlive_iff.mpr (.inr ⟨id, hv⟩)
  · rw [removeUser_of_not_find hfind]
    exact .refl w

end Services

inductive Effect (sv : UserServices) (s t : Server) : Event → Prop
  | kept {e : Event} (h : Kept s.world t.world) (hmeets : Meets sv s e) : Effect sv s t e
  | created {allocated : Bool} {nUserID : VInt32} {session : Option VSessionRef} {strName : String}
      (hcreates : creates sv s.world allocated)
      (hsession : ∀ c, session = some c → s.world.alive c = true)
      (ht : t.world = (s.world.prepareUser nUserID session strName).hold s.world.nextUser true) :
      Effect sv s t (.createUser allocated nUserID session strName)
  | attached {u : VChatUserRef} {c : VSessionRef} (hu : s.world.userAlive u = true)
      (hc : s.world.alive c = true) (ht : t.world = s.world.setSession u (some c)) :
      Effect sv s t (.setSession u (some c))
  | linked {u : VChatUserRef} {c : VSessionRef} {refUser : Option VChatUserRef}
      (hu : s.world.userAlive u = true) (hc : s.world.alive c = true)
      (hrefUser : ∀ v, refUser = some v → s.world.userAlive v = true)
      (ht : t.world = s.world.setSessionExternalTo u (some c) refUser) :
      Effect sv s t (.setSessionExternal u (some c) refUser)

theorem effect_of_step {sv : UserServices} (hsv : sv.KeepsSessions) {s t : Server} {e : Event}
    (hstep : step sv s e = some t) : Effect sv s t e := by
  cases e with
  | login c =>
    obtain ⟨-, rfl⟩ := by simpa [step] using hstep
    exact .kept (.refl _) trivial
  | createUser allocated nUserID session strName =>
    obtain ⟨hsession, rfl⟩ := by simpa [step] using hstep
    by_cases hcreates : creates sv s.world allocated
    · have halive : ∀ c, session = some c → s.world.alive c = true := by
        rintro c rfl
        obtain ⟨hc, -⟩ := by simpa using hsession
        exact hc
      exact .created hcreates halive (if_pos hcreates)
    · have hworld : beginCreate sv s.world allocated nUserID session strName = s.world :=
        if_neg hcreates
      refine .kept (hworld.symm ▸ .refl s.world) ?_
      -- nothing was created, so nothing is asked of the login
      cases session with
      | none => trivial
      | some c => exact fun h => absurd h hcreates
  | addUser pUser =>
    obtain ⟨hheld, rfl⟩ := by simpa [step] using hstep
    exact .kept (kept_addUser hsv (userAlive_iff.mpr (.inl hheld))) trivial
  | getUser u =>
    obtain ⟨hu, rfl⟩ := by simpa [step] using hstep
    exact .kept (kept_hold_true hu) trivial
  | release u =>
    obtain rfl := Option.some.inj hstep
    exact .kept (kept_hold_false _ u) trivial
  | removeUser pUser =>
    obtain rfl := Option.some.inj hstep
    exact .kept (kept_removeUser hsv _ pUser) trivial
  | setSession u pSession =>
    obtain ⟨⟨hu, hc⟩, rfl⟩ := by simpa [step] using hstep
    cases pSession with
    | none =>
      have hkept : Kept s.world (s.world.setSession u none) :=
        kept_modifyUser _ u fun _ => .inr rfl
      exact .kept hkept trivial
    | some c => exact .attached hu (by simpa using hc) rfl
  | setSessionExternal u pSession refUser =>
    obtain ⟨⟨hu, hc, hrefUser⟩, rfl⟩ := by simpa [step] using hstep
    cases pSession with
    | none =>
      have hkept : Kept s.world (s.world.modifyUser u fun usr => { usr with session := none }) :=
        kept_modifyUser _ u fun _ => .inr rfl
      exact .kept hkept trivial
    | some c => exact .linked hu (by simpa using hc) (fun v hv => by simpa [hv] using hrefUser) rfl
  | userCloseSession u =>
    obtain ⟨-, rfl⟩ := by simpa [step] using hstep
    exact .kept (kept_modifyUser _ u fun _ => .inr rfl) trivial
  | handlerError c =>
    obtain ⟨-, rfl⟩ := by simpa [step] using hstep
    exact .kept (kept_resetSession _ c) trivial
  | closeSession c =>
    obtain ⟨-, rfl⟩ := by simpa [step] using hstep
    exact .kept (kept_closeSession _ c) trivial

def newcomer (w : World) : World := w.allocateUser.hold w.nextUser true

theorem newcomer_userAlive (hv : (newcomer w).userAlive v = true) :
    v = w.nextUser ∨ w.userAlive v = true := by
  by_cases hnew : v = w.nextUser
  · exact .inl hnew
  · right
    rw [userAlive_iff] at hv ⊢
    exact hv.imp_left fun hheld => (if_neg hnew).symm.trans hheld

theorem newcomer_userAlive_self (w : World) : (newcomer w).userAlive w.nextUser = true :=
  userAlive_iff.mpr (.inl (if_pos rfl))

theorem newcomer_userAlive_of (hv : w.userAlive v = true) : (newcomer w).userAlive v = true := by
  rw [userAlive_iff] at hv ⊢
  refine hv.imp_left fun hheld => ?_
  show (if v = w.nextUser then true else w.held v) = true
  split_ifs
  · rfl
  · exact hheld

theorem newcomer_session (w : World) (v : VChatUserRef) :
    ((newcomer w).user v).session = if v = w.nextUser then none else (w.user v).session := by
  show (if v = w.nextUser then VChatUser.new (w.user v) else w.user v).session = _
  split_ifs
  · rfl
  · rfl

theorem exact_newcomer (hw : (links w).Exact) : (links (newcomer w)).Exact := by
  have hsession : ∀ v s, ((newcomer w).user v).session = some s →
      v ≠ w.nextUser ∧ (w.user v).session = some s := by
    intro v s hs
    rw [newcomer_session] at hs
    split_ifs at hs with hv
    exact ⟨hv, hs⟩
  have halive : ∀ v, (newcomer w).userAlive v = true → v ≠ w.nextUser → w.userAlive v = true :=
    fun v hv hnew => (newcomer_userAlive hv).resolve_left hnew
  constructor
  · intro v s hv hs hvs
    obtain ⟨hnew, hvs⟩ := hsession v s hvs
    exact hw.points v s (halive v hv hnew) hs hvs
  · intro v s s' hv hs hs' hsv hvs'
    obtain ⟨hnew, hvs'⟩ := hsession v s' hvs'
    exact hw.only v s s' (halive v hv hnew) hs hs' hsv hvs'

theorem prepareUser_session (w : World) (nUserID : VInt32) (session : Option VSessionRef)
    (strName : String) (v : VChatUserRef) :
    ((w.prepareUser nUserID session strName).user v).session =
      if v = w.nextUser then session else (w.user v).session := by
  by_cases hv : v = w.nextUser
  · cases session <;> simp [prepareUser, setPlayerID, setUserName, setSessionExternal, hv]
  · cases session <;> simp [prepareUser, setPlayerID, setUserName, setSessionExternal,
      allocateUser, modifyUser_user, hv]

theorem links_prepareUser_none (w : World) (nUserID : VInt32) (strName : String) :
    links ((w.prepareUser nUserID none strName).hold w.nextUser true) = links (newcomer w) := by
  apply TwoSided.ext
  · funext v
    exact (prepareUser_session w nUserID none strName v).trans (newcomer_session w v).symm
  · rfl
  · rfl
  · rfl

theorem links_prepareUser_some (w : World) (nUserID : VInt32) (c : VSessionRef) (strName : String) :
    links ((w.prepareUser nUserID (some c) strName).hold w.nextUser true) =
      ((links (newcomer w)).attach w.nextUser c).point c (some w.nextUser) := by
  apply TwoSided.ext
  · funext v
    show ((w.prepareUser nUserID (some c) strName).user v).session =
      if v = w.nextUser then some c else ((newcomer w).user v).session
    rw [prepareUser_session, newcomer_session]
    split_ifs
    · rfl
    · rfl
  · rfl
  · rfl
  · rfl

theorem known_newcomer (hw : Known w) : Known (newcomer w) := by
  constructor
  · intro v hv
    rcases newcomer_userAlive hv with rfl | hv
    · exact Nat.lt_succ_self _
    · exact Nat.lt_succ_of_lt (hw.userAlive v hv)
  · exact fun s v hs => Nat.lt_succ_of_lt (hw.userOf s v hs)

theorem known_prepareUser (hw : Known w) (nUserID : VInt32) (session : Option VSessionRef)
    (strName : String) :
    Known ((w.prepareUser nUserID session strName).hold w.nextUser true) := by
  have hnew := known_newcomer hw
  cases session with
  | none => exact ⟨hnew.userAlive, hnew.userOf⟩
  | some c =>
    refine ⟨hnew.userAlive, fun s v hs => ?_⟩
    replace hs : (if s = c then some w.nextUser else w.userOf s) = some v := hs
    split_ifs at hs
    · obtain rfl := Option.some.inj hs
      exact Nat.lt_succ_self _
    · exact Nat.lt_succ_of_lt (hw.userOf s v hs)

theorem Effect.known {sv : UserServices} {s t : Server} {e : Event} (h : Effect sv s t e)
    (hs : Known s.world) : Known t.world := by
  cases h with
  | kept h _ => exact h.known hs
  | created _ _ ht => exact ht ▸ known_prepareUser hs _ _ _
  | attached _ _ ht => exact ht ▸ ⟨hs.userAlive, hs.userOf⟩
  | @linked u c refUser _ _ hrefUser ht =>
    rw [ht]
    refine ⟨hs.userAlive, fun c' v hc => ?_⟩
    replace hc : (if c' = c then refUser else s.world.userOf c') = some v := hc
    split_ifs at hc
    · exact hs.userAlive v (hrefUser v hc)
    · exact hs.userOf c' v hc

theorem links_setSession (w : World) (u : VChatUserRef) (c : VSessionRef) :
    links (w.setSession u (some c)) = (links w).attach u c := by
  apply TwoSided.ext
  · funext v
    show (if v = u then _ else w.user v).session = if v = u then some c else (w.user v).session
    split_ifs
    · rfl
    · rfl
  · rfl
  · rfl
  · rfl

theorem links_setSessionExternalTo (w : World) (u : VChatUserRef) (c : VSessionRef)
    (refUser : Option VChatUserRef) :
    links (w.setSessionExternalTo u (some c) refUser) =
      ((links w).attach u c).point c refUser := by
  apply TwoSided.ext
  · have hfst : (links (w.setSession u (some c))).fst = ((links w).attach u c).fst :=
      congrArg TwoSided.fst (links_setSession w u c)
    exact hfst
  · rfl
  · rfl
  · rfl

theorem Effect.meets_iff {sv : UserServices} {s t : Server} {e : Event} (h : Effect sv s t e)
    (hknown : Known s.world) (hs : (links s.world).Exact) :
    Meets sv s e ↔ (links t.world).Exact := by
  cases h with
  | kept h hmeets => exact iff_of_true hmeets (h.exact hs)
  | @created allocated nUserID session strName hcreates hsession ht =>
    rw [ht]
    cases session with
    | none =>
      rw [links_prepareUser_none]
      exact iff_of_true trivial (exact_newcomer hs)
    | some c =>
      rw [links_prepareUser_some, TwoSided.attach_point_iff (exact_newcomer hs)
        (newcomer_userAlive_self s.world) (hsession c rfl)]
      constructor
      · intro hmeets
        refine ⟨rfl, fun v hv hnew => ?_, fun c' _ _ hc' => ?_⟩
        · show ((newcomer s.world).user v).session ≠ some c
          rw [newcomer_session, if_neg hnew]
          exact hmeets hcreates v ((newcomer_userAlive hv).resolve_left hnew)
        · exact absurd (hknown.userOf c' _ hc') (Nat.lt_irrefl _)
      · rintro ⟨-, halone, -⟩ - v hv hvc
        have hnew : v ≠ s.world.nextUser := Nat.ne_of_lt (hknown.userAlive v hv)
        apply halone v (newcomer_userAlive_of hv) hnew
        exact (newcomer_session s.world v).trans ((if_neg hnew).trans hvc)
  | @attached u c hu hc ht =>
    rw [ht, links_setSession, TwoSided.attach_iff hs hu hc]
    rfl
  | @linked u c refUser hu hc _ ht =>
    rw [ht, links_setSessionExternalTo, TwoSided.attach_point_iff hs hu hc]
    rfl

end

theorem resetsExactly_iff {sv : UserServices} {s : Server} :
    (∀ e t, step sv s e = some t → ResetsExactly e s t) ↔ (links s.world).Exact := by
  rw [← closes_iff]
  constructor
  · intro h c hc
    have hstep : step sv s (.handlerError c) = some { s with world := s.world.resetSession c } :=
      if_pos hc
    exact h _ _ hstep c rfl
  · intro h e t hstep c he
    cases e with
    | handlerError c' =>
      obtain rfl := Option.some.inj he
      obtain ⟨hc, rfl⟩ := by simpa [step] using hstep
      exact h c' hc
    | closeSession c' =>
      obtain rfl := Option.some.inj he
      obtain ⟨hc, rfl⟩ := by simpa [step] using hstep
      exact h c' hc
    | _ => cases he

/-- For every run of the setters, logins and teardowns from any sessions and no user: every reset
that is performed, and any that would come next, closes exactly the users attached to the session if
and only if every login completes on a session without a user and every link made by hand replaces
none. -/
theorem links_run_iff {sv : UserServices} (hsv : sv.KeepsSessions) (alive : VSessionRef → Bool)
    (es : List Event) :
    Along (step sv) (fun s e _ => Meets sv s e) (start alive) es ↔
      Along (step sv) (fun s e t => ResetsExactly e s t ∧
        ∀ e' u, step sv t e' = some u → ResetsExactly e' t u) (start alive) es := by
  have hstart : Known (start alive).world ∧ (links (start alive).world).Exact := by
    have hnone : ∀ u, (start alive).world.userAlive u = false := by
      intro u
      apply Bool.eq_false_iff.mpr
      intro hu
      rcases userAlive_iff.mp hu with hheld | ⟨id, hid⟩
      · cases hheld
      · simp [start, World.start] at hid
    refine ⟨⟨fun u hu => ?_, fun s u hs => ?_⟩, ⟨fun u s hu _ _ => ?_, fun u s s' hu _ _ _ _ => ?_⟩⟩
    · exact absurd hu (Bool.eq_false_iff.mp (hnone u))
    · cases hs
    · exact absurd hu (Bool.eq_false_iff.mp (hnone u))
    · exact absurd hu (Bool.eq_false_iff.mp (hnone u))
  refine along_iff_along (J := fun s => Known s.world ∧ (links s.world).Exact) ?_ ?_ es hstart
  · rintro s e t hs hstep ⟨-, hnext⟩
    exact ⟨(effect_of_step hsv hstep).known hs.1, resetsExactly_iff.mp hnext⟩
  · intro s e t hs hstep
    have hnow : ResetsExactly e s t := resetsExactly_iff.mpr hs.2 e t hstep
    rw [resetsExactly_iff, (effect_of_step hsv hstep).meets_iff hs.1 hs.2]
    exact (and_iff_right hnow).symm

theorem keepsSessions_plain (nMaxPlayer : VInt32) :
    (UserServices.plain nMaxPlayer).KeepsSessions where
  toLawful := UserServices.lawful_plain nMaxPlayer
  joinNullRoom_userOf := fun _ _ => rfl
  joinNullRoom_alive := fun _ _ => rfl
  joinNullRoom_held := fun _ _ => rfl
  joinNullRoom_session := fun _ _ _ => .inl rfl
  close_userOf := fun _ _ => rfl
  close_alive := fun _ _ => rfl
  close_held := fun _ _ => rfl
  close_session := fun _ _ _ => .inl rfl

/-- One login, registered, whose connection fails and is closed. -/
theorem links_run_iff_login :
    let sv := UserServices.plain 9
    let es : List Event := [.login 7, .createUser true 5 (some 7) "a", .addUser 0, .release 0,
      .handlerError 7, .closeSession 7]
    (∃ s, exec (step sv) (start fun _ => true) es = some s) ∧
      Along (step sv) (fun s e t => ResetsExactly e s t ∧
        ∀ e' u, step sv t e' = some u → ResetsExactly e' t u) (start fun _ => true) es := by
  intro sv es
  refine ⟨⟨_, rfl⟩, (links_run_iff (keepsSessions_plain 9) _ es).mp ?_⟩
  refine .cons rfl trivial (.cons rfl ?_ ?_)
  · intro _ v hv
    cases hv
  · exact .cons rfl trivial (.cons rfl trivial (.cons rfl trivial (.cons rfl trivial trivial)))

/-- Two logins let in on one session before the first of them is completed: the first user outlives
the connection. And a user moved to a second session, whom the end of the first logs out. -/
theorem not_resetsExactly_two_logins :
    let sv := UserServices.plain 9
    (∃ s t, exec (step sv) (start fun _ => true) [.login 7, .login 7,
          .createUser true 5 (some 7) "a", .addUser 0, .release 0,
          .createUser true 6 (some 7) "b", .addUser 1, .release 1] = some s ∧
        step sv s (.handlerError 7) = some t ∧ ¬ ResetsExactly (.handlerError 7) s t ∧
          t.world.userAlive 0 = true ∧ t.world.getSession 0 = some 7) ∧
      ∃ s t, exec (step sv) (start fun _ => true) [.login 7, .createUser true 5 (some 7) "a",
          .addUser 0, .release 0, .setSessionExternal 0 (some 8) (some 0)] = some s ∧
        step sv s (.handlerError 7) = some t ∧ ¬ ResetsExactly (.handlerError 7) s t ∧
          s.world.getSession 0 = some 8 ∧ t.world.getSession 0 = none := by
  refine ⟨⟨_, _, rfl, rfl, fun h => ?_, rfl, rfl⟩, _, _, rfl, rfl, fun h => ?_, rfl, rfl⟩
  · have hclosed := congrArg VUser.session (congrArg VChatUser.toVUser ((h 7 rfl 0 rfl).1 rfl))
    exact absurd hclosed (by decide)
  · have hkept := (h 7 rfl 0 rfl).2 8 rfl rfl (by decide)
    have hkept := congrArg VUser.session (congrArg VChatUser.toVUser hkept)
    exact absurd hkept (by decide)

end SessionLinks
end VChat
