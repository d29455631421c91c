import VChat.Chat.World

/-! The registry of users: creating, registering, replacing and removing them. -/

namespace VChat

/-- The limit of the configuration, and what a user does outside this repository when it has
to go: `JoinRoom(NullRoom)` and `Close`. -/
structure UserServices where
  nMaxPlayer : VInt32
  joinNullRoom : World → VChatUserRef → World
  close : World → VChatUserRef → World

/-- Both leave the registry and the ids of other users alone, and create no users. -/
structure UserServices.Lawful (sv : UserServices) : Prop where
  joinNullRoom_pUsers : ∀ w u, (sv.joinNullRoom w u).pUsers = w.pUsers
  joinNullRoom_nextUser : ∀ w u, (sv.joinNullRoom w u).nextUser = w.nextUser
  joinNullRoom_nPlayerID : ∀ w u v, v ≠ u →
    ((sv.joinNullRoom w u).user v).nPlayerID = (w.user v).nPlayerID
  close_pUsers : ∀ w u, (sv.close w u).pUsers = w.pUsers
  close_nextUser : ∀ w u, (sv.close w u).nextUser = w.nextUser
  close_nPlayerID : ∀ w u v, v ≠ u →
    ((sv.close w u).user v).nPlayerID = (w.user v).nPlayerID

def UserServices.plain (nMaxPlayer : VInt32) : UserServices :=
  ⟨nMaxPlayer, fun w _ => w, fun w _ => w⟩

theorem UserServices.lawful_plain (nMaxPlayer : VInt32) : (plain nMaxPlayer).Lawful :=
  ⟨fun _ _ => rfl, fun _ _ => rfl, fun _ _ _ _ => rfl, fun _ _ => rfl, fun _ _ => rfl,
    fun _ _ _ _ => rfl⟩

/-- The constructor leaves `m_nPlayerID` and `m_CrcTable` as the memory was. -/
def VChatUser.new (memory : VChatUser) : VChatUser :=
  { memory with
    state := .unknow
    session := none
    nSeq := 0
    nKey := 0
    nServerID := 0
    strUserName := ""
    room := none }

namespace World

/-- `UserAllocator::Create`. -/
def allocateUser (w : World) : World :=
  { w.modifyUser w.nextUser VChatUser.new with nextUser := w.nextUser + 1 }

def setSessionExternal (w : World) (u : VChatUserRef) (pSession : Option VSessionRef) : World :=
  match pSession with
  | some s =>
    { w.modifyUser u fun usr => { usr with session := some s } with
      userOf := fun s' => if s' = s then some u else w.userOf s' }
  | none => w.modifyUser u fun usr => { usr with session := none }

def setUserName (w : World) (u : VChatUserRef) (strName : String) : World :=
  w.modifyUser u fun usr => { usr with strUserName := strName }

def setPlayerID (w : World) (u : VChatUserRef) (nUserID : VInt32) : World :=
  w.modifyUser u fun usr => { usr with nPlayerID := nUserID }

/-- The middle of `CreateUser`, outside any lock: a fresh user with session, name and id. -/
def prepareUser (w : World) (nUserID : VInt32) (session : Option VSessionRef) (strName : String) :
    World :=
  let user := w.nextUser
  let w := w.allocateUser
  let w := w.setSessionExternal user session
  let w := w.setUserName user strName
  w.setPlayerID user nUserID

def getUserCount (w : World) : VInt32 := Int32.ofNat w.pUsers.size

variable (sv : UserServices)

def insertUser (w : World) (pUser : VChatUserRef) : World :=
  let id := (w.user pUser).nPlayerID
  let inserted := { w with pUsers := w.pUsers.insert id pUser }
  match w.pUsers[id]? with
  | some pOldPlayer =>
    let w := sv.close (sv.joinNullRoom inserted pOldPlayer) pOldPlayer
    w.modifyUser pOldPlayer fun usr => { usr with toVUser := usr.toVUser.setState .kick }
  | none => inserted

def addUser (w : World) (pUser : VChatUserRef) : World × Bool :=
  if w.getUserCount < sv.nMaxPlayer then (w.insertUser sv pUser, true) else (w, false)

/-- `allocated` says whether the allocator had memory for the user. -/
def createUser (w : World) (allocated : Bool) (nUserID : VInt32) (session : Option VSessionRef)
    (strName : String) : World × Option VChatUserRef :=
  if w.getUserCount < sv.nMaxPlayer then
    if allocated then
      let user := w.nextUser
      let w := w.prepareUser nUserID session strName
      ((w.addUser sv user).1, some user)
    else (w, none)
  else (w, none)

def removeUser (w : World) (pUser : VChatUserRef) : World × Bool :=
  let id := (w.user pUser).nPlayerID
  if w.pUsers[id]? = some pUser then
    let w := sv.close (sv.joinNullRoom w pUser) pUser
    ({ w with pUsers := w.pUsers.erase id }, true)
  else (w, false)

def userAlive (w : World) (u : VChatUserRef) : Bool :=
  w.held u || w.pUsers.toList.any fun it => it.2 = u

/-- `session::reset`: the attached user, if it can be locked, closes its session. -/
def resetSession (w : World) (s : VSessionRef) : World :=
  match (w.userOf s).filter w.userAlive with
  | some u => w.modifyUser u VChatUser.closeSession
  | none => w

theorem prepareUser_pUsers (w : World) (nUserID : VInt32) (session : Option VSessionRef)
    (strName : String) : (w.prepareUser nUserID session strName).pUsers = w.pUsers := by
  cases session <;> rfl

theorem prepareUser_nextUser (w : World) (nUserID : VInt32) (session : Option VSessionRef)
    (strName : String) : (w.prepareUser nUserID session strName).nextUser = w.nextUser + 1 := by
  cases session <;> rfl

theorem prepareUser_nPlayerID (w : World) (nUserID : VInt32) (session : Option VSessionRef)
    (strName : String) (v : VChatUserRef) :
    ((w.prepareUser nUserID session strName).user v).nPlayerID =
      if v = w.nextUser then nUserID else (w.user v).nPlayerID := by
  by_cases hv : v = w.nextUser
  · simp [prepareUser, setPlayerID, hv]
  · cases session <;>
      simp [prepareUser, setPlayerID, setUserName, setSessionExternal, allocateUser,
        modifyUser_user, hv]

section Lawful
variable {sv} (hsv : sv.Lawful)
include hsv

theorem insertUser_pUsers (w : World) (u : VChatUserRef) :
    (w.insertUser sv u).pUsers = w.pUsers.insert (w.user u).nPlayerID u := by
  simp only [insertUser]
  split
  · rw [modifyUser_pUsers, hsv.close_pUsers, hsv.joinNullRoom_pUsers]
  · rfl

theorem insertUser_find (w : World) (u : VChatUserRef) (id : VInt32) :
    (w.insertUser sv u).pUsers[id]? =
      if (w.user u).nPlayerID = id then some u else w.pUsers[id]? := by
  rw [insertUser_pUsers hsv]
  simp [Std.TreeMap.getElem?_insert]

theorem insertUser_nextUser (w : World) (u : VChatUserRef) :
    (w.insertUser sv u).nextUser = w.nextUser := by
  simp only [insertUser]
  split
  · rw [modifyUser_nextUser, hsv.close_nextUser, hsv.joinNullRoom_nextUser]
  · rfl

theorem insertUser_nPlayerID {w : World} {u v : VChatUserRef}
    (hv : w.pUsers[(w.user u).nPlayerID]? ≠ some v) :
    ((w.insertUser sv u).user v).nPlayerID = (w.user v).nPlayerID := by
  simp only [insertUser]
  split
  · rename_i old hold
    have hne : v ≠ old := fun h => hv (h ▸ hold)
    rw [modifyUser_user, if_neg hne, hsv.close_nPlayerID _ _ _ hne,
      hsv.joinNullRoom_nPlayerID _ _ _ hne]
  · rfl

theorem removeUser_of_find {w : World} {u : VChatUserRef}
    (hu : w.pUsers[(w.user u).nPlayerID]? = some u) :
    (w.removeUser sv u).2 = true ∧
      (w.removeUser sv u).1.pUsers = w.pUsers.erase (w.user u).nPlayerID ∧
      (w.removeUser sv u).1.nextUser = w.nextUser ∧
      ∀ v, v ≠ u → ((w.removeUser sv u).1.user v).nPlayerID = (w.user v).nPlayerID := by
  simp only [removeUser, hu, if_true]
  refine ⟨trivial, ?_, ?_, fun v hv => ?_⟩
  · rw [hsv.close_pUsers, hsv.joinNullRoom_pUsers]
  · rw [hsv.close_nextUser, hsv.joinNullRoom_nextUser]
  · rw [hsv.close_nPlayerID _ _ _ hv, hsv.joinNullRoom_nPlayerID _ _ _ hv]

omit hsv in
theorem removeUser_of_not_find {w : World} {u : VChatUserRef}
    (hu : w.pUsers[(w.user u).nPlayerID]? ≠ some u) : w.removeUser sv u = (w, false) := if_neg hu

end Lawful

end World
end VChat
