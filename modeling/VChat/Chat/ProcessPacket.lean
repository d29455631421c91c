import VChat.Chat.RoomManager

/-! The packets of the chat range: one handler each, and the table that selects it. -/

namespace VChat

def vbytes (text : String) : List VByte := text.toUTF8.toList.map fun b => b.toBitVec

structure ZMEFriend where
  strDisplayName : String
  strURL : String
  nRoleID : List VInt32

structure UserRecord where
  nServerID : VInt32
  nSex : VInt32
  nLevel : VInt32
  strRoleName : String

structure RequestBilling where
  nZingID : Int
  strAccountName : String
  nItemID : Int

/-- What the handlers call outside this repository, and how its packet structs read. -/
structure Services where
  isGM : VChatUser → Bool
  getRoleId : Memory → VInt32
  createBufferChat : VInt32 → VInt32 → List VByte
  chatServer : VInt32
  chatGlobal : VInt32
  sequenceRoom : VInt32
  writeObject : VInt32 → List VByte
  writeString : String → List VByte
  joinRoomPacket : Memory → VInt32 × VInt32
  requestZMFriend : Memory → VInt32 × VInt32
  getZMEFriends : VInt32 → VInt32 → VInt32 → List ZMEFriend
  findRecordEx : VInt32 → Option UserRecord
  codeZM : Memory → String
  strSecretCode : String
  requestBilling : Memory → RequestBilling

inductive Action where
  | sent (packet : Sent)
  | writeLogChat (usr : VChatUserRef) (pszContent : Memory) (nType : VInt32)
  | writeLogMatchMaking (pRoom1 : VChatRoomRef) (pRoom2 : Option VChatRoomRef) (nResult : VByte)
  | addUserBanId (id : VInt32)
  | broadcastKickRole (id : VInt32)
  | requestZMEFriends (strCode strSecretCode : String) (nServerID nPlayerID : VInt32)
  | requestZCBillingURL (nServerID nPlayerID : VInt32) (strDatas : String)

/-- There is no result where a null pointer is used. -/
abbrev Handler := World → VChatUserRef → Option Memory → VUInt32 → Option (World × List Action)

namespace World

def kChatNormal : VInt32 := 0

def getUser (w : World) (nID : VInt32) : Option VChatUserRef := w.pUsers[nID]?

def setState (w : World) (u : VChatUserRef) (newState : State) : World :=
  w.modifyUser u fun usr => { usr with toVUser := usr.toVUser.setState newState }

def sendGlobalPacket (w : World) (nPacketType : S2CPacket) (packet : List VByte) : List Sent :=
  w.pUsers.toList.map fun it => ⟨it.2, nPacketType, packet⟩

variable (sv : Services)

def processChat : Handler := fun w usr packet nSize =>
  match packet with
  | some packet =>
    if nSize.toNat > 1 ∧ packet (nSize.toNat - 1) = 0 then
      let log := Action.writeLogChat usr packet 1
      match (w.user usr).room with
      | some pRoom =>
        let type := if (w.room pRoom).nId % sv.sequenceRoom = 0 then sv.chatServer else kChatNormal
        let bufferChat := sv.createBufferChat type (w.user usr).nPlayerID ++
          vbytes (w.user usr).strUserName ++ vbytes ":" ++ packet.read nSize.toNat
        some (w, log :: (w.sendPacket pRoom .s2cChatMessage bufferChat).map .sent)
      | none => some (w, [log])
    else some (w, [])
  | none => some (w, [])

def processJoinRoom : Handler := fun w usr packet _ =>
  match packet with
  | some packet =>
    let joinroom := sv.joinRoomPacket packet
    let joined := w.joinRoom usr joinroom.1 joinroom.2
    some (joined.1, joined.2.map .sent)
  | none => none

/-- `usr->IsGM() && packet && packet[0]`. -/
def ordered (w : World) (usr : VChatUserRef) (packet : Option Memory) : Option Memory :=
  if sv.isGM (w.user usr) then packet.filter fun packet => packet 0 ≠ 0 else none

def processBanNick : Handler := fun w usr packet _ =>
  match w.ordered sv usr packet with
  | some packet =>
    let id := sv.getRoleId packet
    if id ≥ 0 then
      match w.getUser id with
      | some usrBan => some (w.setState usrBan .kick, [.addUserBanId id])
      | none => some (w, [])
    else some (w, [])
  | none => some (w, [])

def processNotifyGlobal : Handler := fun w usr packet nSize =>
  match w.ordered sv usr packet with
  | some packet =>
    let bufferChat := sv.createBufferChat sv.chatGlobal 0 ++ packet.read nSize.toNat
    some (w, (w.sendGlobalPacket .s2cChatMessage bufferChat).map .sent)
  | none => some (w, [])

/-- `now` is the time `StartMM` records. -/
def roomEnterMMQueue (now : VTime) : Handler := fun w usr _ _ =>
  match (w.user usr).room with
  | some r =>
    let started := w.startMM r now
    some (started.1, (started.1.sendPacket r .s2cStartMMTimer []).map .sent)
  | none => none

def roomLeaveMMQueue : Handler := fun w usr _ _ =>
  match (w.user usr).room with
  | some r =>
    let stopped := w.stopMM r
    if stopped.2 then
      some (stopped.1, .writeLogMatchMaking r none 1 ::
        (stopped.1.sendPacket r .s2cStopMMTimer []).map .sent)
    else some (stopped.1, [])
  | none => none

def processKickUser : Handler := fun w usr packet _ =>
  match w.ordered sv usr packet with
  | some packet =>
    let id := sv.getRoleId packet
    if id ≥ 0 then some (w, [.broadcastKickRole id]) else some (w, [])
  | none => some (w, [])

def writeRole (w : World) (nRoleID : VInt32) : List VByte :=
  match sv.findRecordEx nRoleID with
  | some user =>
    let nOnlineStatus : VInt32 := if (w.getUser nRoleID).isSome then 1 else 0
    sv.writeObject user.nServerID ++ sv.writeObject nRoleID ++ sv.writeObject user.nSex ++
      sv.writeObject user.nLevel ++ sv.writeObject nOnlineStatus ++ sv.writeString user.strRoleName
  | none => []

def writeFriend (w : World) (zme : ZMEFriend) : List VByte :=
  let nRole := Int32.ofNat zme.nRoleID.length
  sv.writeString zme.strDisplayName ++ sv.writeString zme.strURL ++ sv.writeObject nRole ++
    if nRole > 0 then zme.nRoleID.flatMap (w.writeRole sv) else []

def writeFriends (w : World) (zmes : List ZMEFriend) : List VByte :=
  if zmes.isEmpty then []
  else sv.writeObject (Int32.ofNat zmes.length) ++ zmes.flatMap (w.writeFriend sv)

def requestZMEFriends : Handler := fun w pPlayer pData _ =>
  match pData with
  | some pData =>
    let pPacket := sv.requestZMFriend pData
    if pPacket.1 ≥ 0 ∧ pPacket.1 < pPacket.2 then
      let zmes := sv.getZMEFriends (w.user pPlayer).nPlayerID pPacket.1 pPacket.2
      some (w, [.sent ⟨pPlayer, .s2cRequestZMEFriendsResult, w.writeFriends sv zmes⟩])
    else some (w, [])
  | none => none

def codeZME : Handler := fun w pPlayer pData _ =>
  match pData with
  | some pData =>
    let player := w.user pPlayer
    some (w,
      [.requestZMEFriends (sv.codeZM pData) sv.strSecretCode player.nServerID player.nPlayerID])
  | none => none

def requestZCBillingURL : Handler := fun w pPlayer pData _ =>
  match pData with
  | some pData =>
    let pPacket := sv.requestBilling pData
    let strDatas := "accountid=" ++ toString pPacket.nZingID ++ "&accountname=" ++
      pPacket.strAccountName ++ "&itemid=" ++ toString pPacket.nItemID
    let player := w.user pPlayer
    some (w, [.requestZCBillingURL player.nServerID player.nPlayerID strDatas])
  | none => none

end World

structure PacketTypes where
  c2sGsUnknown : Int
  c2sGsCount : Int
  c2sDbUnknown : Int
  c2sDbCount : Int
  c2sDbLogin : Int
  c2sGuildUnknow : Int
  c2sGuildCount : Int
  c2sGsJoinRoom : Int
  c2sGsChatMessage : Int
  c2sGsBanNick : Int
  c2sGsTbGlobal : Int
  c2sGsEnterQueue : Int
  c2sGsLeaveQueue : Int
  c2sGsKickUser : Int
  c2sRequestZMEFriends : Int
  c2sSendCodeZME : Int
  c2sRequestZCBillingURL : Int

namespace World
variable (types : PacketTypes) (sv : Services)

/-- `ProcessFunction`; the entries the constructor does not set are null. -/
def processFunction (now : VTime) : List (Int × Handler) :=
  [(types.c2sGsJoinRoom, processJoinRoom sv),
    (types.c2sGsChatMessage, processChat sv),
    (types.c2sGsBanNick, processBanNick sv),
    (types.c2sGsTbGlobal, processNotifyGlobal sv),
    (types.c2sGsEnterQueue, roomEnterMMQueue now),
    (types.c2sGsLeaveQueue, roomLeaveMMQueue),
    (types.c2sGsKickUser, processKickUser sv),
    (types.c2sRequestZMEFriends, requestZMEFriends sv),
    (types.c2sSendCodeZME, codeZME sv),
    (types.c2sRequestZCBillingURL, requestZCBillingURL sv)]

def processPacket (now : VTime) (w : World) (pPlayer : VChatUserRef) (header : Header)
    (body : VConstBuffer) : Option (World × List Action) :=
  match (processFunction types sv now).lookup (header.nType.toNat : Int) with
  | some handler => handler w pPlayer body.second (BitVec.ofNat 32 body.first)
  | none => some (w, [])

def KeepsCredentials (w t : World) : Prop :=
  ∀ v, (t.user v).credentials = (w.user v).credentials

variable {w t : World}

theorem keepsCredentials_of_user_eq (h : t.user = w.user) : KeepsCredentials w t :=
  fun v => by rw [h]

theorem KeepsCredentials.trans {s : World} (h : KeepsCredentials w s)
    (h' : KeepsCredentials s t) : KeepsCredentials w t := fun v => (h' v).trans (h v)

theorem keepsCredentials_addUsr (w : World) (r : VChatRoomRef) (usr : VChatUserRef) :
    KeepsCredentials w (w.addUsr r usr) := by
  intro v
  rw [addUsr_user]
  split_ifs <;> rfl

theorem keepsCredentials_removeUsr (w : World) (r : VChatRoomRef) (usr : VChatUserRef) :
    KeepsCredentials w (w.removeUsr r usr).1 := by
  intro v
  by_cases hmem : usr ∈ (w.room r).users
  · rw [removeUsr_user_of_mem hmem]
    split_ifs <;> rfl
  · rw [removeUsr_of_not_mem hmem]

theorem keepsCredentials_userJoinRoom (w : World) (usr : VChatUserRef)
    (nChatRoomId nRoomMode : VInt32) :
    KeepsCredentials w (w.userJoinRoom usr nChatRoomId nRoomMode) := by
  by_cases hid : nChatRoomId = -1
  · rw [hid, userJoinRoom_isolation]
    exact keepsCredentials_of_user_eq rfl
  cases hfind : w.rooms[nChatRoomId]? with
  | some r =>
    rw [userJoinRoom_of_some hid hfind]
    exact keepsCredentials_addUsr w r usr
  | none =>
    rw [userJoinRoom_of_none hid hfind]
    exact keepsCredentials_addUsr w.createRoom w.nextRoom usr

theorem keepsCredentials_joinRoom (w : World) (usr : VChatUserRef) (nRoomID nRoomMode : VInt32) :
    KeepsCredentials w (w.joinRoom usr nRoomID nRoomMode).1 := by
  unfold joinRoom
  split
  · exact (keepsCredentials_removeUsr w _ usr).trans (keepsCredentials_userJoinRoom _ usr _ _)
  · exact keepsCredentials_userJoinRoom w usr _ _

theorem keepsCredentials_kick (w : World) (u : VChatUserRef) :
    KeepsCredentials w (w.setState u .kick) := by
  intro v
  rw [setState, modifyUser_user]
  split_ifs <;> rfl

theorem keepsCredentials_banNick {usr : VChatUserRef} {packet : Option Memory} {nSize : VUInt32}
    {actions : List Action} (h : processBanNick sv w usr packet nSize = some (t, actions)) :
    KeepsCredentials w t := by
  simp only [processBanNick] at h
  repeat' split at h
  all_goals obtain ⟨rfl, -⟩ := Prod.mk.inj (Option.some.inj h)
  · exact keepsCredentials_kick w _
  all_goals exact keepsCredentials_of_user_eq rfl

theorem keepsCredentials_processFunction {now : VTime} {it : Int × Handler}
    (hit : it ∈ processFunction types sv now) {usr : VChatUserRef} {packet : Option Memory}
    {nSize : VUInt32} {actions : List Action} (h : it.2 w usr packet nSize = some (t, actions)) :
    KeepsCredentials w t := by
  simp only [processFunction, List.mem_cons, List.not_mem_nil, or_false] at hit
  rcases hit with rfl | rfl | rfl | rfl | rfl | rfl | rfl | rfl | rfl | rfl
  · simp only [processJoinRoom] at h
    split at h
    · obtain ⟨rfl, -⟩ := Prod.mk.inj (Option.some.inj h)
      exact keepsCredentials_joinRoom w usr _ _
    · cases h
  · simp only [processChat] at h
    repeat' split at h
    all_goals obtain ⟨rfl, -⟩ := Prod.mk.inj (Option.some.inj h)
    all_goals exact keepsCredentials_of_user_eq rfl
  · exact @keepsCredentials_banNick sv w t usr packet nSize actions h
  · simp only [processNotifyGlobal] at h
    split at h
    all_goals obtain ⟨rfl, -⟩ := Prod.mk.inj (Option.some.inj h)
    all_goals exact keepsCredentials_of_user_eq rfl
  · simp only [roomEnterMMQueue] at h
    split at h
    · obtain ⟨rfl, -⟩ := Prod.mk.inj (Option.some.inj h)
      exact keepsCredentials_of_user_eq (startMM_user w _ now)
    · cases h
  · simp only [roomLeaveMMQueue] at h
    repeat' split at h
    · obtain ⟨rfl, -⟩ := Prod.mk.inj (Option.some.inj h)
      exact keepsCredentials_of_user_eq (stopMM_user w _)
    · obtain ⟨rfl, -⟩ := Prod.mk.inj (Option.some.inj h)
      exact keepsCredentials_of_user_eq (stopMM_user w _)
    · cases h
  · simp only [processKickUser] at h
    repeat' split at h
    all_goals obtain ⟨rfl, -⟩ := Prod.mk.inj (Option.some.inj h)
    all_goals exact keepsCredentials_of_user_eq rfl
  · simp only [requestZMEFriends] at h
    repeat' split at h
    all_goals cases h
    all_goals exact keepsCredentials_of_user_eq rfl
  · simp only [codeZME] at h
    split at h
    · obtain ⟨rfl, -⟩ := Prod.mk.inj (Option.some.inj h)
      exact keepsCredentials_of_user_eq rfl
    · cases h
  · simp only [requestZCBillingURL] at h
    split at h
    · obtain ⟨rfl, -⟩ := Prod.mk.inj (Option.some.inj h)
      exact keepsCredentials_of_user_eq rfl
    · cases h

theorem isSome_processFunction {now : VTime} {it : Int × Handler}
    (hit : it ∈ processFunction types sv now) {usr : VChatUserRef} {r : VChatRoomRef}
    (hroom : (w.user usr).room = some r) (packet : Memory) (nSize : VUInt32) :
    (it.2 w usr (some packet) nSize).isSome := by
  simp only [processFunction, List.mem_cons, List.not_mem_nil, or_false] at hit
  rcases hit with rfl | rfl | rfl | rfl | rfl | rfl | rfl | rfl | rfl | rfl
  · rfl
  · simp only [processChat, hroom]
    split_ifs <;> rfl
  · simp only [processBanNick]
    repeat' split
    all_goals rfl
  · simp only [processNotifyGlobal]
    split <;> rfl
  · simp only [roomEnterMMQueue, hroom]
    rfl
  · simp only [roomLeaveMMQueue, hroom]
    split_ifs <;> rfl
  · simp only [processKickUser]
    repeat' split
    all_goals rfl
  · simp only [requestZMEFriends]
    split_ifs <;> rfl
  · rfl
  · rfl

theorem isSome_processPacket {now : VTime} {pPlayer : VChatUserRef} {r : VChatRoomRef}
    (hroom : (w.user pPlayer).room = some r) (header : Header) {body : VConstBuffer}
    {packet : Memory} (hbody : body.second = some packet) :
    (processPacket types sv now w pPlayer header body).isSome := by
  unfold processPacket
  split
  · rename_i handler hlookup
    obtain ⟨l₁, l₂, hl, -⟩ := List.lookup_eq_some_iff.mp hlookup
    have hmem : ((header.nType.toNat : Int), handler) ∈ processFunction types sv now := by
      rw [hl]
      simp
    rw [hbody]
    exact isSome_processFunction types sv hmem hroom packet _
  · rfl

theorem keepsCredentials_processPacket {now : VTime} {pPlayer : VChatUserRef} {header : Header}
    {body : VConstBuffer} {actions : List Action}
    (h : processPacket types sv now w pPlayer header body = some (t, actions)) :
    KeepsCredentials w t := by
  unfold processPacket at h
  split at h
  · rename_i handler hlookup
    obtain ⟨l₁, l₂, hl, -⟩ := List.lookup_eq_some_iff.mp hlookup
    have hmem : ((header.nType.toNat : Int), handler) ∈ processFunction types sv now := by
      rw [hl]
      exact List.mem_append_right _ List.mem_cons_self
    exact keepsCredentials_processFunction types sv hmem h
  · obtain ⟨rfl, -⟩ := Prod.mk.inj (Option.some.inj h)
    exact keepsCredentials_of_user_eq rfl

end World
end VChat
