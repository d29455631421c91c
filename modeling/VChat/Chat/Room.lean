import VChat.Chat.World
import Mathlib.Data.Fin.VecNotation

/-! Chat rooms: membership, status, the matchmaking queue and what members are sent. -/

namespace VChat

def roomNormal : VInt32 := 0
def roomEnqueueMM : VInt32 := 1
def roomFoundMM : VInt32 := 2

inductive S2CPacket where
  | s2cStartMMTimer
  | s2cStopMMTimer
  | s2cMMRoomFound
  | s2cChatMessage
  | s2cRequestZMEFriendsResult
  | s2cRequestZCreditBillingURLResult
deriving DecidableEq

structure Sent where
  usr : VChatUserRef
  nPacketType : S2CPacket
  packet : List VByte
deriving DecidableEq

structure MatchMakingModes where
  pvpDeathmatchMM : VInt32
  pvpBaseProtectionMM : VInt32

def MatchMakingModes.isMatchMakingMode (modes : MatchMakingModes) (nMode : VInt32) : Bool :=
  nMode = modes.pvpDeathmatchMM || nMode = modes.pvpBaseProtectionMM

/-- The room with the first occurrence of `usr` erased, forgetting mode and server when that
was the last member. -/
def VChatRoom.without (room : VChatRoom) (usr : VChatUserRef) : VChatRoom :=
  let users := room.users.erase usr
  { room with
    users := users
    nServerId := if users.isEmpty then -1 else room.nServerId
    nGameMode := if users.isEmpty then -1 else room.nGameMode
    nRoomStatus := roomNormal }

@[ext]
structure MMCriteria where
  nCriteria : Fin 4 → VInt32

namespace World

def setId (w : World) (r : VChatRoomRef) (id : VInt32) : World :=
  w.modifyRoom r fun room => { room with nId := id }

def setGameMode (w : World) (r : VChatRoomRef) (mode : VInt8) : World :=
  w.modifyRoom r fun room => { room with nGameMode := mode }

def setServerId (w : World) (r : VChatRoomRef) (id : VInt32) : World :=
  w.modifyRoom r fun room => { room with nServerId := id }

def setRoom (w : World) (usr : VChatUserRef) (r : VChatRoomRef) : World :=
  w.modifyUser usr fun u => { u with room := some r }

def resetRoom (w : World) (usr : VChatUserRef) : World :=
  w.modifyUser usr fun u => { u with room := none }

def sendPacket (w : World) (r : VChatRoomRef) (nPacketType : S2CPacket) (packet : List VByte) :
    List Sent :=
  (w.room r).users.map fun usr => ⟨usr, nPacketType, packet⟩

def setStatus (w : World) (r : VChatRoomRef) (value : VInt32) : World × List Sent :=
  let w' := w.modifyRoom r fun room => { room with nRoomStatus := value }
  (w', if value = roomFoundMM then w'.sendPacket r .s2cMMRoomFound [] else [])

def addUsr (w : World) (r : VChatRoomRef) (usr : VChatUserRef) : World :=
  (w.modifyRoom r fun room =>
    { room with
      nRoomStatus := roomNormal
      users := room.users ++ [usr]
      nServerId := (w.user usr).nServerID }).setRoom usr r

def removeUsr (w : World) (r : VChatRoomRef) (usr : VChatUserRef) : World × List Sent :=
  if usr ∈ (w.room r).users then
    ((w.modifyRoom r fun room => room.without usr).resetRoom usr,
      if (w.room r).nRoomStatus = roomEnqueueMM then
        ((w.room r).users.erase usr).map fun u => ⟨u, .s2cStopMMTimer, []⟩
      else [])
  else (w, [])

def getCriteria (w : World) (r : VChatRoomRef) : Option MMCriteria :=
  let room := w.room r
  if room.users.isEmpty then none
  else some ⟨![room.nServerId, room.nGameMode.toInt32, Int32.ofNat room.users.length,
    room.users.foldl (fun total usr => total + (w.user usr).nMatchMakingPoint) 0]⟩

def startMM (w : World) (r : VChatRoomRef) (now : VTime) : World × Bool :=
  if (w.room r).nRoomStatus ≠ roomEnqueueMM then
    (w.modifyRoom r fun room => { room with nRoomStatus := roomEnqueueMM, mMStartTime := now },
      true)
  else (w, false)

def stopMM (w : World) (r : VChatRoomRef) : World × Bool :=
  if (w.room r).nRoomStatus = roomEnqueueMM then
    (w.modifyRoom r fun room => { room with nRoomStatus := roomNormal }, true)
  else (w, false)

theorem addUsr_room (w : World) (r s : VChatRoomRef) (usr : VChatUserRef) :
    (w.addUsr r usr).room s =
      if s = r then
        { w.room s with
          nRoomStatus := roomNormal
          users := (w.room s).users ++ [usr]
          nServerId := (w.user usr).nServerID }
      else w.room s := rfl

theorem addUsr_user (w : World) (r : VChatRoomRef) (usr u : VChatUserRef) :
    (w.addUsr r usr).user u = if u = usr then { w.user u with room := some r } else w.user u :=
  rfl

@[simp] theorem addUsr_nextRoom (w : World) (r : VChatRoomRef) (usr : VChatUserRef) :
    (w.addUsr r usr).nextRoom = w.nextRoom := rfl

theorem roomNormal_ne_enqueueMM : roomNormal ≠ roomEnqueueMM := by decide

theorem removeUsr_of_not_mem {w : World} {r : VChatRoomRef} {usr : VChatUserRef}
    (h : usr ∉ (w.room r).users) : w.removeUsr r usr = (w, []) := if_neg h

theorem removeUsr_of_mem {w : World} {r : VChatRoomRef} {usr : VChatUserRef}
    (h : usr ∈ (w.room r).users) :
    (w.removeUsr r usr).1 = (w.modifyRoom r fun room => room.without usr).resetRoom usr := by
  rw [removeUsr, if_pos h]

theorem removeUsr_room_self {w : World} {r : VChatRoomRef} {usr : VChatUserRef}
    (h : usr ∈ (w.room r).users) : (w.removeUsr r usr).1.room r = (w.room r).without usr := by
  rw [removeUsr_of_mem h, resetRoom, modifyUser_room, modifyRoom_room_self]

theorem removeUsr_room_of_ne {w : World} {r s : VChatRoomRef} (hs : s ≠ r) (usr : VChatUserRef) :
    (w.removeUsr r usr).1.room s = w.room s := by
  by_cases h : usr ∈ (w.room r).users
  · rw [removeUsr_of_mem h, resetRoom, modifyUser_room, modifyRoom_room, if_neg hs]
  · rw [removeUsr_of_not_mem h]

theorem removeUsr_user_of_mem {w : World} {r : VChatRoomRef} {usr : VChatUserRef}
    (h : usr ∈ (w.room r).users) (v : VChatUserRef) :
    (w.removeUsr r usr).1.user v =
      if v = usr then { w.user v with room := none } else w.user v := by
  rw [removeUsr_of_mem h, resetRoom, modifyUser_user, modifyRoom_user]

@[simp] theorem removeUsr_rooms (w : World) (r : VChatRoomRef) (usr : VChatUserRef) :
    (w.removeUsr r usr).1.rooms = w.rooms := by
  unfold removeUsr
  split_ifs <;> rfl

@[simp] theorem removeUsr_nextRoom (w : World) (r : VChatRoomRef) (usr : VChatUserRef) :
    (w.removeUsr r usr).1.nextRoom = w.nextRoom := by
  unfold removeUsr
  split_ifs <;> rfl

theorem removeUsr_users (w : World) (r s : VChatRoomRef) (usr : VChatUserRef) :
    ((w.removeUsr r usr).1.room s).users =
      if s = r then (w.room s).users.erase usr else (w.room s).users := by
  split_ifs with hs
  · subst hs
    by_cases h : usr ∈ (w.room s).users
    · rw [removeUsr_room_self h]
      rfl
    · rw [removeUsr_of_not_mem h, List.erase_of_not_mem h]
  · rw [removeUsr_room_of_ne hs]

theorem removeUsr_nId (w : World) (r s : VChatRoomRef) (usr : VChatUserRef) :
    ((w.removeUsr r usr).1.room s).nId = (w.room s).nId := by
  by_cases hs : s = r
  · subst hs
    by_cases h : usr ∈ (w.room s).users
    · rw [removeUsr_room_self h]
      rfl
    · rw [removeUsr_of_not_mem h]
  · rw [removeUsr_room_of_ne hs]

theorem startMM_room (w : World) (r s : VChatRoomRef) (now : VTime) :
    ((w.startMM r now).1.room s).users = (w.room s).users ∧
      (((w.startMM r now).1.room s).nRoomStatus = roomEnqueueMM ↔
        (w.room s).nRoomStatus = roomEnqueueMM ∨ s = r) := by
  unfold startMM
  split_ifs with h
  · by_cases hs : s = r
    · simp [hs]
    · simp [modifyRoom_room, hs]
  · have hqueue : (w.room r).nRoomStatus = roomEnqueueMM := not_not.mp h
    refine ⟨rfl, Or.inl, ?_⟩
    rintro (hs | rfl)
    · exact hs
    · exact hqueue

@[simp] theorem startMM_user (w : World) (r : VChatRoomRef) (now : VTime) :
    (w.startMM r now).1.user = w.user := by
  unfold startMM
  split_ifs <;> rfl

@[simp] theorem startMM_rooms (w : World) (r : VChatRoomRef) (now : VTime) :
    (w.startMM r now).1.rooms = w.rooms := by
  unfold startMM
  split_ifs <;> rfl

@[simp] theorem startMM_nextRoom (w : World) (r : VChatRoomRef) (now : VTime) :
    (w.startMM r now).1.nextRoom = w.nextRoom := by
  unfold startMM
  split_ifs <;> rfl

theorem stopMM_room (w : World) (r s : VChatRoomRef) :
    ((w.stopMM r).1.room s).users = (w.room s).users ∧
      (((w.stopMM r).1.room s).nRoomStatus = roomEnqueueMM ↔
        (w.room s).nRoomStatus = roomEnqueueMM ∧ s ≠ r) := by
  unfold stopMM
  split_ifs with h
  · by_cases hs : s = r
    · simp [hs, roomNormal_ne_enqueueMM]
    · simp [modifyRoom_room, hs]
  · refine ⟨rfl, fun hs => ⟨hs, ?_⟩, And.left⟩
    rintro rfl
    exact h hs

@[simp] theorem stopMM_user (w : World) (r : VChatRoomRef) : (w.stopMM r).1.user = w.user := by
  unfold stopMM
  split_ifs <;> rfl

@[simp] theorem stopMM_rooms (w : World) (r : VChatRoomRef) : (w.stopMM r).1.rooms = w.rooms := by
  unfold stopMM
  split_ifs <;> rfl

@[simp] theorem stopMM_nextRoom (w : World) (r : VChatRoomRef) :
    (w.stopMM r).1.nextRoom = w.nextRoom := by
  unfold stopMM
  split_ifs <;> rfl

end World
end VChat
