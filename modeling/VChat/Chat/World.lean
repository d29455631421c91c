import VChat.Common.Crc32
import Mathlib.Logic.Function.Basic

/-! The objects of the chat server: users, rooms and sessions, by reference, and the two
registries that hold them. -/

namespace VChat

abbrev VChatUserRef := Nat
abbrev VChatRoomRef := Nat
abbrev VSessionRef := Nat

/-- A point in time; none is `not_a_date_time`. -/
abbrev VTime := Option Nat

/-- The states of a user. `KICK` is set by the managers, though `VUser.h` does not list it. -/
inductive State where
  | unknow
  | login
  | logout
  | kick
deriving DecidableEq

structure VUser where
  state : State
  session : Option VSessionRef
  crcTable : CrcTable
  nSeq : VUInt32
  nKey : VUInt32

namespace VUser

def credentials (u : VUser) : VUInt32 × VUInt32 × CrcTable × Option VSessionRef :=
  (u.nKey, u.nSeq, u.crcTable, u.session)

def setState (u : VUser) (newState : State) : VUser :=
  { u with
    state := newState
    session := if newState = .logout then none else u.session }

def setSessionInternal (u : VUser) (pSession : Option VSessionRef) : VUser :=
  { u with session := pSession }

def initSecretKey (u : VUser) (nKey : VUInt32) : VUser :=
  { u with nKey := nKey, nSeq := 0, crcTable := VChat.crcTable nKey }

def checkSecurity (u : VUser) (nCRC nSeq : VUInt32) (body : List VByte) : Bool × VUser :=
  if nSeq = u.nSeq then
    if body.length = 0 ∨ nCRC = getCRC u.nKey body u.crcTable then
      (true, { u with nSeq := u.nSeq + 1 })
    else (false, u)
  else (false, u)

end VUser

/-- `room` is what `SetRoom`, `ResetRoom` and `GetRoom` store, clear and read, and
`nMatchMakingPoint` what `GetMatchMakingPoint` returns. -/
structure VChatUser extends VUser where
  nServerID : VInt32
  nPlayerID : VInt32
  strUserName : String
  room : Option VChatRoomRef
  nMatchMakingPoint : VInt32

def VChatUser.closeSession (u : VChatUser) : VChatUser :=
  let v : VChatUser :=
    { u with strUserName := "", nPlayerID := 0, nServerID := 0, nSeq := 0, nKey := 0 }
  { v with toVUser := v.toVUser.setState .logout }

structure VChatRoom where
  nId : VInt32
  nServerId : VInt32
  nGameMode : VInt8
  nRoomStatus : VInt32
  mMStartTime : VTime
  users : List VChatUserRef

/-- The constructor leaves `m_nRoomStatus` as the memory was. -/
def VChatRoom.new (uninit : VInt32) : VChatRoom := ⟨0, -1, -1, uninit, none, []⟩

/-- All objects, with `nextUser` and `nextRoom` the references the allocators give out next.
`userOf` is `session::user_`; `alive` and `held` say whether a session, or a user outside the
registry, still has an owner, so that a weak reference to it can be locked. -/
structure World where
  user : VChatUserRef → VChatUser
  room : VChatRoomRef → VChatRoom
  userOf : VSessionRef → Option VChatUserRef
  alive : VSessionRef → Bool
  held : VChatUserRef → Bool
  pUsers : Std.TreeMap VInt32 VChatUserRef
  rooms : Std.TreeMap VInt32 VChatRoomRef
  nextUser : Nat
  nextRoom : Nat
  uninit : VInt32

namespace World

def modifyUser (w : World) (u : VChatUserRef) (f : VChatUser → VChatUser) : World :=
  { w with user := fun v => if v = u then f (w.user v) else w.user v }

def modifyRoom (w : World) (r : VChatRoomRef) (f : VChatRoom → VChatRoom) : World :=
  { w with room := fun s => if s = r then f (w.room s) else w.room s }

variable (w : World) (u v : VChatUserRef) (r s : VChatRoomRef)
variable (f : VChatUser → VChatUser) (g : VChatRoom → VChatRoom)

theorem modifyUser_user : (w.modifyUser u f).user v = if v = u then f (w.user v) else w.user v :=
  rfl

@[simp] theorem modifyUser_user_self : (w.modifyUser u f).user u = f (w.user u) := if_pos rfl

@[simp] theorem modifyUser_room : (w.modifyUser u f).room = w.room := rfl
@[simp] theorem modifyUser_pUsers : (w.modifyUser u f).pUsers = w.pUsers := rfl
@[simp] theorem modifyUser_nextUser : (w.modifyUser u f).nextUser = w.nextUser := rfl
theorem modifyRoom_room : (w.modifyRoom r g).room s = if s = r then g (w.room s) else w.room s :=
  rfl

@[simp] theorem modifyRoom_room_self : (w.modifyRoom r g).room r = g (w.room r) := if_pos rfl

@[simp] theorem modifyRoom_user : (w.modifyRoom r g).user = w.user := rfl
@[simp] theorem modifyRoom_nextRoom : (w.modifyRoom r g).nextRoom = w.nextRoom := rfl

variable {w u r}

theorem modifyUser_congr {f f' : VChatUser → VChatUser} (h : f (w.user u) = f' (w.user u)) :
    w.modifyUser u f = w.modifyUser u f' := by
  unfold modifyUser
  congr 1
  funext v
  by_cases hv : v = u
  · rw [if_pos hv, if_pos hv, hv, h]
  · rw [if_neg hv, if_neg hv]

theorem modifyRoom_congr {g g' : VChatRoom → VChatRoom} (h : g (w.room r) = g' (w.room r)) :
    w.modifyRoom r g = w.modifyRoom r g' := by
  unfold modifyRoom
  congr 1
  funext s
  by_cases hs : s = r
  · rw [if_pos hs, if_pos hs, hs, h]
  · rw [if_neg hs, if_neg hs]

theorem modifyRoom_eq_self {g : VChatRoom → VChatRoom} (h : g (w.room r) = w.room r) :
    w.modifyRoom r g = w := by
  have hid : w.modifyRoom r g = w.modifyRoom r id := modifyRoom_congr h
  rw [hid]
  simp [modifyRoom]

def start : World where
  user := fun _ => ⟨⟨.unknow, none, fun _ => 0, 0, 0⟩, 0, 0, "", none, 0⟩
  room := fun _ => VChatRoom.new 0
  userOf := fun _ => none
  alive := fun _ => false
  held := fun _ => false
  pUsers := ∅
  rooms := ∅
  nextUser := 0
  nextRoom := 0
  uninit := 0

def getSession (w : World) (u : VChatUserRef) : Option VSessionRef :=
  (w.user u).session.filter w.alive

end World
end VChat
