import VChat.Chat.Room

/-! The registry of rooms and how users move between rooms. -/

namespace VChat.World

/-- `RoomAllocator::Create`: a fresh room, with the status its memory happens to hold. -/
def createRoom (w : World) : World :=
  { w.modifyRoom w.nextRoom fun _ => VChatRoom.new w.uninit with nextRoom := w.nextRoom + 1 }

def storeRoom (w : World) (id : VInt32) (r : VChatRoomRef) : World :=
  { w with rooms := w.rooms.insert id r }

def userJoinRoom (w : World) (usr : VChatUserRef) (nChatRoomId nRoomMode : VInt32) : World :=
  if nChatRoomId ≠ -1 then
    match w.rooms[nChatRoomId]? with
    | some r =>
      let w := w.addUsr r usr
      if (w.room r).nGameMode.toInt32 = -1 ∨ (w.room r).nServerId = -1 then
        let w := w.setGameMode r nRoomMode.toInt8
        w.setServerId r (w.user usr).nServerID
      else w
    | none =>
      let room := w.nextRoom
      let w := w.createRoom
      let w := w.addUsr room usr
      let w := w.setId room nChatRoomId
      let w := w.setGameMode room nRoomMode.toInt8
      w.storeRoom nChatRoomId room
  else w

def removeRoom (w : World) (rid : VInt32) : World := { w with rooms := w.rooms.erase rid }

def getRoomByID (w : World) (nRoomID : VInt32) : Option VChatRoomRef := w.rooms[nRoomID]?

def getMMRooms (modes : MatchMakingModes) (w : World) (list : List (MMCriteria × VChatRoomRef)) :
    List (MMCriteria × VChatRoomRef) :=
  w.rooms.toList.foldl (fun list it =>
    if modes.isMatchMakingMode (w.room it.2).nGameMode.toInt32 ∧
        (w.room it.2).nRoomStatus = roomEnqueueMM then
      match w.getCriteria it.2 with
      | some criteria => list ++ [(criteria, it.2)]
      | none => list
    else list) list

/-- `VChatUser::JoinRoom`: leave the current room, if any, and join the one asked for. -/
def joinRoom (w : World) (usr : VChatUserRef) (nRoomID nRoomMode : VInt32) : World × List Sent :=
  match (w.user usr).room with
  | some r =>
    let left := w.removeUsr r usr
    (left.1.userJoinRoom usr nRoomID nRoomMode, left.2)
  | none => (w.userJoinRoom usr nRoomID nRoomMode, [])

structure NoRooms (w : World) : Prop where
  rooms : ∀ id : VInt32, w.rooms[id]? = none
  nextRoom : w.nextRoom = 0
  user : ∀ u, (w.user u).room = none

theorem noRooms_start : NoRooms start := ⟨fun id => by simp [start], rfl, fun _ => rfl⟩

@[simp] theorem createRoom_nextRoom (w : World) : w.createRoom.nextRoom = w.nextRoom + 1 := rfl

theorem createRoom_room (w : World) (s : VChatRoomRef) :
    w.createRoom.room s = if s = w.nextRoom then VChatRoom.new w.uninit else w.room s := rfl

@[simp] theorem storeRoom_room (w : World) (id : VInt32) (r : VChatRoomRef) :
    (w.storeRoom id r).room = w.room := rfl
theorem storeRoom_find (w : World) (id id' : VInt32) (r : VChatRoomRef) :
    (w.storeRoom id r).rooms[id']? = if id = id' then some r else w.rooms[id']? := by
  simp [storeRoom, Std.TreeMap.getElem?_insert]

theorem removeRoom_find (w : World) (rid id : VInt32) :
    (w.removeRoom rid).rooms[id]? = if rid = id then none else w.rooms[id]? := by
  simp [removeRoom, Std.TreeMap.getElem?_erase]

/-- The mode and server written after `AddUsr` when the room had either of them unset. -/
def settle (nRoomMode nServerID : VInt32) (room : VChatRoom) : VChatRoom :=
  if room.nGameMode.toInt32 = -1 ∨ room.nServerId = -1 then
    { room with nGameMode := nRoomMode.toInt8, nServerId := nServerID }
  else room

@[simp] theorem settle_users (nRoomMode nServerID : VInt32) (room : VChatRoom) :
    (settle nRoomMode nServerID room).users = room.users := by
  unfold settle
  split_ifs <;> rfl

@[simp] theorem settle_nId (nRoomMode nServerID : VInt32) (room : VChatRoom) :
    (settle nRoomMode nServerID room).nId = room.nId := by
  unfold settle
  split_ifs <;> rfl

@[simp] theorem settle_nRoomStatus (nRoomMode nServerID : VInt32) (room : VChatRoom) :
    (settle nRoomMode nServerID room).nRoomStatus = room.nRoomStatus := by
  unfold settle
  split_ifs <;> rfl

theorem userJoinRoom_isolation (w : World) (usr : VChatUserRef) (nRoomMode : VInt32) :
    w.userJoinRoom usr (-1) nRoomMode = w := if_neg (not_not.mpr rfl)

theorem userJoinRoom_of_some {w : World} {nChatRoomId : VInt32} {r : VChatRoomRef}
    (hid : nChatRoomId ≠ -1) (h : w.rooms[nChatRoomId]? = some r) (usr : VChatUserRef)
    (nRoomMode : VInt32) :
    w.userJoinRoom usr nChatRoomId nRoomMode =
      (w.addUsr r usr).modifyRoom r (settle nRoomMode (w.user usr).nServerID) := by
  have hserver (g : VChatRoom → VChatRoom) :
      (((w.addUsr r usr).modifyRoom r g).user usr).nServerID = (w.user usr).nServerID := by
    simp [addUsr_user]
  rw [userJoinRoom, if_pos hid, h]
  simp only [setGameMode, hserver, setServerId]
  split_ifs with hset
  · calc
      _ = (w.addUsr r usr).modifyRoom r fun room =>
            { room with nGameMode := nRoomMode.toInt8, nServerId := (w.user usr).nServerID } := by
          simp only [modifyRoom]
          congr 1
          funext s
          by_cases hs : s = r <;> simp [hs]
      _ = _ := modifyRoom_congr (by simp only [settle, hset, if_true])
  · exact (modifyRoom_eq_self (by simp only [settle, hset, if_false])).symm

def name (id nRoomMode : VInt32) (room : VChatRoom) : VChatRoom :=
  { room with nId := id, nGameMode := nRoomMode.toInt8 }

theorem userJoinRoom_of_none {w : World} {nChatRoomId : VInt32} (hid : nChatRoomId ≠ -1)
    (h : w.rooms[nChatRoomId]? = none) (usr : VChatUserRef) (nRoomMode : VInt32) :
    w.userJoinRoom usr nChatRoomId nRoomMode =
      ((w.createRoom.addUsr w.nextRoom usr).modifyRoom w.nextRoom
        (name nChatRoomId nRoomMode)).storeRoom nChatRoomId w.nextRoom := by
  rw [userJoinRoom, if_pos hid, h]
  simp only [setGameMode, setId, modifyRoom]
  congr 2
  funext s
  by_cases hs : s = w.nextRoom <;> simp [hs, name]

def mmRoom (modes : MatchMakingModes) (w : World) (r : VChatRoomRef) :
    Option (MMCriteria × VChatRoomRef) :=
  if modes.isMatchMakingMode (w.room r).nGameMode.toInt32 ∧
      (w.room r).nRoomStatus = roomEnqueueMM then
    (w.getCriteria r).map fun criteria => (criteria, r)
  else none

def listed (modes : MatchMakingModes) (w : World) : List (MMCriteria × VChatRoomRef) :=
  w.rooms.toList.filterMap fun it => w.mmRoom modes it.2

theorem getMMRooms_eq (modes : MatchMakingModes) (w : World)
    (list : List (MMCriteria × VChatRoomRef)) :
    w.getMMRooms modes list = list ++ w.listed modes := by
  unfold getMMRooms listed
  generalize w.rooms.toList = its
  induction its generalizing list with
  | nil => simp
  | cons it its ih =>
    rw [List.foldl_cons, ih, List.filterMap_cons, mmRoom]
    split_ifs with hmode
    · cases w.getCriteria it.2 <;> simp
    · rfl

theorem mmRoom_eq_some {modes : MatchMakingModes} {w : World} {r : VChatRoomRef}
    {x : MMCriteria × VChatRoomRef} :
    w.mmRoom modes r = some x ↔
      modes.isMatchMakingMode (w.room r).nGameMode.toInt32 ∧
        (w.room r).nRoomStatus = roomEnqueueMM ∧ w.getCriteria r = some x.1 ∧ x.2 = r := by
  unfold mmRoom
  split_ifs with h
  · simp only [h, true_and, Option.map_eq_some_iff, Prod.ext_iff]
    constructor
    · rintro ⟨criteria, hc, rfl, rfl⟩
      exact ⟨hc, rfl⟩
    · rintro ⟨hc, hr⟩
      exact ⟨x.1, hc, rfl, hr.symm⟩
  · exact ⟨by simp, fun hx => absurd ⟨hx.1, hx.2.1⟩ h⟩

theorem getCriteria_eq_some {w : World} {r : VChatRoomRef} {criteria : MMCriteria} :
    w.getCriteria r = some criteria ↔
      (w.room r).users ≠ [] ∧
        criteria.nCriteria = ![(w.room r).nServerId, (w.room r).nGameMode.toInt32,
          Int32.ofNat (w.room r).users.length,
          ((w.room r).users.map fun usr => (w.user usr).nMatchMakingPoint).sum] := by
  have hsum : ((w.room r).users.map fun usr => (w.user usr).nMatchMakingPoint).sum =
      (w.room r).users.foldl (fun total usr => total + (w.user usr).nMatchMakingPoint) 0 := by
    rw [List.sum_eq_foldl, List.foldl_map]
  rw [hsum]
  simp only [getCriteria, List.isEmpty_iff]
  split_ifs with hempty
  · simp [hempty]
  · rw [Option.some_inj, MMCriteria.ext_iff, eq_comm]
    exact (and_iff_right hempty).symm

theorem exists_mmRoom {modes : MatchMakingModes} {w : World} {r : VChatRoomRef} :
    (∃ x, w.mmRoom modes r = some x) ↔
      (w.room r).users ≠ [] ∧ modes.isMatchMakingMode (w.room r).nGameMode.toInt32 ∧
        (w.room r).nRoomStatus = roomEnqueueMM := by
  simp only [mmRoom_eq_some, getCriteria_eq_some]
  constructor
  · rintro ⟨x, hmode, hstatus, ⟨husers, -⟩, -⟩
    exact ⟨husers, hmode, hstatus⟩
  · rintro ⟨husers, hmode, hstatus⟩
    exact ⟨(⟨_⟩, r), hmode, hstatus, ⟨husers, rfl⟩, rfl⟩

theorem mem_listed {modes : MatchMakingModes} {w : World} {x : MMCriteria × VChatRoomRef} :
    x ∈ w.listed modes ↔
      (∃ id : VInt32, w.rooms[id]? = some x.2) ∧ w.mmRoom modes x.2 = some x := by
  rw [listed, List.mem_filterMap]
  constructor
  · rintro ⟨it, hit, hx⟩
    have hroom : x.2 = it.2 := (mmRoom_eq_some.mp hx).2.2.2
    rw [hroom]
    exact ⟨⟨it.1, Std.TreeMap.mem_toList_iff_getElem?_eq_some.mp hit⟩, hx⟩
  · rintro ⟨⟨id, hid⟩, hx⟩
    exact ⟨(id, x.2), Std.TreeMap.mem_toList_iff_getElem?_eq_some.mpr hid, hx⟩

theorem mem_rooms_listed {modes : MatchMakingModes} {w : World} {r : VChatRoomRef} :
    r ∈ (w.listed modes).map Prod.snd ↔
      (∃ id : VInt32, w.rooms[id]? = some r) ∧ (w.room r).users ≠ [] ∧
        modes.isMatchMakingMode (w.room r).nGameMode.toInt32 ∧
          (w.room r).nRoomStatus = roomEnqueueMM := by
  rw [List.mem_map, ← exists_mmRoom]
  constructor
  · rintro ⟨x, hx, rfl⟩
    obtain ⟨hstored, hroom⟩ := mem_listed.mp hx
    exact ⟨hstored, x, hroom⟩
  · rintro ⟨hstored, x, hx⟩
    obtain rfl : x.2 = r := (mmRoom_eq_some.mp hx).2.2.2
    exact ⟨x, mem_listed.mpr ⟨hstored, hx⟩, rfl⟩

theorem nodup_listed {w : World} (hinj : ∀ (id id' : VInt32) r,
    w.rooms[id]? = some r → w.rooms[id']? = some r → id = id') (modes : MatchMakingModes) :
    ((w.listed modes).map Prod.snd).Nodup := by
  rw [List.Nodup, List.pairwise_map, listed, List.pairwise_filterMap]
  refine Std.TreeMap.distinct_keys_toList.imp_of_mem fun {a b} ha hb hne x hx y hy hxy => hne ?_
  have ha := Std.TreeMap.mem_toList_iff_getElem?_eq_some.mp ha
  have hb := Std.TreeMap.mem_toList_iff_getElem?_eq_some.mp hb
  have hab : a.2 = b.2 := by
    rw [← (mmRoom_eq_some.mp hx).2.2.2, ← (mmRoom_eq_some.mp hy).2.2.2, hxy]
  rw [Std.LawfulEqCmp.compare_eq_iff_eq]
  exact hinj a.1 b.1 a.2 ha (hab ▸ hb)

end VChat.World
