import VChat.Chat.RoomManager
import VChat.Transition.Runs
import VChat.Transition.Placement

/-! The member lists of the rooms and the room references of the users, over runs of joins,
direct removals and deletions of rooms. -/

namespace VChat.Membership
open Transition World

inductive Event where
  | joinRoom (usr : VChatUserRef) (nRoomID nRoomMode : VInt32)
  | removeUsr (r : VChatRoomRef) (usr : VChatUserRef)
  | removeRoom (rid : VInt32)
  | getRoomByID (nRoomID : VInt32)
deriving DecidableEq

def step (w : World) : Event → Option World
  | .joinRoom usr nRoomID nRoomMode => some (w.joinRoom usr nRoomID nRoomMode).1
  | .removeUsr r usr => if r < w.nextRoom then some (w.removeUsr r usr).1 else none
  | .removeRoom rid => some (w.removeRoom rid)
  | .getRoomByID _ => some w

def members (w : World) (r : VChatRoomRef) : List VChatUserRef :=
  if r < w.nextRoom then (w.room r).users else []

def allMembers (w : World) : List VChatUserRef := (List.range w.nextRoom).flatMap (members w)

structure Consistent (w : World) : Prop where
  agrees : Agrees (members w) fun u => (w.user u).room
  stored : ∀ (id : VInt32) r, w.rooms[id]? = some r → r < w.nextRoom ∧ (w.room r).nId = id

theorem consistent_noRooms {w : World} (h : NoRooms w) : Consistent w := by
  refine ⟨fun u r => ?_, fun id r hr => ?_⟩
  · simp [members, h.nextRoom, h.user]
  · rw [h.rooms] at hr
    cases hr

theorem consistent_removeUsr {w : World} (h : Consistent w) {r : VChatRoomRef}
    (hr : r < w.nextRoom) (usr : VChatUserRef) : Consistent (w.removeUsr r usr).1 := by
  refine ⟨?_, fun id s hs => ?_⟩
  · by_cases hmem : usr ∈ (w.room r).users
    · refine h.agrees.erase (u := usr) (r := r) (by rwa [members, if_pos hr]) (fun s => ?_)
        fun v => ?_
      · simp only [members, removeUsr_nextRoom, removeUsr_users]
        split_ifs <;> simp
      · rw [removeUsr_user_of_mem hmem]
        split_ifs <;> rfl
    · rw [removeUsr_of_not_mem hmem]
      exact h.agrees
  · rw [removeUsr_rooms] at hs
    rw [removeUsr_nextRoom, removeUsr_nId]
    exact h.stored id s hs

theorem room_removeUsr {w : World} (h : Consistent w) {r : VChatRoomRef} {usr : VChatUserRef}
    (hr : (w.user usr).room = some r) : ((w.removeUsr r usr).1.user usr).room = none := by
  have hmem : usr ∈ members w r := h.agrees.mem_iff.mpr hr
  have hlt : r < w.nextRoom := by
    by_contra hlt
    simp [members, hlt] at hmem
  rw [members, if_pos hlt] at hmem
  rw [removeUsr_user_of_mem hmem, if_pos rfl]

theorem consistent_addUsr {w : World} (h : Consistent w) {r : VChatRoomRef}
    (hr : r < w.nextRoom) {usr : VChatUserRef} (husr : (w.user usr).room = none) :
    Consistent (w.addUsr r usr) := by
  refine ⟨h.agrees.append (u := usr) (r := r) husr (fun s => ?_) fun v => ?_, fun id s hs => ?_⟩
  · simp only [members, addUsr_nextRoom, addUsr_room]
    by_cases hs : s = r
    · simp [hs, hr]
    · simp [hs]
  · rw [addUsr_user]
    split_ifs <;> rfl
  · obtain ⟨hlt, hid⟩ := h.stored id s hs
    rw [addUsr_nextRoom, addUsr_room]
    refine ⟨hlt, ?_⟩
    split_ifs <;> exact hid

theorem consistent_createRoom {w : World} (h : Consistent w) : Consistent w.createRoom := by
  have hmembers : members w.createRoom = members w := by
    funext s
    simp only [members, createRoom_nextRoom, createRoom_room]
    by_cases hs : s = w.nextRoom
    · simp [hs, VChatRoom.new]
    · have hcreated : s < w.nextRoom + 1 ↔ s < w.nextRoom :=
        ⟨fun h => Nat.lt_of_le_of_ne (Nat.le_of_lt_succ h) hs, Nat.lt_succ_of_lt⟩
      simp [hs, hcreated]
  refine ⟨hmembers ▸ h.agrees, fun id s hs => ?_⟩
  obtain ⟨hlt, hid⟩ := h.stored id s hs
  rw [createRoom_nextRoom, createRoom_room, if_neg (Nat.ne_of_lt hlt)]
  exact ⟨Nat.lt_succ_of_lt hlt, hid⟩

theorem consistent_modifyRoom {w : World} (h : Consistent w) {r : VChatRoomRef}
    {g : VChatRoom → VChatRoom} (husers : (g (w.room r)).users = (w.room r).users)
    (hid : ∀ id : VInt32, w.rooms[id]? = some r → (g (w.room r)).nId = (w.room r).nId) :
    Consistent (w.modifyRoom r g) := by
  have hmembers : members (w.modifyRoom r g) = members w := by
    funext s
    rw [members, members, modifyRoom_nextRoom, modifyRoom_room]
    by_cases hs : s = r
    · rw [if_pos hs, hs, husers]
    · rw [if_neg hs]
  refine ⟨hmembers ▸ h.agrees, fun id s hs => ?_⟩
  obtain ⟨hlt, hids⟩ := h.stored id s hs
  refine ⟨hlt, ?_⟩
  rw [modifyRoom_room]
  by_cases hsr : s = r
  · subst hsr
    rw [if_pos rfl, hid id hs, hids]
  · rw [if_neg hsr, hids]

theorem consistent_storeRoom {w : World} (h : Consistent w) {r : VChatRoomRef}
    (hr : r < w.nextRoom) : Consistent (w.storeRoom (w.room r).nId r) := by
  refine ⟨h.agrees, fun id s hs => ?_⟩
  rw [storeRoom_find] at hs
  split_ifs at hs with heq
  · obtain rfl := Option.some.inj hs
    exact ⟨hr, heq⟩
  · exact h.stored id s hs

theorem consistent_userJoinRoom {w : World} (h : Consistent w) {usr : VChatUserRef}
    (husr : (w.user usr).room = none) (nChatRoomId nRoomMode : VInt32) :
    Consistent (w.userJoinRoom usr nChatRoomId nRoomMode) := by
  by_cases hid : nChatRoomId = -1
  · rw [hid, userJoinRoom_isolation]
    exact h
  cases hfind : w.rooms[nChatRoomId]? with
  | some r =>
    rw [userJoinRoom_of_some hid hfind]
    exact consistent_modifyRoom (consistent_addUsr h (h.stored _ r hfind).1 husr)
      (settle_users ..) (fun _ _ => settle_nId ..)
  | none =>
    -- the new room is not stored before it has its id
    have hnew : ∀ id : VInt32, (w.createRoom.addUsr w.nextRoom usr).rooms[id]? ≠ some w.nextRoom :=
      fun id hs => Nat.lt_irrefl _ (h.stored id _ hs).1
    have hadd : Consistent (w.createRoom.addUsr w.nextRoom usr) :=
      consistent_addUsr (consistent_createRoom h) (Nat.lt_succ_self _) husr
    have hname := consistent_modifyRoom (g := name nChatRoomId nRoomMode) hadd rfl
      fun id hs => absurd hs (hnew id)
    rw [userJoinRoom_of_none hid hfind]
    have hstore := consistent_storeRoom (r := w.nextRoom) hname (Nat.lt_succ_self _)
    rwa [modifyRoom_room_self] at hstore

theorem consistent_joinRoom {w : World} (h : Consistent w) (usr : VChatUserRef)
    (nRoomID nRoomMode : VInt32) : Consistent (w.joinRoom usr nRoomID nRoomMode).1 := by
  unfold joinRoom
  cases hroom : (w.user usr).room with
  | none => exact consistent_userJoinRoom h hroom nRoomID nRoomMode
  | some r =>
    have hlt : r < w.nextRoom := by
      have hmem : usr ∈ members w r := h.agrees.mem_iff.mpr hroom
      by_contra hlt
      simp [members, hlt] at hmem
    exact consistent_userJoinRoom (consistent_removeUsr h hlt usr) (room_removeUsr h hroom)
      nRoomID nRoomMode

theorem consistent_removeRoom {w : World} (h : Consistent w) (rid : VInt32) :
    Consistent (w.removeRoom rid) := by
  refine ⟨h.agrees, fun id r hr => ?_⟩
  rw [removeRoom_find] at hr
  split_ifs at hr
  exact h.stored id r hr

theorem consistent_step {w t : World} {e : Event} (h : Consistent w) (hstep : step w e = some t) :
    Consistent t := by
  cases e with
  | joinRoom usr nRoomID nRoomMode =>
    exact Option.some.inj hstep ▸ consistent_joinRoom h usr nRoomID nRoomMode
  | removeUsr r usr =>
    simp only [step] at hstep
    split_ifs at hstep with hr
    exact Option.some.inj hstep ▸ consistent_removeUsr h hr usr
  | removeRoom rid => exact Option.some.inj hstep ▸ consistent_removeRoom h rid
  | getRoomByID nRoomID => exact Option.some.inj hstep ▸ h

/-- No user is listed twice in all rooms together, the lists and the users' references agree,
and every stored room carries its key. -/
theorem membership_run {w w' : World} {es : List Event} (h₀ : NoRooms w)
    (h : exec step w es = some w') :
    (allMembers w').Nodup ∧
      (∀ u r, r < w'.nextRoom → (u ∈ (w'.room r).users ↔ (w'.user u).room = some r)) ∧
      ∀ (id : VInt32) r, w'.rooms[id]? = some r → (w'.room r).nId = id := by
  have hc : Consistent w' :=
    exec_invariant (fun _ _ _ hw hstep => consistent_step hw hstep) (consistent_noRooms h₀) h
  refine ⟨hc.agrees.nodup_flatMap List.nodup_range, fun u r hr => ?_, fun id r hr => ?_⟩
  · have hmem := hc.agrees.mem_iff (u := u) (r := r)
    rwa [members, if_pos hr] at hmem
  · exact (hc.stored id r hr).2

theorem membership_run_moved : ∃ w',
    exec step start [.joinRoom 0 5 1, .joinRoom 1 5 1, .joinRoom 0 6 1, .removeUsr 0 0] =
        some w' ∧
      (allMembers w').Nodup ∧
        (∀ u r, r < w'.nextRoom → (u ∈ (w'.room r).users ↔ (w'.user u).room = some r)) ∧
        ∀ (id : VInt32) r, w'.rooms[id]? = some r → (w'.room r).nId = id := by
  have h : ∃ w', exec step start
      [.joinRoom 0 5 1, .joinRoom 1 5 1, .joinRoom 0 6 1, .removeUsr 0 0] = some w' := ⟨_, rfl⟩
  obtain ⟨w', h⟩ := h
  exact ⟨w', h, membership_run noRooms_start h⟩

end VChat.Membership
