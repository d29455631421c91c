import VChat.Chat.RoomManager
import VChat.Transition.Runs

/-! The mode of a room, against the one its first member asked for. -/

namespace VChat.RoomMode
open Transition World

/-- `asked` remembers for each room the mode passed by the first user who joined since the room
was last without members. -/
structure Server where
  world : World
  asked : VChatRoomRef → VInt32

inductive Event where
  | userJoinRoom (usr : VChatUserRef) (nChatRoomId nRoomMode : VInt32)
  | removeUsr (r : VChatRoomRef) (usr : VChatUserRef)
  | setServerID (usr : VChatUserRef) (nServerID : VInt32)

def asks (s : Server) (nChatRoomId nRoomMode : VInt32) : VChatRoomRef → VInt32 :=
  if nChatRoomId ≠ -1 then
    match s.world.rooms[nChatRoomId]? with
    | some r =>
      if (s.world.room r).users = [] then Function.update s.asked r nRoomMode else s.asked
    | none => Function.update s.asked s.world.nextRoom nRoomMode
  else s.asked

def step (s : Server) : Event → Option Server
  | .userJoinRoom usr nChatRoomId nRoomMode =>
    some ⟨s.world.userJoinRoom usr nChatRoomId nRoomMode, asks s nChatRoomId nRoomMode⟩
  | .removeUsr r usr =>
    if r < s.world.nextRoom then some { s with world := (s.world.removeUsr r usr).1 } else none
  | .setServerID usr nServerID =>
    some { s with world := s.world.modifyUser usr fun u => { u with nServerID := nServerID } }

def ModeAsked (s : Server) : Prop :=
  ∀ r < s.world.nextRoom, (s.world.room r).users ≠ [] →
    (s.world.room r).nGameMode.toInt32 = s.asked r

structure Keeps (modes : MatchMakingModes) (s : Server) (e : Event) (t : Server) : Prop where
  mode : ModeAsked t
  isMatchMakingMode : ∀ r < t.world.nextRoom, (t.world.room r).users ≠ [] →
    modes.isMatchMakingMode (t.world.room r).nGameMode.toInt32 =
      modes.isMatchMakingMode (t.asked r)
  unchanged : ∀ usr id nRoomMode r, e = .userJoinRoom usr id nRoomMode →
    s.world.rooms[id]? = some r → (s.world.room r).users ≠ [] →
      (t.world.room r).nGameMode = (s.world.room r).nGameMode

/-- The mode that makes a room's first member fits into 8 bits. A later one asks for the mode the
room has, or else neither that mode nor the user's server is -1. -/
def Meets (s : Server) : Event → Prop
  | .userJoinRoom usr nChatRoomId nRoomMode => nChatRoomId ≠ -1 →
    match s.world.rooms[nChatRoomId]? with
    | none => nRoomMode.toInt8.toInt32 = nRoomMode
    | some r =>
      if (s.world.room r).users = [] then nRoomMode.toInt8.toInt32 = nRoomMode
      else nRoomMode.toInt8 = (s.world.room r).nGameMode ∨
        ((s.world.room r).nGameMode ≠ -1 ∧ (s.world.user usr).nServerID ≠ -1)
  | _ => True

structure Tracks (s : Server) : Prop where
  stored : ∀ (id : VInt32) r, s.world.rooms[id]? = some r → r < s.world.nextRoom
  empty : ∀ r < s.world.nextRoom, (s.world.room r).users = [] → (s.world.room r).nGameMode = -1
  mode : ModeAsked s

theorem toInt32_inj {a b : VInt8} : a.toInt32 = b.toInt32 ↔ a = b := by
  refine ⟨fun h => ?_, congrArg _⟩
  rw [← Int8.toInt8_toInt32 a, h, Int8.toInt8_toInt32]

section Join
variable {w : World} {id : VInt32} {r : VChatRoomRef}

theorem join_some (usr : VChatUserRef) (nRoomMode : VInt32) (hid : id ≠ -1)
    (h : w.rooms[id]? = some r) :
    ((w.userJoinRoom usr id nRoomMode).room r).users = (w.room r).users ++ [usr] ∧
      ((w.userJoinRoom usr id nRoomMode).room r).nGameMode =
        if (w.room r).nGameMode = -1 ∨ (w.user usr).nServerID = -1 then nRoomMode.toInt8
        else (w.room r).nGameMode := by
  have hmode : (w.room r).nGameMode.toInt32 = -1 ↔ (w.room r).nGameMode = -1 :=
    toInt32_inj (b := -1)
  rw [userJoinRoom_of_some hid h, modifyRoom_room_self, settle_users, addUsr_room, if_pos rfl]
  refine ⟨rfl, ?_⟩
  simp only [settle, hmode]
  split_ifs <;> rfl

theorem join_some_of_ne (usr : VChatUserRef) (nRoomMode : VInt32) (hid : id ≠ -1)
    (h : w.rooms[id]? = some r) {q : VChatRoomRef} (hq : q ≠ r) :
    (w.userJoinRoom usr id nRoomMode).room q = w.room q := by
  rw [userJoinRoom_of_some hid h, modifyRoom_room, if_neg hq, addUsr_room, if_neg hq]

theorem join_none (usr : VChatUserRef) (nRoomMode : VInt32) (hid : id ≠ -1)
    (h : w.rooms[id]? = none) :
    ((w.userJoinRoom usr id nRoomMode).room w.nextRoom).users = [usr] ∧
      ((w.userJoinRoom usr id nRoomMode).room w.nextRoom).nGameMode = nRoomMode.toInt8 := by
  rw [userJoinRoom_of_none hid h, storeRoom_room, modifyRoom_room_self, name, addUsr_room,
    if_pos rfl, createRoom_room, if_pos rfl]
  exact ⟨rfl, rfl⟩

theorem join_none_of_ne (usr : VChatUserRef) (nRoomMode : VInt32) (hid : id ≠ -1)
    (h : w.rooms[id]? = none) {q : VChatRoomRef} (hq : q ≠ w.nextRoom) :
    (w.userJoinRoom usr id nRoomMode).room q = w.room q := by
  rw [userJoinRoom_of_none hid h, storeRoom_room, modifyRoom_room, if_neg hq, addUsr_room,
    if_neg hq, createRoom_room, if_neg hq]

end Join

section Step
variable {modes : MatchMakingModes} {s t : Server} {e : Event} {r : VChatRoomRef}
variable {usr : VChatUserRef} {id nRoomMode : VInt32}

theorem asks_some (nRoomMode : VInt32) (hid : id ≠ -1) (h : s.world.rooms[id]? = some r) :
    asks s id nRoomMode =
    if (s.world.room r).users = [] then Function.update s.asked r nRoomMode else s.asked := by
  rw [asks, if_pos hid, h]

theorem asks_none (nRoomMode : VInt32) (hid : id ≠ -1) (h : s.world.rooms[id]? = none) :
    asks s id nRoomMode = Function.update s.asked s.world.nextRoom nRoomMode := by
  rw [asks, if_pos hid, h]

structure Joined (s t : Server) (r : VChatRoomRef) : Prop where
  lt : r < t.world.nextRoom
  users : (t.world.room r).users ≠ []
  other : ∀ q < t.world.nextRoom, q ≠ r → q < s.world.nextRoom ∧
    t.world.room q = s.world.room q ∧ t.asked q = s.asked q
  stored : ∀ (id : VInt32) q, t.world.rooms[id]? = some q → q < t.world.nextRoom

theorem Joined.modeAsked_iff (hj : Joined s t r) (h : ModeAsked s) :
    ModeAsked t ↔ (t.world.room r).nGameMode.toInt32 = t.asked r := by
  refine ⟨fun ht => ht r hj.lt hj.users, fun hr q hq hmembers => ?_⟩
  by_cases hqr : q = r
  · exact hqr ▸ hr
  · obtain ⟨hlt, hroom, hasked⟩ := hj.other q hq hqr
    rw [hroom, hasked]
    exact h q hlt (hroom ▸ hmembers)

theorem Joined.empty (hj : Joined s t r) (h : Tracks s) (q : VChatRoomRef)
    (hq : q < t.world.nextRoom) (hmembers : (t.world.room q).users = []) :
    (t.world.room q).nGameMode = -1 := by
  have hqr : q ≠ r := fun hqr => hj.users (hqr ▸ hmembers)
  obtain ⟨hlt, hroom, -⟩ := hj.other q hq hqr
  rw [hroom] at hmembers ⊢
  exact h.empty q hlt hmembers

def afterJoin (s : Server) (usr : VChatUserRef) (id nRoomMode : VInt32) : Server :=
  ⟨s.world.userJoinRoom usr id nRoomMode, asks s id nRoomMode⟩

theorem joined_none (h : Tracks s) (usr : VChatUserRef) (nRoomMode : VInt32) (hid : id ≠ -1)
    (hfind : s.world.rooms[id]? = none) :
    Joined s (afterJoin s usr id nRoomMode) s.world.nextRoom := by
  have husers := (join_none usr nRoomMode hid hfind).1
  have hnext : (afterJoin s usr id nRoomMode).world.nextRoom = s.world.nextRoom + 1 := by
    rw [afterJoin, userJoinRoom_of_none hid hfind]
    rfl
  refine ⟨?_, ?_, fun q hq hne => ⟨?_, ?_, ?_⟩, fun id' q hq => ?_⟩
  · rw [hnext]
    exact Nat.lt_succ_self _
  · simp [afterJoin, husers]
  · rw [hnext] at hq
    exact Nat.lt_of_le_of_ne (Nat.le_of_lt_succ hq) hne
  · exact join_none_of_ne usr nRoomMode hid hfind hne
  · simp only [afterJoin, asks_none nRoomMode hid hfind, Function.update_of_ne hne]
  · rw [hnext]
    rw [afterJoin, userJoinRoom_of_none hid hfind, storeRoom_find] at hq
    split_ifs at hq
    · exact Option.some.inj hq ▸ Nat.lt_succ_self _
    · exact Nat.lt_succ_of_lt (h.stored id' q hq)

theorem joined_some (h : Tracks s) (usr : VChatUserRef) (nRoomMode : VInt32) (hid : id ≠ -1)
    (hfind : s.world.rooms[id]? = some r) : Joined s (afterJoin s usr id nRoomMode) r := by
  have husers := (join_some usr nRoomMode hid hfind).1
  obtain ⟨hnext, hrooms⟩ :
      (afterJoin s usr id nRoomMode).world.nextRoom = s.world.nextRoom ∧
        (afterJoin s usr id nRoomMode).world.rooms = s.world.rooms := by
    rw [afterJoin, userJoinRoom_of_some hid hfind]
    exact ⟨rfl, rfl⟩
  refine ⟨?_, ?_, fun q hq hne => ⟨?_, ?_, ?_⟩, fun id' q hq => ?_⟩
  · rw [hnext]
    exact h.stored id r hfind
  · simp [afterJoin, husers]
  · rwa [hnext] at hq
  · exact join_some_of_ne usr nRoomMode hid hfind hne
  · simp only [afterJoin, asks_some nRoomMode hid hfind]
    split_ifs
    · exact Function.update_of_ne hne _ _
    · rfl
  · rw [hnext]
    rw [hrooms] at hq
    exact h.stored id' q hq

theorem meets_none (usr : VChatUserRef) (nRoomMode : VInt32) (hid : id ≠ -1)
    (hfind : s.world.rooms[id]? = none) : Meets s (.userJoinRoom usr id nRoomMode) ↔
      ((afterJoin s usr id nRoomMode).world.room s.world.nextRoom).nGameMode.toInt32 =
        (afterJoin s usr id nRoomMode).asked s.world.nextRoom := by
  simp only [afterJoin, (join_none usr nRoomMode hid hfind).2, asks_none nRoomMode hid hfind,
    Function.update_self, Meets, hfind]
  exact forall_prop_of_true hid

theorem meets_some (h : Tracks s) (usr : VChatUserRef) (nRoomMode : VInt32) (hid : id ≠ -1)
    (hfind : s.world.rooms[id]? = some r) : Meets s (.userJoinRoom usr id nRoomMode) ↔
      ((afterJoin s usr id nRoomMode).world.room r).nGameMode.toInt32 =
        (afterJoin s usr id nRoomMode).asked r := by
  have hlt : r < s.world.nextRoom := h.stored id r hfind
  simp only [afterJoin, (join_some usr nRoomMode hid hfind).2, asks_some nRoomMode hid hfind, Meets,
    hfind]
  rw [forall_prop_of_true hid]
  by_cases hempty : (s.world.room r).users = []
  · rw [if_pos hempty, if_pos hempty, if_pos (.inl (h.empty r hlt hempty)), Function.update_self]
  · -- the mode asked for is the one the room has, so the join may only write the same
    rw [if_neg hempty, if_neg hempty, ← h.mode r hlt hempty, toInt32_inj]
    split_ifs with hunset
    · exact or_iff_left fun hset => hunset.elim hset.1 hset.2
    · exact iff_of_true (.inr (not_or.mp hunset)) rfl

theorem join_step (h : Tracks s) (hid : id ≠ -1)
    (hs : step s (.userJoinRoom usr id nRoomMode) = some t) :
    ∃ r, Joined s t r ∧ (Meets s (.userJoinRoom usr id nRoomMode) ↔
      (t.world.room r).nGameMode.toInt32 = t.asked r) := by
  obtain rfl : afterJoin s usr id nRoomMode = t := Option.some.inj hs
  cases hfind : s.world.rooms[id]? with
  | none =>
    refine ⟨s.world.nextRoom, ?_, meets_none usr nRoomMode hid hfind⟩
    exact joined_none h usr nRoomMode hid hfind
  | some r =>
    refine ⟨r, ?_, meets_some h usr nRoomMode hid hfind⟩
    exact joined_some h usr nRoomMode hid hfind

structure Left (s t : Server) : Prop where
  nextRoom : t.world.nextRoom = s.world.nextRoom
  rooms : t.world.rooms = s.world.rooms
  asked : t.asked = s.asked
  mode : ∀ r, t.world.room r = s.world.room r ∨ (s.world.room r).users ≠ [] ∧
    (t.world.room r).nGameMode =
      if (t.world.room r).users = [] then -1 else (s.world.room r).nGameMode

theorem Left.tracks (hl : Left s t) (h : Tracks s) : Tracks t := by
  refine ⟨fun id r hr => ?_, fun r hr hempty => ?_, fun r hr hmembers => ?_⟩
  · rw [hl.rooms] at hr
    rw [hl.nextRoom]
    exact h.stored id r hr
  · rw [hl.nextRoom] at hr
    rcases hl.mode r with hroom | ⟨-, hmode⟩
    · rw [hroom] at hempty ⊢
      exact h.empty r hr hempty
    · rw [hmode, if_pos hempty]
  · rw [hl.nextRoom] at hr
    rw [hl.asked]
    rcases hl.mode r with hroom | ⟨hmembers', hmode⟩
    · rw [hroom] at hmembers ⊢
      exact h.mode r hr hmembers
    · rw [hmode, if_neg hmembers]
      exact h.mode r hr hmembers'

theorem left_removeUsr (hs : step s (.removeUsr r usr) = some t) : Left s t := by
  simp only [step] at hs
  split_ifs at hs
  obtain rfl := Option.some.inj hs
  refine ⟨removeUsr_nextRoom _ r usr, removeUsr_rooms _ r usr, rfl, fun q => ?_⟩
  by_cases hmem : usr ∈ (s.world.room r).users
  · by_cases hq : q = r
    · subst hq
      refine .inr ⟨List.ne_nil_of_mem hmem, ?_⟩
      simp [removeUsr_room_self hmem, VChatRoom.without]
    · exact .inl (removeUsr_room_of_ne hq usr)
  · rw [removeUsr_of_not_mem hmem]
    exact .inl rfl

theorem step_cases (h : Tracks s) (hs : step s e = some t) :
    (Left s t ∧ Meets s e) ∨
      ∃ r, Joined s t r ∧ (Meets s e ↔ (t.world.room r).nGameMode.toInt32 = t.asked r) := by
  cases e with
  | userJoinRoom usr id nRoomMode =>
    by_cases hid : id = -1
    · subst hid
      obtain rfl := Option.some.inj hs
      refine .inl ⟨⟨?_, ?_, rfl, fun r => .inl ?_⟩, fun hid => absurd rfl hid⟩
      · rw [userJoinRoom_isolation]
      · rw [userJoinRoom_isolation]
      · rw [userJoinRoom_isolation]
    · exact .inr (join_step h hid hs)
  | removeUsr r usr => exact .inl ⟨left_removeUsr hs, trivial⟩
  | setServerID usr nServerID =>
    obtain rfl := Option.some.inj hs
    exact .inl ⟨⟨rfl, rfl, rfl, fun _ => .inl rfl⟩, trivial⟩

theorem tracks_step (h : Tracks s) (hs : step s e = some t) (ht : ModeAsked t) : Tracks t := by
  rcases step_cases h hs with ⟨hl, -⟩ | ⟨r, hj, -⟩
  · exact hl.tracks h
  · exact ⟨hj.stored, hj.empty h, ht⟩

theorem keeps_of_modeAsked (h : Tracks s) (hs : step s e = some t) (ht : ModeAsked t) :
    Keeps modes s e t := by
  refine ⟨ht, fun r hr hmembers => by rw [ht r hr hmembers], ?_⟩
  rintro usr id nRoomMode r rfl hfind hmembers
  obtain rfl := Option.some.inj hs
  by_cases hid : id = -1
  · subst hid
    rw [userJoinRoom_isolation]
  · have hlt : r < s.world.nextRoom := h.stored id r hfind
    have hnext : (s.world.userJoinRoom usr id nRoomMode).nextRoom = s.world.nextRoom := by
      rw [userJoinRoom_of_some hid hfind]
      rfl
    have husers := (join_some usr nRoomMode hid hfind).1
    have hmode := ht r (by rwa [hnext]) (by simp [husers])
    simp only [asks_some nRoomMode hid hfind, if_neg hmembers, ← h.mode r hlt hmembers] at hmode
    exact toInt32_inj.mp hmode

theorem meets_iff (h : Tracks s) (hs : step s e = some t) : Meets s e ↔ Keeps modes s e t := by
  have hkeeps : Keeps modes s e t ↔ ModeAsked t :=
    ⟨fun hk => hk.mode, keeps_of_modeAsked h hs⟩
  rw [hkeeps]
  rcases step_cases h hs with ⟨hl, hmeets⟩ | ⟨r, hj, hmeets⟩
  · exact iff_of_true hmeets (hl.tracks h).mode
  · rw [hmeets, hj.modeAsked_iff h.mode]

end Step

theorem tracks_noRooms {w : World} (h₀ : NoRooms w) (asked : VChatRoomRef → VInt32) :
    Tracks ⟨w, asked⟩ := by
  have hnone : ∀ r, ¬ r < w.nextRoom := fun r hr => absurd hr (by simp [h₀.nextRoom])
  refine ⟨fun id r hr => ?_, fun r hr => absurd hr (hnone r), fun r hr => absurd hr (hnone r)⟩
  rw [h₀.rooms] at hr
  cases hr

/-- Exactly in the runs whose every join meets its condition do rooms with members keep the mode
their first member asked for. -/
theorem mode_run_iff {w : World} (h₀ : NoRooms w) (modes : MatchMakingModes)
    (asked : VChatRoomRef → VInt32) (es : List Event) :
    Along step (fun s e _ => Meets s e) ⟨w, asked⟩ es ↔ Along step (Keeps modes) ⟨w, asked⟩ es :=
  along_iff_along (J := Tracks) (fun _ _ _ h hs hk => tracks_step h hs hk.mode)
    (fun _ _ _ h hs => meets_iff h hs) es (tracks_noRooms h₀ asked)

/-- A user of server 3 makes a room with mode 7; another joins, and both leave. -/
theorem mode_run_two : Along step (Keeps ⟨7, 8⟩) ⟨start, fun _ => 0⟩
    [.setServerID 1 3, .userJoinRoom 1 5 7, .setServerID 2 3, .userJoinRoom 2 5 9,
      .removeUsr 0 1, .removeUsr 0 2] := by
  refine (mode_run_iff noRooms_start _ _ _).mp ?_
  refine .cons rfl trivial (.cons rfl ?_ (.cons rfl trivial (.cons rfl ?_ ?_)))
  · exact fun _ => rfl
  · exact fun _ => .inr ⟨by decide, by decide⟩
  · exact .cons rfl trivial (.cons rfl trivial trivial)

/-- Mode 263 becomes 7, and a user whose server is -1 replaces it by 9. -/
theorem not_mode_kept : ∃ t u,
    exec step ⟨start, fun _ => 0⟩ [.userJoinRoom 1 5 263, .setServerID 2 (-1)] = some t ∧
      step t (.userJoinRoom 2 5 9) = some u ∧
      (t.world.room 0).users = [1] ∧ (t.world.room 0).nGameMode = 7 ∧ t.asked 0 = 263 ∧
      (u.world.room 0).users = [1, 2] ∧ (u.world.room 0).nGameMode = 9 ∧ u.asked 0 = 263 := by
  refine ⟨_, _, rfl, rfl, ?_⟩
  decide

end VChat.RoomMode
