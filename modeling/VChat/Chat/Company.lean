import VChat.Chat.PacketRequest
import VChat.Transition.Gather
import VChat.Transition.Runs

/-! The rooms as the joins, departures and removals of rooms until then tell: who is in a room,
and which room a name leads to. -/

namespace VChat.Company
open Transition Move World

abbrev History := List (Move VChatUserRef VInt32)

/-- `outside` is anything else the server does. -/
inductive Event where
  | packet (now : VTime) (usr : VChatUserRef) (header : Header) (body : VConstBuffer)
  | joinRoom (usr : VChatUserRef) (nRoomID nRoomMode : VInt32)
  | removeUsr (r : VChatRoomRef) (usr : VChatUserRef)
  | removeRoom (rid : VInt32)
  | outside (f : World → World)

def sentBy : Action → Option Sent
  | .sent p => some p
  | _ => none

variable (types : PacketTypes) (sv : Services)

def kind (header : Header) : Option ChatPacket :=
  (ChatPacket.table types).lookup (header.nType.toNat : Int)

def step (w : World) : Event → Option (World × List Sent)
  | .packet now usr header body =>
    (processPacket types sv now w usr header body).map fun processed =>
      (processed.1, processed.2.filterMap sentBy)
  | .joinRoom usr nRoomID nRoomMode => some (w.joinRoom usr nRoomID nRoomMode)
  | .removeUsr r usr => if (w.user usr).room = some r then some (w.removeUsr r usr) else none
  | .removeRoom rid => some (w.removeRoom rid, [])
  | .outside f => some (f w, [])

def run (w : World) (es : List Event) : Option World :=
  exec (fun w e => (step types sv w e).map Prod.fst) w es

def asked (nRoomID : VInt32) : Option VInt32 := if nRoomID = -1 then none else some nRoomID

def move : Event → Option (Move VChatUserRef VInt32)
  | .packet _ usr header body =>
    match kind types header, body.second with
    | some .joinRoom, some packet => some (.goes usr (asked (sv.joinRoomPacket packet).1))
    | _, _ => none
  | .joinRoom usr nRoomID _ => some (.goes usr (asked nRoomID))
  | .removeUsr _ usr => some (.goes usr none)
  | .removeRoom rid => some (.closes rid)
  | .outside _ => none

/-- All moves of a run, the latest first. -/
def history (es : List Event) : History := (es.filterMap (move types sv)).reverse

/-- Nobody comes or goes, and names lead to the same rooms. -/
structure Stays (w t : World) : Prop where
  rooms : t.rooms = w.rooms
  nextRoom : t.nextRoom = w.nextRoom
  users : ∀ r, (t.room r).users = (w.room r).users
  nId : ∀ r, (t.room r).nId = (w.room r).nId
  place : ∀ u, (t.user u).room = (w.user u).room

/-- Each room has a place, and is as the moves say. -/
structure Seated (w : World) (ms : History) (key : VChatRoomRef → Place VInt32) : Prop where
  users : ∀ r < w.nextRoom, (w.room r).users = company ms (key r)
  named : ∀ r < w.nextRoom, (w.room r).nId = (key r).1
  inj : ∀ r < w.nextRoom, ∀ s < w.nextRoom, key r = key s → r = s
  stored : ∀ (id : VInt32) r, w.rooms[id]? = some r ↔ r < w.nextRoom ∧ key r = leadsTo ms id
  opened : ∀ r < w.nextRoom, (key r).2 ≤ closings ms (key r).1
  place_eq : ∀ u, place ms u = (w.user u).room.map key
  room_lt : ∀ u r, (w.user u).room = some r → r < w.nextRoom

variable {types sv} {w t : World} {ms : History} {key : VChatRoomRef → Place VInt32}
  {usr : VChatUserRef} {r : VChatRoomRef} {id : VInt32}

theorem Stays.refl (w : World) : Stays w w := ⟨rfl, rfl, fun _ => rfl, fun _ => rfl, fun _ => rfl⟩

theorem Stays.trans {u : World} (h : Stays w u) (h' : Stays u t) : Stays w t where
  rooms := h'.rooms.trans h.rooms
  nextRoom := h'.nextRoom.trans h.nextRoom
  users r := (h'.users r).trans (h.users r)
  nId r := (h'.nId r).trans (h.nId r)
  place u := (h'.place u).trans (h.place u)

theorem Seated.stays (h : Seated w ms key) (hst : Stays w t) : Seated t ms key := by
  refine ⟨fun r hr => ?_, fun r hr => ?_, fun r hr s hs => ?_, fun id r => ?_, fun r hr => ?_,
    fun u => ?_, fun u r hu => ?_⟩
  · rw [hst.nextRoom] at hr
    rw [hst.users, h.users r hr]
  · rw [hst.nextRoom] at hr
    rw [hst.nId, h.named r hr]
  · rw [hst.nextRoom] at hr hs
    exact h.inj r hr s hs
  · rw [hst.rooms, hst.nextRoom]
    exact h.stored id r
  · rw [hst.nextRoom] at hr
    exact h.opened r hr
  · rw [hst.place, h.place_eq]
  · rw [hst.place] at hu
    rw [hst.nextRoom]
    exact h.room_lt u r hu

theorem seated_noRooms (h₀ : NoRooms w) : Seated w [] key := by
  have hnone : ∀ r, ¬ r < w.nextRoom := fun r => by simp [h₀.nextRoom]
  refine ⟨fun r hr => absurd hr (hnone r), fun r hr => absurd hr (hnone r),
    fun r hr => absurd hr (hnone r), fun id r => ?_, fun r hr => absurd hr (hnone r), fun u => ?_,
    fun u r hu => ?_⟩
  · rw [h₀.rooms]
    exact iff_of_false (by simp) fun h => hnone r h.1
  · rw [h₀.user]
    rfl
  · rw [h₀.user] at hu
    cases hu

theorem Seated.mem_users_iff (h : Seated w ms key) (hr : r < w.nextRoom) :
    usr ∈ (w.room r).users ↔ (w.user usr).room = some r := by
  rw [h.users r hr, mem_company, h.place_eq, Option.map_eq_some_iff]
  constructor
  · rintro ⟨s, hs, hkey⟩
    rwa [← h.inj s (h.room_lt usr s hs) r hr hkey]
  · exact fun hu => ⟨r, hu, rfl⟩

theorem Seated.leave (h : Seated w ms key) (hr : (w.user usr).room = some r) :
    Seated (w.removeUsr r usr).1 (.goes usr none :: ms) key := by
  have hlt := h.room_lt usr r hr
  have hmem := (h.mem_users_iff hlt).mpr hr
  have huser := removeUsr_user_of_mem hmem
  refine ⟨fun s hs => ?_, fun s hs => ?_, ?_, fun id s => ?_, fun s hs => ?_, fun u => ?_,
    fun u s hu => ?_⟩
  · rw [removeUsr_nextRoom] at hs
    rw [removeUsr_users, company_leaves, ← h.users s hs]
    split_ifs with hsr
    · rfl
    · rw [List.erase_of_not_mem]
      rw [h.mem_users_iff hs, hr]
      exact fun heq => hsr (Option.some.inj heq).symm
  · rw [removeUsr_nextRoom] at hs
    rw [removeUsr_nId, h.named s hs]
  · rw [removeUsr_nextRoom]
    exact h.inj
  · rw [removeUsr_rooms, removeUsr_nextRoom, leadsTo_goes]
    exact h.stored id s
  · rw [removeUsr_nextRoom] at hs
    rw [closings_goes]
    exact h.opened s hs
  · rw [huser, Move.place]
    split_ifs
    · rfl
    · exact h.place_eq u
  · rw [huser] at hu
    rw [removeUsr_nextRoom]
    split_ifs at hu
    exact h.room_lt u s hu

theorem Seated.leave_nowhere (h : Seated w ms key) (hr : (w.user usr).room = none) :
    Seated w (.goes usr none :: ms) key := by
  have hplace : place (.goes usr none :: ms) = place ms := by
    funext u
    rw [Move.place]
    split_ifs with hu
    · rw [h.place_eq, hu, hr]
      rfl
    · rfl
  refine ⟨fun s hs => ?_, h.named, h.inj, fun id s => ?_, fun s hs => ?_, fun u => ?_, h.room_lt⟩
  · rw [company_leaves, ← h.users s hs, List.erase_of_not_mem]
    rw [h.mem_users_iff hs, hr]
    simp
  · rw [leadsTo_goes]
    exact h.stored id s
  · rw [closings_goes]
    exact h.opened s hs
  · rw [hplace]
    exact h.place_eq u

theorem Seated.joins (h : Seated w ms key) (hfind : w.rooms[id]? = some r)
    (hnone : (w.user usr).room = none) (nRoomMode : VInt32) :
    Seated ((w.addUsr r usr).modifyRoom r (settle nRoomMode (w.user usr).nServerID))
      (.goes usr (some id) :: ms) key := by
  obtain ⟨hlt, hkey⟩ := (h.stored id r).mp hfind
  have hleads : (some id).map (leadsTo ms) = some (key r) := by rw [hkey, Option.map_some]
  have husers : ∀ s, (((w.addUsr r usr).modifyRoom r
      (settle nRoomMode (w.user usr).nServerID)).room s).users =
      (w.room s).users ++ if s = r then [usr] else [] := by
    intro s
    rw [modifyRoom_room]
    by_cases hs : s = r
    · simp [hs, addUsr_room]
    · simp [hs, addUsr_room]
  have hnId : ∀ s, (((w.addUsr r usr).modifyRoom r
      (settle nRoomMode (w.user usr).nServerID)).room s).nId = (w.room s).nId := by
    intro s
    rw [modifyRoom_room]
    by_cases hs : s = r
    · simp [hs, addUsr_room]
    · simp [hs, addUsr_room]
  refine ⟨fun s hs => ?_, fun s hs => ?_, h.inj, fun id s => ?_, fun s hs => ?_, fun u => ?_,
    fun u s hu => ?_⟩
  · have hout : usr ∉ (w.room s).users := by
      rw [h.mem_users_iff hs, hnone]
      simp
    have hthere : some (key r) = some (key s) ↔ s = r := by
      rw [Option.some_inj]
      exact ⟨fun heq => (h.inj r hlt s hs heq).symm, fun heq => heq ▸ rfl⟩
    rw [husers, company_goes, ← h.users s hs, List.erase_of_not_mem hout, hleads]
    simp only [hthere]
  · rw [hnId]
    exact h.named s hs
  · rw [leadsTo_goes]
    exact h.stored id s
  · rw [closings_goes]
    exact h.opened s hs
  · rw [Move.place, hleads, modifyRoom_user, addUsr_user]
    split_ifs
    · rfl
    · exact h.place_eq u
  · rw [modifyRoom_user, addUsr_user] at hu
    split_ifs at hu
    · exact Option.some.inj hu ▸ hlt
    · exact h.room_lt u s hu

def founded (w : World) (usr : VChatUserRef) (id nRoomMode : VInt32) : World :=
  ((w.createRoom.addUsr w.nextRoom usr).modifyRoom w.nextRoom (name id nRoomMode)).storeRoom id
    w.nextRoom

theorem founded_room (w : World) (usr : VChatUserRef) (id nRoomMode : VInt32) (s : VChatRoomRef) :
    (((founded w usr id nRoomMode).room s).users =
      if s = w.nextRoom then [usr] else (w.room s).users) ∧
      ((founded w usr id nRoomMode).room s).nId =
        if s = w.nextRoom then id else (w.room s).nId := by
  simp only [founded, storeRoom_room, modifyRoom_room, addUsr_room, createRoom_room]
  by_cases hs : s = w.nextRoom
  · simp [hs, name, VChatRoom.new]
  · simp [hs]

theorem founded_user (w : World) (usr : VChatUserRef) (id nRoomMode : VInt32) (u : VChatUserRef) :
    ((founded w usr id nRoomMode).user u).room =
      if u = usr then some w.nextRoom else (w.user u).room := by
  show ((w.createRoom.addUsr w.nextRoom usr).user u).room = _
  rw [addUsr_user]
  split_ifs <;> rfl

theorem Seated.founds (h : Seated w ms key) (hfind : w.rooms[id]? = none)
    (hnone : (w.user usr).room = none) (nRoomMode : VInt32) :
    Seated (founded w usr id nRoomMode) (.goes usr (some id) :: ms)
      (Function.update key w.nextRoom (leadsTo ms id)) := by
  have hnext : (founded w usr id nRoomMode).nextRoom = w.nextRoom + 1 := rfl
  have hold : ∀ s < w.nextRoom, Function.update key w.nextRoom (leadsTo ms id) s = key s :=
    fun s hs => Function.update_of_ne (Nat.ne_of_lt hs) _ _
  have hnew : Function.update key w.nextRoom (leadsTo ms id) w.nextRoom = leadsTo ms id :=
    Function.update_self ..
  have hfresh : ∀ s < w.nextRoom, key s ≠ leadsTo ms id := by
    intro s hs heq
    have hstored := (h.stored id s).mpr ⟨hs, heq⟩
    rw [hfind] at hstored
    cases hstored
  have hempty : company ms (leadsTo ms id) = [] := by
    apply List.eq_nil_iff_forall_not_mem.mpr
    intro u hu
    rw [mem_company, h.place_eq, Option.map_eq_some_iff] at hu
    obtain ⟨s, hs, heq⟩ := hu
    exact hfresh s (h.room_lt u s hs) heq
  refine ⟨fun s hs => ?_, fun s hs => ?_, fun r hr s hs heq => ?_, fun id' s => ?_, fun s hs => ?_,
    fun u => ?_, fun u s hu => ?_⟩
  · rw [(founded_room w usr id nRoomMode s).1, company_goes]
    rcases Nat.lt_succ_iff_lt_or_eq.mp hs with hs | rfl
    · have hout : usr ∉ company ms (key s) := by
        rw [← h.users s hs, h.mem_users_iff hs, hnone]
        simp
      have hne : some (leadsTo ms id) ≠ some (key s) :=
        fun heq => hfresh s hs (Option.some.inj heq).symm
      rw [if_neg (Nat.ne_of_lt hs), hold s hs, List.erase_of_not_mem hout, Option.map_some,
        if_neg hne, List.append_nil, h.users s hs]
    · rw [if_pos rfl, hnew, hempty, Option.map_some, if_pos rfl]
      rfl
  · rw [(founded_room w usr id nRoomMode s).2]
    rcases Nat.lt_succ_iff_lt_or_eq.mp hs with hs | rfl
    · rw [if_neg (Nat.ne_of_lt hs), hold s hs, h.named s hs]
    · rw [if_pos rfl, hnew]
      rfl
  · rcases Nat.lt_succ_iff_lt_or_eq.mp hr with hr | rfl
    · rcases Nat.lt_succ_iff_lt_or_eq.mp hs with hs | rfl
      · rw [hold r hr, hold s hs] at heq
        exact h.inj r hr s hs heq
      · rw [hold r hr, hnew] at heq
        exact absurd heq (hfresh r hr)
    · rcases Nat.lt_succ_iff_lt_or_eq.mp hs with hs | rfl
      · rw [hnew, hold s hs] at heq
        exact absurd heq.symm (hfresh s hs)
      · rfl
  · have hfound : (founded w usr id nRoomMode).rooms[id']? =
        if id = id' then some w.nextRoom else w.rooms[id']? := storeRoom_find _ id id' w.nextRoom
    rw [hfound, hnext, leadsTo_goes]
    by_cases hid : id = id'
    · subst hid
      rw [if_pos rfl]
      constructor
      · rintro hs
        obtain rfl := Option.some.inj hs
        exact ⟨Nat.lt_succ_self _, hnew⟩
      · rintro ⟨hs, heq⟩
        rcases Nat.lt_succ_iff_lt_or_eq.mp hs with hs | rfl
        · rw [hold s hs] at heq
          exact absurd heq (hfresh s hs)
        · rfl
    · rw [if_neg hid, h.stored]
      constructor
      · rintro ⟨hs, heq⟩
        exact ⟨Nat.lt_succ_of_lt hs, (hold s hs).trans heq⟩
      · rintro ⟨hs, heq⟩
        rcases Nat.lt_succ_iff_lt_or_eq.mp hs with hs | rfl
        · exact ⟨hs, (hold s hs).symm.trans heq⟩
        · rw [hnew] at heq
          exact absurd (congrArg Prod.fst heq) hid
  · rw [closings_goes]
    rcases Nat.lt_succ_iff_lt_or_eq.mp hs with hs | rfl
    · rw [hold s hs]
      exact h.opened s hs
    · rw [hnew]
      exact Nat.le_refl _
  · rw [Move.place, founded_user]
    split_ifs with hu
    · rw [Option.map_some, Option.map_some, hnew]
    · rw [h.place_eq]
      cases hroom : (w.user u).room with
      | none => rfl
      | some s => rw [Option.map_some, Option.map_some, hold s (h.room_lt u s hroom)]
  · rw [founded_user] at hu
    rw [hnext]
    split_ifs at hu
    · exact Option.some.inj hu ▸ Nat.lt_succ_self _
    · exact Nat.lt_succ_of_lt (h.room_lt u s hu)

theorem Seated.userJoinRoom (h : Seated w ms key) (hnone : (w.user usr).room = none)
    (nChatRoomId nRoomMode : VInt32) : ∃ key', Seated (w.userJoinRoom usr nChatRoomId nRoomMode)
      (.goes usr (asked nChatRoomId) :: ms) key' := by
  unfold asked
  split_ifs with hid
  · rw [hid, userJoinRoom_isolation]
    exact ⟨key, h.leave_nowhere hnone⟩
  · cases hfind : w.rooms[nChatRoomId]? with
    | some r =>
      rw [userJoinRoom_of_some hid hfind]
      exact ⟨key, h.joins hfind hnone nRoomMode⟩
    | none =>
      rw [userJoinRoom_of_none hid hfind]
      exact ⟨_, h.founds hfind hnone nRoomMode⟩

theorem Seated.direct {k k' : Option VInt32}
    (h : Seated w (.goes usr k :: .goes usr k' :: ms) key) :
    Seated w (.goes usr k :: ms) key := by
  refine ⟨fun r hr => ?_, h.named, h.inj, fun id r => ?_, fun r hr => ?_, fun u => ?_, h.room_lt⟩
  · rw [h.users r hr, company_goes_goes]
  · have hstored := h.stored id r
    rwa [leadsTo_goes, leadsTo_goes] at hstored
  · have hopened := h.opened r hr
    rwa [closings_goes, closings_goes] at hopened
  · rw [← h.place_eq, place_goes_goes]

theorem Seated.joinRoom (h : Seated w ms key) (usr : VChatUserRef) (nRoomID nRoomMode : VInt32) :
    ∃ key', Seated (w.joinRoom usr nRoomID nRoomMode).1 (.goes usr (asked nRoomID) :: ms) key' := by
  unfold World.joinRoom
  cases hroom : (w.user usr).room with
  | none => exact h.userJoinRoom hroom nRoomID nRoomMode
  | some r =>
    have hleft := h.leave hroom
    have hnone : ((w.removeUsr r usr).1.user usr).room = none := by
      rw [removeUsr_user_of_mem ((h.mem_users_iff (h.room_lt usr r hroom)).mpr hroom), if_pos rfl]
    obtain ⟨key', hjoined⟩ := hleft.userJoinRoom hnone nRoomID nRoomMode
    exact ⟨key', hjoined.direct⟩

theorem Seated.removeRoom (h : Seated w ms key) (rid : VInt32) :
    Seated (w.removeRoom rid) (.closes rid :: ms) key := by
  refine ⟨h.users, h.named, h.inj, fun id r => ?_, fun r hr => ?_, h.place_eq, h.room_lt⟩
  · rw [removeRoom_find, leadsTo, closings_closes]
    by_cases hid : rid = id
    · subst hid
      rw [if_pos rfl, if_pos rfl]
      refine iff_of_false (by simp) fun hr => ?_
      have hopened := h.opened r hr.1
      rw [hr.2] at hopened
      exact Nat.lt_irrefl _ hopened
    · rw [if_neg hid, if_neg hid]
      exact h.stored id r
  · rw [closings_closes]
    exact Nat.le_add_right_of_le (h.opened r hr)

theorem stays_startMM (w : World) (r : VChatRoomRef) (now : VTime) :
    Stays w (w.startMM r now).1 := by
  refine ⟨startMM_rooms w r now, startMM_nextRoom w r now, fun s => (startMM_room w r s now).1,
    fun s => ?_, fun u => by rw [startMM_user]⟩
  unfold startMM
  split_ifs
  · by_cases hs : s = r <;> simp [modifyRoom_room, hs]
  · rfl

theorem stays_stopMM (w : World) (r : VChatRoomRef) : Stays w (w.stopMM r).1 := by
  refine ⟨stopMM_rooms w r, stopMM_nextRoom w r, fun s => (stopMM_room w r s).1, fun s => ?_,
    fun u => by rw [stopMM_user]⟩
  unfold stopMM
  split_ifs
  · by_cases hs : s = r <;> simp [modifyRoom_room, hs]
  · rfl

theorem stays_modifyUser (w : World) (u : VChatUserRef) {f : VChatUser → VChatUser}
    (hf : (f (w.user u)).room = (w.user u).room) : Stays w (w.modifyUser u f) := by
  refine ⟨rfl, rfl, fun _ => rfl, fun _ => rfl, fun v => ?_⟩
  rw [modifyUser_user]
  split_ifs with hv
  · rw [hv, hf]
  · rfl

theorem stays_setState (w : World) (u : VChatUserRef) (state : State) :
    Stays w (w.setState u state) := stays_modifyUser w u rfl

theorem stays_handler {kind : ChatPacket} (hkind : kind ≠ .joinRoom) {now : VTime}
    {usr : VChatUserRef} {packet : Option Memory} {nSize : VUInt32} {actions : List Action}
    (h : ChatPacket.handler sv now kind w usr packet nSize = some (t, actions)) : Stays w t := by
  cases kind with
  | joinRoom => exact absurd rfl hkind
  | chatMessage =>
    simp only [ChatPacket.handler, processChat] at h
    repeat' split at h
    all_goals cases h
    all_goals exact .refl w
  | banNick =>
    simp only [ChatPacket.handler, processBanNick] at h
    repeat' split at h
    all_goals cases h
    · exact stays_setState w _ .kick
    all_goals exact .refl w
  | tbGlobal =>
    simp only [ChatPacket.handler, processNotifyGlobal] at h
    split at h
    all_goals cases h
    all_goals exact .refl w
  | enterQueue =>
    simp only [ChatPacket.handler, roomEnterMMQueue] at h
    split at h
    · cases h
      exact stays_startMM w _ now
    · cases h
  | leaveQueue =>
    simp only [ChatPacket.handler, roomLeaveMMQueue] at h
    repeat' split at h
    all_goals cases h
    all_goals exact stays_stopMM w _
  | kickUser =>
    simp only [ChatPacket.handler, processKickUser] at h
    repeat' split at h
    all_goals cases h
    all_goals exact .refl w
  | requestZMEFriends =>
    simp only [ChatPacket.handler, World.requestZMEFriends] at h
    repeat' split at h
    all_goals cases h
    all_goals exact .refl w
  | sendCodeZME =>
    simp only [ChatPacket.handler, codeZME] at h
    split at h
    all_goals cases h
    exact .refl w
  | requestZCBillingURL =>
    simp only [ChatPacket.handler, World.requestZCBillingURL] at h
    split at h
    all_goals cases h
    exact .refl w

theorem processPacket_eq (now : VTime) (w : World) (usr : VChatUserRef) (header : Header)
    (body : VConstBuffer) :
    processPacket types sv now w usr header body =
      (kind types header).elim (some (w, [])) fun kind =>
        ChatPacket.handler sv now kind w usr body.second (BitVec.ofNat 32 body.first) := by
  unfold processPacket kind
  rw [ChatPacket.processFunction_eq, ChatPacket.lookup_map]
  cases (ChatPacket.table types).lookup (header.nType.toNat : Int) <;> rfl

theorem Seated.advance (h : Seated w ms key) {e : Event} {out : List Sent}
    (hkeep : ∀ f, e = .outside f → ∀ w, Stays w (f w))
    (hstep : step types sv w e = some (t, out)) :
    ∃ key', Seated t ((move types sv e).toList ++ ms) key' := by
  cases e with
  | packet now usr header body =>
    obtain ⟨⟨t, actions⟩, hprocess, heq⟩ := Option.map_eq_some_iff.mp hstep
    obtain ⟨rfl, -⟩ := Prod.mk.inj heq
    rw [processPacket_eq] at hprocess
    rw [move]
    cases hkind : kind types header with
    | none =>
      rw [hkind] at hprocess
      obtain ⟨rfl, -⟩ := Prod.mk.inj (Option.some.inj hprocess)
      exact ⟨key, h⟩
    | some it =>
      rw [hkind, Option.elim_some] at hprocess
      cases hpacket : body.second with
      | none =>
        rw [hpacket] at hprocess
        refine ⟨key, ?_⟩
        cases it with
        | joinRoom => cases hprocess
        | _ => exact h.stays (stays_handler (by simp) hprocess)
      | some packet =>
        rw [hpacket] at hprocess
        cases it with
        | joinRoom =>
          obtain ⟨rfl, -⟩ := Prod.mk.inj (Option.some.inj hprocess)
          exact h.joinRoom usr _ _
        | _ => exact ⟨key, h.stays (stays_handler (by simp) hprocess)⟩
  | joinRoom usr nRoomID nRoomMode =>
    obtain ⟨rfl, -⟩ := Prod.mk.inj (Option.some.inj hstep)
    exact h.joinRoom usr nRoomID nRoomMode
  | removeUsr r usr =>
    simp only [Company.step] at hstep
    split_ifs at hstep with hr
    obtain ⟨rfl, -⟩ := Prod.mk.inj (Option.some.inj hstep)
    exact ⟨key, h.leave hr⟩
  | removeRoom rid =>
    obtain ⟨rfl, -⟩ := Prod.mk.inj (Option.some.inj hstep)
    exact ⟨key, h.removeRoom rid⟩
  | outside f =>
    obtain ⟨rfl, -⟩ := Prod.mk.inj (Option.some.inj hstep)
    exact ⟨key, h.stays (hkeep f rfl w)⟩

theorem history_concat (es : List Event) (e : Event) :
    history types sv (es ++ [e]) = (move types sv e).toList ++ history types sv es := by
  rw [history, List.filterMap_append, List.reverse_append, history]
  cases hmove : move types sv e <;> simp [hmove]

theorem seated_run (h₀ : NoRooms w) {es : List Event} {s : World}
    (hkeep : ∀ f, .outside f ∈ es → ∀ w, Stays w (f w)) (hrun : run types sv w es = some s) :
    ∃ key, Seated s (history types sv es) key := by
  refine exec_induction (P := fun es s => (∀ f, .outside f ∈ es → ∀ w, Stays w (f w)) →
    ∃ key, Seated s (history types sv es) key) (fun _ => ⟨fun _ => (0, 0), seated_noRooms h₀⟩)
    (fun es s e t ih hstep hkeep => ?_) hrun hkeep
  obtain ⟨key, hs⟩ := ih fun f hf => hkeep f (List.mem_append_left _ hf)
  obtain ⟨⟨t, out⟩, he, rfl⟩ := Option.map_eq_some_iff.mp hstep
  rw [history_concat]
  exact hs.advance (fun f hf => hkeep f (by simp [hf])) he

end VChat.Company
