import VChat.Chat.RoomManager
import VChat.Transition.Runs
import VChat.Transition.Since

/-! What matchmaking sees of the rooms, against the calls that led there: a room is listed
when `StartMM` was called on the team it still has and nothing has withdrawn it since. -/

namespace VChat.Matchmaking
open Transition World

inductive Event where
  | userJoinRoom (usr : VChatUserRef) (nChatRoomId nRoomMode : VInt32)
  | removeRoom (rid : VInt32)
  | removeUsr (r : VChatRoomRef) (usr : VChatUserRef)
  | startMM (r : VChatRoomRef) (now : VTime)
  | stopMM (r : VChatRoomRef)
  | setStatus (r : VChatRoomRef) (value : VInt32)
deriving DecidableEq

def step (w : World) : Event → Option World
  | .userJoinRoom usr nChatRoomId nRoomMode => some (w.userJoinRoom usr nChatRoomId nRoomMode)
  | .removeRoom rid => some (w.removeRoom rid)
  | .removeUsr r usr => if r < w.nextRoom then some (w.removeUsr r usr).1 else none
  | .startMM r now => if r < w.nextRoom then some (w.startMM r now).1 else none
  | .stopMM r => if r < w.nextRoom then some (w.stopMM r).1 else none
  | .setStatus r value =>
    if r < w.nextRoom ∧ value ≠ roomEnqueueMM then some (w.setStatus r value).1 else none

def roomJoined (w : World) (nChatRoomId : VInt32) : Option VChatRoomRef :=
  if nChatRoomId = -1 then none else some (w.rooms[nChatRoomId]?.getD w.nextRoom)

/-- The call changes the members of `r`, or is a `StopMM` or `SetStatus` on it. -/
def withdraws (r : VChatRoomRef) (x : World × Event) : Bool :=
  match x.2 with
  | .userJoinRoom _ nChatRoomId _ => roomJoined x.1 nChatRoomId = some r
  | .removeUsr s usr => s = r && usr ∈ (x.1.room r).users
  | .stopMM s => s = r
  | .setStatus s _ => s = r
  | .removeRoom _ => false
  | .startMM _ _ => false

/-- `StartMM` was called on `r` in state `s`, after the last call that withdraws `r`. -/
def Queued (log : List (World × Event)) (r : VChatRoomRef) (s : World) : Prop :=
  ∃ now, (s, Event.startMM r now) ∈ sinceLast (withdraws r) log

theorem queued_iff {log : List (World × Event)} {r : VChatRoomRef} {s : World} :
    Queued log r s ↔ ∃ now pre post, log = pre ++ (s, .startMM r now) :: post ∧
      ∀ x ∈ post, withdraws r x = false := by
  simp only [Queued, mem_sinceLast, withdraws, true_and]

theorem queued_append {log : List (World × Event)} {r : VChatRoomRef} {s : World}
    {x : World × Event} :
    Queued (log ++ [x]) r s ↔
      withdraws r x = false ∧ (Queued log r s ∨ ∃ now, x = (s, .startMM r now)) := by
  simp only [Queued, sinceLast_concat]
  cases hx : withdraws r x with
  | true => simp
  | false =>
    simp only [Bool.false_eq_true, if_false, List.mem_append, List.mem_singleton, true_and]
    rw [exists_or]
    simp only [eq_comm]

section Step
variable {w t : World} {e : Event} {r : VChatRoomRef}

theorem userJoinRoom_room_joined {nChatRoomId : VInt32} (hr : roomJoined w nChatRoomId = some r)
    (usr : VChatUserRef) (nRoomMode : VInt32) :
    ((w.userJoinRoom usr nChatRoomId nRoomMode).room r).nRoomStatus = roomNormal := by
  unfold roomJoined at hr
  split_ifs at hr with hid
  cases hfind : w.rooms[nChatRoomId]? with
  | some s =>
    obtain rfl : s = r := by simpa [hfind] using hr
    rw [userJoinRoom_of_some hid hfind]
    simp [addUsr_room]
  | none =>
    obtain rfl : w.nextRoom = r := by simpa [hfind] using hr
    rw [userJoinRoom_of_none hid hfind]
    simp [addUsr_room, name]

theorem userJoinRoom_room_other {nChatRoomId : VInt32} (hr : roomJoined w nChatRoomId ≠ some r)
    (usr : VChatUserRef) (nRoomMode : VInt32) :
    (w.userJoinRoom usr nChatRoomId nRoomMode).room r = w.room r ∧
      (r < (w.userJoinRoom usr nChatRoomId nRoomMode).nextRoom → r < w.nextRoom) := by
  by_cases hid : nChatRoomId = -1
  · rw [hid, userJoinRoom_isolation]
    exact ⟨rfl, id⟩
  rw [roomJoined, if_neg hid] at hr
  cases hfind : w.rooms[nChatRoomId]? with
  | some s =>
    have hne : r ≠ s := fun h => hr (by rw [hfind, h]; rfl)
    rw [userJoinRoom_of_some hid hfind]
    exact ⟨by simp [modifyRoom_room, addUsr_room, hne], id⟩
  | none =>
    have hne : r ≠ w.nextRoom := fun h => hr (by rw [hfind, h]; rfl)
    rw [userJoinRoom_of_none hid hfind]
    refine ⟨by simp [modifyRoom_room, addUsr_room, createRoom_room, hne], fun hlt => ?_⟩
    exact Nat.lt_of_le_of_ne (Nat.le_of_lt_succ hlt) hne

theorem step_of_withdraws (hstep : step w e = some t) (hr : withdraws r (w, e) = true) :
    (t.room r).nRoomStatus ≠ roomEnqueueMM := by
  cases e with
  | userJoinRoom usr nChatRoomId nRoomMode =>
    obtain rfl := Option.some.inj hstep
    rw [userJoinRoom_room_joined (of_decide_eq_true hr)]
    exact roomNormal_ne_enqueueMM
  | removeRoom rid => cases hr
  | startMM s now => cases hr
  | removeUsr s usr =>
    obtain ⟨rfl, hmem⟩ : s = r ∧ usr ∈ (w.room r).users := by simpa [withdraws] using hr
    simp only [step] at hstep
    split_ifs at hstep
    obtain rfl := Option.some.inj hstep
    rw [removeUsr_room_self hmem]
    exact roomNormal_ne_enqueueMM
  | stopMM s =>
    obtain rfl : s = r := of_decide_eq_true hr
    simp only [step] at hstep
    split_ifs at hstep
    obtain rfl := Option.some.inj hstep
    exact fun hqueue => ((stopMM_room w s s).2.mp hqueue).2 rfl
  | setStatus s value =>
    obtain rfl : s = r := of_decide_eq_true hr
    simp only [step] at hstep
    split_ifs at hstep with h
    obtain rfl := Option.some.inj hstep
    simpa [setStatus] using h.2

theorem step_of_not_withdraws (hstep : step w e = some t) (hr : withdraws r (w, e) = false)
    (hlt : r < t.nextRoom) :
    r < w.nextRoom ∧ (t.room r).users = (w.room r).users ∧
      ((t.room r).nRoomStatus = roomEnqueueMM ↔
        (w.room r).nRoomStatus = roomEnqueueMM ∨ ∃ now, e = .startMM r now) := by
  cases e with
  | userJoinRoom usr nChatRoomId nRoomMode =>
    obtain rfl := Option.some.inj hstep
    obtain ⟨hroom, hnext⟩ := userJoinRoom_room_other (of_decide_eq_false hr) usr nRoomMode
    rw [hroom]
    exact ⟨hnext hlt, rfl, by simp⟩
  | removeRoom rid =>
    obtain rfl := Option.some.inj hstep
    exact ⟨hlt, rfl, by simp [removeRoom]⟩
  | removeUsr s usr =>
    simp only [step] at hstep
    split_ifs at hstep
    obtain rfl := Option.some.inj hstep
    rw [removeUsr_nextRoom] at hlt
    have hsame : (w.removeUsr s usr).1.room r = w.room r := by
      by_cases hrs : r = s
      · have hmem : usr ∉ (w.room s).users := by
          intro hmem
          simp [withdraws, hrs, hmem] at hr
        rw [removeUsr_of_not_mem hmem]
      · exact removeUsr_room_of_ne hrs usr
    rw [hsame]
    exact ⟨hlt, rfl, by simp⟩
  | startMM s now =>
    simp only [step] at hstep
    split_ifs at hstep
    obtain rfl := Option.some.inj hstep
    rw [startMM_nextRoom] at hlt
    obtain ⟨husers, hstatus⟩ := startMM_room w s r now
    refine ⟨hlt, husers, ?_⟩
    rw [hstatus]
    simp [eq_comm]
  | stopMM s =>
    have hne : r ≠ s := Ne.symm (of_decide_eq_false hr)
    simp only [step] at hstep
    split_ifs at hstep
    obtain rfl := Option.some.inj hstep
    rw [stopMM_nextRoom] at hlt
    obtain ⟨husers, hstatus⟩ := stopMM_room w s r
    refine ⟨hlt, husers, ?_⟩
    rw [hstatus]
    simp [hne]
  | setStatus s value =>
    have hne : r ≠ s := Ne.symm (of_decide_eq_false hr)
    simp only [step] at hstep
    split_ifs at hstep
    obtain rfl := Option.some.inj hstep
    exact ⟨hlt, by simp [setStatus, modifyRoom_room, hne]⟩

end Step

structure Stored (w : World) : Prop where
  lt : ∀ (id : VInt32) r, w.rooms[id]? = some r → r < w.nextRoom
  inj : ∀ (id id' : VInt32) r, w.rooms[id]? = some r → w.rooms[id']? = some r → id = id'

theorem stored_of_rooms_eq {w t : World} (h : Stored w) (hrooms : t.rooms = w.rooms)
    (hnext : t.nextRoom = w.nextRoom) : Stored t :=
  ⟨by rw [hrooms, hnext]; exact h.lt, by rw [hrooms]; exact h.inj⟩

theorem stored_userJoinRoom {w : World} (h : Stored w) (usr : VChatUserRef)
    (nChatRoomId nRoomMode : VInt32) : Stored (w.userJoinRoom usr nChatRoomId nRoomMode) := by
  by_cases hid : nChatRoomId = -1
  · rw [hid, userJoinRoom_isolation]
    exact h
  cases hfind : w.rooms[nChatRoomId]? with
  | some r =>
    rw [userJoinRoom_of_some hid hfind]
    exact stored_of_rooms_eq h rfl rfl
  | none =>
    rw [userJoinRoom_of_none hid hfind]
    refine ⟨fun id r hr => ?_, fun id id' r hr hr' => ?_⟩
    · rw [storeRoom_find] at hr
      split_ifs at hr
      · exact Option.some.inj hr ▸ Nat.lt_succ_self _
      · exact Nat.lt_succ_of_lt (h.lt id r hr)
    · rw [storeRoom_find] at hr hr'
      split_ifs at hr hr' with heq heq' heq'
      · exact heq.symm.trans heq'
      · exact absurd (h.lt id' r hr') (Option.some.inj hr ▸ Nat.lt_irrefl _)
      · exact absurd (h.lt id r hr) (Option.some.inj hr' ▸ Nat.lt_irrefl _)
      · exact h.inj id id' r hr hr'

theorem stored_step {w t : World} {e : Event} (h : Stored w) (hstep : step w e = some t) :
    Stored t := by
  cases e with
  | userJoinRoom usr nChatRoomId nRoomMode =>
    exact Option.some.inj hstep ▸ stored_userJoinRoom h usr nChatRoomId nRoomMode
  | removeRoom rid =>
    obtain rfl := Option.some.inj hstep
    refine ⟨fun id r hr => ?_, fun id id' r hr hr' => ?_⟩
    · rw [removeRoom_find] at hr
      split_ifs at hr
      exact h.lt id r hr
    · rw [removeRoom_find] at hr hr'
      split_ifs at hr hr'
      exact h.inj id id' r hr hr'
  | removeUsr r usr =>
    simp only [step] at hstep
    split_ifs at hstep
    obtain rfl := Option.some.inj hstep
    exact stored_of_rooms_eq h (removeUsr_rooms w r usr) (removeUsr_nextRoom w r usr)
  | startMM r now =>
    simp only [step] at hstep
    split_ifs at hstep
    obtain rfl := Option.some.inj hstep
    exact stored_of_rooms_eq h (startMM_rooms w r now) (startMM_nextRoom w r now)
  | stopMM r =>
    simp only [step] at hstep
    split_ifs at hstep
    obtain rfl := Option.some.inj hstep
    exact stored_of_rooms_eq h (stopMM_rooms w r) (stopMM_nextRoom w r)
  | setStatus r value =>
    simp only [step] at hstep
    split_ifs at hstep
    exact Option.some.inj hstep ▸ stored_of_rooms_eq h rfl rfl

structure Tracked (x : World × List (World × Event)) : Prop where
  stored : Stored x.1
  status : ∀ r, r < x.1.nextRoom →
    ((x.1.room r).nRoomStatus = roomEnqueueMM ↔ ∃ s, Queued x.2 r s)
  frozen : ∀ r, r < x.1.nextRoom → ∀ s, Queued x.2 r s → (s.room r).users = (x.1.room r).users

theorem tracked_noRooms {w : World} (h : NoRooms w) : Tracked (w, []) := by
  refine ⟨⟨fun id r hr => ?_, fun id id' r hr => ?_⟩, fun r hr => ?_, fun r hr => ?_⟩
  · simp [h.rooms] at hr
  · simp [h.rooms] at hr
  · exact absurd hr (by simp [h.nextRoom])
  · exact absurd hr (by simp [h.nextRoom])

theorem tracked_step {x y : World × List (World × Event)} {e : Event} (h : Tracked x)
    (hstep : recorded step x e = some y) : Tracked y := by
  obtain ⟨hstep, hlog⟩ := recorded_eq_some.mp hstep
  refine ⟨stored_step h.stored hstep, fun r hr => ?_, fun r hr s hq => ?_⟩
  · simp only [hlog, queued_append]
    cases hw : withdraws r (x.1, e) with
    | true => simp [step_of_withdraws hstep hw]
    | false =>
      obtain ⟨hlt, -, hstatus⟩ := step_of_not_withdraws hstep hw hr
      simp only [hstatus, h.status r hlt, Prod.mk.injEq, true_and, exists_or]
      simp
  · rw [hlog, queued_append] at hq
    obtain ⟨hlt, husers, -⟩ := step_of_not_withdraws hstep hq.1 hr
    rw [husers]
    obtain hq | ⟨now, heq⟩ := hq.2
    · exact h.frozen r hlt s hq
    · rw [(Prod.mk.inj heq).1]

/-- The rooms `GetMMRooms` lists are those stored, with members, in a matchmaking mode and
queued with no later change; each is listed once, with the team it was queued with. -/
theorem getMMRooms_run (modes : MatchMakingModes) {w w' : World} {es : List Event}
    {log : List (World × Event)} (h₀ : NoRooms w)
    (h : exec (recorded step) (w, []) es = some (w', log))
    (list : List (MMCriteria × VChatRoomRef)) :
    ∃ entries, w'.getMMRooms modes list = list ++ entries ∧ (entries.map Prod.snd).Nodup ∧
      (∀ r, r ∈ entries.map Prod.snd ↔
        (∃ id : VInt32, w'.rooms[id]? = some r) ∧ (w'.room r).users ≠ [] ∧
          modes.isMatchMakingMode (w'.room r).nGameMode.toInt32 ∧ ∃ s, Queued log r s) ∧
      ∀ x ∈ entries,
        (∀ s, Queued log x.2 s → (s.room x.2).users = (w'.room x.2).users) ∧
          x.1.nCriteria = ![(w'.room x.2).nServerId, (w'.room x.2).nGameMode.toInt32,
            Int32.ofNat (w'.room x.2).users.length,
            ((w'.room x.2).users.map fun usr => (w'.user usr).nMatchMakingPoint).sum] := by
  have ht : Tracked (w', log) :=
    exec_invariant (fun _ _ _ hx hstep => tracked_step hx hstep) (tracked_noRooms h₀) h
  have hstatus (r : VChatRoomRef) (hr : ∃ id : VInt32, w'.rooms[id]? = some r) :
      (w'.room r).nRoomStatus = roomEnqueueMM ↔ ∃ s, Queued log r s := by
    obtain ⟨id, hid⟩ := hr
    exact ht.status r (ht.stored.lt id r hid)
  refine ⟨w'.listed modes, getMMRooms_eq modes w' list, nodup_listed ht.stored.inj modes,
    fun r => ?_, fun x hx => ?_⟩
  · rw [mem_rooms_listed]
    refine and_congr_right fun hr => ?_
    rw [hstatus r hr]
  · obtain ⟨⟨id, hid⟩, hroom⟩ := mem_listed.mp hx
    obtain ⟨-, -, hcriteria, -⟩ := mmRoom_eq_some.mp hroom
    have hfrozen := ht.frozen x.2 (ht.stored.lt id x.2 hid)
    exact ⟨hfrozen, (getCriteria_eq_some.mp hcriteria).2⟩

theorem getMMRooms_run_queued : ∃ w' log,
    exec (recorded step) (start, [])
        [.userJoinRoom 0 5 9, .userJoinRoom 1 5 9, .startMM 0 none, .userJoinRoom 2 6 9] =
        some (w', log) ∧
      ∃ entries, w'.getMMRooms ⟨9, 10⟩ [] = [] ++ entries ∧ (entries.map Prod.snd).Nodup ∧
        (∀ r, r ∈ entries.map Prod.snd ↔
          (∃ id : VInt32, w'.rooms[id]? = some r) ∧ (w'.room r).users ≠ [] ∧
            MatchMakingModes.isMatchMakingMode ⟨9, 10⟩ (w'.room r).nGameMode.toInt32 ∧
              ∃ s, Queued log r s) ∧
        ∀ x ∈ entries,
          (∀ s, Queued log x.2 s → (s.room x.2).users = (w'.room x.2).users) ∧
            x.1.nCriteria = ![(w'.room x.2).nServerId, (w'.room x.2).nGameMode.toInt32,
              Int32.ofNat (w'.room x.2).users.length,
              ((w'.room x.2).users.map fun usr => (w'.user usr).nMatchMakingPoint).sum] := by
  have h : ∃ w' log, exec (recorded step) (start, [])
      [.userJoinRoom 0 5 9, .userJoinRoom 1 5 9, .startMM 0 none, .userJoinRoom 2 6 9] =
      some (w', log) := ⟨_, _, rfl⟩
  obtain ⟨w', log, h⟩ := h
  exact ⟨w', log, h, getMMRooms_run ⟨9, 10⟩ noRooms_start h []⟩

end VChat.Matchmaking
