import VChat.Chat.ProcessPacket
import VChat.Transition.Runs

/-! The queue handlers read the room of their user anew in each statement. Here every `GetRoom()`
and every use of what it returned is a step, and other threads move users between the steps. -/

namespace VChat.QueueRace
open Transition World

/-- What a handler thread does next. `changed` is the room whose status the call has changed, and
the rooms named `r` are what `GetRoom()` returned to the statement in progress. -/
inductive Pc where
  | idle
  | enterGetRoom (usr : VChatUserRef)
  | enterStartMM (usr : VChatUserRef) (r : VChatRoomRef)
  | enterGetRoomAgain (usr : VChatUserRef) (changed : Option VChatRoomRef)
  | enterSend (r : VChatRoomRef) (changed : Option VChatRoomRef)
  | leaveGetRoom (usr : VChatUserRef)
  | leaveStopMM (usr : VChatUserRef) (r : VChatRoomRef)
  | leaveGetRoomToLog (usr : VChatUserRef) (changed : VChatRoomRef)
  | leaveLog (usr : VChatUserRef) (r : Option VChatRoomRef) (changed : VChatRoomRef)
  | leaveGetRoomToSend (usr : VChatUserRef) (changed : VChatRoomRef)
  | leaveSend (r : VChatRoomRef) (changed : VChatRoomRef)

/-- `nullPointer`: an empty `GetRoom()` was dereferenced, which ends the call. The packets of
`timerSent` are sent in the world `w`. -/
inductive Act where
  | nullPointer
  | statusChanged (r : VChatRoomRef)
  | logged (r : Option VChatRoomRef)
  | timerSent (w : World) (r : VChatRoomRef) (packets : List Sent)

structure Server where
  world : World
  thread : Nat → Pc
  acts : Nat → List Act

/-- `removeUsr` and `userJoinRoom` are other threads moving users. -/
inductive Event where
  | roomEnterMMQueue (i : Nat) (usr : VChatUserRef)
  | roomLeaveMMQueue (i : Nat) (usr : VChatUserRef)
  | proceed (i : Nat) (now : VTime)
  | removeUsr (r : VChatRoomRef) (usr : VChatUserRef)
  | userJoinRoom (usr : VChatUserRef) (nChatRoomId nRoomMode : VInt32)

namespace Server

def goto (s : Server) (i : Nat) (pc : Pc) : Server :=
  { s with thread := fun j => if j = i then pc else s.thread j }

def call (s : Server) (i : Nat) (pc : Pc) : Server :=
  { s.goto i pc with acts := fun j => if j = i then [] else s.acts j }

def act (s : Server) (i : Nat) (acts : List Act) : Server :=
  { s with acts := fun j => if j = i then s.acts j ++ acts else s.acts j }

def deref (s : Server) (i : Nat) (usr : VChatUserRef) (next : VChatRoomRef → Pc) : Server :=
  match (s.world.user usr).room with
  | some r => s.goto i (next r)
  | none => (s.act i [.nullPointer]).goto i .idle

end Server

def proceed (s : Server) (i : Nat) (now : VTime) : Option Server :=
  match s.thread i with
  | .idle => none
  | .enterGetRoom usr => some (s.deref i usr (.enterStartMM usr))
  | .enterStartMM usr r =>
    let started := s.world.startMM r now
    let changed := if started.2 then some r else none
    some (({ s with world := started.1 }.act i (changed.toList.map .statusChanged)).goto i
      (.enterGetRoomAgain usr changed))
  | .enterGetRoomAgain usr changed => some (s.deref i usr fun r => .enterSend r changed)
  | .enterSend r _ =>
    let packets := s.world.sendPacket r .s2cStartMMTimer []
    some ((s.act i [.timerSent s.world r packets]).goto i .idle)
  | .leaveGetRoom usr => some (s.deref i usr (.leaveStopMM usr))
  | .leaveStopMM usr r =>
    let stopped := s.world.stopMM r
    if stopped.2 then
      some (({ s with world := stopped.1 }.act i [.statusChanged r]).goto i
        (.leaveGetRoomToLog usr r))
    else some ({ s with world := stopped.1 }.goto i .idle)
  | .leaveGetRoomToLog usr changed =>
    some (s.goto i (.leaveLog usr (s.world.user usr).room changed))
  | .leaveLog usr r changed => some ((s.act i [.logged r]).goto i (.leaveGetRoomToSend usr changed))
  | .leaveGetRoomToSend usr changed => some (s.deref i usr fun r => .leaveSend r changed)
  | .leaveSend r _ =>
    let packets := s.world.sendPacket r .s2cStopMMTimer []
    some ((s.act i [.timerSent s.world r packets]).goto i .idle)

def isIdle (s : Server) (i : Nat) : Bool :=
  match s.thread i with
  | .idle => true
  | _ => false

def step (s : Server) : Event → Option Server
  | .roomEnterMMQueue i usr => if isIdle s i then some (s.call i (.enterGetRoom usr)) else none
  | .roomLeaveMMQueue i usr => if isIdle s i then some (s.call i (.leaveGetRoom usr)) else none
  | .proceed i now => proceed s i now
  | .removeUsr r usr => some { s with world := (s.world.removeUsr r usr).1 }
  | .userJoinRoom usr nChatRoomId nRoomMode =>
    some { s with world := s.world.userJoinRoom usr nChatRoomId nRoomMode }

def start (w : World) : Server := ⟨w, fun _ => .idle, fun _ => []⟩

def Act.actions : Act → List Action
  | .nullPointer => []
  | .statusChanged _ => []
  | .logged (some r) => [.writeLogMatchMaking r none 1]
  | .logged none => []
  | .timerSent _ _ packets => packets.map .sent

/-- The call has come to what the handler comes to in one piece. -/
def Comes (s : Server) (i : Nat) : Option (World × List Action) → Prop
  | some (w, actions) =>
    .nullPointer ∉ s.acts i ∧ s.world = w ∧ (s.acts i).flatMap Act.actions = actions
  | none => .nullPointer ∈ s.acts i

/-- Undisturbed, the steps of a call are `RoomEnterMMQueue`. -/
theorem enter_alone (w : World) (usr : VChatUserRef) (now : VTime) :
    ∃ n s, exec step (start w) (.roomEnterMMQueue 0 usr :: List.replicate n (.proceed 0 now)) =
        some s ∧ Comes s 0 (w.roomEnterMMQueue now usr none 0) := by
  cases hroom : (w.user usr).room with
  | none =>
    refine ⟨1, _, rfl, ?_⟩
    simp [Server.deref, start, Server.call, Server.goto, hroom, Server.act, Comes,
      World.roomEnterMMQueue]
  | some r =>
    refine ⟨4, ?_⟩
    by_cases hstatus : (w.startMM r now).2 = true
    all_goals simp [exec, step, isIdle, start, proceed, Server.call, Server.goto, Server.act,
      Server.deref, World.roomEnterMMQueue, hroom, hstatus, Comes, Act.actions]

/-- Undisturbed, the steps of a call are `RoomLeaveMMQueue`. -/
theorem leave_alone (w : World) (usr : VChatUserRef) (now : VTime) :
    ∃ n s, exec step (start w) (.roomLeaveMMQueue 0 usr :: List.replicate n (.proceed 0 now)) =
        some s ∧ Comes s 0 (w.roomLeaveMMQueue usr none 0) := by
  cases hroom : (w.user usr).room with
  | none =>
    refine ⟨1, _, rfl, ?_⟩
    simp [Server.deref, start, Server.call, Server.goto, hroom, Server.act, Comes,
      World.roomLeaveMMQueue]
  | some r =>
    by_cases hstatus : (w.stopMM r).2 = true
    · refine ⟨6, ?_⟩
      simp [exec, step, isIdle, start, proceed, Server.call, Server.goto, Server.act,
        Server.deref, World.roomLeaveMMQueue, hroom, hstatus, Comes, Act.actions]
    · refine ⟨2, ?_⟩
      simp [exec, step, isIdle, start, proceed, Server.call, Server.goto,
        Server.deref, World.roomLeaveMMQueue, hroom, hstatus, Comes]

/-- Nothing empty was dereferenced, and the room whose status was changed is the one logged and the
one whose members are those who were sent the packet. -/
def OneRoom (acts : List Act) : Prop :=
  .nullPointer ∉ acts ∧ ∀ changed, .statusChanged changed ∈ acts →
    (∀ r, .logged r ∈ acts → r = some changed) ∧
      ∀ w r packets, .timerSent w r packets ∈ acts →
        r = changed ∧ packets.map Sent.usr = (w.room changed).users

/-- Whenever a call reads the user's room, there is one, and it is the one whose status the call has
changed, if it has changed any. -/
def Meets (s : Server) (e : Event) : Prop :=
  ∀ i now, e = .proceed i now →
    match s.thread i with
    | .enterGetRoom usr => (s.world.user usr).room ≠ none
    | .leaveGetRoom usr => (s.world.user usr).room ≠ none
    | .enterGetRoomAgain usr none => (s.world.user usr).room ≠ none
    | .enterGetRoomAgain usr (some changed) => (s.world.user usr).room = some changed
    | .leaveGetRoomToLog usr changed => (s.world.user usr).room = some changed
    | .leaveGetRoomToSend usr changed => (s.world.user usr).room = some changed
    | _ => True

def Did : Pc → List Act → Prop
  | .idle, acts => OneRoom acts
  | .enterGetRoom _, acts => acts = []
  | .enterStartMM _ _, acts => acts = []
  | .enterGetRoomAgain _ changed, acts => acts = changed.toList.map .statusChanged
  | .enterSend r changed, acts =>
    acts = changed.toList.map .statusChanged ∧ (changed = none ∨ changed = some r)
  | .leaveGetRoom _, acts => acts = []
  | .leaveStopMM _ _, acts => acts = []
  | .leaveGetRoomToLog _ changed, acts => acts = [.statusChanged changed]
  | .leaveLog _ r changed, acts => acts = [.statusChanged changed] ∧ r = some changed
  | .leaveGetRoomToSend _ changed, acts => acts = [.statusChanged changed, .logged (some changed)]
  | .leaveSend r changed, acts =>
    acts = [.statusChanged changed, .logged (some changed)] ∧ r = changed

def Consistent (s : Server) : Prop := ∀ i, Did (s.thread i) (s.acts i)

section
variable {s s' : Server} {e : Event} {i : Nat}

theorem sendPacket_usr (w : World) (r : VChatRoomRef) (nPacketType : S2CPacket)
    (packet : List VByte) :
    (w.sendPacket r nPacketType packet).map Sent.usr = (w.room r).users := by
  rw [World.sendPacket, List.map_map]
  exact List.map_id' _

theorem oneRoom_sent {w : World} {r : VChatRoomRef} {nPacketType : S2CPacket} {acts : List Act}
    (hacts : ∀ act ∈ acts, act = .statusChanged r ∨ act = .logged (some r)) :
    OneRoom (acts ++ [.timerSent w r (w.sendPacket r nPacketType [])]) := by
  have hmem : ∀ act ∈ acts ++ [.timerSent w r (w.sendPacket r nPacketType [])],
      act = .statusChanged r ∨ act = .logged (some r) ∨
        act = .timerSent w r (w.sendPacket r nPacketType []) := by
    intro act h
    rcases List.mem_append.mp h with h | h
    · exact (hacts act h).imp_right .inl
    · exact .inr (.inr (List.mem_singleton.mp h))
  refine ⟨fun h => ?_, fun changed h => ⟨fun r' h' => ?_, fun w' r' packets h' => ?_⟩⟩
  · rcases hmem _ h with h | h | h <;> cases h
  · rcases hmem _ h with h | h | h <;> cases h
    rcases hmem _ h' with h' | h' | h' <;> cases h'
    rfl
  · rcases hmem _ h with h | h | h <;> cases h
    rcases hmem _ h' with h' | h' | h' <;> cases h'
    exact ⟨rfl, sendPacket_usr w r nPacketType []⟩

theorem Server.deref_of_some {usr : VChatUserRef} {r : VChatRoomRef}
    (h : (s.world.user usr).room = some r) (next : VChatRoomRef → Pc) :
    s.deref i usr next = s.goto i (next r) := by simp only [Server.deref, h]

theorem Server.goto_thread_self (s : Server) (i : Nat) (pc : Pc) : (s.goto i pc).thread i = pc :=
  if_pos rfl

theorem Server.act_self (s : Server) (i : Nat) (acts : List Act) (pc : Pc) :
    ((s.act i acts).goto i pc).acts i = s.acts i ++ acts := if_pos rfl

def Frame (s s' : Server) (i : Nat) : Prop :=
  ∀ j, j ≠ i → s'.thread j = s.thread j ∧ s'.acts j = s.acts j

theorem frame_goto (s : Server) (i : Nat) (pc : Pc) : Frame s (s.goto i pc) i :=
  fun _ hj => ⟨if_neg hj, rfl⟩

theorem frame_act (s : Server) (i : Nat) (acts : List Act) (pc : Pc) :
    Frame s ((s.act i acts).goto i pc) i := fun _ hj => ⟨if_neg hj, if_neg hj⟩

theorem frame_deref (s : Server) (i : Nat) (usr : VChatUserRef) (next : VChatRoomRef → Pc) :
    Frame s (s.deref i usr next) i := by
  unfold Server.deref
  split
  · exact frame_goto s i _
  · exact frame_act s i _ _

theorem frame_proceed {now : VTime} (hstep : proceed s i now = some s') : Frame s s' i := by
  unfold proceed at hstep
  split at hstep
  · cases hstep
  · exact Option.some.inj hstep ▸ frame_deref s i _ _
  · exact Option.some.inj hstep ▸ frame_act _ i _ _
  · exact Option.some.inj hstep ▸ frame_deref s i _ _
  · exact Option.some.inj hstep ▸ frame_act s i _ _
  · exact Option.some.inj hstep ▸ frame_deref s i _ _
  · simp only at hstep
    split_ifs at hstep
    · exact Option.some.inj hstep ▸ frame_act _ i _ _
    · exact Option.some.inj hstep ▸ frame_goto _ i _
  · exact Option.some.inj hstep ▸ frame_goto s i _
  · exact Option.some.inj hstep ▸ frame_act s i _ _
  · exact Option.some.inj hstep ▸ frame_deref s i _ _
  · exact Option.some.inj hstep ▸ frame_act s i _ _

theorem isIdle_iff : isIdle s i = true ↔ s.thread i = .idle := by
  unfold isIdle
  cases s.thread i <;> simp

theorem Consistent.frame (h : Consistent s) (hframe : Frame s s' i)
    (hi : Did (s'.thread i) (s'.acts i)) : Consistent s' := by
  intro j
  by_cases hj : j = i
  · subst hj
    exact hi
  · obtain ⟨hthread, hacts⟩ := hframe j hj
    rw [hthread, hacts]
    exact h j

theorem Did.proceed {now : VTime} (h : Did (s.thread i) (s.acts i))
    (hmeets : Meets s (.proceed i now)) (hstep : proceed s i now = some s') :
    Did (s'.thread i) (s'.acts i) := by
  have hmeets := hmeets i now rfl
  unfold QueueRace.proceed at hstep
  cases hpc : s.thread i with
  | idle => simp [hpc] at hstep
  | enterGetRoom usr =>
    rw [hpc] at h hmeets hstep
    obtain ⟨r, hr⟩ := Option.ne_none_iff_exists'.mp hmeets
    obtain rfl := Option.some.inj hstep
    rw [Server.deref_of_some hr, Server.goto_thread_self]
    exact h
  | enterStartMM usr r =>
    rw [hpc] at h hstep
    obtain rfl := Option.some.inj hstep
    rw [Server.goto_thread_self, Server.act_self]
    have hnil : s.acts i = [] := h
    show s.acts i ++ _ = _
    rw [hnil, List.nil_append]
  | enterGetRoomAgain usr changed =>
    rw [hpc] at h hmeets hstep
    -- a call that has changed no status may find any room, one that has must find it again
    have hroom : ∃ r, (s.world.user usr).room = some r ∧ (changed = none ∨ changed = some r) := by
      cases changed with
      | none =>
        obtain ⟨r, hr⟩ := Option.ne_none_iff_exists'.mp hmeets
        exact ⟨r, hr, .inl rfl⟩
      | some changed => exact ⟨changed, hmeets, .inr rfl⟩
    obtain ⟨r, hr, hchanged⟩ := hroom
    obtain rfl := Option.some.inj hstep
    rw [Server.deref_of_some hr, Server.goto_thread_self]
    exact ⟨h, hchanged⟩
  | enterSend r changed =>
    rw [hpc] at h hstep
    obtain ⟨hacts, hchanged⟩ := h
    obtain rfl := Option.some.inj hstep
    rw [Server.goto_thread_self, Server.act_self, hacts]
    rcases hchanged with rfl | rfl
    · simp [Did, OneRoom]
    · exact oneRoom_sent (by simp)
  | leaveGetRoom usr =>
    rw [hpc] at h hmeets hstep
    obtain ⟨r, hr⟩ := Option.ne_none_iff_exists'.mp hmeets
    obtain rfl := Option.some.inj hstep
    rw [Server.deref_of_some hr, Server.goto_thread_self]
    exact h
  | leaveStopMM usr r =>
    rw [hpc] at h hstep
    have hnil : s.acts i = [] := h
    simp only at hstep
    split_ifs at hstep
    · obtain rfl := Option.some.inj hstep
      rw [Server.goto_thread_self, Server.act_self]
      show s.acts i ++ _ = _
      rw [hnil, List.nil_append]
    · obtain rfl := Option.some.inj hstep
      rw [Server.goto_thread_self]
      show OneRoom (s.acts i)
      simp [hnil, OneRoom]
  | leaveGetRoomToLog usr changed =>
    rw [hpc] at h hmeets hstep
    obtain rfl := Option.some.inj hstep
    rw [Server.goto_thread_self]
    exact ⟨h, hmeets⟩
  | leaveLog usr r changed =>
    rw [hpc] at h hstep
    obtain ⟨hacts, rfl⟩ := h
    obtain rfl := Option.some.inj hstep
    rw [Server.goto_thread_self, Server.act_self, hacts]
    rfl
  | leaveGetRoomToSend usr changed =>
    rw [hpc] at h hmeets hstep
    obtain rfl := Option.some.inj hstep
    rw [Server.deref_of_some hmeets, Server.goto_thread_self]
    exact ⟨h, rfl⟩
  | leaveSend r changed =>
    rw [hpc] at h hstep
    obtain ⟨hacts, rfl⟩ := h
    obtain rfl := Option.some.inj hstep
    rw [Server.goto_thread_self, Server.act_self, hacts]
    exact oneRoom_sent (by simp)

theorem Consistent.step (h : Consistent s) (hmeets : Meets s e) (hstep : step s e = some s') :
    Consistent s' := by
  cases e with
  | roomEnterMMQueue i usr =>
    obtain ⟨-, rfl⟩ := by simpa [QueueRace.step] using hstep
    refine h.frame (i := i) (fun j hj => ⟨if_neg hj, if_neg hj⟩) ?_
    simp [Server.call, Server.goto, Did]
  | roomLeaveMMQueue i usr =>
    obtain ⟨-, rfl⟩ := by simpa [QueueRace.step] using hstep
    refine h.frame (i := i) (fun j hj => ⟨if_neg hj, if_neg hj⟩) ?_
    simp [Server.call, Server.goto, Did]
  | proceed i now => exact h.frame (frame_proceed hstep) ((h i).proceed hmeets hstep)
  | removeUsr r usr => exact Option.some.inj hstep ▸ h
  | userJoinRoom usr nChatRoomId nRoomMode => exact Option.some.inj hstep ▸ h

def Strays : Pc → List Act → Prop
  | .enterSend r (some changed), acts => r ≠ changed ∧ .statusChanged changed ∈ acts
  | .leaveLog _ r changed, acts => r ≠ some changed ∧ .statusChanged changed ∈ acts
  | .leaveSend r changed, acts => r ≠ changed ∧ .statusChanged changed ∈ acts
  | _, _ => False

def Astray (s : Server) : Prop := ∃ i, Strays (s.thread i) (s.acts i)

theorem Strays.ne_idle {pc : Pc} {acts : List Act} (h : Strays pc acts) : pc ≠ .idle := by
  rintro rfl
  exact h

theorem Strays.not_oneRoom {now : VTime} (h : Strays (s.thread i) (s.acts i))
    (hstep : proceed s i now = some s') : ¬ OneRoom (s'.acts i) := by
  rintro ⟨-, hchanged⟩
  unfold proceed at hstep
  cases hpc : s.thread i with
  | enterSend r changed =>
    rw [hpc] at h hstep
    obtain rfl := Option.some.inj hstep
    cases changed with
    | none => exact h
    | some changed =>
      obtain ⟨hne, hmem⟩ := h
      rw [Server.act_self] at hchanged
      have hsent := (hchanged changed (List.mem_append_left _ hmem)).2 s.world r
      exact hne (hsent _ (List.mem_append_right _ List.mem_cons_self)).1
  | leaveLog usr r changed =>
    rw [hpc] at h hstep
    obtain ⟨hne, hmem⟩ := h
    obtain rfl := Option.some.inj hstep
    rw [Server.act_self] at hchanged
    exact hne ((hchanged changed (List.mem_append_left _ hmem)).1 r (by simp))
  | leaveSend r changed =>
    rw [hpc] at h hstep
    obtain ⟨hne, hmem⟩ := h
    obtain rfl := Option.some.inj hstep
    rw [Server.act_self] at hchanged
    have hsent := (hchanged changed (List.mem_append_left _ hmem)).2 s.world r
    exact hne (hsent _ (List.mem_append_right _ List.mem_cons_self)).1
  | _ => simp [hpc, Strays] at h

theorem Astray.keep (h : Astray s) (hstep : step s e = some s')
    (hone : ∀ i, OneRoom (s'.acts i)) : Astray s' := by
  obtain ⟨i, hi⟩ := h
  -- another thread's step leaves the stray call where it is
  have hmove : ∀ j, j ≠ i → Frame s s' j → Astray s' := by
    intro j hj hframe
    obtain ⟨hthread, hacts⟩ := hframe i (Ne.symm hj)
    exact ⟨i, by rw [hthread, hacts]; exact hi⟩
  cases e with
  | roomEnterMMQueue j usr | roomLeaveMMQueue j usr =>
    obtain ⟨hidle, rfl⟩ := by simpa [step, isIdle_iff] using hstep
    have hj : j ≠ i := by
      rintro rfl
      exact hi.ne_idle hidle
    exact hmove j hj fun k hk => ⟨if_neg hk, if_neg hk⟩
  | proceed j now =>
    have hj : j ≠ i := by
      rintro rfl
      exact hi.not_oneRoom hstep (hone j)
    exact hmove j hj (frame_proceed hstep)
  | removeUsr r usr | userJoinRoom usr nChatRoomId nRoomMode =>
    exact Option.some.inj hstep ▸ ⟨i, hi⟩

end

end VChat.QueueRace
