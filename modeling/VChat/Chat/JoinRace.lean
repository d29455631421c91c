import VChat.Chat.RoomManager
import VChat.Transition.Runs

/-! One thread joining rooms, section by section, while other threads remove users. -/

namespace VChat.JoinRace
open Transition World

/-- Where the joining thread stands in `UserJoinRoom`: the section it runs next. -/
inductive Joining where
  | idle
  | addUsr (usr : VChatUserRef) (r : VChatRoomRef) (nRoomMode : VInt32)
  | getGameMode (usr : VChatUserRef) (r : VChatRoomRef) (nRoomMode : VInt32)
  | getServerId (usr : VChatUserRef) (r : VChatRoomRef) (nRoomMode : VInt32)
  | setGameMode (usr : VChatUserRef) (r : VChatRoomRef) (nRoomMode : VInt32)
  | setServerId (usr : VChatUserRef) (r : VChatRoomRef)
  | addUsrNew (usr : VChatUserRef) (r : VChatRoomRef) (nChatRoomId nRoomMode : VInt32)
  | setIdNew (r : VChatRoomRef) (nChatRoomId nRoomMode : VInt32)
  | setGameModeNew (r : VChatRoomRef) (nChatRoomId nRoomMode : VInt32)
  | insertNew (r : VChatRoomRef) (nChatRoomId : VInt32)
deriving DecidableEq

structure Server where
  world : World
  joining : Joining

inductive Event where
  | userJoinRoom (usr : VChatUserRef) (nChatRoomId nRoomMode : VInt32)
  | proceed
  | removeUsr (r : VChatRoomRef) (usr : VChatUserRef)
deriving DecidableEq

/-- Taking the manager lock and looking the room up. -/
def userJoinRoom (w : World) (usr : VChatUserRef) (nChatRoomId nRoomMode : VInt32) : Server :=
  if nChatRoomId ≠ -1 then
    match w.rooms[nChatRoomId]? with
    | some r => ⟨w, .addUsr usr r nRoomMode⟩
    | none => ⟨w.createRoom, .addUsrNew usr w.nextRoom nChatRoomId nRoomMode⟩
  else ⟨w, .idle⟩

def proceed (w : World) : Joining → Option Server
  | .idle => none
  | .addUsr usr r nRoomMode => some ⟨w.addUsr r usr, .getGameMode usr r nRoomMode⟩
  | .getGameMode usr r nRoomMode =>
    if (w.room r).nGameMode.toInt32 = -1 then some ⟨w, .setGameMode usr r nRoomMode⟩
    else some ⟨w, .getServerId usr r nRoomMode⟩
  | .getServerId usr r nRoomMode =>
    if (w.room r).nServerId = -1 then some ⟨w, .setGameMode usr r nRoomMode⟩
    else some ⟨w, .idle⟩
  | .setGameMode usr r nRoomMode =>
    some ⟨w.setGameMode r nRoomMode.toInt8, .setServerId usr r⟩
  | .setServerId usr r => some ⟨w.setServerId r (w.user usr).nServerID, .idle⟩
  | .addUsrNew usr r nChatRoomId nRoomMode =>
    some ⟨w.addUsr r usr, .setIdNew r nChatRoomId nRoomMode⟩
  | .setIdNew r nChatRoomId nRoomMode =>
    some ⟨w.setId r nChatRoomId, .setGameModeNew r nChatRoomId nRoomMode⟩
  | .setGameModeNew r nChatRoomId nRoomMode =>
    some ⟨w.setGameMode r nRoomMode.toInt8, .insertNew r nChatRoomId⟩
  | .insertNew r nChatRoomId => some ⟨w.storeRoom nChatRoomId r, .idle⟩

def step (s : Server) : Event → Option Server
  | .userJoinRoom usr nChatRoomId nRoomMode =>
    if s.joining = .idle then some (userJoinRoom s.world usr nChatRoomId nRoomMode) else none
  | .proceed => proceed s.world s.joining
  | .removeUsr r usr =>
    if r < s.world.nextRoom then some { s with world := (s.world.removeUsr r usr).1 } else none

def Joining.room : Joining → Option VChatRoomRef
  | .idle => none
  | .addUsr _ r _ => some r
  | .getGameMode _ r _ => some r
  | .getServerId _ r _ => some r
  | .setGameMode _ r _ => some r
  | .setServerId _ r => some r
  | .addUsrNew _ r _ _ => some r
  | .setIdNew r _ _ => some r
  | .setGameModeNew r _ _ => some r
  | .insertNew r _ => some r

/-- Undisturbed, the sections of a join are `UserJoinRoom`. -/
theorem join_alone (w : World) (usr : VChatUserRef) (nChatRoomId nRoomMode : VInt32) :
    ∃ n, exec step ⟨w, .idle⟩
        (.userJoinRoom usr nChatRoomId nRoomMode :: List.replicate n .proceed) =
      some ⟨w.userJoinRoom usr nChatRoomId nRoomMode, .idle⟩ := by
  by_cases hid : nChatRoomId = -1
  · exact ⟨0, by simp [exec, step, userJoinRoom, World.userJoinRoom, hid]⟩
  cases hfind : w.rooms[nChatRoomId]? with
  | some r =>
    by_cases hmode : ((w.addUsr r usr).room r).nGameMode.toInt32 = -1
    · refine ⟨4, ?_⟩
      simp [exec, step, userJoinRoom, proceed, World.userJoinRoom, hid, hfind, hmode]
    · by_cases hserver : ((w.addUsr r usr).room r).nServerId = -1
      · refine ⟨5, ?_⟩
        simp [exec, step, userJoinRoom, proceed, World.userJoinRoom, hid, hfind, hmode, hserver]
      · refine ⟨3, ?_⟩
        simp [exec, step, userJoinRoom, proceed, World.userJoinRoom, hid, hfind, hmode, hserver]
  | none =>
    refine ⟨4, ?_⟩
    simp [exec, step, userJoinRoom, proceed, World.userJoinRoom, hid, hfind]

def Forgets (w : World) : Prop :=
  ∀ r, r < w.nextRoom → (w.room r).users = [] →
    (w.room r).nGameMode = -1 ∧ (w.room r).nServerId = -1

/-- A join sets the mode or server of a room only while that room has members, unless to -1. -/
def SetsWithMembers (s : Server) (e : Event) : Prop :=
  e = .proceed →
    match s.joining with
    | .setGameMode _ r nRoomMode | .setGameModeNew r _ nRoomMode =>
      (s.world.room r).users = [] → nRoomMode.toInt8 = -1
    | .setServerId usr r => (s.world.room r).users = [] → (s.world.user usr).nServerID = -1
    | _ => True

structure Created (s : Server) : Prop where
  stored : ∀ (id : VInt32) r, s.world.rooms[id]? = some r → r < s.world.nextRoom
  joining : ∀ r, s.joining.room = some r → r < s.world.nextRoom

/-- Whenever no join is in progress, empty rooms have neither mode nor server. -/
def ForgetsAtRest (_ : Server) (_ : Event) (t : Server) : Prop :=
  t.joining = .idle → Forgets t.world

def Stale (s : Server) : Prop :=
  ∃ r, r < s.world.nextRoom ∧ (s.world.room r).users = [] ∧ (s.world.room r).nGameMode ≠ -1 ∧
    ((∃ usr, s.joining = .setServerId usr r) ∨ ∃ id, s.joining = .insertNew r id)

section Step
variable {s t : Server} {e : Event} {w : World} {r : VChatRoomRef}

theorem removeUsr_room_of_empty (h : (w.room r).users = []) (q : VChatRoomRef)
    (usr : VChatUserRef) : (w.removeUsr q usr).1.room r = w.room r := by
  by_cases hrq : r = q
  · have hmem : usr ∉ (w.room q).users := by simp [← hrq, h]
    rw [removeUsr_of_not_mem hmem]
  · rw [removeUsr_room_of_ne hrq]

theorem forgets_removeUsr (h : Forgets w) (q : VChatRoomRef) (usr : VChatUserRef) :
    Forgets (w.removeUsr q usr).1 := by
  by_cases hmem : usr ∈ (w.room q).users
  · intro r hr
    rw [removeUsr_nextRoom] at hr
    by_cases hrq : r = q
    · subst hrq
      rw [removeUsr_room_self hmem]
      intro hempty
      have hnone : ((w.room r).users.erase usr).isEmpty = true := List.isEmpty_iff.mpr hempty
      simp [VChatRoom.without, hnone]
    · rw [removeUsr_room_of_ne hrq]
      exact h r hr
  · rw [removeUsr_of_not_mem hmem]
    exact h

theorem forgets_addUsr (h : Forgets w) (q : VChatRoomRef) (usr : VChatUserRef) :
    Forgets (w.addUsr q usr) := by
  intro r hr
  rw [addUsr_room]
  split_ifs
  · simp
  · exact h r hr

theorem forgets_createRoom (h : Forgets w) : Forgets w.createRoom := by
  intro r hr
  rw [createRoom_room]
  split_ifs with hnew
  · exact fun _ => ⟨rfl, rfl⟩
  · exact h r (Nat.lt_of_le_of_ne (Nat.le_of_lt_succ hr) hnew)

theorem forgets_modifyRoom (h : Forgets w) {q : VChatRoomRef} {g : VChatRoom → VChatRoom}
    (husers : (g (w.room q)).users = (w.room q).users)
    (hset : (w.room q).nGameMode = -1 ∧ (w.room q).nServerId = -1 → (w.room q).users = [] →
      (g (w.room q)).nGameMode = -1 ∧ (g (w.room q)).nServerId = -1) :
    Forgets (w.modifyRoom q g) := by
  intro r hr
  rw [modifyRoom_room]
  split_ifs with hrq
  · subst hrq
    exact fun hempty => hset (h r hr (husers ▸ hempty)) (husers ▸ hempty)
  · exact h r hr

theorem userJoinRoom_cases (w : World) (usr : VChatUserRef) (nChatRoomId nRoomMode : VInt32) :
    userJoinRoom w usr nChatRoomId nRoomMode = ⟨w, .idle⟩ ∨
      (∃ r, w.rooms[nChatRoomId]? = some r ∧
        userJoinRoom w usr nChatRoomId nRoomMode = ⟨w, .addUsr usr r nRoomMode⟩) ∨
      userJoinRoom w usr nChatRoomId nRoomMode =
        ⟨w.createRoom, .addUsrNew usr w.nextRoom nChatRoomId nRoomMode⟩ := by
  unfold userJoinRoom
  split_ifs
  · cases hfind : w.rooms[nChatRoomId]? with
    | some r => exact .inr (.inl ⟨r, rfl, rfl⟩)
    | none => exact .inr (.inr rfl)
  · exact .inl rfl

theorem created_proceed {joining : Joining} (h : Created ⟨w, joining⟩)
    (hstep : proceed w joining = some t) : Created t := by
  cases joining with
  | idle => cases hstep
  | insertNew q id =>
    obtain rfl := Option.some.inj hstep
    refine ⟨fun id' p hp => ?_, by simp [Joining.room]⟩
    rw [storeRoom_find] at hp
    split_ifs at hp
    · exact Option.some.inj hp ▸ h.joining q rfl
    · exact h.stored id' p hp
  | getGameMode usr q mode =>
    simp only [proceed] at hstep
    split_ifs at hstep <;> exact Option.some.inj hstep ▸ ⟨h.stored, h.joining⟩
  | getServerId usr q mode =>
    simp only [proceed] at hstep
    split_ifs at hstep
    · exact Option.some.inj hstep ▸ ⟨h.stored, h.joining⟩
    · exact Option.some.inj hstep ▸ ⟨h.stored, by simp [Joining.room]⟩
  | setServerId usr q => exact Option.some.inj hstep ▸ ⟨h.stored, by simp [Joining.room]⟩
  | addUsr usr q mode => exact Option.some.inj hstep ▸ ⟨h.stored, h.joining⟩
  | setGameMode usr q mode => exact Option.some.inj hstep ▸ ⟨h.stored, h.joining⟩
  | addUsrNew usr q id mode => exact Option.some.inj hstep ▸ ⟨h.stored, h.joining⟩
  | setIdNew q id mode => exact Option.some.inj hstep ▸ ⟨h.stored, h.joining⟩
  | setGameModeNew q id mode => exact Option.some.inj hstep ▸ ⟨h.stored, h.joining⟩

theorem created_step (h : Created s) (hstep : step s e = some t) : Created t := by
  cases e with
  | removeUsr q usr =>
    simp only [step] at hstep
    split_ifs at hstep
    obtain rfl := Option.some.inj hstep
    exact ⟨by simpa using h.stored, by simpa using h.joining⟩
  | userJoinRoom usr id mode =>
    simp only [step] at hstep
    split_ifs at hstep
    obtain rfl := Option.some.inj hstep
    rcases userJoinRoom_cases s.world usr id mode with heq | ⟨r, hr, heq⟩ | heq <;> rw [heq]
    · exact ⟨h.stored, by simp [Joining.room]⟩
    · exact ⟨h.stored, fun q hq => Option.some.inj hq ▸ h.stored id r hr⟩
    · exact ⟨fun id' q hq => Nat.lt_succ_of_lt (h.stored id' q hq),
        fun q hq => Option.some.inj hq ▸ Nat.lt_succ_self _⟩
  | proceed => exact created_proceed h hstep

theorem forgets_step (h : Forgets s.world) (hset : SetsWithMembers s e)
    (hstep : step s e = some t) : Forgets t.world := by
  obtain ⟨w, joining⟩ := s
  cases e with
  | removeUsr q usr =>
    simp only [step] at hstep
    split_ifs at hstep
    obtain rfl := Option.some.inj hstep
    exact forgets_removeUsr h q usr
  | userJoinRoom usr id mode =>
    simp only [step] at hstep
    split_ifs at hstep
    obtain rfl := Option.some.inj hstep
    rcases userJoinRoom_cases w usr id mode with heq | ⟨r, -, heq⟩ | heq <;> rw [heq]
    · exact h
    · exact h
    · exact forgets_createRoom h
  | proceed =>
    have hset := hset rfl
    cases joining with
    | idle => cases hstep
    | addUsr usr q mode => exact Option.some.inj hstep ▸ forgets_addUsr h q usr
    | addUsrNew usr q id mode => exact Option.some.inj hstep ▸ forgets_addUsr h q usr
    | getGameMode usr q mode =>
      simp only [step, proceed] at hstep
      split_ifs at hstep <;> exact Option.some.inj hstep ▸ h
    | getServerId usr q mode =>
      simp only [step, proceed] at hstep
      split_ifs at hstep <;> exact Option.some.inj hstep ▸ h
    | setGameMode usr q mode =>
      exact Option.some.inj hstep ▸
        forgets_modifyRoom h rfl fun hold hempty => ⟨hset hempty, hold.2⟩
    | setServerId usr q =>
      exact Option.some.inj hstep ▸
        forgets_modifyRoom h rfl fun hold hempty => ⟨hold.1, hset hempty⟩
    | setIdNew q id mode =>
      exact Option.some.inj hstep ▸ forgets_modifyRoom h rfl fun hold _ => hold
    | setGameModeNew q id mode =>
      exact Option.some.inj hstep ▸
        forgets_modifyRoom h rfl fun hold hempty => ⟨hset hempty, hold.2⟩
    | insertNew q id => exact Option.some.inj hstep ▸ h

theorem stale_of_not_sets (hc : Created s) (hset : ¬ SetsWithMembers s e)
    (hstep : step s e = some t) (hrest : ForgetsAtRest s e t) : Stale t := by
  obtain ⟨w, joining⟩ := s
  simp only [SetsWithMembers, Classical.not_imp] at hset
  obtain ⟨rfl, hset⟩ := hset
  cases joining with
  | setGameMode usr q mode =>
    obtain ⟨hempty, hmode⟩ := Classical.not_imp.mp hset
    obtain rfl := Option.some.inj hstep
    exact ⟨q, hc.joining q rfl, by simpa [World.setGameMode] using hempty,
      by simpa [World.setGameMode] using hmode, .inl ⟨usr, rfl⟩⟩
  | setGameModeNew q id mode =>
    obtain ⟨hempty, hmode⟩ := Classical.not_imp.mp hset
    obtain rfl := Option.some.inj hstep
    exact ⟨q, hc.joining q rfl, by simpa [World.setGameMode] using hempty,
      by simpa [World.setGameMode] using hmode, .inr ⟨id, rfl⟩⟩
  | setServerId usr q =>
    obtain ⟨hempty, hserver⟩ := Classical.not_imp.mp hset
    -- the join ends here, so the server it leaves behind shows at once
    obtain rfl := Option.some.inj hstep
    have hnone := (hrest rfl q (hc.joining q rfl) (by simpa [World.setServerId] using hempty)).2
    exact absurd (by simpa [World.setServerId] using hnone) hserver
  | idle => exact absurd trivial hset
  | addUsr usr q mode => exact absurd trivial hset
  | addUsrNew usr q id mode => exact absurd trivial hset
  | getGameMode usr q mode => exact absurd trivial hset
  | getServerId usr q mode => exact absurd trivial hset
  | setIdNew q id mode => exact absurd trivial hset
  | insertNew q id => exact absurd trivial hset

theorem stale_step (h : Stale s) (hstep : step s e = some t) (hrest : ForgetsAtRest s e t) :
    Stale t := by
  obtain ⟨w, joining⟩ := s
  obtain ⟨q, hlt, hempty, hmode, hjoining⟩ := h
  cases e with
  | removeUsr p usr =>
    -- an empty room has nobody to remove, so nothing resets its mode
    simp only [step] at hstep
    split_ifs at hstep
    obtain rfl := Option.some.inj hstep
    refine ⟨q, by simpa using hlt, ?_, ?_, hjoining⟩
    · rw [removeUsr_room_of_empty hempty, hempty]
    · rwa [removeUsr_room_of_empty hempty]
  | userJoinRoom usr id mode =>
    rcases hjoining with ⟨usr, rfl⟩ | ⟨id, rfl⟩ <;> cases hstep
  | proceed =>
    rcases hjoining with ⟨usr, rfl⟩ | ⟨id, rfl⟩
    · obtain rfl := Option.some.inj hstep
      have hnone := (hrest rfl q hlt (by simpa [World.setServerId] using hempty)).1
      exact absurd (by simpa [World.setServerId] using hnone) hmode
    · obtain rfl := Option.some.inj hstep
      exact absurd (hrest rfl q hlt hempty).1 hmode

theorem not_stale_of_idle (hidle : s.joining = .idle) : ¬ Stale s := by
  rintro ⟨q, -, -, -, ⟨usr, hjoining⟩ | ⟨id, hjoining⟩⟩ <;> rw [hidle] at hjoining <;>
    cases hjoining

end Step

/-- From a server without rooms, whatever is interleaved: if joins set modes and servers only
while the room has members, empty rooms have neither whenever no join is in progress, and in
a run that ends with no join in progress only then. -/
theorem forgets_run {w : World} (h₀ : NoRooms w) (es : List Event) :
    (Along step (fun s e _ => SetsWithMembers s e) ⟨w, .idle⟩ es →
        Along step ForgetsAtRest ⟨w, .idle⟩ es) ∧
      ∀ t, exec step ⟨w, .idle⟩ es = some t → t.joining = .idle →
        Along step ForgetsAtRest ⟨w, .idle⟩ es →
          Along step (fun s e _ => SetsWithMembers s e) ⟨w, .idle⟩ es := by
  have hc : Created ⟨w, .idle⟩ := ⟨fun id r hr => by simp [h₀.rooms] at hr, by simp [Joining.room]⟩
  have hf : Forgets w := fun r hr => absurd hr (by simp [h₀.nextRoom])
  refine ⟨fun hset => ?_, fun t hrun hidle hrest => ?_⟩
  · refine hset.imp_of_invariant (J := fun s => Forgets s.world) (fun s e t hs hC hstep => ?_) hf
    have ht := forgets_step hs hC hstep
    exact ⟨ht, fun _ => ht⟩
  · exact hrest.of_rest (J := fun s => Created s ∧ Forgets s.world)
      (fun s e t hs hC hstep => ⟨created_step hs.1 hstep, forgets_step hs.2 hC hstep⟩)
      (fun s e t hs hC hstep hD => stale_of_not_sets hs.1 hC hstep hD)
      (fun s e t hs hstep hD => stale_step hs hstep hD)
      (fun s hidle => not_stale_of_idle hidle) ⟨hc, hf⟩ hrun hidle

theorem forgets_run_emptied : Along step ForgetsAtRest ⟨start, .idle⟩
    [.userJoinRoom 1 5 7, .proceed, .proceed, .proceed, .proceed, .removeUsr 0 1] := by
  refine (forgets_run noRooms_start _).1 ?_
  refine .cons rfl (by simp [SetsWithMembers])
    (.cons rfl (fun _ => trivial) (.cons rfl (fun _ => trivial) ?_))
  exact .cons rfl (fun _ h => absurd h (by decide))
    (.cons rfl (fun _ => trivial) (.cons rfl (by simp [SetsWithMembers]) trivial))

/-- A join in an empty room races with the removal of the joining user: the room is left
empty with the mode 7 it was given afterwards. -/
theorem not_forgets_raced : ∃ t,
    exec step ⟨start, .idle⟩ [.userJoinRoom 1 5 7, .proceed, .removeUsr 0 1, .proceed, .proceed,
        .proceed] = some t ∧
      t.joining = .idle ∧ t.world.rooms[(5 : VInt32)]? = some 0 ∧ (t.world.room 0).users = [] ∧
        (t.world.room 0).nGameMode = 7 :=
  ⟨_, rfl, rfl, by decide, by decide, by decide⟩

end VChat.JoinRace
