import VChat.Chat.ProcessPacket
import VChat.Transition.Runs
import VChat.Transition.Since

/-! The matchmaking timer as the members of a room see it, against the status of the room. -/

namespace VChat.QueueTimer
open Transition World

inductive Event where
  | addUsr (usr : VChatUserRef)
  | removeUsr (usr : VChatUserRef)
  | roomEnterMMQueue (usr : VChatUserRef) (now : VTime)
  | roomLeaveMMQueue (usr : VChatUserRef)
deriving DecidableEq

inductive Notice where
  | joined (usr : VChatUserRef)
  | told (packet : Sent)
deriving DecidableEq

def told (actions : List Action) : List Notice :=
  actions.filterMap fun action =>
    match action with
    | .sent packet => some (.told packet)
    | _ => none

/-- The queue packets are those of users whose room is `r`. -/
def step (r : VChatRoomRef) (w : World) : Event → Option (World × List Notice)
  | .addUsr usr =>
    some (w.addUsr r usr, if usr ∈ (w.room r).users then [] else [.joined usr])
  | .removeUsr usr =>
    let removed := w.removeUsr r usr
    some (removed.1, removed.2.map .told)
  | .roomEnterMMQueue usr now =>
    if (w.user usr).room = some r then
      (World.roomEnterMMQueue now w usr none 0).map fun entered => (entered.1, told entered.2)
    else none
  | .roomLeaveMMQueue usr =>
    if (w.user usr).room = some r then
      (World.roomLeaveMMQueue w usr none 0).map fun left => (left.1, told left.2)
    else none

def timerTold (usr : VChatUserRef) : Notice → Option S2CPacket
  | .joined _ => none
  | .told packet =>
    if packet.usr = usr ∧
        (packet.nPacketType = .s2cStartMMTimer ∨ packet.nPacketType = .s2cStopMMTimer) then
      some packet.nPacketType
    else none

/-- The last timer packet sent to `usr` since `usr` became a member. -/
def lastTimer (usr : VChatUserRef) (log : List Notice) : Option S2CPacket :=
  ((sinceLast (fun x => x = .joined usr) log).filterMap (timerTold usr)).getLast?

/-- Every member has the timer running as far as it was told exactly when the room is queued. -/
def TimerAgrees (r : VChatRoomRef) (x : World × List Notice) : Prop :=
  ∀ usr ∈ (x.1.room r).users,
    (lastTimer usr x.2 = some .s2cStartMMTimer ↔ (x.1.room r).nRoomStatus = roomEnqueueMM)

/-- A step that takes the room out of the queue tells so every member that was told to start. -/
def StopsTold (r : VChatRoomRef) (x y : World × List Notice) : Prop :=
  (x.1.room r).nRoomStatus = roomEnqueueMM → (y.1.room r).nRoomStatus ≠ roomEnqueueMM →
    ∀ usr ∈ (x.1.room r).users, usr ∈ (y.1.room r).users →
      lastTimer usr x.2 = some .s2cStartMMTimer →
        ∃ out, y.2 = x.2 ++ out ∧ .told ⟨usr, .s2cStopMMTimer, []⟩ ∈ out

/-- A user is added only while the room is out of the queue or has no members. -/
def AddedOutOfQueue (r : VChatRoomRef) (x : World × List Notice) (e : Event) : Prop :=
  (∃ usr, e = .addUsr usr) → (x.1.room r).nRoomStatus = roomEnqueueMM → (x.1.room r).users = []

def announce (users : List VChatUserRef) (type : S2CPacket) : List Notice :=
  users.map fun usr => .told ⟨usr, type, []⟩

theorem told_sent (packets : List Sent) : told (packets.map .sent) = packets.map .told := by
  simp [told, List.filterMap_map]

theorem lastTimer_joined (usr v : VChatUserRef) (log : List Notice) :
    lastTimer usr (log ++ [.joined v]) = if v = usr then none else lastTimer usr log := by
  unfold lastTimer
  rw [sinceLast_concat]
  by_cases hv : v = usr
  · simp [hv]
  · simp [hv, timerTold]

theorem lastTimer_told (usr v : VChatUserRef) (log : List Notice) {type : S2CPacket}
    (htype : type = .s2cStartMMTimer ∨ type = .s2cStopMMTimer) :
    lastTimer usr (log ++ [.told ⟨v, type, []⟩]) =
      if v = usr then some type else lastTimer usr log := by
  unfold lastTimer
  rw [sinceLast_concat]
  by_cases hv : v = usr
  · simp [hv, timerTold, htype]
  · simp [hv, timerTold]

theorem lastTimer_announce (usr : VChatUserRef) (log : List Notice) (users : List VChatUserRef)
    {type : S2CPacket} (htype : type = .s2cStartMMTimer ∨ type = .s2cStopMMTimer) :
    lastTimer usr (log ++ announce users type) =
      if usr ∈ users then some type else lastTimer usr log := by
  induction users using List.reverseRecOn with
  | nil => simp [announce]
  | append_singleton users v ih =>
    rw [announce, List.map_append, ← announce, ← List.append_assoc]
    refine (lastTimer_told usr v _ htype).trans ?_
    rw [ih]
    by_cases hv : v = usr
    · simp [hv]
    · simp [hv, Ne.symm hv]

inductive Effect (r : VChatRoomRef) (w t : World) : Event → List Notice → Prop
  | added {usr : VChatUserRef} (husers : (t.room r).users = (w.room r).users ++ [usr])
      (hstatus : (t.room r).nRoomStatus = roomNormal) :
      Effect r w t (.addUsr usr) (if usr ∈ (w.room r).users then [] else [.joined usr])
  | announced {e : Event} {type : S2CPacket} (he : ∀ usr, e ≠ .addUsr usr)
      (htype : type = .s2cStartMMTimer ∨ type = .s2cStopMMTimer)
      (hstatus : (t.room r).nRoomStatus = roomEnqueueMM ↔ type = .s2cStartMMTimer) :
      Effect r w t e (announce (t.room r).users type)
  | quiet {e : Event} (he : ∀ usr, e ≠ .addUsr usr)
      (hsub : (t.room r).users ⊆ (w.room r).users)
      (hstatus : (t.room r).nRoomStatus = roomEnqueueMM ↔
        (w.room r).nRoomStatus = roomEnqueueMM) : Effect r w t e []

section Effect
variable {r : VChatRoomRef} {w : World} {usr : VChatUserRef}

theorem effect_addUsr (r : VChatRoomRef) (w : World) (usr : VChatUserRef) :
    Effect r w (w.addUsr r usr) (.addUsr usr)
      (if usr ∈ (w.room r).users then [] else [.joined usr]) := by
  have hroom := addUsr_room w r r usr
  rw [if_pos rfl] at hroom
  exact .added (by rw [hroom]) (by rw [hroom])

theorem effect_removeUsr (r : VChatRoomRef) (w : World) (usr : VChatUserRef) :
    Effect r w (w.removeUsr r usr).1 (.removeUsr usr) ((w.removeUsr r usr).2.map .told) := by
  by_cases hmem : usr ∈ (w.room r).users
  · have hroom := removeUsr_room_self hmem
    have hstatus : ((w.removeUsr r usr).1.room r).nRoomStatus ≠ roomEnqueueMM := by
      rw [hroom]
      exact roomNormal_ne_enqueueMM
    by_cases hqueue : (w.room r).nRoomStatus = roomEnqueueMM
    · have hout : (w.removeUsr r usr).2.map .told =
          announce ((w.removeUsr r usr).1.room r).users .s2cStopMMTimer := by
        rw [hroom, removeUsr, if_pos hmem, if_pos hqueue, List.map_map]
        rfl
      rw [hout]
      exact .announced (by simp) (.inr rfl) (iff_of_false hstatus (by decide))
    · have hout : (w.removeUsr r usr).2.map Notice.told = [] := by
        rw [removeUsr, if_pos hmem, if_neg hqueue, List.map_nil]
      have hsub : ((w.removeUsr r usr).1.room r).users ⊆ (w.room r).users := by
        rw [hroom]
        exact List.erase_subset
      rw [hout]
      exact .quiet (by simp) hsub (iff_of_false hstatus hqueue)
  · rw [removeUsr_of_not_mem hmem]
    exact .quiet (by simp) (List.Subset.refl _) Iff.rfl

theorem effect_roomEnterMMQueue (hroom : (w.user usr).room = some r) {now : VTime} {t : World}
    {actions : List Action}
    (h : World.roomEnterMMQueue now w usr none 0 = some (t, actions)) :
    Effect r w t (.roomEnterMMQueue usr now) (told actions) := by
  simp only [World.roomEnterMMQueue, hroom] at h
  obtain ⟨rfl, rfl⟩ := Prod.mk.inj (Option.some.inj h)
  -- the handler announces the start also when the room is already queued
  have hout : told (((w.startMM r now).1.sendPacket r .s2cStartMMTimer []).map .sent) =
      announce ((w.startMM r now).1.room r).users .s2cStartMMTimer :=
    (told_sent _).trans (List.map_map ..)
  have hstatus : ((w.startMM r now).1.room r).nRoomStatus = roomEnqueueMM :=
    (startMM_room w r r now).2.mpr (.inr rfl)
  rw [hout]
  exact .announced (by simp) (.inl rfl) (iff_of_true hstatus rfl)

theorem effect_roomLeaveMMQueue (hroom : (w.user usr).room = some r) {t : World}
    {actions : List Action} (h : World.roomLeaveMMQueue w usr none 0 = some (t, actions)) :
    Effect r w t (.roomLeaveMMQueue usr) (told actions) := by
  by_cases hqueue : (w.room r).nRoomStatus = roomEnqueueMM
  · have hstopped : (w.stopMM r).2 = true := by rw [stopMM, if_pos hqueue]
    simp only [World.roomLeaveMMQueue, hroom, hstopped, if_true] at h
    obtain ⟨rfl, rfl⟩ := Prod.mk.inj (Option.some.inj h)
    have hout : told (.writeLogMatchMaking r none 1 ::
        ((w.stopMM r).1.sendPacket r .s2cStopMMTimer []).map .sent) =
          announce ((w.stopMM r).1.room r).users .s2cStopMMTimer :=
      (told_sent _).trans (List.map_map ..)
    rw [hout]
    refine .announced (by simp) (.inr rfl) (iff_of_false ?_ (by decide))
    exact fun h => ((stopMM_room w r r).2.mp h).2 rfl
  · have hstopped : w.stopMM r = (w, false) := by rw [stopMM, if_neg hqueue]
    simp only [World.roomLeaveMMQueue, hroom, hstopped, Bool.false_eq_true, if_false] at h
    obtain ⟨rfl, rfl⟩ := Prod.mk.inj (Option.some.inj h)
    exact .quiet (by simp) (List.Subset.refl _) Iff.rfl

theorem effect_of_step {t : World} {e : Event} {out : List Notice}
    (h : step r w e = some (t, out)) : Effect r w t e out := by
  cases e with
  | addUsr usr =>
    cases h
    exact effect_addUsr r w usr
  | removeUsr usr =>
    cases h
    exact effect_removeUsr r w usr
  | roomEnterMMQueue usr now =>
    simp only [step] at h
    split_ifs at h with hroom
    obtain ⟨⟨t, actions⟩, hentered, heq⟩ := Option.map_eq_some_iff.mp h
    obtain ⟨rfl, rfl⟩ := Prod.mk.inj heq
    exact effect_roomEnterMMQueue hroom hentered
  | roomLeaveMMQueue usr =>
    simp only [step] at h
    split_ifs at h with hroom
    obtain ⟨⟨t, actions⟩, hleft, heq⟩ := Option.map_eq_some_iff.mp h
    obtain ⟨rfl, rfl⟩ := Prod.mk.inj heq
    exact effect_roomLeaveMMQueue hroom hleft

end Effect

section Step
variable {r : VChatRoomRef} {x y : World × List Notice} {e : Event}

theorem timerAgrees_added (hx : TimerAgrees r x) {usr : VChatUserRef}
    (hfree : (x.1.room r).nRoomStatus = roomEnqueueMM → (x.1.room r).users = [])
    (husers : (y.1.room r).users = (x.1.room r).users ++ [usr])
    (hstatus : (y.1.room r).nRoomStatus = roomNormal)
    (hlog : y.2 = x.2 ++ if usr ∈ (x.1.room r).users then [] else [.joined usr]) :
    TimerAgrees r y := by
  intro v hv
  rw [hstatus, iff_false_right (by decide), hlog]
  rw [husers] at hv
  have hold (hmem : v ∈ (x.1.room r).users) : lastTimer v x.2 ≠ some .s2cStartMMTimer :=
    fun hstart => List.ne_nil_of_mem hmem (hfree ((hx v hmem).mp hstart))
  by_cases husr : usr ∈ (x.1.room r).users
  · have hmem : v ∈ (x.1.room r).users := by
      rcases List.mem_append.mp hv with hmem | hmem
      · exact hmem
      · exact List.mem_singleton.mp hmem ▸ husr
    rw [if_pos husr, List.append_nil]
    exact hold hmem
  · rw [if_neg husr, lastTimer_joined]
    split_ifs with heq
    · simp
    · rcases List.mem_append.mp hv with hmem | hmem
      · exact hold hmem
      · exact absurd (List.mem_singleton.mp hmem).symm heq

theorem timerAgrees_announced {t : World} {log : List Notice} {type : S2CPacket}
    (htype : type = .s2cStartMMTimer ∨ type = .s2cStopMMTimer)
    (hstatus : (t.room r).nRoomStatus = roomEnqueueMM ↔ type = .s2cStartMMTimer) :
    TimerAgrees r (t, log ++ announce (t.room r).users type) := by
  intro v hv
  rw [lastTimer_announce v log _ htype, if_pos hv, hstatus, Option.some_inj]

/-- Where a user is added to a queued room, its members have been told to start and are not
told to stop, so the condition is exactly what keeps the agreement. -/
theorem addedOutOfQueue_of_timerAgrees (hx : TimerAgrees r x) (hy : TimerAgrees r y)
    {usr : VChatUserRef} (husers : (y.1.room r).users = (x.1.room r).users ++ [usr])
    (hstatus : (y.1.room r).nRoomStatus = roomNormal)
    (hlog : y.2 = x.2 ++ if usr ∈ (x.1.room r).users then [] else [.joined usr])
    (hqueue : (x.1.room r).nRoomStatus = roomEnqueueMM) : (x.1.room r).users = [] := by
  rw [List.eq_nil_iff_forall_not_mem]
  intro v hv
  have hstart := (hx v hv).mpr hqueue
  have hstill : lastTimer v y.2 = some .s2cStartMMTimer := by
    rw [hlog]
    split_ifs with husr
    · rwa [List.append_nil]
    · have hne : usr ≠ v := fun heq => husr (heq ▸ hv)
      rwa [lastTimer_joined, if_neg hne]
  have hv' : v ∈ (y.1.room r).users := husers ▸ List.mem_append_left _ hv
  exact absurd ((hy v hv').mp hstill) (by rw [hstatus]; decide)

theorem addedOutOfQueue_iff (hx : TimerAgrees r x) (hstep : traced (step r) x e = some y) :
    AddedOutOfQueue r x e ↔ TimerAgrees r y ∧ StopsTold r x y := by
  obtain ⟨t, log⟩ := y
  obtain ⟨out, hstep, rfl⟩ := traced_eq_some.mp hstep
  have hother (he : ∀ usr, e ≠ .addUsr usr) : AddedOutOfQueue r x e :=
    fun ⟨usr, h⟩ => absurd h (he usr)
  have heffect : Effect r x.1 t e out := effect_of_step hstep
  cases heffect with
  | @added usr husers hstatus =>
    constructor
    · intro hfree
      have hfree := hfree ⟨usr, rfl⟩
      refine ⟨timerAgrees_added hx hfree husers hstatus rfl, fun hqueue _ v hv => ?_⟩
      exact absurd (hfree hqueue) (List.ne_nil_of_mem hv)
    · rintro ⟨hy, -⟩ - hqueue
      exact addedOutOfQueue_of_timerAgrees hx hy husers hstatus rfl hqueue
  | @announced _ type he htype hstatus =>
    refine iff_of_true (hother he) ⟨timerAgrees_announced htype hstatus, ?_⟩
    intro _ hleft v _ hv _
    have hstop : type = .s2cStopMMTimer := htype.resolve_left fun h => hleft (hstatus.mpr h)
    rw [hstop]
    exact ⟨_, rfl, List.mem_map.mpr ⟨v, hv, rfl⟩⟩
  | quiet he hsub hstatus =>
    refine iff_of_true (hother he) ⟨fun v hv => ?_, fun hqueue hleft => ?_⟩
    · rw [List.append_nil, hx v (hsub hv), hstatus]
    · exact absurd (hstatus.mpr hqueue) hleft

end Step

/-- Along a run on a room that starts empty, the timer agrees with the room after each step,
and every step that ends the queue tells so those who were told of it, if and only if users
are only added while the room is out of the queue or empty. -/
theorem timer_run_iff {w : World} {r : VChatRoomRef} (h₀ : (w.room r).users = [])
    (es : List Event) :
    Along (traced (step r)) (fun x e _ => AddedOutOfQueue r x e) (w, []) es ↔
      Along (traced (step r)) (fun x _ y => TimerAgrees r y ∧ StopsTold r x y) (w, []) es := by
  have hstart : TimerAgrees r (w, []) := fun usr husr => by simp [h₀] at husr
  have hiff : ∀ x e y, TimerAgrees r x → traced (step r) x e = some y →
      (AddedOutOfQueue r x e ↔ TimerAgrees r y ∧ StopsTold r x y) :=
    fun _ _ _ hx hstep => addedOutOfQueue_iff hx hstep
  exact along_iff_along (fun _ _ _ _ _ h => h.1) hiff es hstart

/-- The room empties while it is queued, and only then does the next user join. -/
theorem timer_run_iff_left_queue :
    Along (traced (step 0)) (fun x _ y => TimerAgrees 0 y ∧ StopsTold 0 x y) (start, [])
      [.addUsr 1, .roomEnterMMQueue 1 none, .removeUsr 1, .addUsr 2] := by
  refine (timer_run_iff rfl _).mp ?_
  refine .cons rfl ?_ (.cons rfl ?_ (.cons rfl ?_ (.cons rfl ?_ trivial)))
  · exact fun _ hqueue => absurd hqueue (by decide)
  · rintro ⟨usr, ⟨⟩⟩
  · rintro ⟨usr, ⟨⟩⟩
  · exact fun _ _ => rfl

/-- A second user joins a queued room: the first is never told that the queue has ended. -/
theorem timer_not_agrees_joined : ∃ w log,
    exec (traced (step 0)) (start, []) [.addUsr 1, .roomEnterMMQueue 1 none, .addUsr 2] =
        some (w, log) ∧
      1 ∈ (w.room 0).users ∧
        ¬ (lastTimer 1 log = some .s2cStartMMTimer ↔ (w.room 0).nRoomStatus = roomEnqueueMM) :=
  ⟨_, _, rfl, by decide, by decide⟩

end VChat.QueueTimer
