import VChat.Chat.Company
import VChat.Chat.Dispatch

/-! Who hears whom: a chat line goes to those who are in the sender's room. -/

namespace VChat.Company
open Transition Move World

variable (types : PacketTypes) (sv : Services)

def chatLine (nId : VInt32) (sender : VChatUser) (text : List VByte) : List VByte :=
  sv.createBufferChat (if nId % sv.sequenceRoom = 0 then sv.chatServer else kChatNormal)
    sender.nPlayerID ++ vbytes sender.strUserName ++ vbytes ":" ++ text

def toAll (users : List VChatUserRef) (packet : List VByte) : List Sent :=
  users.map fun usr => ⟨usr, .s2cChatMessage, packet⟩

/-- The lines that users are sent: of a chat message those in the sender's room, of a notice
everyone who is registered. -/
def heard (s : World) (ms : History) : Event → List Sent
  | .packet _ usr header body =>
    match kind types header, body.second with
    | some .chatMessage, some packet =>
      if body.first > 1 ∧ packet (body.first - 1) = 0 then
        (place ms usr).elim [] fun p =>
          toAll (company ms p) (chatLine sv p.1 (s.user usr) (packet.read body.first))
      else []
    | some .tbGlobal, some packet =>
      if sv.isGM (s.user usr) ∧ packet 0 ≠ 0 then
        toAll (s.pUsers.toList.map Prod.snd)
          (sv.createBufferChat sv.chatGlobal 0 ++ packet.read body.first)
      else []
    | _, _ => []
  | _ => []

def chatLines (sent : List Sent) : List Sent :=
  sent.filter fun p => p.nPacketType = .s2cChatMessage

variable {types sv} {w t : World} {ms : History} {key : VChatRoomRef → Place VInt32}
  {usr : VChatUserRef} {r : VChatRoomRef}

def sentLines (actions : List Action) : List Sent := chatLines (actions.filterMap sentBy)

theorem chatLines_toAll (users : List VChatUserRef) (packet : List VByte) :
    chatLines (toAll users packet) = toAll users packet := by
  refine List.filter_eq_self.mpr fun p hp => ?_
  obtain ⟨usr, -, rfl⟩ := List.mem_map.mp hp
  rfl

theorem chatLines_eq_nil {sent : List Sent} (h : ∀ p ∈ sent, p.nPacketType ≠ .s2cChatMessage) :
    chatLines sent = [] :=
  List.filter_eq_nil_iff.mpr fun p hp => by simpa using h p hp

theorem filterMap_sentBy (sent : List Sent) :
    (sent.map Action.sent).filterMap sentBy = sent := by
  rw [List.filterMap_map]
  exact List.filterMap_some

theorem sentLines_sendPacket {type : S2CPacket} (htype : type ≠ .s2cChatMessage) (w : World)
    (r : VChatRoomRef) (packet : List VByte) :
    sentLines ((w.sendPacket r type packet).map .sent) = [] := by
  rw [sentLines, filterMap_sentBy]
  refine chatLines_eq_nil fun p hp => ?_
  obtain ⟨usr, -, rfl⟩ := List.mem_map.mp hp
  exact htype

theorem chatLines_removeUsr (w : World) (r : VChatRoomRef) (usr : VChatUserRef) :
    chatLines (w.removeUsr r usr).2 = [] := by
  refine chatLines_eq_nil fun p hp => ?_
  unfold removeUsr at hp
  split_ifs at hp
  · obtain ⟨u, -, rfl⟩ := List.mem_map.mp hp
    exact nofun
  · cases hp
  · cases hp

theorem chatLines_joinRoom (w : World) (usr : VChatUserRef) (nRoomID nRoomMode : VInt32) :
    chatLines (w.joinRoom usr nRoomID nRoomMode).2 = [] := by
  unfold World.joinRoom
  cases (w.user usr).room with
  | none => rfl
  | some r => exact chatLines_removeUsr w r usr

theorem Seated.nId (h : Seated w ms key) (hr : (w.user usr).room = some r) :
    (w.room r).nId = (key r).1 := h.named r (h.room_lt usr r hr)

theorem Seated.sendPacket (h : Seated w ms key) (hr : (w.user usr).room = some r)
    (packet : List VByte) :
    w.sendPacket r .s2cChatMessage packet = toAll (company ms (key r)) packet := by
  rw [World.sendPacket, h.users r (h.room_lt usr r hr), toAll]

theorem sentLines_writeLog {action : Action} (haction : sentBy action = none)
    (actions : List Action) : sentLines (action :: actions) = sentLines actions := by
  rw [sentLines, List.filterMap_cons_none haction, sentLines]

theorem sentLines_toAll (users : List VChatUserRef) (packet : List VByte) :
    sentLines ((toAll users packet).map .sent) = toAll users packet := by
  rw [sentLines, filterMap_sentBy, chatLines_toAll]

theorem Seated.chatMessage (h : Seated w ms key) {sv : Services} {usr : VChatUserRef}
    {packet : Memory} {nSize : VUInt32} {actions : List Action}
    (hchat : processChat sv w usr (some packet) nSize = some (t, actions)) :
    sentLines actions =
      if nSize.toNat > 1 ∧ packet (nSize.toNat - 1) = 0 then
        (place ms usr).elim [] fun p =>
          toAll (company ms p) (chatLine sv p.1 (w.user usr) (packet.read nSize.toNat))
      else [] := by
  simp only [processChat] at hchat
  split_ifs at hchat ⊢ with hsize
  · rw [h.place_eq]
    cases hroom : (w.user usr).room with
    | none =>
      rw [hroom] at hchat
      obtain ⟨-, rfl⟩ := Prod.mk.inj (Option.some.inj hchat)
      rfl
    | some r =>
      rw [hroom] at hchat
      obtain ⟨-, rfl⟩ := Prod.mk.inj (Option.some.inj hchat)
      rw [h.nId hroom, h.sendPacket hroom, sentLines_writeLog rfl, sentLines_toAll]
      rfl
  · obtain ⟨-, rfl⟩ := Prod.mk.inj (Option.some.inj hchat)
    rfl

theorem notifyGlobal {sv : Services} {usr : VChatUserRef} {packet : Memory} {nSize : VUInt32}
    {actions : List Action}
    (h : processNotifyGlobal sv w usr (some packet) nSize = some (t, actions)) :
    sentLines actions =
      if sv.isGM (w.user usr) ∧ packet 0 ≠ 0 then
        toAll (w.pUsers.toList.map Prod.snd)
          (sv.createBufferChat sv.chatGlobal 0 ++ packet.read nSize.toNat)
      else [] := by
  have hordered : w.ordered sv usr (some packet) =
      if sv.isGM (w.user usr) ∧ packet 0 ≠ 0 then some packet else none := by
    unfold ordered
    by_cases hgm : sv.isGM (w.user usr) <;> simp [hgm, Option.filter]
  rw [processNotifyGlobal, hordered] at h
  split_ifs at h ⊢
  · have hall : ∀ text, w.sendGlobalPacket .s2cChatMessage text =
        toAll (w.pUsers.toList.map Prod.snd) text := by
      intro text
      rw [sendGlobalPacket, toAll, List.map_map]
      rfl
    obtain ⟨-, rfl⟩ := Prod.mk.inj (Option.some.inj h)
    rw [hall, sentLines_toAll]
  · obtain ⟨-, rfl⟩ := Prod.mk.inj (Option.some.inj h)
    rfl

theorem sentLines_handler {kind : ChatPacket} (hchat : kind ≠ .chatMessage)
    (hall : kind ≠ .tbGlobal) {now : VTime} {usr : VChatUserRef} {packet : Option Memory}
    {nSize : VUInt32} {actions : List Action}
    (h : ChatPacket.handler sv now kind w usr packet nSize = some (t, actions)) :
    sentLines actions = [] := by
  cases kind with
  | joinRoom =>
    simp only [ChatPacket.handler, processJoinRoom] at h
    split at h
    all_goals cases h
    rw [sentLines, filterMap_sentBy]
    exact chatLines_joinRoom w usr _ _
  | chatMessage => exact absurd rfl hchat
  | banNick =>
    simp only [ChatPacket.handler, processBanNick] at h
    repeat' split at h
    all_goals cases h
    all_goals rfl
  | tbGlobal => exact absurd rfl hall
  | enterQueue =>
    simp only [ChatPacket.handler, roomEnterMMQueue] at h
    split at h
    all_goals cases h
    exact sentLines_sendPacket (by decide) _ _ _
  | leaveQueue =>
    simp only [ChatPacket.handler, roomLeaveMMQueue] at h
    repeat' split at h
    all_goals cases h
    · rw [sentLines_writeLog rfl]
      exact sentLines_sendPacket (by decide) _ _ _
    · rfl
  | kickUser =>
    simp only [ChatPacket.handler, processKickUser] at h
    repeat' split at h
    all_goals cases h
    all_goals rfl
  | requestZMEFriends =>
    simp only [ChatPacket.handler, World.requestZMEFriends] at h
    repeat' split at h
    all_goals cases h
    all_goals rfl
  | sendCodeZME =>
    simp only [ChatPacket.handler, codeZME] at h
    split at h
    all_goals cases h
    rfl
  | requestZCBillingURL =>
    simp only [ChatPacket.handler, World.requestZCBillingURL] at h
    split at h
    all_goals cases h
    rfl

theorem Seated.heard (h : Seated w ms key) {e : Event} {out : List Sent}
    (hstep : step types sv w e = some (t, out)) :
    chatLines out = heard types sv w ms e := by
  cases e with
  | packet now usr header body =>
    obtain ⟨⟨t, actions⟩, hprocess, heq⟩ := Option.map_eq_some_iff.mp hstep
    obtain ⟨-, rfl⟩ := Prod.mk.inj heq
    show sentLines actions = _
    have hsize : (BitVec.ofNat 32 body.first).toNat = body.first :=
      Nat.mod_eq_of_lt body.first_lt
    rw [processPacket_eq] at hprocess
    rw [Company.heard]
    cases hkind : kind types header with
    | none =>
      rw [hkind] at hprocess
      obtain ⟨-, rfl⟩ := Prod.mk.inj (Option.some.inj hprocess)
      rfl
    | some it =>
      rw [hkind, Option.elim_some] at hprocess
      cases hpacket : body.second with
      | none =>
        rw [hpacket] at hprocess
        cases it with
        | chatMessage =>
          obtain ⟨-, rfl⟩ := Prod.mk.inj (Option.some.inj hprocess)
          rfl
        | tbGlobal =>
          simp only [ChatPacket.handler, processNotifyGlobal, ordered] at hprocess
          split_ifs at hprocess <;> cases hprocess <;> rfl
        | _ => exact sentLines_handler (by simp) (by simp) hprocess
      | some packet =>
        rw [hpacket] at hprocess
        cases it with
        | chatMessage =>
          have hchat := h.chatMessage hprocess
          rwa [hsize] at hchat
        | tbGlobal =>
          have hall := notifyGlobal hprocess
          rwa [hsize] at hall
        | _ => exact sentLines_handler (by simp) (by simp) hprocess
  | joinRoom usr nRoomID nRoomMode =>
    obtain ⟨-, rfl⟩ := Prod.mk.inj (Option.some.inj hstep)
    exact chatLines_joinRoom w usr nRoomID nRoomMode
  | removeUsr r usr =>
    simp only [step] at hstep
    split_ifs at hstep
    obtain ⟨-, rfl⟩ := Prod.mk.inj (Option.some.inj hstep)
    exact chatLines_removeUsr w r usr
  | removeRoom rid =>
    obtain ⟨-, rfl⟩ := Prod.mk.inj (Option.some.inj hstep)
    rfl
  | outside f =>
    obtain ⟨-, rfl⟩ := Prod.mk.inj (Option.some.inj hstep)
    rfl

/-- After any run, the lines sent next are those that the history of moves says are heard. -/
theorem heard_run (h₀ : NoRooms w) {es : List Event} {s : World} {e : Event} {out : List Sent}
    (hkeep : ∀ f, .outside f ∈ es → ∀ w, Stays w (f w)) (hrun : run types sv w es = some s)
    (hstep : step types sv s e = some (t, out)) :
    chatLines out = heard types sv s (history types sv es) e := by
  obtain ⟨key, hs⟩ := seated_run h₀ hkeep hrun
  exact hs.heard hstep

/-- The first two stay together when their room's name is given up, and the third is elsewhere. -/
theorem heard_run_closed :
    let net : Dispatch.Network := .silent
    let es : List Event := [.joinRoom 0 5 1, .joinRoom 1 5 1, .removeRoom 5, .joinRoom 2 5 1]
    let line : Event := .packet none 1 ⟨2, 0, 0, 2⟩
      ⟨2, some fun i => if i = 0 then 97 else 0, by decide, fun _ => rfl⟩
    ∃ s t out, run net.types net.services start es = some s ∧
      step net.types net.services s line = some (t, out) ∧ out.map Sent.usr = [0, 1] ∧
      chatLines out =
        heard net.types net.services s (history net.types net.services es) line := by
  intro net es line
  have hkeep : ∀ f, .outside f ∈ es → ∀ w, Stays w (f w) := by
    intro f hf
    simp [es] at hf
  have hrun : ∃ s, run net.types net.services start es = some s := ⟨_, rfl⟩
  obtain ⟨s, hs⟩ := hrun
  have hwho : (step net.types net.services s line).map (fun r => r.2.map Sent.usr) =
      some [0, 1] := by
    obtain rfl := Option.some.inj hs
    rfl
  obtain ⟨⟨t, out⟩, ht, hout⟩ := Option.map_eq_some_iff.mp hwho
  exact ⟨s, t, out, hs, ht, hout, heard_run noRooms_start hkeep hs ht⟩

end VChat.Company
