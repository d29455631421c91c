import VChat.Chat.ProcessPacket
import VChat.Codec.Dependence
import VChat.NetWork.FrameReader

/-! What each handler takes out of the packet it is given, and that it does nothing with the packet
beyond that. -/

namespace VChat

structure Field (α : Type) where
  offset : Nat
  width : Nat
  width_pos : 0 < width
  decode : List VByte → α
  decode_injOn : ∀ bs bs' : List VByte, bs.length = width → bs'.length = width →
    decode bs = decode bs' → bs = bs'

def Field.get {α : Type} (field : Field α) (packet : Memory) : α :=
  field.decode (Codec.cells packet field.offset field.width)

def Field.vint32 (offset : Nat) : Field VInt32 where
  offset := offset
  width := 4
  width_pos := by decide
  decode := fun bs => Int32.ofBitVec (Codec.wordOf 32 bs)
  decode_injOn := by
    intro bs bs' h h' heq
    have hword : Codec.wordOf 32 bs = Codec.wordOf 32 bs' := congrArg Int32.toBitVec heq
    rw [← Codec.bytesOf_wordOf h (Nat.le_refl 32), hword, Codec.bytesOf_wordOf h' (Nat.le_refl 32)]

def Field.toInt (field : Field VInt32) : Field Int where
  offset := field.offset
  width := field.width
  width_pos := field.width_pos
  decode := fun bs => (field.decode bs).toInt
  decode_injOn := fun bs bs' h h' heq => field.decode_injOn bs bs' h h' (Int32.toInt_inj.mp heq)

/-- Where the members of the packet structs lie; `strCode` and `strAccountName` are arrays of
characters. `readable` is how far memory can be read from `data_` on, and stops a text without an
end. -/
structure PacketStructs where
  nRoomID : Field VInt32
  nRoomMode : Field VInt32
  nFrom : Field VInt32
  nTo : Field VInt32
  strCode : Nat
  nZingID : Field Int
  strAccountName : Nat
  nItemID : Field Int
  readable : Nat
  maxLength_le : NetWork.FrameReader.maxLength ≤ readable

def vstring (bs : List VByte) : String := String.ofList (bs.map fun b => Char.ofNat b.toNat)

def Memory.ofBytes (bs : List VByte) : Memory := fun i => bs.getD i 0

def PacketStructs.cstring (L : PacketStructs) (packet : Memory) (offset : Nat) : List VByte :=
  Codec.text 0 packet offset (L.readable - offset)

/-- `getRoleId` takes a C string, and the structs read as `L` lays them out. -/
def Services.laidOut (sv : Services) (L : PacketStructs) : Services :=
  { sv with
    getRoleId := fun packet => sv.getRoleId (Memory.ofBytes (L.cstring packet 0))
    joinRoomPacket := fun packet => (L.nRoomID.get packet, L.nRoomMode.get packet)
    requestZMFriend := fun packet => (L.nFrom.get packet, L.nTo.get packet)
    codeZM := fun packet => vstring (L.cstring packet L.strCode)
    requestBilling := fun packet =>
      ⟨L.nZingID.get packet, vstring (L.cstring packet L.strAccountName), L.nItemID.get packet⟩ }

inductive ChatPacket where
  | joinRoom
  | chatMessage
  | banNick
  | tbGlobal
  | enterQueue
  | leaveQueue
  | kickUser
  | requestZMEFriends
  | sendCodeZME
  | requestZCBillingURL

/-- The calls a handler makes, with the arguments that come out of the packet. -/
inductive Request where
  | nothing
  | joinRoom (nRoomID nRoomMode : VInt32)
  | chat (pszContent packet : List VByte)
  | banRoleOf (nick : List VByte)
  | notifyGlobal (packet : List VByte)
  | startMM
  | stopMM
  | kickRoleOf (nick : List VByte)
  | getZMEFriends (nFrom nTo : VInt32)
  | requestZMEFriends (strCode : String)
  | requestZCBillingURL (strDatas : String)

def strDatas (nZingID : Int) (strAccountName : String) (nItemID : Int) : String :=
  "accountid=" ++ toString nZingID ++ "&accountname=" ++ strAccountName ++
    "&itemid=" ++ toString nItemID

def Request.perform (sv : Services) (now : VTime) (w : World) (usr : VChatUserRef) :
    Request → Option (World × List Action)
  | .nothing => some (w, [])
  | .joinRoom nRoomID nRoomMode =>
    let joined := w.joinRoom usr nRoomID nRoomMode
    some (joined.1, joined.2.map .sent)
  | .chat pszContent packet =>
    let log := Action.writeLogChat usr (Memory.ofBytes pszContent) 1
    match (w.user usr).room with
    | some r =>
      let type :=
        if (w.room r).nId % sv.sequenceRoom = 0 then sv.chatServer else World.kChatNormal
      let bufferChat := sv.createBufferChat type (w.user usr).nPlayerID ++
        vbytes (w.user usr).strUserName ++ vbytes ":" ++ packet
      some (w, log :: (w.sendPacket r .s2cChatMessage bufferChat).map .sent)
    | none => some (w, [log])
  | .banRoleOf nick =>
    let id := sv.getRoleId (Memory.ofBytes nick)
    if id ≥ 0 then
      match w.getUser id with
      | some usrBan => some (w.setState usrBan .kick, [.addUserBanId id])
      | none => some (w, [])
    else some (w, [])
  | .notifyGlobal packet =>
    let bufferChat := sv.createBufferChat sv.chatGlobal 0 ++ packet
    some (w, (w.sendGlobalPacket .s2cChatMessage bufferChat).map .sent)
  | .startMM => w.roomEnterMMQueue now usr none 0
  | .stopMM => w.roomLeaveMMQueue usr none 0
  | .kickRoleOf nick =>
    let id := sv.getRoleId (Memory.ofBytes nick)
    if id ≥ 0 then some (w, [.broadcastKickRole id]) else some (w, [])
  | .getZMEFriends nFrom nTo =>
    let zmes := sv.getZMEFriends (w.user usr).nPlayerID nFrom nTo
    some (w, [.sent ⟨usr, .s2cRequestZMEFriendsResult, w.writeFriends sv zmes⟩])
  | .requestZMEFriends strCode =>
    let player := w.user usr
    some (w, [.requestZMEFriends strCode sv.strSecretCode player.nServerID player.nPlayerID])
  | .requestZCBillingURL strDatas =>
    let player := w.user usr
    some (w, [.requestZCBillingURL player.nServerID player.nPlayerID strDatas])

namespace ChatPacket
variable (sv : Services) (L : PacketStructs) (now : VTime)

def table (types : PacketTypes) : List (Int × ChatPacket) :=
  [(types.c2sGsJoinRoom, .joinRoom),
    (types.c2sGsChatMessage, .chatMessage),
    (types.c2sGsBanNick, .banNick),
    (types.c2sGsTbGlobal, .tbGlobal),
    (types.c2sGsEnterQueue, .enterQueue),
    (types.c2sGsLeaveQueue, .leaveQueue),
    (types.c2sGsKickUser, .kickUser),
    (types.c2sRequestZMEFriends, .requestZMEFriends),
    (types.c2sSendCodeZME, .sendCodeZME),
    (types.c2sRequestZCBillingURL, .requestZCBillingURL)]

def handler : ChatPacket → Handler
  | .joinRoom => World.processJoinRoom sv
  | .chatMessage => World.processChat sv
  | .banNick => World.processBanNick sv
  | .tbGlobal => World.processNotifyGlobal sv
  | .enterQueue => World.roomEnterMMQueue now
  | .leaveQueue => World.roomLeaveMMQueue
  | .kickUser => World.processKickUser sv
  | .requestZMEFriends => World.requestZMEFriends sv
  | .sendCodeZME => World.codeZME sv
  | .requestZCBillingURL => World.requestZCBillingURL sv

def nick (w : World) (usr : VChatUserRef) (packet : Memory) : Option (List VByte) :=
  if sv.isGM (w.user usr) ∧ packet 0 ≠ 0 then some (L.cstring packet 0) else none

def request (w : World) (usr : VChatUserRef) (packet : Memory) (nSize : Nat) :
    ChatPacket → Request
  | .joinRoom => .joinRoom (L.nRoomID.get packet) (L.nRoomMode.get packet)
  | .chatMessage =>
    if nSize > 1 ∧ packet (nSize - 1) = 0 then
      .chat (L.cstring packet 0) (packet.read nSize)
    else .nothing
  | .banNick => (nick sv L w usr packet).elim .nothing .banRoleOf
  | .tbGlobal =>
    if sv.isGM (w.user usr) ∧ packet 0 ≠ 0 then .notifyGlobal (packet.read nSize) else .nothing
  | .enterQueue => .startMM
  | .leaveQueue => .stopMM
  | .kickUser => (nick sv L w usr packet).elim .nothing .kickRoleOf
  | .requestZMEFriends =>
    if L.nFrom.get packet ≥ 0 ∧ L.nFrom.get packet < L.nTo.get packet then
      .getZMEFriends (L.nFrom.get packet) (L.nTo.get packet)
    else .nothing
  | .sendCodeZME => .requestZMEFriends (vstring (L.cstring packet L.strCode))
  | .requestZCBillingURL =>
    .requestZCBillingURL (strDatas (L.nZingID.get packet)
      (vstring (L.cstring packet L.strAccountName)) (L.nItemID.get packet))

def requestOf (types : PacketTypes) (w : World) (usr : VChatUserRef)
    (s : NetWork.FrameReader.Session) : Request :=
  ((table types).lookup (s.header.nType.toNat : Int)).elim .nothing
    (request sv L w usr s.data s.header.nLen.toNat)

/-- The log is given a C string, and reads no more than that. -/
def logged : Action → Action
  | .writeLogChat usr pszContent nType =>
    .writeLogChat usr (Memory.ofBytes (L.cstring pszContent 0)) nType
  | action => action

def asLogged (processed : World × List Action) : World × List Action :=
  (processed.1, processed.2.map (logged L))

def outcome (types : PacketTypes) (w : World) (usr : VChatUserRef)
    (s : NetWork.FrameReader.Session) : Option (World × List Action) :=
  (w.processPacket types (sv.laidOut L) now usr s.header
    (NetWork.FrameReader.bodyBuffer s)).map (asLogged L)

variable {sv L now} {w : World} {usr : VChatUserRef} {packet : Memory} {nSize : VUInt32}

theorem processFunction_eq (types : PacketTypes) :
    World.processFunction types sv now = (table types).map fun it => (it.1, handler sv now it.2) :=
  rfl

theorem lookup_map {α β γ : Type} [BEq α] (f : β → γ) (a : α) (l : List (α × β)) :
    (l.map fun it => (it.1, f it.2)).lookup a = (l.lookup a).map f := by
  induction l with
  | nil => rfl
  | cons it l ih =>
    rw [List.map_cons, List.lookup_cons, List.lookup_cons, ih]
    cases a == it.1 <;> rfl

theorem ordered_some :
    w.ordered (sv.laidOut L) usr (some packet) =
      if sv.isGM (w.user usr) ∧ packet 0 ≠ 0 then some packet else none := by
  have hgm : (sv.laidOut L).isGM (w.user usr) = sv.isGM (w.user usr) := rfl
  unfold World.ordered
  rw [hgm]
  split_ifs with h h' h'
  · exact Option.filter_eq_some_iff.mpr ⟨rfl, by simpa using h'.2⟩
  · exact Option.filter_eq_none_iff.mpr fun p hp => by
      obtain rfl := Option.some.inj hp
      simpa using fun h0 => h' ⟨h, h0⟩
  · exact absurd h'.1 h
  · rfl

theorem getRoleId_laidOut :
    (sv.laidOut L).getRoleId packet = sv.getRoleId (Memory.ofBytes (L.cstring packet 0)) := rfl

theorem elim_injective {text text' : Option (List VByte)} {make : List VByte → Request}
    (hmake : Function.Injective make) (hne : ∀ bs, make bs ≠ .nothing)
    (h : text.elim .nothing make = text'.elim .nothing make) : text = text' := by
  cases text with
  | none =>
    cases text' with
    | none => rfl
    | some bs => exact absurd h.symm (hne bs)
  | some bs =>
    cases text' with
    | none => exact absurd h (hne bs)
    | some bs' => exact congrArg some (hmake h)

theorem banNick_eq (nSize : VUInt32) :
    ((World.processBanNick (sv.laidOut L) w usr (some packet) nSize).map (asLogged L)) =
      ((nick sv L w usr packet).elim .nothing .banRoleOf : Request).perform sv now w usr := by
  unfold World.processBanNick nick
  rw [ordered_some]
  by_cases horder : sv.isGM (w.user usr) ∧ packet 0 ≠ 0
  · rw [if_pos horder, if_pos horder, Option.elim_some, Request.perform]
    dsimp only
    rw [getRoleId_laidOut]
    split_ifs
    · cases w.getUser (sv.getRoleId (Memory.ofBytes (L.cstring packet 0))) <;> rfl
    · rfl
  · rw [if_neg horder, if_neg horder]
    rfl

theorem kickUser_eq (nSize : VUInt32) :
    ((World.processKickUser (sv.laidOut L) w usr (some packet) nSize).map (asLogged L)) =
      ((nick sv L w usr packet).elim .nothing .kickRoleOf : Request).perform sv now w usr := by
  unfold World.processKickUser nick
  rw [ordered_some]
  by_cases horder : sv.isGM (w.user usr) ∧ packet 0 ≠ 0
  · rw [if_pos horder, if_pos horder, Option.elim_some, Request.perform]
    dsimp only
    rw [getRoleId_laidOut]
    split_ifs <;> rfl
  · rw [if_neg horder, if_neg horder]
    rfl

theorem map_logged_sent (sent : List Sent) :
    (sent.map Action.sent).map (logged L) = sent.map .sent := by
  rw [List.map_map]
  rfl

theorem handler_eq (kind : ChatPacket) :
    (handler (sv.laidOut L) now kind w usr (some packet) nSize).map (asLogged L) =
      (request sv L w usr packet nSize.toNat kind).perform sv now w usr := by
  cases kind with
  | joinRoom =>
    simp only [handler, World.processJoinRoom, request, Request.perform, Option.map_some, asLogged,
      map_logged_sent]
    rfl
  | chatMessage =>
    simp only [handler, World.processChat, request]
    split_ifs
    · cases hroom : (w.user usr).room with
      | none => simp only [Request.perform, hroom]; rfl
      | some r =>
        simp only [Request.perform, hroom, Option.map_some, asLogged, List.map_cons,
          map_logged_sent]
        rfl
    · rfl
  | banNick => exact banNick_eq nSize
  | tbGlobal =>
    simp only [handler, World.processNotifyGlobal, ordered_some, request]
    split_ifs
    · simp only [Request.perform, Option.map_some, asLogged, map_logged_sent]
      rfl
    · rfl
  | enterQueue =>
    simp only [handler, World.roomEnterMMQueue, request, Request.perform]
    cases (w.user usr).room with
    | none => rfl
    | some r => simp only [Option.map_some, asLogged, map_logged_sent]
  | leaveQueue =>
    simp only [handler, World.roomLeaveMMQueue, request, Request.perform]
    cases (w.user usr).room with
    | none => rfl
    | some r =>
      dsimp only
      split_ifs
      · simp only [Option.map_some, asLogged, List.map_cons, map_logged_sent, logged]
      · rfl
  | kickUser => exact kickUser_eq nSize
  | requestZMEFriends =>
    have hfields : (sv.laidOut L).requestZMFriend packet =
        (L.nFrom.get packet, L.nTo.get packet) := rfl
    simp only [handler, World.requestZMEFriends, hfields, request]
    split_ifs <;> rfl
  | sendCodeZME => rfl
  | requestZCBillingURL => rfl

/-- `ProcessPacket` makes the calls that `requestOf` says, and does nothing else. -/
theorem outcome_eq (types : PacketTypes) (s : NetWork.FrameReader.Session) :
    outcome sv L now types w usr s = (requestOf sv L types w usr s).perform sv now w usr := by
  have hlookup := lookup_map (handler (sv.laidOut L) now) (s.header.nType.toNat : Int) (table types)
  have hnLen : BitVec.ofNat 32 s.header.nLen.toNat = s.header.nLen := by simp
  rw [← processFunction_eq] at hlookup
  simp only [outcome, World.processPacket, NetWork.FrameReader.bodyBuffer, hlookup, requestOf]
  cases (table types).lookup (s.header.nType.toNat : Int) with
  | none => rfl
  | some kind =>
    simp only [Option.map_some, Option.elim_some, hnLen]
    exact handler_eq kind

end ChatPacket
end VChat
