import VChat.Chat.Forgery
import VChat.Chat.SessionLinks
import VChat.NetWork.FrameReader
import VChat.Transition.Since

/-! What comes in over many connections at once: each session reads its packets on its own, and
hands them one by one to the same users. -/

namespace VChat.Inbound
open Codec Transition World Dispatch NetWork Header
open NetWork.FrameReader hiding Session Output

structure Server where
  world : World
  session : VSessionRef → FrameReader.Session

/-- `outside` is whatever the rest of the server does to the users. -/
inductive Event where
  | start (c : VSessionRef)
  | read (now : VTime) (c : VSessionRef) (bs : List VByte)
  | abort (now : VTime) (c : VSessionRef)
  | closeSession (u : VChatUserRef)
  | outside (f : World → World)

inductive Output where
  | started (c : VSessionRef)
  | fed (c : VSessionRef) (bs : List VByte)
  | received (c : VSessionRef) (header : Header) (buff : VConstBuffer) (reports : List Report)

variable (net : Network)

def perform (now : VTime) (c : VSessionRef) :
    World → List FrameReader.Output → Option (World × List Output)
  | w, [] => some (w, [])
  | w, .receivePacket user header buff :: outs =>
    let received := receivePacket net now w c user header buff
    received.1.bind fun r => (perform now c r.1 outs).map fun rest =>
      (rest.1, .received c header buff received.2 :: rest.2)
  | w, .reset :: outs => perform now c (w.resetSession c) outs
  | w, _ :: outs => perform now c w outs

/-- The handler of the pending read runs on the session `x`, with `user_` locked. -/
def complete (s : Server) (now : VTime) (c : VSessionRef) (x : FrameReader.Session) (error : Bool)
    (h : FrameReader.Handler) : Option (Server × List Output) :=
  let handled := handle true { x with user := s.world.lockUser c } error h
  (perform net now c s.world handled.2).map fun performed =>
    (⟨performed.1, Function.update s.session c handled.1⟩, performed.2)

def step (s : Server) : Event → Option (Server × List Output)
  | .start c =>
    if (s.session c).pending.isNone then
      some ({ s with session := Function.update s.session c (readFlow (s.session c)).1 },
        [.started c])
    else none
  | .read now c bs =>
    (s.session c).pending.bind fun r =>
      if bs.length = r.length then
        (complete net s now c (store (s.session c) r bs) false r.handler).map fun completed =>
          (completed.1, .fed c bs :: completed.2)
      else none
  | .abort now c =>
    (s.session c).pending.bind fun r =>
      complete net s now c { s.session c with pending := none } true r.handler
  | .closeSession u => some ({ s with world := s.world.modifyUser u VChatUser.closeSession }, [])
  | .outside f => some ({ s with world := f s.world }, [])

def Output.starts (c : VSessionRef) : Output → Bool
  | .started d => d == c
  | _ => false

def Output.fedTo (c : VSessionRef) : Output → List VByte
  | .fed d bs => if d = c then bs else []
  | _ => []

def Output.receivedOn (c : VSessionRef) : Output → Option (Header × List VByte)
  | .received d header buff _ => if d = c then some (header, buff.bytes) else none
  | _ => none

def fed (c : VSessionRef) (log : List Output) : List VByte :=
  (sinceLast (Output.starts c) log).flatMap (Output.fedTo c)

def got (c : VSessionRef) (log : List Output) : List (Header × List VByte) :=
  (sinceLast (Output.starts c) log).filterMap (Output.receivedOn c)

def Output.reports : Output → List Report
  | .received _ _ _ reports => reports
  | _ => []

def Output.accepted (U : VChatUserRef) : Output → Option (Header × List VByte)
  | .received _ header buff reports =>
    if (acceptedSeqs U reports).isEmpty then none else some (header, buff.bytes)
  | _ => none

def accepted (U : VChatUserRef) (log : List Output) : List (Header × List VByte) :=
  log.filterMap (Output.accepted U)

def Framed (bytes : List VByte) (packets : List (Header × List VByte)) : Prop :=
  (∃ (ps : List Packet) (rest : List VByte),
      bytes = flowByte :: (ps.flatMap Packet.encode ++ rest) ∧ Stops rest ∧
        packets = ps.map Packet.delivery) ∨
    bytes.head? ≠ some flowByte ∧ packets = []

inductive Follows (pending : Option Read) (header : Header) :
    List VByte → List (Header × List VByte) → Prop
  | flow (h : pending = some flowRead) : Follows pending header [] []
  | policy (h : pending = some policyRead) : Follows pending header [policyByte] []
  | refused {bytes : List VByte} (h : pending = none) (hne : bytes.head? ≠ some flowByte) :
    Follows pending header bytes []
  | header (ps : List Packet) (h : pending = some headerRead) :
    Follows pending header (flowByte :: ps.flatMap Packet.encode) (ps.map Packet.delivery)
  | body (ps : List Packet) (hpos : 0 < header.nLen.toNat) (hlt : header.nLen.toNat < maxLength)
      (h : pending = some (bodyRead header.nLen.toNat hpos)) :
    Follows pending header (flowByte :: (ps.flatMap Packet.encode ++ Header.encode header))
      (ps.map Packet.delivery)
  | stopped (ps : List Packet) {rest : List VByte} (h : pending = none) (hstop : Stops rest) :
    Follows pending header (flowByte :: (ps.flatMap Packet.encode ++ rest))
      (ps.map Packet.delivery)

variable {net} {c d : VSessionRef} {x : FrameReader.Session} {bytes bs : List VByte}
  {packets : List (Header × List VByte)}

theorem stops_encode {h : Header} (hpos : 0 < h.nLen.toNat) : Stops (Header.encode h) := by
  refine .inr (.inr ?_)
  rw [List.take_of_length_le (Header.length_encode h).le, Header.decode_encode,
    Header.length_encode]
  exact Nat.lt_add_of_pos_right hpos

theorem Follows.framed {pending : Option Read} {header : Header}
    (h : Follows pending header bytes packets) : Framed bytes packets := by
  cases h with
  | flow h => exact .inr ⟨nofun, rfl⟩
  | policy h => exact .inr ⟨by decide, rfl⟩
  | refused h hne => exact .inr ⟨hne, rfl⟩
  | header ps h => exact .inl ⟨ps, [], by rw [List.append_nil], .inl (by decide), rfl⟩
  | body ps hpos hlt h => exact .inl ⟨ps, _, rfl, stops_encode hpos, rfl⟩
  | stopped ps h hstop => exact .inl ⟨ps, _, rfl, hstop, rfl⟩

theorem exists_packet {h : Header} {body : List VByte} (hlen : body.length = h.nLen.toNat)
    (hlt : h.nLen.toNat < maxLength) :
    ∃ p : Packet, p.delivery = (h, body) ∧ p.encode = Header.encode h ++ body := by
  have hheader : (⟨BitVec.ofNat 32 body.length, h.nCrc, h.nSeq, h.nType⟩ : Header) = h := by
    rw [hlen, BitVec.ofNat_toNat, BitVec.setWidth_eq]
  refine ⟨⟨h.nCrc, h.nSeq, h.nType, body, hlen ▸ hlt⟩, ?_, ?_⟩
  · rw [Packet.delivery, Packet.header, hheader]
  · rw [Packet.encode, Packet.header, hheader]

theorem follows_packet (ps : List Packet) {pending : Option Read} {h header : Header}
    {body : List VByte} (hpending : pending = some headerRead)
    (hlen : body.length = h.nLen.toNat) (hlt : h.nLen.toNat < maxLength) :
    Follows pending header (flowByte :: (ps.flatMap Packet.encode ++ (Header.encode h ++ body)))
      (ps.map Packet.delivery ++ [(h, body)]) := by
  obtain ⟨p, hdelivery, hencode⟩ := exists_packet hlen hlt
  have hfollows : Follows pending header _ _ := .header (ps ++ [p]) hpending
  rwa [List.flatMap_append, List.map_append, List.flatMap_singleton, List.map_singleton,
    hdelivery, hencode] at hfollows

theorem follows_handlerReadFlow (hidle : x.pending = none) :
    Follows (handlerReadFlow x false).1.pending (handlerReadFlow x false).1.header [x.data 0]
      (delivered (handlerReadFlow x false).2) := by
  by_cases hpolicy : x.data 0 = policyByte
  · have hread : handlerReadFlow x false = readData x policyRead := by
      simp [handlerReadFlow, hpolicy]
    rw [hread, hpolicy]
    exact .policy rfl
  · by_cases hflow : x.data 0 = flowByte
    · have hread : handlerReadFlow x false = readHeader x := by
        rw [handlerReadFlow, if_neg hpolicy, if_pos hflow]
        rfl
      rw [hread, hflow]
      exact .header [] rfl
    · have hread : handlerReadFlow x false = (x, []) := by
        rw [handlerReadFlow, if_neg hpolicy, if_neg hflow]
        rfl
      rw [hread]
      exact .refused hidle fun hhead => hflow (Option.some.inj hhead)

theorem follows_handlerReadPolicy (hidle : x.pending = none)
    (hne : bytes.head? ≠ some flowByte) :
    Follows (handlerReadPolicy x false).1.pending (handlerReadPolicy x false).1.header bytes
      (delivered (handlerReadPolicy x false).2) := by
  unfold handlerReadPolicy
  split_ifs
  · exact .refused hidle hne
  · exact .refused hidle hne
  · exact .refused hidle hne

theorem follows_handleReadBody (ps : List Packet) {body : List VByte}
    (hlen : body.length = x.header.nLen.toNat) (hlt : x.header.nLen.toNat < maxLength)
    (hbody : x.data.read x.header.nLen.toNat = body) :
    Follows (handleReadBody true x false).1.pending (handleReadBody true x false).1.header
      (flowByte :: (ps.flatMap Packet.encode ++ (Header.encode x.header ++ body)))
      (ps.map Packet.delivery ++ delivered (handleReadBody true x false).2) := by
  rw [delivered_handleReadBody, hbody]
  exact follows_packet ps rfl hlen hlt

theorem follows_handleReadHeader (ps : List Packet) (hidle : x.pending = none) :
    Follows (handleReadHeader true x false).1.pending (handleReadHeader true x false).1.header
      (flowByte :: (ps.flatMap Packet.encode ++ Header.encode x.header))
      (ps.map Packet.delivery ++ delivered (handleReadHeader true x false).2) := by
  have htake : (Header.encode x.header).take sizeofHeader = Header.encode x.header :=
    List.take_of_length_le (Header.length_encode x.header).le
  by_cases hlt : x.header.nLen.toNat < maxLength
  · by_cases hpos : 0 < x.header.nLen.toNat
    · have hread : handleReadHeader true x false = readData x (bodyRead _ hpos) := by
        simp [handleReadHeader, hlt, hpos]
      rw [hread, show delivered (readData x (bodyRead _ hpos)).2 = [] from rfl, List.append_nil]
      exact .body ps hpos hlt rfl
    · have hread : handleReadHeader true x false = handleReadBody true x false := by
        simp [handleReadHeader, hlt, hpos]
      have hzero : x.header.nLen.toNat = 0 := Nat.eq_zero_of_not_pos hpos
      have hempty : ([] : List VByte).length = x.header.nLen.toNat := hzero.symm
      have hfollows := follows_handleReadBody ps hempty hlt (by rw [hzero]; rfl)
      rwa [List.append_nil, ← hread] at hfollows
  · have hread : handleReadHeader true x false = handlerError x := by
      simp [handleReadHeader, hlt]
    rw [hread, show delivered (handlerError x).2 = [] from rfl, List.append_nil]
    refine .stopped ps hidle (.inr (.inl ?_))
    rw [htake, Header.decode_encode]
    exact Nat.not_lt.mp hlt

theorem Follows.read {r : Read} (h : Follows x.pending x.header bytes packets)
    (hr : x.pending = some r) (hlen : bs.length = r.length) (user : Option VChatUserRef) :
    Follows (handle true { store x r bs with user := user } false r.handler).1.pending
      (handle true { store x r bs with user := user } false r.handler).1.header (bytes ++ bs)
      (packets ++
        delivered (handle true { store x r bs with user := user } false r.handler).2) := by
  cases h with
  | flow h =>
    obtain rfl := Option.some.inj (hr.symm.trans h)
    obtain ⟨b, rfl⟩ := List.length_eq_one_iff.mp hlen
    exact follows_handlerReadFlow rfl
  | policy h =>
    obtain rfl := Option.some.inj (hr.symm.trans h)
    exact follows_handlerReadPolicy rfl (by simp; decide)
  | refused h hne => cases h.symm.trans hr
  | header ps h =>
    obtain rfl := Option.some.inj (hr.symm.trans h)
    have hencode : Header.encode (Header.decode bs) = bs := Header.encode_decode hlen
    have hfollows := follows_handleReadHeader (x := { store x headerRead bs with user := user }) ps
      rfl
    rwa [show ({ store x headerRead bs with user := user } : FrameReader.Session).header =
      Header.decode bs from rfl, hencode] at hfollows
  | body ps hpos hlt h =>
    obtain rfl := Option.some.inj (hr.symm.trans h)
    have hnlen : bs.length = x.header.nLen.toNat := hlen
    have hbody : (x.data.store 0 bs).read x.header.nLen.toNat = bs := by
      rw [← hnlen]
      exact Memory.read_store ..
    rw [List.cons_append, List.append_assoc]
    exact follows_handleReadBody (x := { store x (bodyRead _ hpos) bs with user := user }) ps hnlen
      hlt hbody
  | stopped ps h hstop => cases h.symm.trans hr

theorem Follows.abort (h : Follows x.pending x.header bytes packets) :
    Follows none x.header bytes packets := by
  cases h with
  | flow h => exact .refused rfl nofun
  | policy h => exact .refused rfl (by decide)
  | refused h hne => exact .refused rfl hne
  | header ps h =>
    have hfollows : Follows none x.header _ _ := .stopped ps rfl (.inl (by decide) : Stops [])
    rwa [List.append_nil] at hfollows
  | body ps hpos hlt h => exact .stopped ps rfl (stops_encode hpos)
  | stopped ps h hstop => exact .stopped ps rfl hstop

theorem handle_error (x : FrameReader.Session) (handler : FrameReader.Handler) :
    handle true x true handler = (x, [.reset]) := by
  cases handler <;> rfl

/-! ### The sessions next to each other -/

theorem fed_append {log out : List Output} (h : ∀ o ∈ out, o.starts c = false) :
    fed c (log ++ out) = fed c log ++ out.flatMap (Output.fedTo c) := by
  rw [fed, sinceLast_append_of_not h, List.flatMap_append, ← fed]

theorem got_append {log out : List Output} (h : ∀ o ∈ out, o.starts c = false) :
    got c (log ++ out) = got c log ++ out.filterMap (Output.receivedOn c) := by
  rw [got, sinceLast_append_of_not h, List.filterMap_append, ← got]

section
variable {w w' : World} {now : VTime} {outs : List FrameReader.Output} {os : List Output}

theorem perform_receivePacket {user : Option VChatUserRef} {header : Header} {buff : VConstBuffer}
    (h : perform net now c w (.receivePacket user header buff :: outs) = some (w', os)) :
    ∃ w₁ ret reports rest,
      receivePacket net now w c user header buff = (some (w₁, ret), reports) ∧
      perform net now c w₁ outs = some (w', rest) ∧
      os = .received c header buff reports :: rest := by
  obtain ⟨⟨w₁, ret⟩, hreturned, h⟩ := Option.bind_eq_some_iff.mp h
  obtain ⟨⟨w₂, rest⟩, hrest, heq⟩ := Option.map_eq_some_iff.mp h
  obtain ⟨rfl, rfl⟩ := Prod.mk.inj heq
  exact ⟨w₁, ret, _, rest, Prod.ext hreturned rfl, hrest, rfl⟩

theorem perform_received (h : perform net now c w outs = some (w', os)) :
    ∀ o ∈ os, ∃ header buff reports, o = .received c header buff reports := by
  induction outs generalizing w os with
  | nil =>
    obtain ⟨-, rfl⟩ := Prod.mk.inj (Option.some.inj h)
    exact fun o ho => absurd ho List.not_mem_nil
  | cons out outs ih =>
    cases out with
    | receivePacket user header buff =>
      obtain ⟨w₁, ret, reports, rest, -, hrest, rfl⟩ := perform_receivePacket h
      intro o ho
      rcases List.mem_cons.mp ho with rfl | ho
      · exact ⟨header, buff, _, rfl⟩
      · exact ih hrest o ho
    | reset => exact ih h
    | asyncRead r => exact ih h
    | writePolicy => exact ih h

theorem perform_starts (h : perform net now c w outs = some (w', os)) :
    ∀ o ∈ os, o.starts d = false := by
  intro o ho
  obtain ⟨header, buff, reports, rfl⟩ := perform_received h o ho
  rfl

theorem fedTo_perform (h : perform net now c w outs = some (w', os)) :
    os.flatMap (Output.fedTo d) = [] := by
  rw [List.flatMap_eq_nil_iff]
  intro o ho
  obtain ⟨header, buff, reports, rfl⟩ := perform_received h o ho
  rfl

theorem receivedOn_perform_of_ne (hcd : c ≠ d) (h : perform net now c w outs = some (w', os)) :
    os.filterMap (Output.receivedOn d) = [] := by
  rw [List.filterMap_eq_nil_iff]
  intro o ho
  obtain ⟨header, buff, reports, rfl⟩ := perform_received h o ho
  exact if_neg hcd

theorem receivedOn_perform (h : perform net now c w outs = some (w', os)) :
    os.filterMap (Output.receivedOn c) = delivered outs := by
  induction outs generalizing w os with
  | nil =>
    obtain ⟨-, rfl⟩ := Prod.mk.inj (Option.some.inj h)
    rfl
  | cons out outs ih =>
    cases out with
    | receivePacket user header buff =>
      obtain ⟨w₁, ret, reports, rest, -, hrest, rfl⟩ := perform_receivePacket h
      have hout : Output.receivedOn c (.received c header buff reports) =
          some (header, buff.bytes) := if_pos rfl
      rw [List.filterMap_cons_some hout, ih hrest]
      rfl
    | reset => exact ih h
    | asyncRead r => exact ih h
    | writePolicy => exact ih h

end

variable {s t : Server} {log out : List Output}

theorem complete_eq_some {now : VTime} {error : Bool} {handler : FrameReader.Handler}
    (h : complete net s now c x error handler = some (t, out)) :
    let handled := handle true { x with user := s.world.lockUser c } error handler
    perform net now c s.world handled.2 = some (t.world, out) ∧
      t.session = Function.update s.session c handled.1 := by
  obtain ⟨⟨w', os⟩, hperform, heq⟩ := Option.map_eq_some_iff.mp h
  obtain ⟨rfl, rfl⟩ := Prod.mk.inj heq
  exact ⟨hperform, rfl⟩

theorem read_cases {now : VTime} (h : step net s (.read now c bs) = some (t, out)) :
    ∃ r outs, (s.session c).pending = some r ∧ bs.length = r.length ∧
      complete net s now c (store (s.session c) r bs) false r.handler = some (t, outs) ∧
        out = .fed c bs :: outs := by
  obtain ⟨r, hr, h⟩ := Option.bind_eq_some_iff.mp h
  split_ifs at h with hlen
  obtain ⟨⟨t', outs⟩, hcomplete, heq⟩ := Option.map_eq_some_iff.mp h
  obtain ⟨rfl, rfl⟩ := Prod.mk.inj heq
  exact ⟨r, outs, hr, hlen, hcomplete, rfl⟩

theorem Follows.complete {d : VSessionRef} (h : d ≠ c → Follows (s.session c).pending
      (s.session c).header bytes packets) {now : VTime} {error : Bool}
    {handler : FrameReader.Handler}
    (hcomplete : complete net s now d x error handler = some (t, out))
    (hx : d = c → Follows
      (handle true { x with user := s.world.lockUser d } error handler).1.pending
      (handle true { x with user := s.world.lockUser d } error handler).1.header bytes
      (packets ++ delivered (handle true { x with user := s.world.lockUser d } error handler).2)) :
    Follows (t.session c).pending (t.session c).header bytes
      (packets ++ out.filterMap (Output.receivedOn c)) := by
  obtain ⟨hperform, hsession⟩ := complete_eq_some hcomplete
  rw [hsession]
  by_cases hd : d = c
  · subst hd
    rw [Function.update_self, receivedOn_perform hperform]
    exact hx rfl
  · rw [Function.update_of_ne (Ne.symm hd), receivedOn_perform_of_ne hd hperform, List.append_nil]
    exact h hd

theorem Follows.step (h : Follows (s.session c).pending (s.session c).header bytes packets)
    {e : Event} (hs : step net s e = some (t, out)) (hstart : e ≠ .start c) :
    Follows (t.session c).pending (t.session c).header (bytes ++ out.flatMap (Output.fedTo c))
      (packets ++ out.filterMap (Output.receivedOn c)) := by
  cases e with
  | start d =>
    simp only [Inbound.step] at hs
    split_ifs at hs
    obtain ⟨rfl, rfl⟩ := Prod.mk.inj (Option.some.inj hs)
    have hd : c ≠ d := fun hd => hstart (hd ▸ rfl)
    rw [List.flatMap_singleton, show Output.fedTo c (.started d) = [] from rfl,
      List.filterMap_cons_none rfl]
    simpa [hd] using h
  | read now d bs =>
    obtain ⟨r, outs, hr, hlen, hcomplete, rfl⟩ := read_cases hs
    rw [List.flatMap_cons, fedTo_perform (complete_eq_some hcomplete).1, List.append_nil,
      List.filterMap_cons_none rfl]
    refine Follows.complete ?_ hcomplete ?_
    · intro hd
      rwa [Output.fedTo, if_neg hd, List.append_nil]
    · rintro rfl
      rw [Output.fedTo, if_pos rfl]
      exact h.read hr hlen _
  | abort now d =>
    obtain ⟨r, -, hcomplete⟩ := Option.bind_eq_some_iff.mp hs
    rw [fedTo_perform (complete_eq_some hcomplete).1, List.append_nil]
    refine Follows.complete (fun _ => h) hcomplete ?_
    rintro rfl
    rw [handle_error, show delivered [FrameReader.Output.reset] = [] from rfl, List.append_nil]
    exact h.abort
  | closeSession u =>
    obtain ⟨rfl, rfl⟩ := Prod.mk.inj (Option.some.inj hs)
    simpa using h
  | outside f =>
    obtain ⟨rfl, rfl⟩ := Prod.mk.inj (Option.some.inj hs)
    simpa using h

theorem starts_of_step {e : Event} (hs : step net s e = some (t, out)) (hstart : e ≠ .start c) :
    ∀ o ∈ out, o.starts c = false := by
  cases e with
  | start d =>
    simp only [Inbound.step] at hs
    split_ifs at hs
    obtain ⟨-, rfl⟩ := Prod.mk.inj (Option.some.inj hs)
    intro o ho
    rw [List.mem_singleton.mp ho]
    exact beq_false_of_ne fun hd => hstart (hd ▸ rfl)
  | read now d bs =>
    obtain ⟨r, outs, -, -, hcomplete, rfl⟩ := read_cases hs
    intro o ho
    rcases List.mem_cons.mp ho with rfl | ho
    · rfl
    · exact perform_starts (complete_eq_some hcomplete).1 o ho
  | abort now d =>
    obtain ⟨r, -, hcomplete⟩ := Option.bind_eq_some_iff.mp hs
    exact perform_starts (complete_eq_some hcomplete).1
  | closeSession u =>
    obtain ⟨-, rfl⟩ := Prod.mk.inj (Option.some.inj hs)
    exact fun o ho => absurd ho List.not_mem_nil
  | outside f =>
    obtain ⟨-, rfl⟩ := Prod.mk.inj (Option.some.inj hs)
    exact fun o ho => absurd ho List.not_mem_nil

def Tracks (s : Server) (log : List Output) : Prop :=
  ∀ c, Follows (s.session c).pending (s.session c).header (fed c log) (got c log)

theorem Tracks.step (h : Tracks s log) {e : Event} (hs : step net s e = some (t, out)) :
    Tracks t (log ++ out) := by
  intro c
  by_cases hstart : e = .start c
  · subst hstart
    simp only [Inbound.step] at hs
    split_ifs at hs
    obtain ⟨rfl, rfl⟩ := Prod.mk.inj (Option.some.inj hs)
    have hmark : (Output.started c).starts c = true := beq_self_eq_true c
    have hpending : (Function.update s.session c (readFlow (s.session c)).1 c).pending =
        some flowRead := by
      rw [Function.update_self]
      rfl
    rw [fed, got, sinceLast_concat, if_pos hmark]
    exact .flow hpending
  · have hstarts := starts_of_step hs hstart
    rw [fed_append hstarts, got_append hstarts]
    exact (h c).step hs hstart

/-! ### What counts as a packet of a user -/

/-- Nothing but the packets and `CloseSession` changes what `U` is recognised by. -/
def Event.Keeps (U : VChatUserRef) : Event → Prop
  | .outside f => ∀ w, ((f w).user U).credentials = (w.user U).credentials
  | _ => True

structure Vouched (U : VChatUserRef) (k : VUInt32) (w : World) (log : List Output) : Prop where
  numbered : Numbered U k (w, log.flatMap Output.reports)
  seqs : (accepted U log).map (fun p => p.1.nSeq) = acceptedSeqs U (log.flatMap Output.reports)
  carries : ∀ p ∈ accepted U log, Carries k p.1.nCrc p.2

variable {U : VChatUserRef} {k : VUInt32} {w : World} {now : VTime}

theorem accepted_append (log out : List Output) :
    accepted U (log ++ out) = accepted U log ++ accepted U out := List.filterMap_append

theorem accepted_concat_none {o : Output} (h : o.accepted U = none) (log : List Output) :
    accepted U (log ++ [o]) = accepted U log := by
  have ho : accepted U [o] = [] := List.filterMap_cons_none h
  rw [accepted_append, ho, List.append_nil]

theorem accepted_concat_some {o : Output} {p : Header × List VByte} (h : o.accepted U = some p)
    (log : List Output) : accepted U (log ++ [o]) = accepted U log ++ [p] := by
  have ho : accepted U [o] = [p] := List.filterMap_cons_some h
  rw [accepted_append, ho]

theorem reports_concat (log : List Output) (o : Output) :
    (log ++ [o]).flatMap Output.reports = log.flatMap Output.reports ++ o.reports := by
  rw [List.flatMap_append, List.flatMap_singleton]

theorem acceptedSeqs_cases (hnet : KeepsUser net U) {reports log : List Report}
    (hn : Numbered U k (w, log)) {user : Option VChatUserRef} {header : Header}
    {buff : VConstBuffer} {result : Option (World × Bool)}
    (h : receivePacket net now w c user header buff = (result, reports)) :
    acceptedSeqs U reports = [] ∨ acceptedSeqs U reports = [header.nSeq] ∧ user = some U ∧
      w.getSession U = some c ∧ Carries k header.nCrc buff.bytes := by
  rcases receivePacket_cases hnet now w c user header buff h with
    ⟨-, hout⟩ | ⟨u, tail, rfl, hconn, -, hcrc, rfl, htail, -⟩
  · exact .inl (acceptedSeqs_of_stopped hout)
  · by_cases hu : u = U
    · subst hu
      obtain ⟨hkey, htable, -⟩ := armed_of_getSession hn hconn
      rw [hkey, htable] at hcrc
      exact .inr ⟨acceptedSeqs_checked htail, rfl, hconn, hcrc⟩
    · have hother : Report.acceptedSeq U (.checked u header true) = none := if_neg hu
      refine .inl ?_
      rw [acceptedSeqs, List.filterMap_cons_none hother, ← acceptedSeqs,
        acceptedSeqs_of_followed htail]

theorem Vouched.quiet (h : Vouched U k w log) {o : Output} (hreports : o.reports = [])
    (haccepted : o.accepted U = none) : Vouched U k w (log ++ [o]) := by
  have hlog : (log ++ [o]).flatMap Output.reports = log.flatMap Output.reports := by
    rw [reports_concat, hreports, List.append_nil]
  have hsame := accepted_concat_none haccepted log
  exact ⟨hlog ▸ h.numbered, by rw [hsame, hlog, h.seqs], hsame ▸ h.carries⟩

theorem Vouched.received (hnet : KeepsUser net U) (h : Vouched U k w log)
    {user : Option VChatUserRef} {header : Header} {buff : VConstBuffer} {w' : World} {ret : Bool}
    {reports : List Report}
    (hr : receivePacket net now w c user header buff = (some (w', ret), reports)) :
    Vouched U k w' (log ++ [.received c header buff reports]) := by
  have hn : Numbered U k (w', log.flatMap Output.reports ++ reports) := by
    refine numbered_step hnet h.numbered (e := .receivePacket now c user header buff) ?_
    refine traced_eq_some.mpr ⟨reports, ?_, rfl⟩
    rw [Dispatch.step, hr]
    rfl
  let o : Output := .received c header buff reports
  have hlog : (log ++ [o]).flatMap Output.reports = log.flatMap Output.reports ++ reports :=
    reports_concat log o
  rcases acceptedSeqs_cases hnet h.numbered hr with hnone | ⟨hone, -, -, hcarries⟩
  · have hsame : accepted U (log ++ [o]) = accepted U log :=
      accepted_concat_none (by simp [o, Output.accepted, hnone]) log
    refine ⟨hlog ▸ hn, ?_, hsame ▸ h.carries⟩
    rw [hsame, hlog, acceptedSeqs_append, hnone, List.append_nil, h.seqs]
  · have hnew : accepted U (log ++ [o]) = accepted U log ++ [(header, buff.bytes)] :=
      accepted_concat_some (by simp [o, Output.accepted, hone]) log
    refine ⟨hlog ▸ hn, ?_, fun p hp => ?_⟩
    · rw [hnew, hlog, acceptedSeqs_append, hone, List.map_append, h.seqs]
      rfl
    · rw [hnew] at hp
      rcases List.mem_append.mp hp with hp | hp
      · exact h.carries p hp
      · rw [List.mem_singleton.mp hp]
        exact hcarries

theorem Vouched.closeSession (hnet : KeepsUser net U) (h : Vouched U k w log) (u : VChatUserRef) :
    Vouched U k (w.modifyUser u VChatUser.closeSession) log := by
  refine ⟨?_, h.seqs, h.carries⟩
  rw [← List.append_nil (log.flatMap Output.reports)]
  by_cases hu : u = U
  · subst hu
    exact numbered_step hnet h.numbered (e := .closeSession) rfl
  · refine numbered_of_unchanged h.numbered ?_ rfl
    rw [modifyUser_user, if_neg (Ne.symm hu)]

theorem Vouched.resetSession (hnet : KeepsUser net U) (h : Vouched U k w log) (c : VSessionRef) :
    Vouched U k (w.resetSession c) log := by
  rw [SessionLinks.resetSession_eq]
  cases w.lockUser c with
  | none => exact h
  | some u => exact h.closeSession hnet u

theorem Vouched.perform (hnet : KeepsUser net U) (h : Vouched U k w log)
    {outs : List FrameReader.Output} {w' : World} {os : List Output}
    (hperform : perform net now c w outs = some (w', os)) : Vouched U k w' (log ++ os) := by
  induction outs generalizing w log os with
  | nil =>
    obtain ⟨rfl, rfl⟩ := Prod.mk.inj (Option.some.inj hperform)
    exact (List.append_nil log).symm ▸ h
  | cons out outs ih =>
    cases out with
    | receivePacket user header buff =>
      obtain ⟨w₁, ret, reports, rest, hr, hrest, rfl⟩ := perform_receivePacket hperform
      rw [List.append_cons]
      exact ih (h.received hnet hr) hrest
    | reset => exact ih (h.resetSession hnet c) hperform
    | asyncRead r => exact ih h hperform
    | writePolicy => exact ih h hperform

theorem Vouched.step (hnet : KeepsUser net U) (h : Vouched U k s.world log) {e : Event}
    (hkeeps : e.Keeps U) (hs : step net s e = some (t, out)) :
    Vouched U k t.world (log ++ out) := by
  cases e with
  | start c =>
    simp only [Inbound.step] at hs
    split_ifs at hs
    obtain ⟨rfl, rfl⟩ := Prod.mk.inj (Option.some.inj hs)
    exact h.quiet rfl rfl
  | read now c bs =>
    obtain ⟨r, outs, -, -, hcomplete, rfl⟩ := read_cases hs
    rw [List.append_cons]
    exact (h.quiet (o := .fed c bs) rfl rfl).perform hnet (complete_eq_some hcomplete).1
  | abort now c =>
    obtain ⟨r, -, hcomplete⟩ := Option.bind_eq_some_iff.mp hs
    exact h.perform hnet (complete_eq_some hcomplete).1
  | closeSession u =>
    obtain ⟨rfl, rfl⟩ := Prod.mk.inj (Option.some.inj hs)
    rw [List.append_nil]
    exact h.closeSession hnet u
  | outside f =>
    obtain ⟨rfl, rfl⟩ := Prod.mk.inj (Option.some.inj hs)
    have hn := numbered_of_unchanged h.numbered (hkeeps s.world) (rfl : acceptedSeqs U [] = [])
    rw [List.append_nil] at hn ⊢
    exact ⟨hn, h.seqs, h.carries⟩

theorem numbered_initial {w : World} (hkey : (w.user U).nKey = k)
    (htable : (w.user U).crcTable = crcTable k) (hseq : (w.user U).nSeq = 0) :
    Numbered U k (w, []) := ⟨rfl, .inr ⟨hkey, htable, hseq⟩⟩

/-- However the reads of the connections fall, each hands on exactly the packets that what it has
read begins with; and of all these, from where `U` has its key, those that count as packets of `U`
are numbered in order and carry the checksum of the key. -/
theorem inbound_run (hnet : KeepsUser net U) {s₀ s₁ : Server} {as bs : List Event}
    {log₁ : List Output} (hidle : ∀ c, (s₀.session c).pending = none)
    (h₁ : exec (traced (step net)) (s₀, []) as = some (s₁, log₁))
    (hkey : (s₁.world.user U).nKey = k) (htable : (s₁.world.user U).crcTable = crcTable k)
    (hseq : (s₁.world.user U).nSeq = 0) (hbs : ∀ e ∈ bs, e.Keeps U)
    (h : exec (traced (step net)) (s₁, []) bs = some (s, log)) :
    (∀ c, Framed (fed c (log₁ ++ log)) (got c (log₁ ++ log))) ∧
      (accepted U log).map (fun p => p.1.nSeq) =
        (List.range (accepted U log).length).map (BitVec.ofNat 32) ∧
      ∀ p ∈ accepted U log, Carries k p.1.nCrc p.2 := by
  have htracks : Tracks s₁ log₁ := by
    refine exec_invariant (I := fun x => Tracks x.1 x.2) (fun x e y hx hstep => ?_) ?_ h₁
    · obtain ⟨out, hstep, hlog⟩ := traced_eq_some.mp hstep
      rw [hlog]
      exact hx.step hstep
    · exact fun c => .refused (hidle c) nofun
  have hrun : (∀ e ∈ bs, e.Keeps U) → Tracks s (log₁ ++ log) ∧ Vouched U k s.world log := by
    refine exec_induction (P := fun es x => (∀ e ∈ es, e.Keeps U) → Tracks x.1 (log₁ ++ x.2) ∧
      Vouched U k x.1.world x.2) (fun _ => ?_) (fun es x e y ih hstep hkeeps => ?_) h
    · rw [List.append_nil]
      refine ⟨htracks, numbered_initial hkey htable hseq, rfl, fun p hp => ?_⟩
      exact absurd hp List.not_mem_nil
    · obtain ⟨out, hstep, hlog⟩ := traced_eq_some.mp hstep
      obtain ⟨hx, hv⟩ := ih fun e he => hkeeps e (List.mem_append_left _ he)
      rw [hlog, ← List.append_assoc]
      exact ⟨hx.step hstep, hv.step hnet (hkeeps e (by simp)) hstep⟩
  obtain ⟨htracks, hvouched⟩ := hrun hbs
  refine ⟨fun c => (htracks c).framed, ?_, hvouched.carries⟩
  have hnumbered := hvouched.numbered.seqs
  rw [← hvouched.seqs, List.length_map] at hnumbered
  exact hnumbered

def Server.loggedIn : Server where
  world := { PacketBuffer.connected.modifyUser 0 fun u =>
      { u with toVUser := u.toVUser.initSecretKey 9 } with
    userOf := fun c => if c = 0 then some 0 else none
    held := fun u => u = 0 }
  session := fun _ => ⟨fun _ => 0, ⟨0, 0, 0, 0⟩, none, none⟩

/-- A chat packet of one connection, while another asks for the policy and is lost. -/
theorem inbound_run_policy :
    ∃ s₁ log₁ s log, exec (traced (step .silent)) (.loggedIn, [])
        [.start 0, .start 1, .read none 0 [flowByte]] = some (s₁, log₁) ∧
      exec (traced (step .silent)) (s₁, []) [.read none 1 [policyByte],
        .read none 0 (Header.encode ⟨0, 0, 0, 2⟩), .abort none 1] = some (s, log) ∧
      Framed (fed 1 (log₁ ++ log)) (got 1 (log₁ ++ log)) ∧
      (accepted 0 log).map (fun p => p.1.nSeq) = [0] := by
  have hnet : KeepsUser .silent 0 := ⟨by intros; rfl, by intros; rfl, by intros; rfl⟩
  obtain ⟨s₁, log₁, s, log, h₁, h, hkey, htable, hseq, hone⟩ : ∃ s₁ log₁ s log,
      exec (traced (step .silent)) (.loggedIn, [])
        [.start 0, .start 1, .read none 0 [flowByte]] = some (s₁, log₁) ∧
      exec (traced (step .silent)) (s₁, []) [.read none 1 [policyByte],
        .read none 0 (Header.encode ⟨0, 0, 0, 2⟩), .abort none 1] = some (s, log) ∧
      (s₁.world.user 0).nKey = 9 ∧ (s₁.world.user 0).crcTable = crcTable 9 ∧
      (s₁.world.user 0).nSeq = 0 ∧ (accepted 0 log).length = 1 :=
    ⟨_, _, _, _, rfl, rfl, rfl, rfl, rfl, rfl⟩
  obtain ⟨hframed, hnumbered, -⟩ := inbound_run hnet (fun _ => rfl) h₁ hkey htable hseq
    (by simp [Event.Keeps]) h
  rw [hone] at hnumbered
  exact ⟨s₁, log₁, s, log, h₁, h, hframed 1, hnumbered⟩

end VChat.Inbound
