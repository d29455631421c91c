import VChat.Chat.Inbound
import VChat.NetWork.Framing

/-! A client that is attached to its user and keeps to the protocol: all it sends comes through,
whatever the others send. -/

namespace VChat.Inbound
open Codec Transition World Dispatch NetWork Header
open NetWork.FrameReader hiding Session Output

structure Attached (net : Network) (U : VChatUserRef) (c : VSessionRef) (w : World) : Prop where
  user : w.lockUser c = some U
  session : w.getSession U = some c
  only : ∀ d, w.lockUser d = some U → d = c
  can : net.canReceivePacket (w.user U) = true

/-- The connection is neither started again nor lost, and nothing else closes the user or changes
what it is recognised by. -/
def Event.Spares (U : VChatUserRef) (c : VSessionRef) : Event → Prop
  | .start d => d ≠ c
  | .abort _ d => d ≠ c
  | .closeSession u => u ≠ U
  | .outside f => ∀ w, ((f w).user U).credentials = (w.user U).credentials
  | _ => True

structure Conforms (k n : VUInt32) (ps : List Packet) : Prop where
  nSeq : ∀ (i : Nat) (h : i < ps.length), ps[i].nSeq = n + BitVec.ofNat 32 i
  carries : ∀ p ∈ ps, Carries k p.nCrc p.body

variable {net : Network} {U : VChatUserRef} {c d : VSessionRef} {x : FrameReader.Session}
  {bytes bs : List VByte} {packets : List (Header × List VByte)} {ps us : List Packet}

theorem packet_encode_ne_nil (p : Packet) : p.encode ≠ [] :=
  Outbound.encode_append_ne_nil p.header p.body

theorem packet_selfDelimiting : SelfDelimiting Packet.encode := by
  apply Outbound.selfDelimiting_header.withBody
  · intro p q hheader
    rw [← p.header_nLen, hheader, q.header_nLen]
  · exact fun p q hheader hbody => Packet.delivery_injective (Prod.ext hheader hbody)

theorem not_stops_encode (p : Packet) (tail : List VByte) : ¬ Stops (p.encode ++ tail) := by
  have htake : (p.encode ++ tail).take sizeofHeader = Header.encode p.header := by
    rw [Packet.encode, List.append_assoc, ← Header.length_encode p.header, List.take_left]
  have hlen : (p.encode ++ tail).length = sizeofHeader + p.body.length + tail.length := by
    rw [List.length_append, p.length_encode]
  have hlt := p.body_lt
  rw [Stops, htake, Header.decode_encode, p.header_nLen, hlen]
  omega

theorem Follows.split {pending : Option Read} {header : Header}
    (h : Follows pending header (flowByte :: bytes) packets)
    (hwire : bytes <+: ps.flatMap Packet.encode) :
    ∃ (us : List Packet) (rest : List VByte), us <+: ps ∧ bytes = us.flatMap Packet.encode ++ rest ∧
      Stops rest ∧ packets = us.map Packet.delivery := by
  rcases h.framed with ⟨us, rest, hbytes, hstop, hpackets⟩ | ⟨hhead, -⟩
  · obtain rfl := (List.cons.inj hbytes).2
    refine ⟨us, rest, ?_, rfl, hstop, hpackets⟩
    exact packet_selfDelimiting.isPrefix packet_encode_ne_nil ((List.prefix_append _ _).trans hwire)
  · exact absurd rfl hhead

theorem header_of_prefix (hlen : bs.length = sizeofHeader)
    (h : us.flatMap Packet.encode ++ bs <+: ps.flatMap Packet.encode) :
    ∃ p : Packet, bs = Header.encode p.header := by
  obtain ⟨tl, rfl⟩ := packet_selfDelimiting.isPrefix packet_encode_ne_nil
    ((List.prefix_append _ _).trans h)
  rw [List.flatMap_append, List.prefix_append_right_inj] at h
  cases tl with
  | nil =>
    rw [List.flatMap_nil, List.prefix_nil] at h
    rw [h] at hlen
    cases hlen
  | cons p tl =>
    obtain ⟨rest, hrest⟩ := h
    refine ⟨p, ?_⟩
    rw [List.flatMap_cons, Packet.encode, List.append_assoc] at hrest
    exact (List.append_inj hrest (hlen.trans (Header.length_encode _).symm)).1

theorem Follows.read_prefix {r : Read}
    (h : Follows x.pending x.header (flowByte :: bytes) packets) (hr : x.pending = some r)
    (hlen : bs.length = r.length) (hwire : bytes ++ bs <+: ps.flatMap Packet.encode)
    (user : Option VChatUserRef) :
    (handle true { store x r bs with user := user } false r.handler).1.pending.isSome ∧
      .reset ∉ (handle true { store x r bs with user := user } false r.handler).2 := by
  have hbody (y : FrameReader.Session) : (handleReadBody true y false).1.pending.isSome ∧
      .reset ∉ (handleReadBody true y false).2 :=
    ⟨rfl, by simp [handleReadBody, readHeader, readData]⟩
  generalize hall : flowByte :: bytes = all at h
  cases h with
  | flow h => cases hall
  | policy h => exact absurd (List.cons.inj hall).1 (by decide)
  | refused h hne => cases h.symm.trans hr
  | header us h =>
    obtain rfl := Option.some.inj (hr.symm.trans h)
    obtain rfl := (List.cons.inj hall).2
    obtain ⟨p, rfl⟩ := header_of_prefix hlen hwire
    let y : FrameReader.Session := { store x headerRead (Header.encode p.header) with user := user }
    have hheader : y.header = p.header := Header.decode_encode p.header
    have hlt : y.header.nLen.toNat < maxLength := by
      rw [hheader, p.header_nLen]
      exact p.body_lt
    change (handleReadHeader true y false).1.pending.isSome ∧
      .reset ∉ (handleReadHeader true y false).2
    by_cases hpos : 0 < y.header.nLen.toNat
    · have hread : handleReadHeader true y false = readData y (bodyRead _ hpos) := by
        simp [handleReadHeader, hlt, hpos]
      rw [hread]
      exact ⟨rfl, by simp [readData]⟩
    · have hread : handleReadHeader true y false = handleReadBody true y false := by
        simp [handleReadHeader, hlt, hpos]
      rw [hread]
      exact hbody y
  | body us hpos hlt h =>
    obtain rfl := Option.some.inj (hr.symm.trans h)
    exact hbody _
  | stopped us h hstop => cases h.symm.trans hr

theorem handle_cases (net : Network) (x : FrameReader.Session) (error : Bool)
    (handler : FrameReader.Handler) :
    (∀ now c w, perform net now c w (handle true x error handler).2 = some (w, [])) ∨
      (handle true x error handler).2 = [.reset] ∨
      ∃ header buff r, (handle true x error handler).2 =
        [.receivePacket x.user header buff, .asyncRead r] := by
  cases error with
  | true => exact .inr (.inl (congrArg Prod.snd (handle_error x handler)))
  | false =>
    cases handler with
    | handlerReadFlow =>
      simp only [handle, handlerReadFlow]
      split_ifs <;> first | contradiction | exact .inl fun _ _ _ => rfl
    | handlerReadPolicy =>
      simp only [handle, handlerReadPolicy]
      split_ifs <;> first | contradiction | exact .inl fun _ _ _ => rfl
    | handleReadHeader =>
      simp only [handle, handleReadHeader]
      split_ifs
      · exact .inl fun _ _ _ => rfl
      · exact .inr (.inr ⟨_, _, _, rfl⟩)
      · exact .inr (.inl rfl)
    | handleReadBody => exact .inr (.inr ⟨_, _, _, rfl⟩)

structure Through (U : VChatUserRef) (c : VSessionRef) (k n : VUInt32) (s : Server)
    (log : List Output) : Prop where
  follows : Follows (s.session c).pending (s.session c).header (flowByte :: fed c log) (got c log)
  reading : (s.session c).pending.isSome
  all : accepted U log = got c log
  key : (s.world.user U).nKey = k
  table : (s.world.user U).crcTable = crcTable k
  counter : (s.world.user U).nSeq = n + BitVec.ofNat 32 (got c log).length

variable {k n : VUInt32} {s t : Server} {log out : List Output} {w : World} {now : VTime}

theorem Through.extend (h : Through U c k n s log) {log' : List Output}
    {new : List (Header × List VByte)} (hsession : t.session c = x)
    (hfollows : Follows x.pending x.header (flowByte :: fed c log') (got c log'))
    (hreading : x.pending.isSome)
    (hgot : got c log' = got c log ++ new) (haccepted : accepted U log' = accepted U log ++ new)
    (hkey : (t.world.user U).nKey = (s.world.user U).nKey)
    (htable : (t.world.user U).crcTable = (s.world.user U).crcTable)
    (hseq : (t.world.user U).nSeq = (s.world.user U).nSeq + BitVec.ofNat 32 new.length) :
    Through U c k n t log' where
  follows := hsession ▸ hfollows
  reading := hsession ▸ hreading
  all := by rw [haccepted, hgot, h.all]
  key := hkey.trans h.key
  table := htable.trans h.table
  counter := by rw [hseq, h.counter, hgot, List.length_append, BitVec.ofNat_add, BitVec.add_assoc]

theorem Through.other (h : Through U c k n s log) (hsession : t.session c = s.session c)
    (hcred : (t.world.user U).credentials = (s.world.user U).credentials)
    (hstarts : ∀ o ∈ out, o.starts c = false) (hfed : out.flatMap (Output.fedTo c) = [])
    (hgot : out.filterMap (Output.receivedOn c) = []) (haccepted : accepted U out = []) :
    Through U c k n t (log ++ out) := by
  simp only [VUser.credentials, Prod.mk.injEq] at hcred
  obtain ⟨hkey, hseq, htable, -⟩ := hcred
  have hfed' : fed c (log ++ out) = fed c log := by rw [fed_append hstarts, hfed, List.append_nil]
  have hgot' : got c (log ++ out) = got c log ++ [] := by rw [got_append hstarts, hgot]
  refine h.extend hsession ?_ h.reading hgot' ?_ hkey htable ?_
  · rw [hfed', hgot', List.append_nil]
    exact h.follows
  · rw [accepted_append, haccepted]
  · rw [hseq]
    exact (BitVec.add_zero _).symm

theorem receivePacket_other (hnet : KeepsUser net U) {user : Option VChatUserRef}
    (huser : user ≠ some U) {header : Header} {buff : VConstBuffer} {w' : World} {ret : Bool}
    {reports : List Report}
    (h : receivePacket net now w d user header buff = (some (w', ret), reports)) :
    (w'.user U).credentials = (w.user U).credentials ∧ acceptedSeqs U reports = [] := by
  rcases receivePacket_cases hnet now w d user header buff h with
    ⟨⟨_, _, ⟨⟩, hcred⟩, hout⟩ | ⟨u, tail, rfl, -, -, -, rfl, htail, hcred⟩
  · exact ⟨hcred, acceptedSeqs_of_stopped hout⟩
  · have hu : u ≠ U := fun hu => huser (congrArg some hu)
    have hother : Report.acceptedSeq U (.checked u header true) = none := if_neg hu
    refine ⟨?_, ?_⟩
    · rw [hcred w' ret rfl, modifyUser_user, if_neg (Ne.symm hu)]
    · rw [acceptedSeqs, List.filterMap_cons_none hother, ← acceptedSeqs,
        acceptedSeqs_of_followed htail]

theorem receivePacket_attached (hnet : KeepsUser net U) (h : Attached net U c w)
    (hkey : (w.user U).nKey = k) (htable : (w.user U).crcTable = crcTable k) {header : Header}
    {buff : VConstBuffer} (hseq : header.nSeq = (w.user U).nSeq)
    (hcrc : Carries k header.nCrc buff.bytes) {w' : World} {ret : Bool} {reports : List Report}
    (hr : receivePacket net now w c (some U) header buff = (some (w', ret), reports)) :
    (w'.user U).credentials = (advanced (w.user U)).credentials ∧
      acceptedSeqs U reports = [header.nSeq] := by
  obtain ⟨w₁, -, haccept⟩ := receivePacket_of_carries h.can h.session hkey htable hseq hcrc now
  rw [hr] at haccept
  obtain ⟨-, hreports⟩ := Prod.mk.inj haccept
  rcases receivePacket_cases hnet now w c (some U) header buff hr with
    ⟨-, hout⟩ | ⟨u, tail, hu, -, -, -, rfl, htail, hcred⟩
  · have hnone := acceptedSeqs_of_stopped (U := U) hout
    have hsome : Report.acceptedSeq U (.checked U header true) = some header.nSeq := if_pos rfl
    rw [hreports, acceptedSeqs, List.filterMap_cons_some hsome] at hnone
    cases hnone
  · obtain rfl := Option.some.inj hu
    refine ⟨?_, acceptedSeqs_checked htail⟩
    rw [hcred w' ret rfl, modifyUser_user_self]

theorem perform_other (hnet : KeepsUser net U) (h : Attached net U c w) (hd : d ≠ c)
    {x : FrameReader.Session} {error : Bool} {handler : FrameReader.Handler} {w' : World}
    (hperform : perform net now d w
      (handle true { x with user := w.lockUser d } error handler).2 = some (w', out)) :
    (w'.user U).credentials = (w.user U).credentials ∧ accepted U out = [] := by
  have huser : w.lockUser d ≠ some U := fun hu => hd (h.only d hu)
  rcases handle_cases net { x with user := w.lockUser d } error handler with
    hout | hout | ⟨header, buff, r, hout⟩
  · rw [hout] at hperform
    obtain ⟨rfl, rfl⟩ := Prod.mk.inj (Option.some.inj hperform)
    exact ⟨rfl, rfl⟩
  · rw [hout] at hperform
    obtain ⟨rfl, rfl⟩ := Prod.mk.inj (Option.some.inj hperform)
    rw [SessionLinks.resetSession_eq]
    cases hu : w.lockUser d with
    | none => exact ⟨rfl, rfl⟩
    | some u =>
      have hne : U ≠ u := fun hne => huser (hne ▸ hu)
      refine ⟨?_, rfl⟩
      rw [Option.elim_some, modifyUser_user, if_neg hne]
  · rw [hout] at hperform
    obtain ⟨w₁, ret, reports, rest, hr, hrest, rfl⟩ := perform_receivePacket hperform
    obtain ⟨rfl, rfl⟩ := Prod.mk.inj (Option.some.inj hrest)
    obtain ⟨hcred, hnone⟩ := receivePacket_other hnet huser hr
    refine ⟨hcred, List.filterMap_cons_none ?_⟩
    simp [Output.accepted, hnone]

theorem next_of_prefix (hps : Conforms k n ps) (h : us <+: ps) {header : Header}
    {body : List VByte} (hpackets : us.map Packet.delivery = packets ++ [(header, body)]) :
    header.nSeq = n + BitVec.ofNat 32 packets.length ∧ Carries k header.nCrc body := by
  obtain ⟨vs, p, rfl, hvs, hp⟩ : ∃ vs p, us = vs ++ [p] ∧ vs.map Packet.delivery = packets ∧
      p.delivery = (header, body) := by
    obtain ⟨vs, ws, rfl, hvs, hws⟩ := List.map_eq_append_iff.mp hpackets
    obtain ⟨p, rfl, hp⟩ := List.map_eq_singleton_iff.mp hws
    exact ⟨vs, p, rfl, hvs, hp⟩
  obtain ⟨rfl, rfl⟩ := Prod.mk.inj hp
  obtain ⟨tl, rfl⟩ := h
  have hi : vs.length < (vs ++ [p] ++ tl).length := by
    simp only [List.length_append, List.length_singleton]
    omega
  have hget : (vs ++ [p] ++ tl)[vs.length] = p := by simp
  rw [← hvs, List.length_map]
  refine ⟨?_, hps.carries p (by simp)⟩
  have hseq := hps.nSeq vs.length hi
  rw [hget] at hseq
  exact hseq

theorem Through.read (hnet : KeepsUser net U) (hps : Conforms k n ps) (h : Through U c k n s log)
    (hattached : Attached net U c s.world) {r : Read} (hr : (s.session c).pending = some r)
    (hlen : bs.length = r.length) (hwire : fed c log ++ bs <+: ps.flatMap Packet.encode)
    (hcomplete : complete net s now c (store (s.session c) r bs) false r.handler =
      some (t, out)) :
    Through U c k n t (log ++ .fed c bs :: out) := by
  obtain ⟨hperform, hsession⟩ := complete_eq_some hcomplete
  obtain ⟨hreading, hreset⟩ := h.follows.read_prefix hr hlen hwire (s.world.lockUser c)
  have hfollows := h.follows.read hr hlen (s.world.lockUser c)
  generalize hx : ({ store (s.session c) r bs with user := s.world.lockUser c } :
    FrameReader.Session) = x at hreading hreset hfollows hperform hsession
  have htc : t.session c = (handle true x false r.handler).1 := by
    rw [hsession, Function.update_self]
  have hstarts : ∀ o ∈ .fed c bs :: out, o.starts c = false := by
    intro o ho
    rcases List.mem_cons.mp ho with rfl | ho
    · rfl
    · exact perform_starts hperform o ho
  have hfed : fed c (log ++ .fed c bs :: out) = fed c log ++ bs := by
    rw [fed_append hstarts, List.flatMap_cons, fedTo_perform hperform, List.append_nil,
      Output.fedTo, if_pos rfl]
  have hgot : got c (log ++ .fed c bs :: out) =
      got c log ++ delivered (handle true x false r.handler).2 := by
    rw [got_append hstarts, List.filterMap_cons_none rfl, receivedOn_perform hperform]
  have haccepted : accepted U (log ++ .fed c bs :: out) = got c log ++ accepted U out := by
    rw [List.append_cons, accepted_append, accepted_concat_none rfl, h.all]
  rw [List.cons_append, ← hfed, ← hgot] at hfollows
  rcases handle_cases net x false r.handler with hquiet | hone | ⟨header, buff, q, hone⟩
  · rw [hquiet] at hperform
    obtain ⟨hworld, rfl⟩ := Prod.mk.inj (Option.some.inj hperform)
    have hnone : delivered (handle true x false r.handler).2 = [] :=
      (receivedOn_perform (hquiet now c s.world)).symm
    rw [hnone] at hgot
    refine h.extend htc hfollows hreading hgot ?_ (by rw [hworld]) (by rw [hworld]) ?_
    · rw [haccepted, h.all]
      rfl
    · rw [hworld]
      exact (BitVec.add_zero _).symm
  · exact absurd (hone ▸ List.mem_singleton_self _) hreset
  · have huser : x.user = some U := by rw [← hx]; exact hattached.user
    have hdelivered : delivered (handle true x false r.handler).2 = [(header, buff.bytes)] := by
      rw [hone]
      rfl
    rw [hdelivered] at hgot
    obtain ⟨us, rest, hus, -, -, hpackets⟩ := hfollows.split (hfed ▸ hwire)
    obtain ⟨hseq, hcarries⟩ := next_of_prefix hps hus (hpackets.symm.trans hgot)
    rw [hone, huser] at hperform
    obtain ⟨w₁, ret, reports, rest, hrecv, hrest, rfl⟩ := perform_receivePacket hperform
    obtain ⟨rfl, rfl⟩ := Prod.mk.inj (Option.some.inj hrest)
    obtain ⟨hcred, haccept⟩ := receivePacket_attached hnet hattached h.key h.table
      (hseq.trans h.counter.symm) hcarries hrecv
    simp only [VUser.credentials, advanced, Prod.mk.injEq] at hcred
    obtain ⟨hkey, hnext, htable, -⟩ := hcred
    refine h.extend htc hfollows hreading hgot ?_ hkey htable hnext
    rw [haccepted, h.all]
    exact congrArg _ (List.filterMap_cons_some (by simp [Output.accepted, haccept]))

theorem Through.step (hnet : KeepsUser net U) (hps : Conforms k n ps) (h : Through U c k n s log)
    (hattached : Attached net U c s.world) {e : Event} (he : e.Spares U c)
    (hs : step net s e = some (t, out)) (hwire : fed c (log ++ out) <+: ps.flatMap Packet.encode) :
    Through U c k n t (log ++ out) := by
  cases e with
  | start d =>
    simp only [Inbound.step] at hs
    split_ifs at hs
    obtain ⟨rfl, rfl⟩ := Prod.mk.inj (Option.some.inj hs)
    refine h.other (Function.update_of_ne (Ne.symm he) ..) rfl (fun o ho => ?_) rfl rfl rfl
    rw [List.mem_singleton.mp ho]
    exact beq_false_of_ne he
  | read now d bs =>
    obtain ⟨r, outs, hr, hlen, hcomplete, rfl⟩ := read_cases hs
    obtain ⟨hperform, hsession⟩ := complete_eq_some hcomplete
    have hstarts (c : VSessionRef) : ∀ o ∈ .fed d bs :: outs, o.starts c = false := by
      intro o ho
      rcases List.mem_cons.mp ho with rfl | ho
      · rfl
      · exact perform_starts hperform o ho
    by_cases hd : d = c
    · subst hd
      refine h.read hnet hps hattached hr hlen ?_ hcomplete
      rwa [fed_append (hstarts d), List.flatMap_cons, fedTo_perform hperform, List.append_nil,
        Output.fedTo, if_pos rfl] at hwire
    · obtain ⟨hcred, hnone⟩ := perform_other hnet hattached hd hperform
      have hsession : t.session c = s.session c := by
        rw [hsession, Function.update_of_ne (Ne.symm hd)]
      refine h.other hsession hcred (hstarts c) ?_ ?_ ?_
      · rw [List.flatMap_cons, fedTo_perform hperform, Output.fedTo, if_neg hd]
        rfl
      · rw [List.filterMap_cons_none rfl, receivedOn_perform_of_ne hd hperform]
      · exact (List.filterMap_cons_none rfl).trans hnone
  | abort now d =>
    obtain ⟨r, -, hcomplete⟩ := Option.bind_eq_some_iff.mp hs
    obtain ⟨hperform, hsession⟩ := complete_eq_some hcomplete
    obtain ⟨hcred, hnone⟩ := perform_other hnet hattached he hperform
    have hsession : t.session c = s.session c := by
      rw [hsession, Function.update_of_ne (Ne.symm he)]
    exact h.other hsession hcred (perform_starts hperform) (fedTo_perform hperform)
      (receivedOn_perform_of_ne he hperform) hnone
  | closeSession u =>
    obtain ⟨rfl, rfl⟩ := Prod.mk.inj (Option.some.inj hs)
    have hcred : ((s.world.modifyUser u VChatUser.closeSession).user U).credentials =
        (s.world.user U).credentials := by rw [modifyUser_user, if_neg (Ne.symm he)]
    exact h.other rfl hcred (fun o ho => absurd ho List.not_mem_nil) rfl rfl rfl
  | outside f =>
    obtain ⟨rfl, rfl⟩ := Prod.mk.inj (Option.some.inj hs)
    exact h.other rfl (he s.world) (fun o ho => absurd ho List.not_mem_nil) rfl rfl rfl

theorem Event.Spares.ne_start {e : Event} (h : e.Spares U c) : e ≠ .start c := by
  rintro rfl
  exact h rfl

theorem fed_prefix_of_exec {es : List Event} (hspares : ∀ e ∈ es, e.Spares U c)
    (h : exec (traced (step net)) (s, log) es = some (t, out)) : fed c log <+: fed c out := by
  refine exec_induction (P := fun es x => (∀ e ∈ es, e.Spares U c) → fed c log <+: fed c x.2)
    (fun _ => List.prefix_rfl) (fun es x e y ih hstep hspares => ?_) h hspares
  obtain ⟨out, hstep, hlog⟩ := traced_eq_some.mp hstep
  rw [hlog, fed_append (starts_of_step hstep (hspares e (by simp)).ne_start)]
  exact (ih fun e he => hspares e (List.mem_append_left _ he)).trans (List.prefix_append _ _)

theorem Through.exec (hnet : KeepsUser net U) (hps : Conforms k n ps) {es : List Event}
    (hspares : ∀ e ∈ es, e.Spares U c) {log' : List Output}
    (hattached : Along (traced (Inbound.step net)) (fun x _ _ => Attached net U c x.1.world)
      (s, log) es)
    (hrun : Transition.exec (traced (Inbound.step net)) (s, log) es = some (t, log'))
    (hwire : fed c log' <+: ps.flatMap Packet.encode) (h : Through U c k n s log) :
    Through U c k n t log' := by
  induction es generalizing s log with
  | nil =>
    obtain ⟨rfl, rfl⟩ := Prod.mk.inj (Option.some.inj hrun)
    exact h
  | cons e es ih =>
    obtain ⟨⟨u, log₁⟩, hu, hrest⟩ := exec_cons_eq_some.mp hrun
    obtain ⟨hnow, hattached⟩ := hattached _ hu
    obtain ⟨out, hstep, rfl⟩ := traced_eq_some.mp hu
    have hspares' : ∀ e ∈ es, e.Spares U c := fun e he => hspares e (List.mem_cons_of_mem _ he)
    have hthrough := h.step hnet hps hnow (hspares e List.mem_cons_self) hstep
      ((fed_prefix_of_exec hspares' hrest).trans hwire)
    exact ih hspares' hattached hrest hthrough

theorem Through.whole (h : Through U c k n s log)
    (hwire : fed c log <+: ps.flatMap Packet.encode) :
    ∃ (us : List Packet) (rest : List VByte), us <+: ps ∧
      fed c log = us.flatMap Packet.encode ++ rest ∧ Stops rest ∧
      got c log = us.map Packet.delivery ∧ accepted U log = us.map Packet.delivery ∧
      (fed c log = ps.flatMap Packet.encode → us = ps) := by
  obtain ⟨us, rest, ⟨tl, rfl⟩, hfed, hstop, hpackets⟩ := h.follows.split hwire
  refine ⟨us, rest, List.prefix_append us tl, hfed, hstop, hpackets, h.all.trans hpackets,
    fun hall => ?_⟩
  -- the rest is of packets that are whole, so there are none
  have hrest : rest = tl.flatMap Packet.encode := by
    rw [hfed, List.flatMap_append] at hall
    exact List.append_cancel_left hall
  cases tl with
  | nil => exact (List.append_nil us).symm
  | cons p tl => exact absurd (hrest ▸ hstop) (not_stops_encode p _)

/-- A client that sends whole packets with the right numbers and checksums, while it stays attached
to its user: what has been read of it so far is whole packets and less than one, each of the whole
ones has been accepted in its turn, and the session goes on reading. -/
theorem attached_delivers (hnet : KeepsUser net U) {es : List Event}
    (hreading : (s.session c).pending = some headerRead) (hkey : (s.world.user U).nKey = k)
    (htable : (s.world.user U).crcTable = crcTable k) (hcounter : (s.world.user U).nSeq = n)
    (hps : Conforms k n ps) (hspares : ∀ e ∈ es, e.Spares U c)
    (hattached : Along (traced (step net)) (fun x _ _ => Attached net U c x.1.world) (s, []) es)
    (h : exec (traced (step net)) (s, []) es = some (t, log))
    (hwire : fed c log <+: ps.flatMap Packet.encode) :
    (∃ (us : List Packet) (rest : List VByte), us <+: ps ∧
        fed c log = us.flatMap Packet.encode ++ rest ∧ Stops rest ∧
        got c log = us.map Packet.delivery ∧ accepted U log = us.map Packet.delivery) ∧
      (fed c log = ps.flatMap Packet.encode → accepted U log = ps.map Packet.delivery) ∧
      (t.session c).pending.isSome := by
  have h₀ : Through U c k n s [] := {
    follows := .header [] hreading
    reading := by rw [hreading]; rfl
    all := rfl
    key := hkey
    table := htable
    counter := by rw [hcounter]; exact (BitVec.add_zero n).symm }
  have hthrough := h₀.exec hnet hps hspares hattached h hwire
  obtain ⟨us, rest, hus, hfed, hstop, hgot, haccepted, hlast⟩ := hthrough.whole hwire
  refine ⟨⟨us, rest, hus, hfed, hstop, hgot, haccepted⟩, fun hall => ?_, hthrough.reading⟩
  rw [haccepted, hlast hall]

theorem attached_of_eq {w : World} (huserOf : w.userOf = Server.loggedIn.world.userOf)
    (hheld : w.held = Server.loggedIn.world.held) (hsession : w.getSession 0 = some 0) :
    Attached .silent 0 0 w := by
  have halive : w.userAlive 0 = true := by
    rw [userAlive, hheld]
    rfl
  refine ⟨?_, hsession, fun d hd => ?_, rfl⟩
  · rw [lockUser, huserOf]
    exact Option.filter_eq_some_iff.mpr ⟨rfl, halive⟩
  · obtain ⟨hd, -⟩ := SessionLinks.lockUser_eq_some.mp hd
    rw [huserOf] at hd
    by_contra hne
    rw [show Server.loggedIn.world.userOf d = none from if_neg hne] at hd
    cases hd

/-- Two chat packets, while another connection is started and sends what is no packet. -/
theorem attached_delivers_two :
    let s₀ : Server := { Server.loggedIn with session := fun c =>
      { Server.loggedIn.session c with pending := if c = 0 then some headerRead else none } }
    let ps : List Packet := [⟨0, 0, 2, [], by decide⟩, ⟨0, 1, 2, [], by decide⟩]
    ∃ s log, exec (traced (step .silent)) (s₀, []) [.read none 0 (Header.encode ⟨0, 0, 0, 2⟩),
        .start 1, .read none 1 [0], .read none 0 (Header.encode ⟨0, 0, 1, 2⟩)] = some (s, log) ∧
      accepted 0 log = ps.map Packet.delivery := by
  intro s₀ ps
  have hnet : KeepsUser .silent 0 := ⟨by intros; rfl, by intros; rfl, by intros; rfl⟩
  have hps : Conforms 9 0 ps := by
    constructor
    · intro i hi
      match i, hi with
      | 0, _ => rfl
      | 1, _ => rfl
    · intro p hp
      rcases List.mem_pair.mp hp with rfl | rfl
      · exact .inl rfl
      · exact .inl rfl
  obtain ⟨s, log, h, hfed⟩ : ∃ s log, exec (traced (step .silent)) (s₀, [])
      [.read none 0 (Header.encode ⟨0, 0, 0, 2⟩), .start 1, .read none 1 [0],
        .read none 0 (Header.encode ⟨0, 0, 1, 2⟩)] = some (s, log) ∧
      fed 0 log = ps.flatMap Packet.encode := ⟨_, _, rfl, rfl⟩
  have hattached : Along (traced (step .silent)) (fun x _ _ => Attached .silent 0 0 x.1.world)
      (s₀, []) [.read none 0 (Header.encode ⟨0, 0, 0, 2⟩), .start 1, .read none 1 [0],
        .read none 0 (Header.encode ⟨0, 0, 1, 2⟩)] := by
    refine .cons rfl (attached_of_eq rfl rfl rfl) ?_
    refine .cons rfl (attached_of_eq rfl rfl rfl) ?_
    refine .cons rfl (attached_of_eq rfl rfl rfl) ?_
    exact .cons rfl (attached_of_eq rfl rfl rfl) trivial
  obtain ⟨-, hall, -⟩ := attached_delivers hnet rfl rfl rfl rfl hps (by simp [Event.Spares])
    hattached h (hfed ▸ List.prefix_rfl)
  exact ⟨s, log, h, hall hfed⟩

end VChat.Inbound
