import VChat.Chat.Broadcast
import VChat.Chat.Handed

/-! From what comes in over one connection to what goes out over the others: the packets that the
sessions read are those that the handlers handle. -/

namespace VChat.Relay
open Transition World Dispatch Company NetWork

structure Server extends Broadcast.Server where
  session : VSessionRef → FrameReader.Session

/-- `broadcast` is what happens besides reading: users come and go, and packets go out. -/
inductive Event where
  | inbound (e : Inbound.Event)
  | broadcast (e : Broadcast.Event)

abbrev Output := Inbound.Output ⊕ Broadcast.Output

def Server.reading (s : Server) : Inbound.Server := ⟨s.world, s.session⟩

def handlerOf : Inbound.Event → Option VSessionRef
  | .read _ c _ => some c
  | .abort _ c => some c
  | _ => none

variable (net : Network) (w : Nat) (pl : Platform) (code : S2CPacket → VUInt16)

/-- A read completes when all that the last packet of the connection caused has been sent. The
handlers get no packets but those that are read. -/
def step (s : Server) : Event → Option (Server × List Output)
  | .inbound e =>
    if (handlerOf e).all fun c => (s.unsent c).isEmpty then
      (Inbound.step net s.reading e).map fun r =>
        let unsent := (handlerOf e).elim s.unsent fun c =>
          Function.update s.unsent c ((reports r.2).filterMap sentIn)
        (⟨⟨r.1.world, s.net, unsent⟩, r.1.session⟩, r.2.map .inl)
    else none
  | .broadcast (.handle _ (.packet ..)) => none
  | .broadcast e =>
    (Broadcast.step net.types net.services w pl code s.toServer e).map fun r =>
      ({ s with toServer := r.1 }, r.2.map .inr)

def inLog (log : List Output) : List Inbound.Output := log.filterMap Sum.getLeft?

def outLog (log : List Output) : List Broadcast.Output := log.filterMap Sum.getRight?

def Handed.account (now : VTime) (s : World) (p : Handed) : Nat × World × Company.Event :=
  (p.conn, p.checked s, p.event now)

def accountOf (s : World) : Event → List Output → Broadcast.Account
  | .inbound (.read now _ _), out => (handed (inLog out)).map (Handed.account now s)
  | .inbound _, _ => []
  | .broadcast e, _ => Broadcast.saidBy s e

def account (s : Server) : List Event → Broadcast.Account
  | [] => []
  | e :: es =>
    match step net w pl code s e with
    | some (t, out) => accountOf s.world e out ++ account t es
    | none => []

variable {net w pl code} {s t : Server} {out : List Output}

theorem exists_stays {x x' : World} (h : Stays x x') :
    ∃ f : World → World, f x = x' ∧ ∀ y, Stays y (f y) := by
  classical
  refine ⟨fun y => if y = x then x' else y, if_pos rfl, fun y => ?_⟩
  show Stays y (if y = x then x' else y)
  split_ifs with hy
  · rw [hy]
    exact h
  · exact Stays.refl y

theorem inLog_inl (outs : List Inbound.Output) : inLog (outs.map .inl) = outs := by
  rw [inLog, List.filterMap_map]
  exact List.filterMap_some

theorem outLog_inl (outs : List Inbound.Output) : outLog (outs.map .inl) = [] := by
  rw [outLog, List.filterMap_map]
  exact List.filterMap_eq_nil_iff.mpr fun _ _ => rfl

theorem inLog_inr (outs : List Broadcast.Output) : inLog (outs.map .inr) = [] := by
  rw [inLog, List.filterMap_map]
  exact List.filterMap_eq_nil_iff.mpr fun _ _ => rfl

theorem outLog_inr (outs : List Broadcast.Output) : outLog (outs.map .inr) = outs := by
  rw [outLog, List.filterMap_map]
  exact List.filterMap_some

theorem accountOf_inbound {outs : List Inbound.Output} (h : handed outs = []) (e : Inbound.Event) :
    accountOf s.world (.inbound e) (outs.map .inl) = [] := by
  cases e with
  | read now c bs =>
    rw [accountOf, inLog_inl, h]
    rfl
  | _ => rfl

/-- What is done outside moves nobody. -/
def Event.Keeps : Event → Prop
  | .inbound (.outside f) => ∀ w, Stays w (f w)
  | .inbound _ => True
  | .broadcast e => e.Keeps

theorem Event.Keeps.outside {e : Inbound.Event} (h : (Event.inbound e).Keeps) :
    ∀ f, e = .outside f → ∀ w, Stays w (f w) := by
  rintro f rfl
  exact h

variable {e : Event}

theorem inbound_cases {e : Inbound.Event} (h : step net w pl code s (.inbound e) = some (t, out)) :
    ∃ outs, (∀ c ∈ handlerOf e, s.unsent c = []) ∧
      Inbound.step net s.reading e = some (t.reading, outs) ∧ t.net = s.net ∧
      t.unsent = (handlerOf e).elim s.unsent (fun c =>
        Function.update s.unsent c ((reports outs).filterMap sentIn)) ∧ out = outs.map .inl := by
  simp only [step] at h
  split_ifs at h with hready
  obtain ⟨⟨r, outs⟩, hr, heq⟩ := Option.map_eq_some_iff.mp h
  obtain ⟨rfl, rfl⟩ := Prod.mk.inj heq
  refine ⟨outs, fun c hc => ?_, hr, rfl, rfl, rfl⟩
  rw [Option.mem_def.mp hc] at hready
  exact List.isEmpty_iff.mp hready

theorem broadcast_cases {e : Broadcast.Event}
    (h : step net w pl code s (.broadcast e) = some (t, out)) :
    (∀ i now u header body, e ≠ .handle i (.packet now u header body)) ∧ ∃ outs,
      Broadcast.step net.types net.services w pl code s.toServer e = some (t.toServer, outs) ∧
        t.session = s.session ∧ out = outs.map .inr := by
  unfold step at h
  split at h
  · rename_i heq
    cases heq
  · cases h
  · rename_i e' hne heq
    cases heq
    obtain ⟨⟨r, outs⟩, hr, heq⟩ := Option.map_eq_some_iff.mp h
    obtain ⟨rfl, rfl⟩ := Prod.mk.inj heq
    exact ⟨hne, outs, hr, rfl, rfl⟩

def Owns (v : VChatUserRef) (c : Nat) (s : Server) : Event → Prop
  | .inbound _ => True
  | .broadcast e => Broadcast.Owns v c s.toServer e

structure Mirrors (net : Network) (w : Nat) (pl : Platform) (code : S2CPacket → VUInt16)
    (v : VChatUserRef) (c : Nat) (s : Server) (e : Event) (t : Server) (out : List Output)
    (es : List Broadcast.Event) : Prop where
  run : exec (traced (Broadcast.step net.types net.services w pl code)) (s.toServer, []) es =
    some (t.toServer, outLog out)
  keeps : ∀ e' ∈ es, e'.Keeps
  net_mem : ∀ e', .net e' ∈ es → e = .broadcast (.net e')
  said : Broadcast.said net.types net.services w pl code s.toServer es = accountOf s.world e out
  owns : Owns v c s e →
    Along (fun s e => (Broadcast.step net.types net.services w pl code s e).map Prod.fst)
      (fun s e _ => Broadcast.Owns v c s e) s.toServer es

variable {v : VChatUserRef} {c : Nat}

theorem mirrors_stays {e : Inbound.Event} (hstays : Stays s.world t.world) (hnet : t.net = s.net)
    (hunsent : t.unsent = s.unsent) (hout : outLog out = [])
    (haccount : accountOf s.world (.inbound e) out = []) :
    ∃ es, Mirrors net w pl code v c s (.inbound e) t out es := by
  obtain ⟨f, hf, hkeeps⟩ := exists_stays hstays
  have ht : t.toServer = ⟨f s.world, s.net, s.unsent⟩ := by
    rw [hf, ← hnet, ← hunsent]
  refine ⟨[.outside f], ?_, List.forall_mem_singleton.mpr hkeeps, ?_, ?_, fun _ => ?_⟩
  · rw [hout, ht]
    rfl
  · simp
  · rw [haccount]
    rfl
  · exact fun t ht => ⟨trivial, trivial⟩

theorem mirrors_handles {e : Inbound.Event} {p : Handed} {now : VTime} {sent : List Sent}
    (hdone : s.unsent p.conn = [])
    (hhandle : Company.step net.types net.services (p.checked s.world) (p.event now) =
      some (t.world, sent))
    (hnet : t.net = s.net) (hunsent : t.unsent = Function.update s.unsent p.conn sent)
    (hout : outLog out = []) (haccount : accountOf s.world (.inbound e) out =
      [p.account now s.world]) :
    ∃ es, Mirrors net w pl code v c s (.inbound e) t out es := by
  obtain ⟨f, hf, hkeeps⟩ := exists_stays
    (stays_checkSecurity s.world p.user p.header.nCrc p.header.nSeq p.body)
  have hchecked : Broadcast.step net.types net.services w pl code s.toServer (.outside f) =
      some (⟨p.checked s.world, s.net, s.unsent⟩, []) := by
    rw [Handed.checked, ← hf]
    rfl
  have ht : t.toServer = ⟨t.world, s.net, Function.update s.unsent p.conn sent⟩ := by
    rw [← hnet, ← hunsent]
  have hhandled : Broadcast.step net.types net.services w pl code
      ⟨p.checked s.world, s.net, s.unsent⟩ (.handle p.conn (p.event now)) =
        some (t.toServer, []) := by
    rw [Broadcast.step, if_pos hdone, hhandle, ht]
    rfl
  refine ⟨[.outside f, .handle p.conn (p.event now)], ?_, ?_, ?_, ?_, fun _ => ?_⟩
  · rw [hout]
    refine exec_traced_cons.mpr ⟨_, _, [], hchecked, ?_, rfl⟩
    exact exec_traced_cons.mpr ⟨_, _, [], hhandled, rfl, rfl⟩
  · exact List.forall_mem_cons.mpr ⟨hkeeps, List.forall_mem_singleton.mpr trivial⟩
  · simp
  · rw [Broadcast.said_cons hchecked, Broadcast.said_cons hhandled, haccount]
    rfl
  · exact fun u hu => ⟨trivial, fun u' hu' => ⟨trivial, trivial⟩⟩

/-- Reading is, to those who send, something that moves nobody and perhaps a packet handled. -/
theorem step_mirrors (hquiet : Quiet net) (hkeep : e.Keeps)
    (h : step net w pl code s e = some (t, out)) (v : VChatUserRef) (c : Nat) :
    ∃ es, Mirrors net w pl code v c s e t out es := by
  cases e with
  | broadcast e =>
    obtain ⟨-, outs, hstep, -, rfl⟩ := broadcast_cases h
    refine ⟨[e], ?_, List.forall_mem_singleton.mpr hkeep, fun e' he' => ?_, ?_, fun howns => ?_⟩
    · rw [outLog_inr]
      exact exec_traced_cons.mpr ⟨_, _, [], hstep, rfl, (List.append_nil outs).symm⟩
    · rw [List.mem_singleton.mp he']
    · rw [Broadcast.said_cons hstep]
      exact List.append_nil _
    · exact fun t ht => ⟨howns, trivial⟩
  | inbound e =>
    obtain ⟨outs, hdone, hstep, hnet, hunsent, rfl⟩ := inbound_cases h
    have hsame (hnothing : (reports outs).filterMap sentIn = []) : t.unsent = s.unsent := by
      rw [hunsent, hnothing]
      cases hc : handlerOf e with
      | none => rfl
      | some c => rw [Option.elim_some, ← hdone c hc, Function.update_eq_self]
    rcases inbound_handles hquiet hkeep.outside hstep with
      ⟨hstays, hnone, hnothing⟩ | ⟨now, d, bs, rfl, ⟨hstays, hnone, hnothing⟩ | ⟨p, rfl, hone, hp⟩⟩
    · exact mirrors_stays hstays hnet (hsame hnothing) (outLog_inl outs)
        (accountOf_inbound hnone e)
    · exact mirrors_stays hstays hnet (hsame hnothing) (outLog_inl outs)
        (accountOf_inbound hnone _)
    · refine mirrors_handles (hdone p.conn rfl) hp hnet hunsent (outLog_inl outs) ?_
      rw [accountOf, inLog_inl, handed, hone]
      rfl

theorem account_cons (h : step net w pl code s e = some (t, out)) (es : List Event) :
    account net w pl code s (e :: es) =
      accountOf s.world e out ++ account net w pl code t es := by
  rw [account, h]

theorem run_broadcast (hquiet : Quiet net) {es : List Event} (hkeep : ∀ e ∈ es, e.Keeps)
    (h : exec (traced (step net w pl code)) (s, []) es = some (t, out)) (v : VChatUserRef)
    (c : Nat) :
    ∃ bs, exec (traced (Broadcast.step net.types net.services w pl code)) (s.toServer, []) bs =
        some (t.toServer, outLog out) ∧
      (∀ e ∈ bs, e.Keeps) ∧ (∀ e, .net e ∈ bs → .broadcast (.net e) ∈ es) ∧
      Broadcast.said net.types net.services w pl code s.toServer bs =
        account net w pl code s es ∧
      (Along (fun s e => (step net w pl code s e).map Prod.fst) (fun s e _ => Owns v c s e) s es →
        Along (fun s e => (Broadcast.step net.types net.services w pl code s e).map Prod.fst)
          (fun s e _ => Broadcast.Owns v c s e) s.toServer bs) := by
  induction es generalizing s out with
  | nil =>
    obtain ⟨rfl, rfl⟩ := Prod.mk.inj (Option.some.inj h)
    exact ⟨[], rfl, fun _ he => absurd he List.not_mem_nil, fun _ he => absurd he List.not_mem_nil,
      rfl, fun _ => trivial⟩
  | cons e es ih =>
    obtain ⟨u, first, rest, hstep, hrest, rfl⟩ := exec_traced_cons.mp h
    obtain ⟨hnow, hlater⟩ := List.forall_mem_cons.mp hkeep
    obtain ⟨as, has⟩ := step_mirrors hquiet hnow hstep v c
    obtain ⟨bs, hbs, hkeeps, hnet, hsaid, howns⟩ := ih hlater hrest
    refine ⟨as ++ bs, ?_, ?_, fun e' he' => ?_, ?_, fun hall => ?_⟩
    · refine (exec_append_eq_some _ _).mpr ⟨_, has.run, exec_traced.mpr ⟨_, hbs, ?_⟩⟩
      exact List.filterMap_append
    · intro e' he'
      exact (List.mem_append.mp he').elim (has.keeps e') (hkeeps e')
    · rcases List.mem_append.mp he' with he' | he'
      · exact List.mem_cons.mpr (.inl (has.net_mem e' he').symm)
      · exact List.mem_cons_of_mem _ (hnet e' he')
    · rw [Broadcast.said_append has.run, has.said, hsaid, account_cons hstep]
    · obtain ⟨hfirst, hall⟩ := hall u (Option.map_eq_some_iff.mpr ⟨_, hstep, rfl⟩)
      refine along_append.mpr ⟨has.owns hfirst, fun y hy => ?_⟩
      obtain rfl := Option.some.inj ((exec_untraced has.run).symm.trans hy)
      exact howns hall

def toInbound (net : Network) : Event → Inbound.Event
  | .inbound e => e
  | .broadcast (.handle _ e) =>
    .outside fun x => ((Company.step net.types net.services x e).map Prod.fst).getD x
  | .broadcast (.outside f) => .outside f
  | .broadcast _ => .outside id

theorem step_reading (h : step net w pl code s e = some (t, out)) :
    Inbound.step net s.reading (toInbound net e) = some (t.reading, inLog out) := by
  cases e with
  | inbound e =>
    obtain ⟨outs, -, hstep, -, -, rfl⟩ := inbound_cases h
    rw [inLog_inl]
    exact hstep
  | broadcast e =>
    obtain ⟨-, outs, hstep, hsession, rfl⟩ := broadcast_cases h
    rw [inLog_inr]
    have hreading (x : World) (hx : t.world = x) :
        some ((⟨x, s.session⟩ : Inbound.Server), ([] : List Inbound.Output)) =
          some (t.reading, []) := by
      rw [← hx, ← hsession]
      rfl
    cases e with
    | handle i e =>
      obtain ⟨sent, -, hhandled, -⟩ := Broadcast.handle_cases hstep
      refine hreading _ ?_
      show t.world = ((Company.step net.types net.services s.world e).map Prod.fst).getD s.world
      rw [hhandled]
      rfl
    | outside f =>
      obtain ⟨ht, -⟩ := Prod.mk.inj (Option.some.inj hstep)
      exact hreading _ (congrArg Broadcast.Server.world ht).symm
    | sendBuffer i k nCrc nSeq =>
      obtain ⟨p, ps, -, hworld, -⟩ := Broadcast.sendBuffer_cases hstep
      exact hreading _ hworld
    | net e =>
      obtain ⟨r, -, heq⟩ := Option.map_eq_some_iff.mp hstep
      exact hreading _ (congrArg (fun y => y.1.world) heq).symm

/-- For those who read, a run is one in which the rest of the server acts in between. -/
theorem run_reading {es : List Event}
    (h : exec (traced (step net w pl code)) (s, []) es = some (t, out)) {P : World → Prop}
    (hP : Along (fun s e => (step net w pl code s e).map Prod.fst) (fun s _ _ => P s.world) s es) :
    exec (traced (Inbound.step net)) (s.reading, []) (es.map (toInbound net)) =
        some (t.reading, inLog out) ∧
      Along (fun s e => (Inbound.step net s e).map Prod.fst) (fun s _ _ => P s.world) s.reading
        (es.map (toInbound net)) := by
  induction es generalizing s out with
  | nil =>
    obtain ⟨rfl, rfl⟩ := Prod.mk.inj (Option.some.inj h)
    exact ⟨rfl, trivial⟩
  | cons e es ih =>
    obtain ⟨u, first, rest, hstep, hrest, rfl⟩ := exec_traced_cons.mp h
    obtain ⟨hnow, hlater⟩ := hP u (Option.map_eq_some_iff.mpr ⟨_, hstep, rfl⟩)
    obtain ⟨hrun, hall⟩ := ih hrest hlater
    have hread := step_reading hstep
    refine ⟨exec_traced_cons.mpr ⟨_, _, _, hread, hrun, List.filterMap_append⟩, ?_⟩
    exact .cons (Option.map_eq_some_iff.mpr ⟨_, hread, rfl⟩) hnow hall

def packetOf (a : VSessionRef) : Nat × World × Company.Event → Option (Header × List VByte)
  | (i, _, .packet _ _ header body) => if i = a then some (header, body.bytes) else none
  | _ => none

def packetsOf (a : VSessionRef) (xs : Broadcast.Account) : List (Header × List VByte) :=
  xs.filterMap (packetOf a)

theorem packetsOf_accountOf (hquiet : Quiet net) (hkeep : e.Keeps)
    (h : step net w pl code s e = some (t, out)) (a : VSessionRef) :
    packetsOf a (accountOf s.world e out) = handedOn a (handed (inLog out)) := by
  cases e with
  | broadcast e =>
    obtain ⟨hne, outs, -, -, rfl⟩ := broadcast_cases h
    rw [inLog_inr]
    cases e with
    | handle i e =>
      cases e with
      | packet now u header body => exact absurd rfl (hne i now u header body)
      | _ => rfl
    | _ => rfl
  | inbound e =>
    obtain ⟨outs, -, hstep, -, -, rfl⟩ := inbound_cases h
    rw [inLog_inl]
    rcases inbound_handles hquiet hkeep.outside hstep with ⟨-, hnone, -⟩ | ⟨now, d, bs, rfl, -⟩
    · rw [hnone, accountOf_inbound hnone]
      rfl
    · rw [accountOf, inLog_inl, packetsOf, List.filterMap_map]
      rfl

variable {U : VChatUserRef} {a : VSessionRef}

theorem run_forChat (hnet : KeepsUser net U) (hquiet : Quiet net) {es : List Event}
    (hkeep : ∀ e ∈ es, e.Keeps) (h : exec (traced (step net w pl code)) (s, []) es = some (t, out))
    (hattached : Along (fun s e => (step net w pl code s e).map Prod.fst)
      (fun s _ _ => Inbound.Attached net U a s.world) s es) :
    packetsOf a (account net w pl code s es) =
      (Inbound.accepted U (inLog out)).filter (forChat net) := by
  induction es generalizing s out with
  | nil =>
    obtain ⟨-, rfl⟩ := Prod.mk.inj (Option.some.inj h)
    rfl
  | cons e es ih =>
    obtain ⟨u, first, rest, hstep, hrest, rfl⟩ := exec_traced_cons.mp h
    obtain ⟨hnow, hlater⟩ := List.forall_mem_cons.mp hkeep
    obtain ⟨hhere, hthere⟩ := hattached u (Option.map_eq_some_iff.mpr ⟨_, hstep, rfl⟩)
    have hlog : inLog (first ++ rest) = inLog first ++ inLog rest := List.filterMap_append
    have hfirst : handedOn a (handed (inLog first)) =
        (Inbound.accepted U (inLog first)).filter (forChat net) :=
      inbound_forChat hnet hquiet hhere (step_reading hstep)
    have ih := ih hlater hrest hthere
    rw [account_cons hstep, packetsOf, List.filterMap_append, ← packetsOf, ← packetsOf,
      packetsOf_accountOf hquiet hnow hstep, hfirst, ih, hlog, Inbound.accepted_append,
      List.filter_append]

/-- Nothing but its packets changes what the user of `a` is recognised by. -/
def Event.Spares (U : VChatUserRef) (a : VSessionRef) : Event → Prop
  | .inbound e => e.Spares U a
  | .broadcast (.outside f) => ∀ w, ((f w).user U).credentials = (w.user U).credentials
  | .broadcast (.handle _ (.outside f)) => ∀ w, ((f w).user U).credentials = (w.user U).credentials
  | .broadcast _ => True

theorem spares_toInbound (h : e.Spares U a) : (toInbound net e).Spares U a := by
  match e, h with
  | .inbound _, h => exact h
  | .broadcast (.outside _), h => exact h
  | .broadcast (.handle _ (.outside _)), h => exact h
  | .broadcast (.handle _ (.packet now usr header body)), _ =>
    intro x
    simp only [Company.step]
    cases hprocessed : processPacket net.types net.services now x usr header body with
    | none => rfl
    | some r => exact keepsCredentials_processPacket _ _ hprocessed U
  | .broadcast (.handle _ (.joinRoom usr nRoomID nRoomMode)), _ =>
    exact fun x => keepsCredentials_joinRoom x usr nRoomID nRoomMode U
  | .broadcast (.handle _ (.removeUsr r usr)), _ =>
    intro x
    simp only [Company.step]
    split_ifs
    · exact keepsCredentials_removeUsr x r usr U
    · rfl
  | .broadcast (.handle _ (.removeRoom _)), _ => exact fun _ => rfl
  | .broadcast (.sendBuffer ..), _ => exact fun _ => rfl
  | .broadcast (.net _), _ => exact fun _ => rfl

def Server.opened (world : World) (session : VSessionRef → FrameReader.Session) (pl : Platform)
    (uninit : Nat → VPointer) (heap : Heap) : Server := ⟨.opened world pl uninit heap, session⟩

/-- From one client to another: while a client that keeps to the protocol stays attached to its
user `U`, the handler of its connection gets exactly the chat packets among those that it has sent
as a whole, each once and in order; and while another session is `v`'s, what `v` hears of them goes
out over it, once and in order, up to what the handler has still to send. -/
theorem relay_run (hw : 32 ≤ w) (hnet : KeepsUser net U) (hquiet : Quiet net) {x₀ : World}
    (h₀ : NoRooms x₀) {session : VSessionRef → FrameReader.Session} {uninit : Nat → VPointer}
    {heap : Heap} {es₁ es₂ : List Event} {log : List Output}
    (hfits : ∀ e, .broadcast (.net e) ∈ es₁ ++ es₂ → e.Fits) (hkeep : ∀ e ∈ es₁ ++ es₂, e.Keeps)
    (h₁ : exec (traced (step net w pl code)) (.opened x₀ session pl uninit heap, []) es₁ =
      some (s, log))
    (h₂ : exec (traced (step net w pl code)) (s, []) es₂ = some (t, out))
    {k n : VUInt32} {ps : List FrameReader.Packet}
    (hreading : (s.session a).pending = some FrameReader.headerRead)
    (hkey : (s.world.user U).nKey = k) (htable : (s.world.user U).crcTable = crcTable k)
    (hcounter : (s.world.user U).nSeq = n) (hps : Inbound.Conforms k n ps)
    (hspares : ∀ e ∈ es₂, e.Spares U a)
    (hattached : Along (fun s e => (step net w pl code s e).map Prod.fst)
      (fun s _ _ => Inbound.Attached net U a s.world) s es₂)
    (hwire : Inbound.fed a (inLog out) <+: ps.flatMap FrameReader.Packet.encode)
    {v : VChatUserRef} {c : Nat}
    (howns : Along (fun s e => (step net w pl code s e).map Prod.fst)
      (fun s e _ => Owns v c s e) s es₂)
    (hopen : .cleared c ∉ Broadcast.netLog (outLog out)) :
    (∃ (us : List FrameReader.Packet) (rest : List VByte), us <+: ps ∧
        Inbound.fed a (inLog out) = us.flatMap FrameReader.Packet.encode ++ rest ∧
        FrameReader.Stops rest ∧
        packetsOf a (account net w pl code s es₂) =
          (us.map FrameReader.Packet.delivery).filter (forChat net) ∧
        (Inbound.fed a (inLog out) = ps.flatMap FrameReader.Packet.encode → us = ps)) ∧
      ∃ fs xs, Broadcast.Reaches code v c s.toServer (outLog log) t.toServer (outLog out)
        (Broadcast.talk net.types net.services (Broadcast.moves net.types net.services
            (account net w pl code (.opened x₀ session pl uninit heap) es₁))
          (account net w pl code s es₂)) fs xs := by
  constructor
  · obtain ⟨hrun, hall⟩ := run_reading h₂ hattached
    have hthrough : Inbound.Through U a k n s.reading [] := {
      follows := .header [] hreading
      reading := by rw [show s.reading.session = s.session from rfl, hreading]; rfl
      all := rfl
      key := hkey
      table := htable
      counter := hcounter.trans (BitVec.add_zero n).symm }
    have hspares' : ∀ e ∈ es₂.map (toInbound net), e.Spares U a := by
      intro e he
      obtain ⟨e', he', rfl⟩ := List.mem_map.mp he
      exact spares_toInbound (hspares e' he')
    obtain ⟨us, rest, hus, hfed, hstop, -, haccepted, hlast⟩ :=
      (hthrough.exec hnet hps hspares' (along_traced.mpr hall) hrun hwire).whole hwire
    refine ⟨us, rest, hus, hfed, hstop, ?_, hlast⟩
    rw [run_forChat hnet hquiet (fun e he => hkeep e (List.mem_append_right _ he)) h₂ hattached,
      haccepted]
  · obtain ⟨as, has, hkeeps₁, hnet₁, hsaid₁, -⟩ :=
      run_broadcast hquiet (fun e he => hkeep e (List.mem_append_left _ he)) h₁ v c
    obtain ⟨bs, hbs, hkeeps₂, hnet₂, hsaid₂, howns₂⟩ :=
      run_broadcast hquiet (fun e he => hkeep e (List.mem_append_right _ he)) h₂ v c
    obtain ⟨cs, hcs, hfits₁⟩ :=
      Broadcast.net_run (fun e he => hfits e (List.mem_append_left _ (hnet₁ e he))) has
    have hempty : Seated (Server.opened x₀ session pl uninit heap).world [] fun _ => (0, 0) :=
      seated_noRooms h₀
    obtain ⟨key, hseated⟩ := Broadcast.seated_exec hempty hkeeps₁ has
    rw [List.append_nil, hsaid₁] at hseated
    rw [← hsaid₂]
    exact Broadcast.exists_reaches hw hseated hfits₁ hcs
      (fun e he => hfits e (List.mem_append_right _ (hnet₂ e he))) hkeeps₂ hbs (howns₂ howns) hopen

def attach (x : World) : World :=
  { x with
    user := fun u => { x.user u with
      toVUser := { (x.user u).toVUser with session := some u }.initSecretKey 0 }
    userOf := some
    alive := fun _ => true
    held := fun _ => true
    pUsers := (x.pUsers.insert 0 0).insert 1 1 }

def attachedServer : Server :=
  .opened start Inbound.Server.loggedIn.session .other (fun _ => 0) fun _ _ => 0

def masters : Network := { Network.silent with services := Broadcast.gameMasters }

def notice : FrameReader.Packet := ⟨0xffff0000, 0, 4, [97, 0], by decide⟩

def attaching : List Event :=
  [.broadcast (.outside attach), .broadcast (.net .createSession),
    .broadcast (.net .createSession), .inbound (.start 1),
    .inbound (.read none 1 [FrameReader.flowByte])]

def relaying : List Event :=
  [.inbound (.read none 1 (Header.encode notice.header)), .inbound (.read none 1 notice.body),
    .broadcast (.net (.sendPacket 7 0 0 Broadcast.notice false)),
    .broadcast (.sendBuffer 1 0 0 0), .broadcast (.sendBuffer 1 0 0 0),
    .broadcast (.net (.handleWrite 0 0 false))]

theorem attached_of_eq {x : World} (huserOf : x.userOf = some) (hheld : x.held = fun _ => true)
    (hsession : x.getSession 1 = some 1) : Inbound.Attached masters 1 1 x := by
  have halive : ∀ u, x.userAlive u = true := by
    intro u
    rw [userAlive, hheld]
    rfl
  refine ⟨?_, hsession, fun d hd => ?_, rfl⟩
  · rw [lockUser, huserOf]
    exact Option.filter_eq_some_iff.mpr ⟨rfl, halive 1⟩
  · obtain ⟨hd, -⟩ := SessionLinks.lockUser_eq_some.mp hd
    rw [huserOf] at hd
    exact Option.some.inj hd

set_option maxRecDepth 20000 in
/-- A notice that one of two users gives, of which the other's session has written its packet. -/
theorem relay_run_notice :
    ∃ s log t out, exec (traced (step masters 64 .other fun _ => 7)) (attachedServer, [])
        attaching = some (s, log) ∧
      exec (traced (step masters 64 .other fun _ => 7)) (s, []) relaying = some (t, out) ∧
      packetsOf 1 (account masters 64 .other (fun _ => 7) s relaying) = [notice.delivery] ∧
      ∃ xs : List (Option (Nat × Sent) × Outbound.Frame),
        Outbound.wroteTo 0 (Broadcast.netLog (outLog log ++ outLog out)) =
            (xs.map Prod.snd).map Outbound.Frame.encode ∧
          chatLines (Broadcast.ofHandler 1 (xs.filterMap Prod.fst)) =
            [⟨0, .s2cChatMessage, [97, 0]⟩] := by
  have h₁ : ∃ s log, exec (traced (step masters 64 .other fun _ => 7)) (attachedServer, [])
      attaching = some (s, log) := ⟨_, _, rfl⟩
  obtain ⟨s, log, h₁⟩ := h₁
  obtain ⟨hs, hlog⟩ := Prod.mk.inj (Option.some.inj h₁)
  obtain ⟨t, out, h₂, hunsent, hqueue, hout, hfed, howns, hattached⟩ : ∃ t out,
      exec (traced (step masters 64 .other fun _ => 7)) (s, []) relaying = some (t, out) ∧
      t.unsent 1 = [] ∧ t.net.queue 0 = [] ∧
      (∃ m m' m'', Broadcast.netLog (outLog out) = [.sent 0 m, .sent 1 m', .wrote 0 m'']) ∧
      Inbound.fed 1 (inLog out) = [notice].flatMap FrameReader.Packet.encode ∧
      Along (fun s e => (step masters 64 .other (fun _ => 7) s e).map Prod.fst)
        (fun s e _ => Owns 0 0 s e) s relaying ∧
      Along (fun s e => (step masters 64 .other (fun _ => 7) s e).map Prod.fst)
        (fun s _ _ => Inbound.Attached masters 1 1 s.world) s relaying := by
    subst hs
    refine ⟨_, _, rfl, ?_⟩
    refine ⟨rfl, rfl, ⟨_, _, _, rfl⟩, rfl, ?_, ?_⟩
    · have hno : ∀ u : Nat, some u = some 0 ↔ u = 0 := fun u => Option.some_inj
      refine .cons rfl trivial (.cons rfl trivial (.cons rfl trivial ?_))
      refine .cons rfl ?_ (.cons rfl ?_ (.cons rfl trivial trivial))
      · rintro (_ | _ | u) <;> exact hno _
      · rintro (_ | _ | u) <;> exact hno _
    · refine .cons rfl (attached_of_eq rfl rfl rfl) ?_
      refine .cons rfl (attached_of_eq rfl rfl rfl) ?_
      refine .cons rfl (attached_of_eq rfl rfl rfl) ?_
      refine .cons rfl (attached_of_eq rfl rfl rfl) ?_
      refine .cons rfl (attached_of_eq rfl rfl rfl) ?_
      exact .cons rfl (attached_of_eq rfl rfl rfl) trivial
  have hopen : .cleared 0 ∉ Broadcast.netLog (outLog out) := by
    obtain ⟨m, m', m'', heq⟩ := hout
    simp [heq]
  have hnet : KeepsUser masters 1 := ⟨by intros; rfl, by intros; rfl, by intros; rfl⟩
  have hquiet : Quiet masters :=
    ⟨fun _ _ _ _ _ => .refl _, fun _ _ _ _ => .refl _, fun _ _ _ _ _ _ => .refl _⟩
  have hps : Inbound.Conforms 0 0 [notice] := by
    constructor
    · intro i hi
      match i, hi with
      | 0, _ => rfl
    · intro p hp
      rw [List.mem_singleton.mp hp]
      exact .inr (by decide)
  have hfits : ∀ e, .broadcast (.net e) ∈ attaching ++ relaying → e.Fits := by
    intro e he
    simp only [attaching, relaying, List.cons_append, List.nil_append, List.mem_cons,
      Event.broadcast.injEq, Broadcast.Event.net.injEq, reduceCtorEq, List.not_mem_nil, or_false,
      false_or] at he
    rcases he with rfl | rfl | rfl | rfl
    · trivial
    · trivial
    · exact (by decide : Header.sizeofHeader + 2 ≤ 2 ^ 31)
    · trivial
  have hkeep : ∀ e ∈ attaching ++ relaying, e.Keeps := by
    intro e he
    simp only [attaching, relaying, List.cons_append, List.nil_append, List.mem_cons,
      List.not_mem_nil, or_false] at he
    rcases he with rfl | rfl | rfl | rfl | rfl | rfl | rfl | rfl | rfl | rfl | rfl
    · exact fun w => ⟨rfl, rfl, fun _ => rfl, fun _ => rfl, fun _ => rfl⟩
    all_goals trivial
  have hspares : ∀ e ∈ relaying, e.Spares 1 1 := by
    intro e he
    simp only [relaying, List.mem_cons, List.not_mem_nil, or_false] at he
    rcases he with rfl | rfl | rfl | rfl | rfl | rfl
    all_goals trivial
  obtain ⟨⟨us, rest, -, -, -, hgot, hall⟩, fs, xs, h⟩ := relay_run (by decide) hnet hquiet
    noRooms_start hfits hkeep h₁ h₂ (by rw [← hs]; rfl) (by rw [← hs]; rfl) (by rw [← hs]; rfl)
    (by rw [← hs]; rfl) hps hspares hattached (hfed ▸ List.prefix_rfl) howns hopen
  have hfs : fs = [] := by
    subst hlog
    exact List.map_eq_nil_iff.mp h.before.symm
  refine ⟨s, log, t, out, h₁, h₂, ?_, xs, ?_, ?_⟩
  · rw [hgot, hall hfed]
    rfl
  · have horder := h.wrote
    rw [hqueue, List.map_nil, List.append_nil] at horder
    rw [horder, h.sent, hfs, List.nil_append]
  · have hone := h.lines 1
    rw [hunsent] at hone
    subst hs
    exact (List.append_nil _).symm.trans hone

end VChat.Relay
