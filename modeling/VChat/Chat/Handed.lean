import VChat.Chat.Attached
import VChat.Chat.Company

/-! What the sessions hand on to the chat handlers, and what of it counts as a user's. -/

namespace VChat.Relay
open Transition World Dispatch Company NetWork

structure Handed where
  conn : VSessionRef
  user : VChatUserRef
  header : Header
  body : VConstBuffer

def handedIn : Report → Option Handed
  | .reached .chat pSession pPlayer header body => some ⟨pSession, pPlayer, header, body⟩
  | _ => none

def sentIn : Report → Option Sent
  | .did action => sentBy action
  | _ => none

def reports (out : List Inbound.Output) : List Report := out.flatMap Inbound.Output.reports

def handed (out : List Inbound.Output) : List Handed := (reports out).filterMap handedIn

def Handed.checked (p : Handed) (x : World) : World :=
  (checkSecurity x p.user p.header.nCrc p.header.nSeq p.body).1

def Handed.event (p : Handed) (now : VTime) : Company.Event := .packet now p.user p.header p.body

def handedOn (a : VSessionRef) (ps : List Handed) : List (Header × List VByte) :=
  ps.filterMap fun p => if p.conn = a then some (p.header, p.body.bytes) else none

variable (net : Network)

/-- The database, the login and the guilds move nobody themselves. -/
structure Quiet : Prop where
  database : ∀ w u nType packet nSize, Stays w (net.databaseProcessPacket w u nType packet nSize)
  login : ∀ w pSession packet nSize, Stays w (net.processLogin w pSession packet nSize)
  guild : ∀ w u nType packet nSize bFree,
    Stays w (net.guildProcessPacket w u nType packet nSize bFree)

def forChat (p : Header × List VByte) : Bool :=
  (p.1.nType.toNat : Int) > net.types.c2sGsUnknown ∧ (p.1.nType.toNat : Int) < net.types.c2sGsCount

def Handles (now : VTime) (c : VSessionRef) (x x' : World) (rs : List Report) : Prop :=
  (Stays x x' ∧ rs.filterMap handedIn = [] ∧ rs.filterMap sentIn = []) ∨
    ∃ p : Handed, p.conn = c ∧ rs.filterMap handedIn = [p] ∧
      Company.step net.types net.services (p.checked x) (p.event now) =
        some (x', rs.filterMap sentIn)

variable {net} {now : VTime} {c : VSessionRef}

theorem stays_checkSecurity (w : World) (u : VChatUserRef) (nCRC nSeq : VUInt32)
    (buff : VConstBuffer) : Stays w (checkSecurity w u nCRC nSeq buff).1 := by
  rcases checkSecurity_cases w u nCRC nSeq buff with h | ⟨h, -, -⟩
  · rw [h]
    exact stays_modifyUser w u rfl
  · rw [h]
    exact stays_modifyUser w u rfl

theorem stays_resetSession (w : World) (c : VSessionRef) : Stays w (w.resetSession c) := by
  rw [SessionLinks.resetSession_eq]
  cases w.lockUser c with
  | none => exact Stays.refl w
  | some u => exact stays_modifyUser w u rfl

theorem handedIn_did (actions : List Action) : (actions.map .did).filterMap handedIn = [] := by
  rw [List.filterMap_map]
  exact List.filterMap_eq_nil_iff.mpr fun _ _ => rfl

theorem sentIn_did (actions : List Action) :
    (actions.map .did).filterMap sentIn = actions.filterMap sentBy := by
  rw [List.filterMap_map]
  rfl

theorem release_owned (buff : VConstBuffer) : Dispatch.release buff true = [] := by
  unfold Dispatch.release
  split <;> rfl

theorem dispatch_cases (hquiet : Quiet net) {x t : World} {u : VChatUserRef} {header : Header}
    {buff : VConstBuffer} {rs : List Report}
    (h : dispatch net now x c u header buff true = (some t, rs)) :
    forChat net (header, buff.bytes) = true ∧ (∃ actions,
        processPacket net.types net.services now x u header buff = some (t, actions) ∧
          rs = .reached .chat c u header buff :: actions.map .did) ∨
      forChat net (header, buff.bytes) = false ∧ Stays x t ∧ rs.filterMap handedIn = [] ∧
        rs.filterMap sentIn = [] := by
  simp only [dispatch, release_owned, List.append_nil] at h
  split_ifs at h with hchat hdatabase hguild
  · refine .inl ⟨decide_eq_true hchat, ?_⟩
    cases hprocessed : processPacket net.types net.services now x u header buff with
    | none =>
      rw [hprocessed] at h
      cases h
    | some r =>
      rw [hprocessed] at h
      cases h
      exact ⟨r.2, rfl, rfl⟩
  · cases h
    exact .inr ⟨decide_eq_false hchat, hquiet.database .., rfl, rfl⟩
  · cases h
    exact .inr ⟨decide_eq_false hchat, hquiet.guild .., rfl, rfl⟩
  · cases h
    exact .inr ⟨decide_eq_false hchat, .refl _, rfl, rfl⟩

theorem receivePacket_handles (hquiet : Quiet net) {x x' : World} {user : Option VChatUserRef}
    {header : Header} {buff : VConstBuffer} {ret : Bool} {rs : List Report}
    (h : receivePacket net now x c user header buff = (some (x', ret), rs)) :
    Handles net now c x x' rs := by
  cases user with
  | none =>
    by_cases hlogin : (header.nType.toNat : Int) = net.types.c2sDbLogin
    · simp only [receivePacket, onReceive, ne_eq, hlogin, not_true, if_false, if_true,
        release_owned] at h
      cases h
      exact .inl ⟨hquiet.login .., rfl, rfl⟩
    · simp only [receivePacket, ne_eq, hlogin, not_false_eq_true, if_true] at h
      cases h
      exact .inl ⟨Stays.refl _, rfl, rfl⟩
  | some u =>
    simp only [receivePacket, onReceive, release_owned] at h
    have hstays := stays_checkSecurity x u header.nCrc header.nSeq buff
    split_ifs at h with hgate hcheck
    · cases h
      exact .inl ⟨Stays.refl _, rfl, rfl⟩
    · cases h
      exact .inl ⟨hstays, rfl, rfl⟩
    · generalize hdispatched : dispatch net now (checkSecurity x u header.nCrc header.nSeq buff).1 c
        u header buff true = dispatched at h
      obtain ⟨result, tail⟩ := dispatched
      obtain ⟨hreturned, rfl⟩ := Prod.mk.inj h
      obtain ⟨t, rfl, heq⟩ := Option.map_eq_some_iff.mp hreturned
      obtain ⟨rfl, -⟩ := Prod.mk.inj heq
      rcases dispatch_cases hquiet hdispatched with
        ⟨-, actions, hprocessed, rfl⟩ | ⟨-, hstays', hnone, hnothing⟩
      · refine .inr ⟨⟨c, u, header, buff⟩, rfl, ?_, ?_⟩
        · rw [List.filterMap_cons_none (by rfl), List.filterMap_cons_some (by rfl), handedIn_did]
        · rw [List.filterMap_cons_none (by rfl), List.filterMap_cons_none (by rfl), sentIn_did]
          simp only [Company.step, Handed.checked, Handed.event, hprocessed, Option.map_some]
      · refine .inl ⟨hstays.trans hstays', ?_, ?_⟩
        · rw [List.filterMap_cons_none (by rfl), hnone]
        · rw [List.filterMap_cons_none (by rfl), hnothing]

theorem complete_handles (hquiet : Quiet net) {x x' : Inbound.Server} {now : VTime}
    {c : VSessionRef} {session : FrameReader.Session} {handler : FrameReader.Handler}
    {outs : List Inbound.Output}
    (h : Inbound.complete net x now c session false handler = some (x', outs)) :
    Handles net now c x.world x'.world (reports outs) := by
  obtain ⟨hperform, -⟩ := Inbound.complete_eq_some h
  rcases Inbound.handle_cases net { session with user := x.world.lockUser c } false handler with
    hout | hout | ⟨header, buff, r, hout⟩
  · rw [hout] at hperform
    obtain ⟨hworld, rfl⟩ := Prod.mk.inj (Option.some.inj hperform)
    rw [← hworld]
    exact .inl ⟨Stays.refl x.world, rfl, rfl⟩
  · rw [hout] at hperform
    obtain ⟨hworld, rfl⟩ := Prod.mk.inj (Option.some.inj hperform)
    rw [← hworld]
    exact .inl ⟨stays_resetSession x.world c, rfl, rfl⟩
  · rw [hout] at hperform
    obtain ⟨x₁, ret, rs, rest, hr, hrest, rfl⟩ := Inbound.perform_receivePacket hperform
    obtain ⟨hworld, rfl⟩ := Prod.mk.inj (Option.some.inj hrest)
    have hone : reports [.received c header buff rs] = rs := List.append_nil rs
    rw [hone, ← hworld]
    exact receivePacket_handles hquiet hr

theorem inbound_handles (hquiet : Quiet net) {x r : Inbound.Server} {e : Inbound.Event}
    {outs : List Inbound.Output} (hkeep : ∀ f, e = .outside f → ∀ w, Stays w (f w))
    (h : Inbound.step net x e = some (r, outs)) :
    (Stays x.world r.world ∧ handed outs = [] ∧ (reports outs).filterMap sentIn = []) ∨
      ∃ now c bs, e = .read now c bs ∧ Handles net now c x.world r.world (reports outs) := by
  cases e with
  | start c =>
    simp only [Inbound.step] at h
    split_ifs at h
    obtain ⟨rfl, rfl⟩ := Prod.mk.inj (Option.some.inj h)
    exact .inl ⟨Stays.refl _, rfl, rfl⟩
  | read now c bs =>
    obtain ⟨read, done, -, -, hcomplete, rfl⟩ := Inbound.read_cases h
    have hhandles := complete_handles hquiet hcomplete
    exact .inr ⟨now, c, bs, rfl, hhandles⟩
  | abort now c =>
    obtain ⟨read, -, hcomplete⟩ := Option.bind_eq_some_iff.mp h
    obtain ⟨hperform, -⟩ := Inbound.complete_eq_some hcomplete
    rw [Inbound.handle_error] at hperform
    obtain ⟨hworld, rfl⟩ := Prod.mk.inj (Option.some.inj hperform)
    rw [← hworld]
    exact .inl ⟨stays_resetSession x.world c, rfl, rfl⟩
  | closeSession u =>
    obtain ⟨rfl, rfl⟩ := Prod.mk.inj (Option.some.inj h)
    exact .inl ⟨stays_modifyUser x.world u rfl, rfl, rfl⟩
  | outside f =>
    obtain ⟨rfl, rfl⟩ := Prod.mk.inj (Option.some.inj h)
    exact .inl ⟨hkeep f rfl x.world, rfl, rfl⟩

variable {U : VChatUserRef} {a : VSessionRef}

theorem receivePacket_forChat (hquiet : Quiet net) {x x' : World} {header : Header}
    {buff : VConstBuffer} {ret : Bool} {rs : List Report}
    (h : receivePacket net now x c (some U) header buff = (some (x', ret), rs)) :
    rs.filterMap handedIn =
      if (acceptedSeqs U rs).isEmpty = false ∧ forChat net (header, buff.bytes) then
        [⟨c, U, header, buff⟩]
      else [] := by
  have haccepted (rs : List Report) :
      (acceptedSeqs U (.checked U header true :: rs)).isEmpty = false := by
    have hsome : Report.acceptedSeq U (.checked U header true) = some header.nSeq := if_pos rfl
    rw [acceptedSeqs, List.filterMap_cons_some hsome]
    rfl
  simp only [receivePacket, onReceive, release_owned] at h
  split_ifs at h with hgate hcheck
  · cases h
    rfl
  · cases h
    rw [hcheck]
    rfl
  · generalize hdispatched : dispatch net now (checkSecurity x U header.nCrc header.nSeq buff).1 c
      U header buff true = dispatched at h
    obtain ⟨result, tail⟩ := dispatched
    obtain ⟨hreturned, rfl⟩ := Prod.mk.inj h
    obtain ⟨t, rfl, -⟩ := Option.map_eq_some_iff.mp hreturned
    rw [Bool.eq_true_of_not_eq_false hcheck, List.filterMap_cons_none (by rfl)]
    rcases dispatch_cases hquiet hdispatched with
      ⟨hchat, actions, -, rfl⟩ | ⟨hchat, -, hnone, -⟩
    · rw [if_pos ⟨haccepted _, hchat⟩, List.filterMap_cons_some (by rfl), handedIn_did]
    · rw [hnone, hchat, if_neg fun hboth => Bool.false_ne_true hboth.2]

theorem complete_forChat (hnet : KeepsUser net U) (hquiet : Quiet net) {x x' : Inbound.Server}
    (hattached : Inbound.Attached net U a x.world) {session : FrameReader.Session}
    {handler : FrameReader.Handler} {outs : List Inbound.Output}
    (h : Inbound.complete net x now c session false handler = some (x', outs)) :
    handedOn a (handed outs) = (Inbound.accepted U outs).filter (forChat net) := by
  obtain ⟨hperform, -⟩ := Inbound.complete_eq_some h
  by_cases hc : c = a
  · subst hc
    rcases Inbound.handle_cases net { session with user := x.world.lockUser c } false handler with
      hout | hout | ⟨header, buff, r, hout⟩
    · rw [hout] at hperform
      obtain ⟨-, rfl⟩ := Prod.mk.inj (Option.some.inj hperform)
      rfl
    · rw [hout] at hperform
      obtain ⟨-, rfl⟩ := Prod.mk.inj (Option.some.inj hperform)
      rfl
    · rw [hout, hattached.user] at hperform
      obtain ⟨x₁, ret, rs, rest, hr, hrest, rfl⟩ := Inbound.perform_receivePacket hperform
      obtain ⟨-, rfl⟩ := Prod.mk.inj (Option.some.inj hrest)
      have hone : reports [.received c header buff rs] = rs := List.append_nil rs
      rw [handed, hone, receivePacket_forChat hquiet hr, Inbound.accepted, List.filterMap_cons,
        Inbound.Output.accepted]
      cases (acceptedSeqs U rs).isEmpty <;> cases hchat : forChat net (header, buff.bytes) <;>
        simp [handedOn, hchat]
  · have hother : Inbound.accepted U outs = [] :=
      (Inbound.perform_other hnet hattached hc hperform).2
    rw [hother]
    rcases complete_handles hquiet h with ⟨-, hnone, -⟩ | ⟨p, hp, hone, -⟩
    · rw [handed, hnone]
      rfl
    · rw [handed, hone]
      exact List.filterMap_cons_none (if_neg (hp ▸ hc))

theorem inbound_forChat (hnet : KeepsUser net U) (hquiet : Quiet net) {x r : Inbound.Server}
    {e : Inbound.Event} {outs : List Inbound.Output}
    (hattached : Inbound.Attached net U a x.world)
    (h : Inbound.step net x e = some (r, outs)) :
    handedOn a (handed outs) = (Inbound.accepted U outs).filter (forChat net) := by
  cases e with
  | start c =>
    simp only [Inbound.step] at h
    split_ifs at h
    obtain ⟨-, rfl⟩ := Prod.mk.inj (Option.some.inj h)
    rfl
  | read now c bs =>
    obtain ⟨read, done, -, -, hcomplete, rfl⟩ := Inbound.read_cases h
    have hsame := complete_forChat hnet hquiet hattached hcomplete
    exact hsame
  | abort now c =>
    obtain ⟨read, -, hcomplete⟩ := Option.bind_eq_some_iff.mp h
    obtain ⟨hperform, -⟩ := Inbound.complete_eq_some hcomplete
    rw [Inbound.handle_error] at hperform
    obtain ⟨-, rfl⟩ := Prod.mk.inj (Option.some.inj hperform)
    rfl
  | closeSession u =>
    obtain ⟨-, rfl⟩ := Prod.mk.inj (Option.some.inj h)
    rfl
  | outside f =>
    obtain ⟨-, rfl⟩ := Prod.mk.inj (Option.some.inj h)
    rfl

end VChat.Relay
