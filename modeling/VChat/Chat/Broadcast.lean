import VChat.Chat.ChatLines
import VChat.NetWork.Framing
import Mathlib.Data.Set.List

/-! From the handlers to the connections: each handler sends its packets one after the other, while
the others send theirs and the sessions write. -/

namespace VChat.Broadcast
open Transition Header World Company NetWork

/-- `unsent i` is what the handler on connection `i` has still to send. -/
structure Server where
  world : World
  net : Outbound.Server
  unsent : Nat → List Sent

/-- `outside` is anything that sends nothing. -/
inductive Event where
  | handle (i : Nat) (e : Company.Event)
  | outside (f : World → World)
  | sendBuffer (i k : Nat) (nCrc nSeq : VUInt32)
  | net (e : Outbound.Event)

structure Output where
  sent : Option (Nat × Sent)
  net : Option Outbound.Output

variable (types : PacketTypes) (sv : Services) (w : Nat) (pl : Platform)
  (code : S2CPacket → VUInt16)

def headerOf (p : Sent) (nCrc nSeq : VUInt32) : Header :=
  ⟨BitVec.ofNat 32 p.packet.length, nCrc, nSeq, code p.nPacketType⟩

def sendBuffer (s : Server) (i k : Nat) (nCrc nSeq : VUInt32) : Option (Server × List Output) :=
  match s.unsent i with
  | [] => none
  | p :: ps =>
    let unsent := Function.update s.unsent i ps
    match s.world.getSession p.usr, s.net.calls[k]? with
    | none, _ => some ({ s with unsent := unsent }, [⟨some (i, p), none⟩])
    | some c, some call =>
      if call.message = Header.encode (headerOf code p nCrc nSeq) ++ p.packet then
        (Outbound.sendBuffer s.net k c).map fun r =>
          ({ s with net := r.1, unsent := unsent }, r.2.map fun o => ⟨some (i, p), some o⟩)
      else none
    | some _, none => none

/-- A connection's next packet is handled when all that the last one caused has been sent. -/
def step (s : Server) : Event → Option (Server × List Output)
  | .handle i e =>
    if s.unsent i = [] then
      (Company.step types sv s.world e).map fun r =>
        ({ s with world := r.1, unsent := Function.update s.unsent i r.2 }, [])
    else none
  | .outside f => some ({ s with world := f s.world }, [])
  | .sendBuffer i k nCrc nSeq => sendBuffer code s i k nCrc nSeq
  | .net e =>
    (Outbound.step w pl s.net e).map fun r =>
      ({ s with net := r.1 }, r.2.map fun o => ⟨none, some o⟩)

def Server.opened (world : World) (pl : Platform) (uninit : Nat → VPointer) (heap : Heap) :
    Server :=
  ⟨world, .opened pl uninit heap, fun _ => []⟩

/-- What is done outside moves nobody. -/
def Event.Keeps : Event → Prop
  | .handle _ (.outside f) => ∀ w, Stays w (f w)
  | .outside f => ∀ w, Stays w (f w)
  | _ => True

abbrev Account := List (Nat × World × Company.Event)

def saidBy (s : World) : Event → Account
  | .handle i e => [(i, s, e)]
  | _ => []

def said (s : Server) : List Event → Account
  | [] => []
  | e :: es => saidBy s.world e ++
      match step types sv w pl code s e with
      | some (t, _) => said t es
      | none => []

def moves (xs : Account) : History := history types sv (xs.map fun x => x.2.2)

def netLog (log : List Output) : List Outbound.Output := log.filterMap Output.net

def ofHandler (i : Nat) (xs : List (Nat × Sent)) : List Sent :=
  xs.filterMap fun x => if x.1 = i then some x.2 else none

def toSession (c : Nat) (log : List Output) : List (Option (Nat × Sent) × List VByte) :=
  log.filterMap fun o => (o.net.bind (Outbound.Output.sentTo c)).map (Prod.mk o.sent)

def linesFor (v : VChatUserRef) (sent : List Sent) : List Sent :=
  chatLines (sent.filter fun p => p.usr = v)

def talk (ms : History) : Account → List (Nat × Sent)
  | [] => []
  | (i, s, e) :: xs =>
    (heard types sv s ms e).map (Prod.mk i) ++ talk ((move types sv e).toList ++ ms) xs

/-- When a packet is sent, the user `v`, and nobody else, is attached to the session `c`. -/
def Owns (v : VChatUserRef) (c : Nat) (s : Server) : Event → Prop
  | .sendBuffer .. => ∀ u, s.world.getSession u = some c ↔ u = v
  | _ => True

variable {types sv w pl code} {s t : Server} {e : Event} {out : List Output} {i : Nat}

theorem handle_cases {e : Company.Event}
    (h : step types sv w pl code s (.handle i e) = some (t, out)) :
    ∃ sent, s.unsent i = [] ∧ Company.step types sv s.world e = some (t.world, sent) ∧
      t.net = s.net ∧ t.unsent = Function.update s.unsent i sent ∧ out = [] := by
  simp only [step] at h
  split_ifs at h with hdone
  obtain ⟨⟨u, sent⟩, hu, heq⟩ := Option.map_eq_some_iff.mp h
  obtain ⟨rfl, rfl⟩ := Prod.mk.inj heq
  exact ⟨sent, hdone, hu, rfl, rfl, rfl⟩

theorem sendBuffer_output {n n' : Outbound.Server} {k c : Nat} {os : List Outbound.Output}
    (h : Outbound.sendBuffer n k c = some (n', os)) :
    ∃ call, n.calls[k]? = some call ∧ os = [.sent c call.message] := by
  unfold Outbound.sendBuffer at h
  split at h
  · rename_i call x hcall hx
    split at h
    · cases h
    · obtain ⟨-, rfl⟩ := Prod.mk.inj (Option.some.inj h)
      exact ⟨call, hcall, rfl⟩
  · cases h

theorem sendBuffer_cases {k : Nat} {nCrc nSeq : VUInt32}
    (h : sendBuffer code s i k nCrc nSeq = some (t, out)) :
    ∃ p ps, s.unsent i = p :: ps ∧ t.world = s.world ∧
      t.unsent = Function.update s.unsent i ps ∧
      ((s.world.getSession p.usr = none ∧ t.net = s.net ∧ out = [⟨some (i, p), none⟩]) ∨
        ∃ c, s.world.getSession p.usr = some c ∧
          Outbound.sendBuffer s.net k c =
            some (t.net, [.sent c (Header.encode (headerOf code p nCrc nSeq) ++ p.packet)]) ∧
          out = [⟨some (i, p),
            some (.sent c (Header.encode (headerOf code p nCrc nSeq) ++ p.packet))⟩]) := by
  unfold sendBuffer at h
  cases hunsent : s.unsent i with
  | nil =>
    rw [hunsent] at h
    cases h
  | cons p ps =>
    simp only [hunsent] at h
    cases hsession : s.world.getSession p.usr with
    | none =>
      simp only [hsession] at h
      obtain ⟨rfl, rfl⟩ := Prod.mk.inj (Option.some.inj h)
      exact ⟨p, ps, rfl, rfl, rfl, .inl ⟨hsession, rfl, rfl⟩⟩
    | some c =>
      cases hcall : s.net.calls[k]? with
      | none =>
        simp only [hsession, hcall] at h
        cases h
      | some call =>
        simp only [hsession, hcall] at h
        split_ifs at h with hmessage
        obtain ⟨⟨n, os⟩, hsend, heq⟩ := Option.map_eq_some_iff.mp h
        obtain ⟨rfl, rfl⟩ := Prod.mk.inj heq
        obtain ⟨call', hcall', rfl⟩ := sendBuffer_output hsend
        obtain rfl := Option.some.inj (hcall.symm.trans hcall')
        rw [hmessage] at hsend
        refine ⟨p, ps, rfl, rfl, rfl, .inr ⟨c, hsession, hsend, ?_⟩⟩
        rw [← hmessage]
        rfl

theorem step_net (hfits : ∀ e', e = .net e' → e'.Fits)
    (h : step types sv w pl code s e = some (t, out)) :
    ∃ es', exec (traced (Outbound.step w pl)) (s.net, []) es' = some (t.net, netLog out) ∧
      ∀ e' ∈ es', e'.Fits := by
  cases e with
  | handle i e =>
    obtain ⟨sent, -, -, hnet, -, rfl⟩ := handle_cases h
    exact ⟨[], by rw [hnet]; rfl, fun e' he' => absurd he' List.not_mem_nil⟩
  | outside f =>
    obtain ⟨rfl, rfl⟩ := Prod.mk.inj (Option.some.inj h)
    exact ⟨[], rfl, fun e' he' => absurd he' List.not_mem_nil⟩
  | sendBuffer i k nCrc nSeq =>
    obtain ⟨p, ps, -, -, -, ⟨-, hnet, rfl⟩ | ⟨c, -, hsend, rfl⟩⟩ := sendBuffer_cases h
    · exact ⟨[], by rw [hnet]; rfl, fun e' he' => absurd he' List.not_mem_nil⟩
    · refine ⟨[.sendBuffer k c], exec_cons_eq_some.mpr ⟨_, ?_, rfl⟩, ?_⟩
      · exact traced_eq_some.mpr ⟨_, hsend, rfl⟩
      · exact List.forall_mem_singleton.mpr trivial
  | net e =>
    obtain ⟨⟨n, os⟩, hn, heq⟩ := Option.map_eq_some_iff.mp h
    obtain ⟨rfl, rfl⟩ := Prod.mk.inj heq
    have hos : netLog (os.map fun o => ⟨none, some o⟩) = os := by
      rw [netLog, List.filterMap_map]
      exact List.filterMap_some
    rw [hos]
    refine ⟨[e], exec_cons_eq_some.mpr ⟨_, traced_eq_some.mpr ⟨os, hn, rfl⟩, rfl⟩, ?_⟩
    exact List.forall_mem_singleton.mpr (hfits e rfl)

theorem net_run {es : List Event} (hfits : ∀ e, .net e ∈ es → e.Fits)
    (h : exec (traced (step types sv w pl code)) (s, []) es = some (t, out)) :
    ∃ es', exec (traced (Outbound.step w pl)) (s.net, []) es' = some (t.net, netLog out) ∧
      ∀ e ∈ es', e.Fits := by
  induction es generalizing s out with
  | nil =>
    obtain ⟨rfl, rfl⟩ := Prod.mk.inj (Option.some.inj h)
    exact ⟨[], rfl, fun e he => absurd he List.not_mem_nil⟩
  | cons e es ih =>
    obtain ⟨u, first, rest, hstep, hrest, rfl⟩ := exec_traced_cons.mp h
    obtain ⟨as, has, hfirst⟩ := step_net (fun e' he => hfits e' (by simp [he])) hstep
    obtain ⟨bs, hbs, hfits'⟩ := ih (fun e he => hfits e (List.mem_cons_of_mem _ he)) hrest
    refine ⟨as ++ bs, (exec_append_eq_some _ _).mpr ⟨_, has, exec_traced.mpr ⟨_, hbs, ?_⟩⟩, ?_⟩
    · exact List.filterMap_append
    · intro e he
      exact (List.mem_append.mp he).elim (hfirst e) (hfits' e)

/-! ### What a handler sends -/

theorem ofHandler_append (i : Nat) (xs ys : List (Nat × Sent)) :
    ofHandler i (xs ++ ys) = ofHandler i xs ++ ofHandler i ys := List.filterMap_append

theorem ofHandler_map (i j : Nat) (sent : List Sent) :
    ofHandler j (sent.map (Prod.mk i)) = if i = j then sent else [] := by
  rw [ofHandler, List.filterMap_map]
  split_ifs with hij
  · have hsome : (fun x : Nat × Sent => if x.1 = j then some x.2 else none) ∘ Prod.mk i = some := by
      funext p
      exact if_pos hij
    rw [hsome, List.filterMap_some]
  · apply List.filterMap_eq_nil_iff.mpr
    intro p _
    exact if_neg hij

theorem linesFor_append (v : VChatUserRef) (xs ys : List Sent) :
    linesFor v (xs ++ ys) = linesFor v xs ++ linesFor v ys := by
  rw [linesFor, List.filter_append, chatLines, List.filter_append]
  rfl

def given (types : PacketTypes) (sv : Services) (s : World) : Event → List (Nat × Sent)
  | .handle i e => (Company.step types sv s e).elim [] fun r => r.2.map (Prod.mk i)
  | _ => []

theorem step_unsent (h : step types sv w pl code s e = some (t, out)) (j : Nat) :
    ofHandler j (out.filterMap Output.sent) ++ t.unsent j =
      s.unsent j ++ ofHandler j (given types sv s.world e) := by
  cases e with
  | handle i e =>
    obtain ⟨sent, hdone, hu, -, hunsent, rfl⟩ := handle_cases h
    rw [given, hu, Option.elim_some, ofHandler_map, hunsent]
    show Function.update s.unsent i sent j = _
    by_cases hij : i = j
    · subst hij
      rw [Function.update_self, if_pos rfl, hdone, List.nil_append]
    · rw [Function.update_of_ne (Ne.symm hij), if_neg hij, List.append_nil]
  | outside f =>
    obtain ⟨rfl, rfl⟩ := Prod.mk.inj (Option.some.inj h)
    exact (List.append_nil (s.unsent j)).symm
  | sendBuffer i k nCrc nSeq =>
    obtain ⟨p, ps, hunsent, -, hrest, hout⟩ := sendBuffer_cases h
    have hsent : out.filterMap Output.sent = [p].map (Prod.mk i) := by
      rcases hout with ⟨-, -, rfl⟩ | ⟨c, -, -, rfl⟩ <;> rfl
    have hgiven : ofHandler j (given types sv s.world (.sendBuffer i k nCrc nSeq)) = [] := rfl
    rw [hsent, ofHandler_map, hrest, hgiven, List.append_nil]
    by_cases hij : i = j
    · subst hij
      rw [Function.update_self, if_pos rfl, hunsent, List.singleton_append]
    · rw [Function.update_of_ne (Ne.symm hij), if_neg hij, List.nil_append]
  | net e =>
    obtain ⟨⟨n, os⟩, -, heq⟩ := Option.map_eq_some_iff.mp h
    obtain ⟨rfl, rfl⟩ := Prod.mk.inj heq
    have hsent : (os.map fun o => (⟨none, some o⟩ : Output)).filterMap Output.sent = [] := by
      simp
    rw [hsent]
    exact (List.append_nil (s.unsent j)).symm

variable {ms : History} {key : VChatRoomRef → Place VInt32}

theorem linesFor_given (hs : Seated s.world ms key)
    (h : step types sv w pl code s e = some (t, out)) (v : VChatUserRef) (j : Nat) :
    linesFor v (ofHandler j (given types sv s.world e)) =
      linesFor v (ofHandler j (talk types sv ms (saidBy s.world e))) := by
  cases e with
  | handle i e =>
    obtain ⟨sent, -, hu, -⟩ := handle_cases h
    have hheard := hs.heard hu
    have htalk : talk types sv ms (saidBy s.world (.handle i e)) =
        (heard types sv s.world ms e).map (Prod.mk i) := List.append_nil _
    rw [given, hu, Option.elim_some, htalk, ofHandler_map, ofHandler_map, ← hheard]
    split_ifs
    · rw [linesFor, linesFor, chatLines, chatLines, chatLines, List.filter_filter,
        List.filter_filter, List.filter_filter]
      apply List.filter_congr
      intro p _
      cases decide (p.nPacketType = .s2cChatMessage) <;> simp
    · rfl
  | outside f => rfl
  | sendBuffer i k nCrc nSeq => rfl
  | net e => rfl

theorem said_cons (h : step types sv w pl code s e = some (t, out)) (es : List Event) :
    said types sv w pl code s (e :: es) =
      saidBy s.world e ++ said types sv w pl code t es := by
  rw [said, h]

theorem said_append {as : List Event}
    (h : exec (traced (step types sv w pl code)) (s, []) as = some (t, out)) (bs : List Event) :
    said types sv w pl code s (as ++ bs) =
      said types sv w pl code s as ++ said types sv w pl code t bs := by
  induction as generalizing s out with
  | nil =>
    obtain ⟨rfl, -⟩ := Prod.mk.inj (Option.some.inj h)
    rfl
  | cons e as ih =>
    obtain ⟨u, first, rest, hstep, hrest, -⟩ := exec_traced_cons.mp h
    rw [List.cons_append, said_cons hstep, said_cons hstep, ih hrest, List.append_assoc]

theorem moves_append (xs ys : Account) :
    moves types sv (xs ++ ys) = moves types sv ys ++ moves types sv xs := by
  simp only [moves, history, List.map_append, List.filterMap_append, List.reverse_append]

theorem moves_cons (x : Nat × World × Company.Event) (xs : Account) :
    moves types sv (x :: xs) = moves types sv xs ++ (move types sv x.2.2).toList := by
  rw [← List.singleton_append, moves_append]
  congr 1
  simp only [moves, history, List.map_singleton, List.filterMap_cons, List.filterMap_nil]
  cases move types sv x.2.2 <;> rfl

theorem talk_append (ms : History) (xs ys : Account) :
    talk types sv ms (xs ++ ys) =
      talk types sv ms xs ++ talk types sv (moves types sv xs ++ ms) ys := by
  induction xs generalizing ms with
  | nil => rfl
  | cons x xs ih =>
    obtain ⟨i, s, e⟩ := x
    rw [List.cons_append, talk, talk, ih, moves_cons, List.append_assoc, List.append_assoc]

theorem seated_step (hs : Seated s.world ms key) (hkeep : e.Keeps)
    (h : step types sv w pl code s e = some (t, out)) :
    ∃ key', Seated t.world (moves types sv (saidBy s.world e) ++ ms) key' := by
  cases e with
  | handle i e =>
    obtain ⟨sent, -, hu, -⟩ := handle_cases h
    have hkeep' : ∀ f, e = .outside f → ∀ w, Stays w (f w) := by
      rintro f rfl
      exact hkeep
    rw [saidBy, moves_cons]
    exact hs.advance hkeep' hu
  | outside f =>
    obtain ⟨rfl, -⟩ := Prod.mk.inj (Option.some.inj h)
    exact ⟨key, hs.stays (hkeep s.world)⟩
  | sendBuffer i k nCrc nSeq =>
    obtain ⟨p, ps, -, hworld, -⟩ := sendBuffer_cases h
    exact ⟨key, by rwa [hworld]⟩
  | net e =>
    obtain ⟨r, -, heq⟩ := Option.map_eq_some_iff.mp h
    obtain ⟨rfl, -⟩ := Prod.mk.inj heq
    exact ⟨key, hs⟩

theorem seated_exec {es : List Event} (hs : Seated s.world ms key) (hkeep : ∀ e ∈ es, e.Keeps)
    (h : exec (traced (step types sv w pl code)) (s, []) es = some (t, out)) :
    ∃ key', Seated t.world (moves types sv (said types sv w pl code s es) ++ ms) key' := by
  induction es generalizing s out ms key with
  | nil =>
    obtain ⟨rfl, -⟩ := Prod.mk.inj (Option.some.inj h)
    exact ⟨key, hs⟩
  | cons e es ih =>
    obtain ⟨u, first, rest, hstep, hrest, -⟩ := exec_traced_cons.mp h
    obtain ⟨hnow, hlater⟩ := List.forall_mem_cons.mp hkeep
    obtain ⟨key', hu⟩ := seated_step hs hnow hstep
    rw [said_cons hstep, moves_append, List.append_assoc]
    exact ih hu hlater hrest

theorem run_lines {es : List Event} (hs : Seated s.world ms key) (hkeep : ∀ e ∈ es, e.Keeps)
    (h : exec (traced (step types sv w pl code)) (s, []) es = some (t, out)) (v : VChatUserRef)
    (j : Nat) :
    linesFor v (ofHandler j (out.filterMap Output.sent)) ++ linesFor v (t.unsent j) =
      linesFor v (s.unsent j) ++
        linesFor v (ofHandler j (talk types sv ms (said types sv w pl code s es))) := by
  induction es generalizing s out ms key with
  | nil =>
    obtain ⟨rfl, rfl⟩ := Prod.mk.inj (Option.some.inj h)
    exact (List.append_nil _).symm
  | cons e es ih =>
    obtain ⟨u, first, rest, hstep, hrest, rfl⟩ := exec_traced_cons.mp h
    obtain ⟨hnow, hlater⟩ := List.forall_mem_cons.mp hkeep
    obtain ⟨key', hu⟩ := seated_step hs hnow hstep
    have ih := ih hu hlater hrest
    have hfirst := congrArg (linesFor v) (step_unsent hstep j)
    rw [linesFor_append, linesFor_append, linesFor_given hs hstep] at hfirst
    rw [List.filterMap_append, ofHandler_append, linesFor_append, said_cons hstep, talk_append,
      ofHandler_append, linesFor_append, List.append_assoc, ih, ← List.append_assoc, hfirst,
      List.append_assoc]

/-! ### What goes over a session -/

structure Addressed (code : S2CPacket → VUInt16) (v : VChatUserRef) (c : Nat) (o : Output) :
    Prop where
  to_iff : ∀ i p, o.sent = some (i, p) → (p.usr = v ↔ ∃ m, o.net = some (.sent c m))
  message : ∀ i p d m, o.sent = some (i, p) → o.net = some (.sent d m) →
    ∃ nCrc nSeq, m = Header.encode (headerOf code p nCrc nSeq) ++ p.packet

variable {v : VChatUserRef} {c : Nat}

theorem addressed_step (howns : Owns v c s e)
    (h : step types sv w pl code s e = some (t, out)) : ∀ o ∈ out, Addressed code v c o := by
  cases e with
  | handle i e =>
    obtain ⟨sent, -, -, -, -, rfl⟩ := handle_cases h
    exact fun o ho => absurd ho List.not_mem_nil
  | outside f =>
    obtain ⟨-, rfl⟩ := Prod.mk.inj (Option.some.inj h)
    exact fun o ho => absurd ho List.not_mem_nil
  | sendBuffer i k nCrc nSeq =>
    obtain ⟨p, ps, -, -, -, ⟨hsession, -, rfl⟩ | ⟨d, hsession, -, rfl⟩⟩ := sendBuffer_cases h
    · intro o ho
      obtain rfl := List.mem_singleton.mp ho
      refine ⟨fun j q hq => ?_, fun j q d m _ hm => (by cases hm)⟩
      obtain ⟨-, rfl⟩ := Prod.mk.inj (Option.some.inj hq)
      rw [← howns, hsession]
      simp
    · intro o ho
      obtain rfl := List.mem_singleton.mp ho
      refine ⟨fun j q hq => ?_, fun j q d' m hq hm => ?_⟩
      · obtain ⟨-, rfl⟩ := Prod.mk.inj (Option.some.inj hq)
        rw [← howns, hsession]
        simp
      · obtain ⟨-, rfl⟩ := Prod.mk.inj (Option.some.inj hq)
        obtain ⟨-, rfl⟩ := Outbound.Output.sent.inj (Option.some.inj hm)
        exact ⟨nCrc, nSeq, rfl⟩
  | net e =>
    obtain ⟨⟨n, os⟩, -, heq⟩ := Option.map_eq_some_iff.mp h
    obtain ⟨rfl, rfl⟩ := Prod.mk.inj heq
    intro o ho
    obtain ⟨o', -, rfl⟩ := List.mem_map.mp ho
    exact ⟨fun i p hp => (by cases hp), fun i p d m hp => (by cases hp)⟩

theorem addressed_run {es : List Event}
    (howns : Along (fun s e => (step types sv w pl code s e).map Prod.fst)
      (fun s e _ => Owns v c s e) s es)
    (h : exec (traced (step types sv w pl code)) (s, []) es = some (t, out)) :
    ∀ o ∈ out, Addressed code v c o := by
  induction es generalizing s out with
  | nil =>
    obtain ⟨-, rfl⟩ := Prod.mk.inj (Option.some.inj h)
    exact fun o ho => absurd ho List.not_mem_nil
  | cons e es ih =>
    obtain ⟨u, first, rest, hstep, hrest, rfl⟩ := exec_traced_cons.mp h
    obtain ⟨hnow, hlater⟩ := howns u (Option.map_eq_some_iff.mpr ⟨_, hstep, rfl⟩)
    intro o ho
    exact (List.mem_append.mp ho).elim (addressed_step hnow hstep o) (ih hlater hrest o)

theorem sentTo_eq_some {o : Output} {m : List VByte} :
    o.net.bind (Outbound.Output.sentTo c) = some m ↔ o.net = some (.sent c m) := by
  rw [Option.bind_eq_some_iff]
  constructor
  · rintro ⟨x, hx, hm⟩
    cases x with
    | sent d m' =>
      simp only [Outbound.Output.sentTo] at hm
      split_ifs at hm with hd
      rw [hx, hd, Option.some.inj hm]
    | _ => cases hm
  · intro ho
    exact ⟨_, ho, if_pos rfl⟩

theorem toSession_singleton (c : Nat) (o : Output) :
    toSession c [o] =
      ((o.net.bind (Outbound.Output.sentTo c)).map (Prod.mk o.sent)).toList := by
  rw [toSession, List.filterMap_cons]
  cases (o.net.bind (Outbound.Output.sentTo c)).map (Prod.mk o.sent) <;> rfl

theorem Addressed.toSession {o : Output} (h : Addressed code v c o) (j : Nat) :
    ofHandler j ((toSession c [o]).filterMap Prod.fst) =
      (ofHandler j o.sent.toList).filter fun p => p.usr = v := by
  rw [toSession_singleton]
  cases hsent : o.sent with
  | none => cases o.net.bind (Outbound.Output.sentTo c) <;> rfl
  | some x =>
    obtain ⟨i, p⟩ := x
    have hone : [(i, p)] = [p].map (Prod.mk i) := rfl
    by_cases hp : p.usr = v
    · obtain ⟨m, hm⟩ := (h.to_iff i p hsent).mp hp
      have hall : [p].filter (fun p => p.usr = v) = [p] := by simp [hp]
      rw [sentTo_eq_some.mpr hm]
      show ofHandler j [(i, p)] = (ofHandler j [(i, p)]).filter _
      rw [hone, ofHandler_map]
      split_ifs
      · exact hall.symm
      · rfl
    · have hnone : o.net.bind (Outbound.Output.sentTo c) = none := by
        apply Option.eq_none_iff_forall_ne_some.mpr
        intro m hm
        exact hp ((h.to_iff i p hsent).mpr ⟨m, sentTo_eq_some.mp hm⟩)
      have hnothing : [p].filter (fun p => p.usr = v) = [] := by simp [hp]
      rw [hnone]
      show [] = (ofHandler j [(i, p)]).filter _
      rw [hone, ofHandler_map]
      split_ifs
      · exact hnothing.symm
      · rfl

theorem toSession_sent (h : ∀ o ∈ out, Addressed code v c o) (j : Nat) :
    ofHandler j ((toSession c out).filterMap Prod.fst) =
      (ofHandler j (out.filterMap Output.sent)).filter fun p => p.usr = v := by
  induction out with
  | nil => rfl
  | cons o out ih =>
    obtain ⟨ho, hout⟩ := List.forall_mem_cons.mp h
    have hcons : (o :: out).filterMap Output.sent = o.sent.toList ++ out.filterMap Output.sent := by
      rw [List.filterMap_cons]
      cases o.sent <;> rfl
    have hsplit : toSession c (o :: out) = toSession c [o] ++ toSession c out :=
      List.filterMap_append (l := [o])
    rw [hcons, hsplit, List.filterMap_append, ofHandler_append, ofHandler_append,
      List.filter_append, ho.toSession, ih hout]

theorem mem_toSession {x : Option (Nat × Sent)} {m : List VByte} :
    (x, m) ∈ toSession c out ↔ ∃ o ∈ out, o.sent = x ∧ o.net = some (.sent c m) := by
  rw [toSession, List.mem_filterMap]
  refine exists_congr fun o => and_congr_right fun _ => ?_
  rw [Option.map_eq_some_iff]
  constructor
  · rintro ⟨m', hm, heq⟩
    obtain ⟨rfl, rfl⟩ := Prod.mk.inj heq
    exact ⟨rfl, sentTo_eq_some.mp hm⟩
  · rintro ⟨rfl, hm⟩
    exact ⟨m, sentTo_eq_some.mpr hm, rfl⟩

theorem netLog_append (log out : List Output) : netLog (log ++ out) = netLog log ++ netLog out :=
  List.filterMap_append

theorem sentTo_append (hopen : .cleared c ∉ netLog out) (log : List Output) :
    Outbound.sentTo c (netLog (log ++ out)) =
      Outbound.sentTo c (netLog log) ++ (toSession c out).map Prod.snd := by
  have hmark : ∀ o ∈ netLog out, Outbound.Output.clears c o = false := by
    intro o ho
    cases o with
    | cleared d => exact decide_eq_false fun hd : d = c => hopen (hd ▸ ho)
    | _ => rfl
  have hsame : (netLog out).filterMap (Outbound.Output.sentTo c) =
      (toSession c out).map Prod.snd := by
    rw [netLog, toSession, List.filterMap_filterMap, List.map_filterMap]
    apply List.filterMap_congr
    intro o _
    cases o.net.bind (Outbound.Output.sentTo c) <;> rfl
  rw [netLog_append, Outbound.sentTo, sinceLast_append_of_not hmark, List.filterMap_append, hsame]
  rfl

theorem Frame.eq_of_encode {f : Outbound.Frame} {header : Header} {packet : List VByte}
    (h : f.encode = Header.encode header ++ packet) : f.header = header ∧ f.body = packet :=
  Outbound.selfDelimiting_header _ _ _ _ h

theorem exists_frames (hopen : .cleared c ∉ netLog out) (log : List Output)
    (hframe : ∀ m ∈ Outbound.sentTo c (netLog (log ++ out)), ∃ f, Outbound.Frame.encode f = m) :
    ∃ (fs : List Outbound.Frame) (xs : List (Option (Nat × Sent) × Outbound.Frame)),
      Outbound.sentTo c (netLog log) = fs.map Outbound.Frame.encode ∧
        toSession c out = xs.map (Prod.map id Outbound.Frame.encode) := by
  rw [sentTo_append hopen] at hframe
  obtain ⟨fs, hfs⟩ : ∃ fs : List Outbound.Frame,
      fs.map Outbound.Frame.encode = Outbound.sentTo c (netLog log) := by
    apply (Set.range_list_map Outbound.Frame.encode).ge
    exact fun m hm => hframe m (List.mem_append_left _ hm)
  obtain ⟨xs, hxs⟩ : ∃ xs : List (Option (Nat × Sent) × Outbound.Frame),
      xs.map (Prod.map id Outbound.Frame.encode) = toSession c out := by
    apply (Set.range_list_map (Prod.map id Outbound.Frame.encode)).ge
    rintro ⟨x, m⟩ hm
    obtain ⟨f, hf⟩ := hframe m (List.mem_append_right _ (List.mem_map_of_mem hm))
    exact ⟨(x, f), by rw [Prod.map_apply, hf, id]⟩
  exact ⟨fs, xs, hfs.symm, hxs.symm⟩

theorem frame_of_mem_toSession (h : ∀ o ∈ out, Addressed code v c o) {p : Sent}
    {f : Outbound.Frame} (hmem : (some (i, p), f.encode) ∈ toSession c out) :
    f.header.nType = code p.nPacketType ∧ f.body = p.packet := by
  obtain ⟨o, ho, hsent, hnet⟩ := mem_toSession.mp hmem
  obtain ⟨nCrc, nSeq, hm⟩ := (h o ho).message i p c _ hsent hnet
  obtain ⟨hheader, hbody⟩ := Frame.eq_of_encode hm
  exact ⟨by rw [hheader]; rfl, hbody⟩

/-- What has gone to a session: the packets `fs` before, and the packets `xs` since, each with
what it is of a handler's. The handlers were given `lines` meanwhile. -/
structure Reaches (code : S2CPacket → VUInt16) (v : VChatUserRef) (c : Nat) (s : Server)
    (log : List Output) (t : Server) (out : List Output) (lines : List (Nat × Sent))
    (fs : List Outbound.Frame) (xs : List (Option (Nat × Sent) × Outbound.Frame)) : Prop where
  before : Outbound.sentTo c (netLog log) = fs.map Outbound.Frame.encode
  sent : Outbound.sentTo c (netLog (log ++ out)) =
    (fs ++ xs.map Prod.snd).map Outbound.Frame.encode
  wrote : Outbound.wroteTo c (netLog (log ++ out)) ++
      (t.net.queue c).map (Outbound.content t.net.heap) =
    Outbound.sentTo c (netLog (log ++ out))
  read : ∀ (gs : List Outbound.Frame) (rest wire : List VByte),
    wire <+: (Outbound.sentTo c (netLog (log ++ out))).flatten →
      wire = gs.flatMap Outbound.Frame.encode ++ rest → gs <+: fs ++ xs.map Prod.snd
  packet : ∀ i p f, (some (i, p), f) ∈ xs → f.header.nType = code p.nPacketType ∧ f.body = p.packet
  lines : ∀ i, chatLines (ofHandler i (xs.filterMap Prod.fst)) ++ linesFor v (t.unsent i) =
    linesFor v (s.unsent i) ++ linesFor v (ofHandler i lines)

theorem exists_reaches (hw : 32 ≤ w) {uninit : Nat → VPointer} {heap : Heap}
    {as : List Outbound.Event} {log : List Output} {es : List Event}
    (hseated : Seated s.world ms key) (hfits₁ : ∀ e ∈ as, e.Fits)
    (has : exec (traced (Outbound.step w pl)) (.opened pl uninit heap, []) as =
      some (s.net, netLog log))
    (hfits : ∀ e, .net e ∈ es → e.Fits)
    (hkeep : ∀ e ∈ es, e.Keeps)
    (h : exec (traced (step types sv w pl code)) (s, []) es = some (t, out))
    (howns : Along (fun s e => (step types sv w pl code s e).map Prod.fst)
      (fun s e _ => Owns v c s e) s es)
    (hopen : .cleared c ∉ netLog out) :
    ∃ fs xs, Reaches code v c s log t out
      (talk types sv ms (said types sv w pl code s es)) fs xs := by
  obtain ⟨bs, hbs, hfits₂⟩ := net_run hfits h
  have hnet : exec (traced (Outbound.step w pl)) (.opened pl uninit heap, []) (as ++ bs) =
      some (t.net, netLog (log ++ out)) := by
    apply (exec_append_eq_some _ _).mpr
    exact ⟨_, has, exec_traced.mpr ⟨_, hbs, netLog_append log out⟩⟩
  have hall : ∀ e ∈ as ++ bs, e.Fits := fun e he =>
    (List.mem_append.mp he).elim (hfits₁ e) (hfits₂ e)
  have horder := (Outbound.inv_of_exec hw hall hnet).order c
  have hframed := Outbound.framed_of_exec hnet
  have hframe : ∀ m ∈ Outbound.sentTo c (netLog (log ++ out)),
      ∃ f, Outbound.Frame.encode f = m := by
    intro m hm
    obtain ⟨f, hf, -⟩ := hframed.sent c m (Outbound.mem_sentTo hm)
    exact ⟨f, hf⟩
  obtain ⟨fs, xs, hfs, hxs⟩ := exists_frames hopen log hframe
  have hsent : Outbound.sentTo c (netLog (log ++ out)) =
      (fs ++ xs.map Prod.snd).map Outbound.Frame.encode := by
    rw [sentTo_append hopen, List.map_append, hfs, hxs, List.map_map, List.map_map]
    rfl
  have haddressed := addressed_run howns h
  have hlines := run_lines hseated hkeep h v
  refine ⟨fs, xs, hfs, hsent, horder, fun gs rest wire hwire heq => ?_, fun i p f hf => ?_,
    fun i => ?_⟩
  · apply Outbound.Frame.selfDelimiting.isPrefix Outbound.Frame.encode_ne_nil
    rw [hsent, ← List.flatMap_def] at hwire
    exact List.IsPrefix.trans ⟨rest, heq.symm⟩ hwire
  · exact frame_of_mem_toSession haddressed (hxs ▸ List.mem_map_of_mem hf)
  · have hfirst : xs.filterMap Prod.fst = (toSession c out).filterMap Prod.fst := by
      rw [hxs, List.filterMap_map]
      rfl
    rw [hfirst, toSession_sent haddressed]
    exact hlines i

/-- While a session is `v`'s and its queue is not cleared, what goes out over it goes on with whole
packets, in order. Those of any one handler are the lines that `v` hears from it by the moves
before, each once and in the order they were said, up to what the handler has still to send. -/
theorem lines_reach {w₀ : World} (hw : 32 ≤ w) (h₀ : NoRooms w₀) {uninit : Nat → VPointer}
    {heap : Heap} {es₁ es₂ : List Event} {log : List Output}
    (hfits : ∀ e, .net e ∈ es₁ ++ es₂ → e.Fits)
    (hkeep : ∀ e ∈ es₁ ++ es₂, e.Keeps)
    (h₁ : exec (traced (step types sv w pl code)) (.opened w₀ pl uninit heap, []) es₁ =
      some (s, log))
    (h₂ : exec (traced (step types sv w pl code)) (s, []) es₂ = some (t, out))
    (howns : Along (fun s e => (step types sv w pl code s e).map Prod.fst)
      (fun s e _ => Owns v c s e) s es₂)
    (hopen : .cleared c ∉ netLog out) :
    ∃ fs xs, Reaches code v c s log t out
      (talk types sv (moves types sv (said types sv w pl code (.opened w₀ pl uninit heap) es₁))
        (said types sv w pl code s es₂)) fs xs := by
  obtain ⟨as, has, hfits₁⟩ := net_run (fun e he => hfits e (List.mem_append_left _ he)) h₁
  have hempty : Seated (Server.opened w₀ pl uninit heap).world [] fun _ => (0, 0) :=
    seated_noRooms h₀
  obtain ⟨key, hseated⟩ := seated_exec hempty
    (fun e he => hkeep e (List.mem_append_left _ he)) h₁
  rw [List.append_nil] at hseated
  exact exists_reaches hw hseated hfits₁ has (fun e he => hfits e (List.mem_append_right _ he))
    (fun e he => hkeep e (List.mem_append_right _ he)) h₂ howns hopen

def gameMasters : Services := { Dispatch.Network.silent.services with isGM := fun _ => true }

def notice : VConstBuffer :=
  ⟨2, some fun i => if i = 0 then 97 else 0, by decide, fun _ => rfl⟩

/-- A notice that one of two users gives, of which the other's session has written its packet. -/
theorem lines_reach_notice :
    let types := Dispatch.Network.silent.types
    let es₁ : List Event := [.outside fun w => { w with
        user := fun u => { w.user u with session := some u }
        alive := fun _ => true
        pUsers := (w.pUsers.insert 0 0).insert 1 1 }, .net .createSession, .net .createSession]
    let es₂ : List Event := [.handle 1 (.packet none 1 ⟨2, 0, 0, 4⟩ notice),
      .net (.sendPacket 7 0 0 notice false), .sendBuffer 1 0 0 0, .sendBuffer 1 0 0 0,
      .net (.handleWrite 0 0 false)]
    ∃ s log t out,
      exec (traced (step types gameMasters 64 .other fun _ => 7))
        (.opened start .other (fun _ => 0) fun _ _ => 0, []) es₁ = some (s, log) ∧
      exec (traced (step types gameMasters 64 .other fun _ => 7)) (s, []) es₂ = some (t, out) ∧
      ∃ xs : List (Option (Nat × Sent) × Outbound.Frame),
        Outbound.wroteTo 0 (netLog (log ++ out)) = (xs.map Prod.snd).map Outbound.Frame.encode ∧
          chatLines (ofHandler 1 (xs.filterMap Prod.fst)) =
            [⟨0, .s2cChatMessage, [97, 0]⟩] := by
  intro types es₁ es₂
  have hfits : ∀ e, .net e ∈ es₁ ++ es₂ → e.Fits := by
    intro e he
    simp only [es₁, es₂, List.mem_append, List.mem_cons, Event.net.injEq, List.not_mem_nil,
      reduceCtorEq, or_false, false_or, or_self] at he
    rcases he with rfl | rfl | rfl
    · trivial
    · exact (by decide : sizeofHeader + 2 ≤ 2 ^ 31)
    · trivial
  have hkeep : ∀ e ∈ es₁ ++ es₂, e.Keeps := by
    intro e he
    simp only [es₁, es₂, List.cons_append, List.nil_append, List.mem_cons, List.not_mem_nil,
      or_false] at he
    rcases he with rfl | rfl | rfl | rfl | rfl | rfl | rfl | rfl
    · exact fun w => ⟨rfl, rfl, fun _ => rfl, fun _ => rfl, fun _ => rfl⟩
    all_goals trivial
  have h₁ : ∃ s log, exec (traced (step types gameMasters 64 .other fun _ => 7))
      (.opened start .other (fun _ => 0) fun _ _ => 0, []) es₁ = some (s, log) := ⟨_, _, rfl⟩
  obtain ⟨s, log, h₁⟩ := h₁
  obtain ⟨hs, hlog⟩ := Prod.mk.inj (Option.some.inj h₁)
  have howner : ∀ u, (some u).filter (fun _ => true) = some 0 ↔ u = 0 := fun u => Option.some_inj
  obtain ⟨t, out, h₂, hunsent, hqueue, hout, howns⟩ : ∃ t out,
      exec (traced (step types gameMasters 64 .other fun _ => 7)) (s, []) es₂ = some (t, out) ∧
      t.unsent 1 = [] ∧ t.net.queue 0 = [] ∧
      (∃ m m' m'', netLog out = [.sent 0 m, .sent 1 m', .wrote 0 m'']) ∧
      Along (fun s e => (step types gameMasters 64 .other (fun _ => 7) s e).map Prod.fst)
        (fun s e _ => Owns 0 0 s e) s es₂ := by
    subst hs
    refine ⟨_, _, rfl, rfl, rfl, ⟨_, _, _, rfl⟩, ?_⟩
    exact .cons rfl trivial (.cons rfl trivial (.cons rfl howner (.cons rfl howner
      (.cons rfl trivial trivial))))
  have hopen : .cleared 0 ∉ netLog out := by
    obtain ⟨m, m', m'', heq⟩ := hout
    simp [heq]
  obtain ⟨fs, xs, h⟩ :=
    lines_reach (by decide) noRooms_start hfits hkeep h₁ h₂ howns hopen
  have hfs : fs = [] := by
    subst hlog
    exact List.map_eq_nil_iff.mp h.before.symm
  refine ⟨s, log, t, out, h₁, h₂, xs, ?_, ?_⟩
  · have horder := h.wrote
    rw [hqueue, List.map_nil, List.append_nil] at horder
    rw [horder, h.sent, hfs, List.nil_append]
  · have hone := h.lines 1
    rw [hunsent] at hone
    subst hs
    exact (List.append_nil _).symm.trans hone

end VChat.Broadcast
