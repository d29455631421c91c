import VChat.NetWork.Delivery
import VChat.Codec.Delimited

/-! The bytes that go out over a session, read as packets. -/

namespace VChat.NetWork.Outbound
open Transition Codec Header AllocateManager

structure Frame where
  header : Header
  body : List VByte
  length_eq : header.nLen.toNat = body.length

def Frame.encode (f : Frame) : List VByte := Header.encode f.header ++ f.body

def Frame.Given (es : List Event) (f : Frame) : Prop :=
  ∃ packet fails, packet.bytes = f.body ∧
    .sendPacket f.header.nType f.header.nCrc f.header.nSeq packet fails ∈ es

theorem selfDelimiting_header : SelfDelimiting Header.encode :=
  selfDelimiting_of_length Header.length_encode
    (Function.LeftInverse.injective Header.decode_encode)

theorem encode_append_ne_nil (h : Header) (body : List VByte) : Header.encode h ++ body ≠ [] := by
  apply List.append_ne_nil_of_left_ne_nil
  intro hnil
  have hlen := Header.length_encode h
  rw [hnil] at hlen
  cases hlen

theorem Frame.selfDelimiting : SelfDelimiting Frame.encode := by
  apply selfDelimiting_header.withBody
  · intro f g hheader
    rw [← f.length_eq, hheader, g.length_eq]
  · rintro ⟨h, body, hlen⟩ ⟨h', body', hlen'⟩ rfl rfl
    rfl

theorem Frame.encode_ne_nil (f : Frame) : f.encode ≠ [] := encode_append_ne_nil f.header f.body

structure Framed (es : List Event) (s : Server) (log : List Output) : Prop where
  calls : ∀ call ∈ s.calls, ∃ f : Frame, f.encode = call.message ∧ f.Given es
  sent : ∀ c message, .sent c message ∈ log → ∃ f : Frame, f.encode = message ∧ f.Given es

variable {w : Nat} {pl : Platform} {s t : Server} {es : List Event} {log out : List Output}

theorem Frame.Given.append {f : Frame} (h : f.Given es) (e : Event) : f.Given (es ++ [e]) := by
  obtain ⟨packet, fails, hbody, hmem⟩ := h
  exact ⟨packet, fails, hbody, List.mem_append_left _ hmem⟩

theorem Framed.quiet (h : Framed es s log) (e : Event) (hcalls : ∀ call ∈ t.calls, call ∈ s.calls)
    (hout : ∀ c message, .sent c message ∉ out) : Framed (es ++ [e]) t (log ++ out) := by
  refine ⟨fun call hcall => ?_, fun c message hmem => ?_⟩
  · obtain ⟨f, hf, hgiven⟩ := h.calls call (hcalls call hcall)
    exact ⟨f, hf, hgiven.append e⟩
  · have hold := (List.mem_append.mp hmem).resolve_right (hout c message)
    obtain ⟨f, hf, hgiven⟩ := h.sent c message hold
    exact ⟨f, hf, hgiven.append e⟩

theorem calls_change {c : Nat} {x : WriteQueue.Session} {bs : List VSimpleBufferRef}
    (h : change pl s c x bs = some t) : t.calls = s.calls := by
  obtain ⟨st, -, rfl⟩ := Option.map_eq_some_iff.mp h
  rfl

theorem Framed.sendPacket (h : Framed es s log) {nPacketType : VUInt16} {nCrc nSeq : VUInt32}
    {packet : VConstBuffer} {fails : Bool}
    (hs : sendPacket w pl s nPacketType nCrc nSeq packet fails = some t) :
    Framed (es ++ [.sendPacket nPacketType nCrc nSeq packet fails]) t log := by
  obtain ⟨⟨r, st⟩, -, rfl⟩ := Option.map_eq_some_iff.mp hs
  have hquiet : Framed (es ++ [.sendPacket nPacketType nCrc nSeq packet fails]) s (log ++ []) :=
    h.quiet _ (fun _ hcall => hcall) fun _ _ => List.not_mem_nil
  rw [List.append_nil] at hquiet
  cases r with
  | none => exact ⟨hquiet.calls, hquiet.sent⟩
  | some b =>
    refine ⟨fun call hcall => ?_, hquiet.sent⟩
    rcases List.mem_append.mp hcall with hcall | hcall
    · exact hquiet.calls call hcall
    · obtain rfl := List.mem_singleton.mp hcall
      have hlen : (BitVec.ofNat 32 packet.first).toNat = packet.bytes.length := by
        rw [BitVec.toNat_ofNat, Nat.mod_eq_of_lt packet.first_lt, VConstBuffer.length_bytes]
      exact ⟨⟨⟨_, nCrc, nSeq, nPacketType⟩, packet.bytes, hlen⟩, rfl, packet, fails, rfl, by simp⟩

theorem Framed.sendBuffer (h : Framed es s log) {i c : Nat}
    (hs : sendBuffer s i c = some (t, out)) :
    Framed (es ++ [.sendBuffer i c]) t (log ++ out) := by
  unfold Outbound.sendBuffer at hs
  split at hs
  · rename_i call x hcall hx
    split at hs
    · cases hs
    · obtain ⟨rfl, rfl⟩ := Prod.mk.inj (Option.some.inj hs)
      refine ⟨fun call' hcall' => ?_, fun d message hmem => ?_⟩
      · obtain ⟨f, hf, hgiven⟩ := h.calls call' hcall'
        exact ⟨f, hf, hgiven.append _⟩
      · rcases List.mem_append.mp hmem with hmem | hmem
        · obtain ⟨f, hf, hgiven⟩ := h.sent d message hmem
          exact ⟨f, hf, hgiven.append _⟩
        · obtain ⟨-, rfl⟩ := Output.sent.inj (List.mem_singleton.mp hmem)
          obtain ⟨f, hf, hgiven⟩ := h.calls call (List.mem_of_getElem? hcall)
          exact ⟨f, hf, hgiven.append _⟩
  · cases hs

theorem Framed.step (h : Framed es s log) {e : Event} (hs : step w pl s e = some (t, out)) :
    Framed (es ++ [e]) t (log ++ out) := by
  cases e with
  | sendPacket nPacketType nCrc nSeq packet fails =>
    obtain ⟨u, hu, heq⟩ := Option.map_eq_some_iff.mp hs
    obtain ⟨rfl, rfl⟩ := Prod.mk.inj heq
    rw [List.append_nil]
    exact h.sendPacket hu
  | sendBuffer i c => exact h.sendBuffer hs
  | finish i =>
    obtain ⟨u, hu, heq⟩ := Option.map_eq_some_iff.mp hs
    obtain ⟨rfl, rfl⟩ := Prod.mk.inj heq
    unfold Outbound.finish at hu
    split at hu
    · obtain ⟨st, -, rfl⟩ := Option.map_eq_some_iff.mp hu
      exact h.quiet _ (fun _ hcall => List.mem_of_mem_eraseIdx hcall) fun _ _ => List.not_mem_nil
    · cases hu
  | createSession =>
    obtain ⟨rfl, rfl⟩ := Prod.mk.inj (Option.some.inj hs)
    exact h.quiet _ (fun _ hcall => hcall) fun _ _ => List.not_mem_nil
  | start c sockOk =>
    simp only [Outbound.step, start] at hs
    split at hs
    · split_ifs at hs
      · obtain ⟨u, hu, heq⟩ := Option.map_eq_some_iff.mp hs
        obtain ⟨rfl, rfl⟩ := Prod.mk.inj heq
        exact h.quiet _ (fun _ hcall => calls_change hu ▸ hcall) fun _ _ => by simp
      · obtain ⟨rfl, rfl⟩ := Prod.mk.inj (Option.some.inj hs)
        exact h.quiet _ (fun _ hcall => hcall) fun _ _ => List.not_mem_nil
    · cases hs
  | handleWrite c j error =>
    simp only [Outbound.step, handleWrite] at hs
    split at hs
    · split at hs
      · split_ifs at hs
        · obtain ⟨u, hu, heq⟩ := Option.map_eq_some_iff.mp hs
          obtain ⟨rfl, rfl⟩ := Prod.mk.inj heq
          exact h.quiet _ (fun _ hcall => calls_change hu ▸ hcall) fun _ _ => List.not_mem_nil
        · obtain ⟨u, hu, heq⟩ := Option.map_eq_some_iff.mp hs
          obtain ⟨rfl, rfl⟩ := Prod.mk.inj heq
          exact h.quiet _ (fun _ hcall => calls_change hu ▸ hcall) fun _ _ => by simp
      · cases hs
    · cases hs
  | destroy c =>
    simp only [Outbound.step, destroy] at hs
    split at hs
    · split_ifs at hs
      obtain ⟨u, hu, heq⟩ := Option.map_eq_some_iff.mp hs
      obtain ⟨rfl, rfl⟩ := Prod.mk.inj heq
      exact h.quiet _ (fun _ hcall => calls_change hu ▸ hcall) fun _ _ => by simp
    · cases hs
  | allocate nSize fails =>
    obtain ⟨r, -, heq⟩ := Option.map_eq_some_iff.mp hs
    obtain ⟨rfl, rfl⟩ := Prod.mk.inj heq
    exact h.quiet _ (fun _ hcall => hcall) fun _ _ => List.not_mem_nil
  | deAllocate p nSize =>
    simp only [Outbound.step] at hs
    split_ifs at hs
    obtain ⟨m, -, heq⟩ := Option.map_eq_some_iff.mp hs
    obtain ⟨rfl, rfl⟩ := Prod.mk.inj heq
    exact h.quiet _ (fun _ hcall => hcall) fun _ _ => List.not_mem_nil
  | store p offset b =>
    simp only [Outbound.step] at hs
    split_ifs at hs
    obtain ⟨rfl, rfl⟩ := Prod.mk.inj (Option.some.inj hs)
    exact h.quiet _ (fun _ hcall => hcall) fun _ _ => List.not_mem_nil

theorem framed_of_exec {uninit : Nat → VPointer} {heap : Heap}
    (h : exec (traced (step w pl)) (.opened pl uninit heap, []) es = some (s, log)) :
    Framed es s log := by
  refine exec_induction (P := fun es x => Framed es x.1 x.2) ?_ (fun es x e y ih hstep => ?_) h
  · exact ⟨fun _ hcall => absurd hcall List.not_mem_nil, fun _ _ hmem => absurd hmem
      List.not_mem_nil⟩
  · obtain ⟨out, hstep, hlog⟩ := traced_eq_some.mp hstep
    rw [hlog]
    exact ih.step hstep

theorem mem_sentTo {c : Nat} {message : List VByte} (h : message ∈ sentTo c log) :
    .sent c message ∈ log := by
  obtain ⟨x, hx, hmessage⟩ := List.mem_filterMap.mp h
  obtain ⟨pre, post, hlog, -, -⟩ := mem_sinceLast.mp hx
  cases x with
  | sent d m =>
    simp only [Output.sentTo] at hmessage
    split_ifs at hmessage with hd
    obtain rfl := Option.some.inj hmessage
    rw [hlog, ← hd]
    simp
  | _ => cases hmessage

theorem exists_frames {ms : List (List VByte)}
    (h : ∀ m ∈ ms, ∃ f : Frame, f.encode = m ∧ f.Given es) :
    ∃ fs : List Frame, fs.map Frame.encode = ms ∧ ∀ f ∈ fs, f.Given es := by
  induction ms with
  | nil => exact ⟨[], rfl, fun _ hf => absurd hf List.not_mem_nil⟩
  | cons m ms ih =>
    obtain ⟨f, hf, hgiven⟩ := h m List.mem_cons_self
    obtain ⟨fs, hfs, hrest⟩ := ih fun m' hm' => h m' (List.mem_cons_of_mem m hm')
    refine ⟨f :: fs, by rw [List.map_cons, hf, hfs], fun g hg => ?_⟩
    rcases List.mem_cons.mp hg with rfl | hg
    · exact hgiven
    · exact hrest g hg

/-- What goes out over a session since its queue was last cleared are whole packets that callers
gave, in the order they were sent, and no part of it, wherever it breaks off, reads as other
packets than the first of these. -/
theorem outbound_framed {w : Nat} (hw : 32 ≤ w) {uninit : Nat → VPointer} {heap : Heap}
    (hfits : ∀ e ∈ es, e.Fits)
    (h : exec (traced (step w pl)) (.opened pl uninit heap, []) es = some (s, log)) (c : Nat) :
    ∃ fs : List Frame, sentTo c log = fs.map Frame.encode ∧ (∀ f ∈ fs, f.Given es) ∧
      wroteTo c log = (fs.take (wroteTo c log).length).map Frame.encode ∧
      ∀ (gs : List Frame) (rest wire : List VByte), wire <+: (sentTo c log).flatten →
        wire = gs.flatMap Frame.encode ++ rest → gs <+: fs := by
  have hframed := framed_of_exec h
  have horder := (inv_of_exec hw hfits h).order c
  obtain ⟨fs, hfs, hgiven⟩ := exists_frames fun m hm => hframed.sent c m (mem_sentTo hm)
  refine ⟨fs, hfs.symm, hgiven, ?_, fun gs rest wire hwire heq => ?_⟩
  · rw [List.map_take, hfs, ← horder, List.take_left]
  · refine Frame.selfDelimiting.isPrefix Frame.encode_ne_nil ?_
    rw [← hfs, ← List.flatMap_def] at hwire
    refine List.IsPrefix.trans ⟨rest, heq.symm⟩ hwire

/-- Two packets of a room, the second of which is still in the queue. -/
theorem outbound_framed_two :
    let es : List Event := [.createSession, .sendPacket 3 0 0 .empty false, .sendBuffer 0 0,
      .finish 0, .sendPacket 4 1 1 .empty false, .sendBuffer 0 0, .handleWrite 0 0 false]
    ∃ s log, exec (traced (step 64 .other)) (.opened .other (fun _ => 0) fun _ _ => 0, []) es =
        some (s, log) ∧
      ∃ fs : List Frame, fs.map Frame.header = [⟨0, 0, 0, 3⟩, ⟨0, 1, 1, 4⟩] ∧
        wroteTo 0 log = (fs.take 1).map Frame.encode := by
  intro es
  have hfits : ∀ e ∈ es, e.Fits := by
    intro e he
    simp only [es, List.mem_cons, List.not_mem_nil, or_false] at he
    rcases he with rfl | rfl | rfl | rfl | rfl | rfl | rfl <;>
      first | trivial | exact (by decide : sizeofHeader + 0 ≤ 2 ^ 31)
  obtain ⟨s, log, h, hsent, hwrote⟩ : ∃ s log, exec (traced (step 64 .other))
      (.opened .other (fun _ => 0) fun _ _ => 0, []) es = some (s, log) ∧
      sentTo 0 log = [message ⟨0, 0, 0, 3⟩ .empty, message ⟨0, 1, 1, 4⟩ .empty] ∧
      (wroteTo 0 log).length = 1 := ⟨_, _, rfl, rfl, rfl⟩
  obtain ⟨fs, hfs, -, htake, -⟩ := outbound_framed (by decide) hfits h 0
  refine ⟨s, log, h, fs, ?_, hwrote ▸ htake⟩
  have hframes : fs.map Frame.encode = [Frame.encode ⟨⟨0, 0, 0, 3⟩, [], rfl⟩,
      Frame.encode ⟨⟨0, 1, 1, 4⟩, [], rfl⟩] := hfs.symm.trans hsent
  have hfs' : fs = [⟨⟨0, 0, 0, 3⟩, [], rfl⟩, ⟨⟨0, 1, 1, 4⟩, [], rfl⟩] := by
    have hinj : Function.Injective Frame.encode := fun a b hab =>
      (Frame.selfDelimiting a b [] [] (by rw [hab])).1
    exact (List.map_injective_iff.mpr hinj) hframes
  rw [hfs']
  rfl

end VChat.NetWork.Outbound
