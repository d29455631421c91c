import VChat.Codec.LittleEndian
import VChat.Codec.Reader
import VChat.Common.Defines

/-! The inbound side of a session: the chain of completion handlers that reads the flow
byte, and then a header and a body at a time. -/

namespace VChat.Header
open Codec

def sizeofHeader : Nat := 14

def encode (h : Header) : List VByte :=
  bytesOf 4 h.nLen ++ (bytesOf 4 h.nCrc ++ (bytesOf 4 h.nSeq ++ bytesOf 2 h.nType))

def decode (bs : List VByte) : Header where
  nLen := wordOf 32 (bs.take 4)
  nCrc := wordOf 32 ((bs.drop 4).take 4)
  nSeq := wordOf 32 (((bs.drop 4).drop 4).take 4)
  nType := wordOf 16 ((((bs.drop 4).drop 4).drop 4).take 2)

theorem length_encode (h : Header) : (encode h).length = sizeofHeader := by
  simp [encode, sizeofHeader]

theorem decode_encode (h : Header) : decode (encode h) = h := by
  have htype : (bytesOf 2 h.nType).take 2 = bytesOf 2 h.nType := List.take_of_length_le (by simp)
  simp [decode, encode, htype, wordOf_bytesOf]

theorem encode_decode {bs : List VByte} (h : bs.length = sizeofHeader) :
    encode (decode bs) = bs := by
  unfold sizeofHeader at h
  simp only [encode, decode]
  have htype : (((bs.drop 4).drop 4).drop 4).take 2 = ((bs.drop 4).drop 4).drop 4 :=
    List.take_of_length_le (by simp [h])
  rw [bytesOf_wordOf (by simp; omega) (by decide), bytesOf_wordOf (by simp; omega) (by decide),
    bytesOf_wordOf (by simp; omega) (by decide), bytesOf_wordOf (by simp; omega) (by decide),
    htype, List.take_append_drop, List.take_append_drop, List.take_append_drop]

end VChat.Header

namespace VChat.NetWork.FrameReader
open Codec Header

def maxLength : Nat := 1024
def headerPolicyLength : Nat := 23 - 1

def chars (text : String) : List VByte := text.toList.map fun c => BitVec.ofNat 8 c.toNat

def requestPolicy : List VByte := chars "<policy-file-request/>" ++ [0]

inductive Target where
  | header
  | data

def Target.capacity : Target → Nat
  | .header => sizeofHeader
  | .data => maxLength

inductive Handler where
  | handlerReadFlow
  | handlerReadPolicy
  | handleReadHeader
  | handleReadBody

/-- A pending `async_read`: where the bytes go, how many, and the completion handler. -/
structure Read where
  target : Target
  offset : Nat
  length : Nat
  handler : Handler
  length_pos : 0 < length

structure Session where
  data : Memory
  header : Header
  user : Option Nat
  pending : Option Read

inductive Output where
  | asyncRead (r : Read)
  | receivePacket (user : Option Nat) (header : Header) (buff : VConstBuffer)
  | writePolicy
  | reset

def readData (s : Session) (r : Read) : Session × List Output :=
  ({ s with pending := some r }, [.asyncRead r])

def policyByte : VByte := BitVec.ofNat 8 '<'.toNat
def flowByte : VByte := BitVec.ofNat 8 'A'.toNat

def headerRead : Read := ⟨.header, 0, sizeofHeader, .handleReadHeader, by decide⟩
def flowRead : Read := ⟨.data, 0, 1, .handlerReadFlow, by decide⟩
def policyRead : Read := ⟨.data, 1, headerPolicyLength, .handlerReadPolicy, by decide⟩

def bodyRead (n : Nat) (h : 0 < n) : Read := ⟨.data, 0, n, .handleReadBody, h⟩

def readHeader (s : Session) : Session × List Output := readData s headerRead

def readFlow (s : Session) : Session × List Output := readData s flowRead

def handlerError (s : Session) : Session × List Output := (s, [.reset])

def handlerReadFlow (s : Session) (error : Bool) : Session × List Output :=
  if !error then
    if s.data 0 = policyByte then readData s policyRead
    else if s.data 0 = flowByte then readHeader s
    else (s, [])
  else handlerError s

def handlerReadPolicy (s : Session) (error : Bool) : Session × List Output :=
  if !error then
    if s.data.read (headerPolicyLength + 1) = requestPolicy then (s, [.writePolicy]) else (s, [])
  else handlerError s

def bodyBuffer (s : Session) : VConstBuffer :=
  ⟨s.header.nLen.toNat, some s.data, s.header.nLen.isLt, fun _ => rfl⟩

def handleReadBody (sProcessPacket : Bool) (s : Session) (error : Bool) :
    Session × List Output :=
  if !error then
    let out := if sProcessPacket then [.receivePacket s.user s.header (bodyBuffer s)] else []
    ((readHeader s).1, out ++ (readHeader s).2)
  else handlerError s

def handleReadHeader (sProcessPacket : Bool) (s : Session) (error : Bool) :
    Session × List Output :=
  if !error && decide (s.header.nLen.toNat < maxLength) then
    if h : 0 < s.header.nLen.toNat then
      readData s (bodyRead s.header.nLen.toNat h)
    else handleReadBody sProcessPacket s error
  else handlerError s

def handle (sProcessPacket : Bool) (s : Session) (error : Bool) :
    Handler → Session × List Output
  | .handlerReadFlow => handlerReadFlow s error
  | .handlerReadPolicy => handlerReadPolicy s error
  | .handleReadHeader => handleReadHeader sProcessPacket s error
  | .handleReadBody => handleReadBody sProcessPacket s error

def store (s : Session) (r : Read) (bs : List VByte) : Session :=
  match r.target with
  | .header => { s with header := Header.decode bs, pending := none }
  | .data => { s with data := s.data.store r.offset bs, pending := none }

def reader (sProcessPacket : Bool) : Reader Session VByte Output where
  ask s := s.pending.map Read.length
  complete s bs :=
    match s.pending with
    | none => (s, [])
    | some r => handle sProcessPacket (store s r bs) false r.handler
  abort s :=
    match s.pending with
    | none => (s, [])
    | some r => handle sProcessPacket { s with pending := none } true r.handler
  ask_pos s n h := by
    obtain ⟨r, -, rfl⟩ := Option.map_eq_some_iff.mp h
    exact r.length_pos

def receive (s : Session) (stream : List VByte) : List Output :=
  (readFlow s).2 ++ (reader true).outputs (readFlow s).1 stream

def reads (out : List Output) : List Read :=
  out.filterMap fun | .asyncRead r => some r | _ => none

def delivered (out : List Output) : List (Header × List VByte) :=
  out.filterMap fun | .receivePacket _ h b => some (h, b.bytes) | _ => none

structure Packet where
  nCrc : VUInt32
  nSeq : VUInt32
  nType : VUInt16
  body : List VByte
  body_lt : body.length < maxLength

namespace Packet

def header (p : Packet) : Header := ⟨BitVec.ofNat 32 p.body.length, p.nCrc, p.nSeq, p.nType⟩

def encode (p : Packet) : List VByte := p.header.encode ++ p.body

def delivery (p : Packet) : Header × List VByte := (p.header, p.body)

end Packet

/-- No packet starts here: the header is incomplete, announces too long a body, or its body
is incomplete. -/
def Stops (rest : List VByte) : Prop :=
  rest.length < sizeofHeader ∨ maxLength ≤ (Header.decode (rest.take sizeofHeader)).nLen.toNat ∨
    rest.length < sizeofHeader + (Header.decode (rest.take sizeofHeader)).nLen.toNat

theorem Packet.header_nLen (p : Packet) : p.header.nLen.toNat = p.body.length := by
  have hlt := p.body_lt
  unfold maxLength at hlt
  simp only [Packet.header, BitVec.toNat_ofNat]
  omega

theorem Packet.length_encode (p : Packet) : p.encode.length = sizeofHeader + p.body.length := by
  rw [Packet.encode, List.length_append, Header.length_encode]

theorem Packet.delivery_injective : Function.Injective Packet.delivery := by
  rintro ⟨crc, seq, type, body, hlt⟩ ⟨crc', seq', type', body', hlt'⟩ h
  simp only [Packet.delivery, Packet.header, Prod.mk.injEq, Header.mk.injEq] at h
  obtain ⟨⟨-, rfl, rfl, rfl⟩, rfl⟩ := h
  rfl

theorem exists_packet_of_not_stops {rest : List VByte} (h : ¬ Stops rest) :
    ∃ (p : Packet) (tail : List VByte), rest = p.encode ++ tail := by
  simp only [Stops, not_or, Nat.not_lt, Nat.not_le] at h
  obtain ⟨hhead, hlen, hbody⟩ := h
  have htake : (rest.take sizeofHeader).length = sizeofHeader := by
    rw [List.length_take, Nat.min_eq_left hhead]
  have henc := Header.encode_decode htake
  generalize Header.decode (rest.take sizeofHeader) = hdr at hlen hbody henc
  have hblen : ((rest.drop sizeofHeader).take hdr.nLen.toNat).length = hdr.nLen.toNat := by
    rw [List.length_take, List.length_drop]
    omega
  have hhdr : (⟨BitVec.ofNat 32 ((rest.drop sizeofHeader).take hdr.nLen.toNat).length, hdr.nCrc,
      hdr.nSeq, hdr.nType⟩ : Header) = hdr := by
    rw [hblen, BitVec.ofNat_toNat, BitVec.setWidth_eq]
  refine ⟨⟨hdr.nCrc, hdr.nSeq, hdr.nType, (rest.drop sizeofHeader).take hdr.nLen.toNat,
    by rwa [hblen]⟩, (rest.drop sizeofHeader).drop hdr.nLen.toNat, ?_⟩
  rw [Packet.encode, Packet.header, hhdr, henc, List.append_assoc, List.take_append_drop,
    List.take_append_drop]

theorem exists_packets (stream : List VByte) :
    ∃ (ps : List Packet) (rest : List VByte),
      stream = ps.flatMap Packet.encode ++ rest ∧ Stops rest := by
  induction hk : stream.length using Nat.strongRecOn generalizing stream with
  | ind k ih =>
    subst hk
    by_cases hs : Stops stream
    · exact ⟨[], stream, rfl, hs⟩
    · obtain ⟨p, tail, rfl⟩ := exists_packet_of_not_stops hs
      have hlt : tail.length < (p.encode ++ tail).length := by
        rw [List.length_append, p.length_encode, sizeofHeader]
        omega
      obtain ⟨ps, rest, rfl, hstop⟩ := ih _ hlt tail rfl
      exact ⟨p :: ps, rest, by simp, hstop⟩

/-! ### Running the handlers -/

theorem delivered_append (as bs : List Output) :
    delivered (as ++ bs) = delivered as ++ delivered bs := List.filterMap_append

theorem delivered_complete {s : Session} {r : Read} (h : s.pending = some r)
    {stream : List VByte} (hn : r.length ≤ stream.length) :
    delivered ((reader true).outputs s stream) =
      delivered (handle true (store s r (stream.take r.length)) false r.handler).2 ++
      delivered ((reader true).outputs
        (handle true (store s r (stream.take r.length)) false r.handler).1
        (stream.drop r.length)) := by
  have hask : (reader true).ask s = some r.length := by simp [reader, h]
  rw [Reader.outputs_complete hask hn, delivered_append]
  simp only [reader, h]

theorem delivered_abort {s : Session} {r : Read} (h : s.pending = some r)
    {stream : List VByte} (hn : stream.length < r.length) :
    delivered ((reader true).outputs s stream) = [] := by
  have hask : (reader true).ask s = some r.length := by simp [reader, h]
  rw [Reader.outputs_abort hask hn]
  simp only [reader, h]
  cases r.handler <;> rfl

theorem delivered_idle {s : Session} (h : s.pending = none) (stream : List VByte) :
    delivered ((reader true).outputs s stream) = [] := by
  rw [Reader.outputs_idle (by simp [reader, h])]
  rfl

theorem delivered_handleReadBody (s : Session) :
    delivered (handleReadBody true s false).2 = [(s.header, s.data.read s.header.nLen.toNat)] :=
  rfl

theorem delivered_body {s : Session} (hpos : 0 < s.header.nLen.toNat)
    (h : s.pending = some (bodyRead s.header.nLen.toNat hpos)) {body : List VByte}
    (hbody : body.length = s.header.nLen.toNat) (rest : List VByte) :
    ∃ t : Session, t.pending = some headerRead ∧
      delivered ((reader true).outputs s (body ++ rest)) =
        (s.header, body) :: delivered ((reader true).outputs t rest) := by
  have hlen : (bodyRead s.header.nLen.toNat hpos).length = body.length := hbody.symm
  have hstore : store s (bodyRead s.header.nLen.toNat hpos) body =
      { s with data := s.data.store 0 body, pending := none } := rfl
  refine ⟨(handleReadBody true { s with data := s.data.store 0 body, pending := none } false).1,
    rfl, ?_⟩
  rw [delivered_complete h (by rw [hlen, List.length_append]; omega), hlen, List.take_left,
    List.drop_left, hstore]
  simp only [handle, bodyRead, delivered_handleReadBody, ← hbody, Memory.read_store,
    List.singleton_append]

theorem delivered_packet {s : Session} (h : s.pending = some headerRead) (p : Packet)
    (rest : List VByte) : ∃ t : Session, t.pending = some headerRead ∧
      delivered ((reader true).outputs s (p.encode ++ rest)) =
        p.delivery :: delivered ((reader true).outputs t rest) := by
  have hhl : headerRead.length = p.header.encode.length := (Header.length_encode _).symm
  have hnlen := p.header_nLen
  have hlt : p.header.nLen.toNat < maxLength := hnlen ▸ p.body_lt
  let s' : Session := { s with header := p.header, pending := none }
  have hstore : store s headerRead p.header.encode = s' := by
    simp [s', store, headerRead, Header.decode_encode]
  rw [Packet.encode, List.append_assoc,
    delivered_complete h (by rw [hhl, List.length_append]; omega), hhl, List.take_left,
    List.drop_left, hstore]
  by_cases hpos : 0 < p.header.nLen.toNat
  · have hread : handle true s' false headerRead.handler =
        readData s' (bodyRead p.header.nLen.toNat hpos) := by
      simp [handle, headerRead, handleReadHeader, s', hlt, hpos]
    obtain ⟨t, ht, hout⟩ := delivered_body (s := (readData s' (bodyRead _ hpos)).1)
      hpos rfl hnlen.symm rest
    refine ⟨t, ht, ?_⟩
    rw [hread, hout]
    rfl
  · -- the zero-length shortcut: the body handler runs at once
    have hbody : p.body = [] := List.length_eq_zero_iff.mp (by omega)
    have hread : handle true s' false headerRead.handler = handleReadBody true s' false := by
      simp [handle, headerRead, handleReadHeader, s', hlt, hpos]
    refine ⟨(handleReadBody true s' false).1, rfl, ?_⟩
    have hzero : p.header.nLen.toNat = 0 := Nat.eq_zero_of_not_pos hpos
    rw [hread, delivered_handleReadBody, hbody]
    simp [Packet.delivery, hbody, s', hzero, Memory.read]

theorem delivered_packets {s : Session} (h : s.pending = some headerRead) (ps : List Packet)
    (rest : List VByte) : ∃ t : Session, t.pending = some headerRead ∧
      delivered ((reader true).outputs s (ps.flatMap Packet.encode ++ rest)) =
        ps.map Packet.delivery ++ delivered ((reader true).outputs t rest) := by
  induction ps generalizing s with
  | nil => exact ⟨s, h, rfl⟩
  | cons p ps ih =>
    obtain ⟨t, ht, hp⟩ := delivered_packet h p (ps.flatMap Packet.encode ++ rest)
    obtain ⟨u, hu, hps⟩ := ih ht
    refine ⟨u, hu, ?_⟩
    rw [List.flatMap_cons, List.append_assoc, hp, hps]
    rfl

theorem delivered_stops {s : Session} (h : s.pending = some headerRead) {rest : List VByte}
    (hrest : Stops rest) : delivered ((reader true).outputs s rest) = [] := by
  by_cases hhead : rest.length < sizeofHeader
  · exact delivered_abort h hhead
  · have hlen : headerRead.length ≤ rest.length := Nat.not_lt.mp hhead
    let hdr := Header.decode (rest.take sizeofHeader)
    let s' : Session := { s with header := hdr, pending := none }
    have hstore : store s headerRead (rest.take headerRead.length) = s' := rfl
    have hcase := hrest.resolve_left hhead
    rw [delivered_complete h hlen, hstore]
    by_cases hlarge : hdr.nLen.toNat < maxLength
    · have hshort : rest.length < sizeofHeader + hdr.nLen.toNat :=
        hcase.resolve_left (Nat.not_le.mpr hlarge)
      have hpos : 0 < hdr.nLen.toNat := by omega
      have hread : handle true s' false headerRead.handler =
          readData s' (bodyRead hdr.nLen.toNat hpos) := by
        simp [handle, headerRead, handleReadHeader, s', hlarge, hpos]
      rw [hread, delivered_abort (r := bodyRead hdr.nLen.toNat hpos) rfl]
      · rfl
      · change (rest.drop sizeofHeader).length < hdr.nLen.toNat
        rw [List.length_drop]
        omega
    · have hread : handle true s' false headerRead.handler = handlerError s' := by
        simp [handle, headerRead, handleReadHeader, s', hlarge]
      rw [hread, delivered_idle (s := (handlerError s').1) rfl]
      rfl

theorem delivered_receive_flow (s : Session) (c : VByte) (tail : List VByte) :
    delivered (receive s (c :: tail)) =
      delivered (handlerReadFlow { s with data := s.data.store 0 [c], pending := none } false).2 ++
      delivered ((reader true).outputs
        (handlerReadFlow { s with data := s.data.store 0 [c], pending := none } false).1 tail) := by
  rw [receive, delivered_append, delivered_complete (r := flowRead) rfl (by simp [flowRead])]
  rfl

theorem delivered_receive_nil (s : Session) : delivered (receive s []) = [] := by
  rw [receive, delivered_append, delivered_abort (r := flowRead) rfl (by simp [flowRead])]
  rfl

theorem delivered_receive_of_ne (s : Session) {c : VByte} (hc : c ≠ flowByte)
    (tail : List VByte) : delivered (receive s (c :: tail)) = [] := by
  let s' : Session := { s with data := s.data.store 0 [c], pending := none }
  have hdata : s'.data 0 = c := by simp [s', Memory.store]
  rw [delivered_receive_flow]
  change delivered (handlerReadFlow s' false).2 ++
    delivered ((reader true).outputs (handlerReadFlow s' false).1 tail) = []
  by_cases hpolicy : c = policyByte
  · -- whatever becomes of the policy request, the session does not go on to a header
    have hread : handlerReadFlow s' false = readData s' policyRead := by
      simp [handlerReadFlow, hdata, hpolicy]
    rw [hread]
    by_cases hlen : policyRead.length ≤ tail.length
    · rw [delivered_complete (r := policyRead) rfl hlen]
      have hh (t : Session) : delivered (handlerReadPolicy t false).2 = [] ∧
          (handlerReadPolicy t false).1 = t := by
        unfold handlerReadPolicy
        split_ifs <;> exact ⟨rfl, rfl⟩
      simp only [handle, policyRead, (hh _).1, (hh _).2]
      rw [delivered_idle rfl]
      rfl
    · rw [delivered_abort (r := policyRead) rfl (Nat.not_le.mp hlen)]
      rfl
  · have hread : handlerReadFlow s' false = (s', []) := by
      simp [handlerReadFlow, hdata, hpolicy, hc]
    rw [hread, delivered_idle rfl]
    rfl

theorem delivered_receive (s : Session) : ∃ t : Session, t.pending = some headerRead ∧
    ∀ tail, delivered (receive s (flowByte :: tail)) =
      delivered ((reader true).outputs t tail) := by
  let s' : Session := { s with data := s.data.store 0 [flowByte], pending := none }
  have hdata : s'.data 0 = flowByte := by simp [s', Memory.store]
  have hread : handlerReadFlow s' false = readHeader s' := by
    have hne : flowByte ≠ policyByte := by decide
    simp [handlerReadFlow, hdata, hne]
  refine ⟨(readHeader s').1, rfl, fun tail => ?_⟩
  rw [delivered_receive_flow]
  change delivered (handlerReadFlow s' false).2 ++
    delivered ((reader true).outputs (handlerReadFlow s' false).1 tail) = _
  rw [hread]
  rfl

/-! ### The reads stay inside their buffers -/

def Output.InBounds : Output → Prop
  | .asyncRead r => r.offset + r.length ≤ r.target.capacity
  | _ => True

theorem inBounds_readHeader (s : Session) : ∀ x ∈ (readHeader s).2, x.InBounds := by
  intro x hx
  obtain rfl := List.mem_singleton.mp hx
  exact Nat.le_refl _

theorem inBounds_handleReadBody (p : Bool) (s : Session) (error : Bool) :
    ∀ x ∈ (handleReadBody p s error).2, x.InBounds := by
  intro x hx
  cases error with
  | true =>
    obtain rfl := List.mem_singleton.mp hx
    trivial
  | false =>
    rcases List.mem_append.mp hx with hx | hx
    · cases p with
      | true =>
        obtain rfl := List.mem_singleton.mp hx
        trivial
      | false => cases hx
    · exact inBounds_readHeader s x hx

theorem inBounds_handle (p : Bool) (s : Session) (error : Bool) (h : Handler) :
    ∀ x ∈ (handle p s error h).2, x.InBounds := by
  intro x hx
  cases h with
  | handlerReadFlow =>
    simp only [handle, handlerReadFlow] at hx
    split_ifs at hx
    · obtain rfl := List.mem_singleton.mp hx
      change 1 + headerPolicyLength ≤ maxLength
      decide
    · exact inBounds_readHeader s x hx
    · cases hx
    · obtain rfl := List.mem_singleton.mp hx
      trivial
  | handlerReadPolicy =>
    simp only [handle, handlerReadPolicy] at hx
    split_ifs at hx
    · obtain rfl := List.mem_singleton.mp hx
      trivial
    · cases hx
    · obtain rfl := List.mem_singleton.mp hx
      trivial
  | handleReadHeader =>
    simp only [handle, handleReadHeader] at hx
    split_ifs at hx with hlen
    · obtain rfl := List.mem_singleton.mp hx
      simp only [Bool.and_eq_true, decide_eq_true_eq] at hlen
      change 0 + s.header.nLen.toNat ≤ maxLength
      omega
    · exact inBounds_handleReadBody p s error x hx
    · obtain rfl := List.mem_singleton.mp hx
      trivial
  | handleReadBody => exact inBounds_handleReadBody p s error x hx

theorem inBounds_receive (s : Session) (stream : List VByte) :
    ∀ x ∈ receive s stream, x.InBounds := by
  intro x hx
  rcases List.mem_append.mp hx with hx | hx
  · obtain rfl := List.mem_singleton.mp hx
    change 0 + 1 ≤ maxLength
    decide
  · refine Reader.outputs_forall ?_ ?_ _ _ x hx
    · intro t bs y hy
      cases hp : t.pending with
      | none => simp [reader, hp] at hy
      | some r =>
        simp only [reader, hp] at hy
        exact inBounds_handle true _ false r.handler y hy
    · intro t y hy
      cases hp : t.pending with
      | none => simp [reader, hp] at hy
      | some r =>
        simp only [reader, hp] at hy
        exact inBounds_handle true _ true r.handler y hy

/-- The reader delivers exactly the packets of the stream's maximal well-formed prefix, and
every read fits the buffer it goes to. -/
theorem receive_frames (s : Session) :
    (∀ ps : List Packet, delivered (receive s (flowByte :: ps.flatMap Packet.encode)) =
        ps.map Packet.delivery) ∧
      (∀ stream, stream.head? ≠ some flowByte → delivered (receive s stream) = []) ∧
      (∀ tail, ∃ (ps : List Packet) (rest : List VByte),
        tail = ps.flatMap Packet.encode ++ rest ∧ Stops rest ∧
        delivered (receive s (flowByte :: tail)) = ps.map Packet.delivery ∧
        ∀ (qs : List Packet) (rest' : List VByte),
          tail = qs.flatMap Packet.encode ++ rest' → qs <+: ps) ∧
      ∀ stream, ∀ r ∈ reads (receive s stream), r.offset + r.length ≤ r.target.capacity := by
  obtain ⟨t, ht, hflow⟩ := delivered_receive s
  refine ⟨fun ps => ?_, fun stream hhead => ?_, fun tail => ?_, fun stream r hr => ?_⟩
  · obtain ⟨u, hu, hps⟩ := delivered_packets ht ps []
    rw [hflow, ← List.append_nil (ps.flatMap _), hps,
      delivered_stops hu (.inl (by decide)), List.append_nil]
  · cases stream with
    | nil => exact delivered_receive_nil s
    | cons c tail => exact delivered_receive_of_ne s (fun hc => hhead (by rw [hc]; rfl)) tail
  · obtain ⟨ps, rest, rfl, hstop⟩ := exists_packets tail
    have hps : delivered (receive s (flowByte :: (ps.flatMap Packet.encode ++ rest))) =
        ps.map Packet.delivery := by
      obtain ⟨u, hu, hps⟩ := delivered_packets ht ps rest
      rw [hflow, hps, delivered_stops hu hstop, List.append_nil]
    refine ⟨ps, rest, rfl, hstop, hps, fun qs rest' heq => ?_⟩
    obtain ⟨u, -, hqs⟩ := delivered_packets ht qs rest'
    rw [hflow, heq, hqs] at hps
    exact (List.prefix_map_iff_of_injective Packet.delivery_injective).mp ⟨_, hps⟩
  · obtain ⟨x, hx, hxr⟩ := List.mem_filterMap.mp hr
    have hb := inBounds_receive s stream x hx
    cases x <;> simp only [Option.some.injEq, reduceCtorEq] at hxr
    exact hxr ▸ hb

end VChat.NetWork.FrameReader
