import VChat.Transition.Shared
import VChat.NetWork.WriteQueue
import VChat.NetWork.FrameReader
import VChat.Common.AllocatedBytes

/-! What is sent to the clients. A `SendPacket` puts header and packet into one block, which the
queues of all sessions it goes to share, and the last of them to let go gives the block back. -/

namespace VChat.NetWork.Outbound
open Transition Header AllocateManager

abbrev VSimpleBufferRef := WriteQueue.VSimpleBuffer

/-- A `SendPacket` that has made its buffer and not yet returned, with the bytes it was given. -/
structure Call where
  buffer : VSimpleBufferRef
  message : List VByte

/-- `useCount` counts the references to the buffer in a block. `others` is what the rest of the
server has from the allocator. -/
structure Store where
  manager : AllocateManager
  heap : Heap
  useCount : VPointer → Nat
  others : List (VPointer × VUInt32)

structure Server extends Store where
  calls : List Call
  sessions : List WriteQueue.Session

inductive Output where
  | sent (c : Nat) (message : List VByte)
  | wrote (c : Nat) (bytes : List VByte)
  | cleared (c : Nat)

def headerMemory (h : Header) : Memory := fun i => (Header.encode h).getD i 0

def refOf {w : Nat} (b : VSimpleBuffer w) : VSimpleBufferRef :=
  ⟨if b.data = 0 then none else some b.data, b.len.toNat⟩

def content (heap : Heap) (b : VSimpleBufferRef) : List VByte :=
  match b.data with
  | none => []
  | some p => (heap p).read b.len

def message (header : Header) (packet : VConstBuffer) : List VByte :=
  Header.encode header ++ packet.bytes

variable (w : Nat) (pl : Platform)

def makeBuffer (st : Store) (header : Header) (packet : VConstBuffer) (fails : Bool) :
    Option (Option VSimpleBufferRef × Store) := do
  let (b, manager, heap) ← VSimpleBuffer.ofParts pl st.manager st.heap (some (headerMemory header))
    (BitVec.ofNat w sizeofHeader) packet.second (BitVec.ofNat w packet.first) fails
  if b.isValid then
    some (some (refOf b), { st with
      manager := manager.hold b.data (b.len.setWidth 32)
      heap := heap
      useCount := Function.update st.useCount b.data 1 })
  else some (none, { st with manager := manager, heap := heap })

def destruct (st : Store) (b : VSimpleBufferRef) : Option Store :=
  match b.data with
  | none => some st
  | some p =>
    if b.len ≠ 0 then
      let nSize : VUInt32 := BitVec.ofNat 32 b.len
      (deAllocate pl { st.manager with live := st.manager.live.erase (p, nSize) } p nSize).map
        fun m => { st with manager := m }
    else some st

def drop (st : Store) (b : VSimpleBufferRef) : Option Store :=
  match b.data with
  | none => some st
  | some p =>
    let r := release st.useCount p
    let st := { st with useCount := r.1 }
    if r.2 then destruct pl st b else some st

def dropAll (st : Store) : List VSimpleBufferRef → Option Store
  | [] => some st
  | b :: bs => (drop pl st b).bind fun st => dropAll st bs

/-- Only `nLen` and `nType` of the header are set, so `nCrc` and `nSeq` are what the stack held. -/
def sendPacket (s : Server) (nPacketType : VUInt16) (nCrc nSeq : VUInt32) (packet : VConstBuffer)
    (fails : Bool) : Option Server :=
  let header : Header := ⟨BitVec.ofNat 32 packet.first, nCrc, nSeq, nPacketType⟩
  (makeBuffer w pl s.toStore header packet fails).map fun r =>
    match r.1 with
    | some b => { s with
        toStore := r.2
        calls := s.calls ++ [⟨b, message header packet⟩] }
    | none => { s with toStore := r.2 }

def sendBuffer (s : Server) (i c : Nat) : Option (Server × List Output) :=
  match s.calls[i]?, s.sessions[c]? with
  | some call, some x =>
    match call.buffer.data with
    | none => none
    | some p => some
      ({ s with
          useCount := acquire s.useCount p
          sessions := s.sessions.set c (WriteQueue.sendBuffer x call.buffer).1 },
        [.sent c call.message])
  | _, _ => none

def finish (s : Server) (i : Nat) : Option Server :=
  match s.calls[i]? with
  | some call => (drop pl s.toStore call.buffer).map fun st =>
    { s with toStore := st, calls := s.calls.eraseIdx i }
  | none => none

def change (s : Server) (c : Nat) (x : WriteQueue.Session) (bs : List VSimpleBufferRef) :
    Option Server :=
  (dropAll pl s.toStore bs).map fun st => { s with toStore := st, sessions := s.sessions.set c x }

def start (s : Server) (c : Nat) (sockOk : Bool) : Option (Server × List Output) :=
  match s.sessions[c]? with
  | some x =>
    if x.writes = [] then
      if sockOk then
        (change pl s c (WriteQueue.start x true).1 x.datas).map fun t => (t, [.cleared c])
      else some (s, [])
    else none
  | none => none

/-- The `j`-th write outstanding at the session completes; what went out is read from memory. -/
def handleWrite (s : Server) (c j : Nat) (error : Bool) : Option (Server × List Output) :=
  match s.sessions[c]? with
  | some x =>
    match x.writes[j]? with
    | some b =>
      let y := (WriteQueue.handleWrite { x with writes := x.writes.eraseIdx j } error).1
      if error then (change pl s c y []).map fun t => (t, [])
      else (change pl s c y (x.datas.take 1)).map fun t => (t, [.wrote c (content s.heap b)])
    | none => none
  | none => none

/-- The session is destroyed, which its handlers keep from happening while a write is pending. -/
def destroy (s : Server) (c : Nat) : Option (Server × List Output) :=
  match s.sessions[c]? with
  | some x =>
    if x.writes = [] then (change pl s c .new x.datas).map fun t => (t, [.cleared c]) else none
  | none => none

inductive Event where
  | sendPacket (nPacketType : VUInt16) (nCrc nSeq : VUInt32) (packet : VConstBuffer) (fails : Bool)
  | sendBuffer (i c : Nat)
  | finish (i : Nat)
  | createSession
  | start (c : Nat) (sockOk : Bool)
  | handleWrite (c j : Nat) (error : Bool)
  | destroy (c : Nat)
  | allocate (nSize : VUInt32) (fails : Bool)
  | deAllocate (p : VPointer) (nSize : VUInt32)
  | store (p : VPointer) (offset : Nat) (b : VByte)

/-- The rest of the server gives back, and writes to, what it has from the allocator. -/
def step (s : Server) : Event → Option (Server × List Output)
  | .sendPacket nPacketType nCrc nSeq packet fails =>
    (sendPacket w pl s nPacketType nCrc nSeq packet fails).map fun t => (t, [])
  | .sendBuffer i c => sendBuffer s i c
  | .finish i => (finish pl s i).map fun t => (t, [])
  | .createSession => some ({ s with sessions := s.sessions ++ [.new] }, [])
  | .start c sockOk => start pl s c sockOk
  | .handleWrite c j error => handleWrite pl s c j error
  | .destroy c => destroy pl s c
  | .allocate nSize fails =>
    (s.manager.allocate pl nSize fails).map fun r =>
      ({ s with
          manager := r.2.hold r.1 nSize
          others := if r.1 = 0 then s.others else (r.1, nSize) :: s.others }, [])
  | .deAllocate p nSize =>
    if s.others.contains (p, nSize) then
      (deAllocate pl { s.manager with live := s.manager.live.erase (p, nSize) } p nSize).map
        fun m => ({ s with manager := m, others := s.others.erase (p, nSize) }, [])
    else none
  | .store p offset b =>
    if p ∈ s.others.map Prod.fst then
      some ({ s with heap := Function.update s.heap p ((s.heap p).store offset [b]) }, [])
    else none

end VChat.NetWork.Outbound
