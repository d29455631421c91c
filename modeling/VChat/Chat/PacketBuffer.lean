import VChat.Chat.Dispatch
import VChat.Common.AllocatedBytes

/-! Packets that arrive in two fragments: the block they are gathered in, and who releases it. -/

namespace VChat.PacketBuffer
open Dispatch Transition

/-- `memcpy` of a fragment, which does nothing when there are no bytes in it. -/
def copyFragment (heap : Heap) (p : VPointer) (offset : Nat) (buff : VConstBuffer) : Option Heap :=
  VSimpleBuffer.copyPart heap p offset buff.second (BitVec.ofNat 32 buff.first)

def packetOf (first : VUInt32) (second : Option Memory) : Option VConstBuffer :=
  if h : first.toNat ≠ 0 → second.isSome then some ⟨first.toNat, second, first.isLt, h⟩ else none

/-- `block` is what `Allocate` gave out, null if it was not called. -/
structure Received where
  world : World
  result : Bool
  reports : List Report
  block : VPointer

variable (net : Network) (pl : Platform)

/-- The part of `ReceivePacket` behind the gate. -/
def gather (now : VTime) (w : World) (m : AllocateManager) (heap : Heap) (conn : VSessionRef)
    (user : Option VChatUserRef) (header : Header) (buff1 buff2 : VConstBuffer) (fails : Bool) :
    Option Received := do
  let (p, _) ← m.allocate pl header.nLen fails
  let heap ← copyFragment heap p 0 buff1
  let heap ← copyFragment heap p buff1.first buff2
  let packet ← packetOf header.nLen (if p = 0 then none else some (heap p))
  let (returned, reports) := onReceive net now w conn user header packet false
  let (t, ret) ← returned
  some ⟨t, ret, reports, p⟩

/-- `ReceivePacket` with the packet in two fragments. -/
def receivePacket (now : VTime) (w : World) (m : AllocateManager) (heap : Heap)
    (conn : VSessionRef) (user : Option VChatUserRef) (header : Header)
    (buff1 buff2 : VConstBuffer) (fails : Bool) : Option Received :=
  match user with
  | some u =>
    if !net.canReceivePacket (w.user u) ∨ w.getSession u ≠ some conn then
      some ⟨w, false, [.refused user], 0⟩
    else gather net pl now w m heap conn user header buff1 buff2 fails
  | none =>
    if (header.nType.toNat : Int) ≠ net.types.c2sDbLogin then
      some ⟨w, false, [.refused user], 0⟩
    else gather net pl now w m heap conn user header buff1 buff2 fails

inductive Disposal where
  | deAllocated (nSize : Nat)
  | takenOver (manager : Manager)
deriving DecidableEq

/-- The database takes the block over, and the guilds when told to by their flag, `!bOwnMem`. -/
def disposal (bOwnMem : Bool) : Report → Option Disposal
  | .deAllocate _ nSize => some (.deAllocated nSize)
  | .reached .database _ _ _ _ => some (.takenOver .database)
  | .reached .guild _ _ _ _ => if !bOwnMem then some (.takenOver .guild) else none
  | _ => none

def disposals (reports : List Report) : List Disposal := reports.filterMap (disposal false)

/-- A block is given back once, with its size, or taken over once, and not both. -/
def Released (nSize : Nat) (reports : List Report) : Prop :=
  disposals reports = [.deAllocated nSize] ∨ ∃ manager, disposals reports = [.takenOver manager]

variable {net pl} {now : VTime} {w : World} {m : AllocateManager} {heap : Heap}
variable {conn : VSessionRef} {user : Option VChatUserRef} {u : VChatUserRef} {header : Header}
variable {buff1 buff2 packet : VConstBuffer}

def connected : World :=
  { World.start with
    user := fun u => { World.start.user u with session := some u }
    alive := fun _ => true }

def oneByte (b : VByte) : VConstBuffer := ⟨1, some fun _ => b, by decide, fun _ => rfl⟩

end VChat.PacketBuffer
