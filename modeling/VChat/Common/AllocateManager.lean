import VChat.Common.Defines
import VChat.Common.SafeRingBuffer
import VChat.Transition.Runs

/-! The allocator: pools of blocks by size class, over `malloc` and `free`. -/

namespace VChat
open Transition

/-- A block of memory; 0 is the null pointer. -/
abbrev VPointer := Nat

abbrev AllocateSlot := SafeRingBuffer VPointer

inductive Platform where
  | win32
  | other

namespace Platform

def maxThread : Platform → Nat
  | win32 => 4
  | other => 8

def defaultSizePool : Platform → Nat
  | win32 => 1000
  | other => 32000

end Platform

def maxSlot : Nat := 16

/-- Each pool of `container` by slot and thread. `blocks` counts the blocks `malloc` has given out,
which are 1, 2 and so on, and `capacity` is what it was asked for; `frees` is what `free` was
called with. `live` is the callers' part: the blocks they hold, with the sizes they asked for. -/
structure AllocateManager where
  container : Nat → Nat → AllocateSlot
  blocks : Nat
  capacity : VPointer → Nat
  frees : List VPointer
  live : List (VPointer × VUInt32)

namespace AllocateManager

/-- The loop ends at the first slot whose size is not below `nSize`; a shift by 32 is undefined. -/
def findSlot (nSize : VUInt32) : Option Nat :=
  (List.range 32).find? fun slot => !decide (1#32 <<< slot < nSize)

def malloc (m : AllocateManager) (bytes : Nat) (fails : Bool) : VPointer × AllocateManager :=
  if fails then (0, m)
  else
    let pointer := m.blocks + 1
    (pointer, { m with
      blocks := pointer
      capacity := fun p => if p = pointer then bytes else m.capacity p })

def free (m : AllocateManager) (pointer : VPointer) : AllocateManager :=
  if pointer = 0 then m else { m with frees := m.frees ++ [pointer] }

def popFirst (pools : Nat → AllocateSlot) : List Nat → VPointer × (Nat → AllocateSlot)
  | [] => (0, pools)
  | i :: is =>
    let r := (pools i).pop
    let pools := Function.update pools i r.2
    if r.1 ≠ 0 then (r.1, pools) else popFirst pools is

def pushFirst (pools : Nat → AllocateSlot) (pointer : VPointer) :
    List Nat → Bool × (Nat → AllocateSlot)
  | [] => (false, pools)
  | i :: is =>
    let r := (pools i).push pointer
    let pools := Function.update pools i r.2
    if r.1 then (true, pools) else pushFirst pools pointer is

def setPools (m : AllocateManager) (nSlot : Nat) (pools : Nat → AllocateSlot) : AllocateManager :=
  { m with container := Function.update m.container nSlot pools }

variable (pl : Platform)

def allocate (m : AllocateManager) (nSize : VUInt32) (fails : Bool) :
    Option (VPointer × AllocateManager) :=
  (findSlot nSize).map fun nSlot =>
    if nSlot < maxSlot then
      let r := popFirst (m.container nSlot) (List.range pl.maxThread)
      let m := m.setPools nSlot r.2
      if r.1 = 0 then m.malloc (2 ^ nSlot) fails else (r.1, m)
    else m.malloc nSize.toNat fails

def deAllocate (m : AllocateManager) (pointer : VPointer) (nSize : VUInt32) :
    Option AllocateManager :=
  if pointer = 0 then some m
  else
    (findSlot nSize).map fun nSlot =>
      if nSlot < maxSlot then
        let r := pushFirst (m.container nSlot) pointer (List.range pl.maxThread)
        let m := m.setPools nSlot r.2
        if r.1 then m else m.free pointer
      else m.free pointer

def held (m : AllocateManager) : List VPointer :=
  (List.range maxSlot).flatMap fun i =>
    (List.range pl.maxThread).flatMap fun j => (m.container i j).held

def stop (m : AllocateManager) : AllocateManager := (m.held pl).foldl free m

def start (m : AllocateManager) : AllocateManager :=
  { m with container := fun i j => (m.container i j).setSize (pl.defaultSizePool / pl.maxThread) }

def new (uninit : Nat → VPointer) : AllocateManager :=
  ⟨fun _ _ => SafeRingBuffer.new uninit, 0, fun _ => 0, [], []⟩

inductive Event
  | start
  | stop
  | allocate (nSize : VUInt32) (fails : Bool)
  | deAllocate (pointer : VPointer) (nSize : VUInt32)

def hold (m : AllocateManager) (pointer : VPointer) (nSize : VUInt32) : AllocateManager :=
  if pointer = 0 then m else { m with live := (pointer, nSize) :: m.live }

def step (m : AllocateManager) : Event → Option AllocateManager
  | .start => some (m.start pl)
  | .stop => some (m.stop pl)
  | .allocate nSize fails => (m.allocate pl nSize fails).map fun r => r.2.hold r.1 nSize
  | .deAllocate pointer nSize =>
    if (pointer, nSize) ∈ m.live then
      deAllocate pl { m with live := m.live.erase (pointer, nSize) } pointer nSize
    else none

end AllocateManager
end VChat
