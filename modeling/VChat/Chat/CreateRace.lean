import VChat.Chat.UserManager
import VChat.Transition.Runs

/-! Any number of threads in `CreateUser` and `RemoveUser`, interleaved by the sections they
run under the lock of the registry. -/

namespace VChat.CreateRace
open Transition World

/-- Where a thread stands in `CreateUser`: the section it runs next. -/
inductive Call where
  | idle
  | create (allocated : Bool) (nUserID : VInt32) (session : Option VSessionRef) (strName : String)
  | count (user : VChatUserRef) (nUserID : VInt32)
  | insert (user : VChatUserRef) (nUserID : VInt32)
  | finish (user : VChatUserRef) (nUserID : VInt32)
deriving DecidableEq

structure Server where
  world : World
  call : Nat → Call

inductive Event where
  | createUser (i : Nat) (allocated : Bool) (nUserID : VInt32) (session : Option VSessionRef)
      (strName : String)
  | proceed (i : Nat)
  | removeUser (pUser : VChatUserRef)
deriving DecidableEq

inductive Output where
  | inserted (i : Nat) (key : VInt32) (user : VChatUserRef)
  | returned (i : Nat) (user : Option VChatUserRef)
deriving DecidableEq

namespace Server

def setCall (s : Server) (i : Nat) (c : Call) : Server :=
  { s with call := fun j => if j = i then c else s.call j }

@[simp] theorem setCall_world (s : Server) (i : Nat) (c : Call) :
    (s.setCall i c).world = s.world := rfl

theorem setCall_call (s : Server) (i j : Nat) (c : Call) :
    (s.setCall i c).call j = if j = i then c else s.call j := rfl

end Server

variable (sv : UserServices)

/-- The next section of thread `i`. The result of `AddUser` is not looked at: the user is
returned whether the second count allowed the insertion or not. -/
def proceed (s : Server) (i : Nat) : Call → Option (Server × List Output)
  | .idle => none
  | .create allocated nUserID session strName =>
    if allocated then
      some (({ s with world := s.world.prepareUser nUserID session strName }).setCall i
        (.count s.world.nextUser nUserID), [])
    else some (s.setCall i .idle, [.returned i none])
  | .count user nUserID =>
    if s.world.getUserCount < sv.nMaxPlayer then some (s.setCall i (.insert user nUserID), [])
    else some (s.setCall i (.finish user nUserID), [])
  | .insert user nUserID =>
    some (({ s with world := s.world.insertUser sv user }).setCall i (.finish user nUserID),
      [.inserted i (s.world.user user).nPlayerID user])
  | .finish user _ => some (s.setCall i .idle, [.returned i (some user)])

def step (s : Server) : Event → Option (Server × List Output)
  | .createUser i allocated nUserID session strName =>
    if s.call i = .idle then
      if s.world.getUserCount < sv.nMaxPlayer then
        some (s.setCall i (.create allocated nUserID session strName), [])
      else some (s, [.returned i none])
    else none
  | .proceed i => proceed sv s i (s.call i)
  | .removeUser pUser => some ({ s with world := (s.world.removeUser sv pUser).1 }, [])

inductive Effect (s : Server) : Event → Server → List Output → Prop
  | started {i : Nat} {allocated : Bool} {nUserID : VInt32} {session : Option VSessionRef}
      {strName : String} (hidle : s.call i = .idle) :
      Effect s (.createUser i allocated nUserID session strName)
        (s.setCall i (.create allocated nUserID session strName)) []
  | refused {i : Nat} {allocated : Bool} {nUserID : VInt32} {session : Option VSessionRef}
      {strName : String} :
      Effect s (.createUser i allocated nUserID session strName) s [.returned i none]
  | created {i : Nat} {nUserID : VInt32} {session : Option VSessionRef} {strName : String}
      (hcall : s.call i = .create true nUserID session strName) :
      Effect s (.proceed i)
        (({ s with world := s.world.prepareUser nUserID session strName }).setCall i
          (.count s.world.nextUser nUserID)) []
  | unallocated {i : Nat} {nUserID : VInt32} {session : Option VSessionRef} {strName : String}
      (hcall : s.call i = .create false nUserID session strName) :
      Effect s (.proceed i) (s.setCall i .idle) [.returned i none]
  | counted {i : Nat} {user : VChatUserRef} {nUserID : VInt32}
      (hcall : s.call i = .count user nUserID)
      (hroom : s.world.getUserCount < sv.nMaxPlayer) :
      Effect s (.proceed i) (s.setCall i (.insert user nUserID)) []
  | full {i : Nat} {user : VChatUserRef} {nUserID : VInt32}
      (hcall : s.call i = .count user nUserID)
      (hfull : ¬ s.world.getUserCount < sv.nMaxPlayer) :
      Effect s (.proceed i) (s.setCall i (.finish user nUserID)) []
  | inserted {i : Nat} {user : VChatUserRef} {nUserID : VInt32}
      (hcall : s.call i = .insert user nUserID) :
      Effect s (.proceed i)
        (({ s with world := s.world.insertUser sv user }).setCall i (.finish user nUserID))
        [.inserted i (s.world.user user).nPlayerID user]
  | returned {i : Nat} {user : VChatUserRef} {nUserID : VInt32}
      (hcall : s.call i = .finish user nUserID) :
      Effect s (.proceed i) (s.setCall i .idle) [.returned i (some user)]
  | removed {pUser : VChatUserRef} :
      Effect s (.removeUser pUser) { s with world := (s.world.removeUser sv pUser).1 } []

variable {sv}

theorem effect_of_step {s t : Server} {e : Event} {out : List Output}
    (h : step sv s e = some (t, out)) : Effect sv s e t out := by
  cases e with
  | createUser i allocated nUserID session strName =>
    simp only [step] at h
    split_ifs at h with hidle <;> cases h
    · exact .started hidle
    · exact .refused
  | removeUser pUser =>
    cases h
    exact .removed
  | proceed i =>
    simp only [step] at h
    cases hcall : s.call i <;> rw [hcall] at h <;> simp only [proceed] at h
    case idle => cases h
    case create allocated nUserID session strName =>
      cases allocated <;> cases h
      · exact .unallocated hcall
      · exact .created hcall
    case count user nUserID =>
      split_ifs at h with hroom <;> cases h
      · exact .counted hcall hroom
      · exact .full hcall hroom
    case insert user nUserID =>
      cases h
      exact .inserted hcall
    case finish user nUserID =>
      cases h
      exact .returned hcall

end VChat.CreateRace
