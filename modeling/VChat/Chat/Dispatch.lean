import VChat.Chat.ProcessPacket
import VChat.Transition.Runs

/-! What a received packet goes through before it reaches a handler: the session gate, the
security check and the dispatch on its type. -/

namespace VChat.Dispatch
open Transition World

/-- The packet types, and what `ReceivePacket` and `OnReceive` call outside this repository. -/
structure Network where
  types : PacketTypes
  services : Services
  canReceivePacket : VChatUser → Bool
  databaseProcessPacket : World → VChatUserRef → VUInt16 → Option Memory → VUInt32 → World
  processLogin : World → VSessionRef → Option Memory → VUInt32 → World
  guildProcessPacket : World → VChatUserRef → VUInt16 → Option Memory → VUInt32 → Bool → World

inductive Manager where
  | chat
  | database
  | guild
deriving DecidableEq

inductive Report where
  | refused (user : Option VChatUserRef)
  | checked (pPlayer : VChatUserRef) (header : Header) (accepted : Bool)
  | reached (manager : Manager) (pSession : VSessionRef) (pPlayer : VChatUserRef)
      (header : Header) (body : VConstBuffer)
  | login (pSession : VSessionRef)
  | deAllocate (p : Memory) (nSize : Nat)
  | did (action : Action)

def checkSecurity (w : World) (pPlayer : VChatUserRef) (nCRC nSeq : VUInt32)
    (body : VConstBuffer) : World × Bool :=
  let verdict := (w.user pPlayer).checkSecurity nCRC nSeq body.bytes
  (w.modifyUser pPlayer fun u => { u with toVUser := verdict.2 }, verdict.1)

/-- `if (buff.second && !bOwnMem) DeAllocate(..)`. -/
def release (buff : VConstBuffer) (bOwnMem : Bool) : List Report :=
  match buff.second with
  | some p => if bOwnMem then [] else [.deAllocate p buff.first]
  | none => []

variable (net : Network)

/-- Where a handler uses a null pointer there is no world to go on from. -/
def dispatch (now : VTime) (w : World) (pSession : VSessionRef) (pPlayer : VChatUserRef)
    (pHeader : Header) (buff : VConstBuffer) (bOwnMem : Bool) : Option World × List Report :=
  let type : Int := pHeader.nType.toNat
  let nLen : VUInt32 := BitVec.ofNat 32 buff.first
  if type > net.types.c2sGsUnknown ∧ type < net.types.c2sGsCount then
    match processPacket net.types net.services now w pPlayer pHeader buff with
    | some (t, actions) =>
      (some t, .reached .chat pSession pPlayer pHeader buff :: actions.map .did ++
        release buff bOwnMem)
    | none => (none, [.reached .chat pSession pPlayer pHeader buff])
  else if type > net.types.c2sDbUnknown ∧ type < net.types.c2sDbCount then
    (some (net.databaseProcessPacket w pPlayer pHeader.nType buff.second nLen),
      [.reached .database pSession pPlayer pHeader buff])
  else if type > net.types.c2sGuildUnknow ∧ type < net.types.c2sGuildCount then
    (some (net.guildProcessPacket w pPlayer pHeader.nType buff.second nLen (!bOwnMem)),
      [.reached .guild pSession pPlayer pHeader buff])
  else (some w, [])

def onReceive (now : VTime) (w : World) (pSession : VSessionRef) (pPlayer : Option VChatUserRef)
    (pHeader : Header) (buff : VConstBuffer) (bOwnMem : Bool) :
    Option (World × Bool) × List Report :=
  match pPlayer with
  | some pPlayer =>
    let security := checkSecurity w pPlayer pHeader.nCrc pHeader.nSeq buff
    let checked := Report.checked pPlayer pHeader security.2
    if security.2 = false then (some (security.1, false), checked :: release buff bOwnMem)
    else
      let dispatched := dispatch net now security.1 pSession pPlayer pHeader buff bOwnMem
      (dispatched.1.map fun t => (t, true), checked :: dispatched.2)
  | none =>
    if (pHeader.nType.toNat : Int) = net.types.c2sDbLogin then
      (some (net.processLogin w pSession buff.second (BitVec.ofNat 32 buff.first), true),
        .login pSession :: release buff bOwnMem)
    else (some (w, true), [])

/-- `ReceivePacket` with the packet in one buffer, which the session owns. -/
def receivePacket (now : VTime) (w : World) (conn : VSessionRef) (user : Option VChatUserRef)
    (header : Header) (buff : VConstBuffer) : Option (World × Bool) × List Report :=
  match user with
  | some u =>
    if !net.canReceivePacket (w.user u) ∨ w.getSession u ≠ some conn then
      (some (w, false), [.refused user])
    else onReceive net now w conn user header buff true
  | none =>
    if (header.nType.toNat : Int) ≠ net.types.c2sDbLogin then
      (some (w, false), [.refused user])
    else onReceive net now w conn user header buff true

/-- `closeSession` is called on the one user the runs are about. -/
inductive Event where
  | receivePacket (now : VTime) (conn : VSessionRef) (user : Option VChatUserRef)
      (header : Header) (buff : VConstBuffer)
  | closeSession

def step (U : VChatUserRef) (w : World) : Event → Option (World × List Report)
  | .receivePacket now conn user header buff =>
    let received := receivePacket net now w conn user header buff
    received.1.map fun r => (r.1, received.2)
  | .closeSession => some (w.modifyUser U VChatUser.closeSession, [])

/-- What is called outside leaves the key, counter, table and session of `U` alone. -/
structure KeepsUser (U : VChatUserRef) : Prop where
  database : ∀ w u nType packet nSize,
    ((net.databaseProcessPacket w u nType packet nSize).user U).credentials =
      (w.user U).credentials
  login : ∀ w pSession packet nSize,
    ((net.processLogin w pSession packet nSize).user U).credentials = (w.user U).credentials
  guild : ∀ w u nType packet nSize bFree,
    ((net.guildProcessPacket w u nType packet nSize bFree).user U).credentials =
      (w.user U).credentials

def Report.acceptedSeq (U : VChatUserRef) : Report → Option VUInt32
  | .checked pPlayer header true => if pPlayer = U then some header.nSeq else none
  | _ => none

def acceptedSeqs (U : VChatUserRef) (log : List Report) : List VUInt32 :=
  log.filterMap (Report.acceptedSeq U)

inductive Followed (conn : VSessionRef) (user : Option VChatUserRef) (header : Header)
    (body : VConstBuffer) : Report → Prop
  | reached (manager : Manager) (u : VChatUserRef) (hu : user = some u) :
    Followed conn user header body (.reached manager conn u header body)
  | login : Followed conn user header body (.login conn)
  | deAllocate (p : Memory) (nSize : Nat) : Followed conn user header body (.deAllocate p nSize)
  | did (action : Action) : Followed conn user header body (.did action)

variable {net} {U : VChatUserRef} {conn : VSessionRef} {user : Option VChatUserRef}
  {header : Header} {body : VConstBuffer}

theorem acceptedSeqs_append (log out : List Report) :
    acceptedSeqs U (log ++ out) = acceptedSeqs U log ++ acceptedSeqs U out :=
  List.filterMap_append

theorem acceptedSeqs_of_followed {out : List Report}
    (h : ∀ x ∈ out, Followed conn user header body x) : acceptedSeqs U out = [] :=
  List.filterMap_eq_nil_iff.mpr fun x hx => by cases h x hx <;> rfl

theorem followed_release (buff : VConstBuffer) (bOwnMem : Bool) :
    ∀ x ∈ release buff bOwnMem, Followed conn user header body x := by
  unfold release
  intro x hx
  split at hx
  · split_ifs at hx
    · cases hx
    · exact List.mem_singleton.mp hx ▸ .deAllocate ..
  · cases hx

theorem followed_dispatch (now : VTime) (w : World) (u : VChatUserRef) (bOwnMem : Bool) :
    ∀ x ∈ (dispatch net now w conn u header body bOwnMem).2,
      Followed conn (some u) header body x := by
  intro x hx
  simp only [dispatch] at hx
  split_ifs at hx
  · split at hx
    · rw [List.cons_append, List.mem_cons, List.mem_append] at hx
      rcases hx with rfl | hx | hx
      · exact .reached _ u rfl
      · obtain ⟨action, -, rfl⟩ := List.mem_map.mp hx
        exact .did action
      · exact followed_release body bOwnMem x hx
    · exact List.mem_singleton.mp hx ▸ .reached _ u rfl
  · exact List.mem_singleton.mp hx ▸ .reached _ u rfl
  · exact List.mem_singleton.mp hx ▸ .reached _ u rfl
  · cases hx

theorem credentials_dispatch (hnet : KeepsUser net U) {now : VTime} {w t : World}
    {u : VChatUserRef} {bOwnMem : Bool}
    (h : (dispatch net now w conn u header body bOwnMem).1 = some t) :
    (t.user U).credentials = (w.user U).credentials := by
  simp only [dispatch] at h
  split_ifs at h
  · split at h
    · rename_i hprocess
      obtain rfl := Option.some.inj h
      exact keepsCredentials_processPacket net.types net.services hprocess U
    · cases h
  · obtain rfl := Option.some.inj h
    exact hnet.database ..
  · obtain rfl := Option.some.inj h
    exact hnet.guild ..
  · obtain rfl := Option.some.inj h
    rfl

def advanced (u : VChatUser) : VChatUser := { u with nSeq := u.nSeq + 1 }

theorem checkSecurity_cases (w : World) (u : VChatUserRef) (nCRC nSeq : VUInt32)
    (buff : VConstBuffer) :
    checkSecurity w u nCRC nSeq buff = (w.modifyUser u id, false) ∨
      checkSecurity w u nCRC nSeq buff = (w.modifyUser u advanced, true) ∧
        nSeq = (w.user u).nSeq ∧
        (buff.bytes = [] ∨ nCRC = getCRC (w.user u).nKey buff.bytes (w.user u).crcTable) := by
  simp only [checkSecurity, VUser.checkSecurity, List.length_eq_zero_iff]
  have hsame : (w.modifyUser u fun usr => { usr with toVUser := (w.user u).toVUser }) =
      w.modifyUser u id := modifyUser_congr rfl
  split_ifs with hseq hcrc
  · have hadvanced : (w.modifyUser u fun usr =>
        { usr with toVUser := { (w.user u).toVUser with nSeq := (w.user u).nSeq + 1 } }) =
        w.modifyUser u advanced := modifyUser_congr rfl
    exact .inr ⟨Prod.ext hadvanced rfl, hseq, hcrc⟩
  · exact .inl (Prod.ext hsame rfl)
  · exact .inl (Prod.ext hsame rfl)

def Stopped (conn : VSessionRef) (user : Option VChatUserRef) (header : Header)
    (body : VConstBuffer) (x : Report) : Prop :=
  x = .refused user ∨ (∃ u, x = .checked u header false) ∨ Followed conn none header body x

theorem acceptedSeqs_of_stopped {out : List Report}
    (h : ∀ x ∈ out, Stopped conn user header body x) : acceptedSeqs U out = [] := by
  refine List.filterMap_eq_nil_iff.mpr fun x hx => ?_
  rcases h x hx with rfl | ⟨u, rfl⟩ | hf
  · rfl
  · rfl
  · cases hf <;> rfl

theorem receivePacket_cases (hnet : KeepsUser net U) (now : VTime) (w : World)
    (conn : VSessionRef) (user : Option VChatUserRef) (header : Header) (body : VConstBuffer)
    {result : Option (World × Bool)} {out : List Report}
    (h : receivePacket net now w conn user header body = (result, out)) :
    ((∃ t ret, result = some (t, ret) ∧ (t.user U).credentials = (w.user U).credentials) ∧
        ∀ x ∈ out, Stopped conn user header body x) ∨
      ∃ u tail, user = some u ∧ w.getSession u = some conn ∧ header.nSeq = (w.user u).nSeq ∧
        (body.bytes = [] ∨
          header.nCrc = getCRC (w.user u).nKey body.bytes (w.user u).crcTable) ∧
        out = .checked u header true :: tail ∧
        (∀ x ∈ tail, Followed conn user header body x) ∧
        ∀ t ret, result = some (t, ret) →
          (t.user U).credentials = ((w.modifyUser u advanced).user U).credentials := by
  cases user with
  | none =>
    -- without a user nothing is checked, and only a login gets through
    by_cases hlogin : (header.nType.toNat : Int) = net.types.c2sDbLogin
    case neg =>
      simp only [receivePacket, ne_eq, hlogin, not_false_eq_true, if_true] at h
      obtain ⟨rfl, rfl⟩ := Prod.mk.inj h
      exact .inl ⟨⟨_, _, rfl, rfl⟩, fun x hx => .inl (List.mem_singleton.mp hx)⟩
    case pos =>
      simp only [receivePacket, onReceive, ne_eq, hlogin, not_true, if_false, if_true] at h
      obtain ⟨rfl, rfl⟩ := Prod.mk.inj h
      refine .inl ⟨⟨_, _, rfl, hnet.login ..⟩, fun x hx => .inr (.inr ?_)⟩
      rcases List.mem_cons.mp hx with rfl | hx
      · exact .login
      · exact followed_release body true x hx
  | some u =>
    simp only [receivePacket] at h
    split_ifs at h with hgate
    · obtain ⟨rfl, rfl⟩ := Prod.mk.inj h
      exact .inl ⟨⟨_, _, rfl, rfl⟩, fun x hx => .inl (List.mem_singleton.mp hx)⟩
    · have hconn : w.getSession u = some conn := not_not.mp fun hne => hgate (.inr hne)
      simp only [onReceive] at h
      rcases checkSecurity_cases w u header.nCrc header.nSeq body with hcheck | ⟨hcheck, hseq, hcrc⟩
      · rw [hcheck, if_pos rfl] at h
        obtain ⟨rfl, rfl⟩ := Prod.mk.inj h
        refine .inl ⟨⟨_, _, rfl, ?_⟩, fun x hx => ?_⟩
        · rw [modifyUser_user]
          split_ifs <;> rfl
        · rcases List.mem_cons.mp hx with rfl | hx
          · exact .inr (.inl ⟨u, rfl⟩)
          · exact .inr (.inr (followed_release body true x hx))
      · rw [hcheck, if_neg Bool.true_eq_false.mp] at h
        obtain ⟨rfl, rfl⟩ := Prod.mk.inj h
        refine .inr ⟨u, _, rfl, hconn, hseq, hcrc, rfl, followed_dispatch now _ u true, ?_⟩
        intro t ret ht
        obtain ⟨t', ht', heq⟩ := Option.map_eq_some_iff.mp ht
        obtain ⟨rfl, -⟩ := Prod.mk.inj heq
        exact credentials_dispatch hnet ht'

/-- Until its session is closed, `U` has the key and table it was given and a counter equal
to the number of its accepted packets, which are numbered in order. -/
structure Numbered (U : VChatUserRef) (k : VUInt32) (x : World × List Report) : Prop where
  seqs : acceptedSeqs U x.2 =
    (List.range (acceptedSeqs U x.2).length).map (BitVec.ofNat 32)
  armed : (x.1.user U).session = none ∨ (x.1.user U).nKey = k ∧
    (x.1.user U).crcTable = crcTable k ∧
      (x.1.user U).nSeq = BitVec.ofNat 32 (acceptedSeqs U x.2).length

theorem numbered_of_unchanged {k : VUInt32} {x : World × List Report} {t : World}
    {out : List Report} (h : Numbered U k x)
    (hcred : (t.user U).credentials = (x.1.user U).credentials)
    (hout : acceptedSeqs U out = []) : Numbered U k (t, x.2 ++ out) := by
  simp only [VUser.credentials, Prod.mk.injEq] at hcred
  obtain ⟨hkey, hseq, htable, hsession⟩ := hcred
  refine ⟨?_, ?_⟩
  · simpa only [acceptedSeqs_append, hout, List.append_nil] using h.seqs
  · simpa only [acceptedSeqs_append, hout, List.append_nil, hkey, hseq, htable, hsession]
      using h.armed

theorem armed_of_getSession {k : VUInt32} {x : World × List Report} (h : Numbered U k x)
    (hconn : x.1.getSession U = some conn) :
    (x.1.user U).nKey = k ∧ (x.1.user U).crcTable = crcTable k ∧
      (x.1.user U).nSeq = BitVec.ofNat 32 (acceptedSeqs U x.2).length := by
  rcases h.armed with hnone | harmed
  · rw [getSession, hnone] at hconn
    cases hconn
  · exact harmed

theorem acceptedSeqs_checked {u : VChatUserRef} {tail : List Report}
    (h : ∀ x ∈ tail, Followed conn user header body x) :
    acceptedSeqs u (.checked u header true :: tail) = [header.nSeq] := by
  have hseq : Report.acceptedSeq u (.checked u header true) = some header.nSeq := if_pos rfl
  rw [acceptedSeqs, List.filterMap_cons_some hseq, ← acceptedSeqs, acceptedSeqs_of_followed h]

theorem numbered_of_accepted {k : VUInt32} {x : World × List Report} {t : World}
    {out : List Report} (h : Numbered U k x) (hconn : x.1.getSession U = some conn)
    (hseq : header.nSeq = (x.1.user U).nSeq)
    (hcred : (t.user U).credentials = (advanced (x.1.user U)).credentials)
    (hout : acceptedSeqs U out = [header.nSeq]) : Numbered U k (t, x.2 ++ out) := by
  obtain ⟨hkey, htable, hcount⟩ := armed_of_getSession h hconn
  simp only [VUser.credentials, advanced, Prod.mk.injEq] at hcred
  obtain ⟨hkey', hseq', htable', -⟩ := hcred
  refine ⟨?_, .inr ⟨hkey'.trans hkey, htable'.trans htable, ?_⟩⟩
  · simp only [acceptedSeqs_append, hout, List.length_append, List.length_singleton,
      List.range_succ, List.map_append, List.map_singleton]
    rw [← h.seqs, hseq, hcount]
  · simp only [acceptedSeqs_append, hout, List.length_append, List.length_singleton]
    rw [hseq', hcount, BitVec.ofNat_add]
    rfl

theorem numbered_step (hnet : KeepsUser net U) {k : VUInt32} {x y : World × List Report}
    {e : Event} (h : Numbered U k x) (hstep : traced (step net U) x e = some y) :
    Numbered U k y := by
  obtain ⟨t, log⟩ := y
  obtain ⟨out, hstep, rfl⟩ := traced_eq_some.mp hstep
  cases e with
  | closeSession =>
    -- the counter restarts at 0, but without a session the gate lets nothing through
    simp only [step, Option.some.injEq, Prod.mk.injEq] at hstep
    obtain ⟨rfl, rfl⟩ := hstep
    simp only [List.append_nil]
    exact ⟨h.seqs, .inl (by simp [VChatUser.closeSession, VUser.setState])⟩
  | receivePacket now conn user header body =>
    obtain ⟨⟨t', ret⟩, hreturned, heq⟩ := Option.map_eq_some_iff.mp hstep
    obtain ⟨rfl, rfl⟩ := Prod.mk.inj heq
    rcases receivePacket_cases hnet now x.1 conn user header body (Prod.ext hreturned rfl) with
      ⟨⟨_, _, ⟨⟩, hcred⟩, hout⟩ | ⟨u, tail, -, hconn, hseq, -, hout, htail, hcred⟩
    · exact numbered_of_unchanged h hcred (acceptedSeqs_of_stopped hout)
    · replace hcred := hcred _ _ rfl
      simp only [hout]
      by_cases hu : u = U
      · subst hu
        rw [modifyUser_user_self] at hcred
        exact numbered_of_accepted h hconn hseq hcred (acceptedSeqs_checked htail)
      · have hother : Report.acceptedSeq U (.checked u header true) = none := if_neg hu
        refine numbered_of_unchanged h ?_ ?_
        · rw [hcred, modifyUser_user, if_neg (Ne.symm hu)]
        · rw [acceptedSeqs, List.filterMap_cons_none hother, ← acceptedSeqs,
            acceptedSeqs_of_followed htail]

theorem bitVec_ofNat_ne {i j : Nat} (hij : i < j) (hj : j < i + 2 ^ 32) :
    BitVec.ofNat 32 i ≠ BitVec.ofNat 32 j := by
  intro h
  have h := congrArg BitVec.toNat h
  simp only [BitVec.toNat_ofNat] at h
  omega

/-- The packets of `U` that were accepted are numbered in order, with no number twice within
a cycle of the counter, and of the packet that comes next: if it reaches a manager as one of `U`, it
came for `U` over `U`'s session with the next number and the checksum of the key, and if it is
refused, `U`'s key, counter, table and session are left as they are. -/
structure Authenticated (net : Network) (U : VChatUserRef) (k : VUInt32) (s : World)
    (log : List Report) : Prop where
  numbered : acceptedSeqs U log = (List.range (acceptedSeqs U log).length).map (BitVec.ofNat 32)
  distinct : ∀ (i j : Nat) (hi : i < (acceptedSeqs U log).length)
    (hj : j < (acceptedSeqs U log).length),
    i < j → j < i + 2 ^ 32 → (acceptedSeqs U log)[i] ≠ (acceptedSeqs U log)[j]
  reached : ∀ now conn user header body result out,
    receivePacket net now s conn user header body = (result, out) →
      ∀ manager conn' header' body', Report.reached manager conn' U header' body' ∈ out →
        conn' = conn ∧ user = some U ∧ header' = header ∧ body' = body ∧
          s.getSession U = some conn ∧
          header.nSeq = BitVec.ofNat 32 (acceptedSeqs U log).length ∧
          (body.bytes = [] ∨ header.nCrc = getCRC k body.bytes (crcTable k))
  refused : ∀ now conn user header body result out,
    receivePacket net now s conn user header body = (result, out) →
      .refused user ∈ out ∨ (∃ u, .checked u header false ∈ out) →
        ∃ t ret, result = some (t, ret) ∧ (t.user U).credentials = (s.user U).credentials

theorem reached_of_numbered (hnet : KeepsUser net U) {k : VUInt32} {s : World}
    {log out : List Report} (h : Numbered U k (s, log)) {now : VTime}
    {result : Option (World × Bool)}
    (hrecv : receivePacket net now s conn user header body = (result, out)) {manager : Manager}
    {conn' : VSessionRef} {header' : Header} {body' : VConstBuffer}
    (hmem : .reached manager conn' U header' body' ∈ out) :
    conn' = conn ∧ user = some U ∧ header' = header ∧ body' = body ∧
      s.getSession U = some conn ∧
      header.nSeq = BitVec.ofNat 32 (acceptedSeqs U log).length ∧
      (body.bytes = [] ∨ header.nCrc = getCRC k body.bytes (crcTable k)) := by
  rcases receivePacket_cases hnet now s conn user header body hrecv with
    ⟨-, hout⟩ | ⟨u, tail, rfl, hconn, hseq, hcrc, rfl, htail, -⟩
  · rcases hout _ hmem with hx | ⟨u, hx⟩ | hf
    · cases hx
    · cases hx
    · cases hf with
      | reached _ _ hu => cases hu
  · rcases List.mem_cons.mp hmem with hx | hx
    · cases hx
    · cases htail _ hx with
      | reached _ _ hu =>
        obtain rfl := Option.some.inj hu
        obtain ⟨hkey, htable, hcount⟩ := armed_of_getSession h hconn
        rw [hkey, htable] at hcrc
        exact ⟨rfl, rfl, rfl, rfl, hconn, hseq.trans hcount, hcrc⟩

theorem credentials_of_refused (hnet : KeepsUser net U) {s : World} {out : List Report}
    {now : VTime} {result : Option (World × Bool)}
    (hrecv : receivePacket net now s conn user header body = (result, out))
    (hout : .refused user ∈ out ∨ ∃ u, .checked u header false ∈ out) :
    ∃ t ret, result = some (t, ret) ∧ (t.user U).credentials = (s.user U).credentials := by
  rcases receivePacket_cases hnet now s conn user header body hrecv with
    ⟨hreturned, -⟩ | ⟨u, tail, -, -, -, -, rfl, htail, -⟩
  · exact hreturned
  · rcases hout with hx | ⟨v, hx⟩
    · rcases List.mem_cons.mp hx with hx | hx
      · cases hx
      · cases htail _ hx
    · rcases List.mem_cons.mp hx with hx | hx
      · cases hx
      · cases htail _ hx

theorem receivePacket_authenticated (hnet : KeepsUser net U) (k : VUInt32) {w s : World}
    {es : List Event} {log : List Report}
    (h : exec (traced (step net U))
      (w.modifyUser U fun u => { u with toVUser := u.toVUser.initSecretKey k }, []) es =
        some (s, log)) :
    Authenticated net U k s log := by
  have h₀ : Numbered U k
      (w.modifyUser U fun u => { u with toVUser := u.toVUser.initSecretKey k }, []) :=
    ⟨rfl, .inr (by simp [VUser.initSecretKey, acceptedSeqs])⟩
  have hn : Numbered U k (s, log) :=
    exec_invariant (fun _ _ _ hx hstep => numbered_step hnet hx hstep) h₀ h
  have hget (m : Nat) (hm : m < (acceptedSeqs U log).length) :
      (acceptedSeqs U log)[m] = BitVec.ofNat 32 m := by
    rw [List.getElem_of_eq hn.seqs]
    simp
  exact {
    numbered := hn.seqs
    distinct := fun i j hi hj hij hcycle => by
      rw [hget i hi, hget j hj]
      exact bitVec_ofNat_ne hij hcycle
    reached := fun _ _ _ _ _ _ _ hrecv _ _ _ _ hmem => reached_of_numbered hnet hn hrecv hmem
    refused := fun _ _ _ _ _ _ _ hrecv hout => credentials_of_refused hnet hrecv hout }

def Network.silent : Network where
  types := ⟨0, 20, 20, 40, 21, 40, 60, 1, 2, 3, 4, 5, 6, 7, 8, 9, 10⟩
  services := ⟨fun _ => false, fun _ => -1, fun _ _ => [], 0, 0, 1, fun _ => [], fun _ => [],
    fun _ => (-1, -1), fun _ => (0, 0), fun _ _ _ => [], fun _ => none, fun _ => "", "",
    fun _ => ⟨0, "", 0⟩⟩
  canReceivePacket := fun _ => true
  databaseProcessPacket := fun w _ _ _ _ => w
  processLogin := fun w _ _ _ => w
  guildProcessPacket := fun w _ _ _ _ _ => w

/-- Two users' chat packets, one of them twice, and a packet after the session is closed. -/
theorem receivePacket_authenticated_replayed :
    let w : World := { start with
      user := fun u => { start.user u with session := some u }
      alive := fun _ => true }
    let packet (u : VChatUserRef) (nSeq : VUInt32) : Event :=
      .receivePacket none u (some u) ⟨0, 0, nSeq, 2⟩ .empty
    ∃ s log, exec (traced (step .silent 0))
        (w.modifyUser 0 fun u => { u with toVUser := u.toVUser.initSecretKey 9 }, [])
        [packet 0 0, packet 1 0, packet 0 0, packet 0 1, .closeSession, packet 0 0] =
          some (s, log) ∧ Authenticated .silent 0 9 s log := by
  intro w packet
  have h : ∃ s log, exec (traced (step .silent 0))
      (w.modifyUser 0 fun u => { u with toVUser := u.toVUser.initSecretKey 9 }, [])
      [packet 0 0, packet 1 0, packet 0 0, packet 0 1, .closeSession, packet 0 0] =
        some (s, log) := ⟨_, _, rfl⟩
  obtain ⟨s, log, h⟩ := h
  have hnet : KeepsUser .silent 0 := ⟨by intros; rfl, by intros; rfl, by intros; rfl⟩
  exact ⟨s, log, h, receivePacket_authenticated hnet 9 h⟩

end VChat.Dispatch
