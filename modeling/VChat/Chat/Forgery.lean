import VChat.Chat.PacketBuffer
import VChat.Common.KeyedCrc

/-! Packets made without the key. The checksum of a body is affine in its bits and covers
neither the type nor the counter, so what has been seen on the wire makes new packets. -/

namespace VChat.Dispatch
open Codec Transition World
open ShiftRegister (xorBytes run_xorBytes)
open PacketBuffer (connected oneByte)

def Report.seenBody (U : VChatUserRef) : Report → Option (VUInt32 × List VByte)
  | .reached _ _ pPlayer header body =>
    if pPlayer = U then some (header.nCrc, body.bytes) else none
  | _ => none

def seen (U : VChatUserRef) (log : List Report) : List (VUInt32 × List VByte) :=
  log.filterMap (Report.seenBody U)

/-- What can be computed from pairs of a checksum and a body, with no key: an empty body under
any checksum, and the xor of three pairs of one length. -/
inductive Forgeable (pairs : List (VUInt32 × List VByte)) : VUInt32 → List VByte → Prop
  | empty (nCrc : VUInt32) : Forgeable pairs nCrc []
  | replayed {nCrc : VUInt32} {body : List VByte} (h : (nCrc, body) ∈ pairs) :
    Forgeable pairs nCrc body
  | mixed {a b c : VUInt32} {x y z : List VByte} (hx : Forgeable pairs a x)
    (hy : Forgeable pairs b y) (hz : Forgeable pairs c z) (hxy : x.length = y.length)
    (hyz : y.length = z.length) : Forgeable pairs (a ^^^ (b ^^^ c)) (xorBytes x (xorBytes y z))

/-- The checksum `CheckSecurity` looks for under the key `k`. -/
def Carries (k nCrc : VUInt32) (body : List VByte) : Prop :=
  body = [] ∨ nCrc = getCRC k body (crcTable k)

theorem length_xorBytes {x y : List VByte} (h : x.length = y.length) :
    (xorBytes x y).length = y.length := by
  rw [xorBytes, List.length_zipWith, h, Nat.min_self]

theorem getCRC_mixed (k : VUInt32) {x y z : List VByte} (hxy : x.length = y.length)
    (hyz : y.length = z.length) :
    getCRC k (xorBytes x (xorBytes y z)) (crcTable k) =
      getCRC k x (crcTable k) ^^^ (getCRC k y (crcTable k) ^^^ getCRC k z (crcTable k)) := by
  have hlen : x.length = (xorBytes y z).length :=
    hxy.trans (hyz.trans (length_xorBytes hyz).symm)
  have hstart : ~~~k = ~~~k ^^^ (~~~k ^^^ ~~~k) := by rw [BitVec.xor_self, BitVec.xor_zero]
  have hnot : ∀ a b c : VUInt32, ~~~(a ^^^ (b ^^^ c)) = ~~~a ^^^ (~~~b ^^^ ~~~c) := by
    intro a b c
    simp only [← BitVec.xor_allOnes]
    calc a ^^^ (b ^^^ c) ^^^ BitVec.allOnes 32
        = a ^^^ (b ^^^ c) ^^^
            (BitVec.allOnes 32 ^^^ (BitVec.allOnes 32 ^^^ BitVec.allOnes 32)) := by
          rw [BitVec.xor_self, BitVec.xor_zero]
      _ = a ^^^ BitVec.allOnes 32 ^^^
            (b ^^^ BitVec.allOnes 32 ^^^ (c ^^^ BitVec.allOnes 32)) := by ac_rfl
  simp only [getCRC_crcTable]
  conv_lhs => rw [hstart]
  rw [run_xorBytes k hlen, run_xorBytes k hyz, hnot]

theorem Forgeable.carries {k : VUInt32} {pairs : List (VUInt32 × List VByte)}
    (hpairs : ∀ p ∈ pairs, Carries k p.1 p.2) {nCrc : VUInt32} {body : List VByte}
    (h : Forgeable pairs nCrc body) : Carries k nCrc body := by
  induction h with
  | empty nCrc => exact .inl rfl
  | replayed h => exact hpairs _ h
  | @mixed a b c x y z _ _ _ hxy hyz ihx ihy ihz =>
    rcases ihx with rfl | rfl
    · exact .inl rfl
    · rcases ihy with rfl | rfl
      · obtain rfl := List.length_eq_zero_iff.mp hxy
        exact .inl rfl
      · rcases ihz with rfl | rfl
        · obtain rfl := List.length_eq_zero_iff.mp hyz
          obtain rfl := List.length_eq_zero_iff.mp hxy
          exact .inl rfl
        · exact .inr (getCRC_mixed k hxy hyz).symm

variable {net : Network} {U : VChatUserRef}

theorem mem_seen {log : List Report} {p : VUInt32 × List VByte} (h : p ∈ seen U log) :
    ∃ manager conn header body, .reached manager conn U header body ∈ log ∧
      p = (header.nCrc, body.bytes) := by
  obtain ⟨x, hx, hp⟩ := List.mem_filterMap.mp h
  cases x with
  | reached manager conn u header body =>
    simp only [Report.seenBody] at hp
    split_ifs at hp with hu
    exact ⟨manager, conn, header, body, hu ▸ hx, (Option.some.inj hp).symm⟩
  | _ => cases hp

theorem seen_carries_step (hnet : KeepsUser net U) {k : VUInt32} {x y : World × List Report}
    {e : Event} (hn : Numbered U k x) (h : ∀ p ∈ seen U x.2, Carries k p.1 p.2)
    (hstep : traced (step net U) x e = some y) : ∀ p ∈ seen U y.2, Carries k p.1 p.2 := by
  obtain ⟨t, log⟩ := y
  obtain ⟨out, hstep, rfl⟩ := traced_eq_some.mp hstep
  intro p hp
  rw [seen, List.filterMap_append, ← seen, List.mem_append] at hp
  rcases hp with hp | hp
  · exact h p hp
  · obtain ⟨manager, conn', header', body', hmem, rfl⟩ := mem_seen hp
    cases e with
    | closeSession =>
      obtain ⟨-, rfl⟩ := Prod.mk.inj (Option.some.inj hstep)
      cases hmem
    | receivePacket now conn user header body =>
      obtain ⟨r, hreturned, heq⟩ := Option.map_eq_some_iff.mp hstep
      obtain ⟨-, rfl⟩ := Prod.mk.inj heq
      obtain ⟨-, -, rfl, rfl, -, -, hcrc⟩ :=
        reached_of_numbered hnet hn (Prod.ext hreturned rfl) hmem
      exact hcrc

theorem receivePacket_of_carries {w : World} {conn : VSessionRef}
    (hcan : net.canReceivePacket (w.user U) = true) (hconn : w.getSession U = some conn)
    {k : VUInt32} (hkey : (w.user U).nKey = k) (htable : (w.user U).crcTable = crcTable k)
    {header : Header} {body : VConstBuffer} (hseq : header.nSeq = (w.user U).nSeq)
    (hcrc : Carries k header.nCrc body.bytes) (now : VTime) :
    ∃ w' : World, (w'.user U).room = (w.user U).room ∧
      receivePacket net now w conn (some U) header body =
        ((dispatch net now w' conn U header body true).1.map fun t => (t, true),
          .checked U header true :: (dispatch net now w' conn U header body true).2) := by
  have haccept : ((w.user U).checkSecurity header.nCrc header.nSeq body.bytes).1 = true := by
    rw [checkSecurity_accepts_iff, hkey, htable, List.length_eq_zero_iff]
    exact ⟨hseq, hcrc⟩
  have hroom : ((checkSecurity w U header.nCrc header.nSeq body).1.user U).room =
      (w.user U).room := by
    rw [checkSecurity, modifyUser_user_self]
  refine ⟨(checkSecurity w U header.nCrc header.nSeq body).1, hroom, ?_⟩
  have hgate : ¬ ((!net.canReceivePacket (w.user U)) = true ∨ w.getSession U ≠ some conn) := by
    rw [hcan, hconn]
    simp
  have hchecked : (checkSecurity w U header.nCrc header.nSeq body).2 = true := haccept
  simp only [receivePacket, onReceive, if_neg hgate, hchecked, Bool.true_eq_false, if_false]

theorem isSome_dispatch {w : World} {r : VChatRoomRef} (hroom : (w.user U).room = some r)
    {body : VConstBuffer} {packet : Memory} (hbody : body.second = some packet) (now : VTime)
    (conn : VSessionRef) (header : Header) (bOwnMem : Bool) :
    (dispatch net now w conn U header body bOwnMem).1.isSome := by
  have hprocessed : (processPacket net.types net.services now w U header body).isSome :=
    isSome_processPacket _ _ hroom header hbody
  simp only [dispatch]
  split_ifs
  · obtain ⟨⟨t, actions⟩, heq⟩ := Option.isSome_iff_exists.mp hprocessed
    rw [heq]
    rfl
  · rfl
  · rfl
  · rfl

/-- Whatever can be computed from the packets seen so far is accepted as the user's next
packet, with any type and any length field. The call then returns true, unless its handler uses a
null pointer. -/
theorem forged_accepted (hnet : KeepsUser net U) (k : VUInt32) {w s : World} {es : List Event}
    {log : List Report}
    (h : exec (traced (step net U))
      (w.modifyUser U fun u => { u with toVUser := u.toVUser.initSecretKey k }, []) es =
        some (s, log))
    {conn : VSessionRef} (hconn : s.getSession U = some conn)
    (hcan : net.canReceivePacket (s.user U) = true) {header : Header} {body : VConstBuffer}
    (hseq : header.nSeq = BitVec.ofNat 32 (acceptedSeqs U log).length)
    (hforge : Forgeable (seen U log) header.nCrc body.bytes) (now : VTime) :
    ∃ result out, receivePacket net now s conn (some U) header body =
        (result, .checked U header true :: out) ∧
      (∀ t ret, result = some (t, ret) → ret = true) ∧
      (∀ r packet, (s.user U).room = some r → body.second = some packet → result.isSome) ∧
      ((header.nType.toNat : Int) > net.types.c2sGsUnknown ∧
        (header.nType.toNat : Int) < net.types.c2sGsCount →
          .reached .chat conn U header body ∈ out) := by
  have h₀ : Numbered U k
      (w.modifyUser U fun u => { u with toVUser := u.toVUser.initSecretKey k }, []) :=
    ⟨rfl, .inr (by simp [VUser.initSecretKey, acceptedSeqs])⟩
  obtain ⟨hn, hpairs⟩ : Numbered U k (s, log) ∧ ∀ p ∈ seen U log, Carries k p.1 p.2 :=
    exec_invariant (I := fun x => Numbered U k x ∧ ∀ p ∈ seen U x.2, Carries k p.1 p.2)
      (fun _ _ _ hx hstep => ⟨numbered_step hnet hx.1 hstep,
        seen_carries_step hnet hx.1 hx.2 hstep⟩) ⟨h₀, fun _ hp => by cases hp⟩ h
  obtain ⟨hkey, htable, hcount⟩ := armed_of_getSession hn hconn
  obtain ⟨w', hsame, hrecv⟩ := receivePacket_of_carries hcan hconn hkey htable
    (hseq.trans hcount.symm) (hforge.carries hpairs) now
  refine ⟨_, _, hrecv, fun t ret hreturned => ?_, fun r packet hroom hbody => ?_, fun htype => ?_⟩
  · obtain ⟨t', -, heq⟩ := Option.map_eq_some_iff.mp hreturned
    exact (Prod.mk.inj heq).2.symm
  · rw [Option.isSome_map]
    exact isSome_dispatch (hsame.trans hroom) hbody now conn header true
  · simp only [dispatch, if_pos htype]
    split <;> exact List.mem_cons_self

/-- Three bodies seen under a key make a fourth, which is sent as a packet to kick a user. -/
theorem forged_accepted_kick :
    let packet (nSeq : VUInt32) (b : VByte) : Event :=
      .receivePacket none 0 (some 0) ⟨1, getCRC 9 [b] (crcTable 9), nSeq, 25⟩ (oneByte b)
    ∃ s log, exec (traced (step .silent 0))
        (connected.modifyUser 0 fun u => { u with toVUser := u.toVUser.initSecretKey 9 }, [])
        [packet 0 1, packet 1 2, packet 2 4] = some (s, log) ∧
      ∃ result out nCrc, receivePacket .silent none s 0 (some 0) ⟨1, nCrc, 3, 7⟩ (oneByte 7) =
        (result, .checked 0 ⟨1, nCrc, 3, 7⟩ true :: out) := by
  intro packet
  have hnet : KeepsUser .silent 0 := ⟨by intros; rfl, by intros; rfl, by intros; rfl⟩
  obtain ⟨s, log, h, hconn, hlog⟩ : ∃ s log, exec (traced (step .silent 0))
      (connected.modifyUser 0 fun u => { u with toVUser := u.toVUser.initSecretKey 9 }, [])
      [packet 0 1, packet 1 2, packet 2 4] = some (s, log) ∧ s.getSession 0 = some 0 ∧
        seen 0 log = [(getCRC 9 [1] (crcTable 9), [1]), (getCRC 9 [2] (crcTable 9), [2]),
          (getCRC 9 [4] (crcTable 9), [4])] ∧ (acceptedSeqs 0 log).length = 3 :=
    ⟨_, _, rfl, rfl, rfl, rfl⟩
  refine ⟨s, log, h, ?_⟩
  have hpair (b : VByte) (hb : b ∈ [1, 2, 4]) :
      Forgeable (seen 0 log) (getCRC 9 [b] (crcTable 9)) [b] := by
    refine .replayed ?_
    rw [hlog.1]
    simp only [List.mem_cons, List.not_mem_nil, or_false] at hb
    rcases hb with rfl | rfl | rfl <;> simp
  let nCrc : VUInt32 :=
    getCRC 9 [1] (crcTable 9) ^^^ (getCRC 9 [2] (crcTable 9) ^^^ getCRC 9 [4] (crcTable 9))
  have hforge : Forgeable (seen 0 log) nCrc (oneByte 7).bytes :=
    .mixed (hpair 1 (by simp)) (hpair 2 (by simp)) (hpair 4 (by simp)) rfl rfl
  have hseq : (⟨1, nCrc, 3, 7⟩ : Header).nSeq = BitVec.ofNat 32 (acceptedSeqs 0 log).length := by
    rw [hlog.2]
    rfl
  obtain ⟨result, out, hrecv, -⟩ := forged_accepted hnet 9 h hconn rfl hseq hforge none
  exact ⟨result, out, nCrc, hrecv⟩

end VChat.Dispatch
