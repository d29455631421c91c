import Mathlib
import VChat.Chat.Dispatch
import VChat.Chat.PacketRequest

/-! `data_` still holds the packet before. Which handlers take no byte of it that lies beyond the
body they are given, and for which bodies. -/

namespace VChat.PacketBody
open Codec ChatPacket NetWork.FrameReader

/-- The bytes of `data_` that the body does not cover. -/
def Stale (nLen i : Nat) : Prop := nLen ≤ i ∧ i < maxLength

def FieldInside {α : Type} (nLen : Nat) (field : Field α) : Prop :=
  field.offset + field.width ≤ nLen ∨ maxLength ≤ field.offset

/-- The string ends in the body, unless it lies behind `data_`. -/
def EndsInside (packet : Memory) (nLen offset : Nat) : Prop :=
  maxLength ≤ offset ∨ ∃ i < nLen, offset ≤ i ∧ packet i = 0

def Inside (sv : Services) (L : PacketStructs) (w : World) (usr : VChatUserRef) (packet : Memory)
    (nLen : Nat) : ChatPacket → Prop
  | .joinRoom => FieldInside nLen L.nRoomID ∧ FieldInside nLen L.nRoomMode
  | .chatMessage => True
  | .banNick => sv.isGM (w.user usr) → EndsInside packet nLen 0
  | .tbGlobal => sv.isGM (w.user usr) → nLen ≠ 0
  | .enterQueue => True
  | .leaveQueue => True
  | .kickUser => sv.isGM (w.user usr) → EndsInside packet nLen 0
  | .requestZMEFriends =>
    (FieldInside nLen L.nFrom ∧ FieldInside nLen L.nTo) ∨
      ∀ t, AgreeOff (Stale nLen) packet t → ¬ (L.nFrom.get t ≥ 0 ∧ L.nFrom.get t < L.nTo.get t)
  | .sendCodeZME => EndsInside packet nLen L.strCode
  | .requestZCBillingURL =>
    FieldInside nLen L.nZingID ∧ EndsInside packet nLen L.strAccountName ∧
      FieldInside nLen L.nItemID

instance : Nontrivial VByte := ⟨0, 1, by decide⟩

section
variable {m : Memory} {n : Nat} {L : PacketStructs} {α : Type}

theorem settled_field_iff (hn : n < maxLength) (field : Field α) :
    Settled (Stale n) m field.get ↔ FieldInside n field := by
  have hcells : Settled (Stale n) m field.get ↔
      Settled (Stale n) m (cells · field.offset field.width) := by
    refine ⟨fun h t ht => ?_, fun h => h.map field.decode⟩
    exact field.decode_injOn _ _ (length_cells _ _ _) (length_cells _ _ _) (h t ht)
  have hpos := field.width_pos
  rw [hcells, settled_cells_iff]
  constructor
  · intro h
    by_contra hout
    obtain ⟨hend, hstart⟩ := not_or.mp hout
    rcases Nat.le_total n field.offset with hle | hle
    · exact h 0 hpos ⟨by omega, by omega⟩
    · exact h (n - field.offset) (by omega) ⟨by omega, by omega⟩
  · rintro hin i hi ⟨hle, hlt⟩
    unfold FieldInside at hin
    omega

theorem endsInside_iff (hn : n < maxLength) (L : PacketStructs) (offset : Nat) :
    EndsInside m n offset ↔
      ∀ i < L.readable - offset, Stale n (offset + i) → ∃ j < i, m (offset + j) = 0 := by
  have hreadable := L.maxLength_le
  constructor
  · rintro (hge | ⟨j, hj, hle, hz⟩) i hi ⟨hstale, hlt⟩
    · omega
    · have hadd : offset + (j - offset) = j := by omega
      exact ⟨j - offset, by omega, hadd.symm ▸ hz⟩
  · intro h
    rcases Nat.lt_or_ge offset maxLength with hlt | hge
    · -- the first byte that is not in the body decides whether the string has ended
      obtain ⟨j, hj, hz⟩ := h (max n offset - offset) (by omega) ⟨by omega, by omega⟩
      exact .inr ⟨offset + j, by omega, by omega, hz⟩
    · exact .inl hge

theorem settled_cstring_iff (hn : n < maxLength) (offset : Nat) :
    Settled (Stale n) m (L.cstring · offset) ↔ EndsInside m n offset := by
  unfold PacketStructs.cstring
  rw [settled_text_iff, endsInside_iff hn L]

theorem char_injective : Function.Injective fun b : VByte => Char.ofNat b.toNat := by
  have hback : ∀ b : VByte, (Char.ofNat b.toNat).toNat = b.toNat := by decide
  intro b c h
  apply BitVec.eq_of_toNat_eq
  rw [← hback b, ← hback c]
  exact congrArg Char.toNat h

theorem vstring_injective : Function.Injective vstring :=
  fun _ _ h => List.map_injective_iff.mpr char_injective (String.ofList_inj.mp h)

theorem ampersand_notMem_toString (z : Int) : '&' ∉ (toString z).toList := by
  have hnat : ∀ k : Nat, '&' ∉ k.repr.toList := by
    intro k hmem
    rw [Nat.toList_repr] at hmem
    exact absurd (Nat.isDigit_of_mem_toDigits (by decide) (by decide) hmem) (by decide)
  show '&' ∉ z.repr.toList
  rw [Int.repr_eq_if]
  split_ifs
  · exact hnat _
  · simpa using hnat _

theorem eq_of_append_cons {c : Char} {xs ys xs' ys' : List Char} (h : c ∉ xs) (h' : c ∉ xs')
    (heq : xs ++ c :: ys = xs' ++ c :: ys') : xs = xs' ∧ ys = ys' := by
  induction xs generalizing xs' with
  | nil =>
    cases xs' with
    | nil => simpa using heq
    | cons x' xs' =>
      obtain ⟨rfl, -⟩ := List.cons.inj heq
      exact absurd List.mem_cons_self h'
  | cons x xs ih =>
    cases xs' with
    | nil =>
      obtain ⟨rfl, -⟩ := List.cons.inj heq
      exact absurd List.mem_cons_self h
    | cons x' xs' =>
      obtain ⟨rfl, htail⟩ := List.cons.inj heq
      obtain ⟨rfl, rfl⟩ := ih (fun hc => h (List.mem_cons_of_mem _ hc))
        (fun hc => h' (List.mem_cons_of_mem _ hc)) htail
      exact ⟨rfl, rfl⟩

theorem strDatas_inj {z z' i i' : Int} {name name' : String}
    (h : strDatas z name i = strDatas z' name' i') :
    z = z' ∧ name ++ ("&itemid=" ++ toString i) = name' ++ ("&itemid=" ++ toString i') := by
  have hlist : ∀ (z i : Int) (name : String), (strDatas z name i).toList =
      "accountid=".toList ++ ((toString z).toList ++ '&' :: ("accountname=".toList ++
        (name ++ ("&itemid=" ++ toString i)).toList)) := by
    intro z i name
    simp [strDatas, String.toList_append]
  have heq := congrArg String.toList h
  rw [hlist, hlist] at heq
  obtain ⟨hz, hrest⟩ := eq_of_append_cons (ampersand_notMem_toString z)
    (ampersand_notMem_toString z') (List.append_cancel_left heq)
  exact ⟨Int.repr_injective (String.toList_inj.mp hz),
    String.toList_inj.mp (List.append_cancel_left hrest)⟩

theorem settled_strDatas_iff (hn : n < maxLength) (nZingID nItemID : Field Int) (offset : Nat) :
    Settled (Stale n) m (fun t => strDatas (nZingID.get t) (vstring (L.cstring t offset))
        (nItemID.get t)) ↔
      FieldInside n nZingID ∧ EndsInside m n offset ∧ FieldInside n nItemID := by
  rw [← settled_field_iff hn nZingID, ← settled_field_iff hn nItemID]
  constructor
  · intro h
    have hrest := fun t ht => (strDatas_inj (h t ht)).2
    have hname : EndsInside m n offset := by
      rw [endsInside_iff hn L]
      intro i hi hstale
      by_contra hnone
      have hend : ∀ j < i, m (offset + j) ≠ 0 := fun j hj hz => hnone ⟨j, hj, hz⟩
      have heq := (hrest _ (agreeOff_update hstale m 0)).trans
        (hrest _ (agreeOff_update hstale m 1)).symm
      have hended : L.cstring (Function.update m (offset + i) 0) offset = cells m offset i := by
        rw [PacketStructs.cstring, text_update hend hi, if_pos rfl, List.append_nil]
      have hgoing : L.cstring (Function.update m (offset + i) 1) offset =
          cells m offset i ++ 1 :: text 0 m (offset + i + 1) (L.readable - offset - i - 1) := by
        rw [PacketStructs.cstring, text_update hend hi, if_neg (by decide)]
      rw [hended, hgoing] at heq
      have hlist := congrArg String.toList heq
      simp [vstring] at hlist
    refine ⟨fun t ht => (strDatas_inj (h t ht)).1, hname, fun t ht => ?_⟩
    have hcstring : L.cstring t offset = L.cstring m offset :=
      (settled_cstring_iff hn offset).mpr hname t ht
    have heq := hrest t ht
    rw [hcstring, String.append_right_inj, String.append_right_inj] at heq
    exact Int.repr_injective heq
  · rintro ⟨hz, hname, hi⟩ t ht
    have hcstring : L.cstring t offset = L.cstring m offset :=
      (settled_cstring_iff hn offset).mpr hname t ht
    simp only [hz t ht, hi t ht, hcstring]

theorem cstring_eq_nil_iff (L : PacketStructs) (m : Memory) : L.cstring m 0 = [] ↔ m 0 = 0 := by
  obtain ⟨k, hk⟩ : ∃ k, L.readable - 0 = k + 1 := by
    have hle := L.maxLength_le
    unfold maxLength at hle
    exact ⟨L.readable - 1, by omega⟩
  rw [PacketStructs.cstring, hk, text_succ]
  split_ifs with h
  · simpa using h
  · simpa using h

theorem not_stale {i : Nat} (hi : i < n) : ¬ Stale n i := fun h => absurd h.1 (Nat.not_le.mpr hi)

theorem settled_body (m : Memory) (n : Nat) : Settled (Stale n) m (Memory.read · n) := by
  have hread : ∀ t : Memory, Memory.read t n = cells t 0 n :=
    fun t => by simp [Memory.read, cells]
  intro t ht
  show Memory.read t n = Memory.read m n
  rw [hread, hread]
  apply settled_cells_iff.mpr _ t ht
  intro i hi
  rw [Nat.zero_add]
  exact not_stale hi

variable {sv : Services} {w : World} {usr : VChatUserRef}

theorem settled_nick_iff (hn : n < maxLength) {make : List VByte → Request}
    (hmake : Function.Injective make) (hne : ∀ bs, make bs ≠ .nothing) :
    Settled (Stale n) m (fun t => (nick sv L w usr t).elim .nothing make) ↔
      (sv.isGM (w.user usr) → EndsInside m n 0) := by
  have hcalls : Function.Injective fun text : Option (List VByte) => text.elim .nothing make :=
    fun _ _ h => elim_injective hmake hne h
  rw [settled_map_iff hcalls]
  by_cases hgm : sv.isGM (w.user usr) = true
  · have hnick : nick sv L w usr = fun t =>
        if L.cstring t 0 = [] then none else some (L.cstring t 0) := by
      funext t
      unfold nick
      by_cases h0 : t 0 = 0
      · rw [if_neg fun h => h.2 h0, if_pos ((cstring_eq_nil_iff L t).mpr h0)]
      · rw [if_pos ⟨hgm, h0⟩, if_neg fun h => h0 ((cstring_eq_nil_iff L t).mp h)]
    have hinj : Function.Injective fun bs : List VByte => if bs = [] then none else some bs := by
      intro bs bs' h
      cases bs <;> cases bs' <;> simp_all
    rw [hnick, settled_map_iff hinj, settled_cstring_iff hn]
    exact ⟨fun h _ => h, fun h => h hgm⟩
  · have hnick : ∀ t, nick sv L w usr t = none := fun t => if_neg fun h => hgm h.1
    exact iff_of_true (fun t _ => (hnick t).trans (hnick m).symm) fun h => absurd h hgm

theorem settled_notifyGlobal_iff (hn : n < maxLength) :
    Settled (Stale n) m (fun t => request sv L w usr t n .tbGlobal) ↔
      (sv.isGM (w.user usr) → n ≠ 0) := by
  constructor
  · rintro h hgm rfl
    -- an empty body: the byte that decides is the first of the packet before
    have hstale : Stale 0 0 := ⟨Nat.le_refl 0, hn⟩
    have heq := h.eq (agreeOff_update hstale m 0) (agreeOff_update hstale m 1)
    simp [request, hgm] at heq
  · intro h t ht
    show request sv L w usr t n .tbGlobal = request sv L w usr m n .tbGlobal
    have hbody : Memory.read t n = Memory.read m n := settled_body m n t ht
    by_cases hgm : sv.isGM (w.user usr) = true
    · have h0 : t 0 = m 0 := ht 0 (not_stale (Nat.pos_of_ne_zero (h hgm)))
      simp only [request, hbody, h0]
    · have hnot : ∀ t : Memory, ¬ (sv.isGM (w.user usr) = true ∧ t 0 ≠ 0) := fun t h => hgm h.1
      simp only [request, if_neg (hnot _)]

theorem settled_chat (hn : n < maxLength) :
    Settled (Stale n) m (fun t => request sv L w usr t n .chatMessage) := by
  intro t ht
  show request sv L w usr t n .chatMessage = request sv L w usr m n .chatMessage
  have hbody : Memory.read t n = Memory.read m n := settled_body m n t ht
  by_cases hn1 : n > 1
  · have hlast : t (n - 1) = m (n - 1) := ht _ (not_stale (by omega))
    by_cases hend : m (n - 1) = 0
    · have hcontent : L.cstring t 0 = L.cstring m 0 :=
        (settled_cstring_iff hn 0).mpr (.inr ⟨n - 1, by omega, Nat.zero_le _, hend⟩) t ht
      simp only [request, hbody, hlast, hcontent]
    · simp only [request, hlast, hend, and_false, if_false]
  · simp only [request, hn1, false_and, if_false]

theorem settled_getZMEFriends_iff (hn : n < maxLength) :
    Settled (Stale n) m (fun t => request sv L w usr t n .requestZMEFriends) ↔
      Inside sv L w usr m n .requestZMEFriends := by
  let range := fun t => (L.nFrom.get t, L.nTo.get t)
  let call := fun made : Option (VInt32 × VInt32) =>
    made.elim Request.nothing fun range => .getZMEFriends range.1 range.2
  have hrequest : (fun t => request sv L w usr t n .requestZMEFriends) = fun t =>
      call (if (range t).1 ≥ 0 ∧ (range t).1 < (range t).2 then some (range t) else none) := by
    funext t
    simp only [request]
    split_ifs with hrange
    · rfl
    · rfl
  have hcall : Function.Injective call := by
    intro made made' h
    cases made <;> cases made' <;> simp_all [call, Prod.ext_iff]
  -- a range the handler refuses is no call, whatever its bytes are
  rw [hrequest, settled_map_iff hcall,
    settled_guard_iff fun range : VInt32 × VInt32 => range.1 ≥ 0 ∧ range.1 < range.2,
    settled_pair_iff, settled_field_iff hn, settled_field_iff hn]
  rfl

/-- Handler by handler: the calls depend on the body alone if and only if all that goes into them
lies in the body. -/
theorem settled_request_iff (hn : n < maxLength) (kind : ChatPacket) :
    Settled (Stale n) m (fun t => request sv L w usr t n kind) ↔ Inside sv L w usr m n kind := by
  cases kind with
  | joinRoom =>
    have hcall : Function.Injective fun ids : VInt32 × VInt32 => Request.joinRoom ids.1 ids.2 :=
      fun _ _ h => Prod.ext (Request.joinRoom.inj h).1 (Request.joinRoom.inj h).2
    show Settled (Stale n) m (fun t => (fun ids : VInt32 × VInt32 => Request.joinRoom ids.1 ids.2)
      (L.nRoomID.get t, L.nRoomMode.get t)) ↔ _
    rw [settled_map_iff hcall, settled_pair_iff, settled_field_iff hn, settled_field_iff hn]
    rfl
  | chatMessage => exact iff_of_true (settled_chat hn) trivial
  | banNick =>
    exact settled_nick_iff hn (fun _ _ => Request.banRoleOf.inj) fun _ => Request.noConfusion
  | tbGlobal => exact settled_notifyGlobal_iff hn
  | enterQueue => exact iff_of_true (fun _ _ => rfl) trivial
  | leaveQueue => exact iff_of_true (fun _ _ => rfl) trivial
  | kickUser =>
    exact settled_nick_iff hn (fun _ _ => Request.kickRoleOf.inj) fun _ => Request.noConfusion
  | requestZMEFriends => exact settled_getZMEFriends_iff hn
  | sendCodeZME =>
    have hcall : Function.Injective fun bs => Request.requestZMEFriends (vstring bs) :=
      fun _ _ h => vstring_injective (Request.requestZMEFriends.inj h)
    show Settled (Stale n) m (fun t => (fun bs => Request.requestZMEFriends (vstring bs))
      (L.cstring t L.strCode)) ↔ _
    rw [settled_map_iff hcall, settled_cstring_iff hn]
    rfl
  | requestZCBillingURL =>
    have hcall : Function.Injective Request.requestZCBillingURL :=
      fun _ _ h => Request.requestZCBillingURL.inj h
    show Settled (Stale n) m (fun t => Request.requestZCBillingURL (strDatas (L.nZingID.get t)
      (vstring (L.cstring t L.strAccountName)) (L.nItemID.get t))) ↔ _
    rw [settled_map_iff hcall, settled_strDatas_iff hn]
    rfl

end

def SameBody (s s' : Session) : Prop :=
  s'.header = s.header ∧ AgreeOff (Stale s.header.nLen.toNat) s.data s'.data

/-- All that goes into the calls lies in the body, if the type of the packet has a handler. -/
def Contained (sv : Services) (L : PacketStructs) (types : PacketTypes) (w : World)
    (usr : VChatUserRef) (s : Session) : Prop :=
  ∀ kind, (table types).lookup (s.header.nType.toNat : Int) = some kind →
    Inside sv L w usr s.data s.header.nLen.toNat kind

/-- For every user in every state and every packet: the calls made are those for any other contents
of `data_` with the same body if and only if all that goes into them lies in the body, and what
`ProcessPacket` does is what these calls do. -/
theorem packet_read_iff (sv : Services) (L : PacketStructs) (types : PacketTypes) (now : VTime)
    (w : World) (usr : VChatUserRef) (s : Session) (hlen : s.header.nLen.toNat < maxLength) :
    ((∀ s', SameBody s s' → requestOf sv L types w usr s' = requestOf sv L types w usr s) ↔
        Contained sv L types w usr s) ∧
      ∀ s', outcome sv L now types w usr s' =
        (requestOf sv L types w usr s').perform sv now w usr := by
  refine ⟨?_, fun s' => outcome_eq types s'⟩
  cases hkind : (table types).lookup (s.header.nType.toNat : Int) with
  | none =>
    have hnothing : ∀ s', SameBody s s' → requestOf sv L types w usr s' = .nothing := by
      rintro s' ⟨hheader, -⟩
      rw [requestOf, hheader, hkind]
      rfl
    refine iff_of_true (fun s' h => ?_) fun kind h => ?_
    · exact (hnothing s' h).trans (hnothing s ⟨rfl, agreeOff_refl _ _⟩).symm
    · exact absurd (h.symm.trans hkind) (Option.some_ne_none kind)
  | some kind =>
    have hcalls : ∀ s', SameBody s s' →
        requestOf sv L types w usr s' = request sv L w usr s'.data s.header.nLen.toNat kind := by
      rintro s' ⟨hheader, -⟩
      rw [requestOf, hheader, hkind]
      rfl
    have hself := hcalls s ⟨rfl, agreeOff_refl _ _⟩
    have hcontained : Contained sv L types w usr s ↔
        Inside sv L w usr s.data s.header.nLen.toNat kind := by
      refine ⟨fun h => h kind hkind, fun h kind' hkind' => ?_⟩
      obtain rfl := Option.some.inj (hkind.symm.trans hkind')
      exact h
    rw [hcontained, ← settled_request_iff hlen]
    constructor
    · intro h t ht
      have hsame : SameBody s { s with data := t } := ⟨rfl, ht⟩
      exact (hcalls _ hsame).symm.trans ((h _ hsame).trans hself)
    · rintro h s' hsame
      rw [hcalls s' hsame, hself]
      exact h s'.data hsame.2

def packed : PacketStructs where
  nRoomID := .vint32 0
  nRoomMode := .vint32 4
  nFrom := .vint32 0
  nTo := .vint32 4
  strCode := 0
  nZingID := (Field.vint32 0).toInt
  strAccountName := 4
  nItemID := (Field.vint32 68).toInt
  readable := maxLength
  maxLength_le := Nat.le_refl _

/-- A packet with the whole struct, and one whose body ends in the middle of it. -/
theorem packet_read_iff_truncated :
    let net := Dispatch.Network.silent
    let s (nLen : VUInt32) : Session := ⟨fun _ => 0, ⟨nLen, 0, 0, 1⟩, none, none⟩
    (∀ s', SameBody (s 8) s' → requestOf net.services packed net.types .start 0 s' =
        requestOf net.services packed net.types .start 0 (s 8)) ∧
      ¬ ∀ s', SameBody (s 4) s' → requestOf net.services packed net.types .start 0 s' =
        requestOf net.services packed net.types .start 0 (s 4) := by
  intro net s
  have hkind : (table net.types).lookup ((1 : VUInt16).toNat : Int) = some .joinRoom := rfl
  constructor
  · refine (packet_read_iff net.services packed net.types none .start 0 (s 8) (by decide)).1.mpr ?_
    intro kind h
    obtain rfl := Option.some.inj (hkind.symm.trans h)
    exact ⟨.inl (by decide), .inl (by decide)⟩
  · intro h
    have hinside := (packet_read_iff net.services packed net.types none .start 0 (s 4)
      (by decide)).1.mp h .joinRoom hkind
    rcases hinside.2 with hout | hout
    · exact absurd hout (by decide)
    · exact absurd hout (by decide)

/-- With an empty body, which room is joined and which role is kicked is up to the packet
before. -/
theorem not_packet_read_empty :
    let net := Dispatch.Network.silent
    let sv : Services := { net.services with
      isGM := fun _ => true
      getRoleId := fun name => Int32.ofNat (name 0).toNat }
    let s (nType : VUInt16) (b : VByte) : Session :=
      ⟨fun i => if i = 0 then b else 0, ⟨0, 0, 0, nType⟩, none, none⟩
    (∀ nType, SameBody (s nType 7) (s nType 8)) ∧
      ((outcome sv packed none net.types .start 4 (s 1 7)).map fun r => r.1.rooms[(7 : VInt32)]?) =
        some (some 0) ∧
      ((outcome sv packed none net.types .start 4 (s 1 8)).map fun r => r.1.rooms[(7 : VInt32)]?) =
        some none ∧
      (outcome sv packed none net.types .start 4 (s 7 7)).map Prod.snd =
        some [.broadcastKickRole 7] ∧
      (outcome sv packed none net.types .start 4 (s 7 8)).map Prod.snd =
        some [.broadcastKickRole 8] := by
  intro net sv s
  -- the first character of the name is the byte left over
  have hkick : ∀ b : VByte, b ≠ 0 →
      (outcome sv packed none net.types .start 4 (s 7 b)).map Prod.snd =
        some (if Int32.ofNat b.toNat ≥ 0 then [.broadcastKickRole (Int32.ofNat b.toNat)]
          else []) := by
    intro b hb
    obtain ⟨rest, hname⟩ : ∃ rest, packed.cstring (s 7 b).data 0 = b :: rest :=
      ⟨_, (text_succ 0 (s 7 b).data 0 1023).trans (if_neg hb)⟩
    have hnick : nick sv packed .start 4 (s 7 b).data = some (b :: rest) := by
      rw [← hname]
      exact if_pos ⟨rfl, hb⟩
    have hrequest : requestOf sv packed net.types .start 4 (s 7 b) = .kickRoleOf (b :: rest) := by
      show ((nick sv packed .start 4 (s 7 b).data).elim .nothing .kickRoleOf : Request) = _
      rw [hnick]
      rfl
    rw [outcome_eq, hrequest]
    let id := Int32.ofNat b.toNat
    show (if id ≥ 0 then some (World.start, [Action.broadcastKickRole id])
      else some (World.start, [])).map Prod.snd = _
    split_ifs <;> rfl
  refine ⟨fun nType => ⟨rfl, fun i hi => ?_⟩, by decide +kernel, by decide +kernel,
    hkick 7 (by decide), hkick 8 (by decide)⟩
  have hne : i ≠ 0 := by
    rintro rfl
    exact hi ⟨Nat.le_refl 0, by decide⟩
  simp [s, hne]

end VChat.PacketBody
