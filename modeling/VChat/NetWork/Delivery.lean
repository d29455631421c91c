import VChat.NetWork.Outbound
import Mathlib.Data.List.Nodup

/-! What is queued stays as it was given until it is written, and what is written arrives in
order. -/

namespace VChat.AllocateManager
variable {pl : Platform} {m m' : AllocateManager} {p : VPointer} {nSize : VUInt32}

theorem Allocated.frame (h : Allocated pl m nSize p m') :
    m'.live = m.live ∧ ∀ q ≤ m.blocks, m'.capacity q = m.capacity q := by
  cases h with
  | reuse k pools p hk hslot hp hmem hperm hsub => exact ⟨rfl, fun _ _ => rfl⟩
  | malloc k pools fails hk hperm hsub =>
    cases fails with
    | true => exact ⟨rfl, fun _ _ => rfl⟩
    | false => exact ⟨rfl, fun q hq => if_neg (Nat.ne_of_lt (Nat.lt_succ_of_le hq))⟩

theorem Released.frame (h : Released pl m p nSize m') :
    m'.live = m.live ∧ m'.capacity = m.capacity := by
  cases h with
  | keep => exact ⟨rfl, rfl⟩
  | free =>
    unfold AllocateManager.free
    split_ifs <;> exact ⟨rfl, rfl⟩

theorem Sound.le_blocks (h : Sound pl m) (hp : p ∈ m.pointers) : p ≤ m.blocks :=
  h.bound p (List.mem_append_right _ (List.mem_append_left _ hp))

theorem Sound.nodup_pointers (h : Sound pl m) : m.pointers.Nodup :=
  (List.nodup_append.mp (List.nodup_append.mp h.nodup).2.1).1

theorem Sound.size_unique (h : Sound pl m) {n : VUInt32} (hp : (p, nSize) ∈ m.live)
    (hn : (p, n) ∈ m.live) : n = nSize :=
  congrArg Prod.snd (List.inj_on_of_nodup_map h.nodup_pointers hn hp rfl)

theorem Sound.ne_of_mem_erase (h : Sound pl m) (hp : (p, nSize) ∈ m.live)
    {y : VPointer × VUInt32} (hy : y ∈ m.live.erase (p, nSize)) : y.1 ≠ p := by
  have hnodup : m.live.Nodup := h.nodup_pointers.of_map _
  rintro rfl
  have hlive : y ∈ m.live := List.mem_of_mem_erase hy
  have hsize : y.2 = nSize := h.size_unique hp hlive
  exact ((List.Nodup.mem_erase_iff hnodup).mp hy).1 (Prod.ext rfl hsize)

end VChat.AllocateManager

namespace VChat.VSimpleBuffer
variable {w : Nat} {pl : Platform} {m m' : AllocateManager} {heap heap' : Heap}

theorem copyPart_other {p q : VPointer} (hq : q ≠ p) {offset : Nat} {data : Option Memory}
    {l : BitVec w} (h : copyPart heap p offset data l = some heap') : heap' q = heap q := by
  cases data with
  | none => exact congrFun (Option.some.inj h).symm q
  | some d =>
    simp only [copyPart, Heap.memcpy] at h
    split_ifs at h
    · rw [← Option.some.inj h, Function.update_of_ne hq]
    · exact congrFun (Option.some.inj h).symm q

theorem ofParts_some {d : Memory} {data : Option Memory} {l₁ l₂ : BitVec w} (hl₁ : l₁ ≠ 0)
    (hl : l₁ + l₂ ≠ 0) {fails : Bool} {b : VSimpleBuffer w}
    (h : ofParts pl m heap (some d) l₁ data l₂ fails = some (b, m', heap')) :
    ∃ p, m.allocate pl ((l₁ + l₂).setWidth 32) fails = some (p, m') ∧ p ≠ 0 ∧
      b = ⟨p, l₁ + l₂⟩ ∧ (∀ q, q ≠ p → heap' q = heap q) ∧ (∀ i < l₁.toNat, heap' p i = d i) ∧
      ∀ d', data = some d' → ∀ i < l₂.toNat, heap' p (l₁.toNat + i) = d' i := by
  rw [ofParts, if_pos ⟨hl, .inl rfl⟩] at h
  obtain ⟨⟨p, m₁⟩, ha, h⟩ := Option.bind_eq_some_iff.mp h
  obtain ⟨heap₁, h₁, h⟩ := Option.bind_eq_some_iff.mp h
  obtain ⟨heap₂, h₂, h⟩ := Option.bind_eq_some_iff.mp h
  obtain ⟨rfl, hrest⟩ := Prod.mk.inj (Option.some.inj h)
  obtain ⟨rfl, rfl⟩ := Prod.mk.inj hrest
  have hp : p ≠ 0 := by
    rintro rfl
    simp only [copyPart, if_pos hl₁, Heap.memcpy, if_true] at h₁
    cases h₁
  obtain ⟨_, h₁', hfirst, -⟩ := exists_copyPart heap hp 0 (some d) l₁
  obtain rfl := Option.some.inj (h₁'.symm.trans h₁)
  obtain ⟨_, h₂', hsecond, hframe⟩ := exists_copyPart _ hp l₁.toNat data l₂
  obtain rfl := Option.some.inj (h₂'.symm.trans h₂)
  refine ⟨p, ha, hp, rfl, fun q hq => ?_, fun i hi => ?_, hsecond⟩
  · rw [copyPart_other hq h₂, copyPart_other hq h₁]
  · have hi' := hfirst d rfl i hi
    rw [Nat.zero_add] at hi'
    rw [hframe i hi, hi']

end VChat.VSimpleBuffer

namespace VChat.NetWork.Outbound
open Transition Header AllocateManager

def Output.clears (c : Nat) : Output → Bool
  | .cleared d => d = c
  | _ => false

def Output.sentTo (c : Nat) : Output → Option (List VByte)
  | .sent d message => if d = c then some message else none
  | _ => none

def Output.wroteTo (c : Nat) : Output → Option (List VByte)
  | .wrote d bytes => if d = c then some bytes else none
  | _ => none

def sentTo (c : Nat) (log : List Output) : List (List VByte) :=
  (sinceLast (Output.clears c) log).filterMap (Output.sentTo c)

def wroteTo (c : Nat) (log : List Output) : List (List VByte) :=
  (sinceLast (Output.clears c) log).filterMap (Output.wroteTo c)

def Server.queue (s : Server) (c : Nat) : List VSimpleBufferRef :=
  match s.sessions[c]? with
  | some x => x.datas
  | none => []

def Server.holders (s : Server) : List VSimpleBufferRef :=
  s.calls.map Call.buffer ++ s.sessions.flatMap WriteQueue.Session.datas

def refs (bs : List VSimpleBufferRef) : List VPointer := bs.filterMap WriteQueue.VSimpleBuffer.data

def Linked (x : WriteQueue.Session) : Prop := ∃ log l, WriteQueue.Runs x log l

structure Held (st : Store) (b : VSimpleBufferRef) (p : VPointer) : Prop where
  data : b.data = some p
  ne_zero : p ≠ 0
  len_ne : b.len ≠ 0
  live : (p, BitVec.ofNat 32 b.len) ∈ st.manager.live
  others : p ∉ st.others.map Prod.fst
  capacity : b.len ≤ st.manager.capacity p

/-- `bs` are the references there are: counted, each to a live block that no one else has, and
with no block left that neither they nor the rest of the server have. -/
structure Blocks (pl : Platform) (bs : List VSimpleBufferRef) (st : Store) : Prop where
  sound : Sound pl st.manager
  counts : Counts st.useCount (refs bs)
  held : ∀ b ∈ bs, ∃ p, Held st b p
  others : ∀ y ∈ st.others, y ∈ st.manager.live
  nodup : st.others.Nodup
  collected : ∀ y ∈ st.manager.live, y ∈ st.others ∨ y.1 ∈ refs bs

structure Inv (pl : Platform) (s : Server) (log : List Output) : Prop where
  blocks : Blocks pl s.holders s.toStore
  calls : ∀ call ∈ s.calls, content s.heap call.buffer = call.message
  linked : ∀ x ∈ s.sessions, Linked x
  order : ∀ c, wroteTo c log ++ (s.queue c).map (content s.heap) = sentTo c log

/-! ### The blocks -/

variable {pl : Platform} {bs : List VSimpleBufferRef} {b : VSimpleBufferRef} {st st' : Store}

theorem mem_refs {p : VPointer} : p ∈ refs bs ↔ ∃ b ∈ bs, b.data = some p := List.mem_filterMap

theorem Blocks.perm {cs : List VSimpleBufferRef} (h : Blocks pl bs st) (hperm : bs.Perm cs) :
    Blocks pl cs st := by
  have hrefs : (refs bs).Perm (refs cs) := hperm.filterMap _
  refine ⟨h.sound, h.counts.perm hrefs, fun b hb => h.held b (hperm.mem_iff.mpr hb), h.others,
    h.nodup, fun y hy => (h.collected y hy).imp_right hrefs.mem_iff.mp⟩

theorem Blocks.drop (h : Blocks pl (b :: bs) st) (hd : drop pl st b = some st') :
    Blocks pl bs st' ∧ st'.heap = st.heap := by
  obtain ⟨p, hb⟩ := h.held b List.mem_cons_self
  have hrefs : refs (b :: bs) = p :: refs bs := List.filterMap_cons_some hb.data
  have hcounts := h.counts
  rw [hrefs] at hcounts
  obtain ⟨hrest, hlast⟩ := hcounts.release
  have hheld : ∀ c ∈ bs, ∃ q, Held st c q := fun c hc => h.held c (List.mem_cons_of_mem b hc)
  simp only [Outbound.drop, hb.data] at hd
  split_ifs at hd with hr
  · -- the last reference: nobody else has the block
    have hgone : p ∉ refs bs := hlast.mp hr
    simp only [destruct, hb.data, if_pos hb.len_ne] at hd
    obtain ⟨m, hm, rfl⟩ := Option.map_eq_some_iff.mp hd
    have hrel := released_of_deAllocate hb.ne_zero hm
    obtain ⟨hlive, hcap⟩ := hrel.frame
    obtain ⟨hsound, -⟩ := h.sound.release hb.live hrel
    refine ⟨⟨hsound, hrest, fun c hc => ?_, fun y hy => ?_, h.nodup, fun y hy => ?_⟩, rfl⟩
    · obtain ⟨q, hq⟩ := hheld c hc
      have hne : q ≠ p := fun hqp => hgone (hqp ▸ mem_refs.mpr ⟨c, hc, hq.data⟩)
      refine ⟨q, hq.data, hq.ne_zero, hq.len_ne, ?_, hq.others, ?_⟩
      · rw [hlive]
        exact (List.mem_erase_of_ne fun heq => hne (congrArg Prod.fst heq)).mpr hq.live
      · rw [hcap]
        exact hq.capacity
    · rw [hlive]
      refine (List.mem_erase_of_ne fun heq => hb.others ?_).mpr (h.others y hy)
      exact List.mem_map.mpr ⟨y, hy, congrArg Prod.fst heq⟩
    · rw [hlive] at hy
      have hne : y.1 ≠ p := h.sound.ne_of_mem_erase hb.live hy
      refine (h.collected y (List.mem_of_mem_erase hy)).imp_right fun hmem => ?_
      rw [hrefs] at hmem
      exact (List.mem_cons.mp hmem).resolve_left hne
  · obtain rfl := Option.some.inj hd
    have hmem : p ∈ refs bs := not_not.mp fun hgone => hr (hlast.mpr hgone)
    refine ⟨⟨h.sound, hrest, fun c hc => ?_, h.others, h.nodup, fun y hy => ?_⟩, rfl⟩
    · obtain ⟨q, hq⟩ := hheld c hc
      exact ⟨q, hq.data, hq.ne_zero, hq.len_ne, hq.live, hq.others, hq.capacity⟩
    · refine (h.collected y hy).imp_right fun hy => ?_
      rw [hrefs] at hy
      rcases List.mem_cons.mp hy with hy | hy
      · exact hy ▸ hmem
      · exact hy

theorem Blocks.dropAll {cs : List VSimpleBufferRef} (h : Blocks pl (cs ++ bs) st)
    (hd : dropAll pl st cs = some st') : Blocks pl bs st' ∧ st'.heap = st.heap := by
  induction cs generalizing st with
  | nil =>
    obtain rfl := Option.some.inj hd
    exact ⟨h, rfl⟩
  | cons c cs ih =>
    obtain ⟨st₁, hc, hd⟩ := Option.bind_eq_some_iff.mp hd
    obtain ⟨h₁, hheap₁⟩ := h.drop hc
    obtain ⟨h', hheap⟩ := ih h₁ hd
    exact ⟨h', hheap.trans hheap₁⟩

theorem Blocks.exists_drop (h : Blocks pl (b :: bs) st) :
    ∃ st', Outbound.drop pl st b = some st' := by
  obtain ⟨p, hb⟩ := h.held b List.mem_cons_self
  obtain ⟨k, hk, -⟩ := (h.sound.size _ hb.live).2
  simp only [Outbound.drop, hb.data]
  split_ifs with hr
  · simp only [destruct, hb.data, if_pos hb.len_ne, AllocateManager.deAllocate,
      if_neg hb.ne_zero, hk, Option.map_some]
    exact ⟨_, rfl⟩
  · exact ⟨_, rfl⟩

theorem Blocks.exists_dropAll {cs : List VSimpleBufferRef} (h : Blocks pl (cs ++ bs) st) :
    ∃ st', Outbound.dropAll pl st cs = some st' := by
  induction cs generalizing st with
  | nil => exact ⟨st, rfl⟩
  | cons c cs ih =>
    obtain ⟨st₁, hc⟩ := h.exists_drop
    obtain ⟨st₂, hcs⟩ := ih (h.drop hc).1
    refine ⟨st₂, ?_⟩
    rw [Outbound.dropAll, hc, Option.bind_some, hcs]

theorem Memory.read_eq {m : Memory} {bytes : List VByte}
    (h : ∀ i (hi : i < bytes.length), m i = bytes[i]) : m.read bytes.length = bytes := by
  apply List.ext_getElem
  · exact Memory.length_read m _
  · intro i _ hi
    simp only [Memory.read, List.getElem_map, List.getElem_range]
    exact h i hi

theorem content_congr {heap heap' : Heap} {p : VPointer} (hb : b.data = some p)
    (h : heap' p = heap p) : content heap' b = content heap b := by
  simp only [content, hb, h]

theorem Blocks.content_eq (h : Blocks pl bs st) {heap' : Heap}
    (hheap : ∀ p ∈ refs bs, heap' p = st.heap p) (hb : b ∈ bs) :
    content heap' b = content st.heap b := by
  obtain ⟨p, hp⟩ := h.held b hb
  exact content_congr hp.data (hheap p (mem_refs.mpr ⟨b, hb, hp.data⟩))

theorem Blocks.mem_pointers (h : Blocks pl bs st) {p : VPointer} (hp : p ∈ refs bs) :
    p ∈ st.manager.pointers := by
  obtain ⟨b, hb, hbp⟩ := mem_refs.mp hp
  obtain ⟨q, hq⟩ := h.held b hb
  obtain rfl := Option.some.inj (hbp.symm.trans hq.data)
  exact List.mem_map_of_mem hq.live

theorem Blocks.held_allocate (h : Blocks pl bs st) {nSize : VUInt32} {p : VPointer}
    {m : AllocateManager} (ha : Allocated pl st.manager nSize p m) (hp : p ≠ 0) {st' : Store}
    (hm : st'.manager = m.hold p nSize)
    (hothers : ∀ q, q ≠ p → q ∈ st'.others.map Prod.fst → q ∈ st.others.map Prod.fst)
    (hb : b ∈ bs) : ∃ q, Held st' b q := by
  obtain ⟨hlive, hcap⟩ := ha.frame
  obtain ⟨q, hq⟩ := h.held b hb
  have hmem : q ∈ st.manager.pointers := List.mem_map_of_mem hq.live
  have hne : q ≠ p := by
    rintro rfl
    exact ((h.sound.allocate ha).2 hp).2 hmem
  refine ⟨q, hq.data, hq.ne_zero, hq.len_ne, ?_, fun hin => hq.others (hothers q hne hin), ?_⟩
  · rw [hm, hold, if_neg hp, hlive]
    exact List.mem_cons_of_mem _ hq.live
  · rw [hm, hold, if_neg hp]
    show b.len ≤ m.capacity q
    rw [hcap q (h.sound.le_blocks hmem)]
    exact hq.capacity

theorem Blocks.allocate (h : Blocks pl bs st) {nSize : VUInt32} {fails : Bool} {p : VPointer}
    {m : AllocateManager} (ha : st.manager.allocate pl nSize fails = some (p, m)) :
    Blocks pl bs { st with
      manager := m.hold p nSize
      others := if p = 0 then st.others else (p, nSize) :: st.others } := by
  have hal := allocated_of_allocate ha
  obtain ⟨hlive, hcap⟩ := hal.frame
  obtain ⟨hsound, hnew⟩ := h.sound.allocate hal
  by_cases hp : p = 0
  · have hsame : m.hold p nSize = m := if_pos hp
    rw [if_pos hp, hsame]
    rw [hsame] at hsound
    refine ⟨hsound, h.counts, fun b hb => ?_, fun y hy => hlive ▸ h.others y hy, h.nodup,
      fun y hy => h.collected y (hlive ▸ hy)⟩
    obtain ⟨q, hq⟩ := h.held b hb
    have hle : q ≤ st.manager.blocks := h.sound.le_blocks (List.mem_map_of_mem hq.live)
    exact ⟨q, hq.data, hq.ne_zero, hq.len_ne, hlive ▸ hq.live, hq.others,
      (hcap q hle).symm ▸ hq.capacity⟩
  · have hhold : (m.hold p nSize).live = (p, nSize) :: st.manager.live := by
      rw [hold, if_neg hp, hlive]
    have hfresh : ∀ y ∈ st.manager.live, y.1 ≠ p := fun y hy hyp =>
      (hnew hp).2 (hyp ▸ List.mem_map_of_mem hy)
    rw [if_neg hp]
    refine ⟨hsound, h.counts, fun b hb => h.held_allocate hal hp rfl (fun q hq hmem => ?_) hb,
      fun y hy => ?_, ?_, fun y hy => ?_⟩
    · exact (List.mem_cons.mp hmem).resolve_left hq
    · rw [hhold]
      rcases List.mem_cons.mp hy with rfl | hy
      · exact List.mem_cons_self
      · exact List.mem_cons_of_mem _ (h.others y hy)
    · exact List.nodup_cons.mpr ⟨fun hmem => hfresh _ (h.others _ hmem) rfl, h.nodup⟩
    · rw [hhold] at hy
      rcases List.mem_cons.mp hy with rfl | hy
      · exact .inl List.mem_cons_self
      · exact (h.collected y hy).imp_left (List.mem_cons_of_mem _)

theorem Blocks.deAllocate (h : Blocks pl bs st) {nSize : VUInt32} {p : VPointer}
    (hp : (p, nSize) ∈ st.others) {m : AllocateManager}
    (hd : AllocateManager.deAllocate pl
      { st.manager with live := st.manager.live.erase (p, nSize) } p nSize = some m) :
    Blocks pl bs { st with manager := m, others := st.others.erase (p, nSize) } := by
  have hmem : (p, nSize) ∈ st.manager.live := h.others _ hp
  have hrel := released_of_deAllocate (h.sound.size _ hmem).1 hd
  obtain ⟨hlive, hcap⟩ := hrel.frame
  obtain ⟨hsound, -⟩ := h.sound.release hmem hrel
  refine ⟨hsound, h.counts, fun b hb => ?_, fun y hy => ?_, h.nodup.erase _, fun y hy => ?_⟩
  · obtain ⟨q, hq⟩ := h.held b hb
    have hne : q ≠ p := fun hqp => hq.others (hqp ▸ List.mem_map_of_mem hp)
    refine ⟨q, hq.data, hq.ne_zero, hq.len_ne, ?_, fun hin => hq.others ?_, ?_⟩
    · rw [hlive]
      exact (List.mem_erase_of_ne fun heq => hne (congrArg Prod.fst heq)).mpr hq.live
    · exact ((List.erase_sublist.map Prod.fst).subset hin)
    · rw [hcap]
      exact hq.capacity
  · rw [hlive]
    have hy' := (h.nodup.mem_erase_iff).mp hy
    exact (List.mem_erase_of_ne hy'.1).mpr (h.others y hy'.2)
  · rw [hlive] at hy
    have hne : y.1 ≠ p := h.sound.ne_of_mem_erase hmem hy
    refine (h.collected y (List.mem_of_mem_erase hy)).imp_left fun hin => ?_
    exact (List.mem_erase_of_ne fun heq => hne (congrArg Prod.fst heq)).mpr hin

theorem message_getElem {header : Header} {packet : VConstBuffer} {m : Memory}
    (hheader : ∀ i < sizeofHeader, m i = headerMemory header i)
    (hpacket : ∀ d, packet.second = some d → ∀ i < packet.first, m (sizeofHeader + i) = d i)
    (i : Nat) (hi : i < (message header packet).length) : m i = (message header packet)[i] := by
  have hlen : (Header.encode header).length = sizeofHeader := Header.length_encode header
  simp only [message, List.length_append, hlen, VConstBuffer.length_bytes] at hi
  by_cases hlt : i < sizeofHeader
  · have hi' : i < (Header.encode header).length := hlen ▸ hlt
    rw [hheader i hlt]
    simp only [message, List.getElem_append_left hi', headerMemory, List.getD_eq_getElem?_getD,
      List.getElem?_eq_getElem hi', Option.getD_some]
  · obtain ⟨j, rfl⟩ := Nat.exists_eq_add_of_le (Nat.not_lt.mp hlt)
    have hj : j < packet.first := by omega
    have hi' : (Header.encode header).length ≤ sizeofHeader + j := by omega
    cases hd : packet.second with
    | none =>
      have hsome := packet.second_isSome (by omega)
      rw [hd] at hsome
      cases hsome
    | some d =>
      rw [hpacket d hd j hj]
      simp only [message, List.getElem_append_right hi', hlen, Nat.add_sub_cancel_left]
      simp only [VConstBuffer.bytes, hd, Memory.read, List.getElem_map, List.getElem_range]

/-- A packet that, with its header, a block can be had for. -/
def Fits (packet : VConstBuffer) : Prop := sizeofHeader + packet.first ≤ 2 ^ 31

theorem Blocks.makeBuffer (h : Blocks pl bs st) {w : Nat} (hw : 32 ≤ w) {header : Header}
    {packet : VConstBuffer} (hfits : Fits packet) {fails : Bool} {r : Option VSimpleBufferRef}
    (hm : makeBuffer w pl st header packet fails = some (r, st')) :
    ∃ b, r = some b ∧ Blocks pl (b :: bs) st' ∧ content st'.heap b = message header packet ∧
      ∀ p ∈ refs bs, st'.heap p = st.heap p := by
  obtain ⟨⟨b, m, heap⟩, hb, hm⟩ := Option.bind_eq_some_iff.mp hm
  have hbig : 2 ^ 32 ≤ 2 ^ w := Nat.pow_le_pow_right (by decide) hw
  have hl₁ : (BitVec.ofNat w sizeofHeader).toNat = sizeofHeader := by
    rw [BitVec.toNat_ofNat]
    exact Nat.mod_eq_of_lt (Nat.lt_of_lt_of_le (by decide) hbig)
  have hl₂ : (BitVec.ofNat w packet.first).toNat = packet.first := by
    rw [BitVec.toNat_ofNat]
    exact Nat.mod_eq_of_lt (Nat.lt_of_lt_of_le packet.first_lt hbig)
  have hl : (BitVec.ofNat w sizeofHeader + BitVec.ofNat w packet.first).toNat =
      sizeofHeader + packet.first := by
    rw [BitVec.toNat_add, hl₁, hl₂]
    unfold Fits at hfits
    exact Nat.mod_eq_of_lt (by omega)
  have hne₁ : BitVec.ofNat w sizeofHeader ≠ 0 := by
    intro h0
    rw [h0] at hl₁
    simp [sizeofHeader] at hl₁
  have hne : BitVec.ofNat w sizeofHeader + BitVec.ofNat w packet.first ≠ 0 := by
    intro h0
    rw [h0] at hl
    simp [sizeofHeader] at hl
    omega
  obtain ⟨p, ha, hp, rfl, hframe, hfirst, hsecond⟩ := VSimpleBuffer.ofParts_some hne₁ hne hb
  rw [hl₁] at hfirst hsecond
  rw [hl₂] at hsecond
  generalize BitVec.ofNat w sizeofHeader + BitVec.ofNat w packet.first = l at *
  have hsize : (l.setWidth 32 : VUInt32) = BitVec.ofNat 32 l.toNat := by
    apply BitVec.eq_of_toNat_eq
    rw [BitVec.toNat_setWidth, BitVec.toNat_ofNat]
  have hvalid : VSimpleBuffer.isValid (⟨p, l⟩ : VSimpleBuffer w) = true := by
    simp only [VSimpleBuffer.isValid, Bool.and_eq_true, decide_eq_true_eq]
    exact ⟨hp, hne⟩
  simp only [hvalid, if_true] at hm
  obtain ⟨rfl, rfl⟩ := Prod.mk.inj (Option.some.inj hm)
  have hal := allocated_of_allocate ha
  obtain ⟨hlive, hcap⟩ := hal.frame
  obtain ⟨hsound, hnew⟩ := h.sound.allocate hal
  obtain ⟨hroom, hfresh⟩ := hnew hp
  have href : refOf (⟨p, l⟩ : VSimpleBuffer w) = ⟨some p, sizeofHeader + packet.first⟩ := by
    simp [refOf, hp, hl]
  have hrefs : refs (refOf (⟨p, l⟩ : VSimpleBuffer w) :: bs) = p :: refs bs := by
    rw [href]
    rfl
  have hnotin : p ∉ refs bs := fun hin => hfresh (h.mem_pointers hin)
  -- the block is new, so its counter was 0
  have hcount : Function.update st.useCount p 1 = acquire st.useCount p := by
    rw [acquire, h.counts p, List.count_eq_zero_of_not_mem hnotin]
  have hhold : (m.hold p (l.setWidth 32)).live = (p, l.setWidth 32) :: st.manager.live := by
    rw [hold, if_neg hp, hlive]
  refine ⟨_, rfl, ⟨hsound, ?_, fun c hc => ?_, fun y hy => ?_, h.nodup, fun y hy => ?_⟩, ?_,
    fun q hq => hframe q fun hqp => hnotin (hqp ▸ hq)⟩
  · rw [hrefs]
    show Counts (Function.update st.useCount p 1) _
    rw [hcount]
    exact h.counts.acquire p
  · rcases List.mem_cons.mp hc with rfl | hc
    · refine ⟨p, by rw [href], hp, by rw [href]; simp [sizeofHeader], ?_, fun hin => ?_, ?_⟩
      · rw [hhold, href, hsize, hl]
        exact List.mem_cons_self
      · obtain ⟨y, hy, hyp⟩ := List.mem_map.mp hin
        exact hfresh (hyp ▸ List.mem_map_of_mem (h.others y hy))
      · rw [href]
        show sizeofHeader + packet.first ≤ (m.hold p (l.setWidth 32)).capacity p
        rw [hold, if_neg hp]
        have hto : (l.setWidth 32).toNat = sizeofHeader + packet.first := by
          rw [BitVec.toNat_setWidth, hl]
          unfold Fits at hfits
          exact Nat.mod_eq_of_lt (by omega)
        exact hto ▸ hroom
    · exact h.held_allocate hal hp rfl (fun q _ hq => hq) hc
  · rw [hhold]
    exact List.mem_cons_of_mem _ (h.others y hy)
  · rw [hhold] at hy
    rw [hrefs]
    rcases List.mem_cons.mp hy with rfl | hy
    · exact .inr List.mem_cons_self
    · exact (h.collected y hy).imp_right (List.mem_cons_of_mem _)
  · have hlen : (message header packet).length = sizeofHeader + packet.first := by
      rw [message, List.length_append, Header.length_encode, VConstBuffer.length_bytes]
    rw [href]
    show (heap p).read (sizeofHeader + packet.first) = message header packet
    rw [← hlen]
    exact Memory.read_eq (message_getElem hfirst hsecond)

/-! ### The log -/

theorem sentTo_sent (c d : Nat) (log : List Output) (message : List VByte) :
    sentTo d (log ++ [.sent c message]) =
      sentTo d log ++ if c = d then [message] else [] := by
  rw [sentTo, sinceLast_concat, if_neg (by simp [Output.clears]), List.filterMap_append, ← sentTo]
  by_cases h : c = d <;> simp [Output.sentTo, h]

theorem wroteTo_sent (c d : Nat) (log : List Output) (message : List VByte) :
    wroteTo d (log ++ [.sent c message]) = wroteTo d log := by
  rw [wroteTo, sinceLast_concat, if_neg (by simp [Output.clears]), List.filterMap_append,
    ← wroteTo]
  simp [Output.wroteTo]

theorem sentTo_wrote (c d : Nat) (log : List Output) (bytes : List VByte) :
    sentTo d (log ++ [.wrote c bytes]) = sentTo d log := by
  rw [sentTo, sinceLast_concat, if_neg (by simp [Output.clears]), List.filterMap_append, ← sentTo]
  simp [Output.sentTo]

theorem wroteTo_wrote (c d : Nat) (log : List Output) (bytes : List VByte) :
    wroteTo d (log ++ [.wrote c bytes]) = wroteTo d log ++ if c = d then [bytes] else [] := by
  rw [wroteTo, sinceLast_concat, if_neg (by simp [Output.clears]), List.filterMap_append,
    ← wroteTo]
  by_cases h : c = d <;> simp [Output.wroteTo, h]

theorem sentTo_cleared (c d : Nat) (log : List Output) :
    sentTo d (log ++ [.cleared c]) = if c = d then [] else sentTo d log := by
  rw [sentTo, sinceLast_concat]
  by_cases h : c = d
  · simp [Output.clears, h]
  · simp [Output.clears, Output.sentTo, h, sentTo]

theorem wroteTo_cleared (c d : Nat) (log : List Output) :
    wroteTo d (log ++ [.cleared c]) = if c = d then [] else wroteTo d log := by
  rw [wroteTo, sinceLast_concat]
  by_cases h : c = d
  · simp [Output.clears, h]
  · simp [Output.clears, Output.wroteTo, h, wroteTo]

/-! ### The sessions -/

variable {x y : WriteQueue.Session}

theorem linked_new : Linked .new := ⟨[], .opened, WriteQueue.runs_new⟩

theorem Linked.start (h : Linked x) (hw : x.writes = []) (sockOk : Bool) :
    Linked (WriteQueue.start x sockOk).1 := by
  obtain ⟨log, l, hl⟩ := h
  obtain ⟨m, -, hm⟩ := WriteQueue.runs_start hl hw sockOk
  exact ⟨_, m, hm⟩

theorem Linked.sendBuffer (h : Linked x) (b : VSimpleBufferRef) :
    Linked (WriteQueue.sendBuffer x b).1 := by
  obtain ⟨log, l, hl⟩ := h
  obtain ⟨m, -, hm⟩ := WriteQueue.runs_sendBuffer hl b
  exact ⟨_, m, hm⟩

theorem Linked.handleWrite (h : Linked x) {j : Nat} (hj : x.writes[j]? = some b) (error : Bool) :
    Linked (WriteQueue.handleWrite { x with writes := x.writes.eraseIdx j } error).1 := by
  obtain ⟨log, l, hl⟩ := h
  obtain ⟨m, -, hm⟩ := WriteQueue.runs_handleWrite hl hj error
  exact ⟨_, m, hm⟩

theorem Linked.head (h : Linked x) (hb : b ∈ x.writes) : x.datas.head? = some b := by
  obtain ⟨log, l, hl⟩ := h
  rw [hl.datas]
  exact Link.head_of_mem_inFlight (hl.writes ▸ hb)

theorem datas_sendBuffer (hb : b.isValid = true) :
    (WriteQueue.sendBuffer x b).1.datas = x.datas ++ [b] := by
  simp only [WriteQueue.sendBuffer, if_pos hb, WriteQueue.doWrite, Bool.not_false, if_true]
  split_ifs <;> rfl

theorem datas_handleWrite (x : WriteQueue.Session) :
    (WriteQueue.handleWrite x false).1.datas = x.datas.tail := by
  simp only [WriteQueue.handleWrite, Bool.not_false, if_true]
  cases h : x.datas.tail <;> rfl

variable {s t : Server} {log log' : List Output} {c : Nat}

theorem queue_eq (h : s.sessions[c]? = some x) : s.queue c = x.datas := by
  rw [Server.queue, h]

theorem queue_of_set (h : s.sessions[c]? = some x) (ht : t.sessions = s.sessions.set c y)
    (d : Nat) : t.queue d = if d = c then y.datas else s.queue d := by
  have hlt : c < s.sessions.length := (List.getElem?_eq_some_iff.mp h).1
  by_cases hd : d = c
  · subst hd
    rw [if_pos rfl, Server.queue, ht, List.getElem?_set_self hlt]
  · rw [if_neg hd, Server.queue, ht, List.getElem?_set_ne (Ne.symm hd)]
    rfl

theorem mem_holders_of_queue {d : Nat} (hb : b ∈ s.queue d) : b ∈ s.holders := by
  unfold Server.queue at hb
  split at hb
  · rename_i x hx
    exact List.mem_append_right _ (List.mem_flatMap.mpr ⟨x, List.mem_of_getElem? hx, hb⟩)
  · cases hb

theorem map_queue_congr {heap' : Heap}
    (h : ∀ b ∈ s.holders, content heap' b = content s.heap b) (d : Nat) :
    (s.queue d).map (content heap') = (s.queue d).map (content s.heap) :=
  List.map_congr_left fun _ hb => h _ (mem_holders_of_queue hb)

theorem mem_holders_of_call {call : Call} (h : call ∈ s.calls) : call.buffer ∈ s.holders :=
  List.mem_append_left _ (List.mem_map_of_mem h)

theorem holders_set (hx : s.sessions[c]? = some x) (hperm : x.datas.Perm (bs ++ y.datas)) :
    s.holders.Perm (bs ++ (s.calls.map Call.buffer ++
      (s.sessions.set c y).flatMap WriteQueue.Session.datas)) := by
  have hset := perm_flatMap_set (f := WriteQueue.Session.datas) hx y
  have hsessions : (s.sessions.flatMap WriteQueue.Session.datas).Perm
      (bs ++ (s.sessions.set c y).flatMap WriteQueue.Session.datas) := by
    apply (List.perm_append_left_iff y.datas).mp
    refine hset.symm.trans ((hperm.append_right _).trans ?_)
    rw [List.append_assoc]
    exact List.perm_append_comm_assoc _ _ _
  refine (hsessions.append_left _).trans ?_
  exact List.perm_append_comm_assoc _ _ _

/-- A session comes to hold other buffers, and gives up those it no longer holds. -/
theorem Inv.change (h : Inv pl s log) (hx : s.sessions[c]? = some x) (hy : Linked y)
    (hperm : x.datas.Perm (bs ++ y.datas)) (hc : change pl s c y bs = some t)
    (horder : ∀ d, wroteTo d log' ++
      (if d = c then y.datas else s.queue d).map (content s.heap) = sentTo d log') :
    Inv pl t log' := by
  obtain ⟨st, hd, rfl⟩ := Option.map_eq_some_iff.mp hc
  obtain ⟨hblocks, hheap⟩ := (h.blocks.perm (holders_set hx hperm)).dropAll hd
  refine ⟨hblocks, fun call hcall => ?_, fun z hz => ?_, fun d => ?_⟩
  · rw [hheap]
    exact h.calls call hcall
  · rcases List.mem_or_eq_of_mem_set hz with hz | rfl
    · exact h.linked z hz
    · exact hy
  · rw [hheap, queue_of_set (s := s) hx rfl]
    exact horder d

/-! ### The steps -/

def Event.Fits : Event → Prop
  | .sendPacket _ _ _ packet _ => Outbound.Fits packet
  | _ => True

theorem Inv.sendPacket {w : Nat} (hw : 32 ≤ w) (h : Inv pl s log) {nPacketType : VUInt16}
    {nCrc nSeq : VUInt32} {packet : VConstBuffer} (hfits : Fits packet) {fails : Bool}
    (hs : sendPacket w pl s nPacketType nCrc nSeq packet fails = some t) : Inv pl t log := by
  obtain ⟨⟨r, st⟩, hm, ht⟩ := Option.map_eq_some_iff.mp hs
  obtain ⟨b, rfl, hblocks, hcontent, hheap⟩ := h.blocks.makeBuffer hw hfits hm
  subst ht
  have hsame : ∀ c ∈ s.holders, content st.heap c = content s.heap c := fun c hc =>
    h.blocks.content_eq hheap hc
  refine ⟨?_, fun call hcall => ?_, h.linked, fun d => ?_⟩
  · refine hblocks.perm ?_
    simp only [Server.holders, List.map_append, List.map_cons, List.map_nil, List.append_assoc]
    exact List.perm_middle.symm
  · rcases List.mem_append.mp hcall with hcall | hcall
    · exact (hsame _ (mem_holders_of_call hcall)).trans (h.calls call hcall)
    · obtain rfl := List.mem_singleton.mp hcall
      exact hcontent
  · exact (congrArg _ (map_queue_congr hsame d)).trans (h.order d)

theorem Inv.sendBuffer (h : Inv pl s log) {i : Nat} {out : List Output}
    (hs : sendBuffer s i c = some (t, out)) : Inv pl t (log ++ out) := by
  unfold Outbound.sendBuffer at hs
  split at hs
  · rename_i call x hcall hx
    have hmem : call ∈ s.calls := List.mem_of_getElem? hcall
    obtain ⟨p, hp⟩ := h.blocks.held _ (mem_holders_of_call hmem)
    simp only [hp.data] at hs
    obtain ⟨rfl, rfl⟩ := Prod.mk.inj (Option.some.inj hs)
    have hvalid : call.buffer.isValid = true := by
      simp [WriteQueue.VSimpleBuffer.isValid, hp.data, hp.len_ne]
    have hdatas := datas_sendBuffer (x := x) hvalid
    have hrefs : refs (call.buffer :: s.holders) = p :: refs s.holders :=
      List.filterMap_cons_some hp.data
    refine ⟨?_, h.calls, fun z hz => ?_, fun d => ?_⟩
    · have hmore : Blocks pl (call.buffer :: s.holders)
          { s.toStore with useCount := acquire s.useCount p } := by
        refine ⟨h.blocks.sound, ?_, fun b hb => ?_, h.blocks.others, h.blocks.nodup, fun y hy => ?_⟩
        · rw [hrefs]
          exact h.blocks.counts.acquire p
        · have hb' : b ∈ s.holders := by
            rcases List.mem_cons.mp hb with rfl | hb
            · exact mem_holders_of_call hmem
            · exact hb
          obtain ⟨q, hq⟩ := h.blocks.held b hb'
          exact ⟨q, hq.data, hq.ne_zero, hq.len_ne, hq.live, hq.others, hq.capacity⟩
        · rw [hrefs]
          exact (h.blocks.collected y hy).imp_right (List.mem_cons_of_mem _)
      refine hmore.perm ?_
      have hset := perm_flatMap_set (f := WriteQueue.Session.datas) hx
        (WriteQueue.sendBuffer x call.buffer).1
      rw [hdatas, List.append_assoc] at hset
      have hsessions := (List.perm_append_left_iff x.datas).mp hset
      refine (List.perm_middle.symm.trans ?_)
      exact (hsessions.symm.append_left _)
    · rcases List.mem_or_eq_of_mem_set hz with hz | rfl
      · exact h.linked z hz
      · exact (h.linked x (List.mem_of_getElem? hx)).sendBuffer _
    · rw [queue_of_set (s := s) hx rfl, sentTo_sent, wroteTo_sent, ← h.order d]
      by_cases hd : d = c
      · subst hd
        rw [if_pos rfl, if_pos rfl, hdatas, queue_eq hx, List.map_append, ← List.append_assoc,
          ← h.calls call hmem]
        rfl
      · rw [if_neg hd, if_neg (Ne.symm hd), List.append_nil]
  · cases hs

theorem holders_eraseIdx {i : Nat} {call : Call} (hcall : s.calls[i]? = some call) :
    s.holders.Perm (call.buffer :: ((s.calls.eraseIdx i).map Call.buffer ++
      s.sessions.flatMap WriteQueue.Session.datas)) := by
  obtain ⟨hi, hget⟩ := List.getElem?_eq_some_iff.mp hcall
  have hcalls := (List.getElem_cons_eraseIdx_perm hi).symm.map Call.buffer
  rw [hget, List.map_cons] at hcalls
  exact hcalls.append_right _

theorem Inv.finish (h : Inv pl s log) {i : Nat} (hs : finish pl s i = some t) : Inv pl t log := by
  unfold Outbound.finish at hs
  split at hs
  · rename_i call hcall
    obtain ⟨st, hd, rfl⟩ := Option.map_eq_some_iff.mp hs
    obtain ⟨hblocks, hheap⟩ := (h.blocks.perm (holders_eraseIdx hcall)).drop hd
    refine ⟨hblocks, fun call hcall => ?_, h.linked, fun d => ?_⟩
    · rw [hheap]
      exact h.calls call (List.mem_of_mem_eraseIdx hcall)
    · rw [hheap]
      exact h.order d
  · cases hs

theorem Inv.start (h : Inv pl s log) {sockOk : Bool} {out : List Output}
    (hs : start pl s c sockOk = some (t, out)) : Inv pl t (log ++ out) := by
  unfold Outbound.start at hs
  split at hs
  · rename_i x hx
    split_ifs at hs with hw hok
    · obtain ⟨u, hc, hu⟩ := Option.map_eq_some_iff.mp hs
      obtain ⟨rfl, rfl⟩ := Prod.mk.inj hu
      have hdatas : (WriteQueue.start x true).1.datas = [] := WriteQueue.drain_eq_nil _
      refine h.change hx ((h.linked x (List.mem_of_getElem? hx)).start hw true) ?_ hc fun d => ?_
      · rw [hdatas, List.append_nil]
      · rw [sentTo_cleared, wroteTo_cleared, hdatas]
        by_cases hd : d = c
        · rw [if_pos hd, if_pos hd.symm, if_pos hd.symm]
          rfl
        · rw [if_neg hd, if_neg (Ne.symm hd), if_neg (Ne.symm hd)]
          exact h.order d
    · obtain ⟨rfl, rfl⟩ := Prod.mk.inj (Option.some.inj hs)
      rw [List.append_nil]
      exact h
  · cases hs

theorem Inv.destroy (h : Inv pl s log) {out : List Output}
    (hs : destroy pl s c = some (t, out)) : Inv pl t (log ++ out) := by
  unfold Outbound.destroy at hs
  split at hs
  · rename_i x hx
    split_ifs at hs with hw
    obtain ⟨u, hc, hu⟩ := Option.map_eq_some_iff.mp hs
    obtain ⟨rfl, rfl⟩ := Prod.mk.inj hu
    refine h.change hx linked_new ?_ hc fun d => ?_
    · exact List.Perm.of_eq (List.append_nil _).symm
    · rw [sentTo_cleared, wroteTo_cleared]
      by_cases hd : d = c
      · rw [if_pos hd, if_pos hd.symm, if_pos hd.symm]
        rfl
      · rw [if_neg hd, if_neg (Ne.symm hd), if_neg (Ne.symm hd)]
        exact h.order d
  · cases hs

theorem Inv.handleWrite (h : Inv pl s log) {j : Nat} {error : Bool} {out : List Output}
    (hs : handleWrite pl s c j error = some (t, out)) : Inv pl t (log ++ out) := by
  unfold Outbound.handleWrite at hs
  split at hs
  · rename_i x hx
    split at hs
    · rename_i b hj
      have hlinked : Linked x := h.linked x (List.mem_of_getElem? hx)
      have hhead := hlinked.head (List.mem_of_getElem? hj)
      have hnext := hlinked.handleWrite hj error
      cases error with
      | true =>
        rw [if_pos rfl] at hs
        obtain ⟨u, hc, hu⟩ := Option.map_eq_some_iff.mp hs
        obtain ⟨rfl, rfl⟩ := Prod.mk.inj hu
        rw [List.append_nil]
        refine h.change hx hnext (.refl _) hc fun d => ?_
        by_cases hd : d = c
        · subst hd
          rw [if_pos rfl, ← h.order d, queue_eq hx]
          rfl
        · rw [if_neg hd]
          exact h.order d
      | false =>
        rw [if_neg Bool.false_ne_true] at hs
        obtain ⟨u, hc, hu⟩ := Option.map_eq_some_iff.mp hs
        obtain ⟨rfl, rfl⟩ := Prod.mk.inj hu
        have hdatas := datas_handleWrite { x with writes := x.writes.eraseIdx j }
        obtain ⟨q, hq⟩ : ∃ q, x.datas = b :: q := List.head?_eq_some_iff.mp hhead
        refine h.change hx hnext ?_ hc fun d => ?_
        · rw [hdatas]
          show x.datas.Perm (x.datas.take 1 ++ x.datas.tail)
          rw [hq]
          exact .refl _
        · rw [sentTo_wrote, wroteTo_wrote, hdatas, ← h.order d]
          by_cases hd : d = c
          · subst hd
            rw [if_pos rfl, if_pos rfl, queue_eq hx, List.append_assoc]
            show _ ++ ([content s.heap b] ++ x.datas.tail.map _) = _
            rw [hq]
            rfl
          · rw [if_neg hd, if_neg (Ne.symm hd), List.append_nil]
    · cases hs
  · cases hs

theorem Inv.exists_finish (h : Inv pl s log) {i : Nat} (hi : i < s.calls.length) :
    ∃ t, Outbound.finish pl s i = some t := by
  have hcall : s.calls[i]? = some s.calls[i] := List.getElem?_eq_getElem hi
  obtain ⟨st, hd⟩ := (h.blocks.perm (holders_eraseIdx hcall)).exists_drop
  unfold Outbound.finish
  rw [hcall]
  simp only [hd, Option.map_some]
  exact ⟨_, rfl⟩

theorem Inv.exists_handleWrite (h : Inv pl s log) (hx : s.sessions[c]? = some x) {j : Nat}
    (hj : x.writes[j]? = some b) (error : Bool) :
    ∃ r, Outbound.handleWrite pl s c j error = some r := by
  have hdatas := datas_handleWrite { x with writes := x.writes.eraseIdx j }
  unfold Outbound.handleWrite
  rw [hx]
  simp only [hj]
  cases error with
  | true => exact ⟨_, rfl⟩
  | false =>
    have hperm : x.datas.Perm (x.datas.take 1 ++
        (WriteQueue.handleWrite { x with writes := x.writes.eraseIdx j } false).1.datas) := by
      rw [hdatas]
      cases x.datas with
      | nil => exact .refl _
      | cons => exact .refl _
    obtain ⟨st, hd⟩ := (h.blocks.perm (holders_set hx hperm)).exists_dropAll
    rw [if_neg Bool.false_ne_true, Outbound.change, hd]
    exact ⟨_, rfl⟩

theorem Inv.step {w : Nat} (hw : 32 ≤ w) (h : Inv pl s log) {e : Event} (hfits : e.Fits)
    {out : List Output} (hs : step w pl s e = some (t, out)) : Inv pl t (log ++ out) := by
  cases e with
  | sendPacket nPacketType nCrc nSeq packet fails =>
    obtain ⟨u, hu, heq⟩ := Option.map_eq_some_iff.mp hs
    obtain ⟨rfl, rfl⟩ := Prod.mk.inj heq
    rw [List.append_nil]
    exact h.sendPacket hw hfits hu
  | sendBuffer i c => exact h.sendBuffer hs
  | finish i =>
    obtain ⟨u, hu, heq⟩ := Option.map_eq_some_iff.mp hs
    obtain ⟨rfl, rfl⟩ := Prod.mk.inj heq
    rw [List.append_nil]
    exact h.finish hu
  | createSession =>
    obtain ⟨rfl, rfl⟩ := Prod.mk.inj (Option.some.inj hs)
    have hqueue : ∀ d, Server.queue { s with sessions := s.sessions ++ [.new] } d = s.queue d := by
      intro d
      unfold Server.queue
      rcases Nat.lt_trichotomy d s.sessions.length with hd | rfl | hd
      · rw [List.getElem?_append_left hd]
      · rw [List.getElem?_concat_length, List.getElem?_eq_none (Nat.le_refl _)]
        rfl
      · have hlen : (s.sessions ++ [WriteQueue.Session.new]).length ≤ d := by
          rw [List.length_append, List.length_singleton]
          exact hd
        rw [List.getElem?_eq_none hlen, List.getElem?_eq_none (Nat.le_of_lt hd)]
    have hholders : Server.holders { s with sessions := s.sessions ++ [.new] } = s.holders := by
      simp [Server.holders, WriteQueue.Session.new]
    rw [List.append_nil]
    refine ⟨?_, h.calls, fun x hx => ?_, fun d => ?_⟩
    · rw [hholders]
      exact h.blocks
    · rcases List.mem_append.mp hx with hx | hx
      · exact h.linked x hx
      · exact List.mem_singleton.mp hx ▸ linked_new
    · rw [hqueue]
      exact h.order d
  | start c sockOk => exact h.start hs
  | handleWrite c j error => exact h.handleWrite hs
  | destroy c => exact h.destroy hs
  | allocate nSize fails =>
    obtain ⟨⟨p, m⟩, ha, heq⟩ := Option.map_eq_some_iff.mp hs
    obtain ⟨rfl, rfl⟩ := Prod.mk.inj heq
    rw [List.append_nil]
    exact ⟨h.blocks.allocate ha, h.calls, h.linked, h.order⟩
  | deAllocate p nSize =>
    simp only [Outbound.step] at hs
    split_ifs at hs with hp
    obtain ⟨m, hm, heq⟩ := Option.map_eq_some_iff.mp hs
    obtain ⟨rfl, rfl⟩ := Prod.mk.inj heq
    rw [List.append_nil]
    exact ⟨h.blocks.deAllocate (List.contains_iff_mem.mp hp) hm, h.calls, h.linked, h.order⟩
  | store p offset b =>
    simp only [Outbound.step] at hs
    split_ifs at hs with hp
    obtain ⟨rfl, rfl⟩ := Prod.mk.inj (Option.some.inj hs)
    have hsame : ∀ c ∈ s.holders,
        content (Function.update s.heap p ((s.heap p).store offset [b])) c =
        content s.heap c := by
      intro c hc
      obtain ⟨q, hq⟩ := h.blocks.held c hc
      have hne : q ≠ p := fun hqp => hq.others (hqp ▸ hp)
      exact content_congr hq.data (Function.update_of_ne hne _ _)
    rw [List.append_nil]
    refine ⟨⟨h.blocks.sound, h.blocks.counts, fun c hc => ?_, h.blocks.others, h.blocks.nodup,
      h.blocks.collected⟩, fun call hcall => ?_, h.linked, fun d => ?_⟩
    · obtain ⟨q, hq⟩ := h.blocks.held c hc
      exact ⟨q, hq.data, hq.ne_zero, hq.len_ne, hq.live, hq.others, hq.capacity⟩
    · exact (hsame _ (mem_holders_of_call hcall)).trans (h.calls call hcall)
    · exact (congrArg _ (map_queue_congr hsame d)).trans (h.order d)

/-- At every point of a run: each session has written, and has in its queue with the bytes they
were given, exactly the packets sent to it, in order; a write is of the front of the queue; every
buffer in use has a live block, its own and large enough; no block is in two of the pools, the
callers' hands and the freed; what nobody uses any more is not live; and calls can return and
writes complete. -/
structure Delivers (pl : Platform) (s : Server) (log : List Output) : Prop where
  order : ∀ c, wroteTo c log ++ (s.queue c).map (content s.heap) = sentTo c log
  inFlight : ∀ x ∈ s.sessions, ∀ b ∈ x.writes, x.datas.head? = some b
  held : ∀ b ∈ s.holders, ∃ p, Held s.toStore b p
  apart : (s.manager.ledger pl).Nodup
  collected : ∀ y ∈ s.manager.live, y ∈ s.others ∨ ∃ b ∈ s.holders, b.data = some y.1
  returns : ∀ i < s.calls.length, ∃ t, finish pl s i = some t
  completes : ∀ c x j b error, s.sessions[c]? = some x → x.writes[j]? = some b →
    ∃ r, handleWrite pl s c j error = some r

def Server.opened (pl : Platform) (uninit : Nat → VPointer) (heap : Heap) : Server :=
  ⟨⟨(AllocateManager.new uninit).start pl, heap, fun _ => 0, []⟩, [], []⟩

theorem inv_opened (uninit : Nat → VPointer) (heap : Heap) :
    Inv pl (.opened pl uninit heap) [] := by
  refine ⟨⟨sound_start uninit, counts_nil, ?_, ?_, List.nodup_nil, ?_⟩, ?_, ?_, fun _ => rfl⟩
  · exact fun _ hb => absurd hb List.not_mem_nil
  · exact fun _ hy => absurd hy List.not_mem_nil
  · exact fun _ hy => absurd hy List.not_mem_nil
  · exact fun _ hcall => absurd hcall List.not_mem_nil
  · exact fun _ hx => absurd hx List.not_mem_nil

theorem inv_of_exec {w : Nat} (hw : 32 ≤ w) {uninit : Nat → VPointer} {heap : Heap}
    {es : List Event} (hfits : ∀ e ∈ es, e.Fits)
    (h : exec (traced (step w pl)) (.opened pl uninit heap, []) es = some (s, log)) :
    Inv pl s log := by
  refine exec_induction (P := fun es x => (∀ e ∈ es, e.Fits) → Inv pl x.1 x.2)
    (fun _ => inv_opened uninit heap) (fun es x e y ih hstep hfits => ?_) h hfits
  obtain ⟨out, hstep, hlog⟩ := traced_eq_some.mp hstep
  rw [hlog]
  have hbefore : Inv pl x.1 x.2 := ih fun e he => hfits e (List.mem_append_left _ he)
  exact hbefore.step hw (hfits e (by simp)) hstep

theorem outbound_run {w : Nat} (hw : 32 ≤ w) {uninit : Nat → VPointer} {heap : Heap}
    {es : List Event} (hfits : ∀ e ∈ es, e.Fits)
    (h : exec (traced (step w pl)) (.opened pl uninit heap, []) es = some (s, log)) :
    Delivers pl s log := by
  have hinv := inv_of_exec hw hfits h
  refine ⟨hinv.order, fun x hx b hb => (hinv.linked x hx).head hb, hinv.blocks.held,
    hinv.blocks.sound.nodup, fun y hy => ?_, fun i hi => hinv.exists_finish hi,
    fun c x j b error hx hj => hinv.exists_handleWrite hx hj error⟩
  exact (hinv.blocks.collected y hy).imp_right mem_refs.mp

/-- A packet for two sessions, the first of which has written it before the call returns. -/
theorem outbound_run_broadcast :
    let es : List Event := [.createSession, .createSession, .sendPacket 3 0 0 .empty false,
      .sendBuffer 0 0, .sendBuffer 0 1, .handleWrite 0 0 false, .allocate 14 false, .finish 0]
    ∃ s log, exec (traced (step 64 .win32)) (.opened .win32 (fun _ => 0) fun _ _ => 0, []) es =
        some (s, log) ∧ s.useCount 1 = 1 ∧ wroteTo 0 log = [message ⟨0, 0, 0, 3⟩ .empty] ∧
      wroteTo 1 log = [] ∧ Delivers .win32 s log := by
  intro es
  have hfits : ∀ e ∈ es, e.Fits := by
    intro e he
    simp only [es, List.mem_cons, List.not_mem_nil, or_false] at he
    rcases he with rfl | rfl | rfl | rfl | rfl | rfl | rfl | rfl <;>
      first | trivial | exact (by decide : sizeofHeader + 0 ≤ 2 ^ 31)
  obtain ⟨s, log, h, hcount, hwrote⟩ : ∃ s log, exec (traced (step 64 .win32))
      (.opened .win32 (fun _ => 0) fun _ _ => 0, []) es = some (s, log) ∧ s.useCount 1 = 1 ∧
      wroteTo 0 log = [message ⟨0, 0, 0, 3⟩ .empty] ∧ wroteTo 1 log = [] :=
    ⟨_, _, rfl, rfl, rfl, rfl⟩
  exact ⟨s, log, h, hcount, hwrote.1, hwrote.2, outbound_run (by decide) hfits h⟩

end VChat.NetWork.Outbound
