import VChat.Chat.Room
import VChat.Transition.Runs

/-! Threads that log a match while others add and remove users. Every read of the number of members
is a step. -/

namespace VChat.MatchLog
open Transition World

def matchType : List String := ["1vs1", "2vs2", "3vs3", "4vs4", "5vs5"]

def getUserCount (w : World) (r : VChatRoomRef) : VUInt32 := BitVec.ofNat 32 (w.room r).users.length

/-- What a thread reads next in `WriteLogMatchMaking`: the second half of the guard, or the count
for the index. -/
inductive Pc where
  | idle
  | secondRead (pRoom1 : VChatRoomRef) (pRoom2 : Option VChatRoomRef)
  | indexRead (pRoom1 : VChatRoomRef) (pRoom2 : Option VChatRoomRef)

/-- The fields of a log line that name the rooms and the type of the match; none is a read outside
the table. -/
structure Line where
  roomID1 : VInt32
  roomID2 : VInt32
  matchType : Option String

structure Server where
  world : World
  thread : Nat → Pc
  log : List Line

inductive Event where
  | writeLogMatchMaking (i : Nat) (pRoom1 pRoom2 : Option VChatRoomRef)
  | proceed (i : Nat)
  | addUsr (r : VChatRoomRef) (usr : VChatUserRef)
  | removeUsr (r : VChatRoomRef) (usr : VChatUserRef)

def goto (s : Server) (i : Nat) (pc : Pc) : Server :=
  { s with thread := Function.update s.thread i pc }

def index (w : World) (r : VChatRoomRef) : VUInt32 := getUserCount w r - 1

def line (w : World) (pRoom1 : VChatRoomRef) : Option VChatRoomRef → Line
  | some pRoom2 =>
    ⟨(w.room pRoom1).nId, (w.room pRoom2).nId, matchType[(index w pRoom1).toNat]?⟩
  | none => ⟨(w.room pRoom1).nId, 0, matchType[(index w pRoom1).toNat]?⟩

def writeLogMatchMaking (s : Server) (i : Nat) (pRoom1 pRoom2 : Option VChatRoomRef) : Server :=
  match pRoom1 with
  | none => s
  | some r => if getUserCount s.world r ≤ 0 then s else goto s i (.secondRead r pRoom2)

def proceed (s : Server) (i : Nat) : Option Server :=
  match s.thread i with
  | .idle => none
  | .secondRead r pRoom2 =>
    if getUserCount s.world r > 5 then some (goto s i .idle)
    else some (goto s i (.indexRead r pRoom2))
  | .indexRead r pRoom2 => some (goto { s with log := s.log ++ [line s.world r pRoom2] } i .idle)

def step (s : Server) : Event → Option Server
  | .writeLogMatchMaking i pRoom1 pRoom2 =>
    match s.thread i with
    | .idle => some (writeLogMatchMaking s i pRoom1 pRoom2)
    | _ => none
  | .proceed i => proceed s i
  | .addUsr r usr => some { s with world := s.world.addUsr r usr }
  | .removeUsr r usr => some { s with world := (s.world.removeUsr r usr).1 }

/-- The index that a step uses is from 0 to 4. -/
def InTable (s : Server) (e : Event) (_ : Server) : Prop :=
  ∀ i r pRoom2, e = .proceed i → s.thread i = .indexRead r pRoom2 →
    (index s.world r).toNat < matchType.length

/-- Nobody takes the last member away while a call is between its reads, nor adds a sixth between
the guard and the index. -/
def Meets (s : Server) : Event → Prop
  | .addUsr r _ => ∀ i pRoom2,
    (s.thread i = .secondRead r pRoom2 → getUserCount s.world r + 1 ≠ 0) ∧
      (s.thread i = .indexRead r pRoom2 → getUserCount s.world r ≠ 5)
  | .removeUsr r usr => usr ∈ (s.world.room r).users → ∀ i pRoom2,
    s.thread i = .secondRead r pRoom2 ∨ s.thread i = .indexRead r pRoom2 →
      getUserCount s.world r ≠ 1
  | _ => True

def Pc.Seen (w : World) : Pc → Prop
  | .idle => True
  | .secondRead r _ => getUserCount w r ≠ 0
  | .indexRead r _ => getUserCount w r ≠ 0 ∧ getUserCount w r ≤ 5

def Guarded (s : Server) : Prop := ∀ i, (s.thread i).Seen s.world

variable {s t : Server} {e : Event} {w : World} {r q : VChatRoomRef} {usr : VChatUserRef}

theorem index_lt_iff (n : VUInt32) : (n - 1).toNat < matchType.length ↔ n ≠ 0 ∧ n ≤ 5 := by
  show (n - 1).toNat < 5 ↔ _
  constructor
  · intro h
    bv_omega
  · rintro ⟨h0, h5⟩
    bv_omega

theorem getUserCount_addUsr (w : World) (r : VChatRoomRef) (usr : VChatUserRef)
    (q : VChatRoomRef) : getUserCount (w.addUsr r usr) q =
      if q = r then getUserCount w r + 1 else getUserCount w q := by
  rw [getUserCount, addUsr_room]
  split_ifs with hq
  · rw [hq, List.length_append, BitVec.ofNat_add]
    rfl
  · rfl

theorem getUserCount_removeUsr (h : usr ∈ (w.room r).users) (q : VChatRoomRef) :
    getUserCount (w.removeUsr r usr).1 q =
      if q = r then getUserCount w r - 1 else getUserCount w q := by
  rw [getUserCount, removeUsr_users]
  split_ifs with hq
  · subst hq
    have hpos : 0 < (w.room q).users.length := List.length_pos_of_mem h
    rw [List.length_erase_of_mem h, getUserCount]
    apply BitVec.eq_of_toNat_eq
    bv_omega
  · rfl

theorem inTable_of_guarded (h : Guarded s) : InTable s e t := by
  rintro i r pRoom2 rfl hpc
  have hseen := h i
  rw [hpc] at hseen
  exact (index_lt_iff _).mpr hseen

theorem Guarded.goto (h : Guarded s) {i : Nat} {pc : Pc} (hpc : pc.Seen s.world) :
    Guarded (goto s i pc) := by
  intro j
  show (Function.update s.thread i pc j).Seen s.world
  by_cases hj : j = i
  · rw [hj, Function.update_self]
    exact hpc
  · rw [Function.update_of_ne hj]
    exact h j

theorem Guarded.writeLogMatchMaking (h : Guarded s) (i : Nat)
    (pRoom1 pRoom2 : Option VChatRoomRef) : Guarded (writeLogMatchMaking s i pRoom1 pRoom2) := by
  cases pRoom1 with
  | none => exact h
  | some r =>
    simp only [MatchLog.writeLogMatchMaking]
    split_ifs with hzero
    · exact h
    · exact h.goto fun h0 => hzero (BitVec.le_of_eq h0)

theorem Guarded.proceed (h : Guarded s) {i : Nat} (hs : proceed s i = some t) : Guarded t := by
  have hseen := h i
  unfold MatchLog.proceed at hs
  cases hpc : s.thread i with
  | idle =>
    rw [hpc] at hs
    cases hs
  | secondRead r pRoom2 =>
    simp only [hpc] at hs hseen
    split_ifs at hs with hmore
    · exact Option.some.inj hs ▸ h.goto trivial
    · exact Option.some.inj hs ▸ h.goto ⟨hseen, BitVec.not_lt.mp hmore⟩
  | indexRead r pRoom2 =>
    simp only [hpc] at hs
    obtain rfl := Option.some.inj hs
    exact Guarded.goto (s := { s with log := s.log ++ [line s.world r pRoom2] }) h trivial

theorem guarded_iff (h : Guarded s) (w : World) (r : VChatRoomRef) (n : VUInt32)
    (hw : ∀ q, getUserCount w q = if q = r then n else getUserCount s.world q) :
    Guarded { s with world := w } ↔ ∀ i pRoom2,
      (s.thread i = .secondRead r pRoom2 → n ≠ 0) ∧
        (s.thread i = .indexRead r pRoom2 → n ≠ 0 ∧ n ≤ 5) := by
  constructor
  · intro hg i pRoom2
    have hseen := hg i
    simp only at hseen
    refine ⟨fun hpc => ?_, fun hpc => ?_⟩
    · rw [hpc] at hseen
      simpa [Pc.Seen, hw] using hseen
    · rw [hpc] at hseen
      simpa [Pc.Seen, hw] using hseen
  · intro hn i
    have hseen := h i
    show (s.thread i).Seen w
    cases hpc : s.thread i with
    | idle => trivial
    | secondRead q pRoom2 =>
      rw [hpc] at hseen
      rw [Pc.Seen, hw]
      split_ifs with hq
      · exact (hn i pRoom2).1 (hq ▸ hpc)
      · exact hseen
    | indexRead q pRoom2 =>
      rw [hpc] at hseen
      rw [Pc.Seen, hw]
      split_ifs with hq
      · exact (hn i pRoom2).2 (hq ▸ hpc)
      · exact hseen

theorem meets_addUsr_iff (h : Guarded s) (r : VChatRoomRef) (usr : VChatUserRef) :
    Meets s (.addUsr r usr) ↔ Guarded { s with world := s.world.addUsr r usr } := by
  rw [guarded_iff h _ r _ (getUserCount_addUsr s.world r usr)]
  refine forall_congr' fun i => forall_congr' fun pRoom2 => and_congr_right fun _ => ?_
  refine forall_congr' fun hpc => ?_
  have hseen := h i
  rw [hpc] at hseen
  obtain ⟨hzero, hle⟩ := hseen
  constructor
  · intro hne
    constructor <;> bv_omega
  · rintro ⟨-, hle'⟩
    bv_omega

theorem meets_removeUsr_iff (h : Guarded s) (hmem : usr ∈ (s.world.room r).users) :
    Meets s (.removeUsr r usr) ↔ Guarded { s with world := (s.world.removeUsr r usr).1 } := by
  rw [guarded_iff h _ r _ (getUserCount_removeUsr hmem)]
  simp only [Meets, hmem, forall_const, or_imp]
  -- one member less is none only if there was one, and still at most five
  refine forall_congr' fun i => forall_congr' fun pRoom2 => and_congr ?_ ?_
  · refine forall_congr' fun hpc => ?_
    constructor <;> intro hne <;> bv_omega
  · refine forall_congr' fun hpc => ?_
    have hseen := h i
    rw [hpc] at hseen
    obtain ⟨hzero, hle⟩ := hseen
    constructor
    · intro hne
      constructor <;> bv_omega
    · rintro ⟨hne, -⟩
      bv_omega

theorem meets_iff (h : Guarded s) (hs : step s e = some t) : Meets s e ↔ Guarded t := by
  cases e with
  | writeLogMatchMaking i pRoom1 pRoom2 =>
    simp only [step] at hs
    split at hs
    · obtain rfl := Option.some.inj hs
      exact iff_of_true trivial (h.writeLogMatchMaking i pRoom1 pRoom2)
    · cases hs
  | proceed i => exact iff_of_true trivial (h.proceed hs)
  | addUsr r usr =>
    obtain rfl := Option.some.inj hs
    exact meets_addUsr_iff h r usr
  | removeUsr r usr =>
    obtain rfl := Option.some.inj hs
    by_cases hmem : usr ∈ (s.world.room r).users
    · exact meets_removeUsr_iff h hmem
    · rw [removeUsr_of_not_mem hmem]
      exact iff_of_true (fun hmem' => absurd hmem' hmem) h

theorem not_inTable {i : Nat} {pRoom2 : Option VChatRoomRef}
    (hpc : s.thread i = .indexRead r pRoom2)
    (h : ¬(getUserCount s.world r ≠ 0 ∧ getUserCount s.world r ≤ 5)) :
    ¬ Along step InTable s [.proceed i] := by
  intro hrun
  have hs : step s (.proceed i) =
      some (goto { s with log := s.log ++ [line s.world r pRoom2] } i .idle) := by
    simp only [step, proceed, hpc]
  exact h ((index_lt_iff _).mp ((hrun _ hs).1 i r pRoom2 rfl hpc))

theorem exists_not_inTable (h : ¬ Guarded s) :
    ∃ es, (∃ i n, es = List.replicate n (.proceed i)) ∧ ¬ Along step InTable s es := by
  obtain ⟨i, hi⟩ := not_forall.mp h
  cases hpc : s.thread i with
  | idle =>
    rw [hpc] at hi
    exact absurd trivial hi
  | secondRead r pRoom2 =>
    rw [hpc] at hi
    have hzero : getUserCount s.world r = 0 := not_not.mp hi
    have hs : step s (.proceed i) = some (goto s i (.indexRead r pRoom2)) := by
      simp only [step, proceed, hpc, hzero]
      rfl
    refine ⟨_, ⟨i, 2, rfl⟩, fun hrun => ?_⟩
    have hnext : (goto s i (.indexRead r pRoom2)).thread i = .indexRead r pRoom2 :=
      Function.update_self _ _ _
    exact not_inTable hnext (fun hcount => hcount.1 hzero) (hrun _ hs).2
  | indexRead r pRoom2 =>
    rw [hpc] at hi
    exact ⟨_, ⟨i, 1, rfl⟩, not_inTable hpc hi⟩

def start (w : World) : Server := ⟨w, fun _ => .idle, []⟩

/-- The runs that meet the condition are those in which, wherever they are left and one of the
calls goes on, no step indexes outside the table. -/
theorem match_log_iff (w : World) (es : List Event) :
    Along step (fun s e _ => Meets s e) (start w) es ↔
      ∀ as, as <+: es → ∀ i n,
        Along step InTable (start w) (as ++ List.replicate n (.proceed i)) := by
  have hproceed : ∀ s : Server, ∀ bs, Guarded s → (∃ i n, bs = List.replicate n (.proceed i)) →
      Along step (fun s e _ => Meets s e) s bs := by
    rintro s bs - ⟨i, n, rfl⟩
    induction n generalizing s with
    | zero => trivial
    | succ n ih => exact fun t _ => ⟨trivial, ih t⟩
  have hstart : Guarded (start w) := fun _ => trivial
  have hiff : Along step (fun s e _ => Meets s e) (start w) es ↔ _ :=
    along_iff_continued (C := fun s e _ => Meets s e) (D := InTable)
      (fun _ e _ h hs => meets_iff (e := e) h hs) (fun _ _ _ h _ => inTable_of_guarded h)
      hproceed (fun _ => exists_not_inTable) hstart es
  rw [hiff]
  refine forall_congr' fun as => forall_congr' fun _ => ⟨fun h i n => h _ ⟨i, n, rfl⟩, ?_⟩
  rintro h bs ⟨i, n, rfl⟩
  exact h i n

/-- Two members; both leave after the guard, and the index is `2 ^ 32 - 1`. -/
theorem not_inTable_left : ∃ s t,
    exec step (start ((World.start.addUsr 0 1).addUsr 0 2))
        [.writeLogMatchMaking 0 (some 0) none, .proceed 0, .removeUsr 0 1, .removeUsr 0 2] =
          some s ∧
      step s (.proceed 0) = some t ∧ index s.world 0 = 0xFFFFFFFF ∧
      t.log.map (·.matchType) = [none] ∧ ¬ InTable s (.proceed 0) t := by
  refine ⟨_, _, rfl, rfl, by decide, by decide, fun h => ?_⟩
  exact absurd (h 0 0 none rfl rfl) (by decide)

end VChat.MatchLog
