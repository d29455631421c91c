import VChat.Chat.CreateOwned

/-! The limit on the number of users: each call counts under one lock and inserts under another, so
the room that it counts lasts only until someone else takes it. -/

namespace VChat.CreateRace
open Transition World

def Enters (s : Server) (i : Nat) (nUserID : VInt32) : Prop :=
  (∃ user, s.call i = .insert user nUserID) ∧ nUserID ∉ s.world.pUsers

variable (sv : UserServices)

/-- No write section takes the last free place while another call, for another id that is not
registered, is between its second count and its write section. -/
def LeavesRoom (s : Server) (e : Event) : Prop :=
  ∀ i j nUserID nUserID', e = .proceed i → Enters s i nUserID → Enters s j nUserID' →
    nUserID' ≠ nUserID → (s.world.pUsers.size : Int) + 1 < sv.nMaxPlayer.toInt

def Limited (s : Server) : Prop := (s.world.pUsers.size : Int) ≤ sv.nMaxPlayer.toInt

/-- The limit is kept, also if one of the calls runs its next section. -/
def StaysLimited (s : Server) : Prop :=
  Limited sv s ∧ ∀ i t out, step sv s (.proceed i) = some (t, out) → Limited sv t

structure Roomy (s : Server) : Prop where
  threads : Threads s
  limited : Limited sv s
  room : ∀ i nUserID, Enters s i nUserID → (s.world.pUsers.size : Int) < sv.nMaxPlayer.toInt

variable {sv} {s t : Server} {e : Event} {out : List Output} {i : Nat}

theorem size_removeUser (hsv : sv.Lawful) (w : World) (u : VChatUserRef) :
    (w.removeUser sv u).1.pUsers.size ≤ w.pUsers.size := by
  by_cases hu : w.pUsers[(w.user u).nPlayerID]? = some u
  · rw [(removeUser_of_find hsv hu).2.1]
    exact Std.TreeMap.size_erase_le
  · exact Nat.le_of_eq (by rw [removeUser_of_not_find hu])

theorem size_insertUser (hsv : sv.Lawful) (w : World) (u : VChatUserRef) :
    (w.insertUser sv u).pUsers.size =
      if (w.user u).nPlayerID ∈ w.pUsers then w.pUsers.size else w.pUsers.size + 1 := by
  rw [insertUser_pUsers hsv, Std.TreeMap.size_insert]
  simp only [Std.TreeMap.contains_iff_mem]

theorem mem_insertUser (hsv : sv.Lawful) (w : World) (u : VChatUserRef) (id : VInt32) :
    id ∈ (w.insertUser sv u).pUsers ↔ (w.user u).nPlayerID = id ∨ id ∈ w.pUsers := by
  rw [insertUser_pUsers hsv, Std.TreeMap.mem_insert, Std.LawfulEqCmp.compare_eq_iff_eq]

theorem size_removeUser_lt (hsv : sv.Lawful) {w : World} {u : VChatUserRef} {id : VInt32}
    (hw : id ∈ w.pUsers) (hid : id ∉ (w.removeUser sv u).1.pUsers) :
    (w.removeUser sv u).1.pUsers.size < w.pUsers.size := by
  by_cases hu : w.pUsers[(w.user u).nPlayerID]? = some u
  · have hmem : (w.user u).nPlayerID ∈ w.pUsers :=
      Std.TreeMap.mem_iff_isSome_getElem?.mpr (by rw [hu]; rfl)
    have hpos : w.pUsers.size ≠ 0 := fun hzero =>
      Std.TreeMap.not_mem_of_isEmpty (Std.TreeMap.isEmpty_eq_size_eq_zero ▸ by simp [hzero]) hmem
    have hcontains : w.pUsers.contains (w.user u).nPlayerID = true :=
      Std.TreeMap.contains_iff_mem.mpr hmem
    rw [(removeUser_of_find hsv hu).2.1, Std.TreeMap.size_erase, if_pos hcontains]
    omega
  · rw [removeUser_of_not_find hu] at hid
    exact absurd hw hid

/-- The count that `AddUser` takes is the number of users as long as the limit is kept. -/
theorem getUserCount_lt_iff (h : Limited sv s) :
    s.world.getUserCount < sv.nMaxPlayer ↔
      (s.world.pUsers.size : Int) < sv.nMaxPlayer.toInt := by
  have hlt : (s.world.pUsers.size : Int) < 2 ^ 31 := Int.lt_of_le_of_lt h sv.nMaxPlayer.toInt_lt
  have hcount : s.world.getUserCount.toInt = s.world.pUsers.size :=
    Int32.toInt_ofNat_of_lt (by omega)
  rw [Int32.lt_iff_toInt_lt, hcount]

theorem Enters.eq {nUserID nUserID' : VInt32} (h : Enters s i nUserID)
    (h' : Enters s i nUserID') : nUserID' = nUserID := by
  obtain ⟨⟨user, hi⟩, -⟩ := h
  obtain ⟨⟨user', hi'⟩, -⟩ := h'
  cases hi.symm.trans hi'
  rfl

theorem enters_setCall {c : Call} {j : Nat} {nUserID : VInt32}
    (hc : ∀ user, c ≠ .insert user nUserID) (h : Enters (s.setCall i c) j nUserID) :
    Enters s j nUserID ∧ j ≠ i := by
  obtain ⟨⟨user, hj⟩, hnew⟩ := h
  rw [Server.setCall_call] at hj
  split_ifs at hj with hji
  · exact absurd hj (hc user)
  · exact ⟨⟨⟨user, hj⟩, hnew⟩, hji⟩

theorem leavesRoom_of_call (hcall : ∀ user nUserID, s.call i ≠ .insert user nUserID) :
    LeavesRoom sv s (.proceed i) := by
  rintro _ j nUserID nUserID' ⟨⟩ ⟨⟨user, hi⟩, -⟩
  exact absurd hi (hcall user nUserID)

theorem Roomy.setCall (h : Roomy sv s) {c : Call} (ht : Threads (s.setCall i c))
    (hc : ∀ user nUserID, c ≠ .insert user nUserID) : Roomy sv (s.setCall i c) where
  threads := ht
  limited := h.limited
  room := fun j nUserID hj => h.room j nUserID (enters_setCall (fun user => hc user nUserID) hj).1

theorem Roomy.insert_iff (hsv : sv.Lawful) (h : Roomy sv s) {user : VChatUserRef}
    {nUserID : VInt32} (hi : s.call i = .insert user nUserID)
    (ht : Threads (({ s with world := s.world.insertUser sv user }).setCall i
      (.finish user nUserID))) :
    LeavesRoom sv s (.proceed i) ↔
      Roomy sv (({ s with world := s.world.insertUser sv user }).setCall i
        (.finish user nUserID)) := by
  have hkey : (s.world.user user).nPlayerID = nUserID :=
    (h.threads.fresh i user nUserID (by rw [hi]; rfl)).2
  have hsize := size_insertUser hsv s.world user
  rw [hkey] at hsize
  have henters (j : Nat) (id : VInt32) :
      Enters (({ s with world := s.world.insertUser sv user }).setCall i
        (.finish user nUserID)) j id ↔ Enters s j id ∧ j ≠ i ∧ id ≠ nUserID := by
    unfold Enters
    rw [Server.setCall_call, Server.setCall_world, mem_insertUser hsv, hkey]
    by_cases hji : j = i
    · simp [hji]
    · simp [hji, not_or, and_assoc, and_comm, eq_comm]
  by_cases hmem : nUserID ∈ s.world.pUsers
  · rw [if_pos hmem] at hsize
    refine iff_of_true ?_ ⟨ht, ?_, fun j id hj => ?_⟩
    · rintro _ j id id' ⟨⟩ ⟨⟨user', hi'⟩, hnew⟩
      cases hi.symm.trans hi'
      exact absurd hmem hnew
    · show ((s.world.insertUser sv user).pUsers.size : Int) ≤ _
      rw [hsize]
      exact h.limited
    · show ((s.world.insertUser sv user).pUsers.size : Int) < _
      rw [hsize]
      exact h.room j id ((henters j id).mp hj).1
  · rw [if_neg hmem] at hsize
    have hhere : Enters s i nUserID := ⟨⟨user, hi⟩, hmem⟩
    have hroom := h.room i nUserID hhere
    constructor
    · intro hleaves
      refine ⟨ht, ?_, fun j id hj => ?_⟩
      · show ((s.world.insertUser sv user).pUsers.size : Int) ≤ _
        rw [hsize]
        omega
      · obtain ⟨hj, -, hne⟩ := (henters j id).mp hj
        show ((s.world.insertUser sv user).pUsers.size : Int) < _
        rw [hsize]
        exact hleaves i j nUserID id rfl hhere hj hne
    · rintro hr _ j id id' ⟨⟩ hid hj hne
      rw [hhere.eq hid] at hne
      have hji : j ≠ i := by
        rintro rfl
        exact hne (hhere.eq hj)
      have hlt := hr.room j id' ((henters j id').mpr ⟨hj, hji, hne⟩)
      replace hlt : ((s.world.insertUser sv user).pUsers.size : Int) < _ := hlt
      rw [hsize] at hlt
      exact hlt

theorem leavesRoom_iff (hsv : sv.Lawful) (h : Roomy sv s)
    (hstep : step sv s e = some (t, out)) : LeavesRoom sv s e ↔ Roomy sv t := by
  have ht := threads_step hsv h.threads hstep
  cases effect_of_step hstep with
  | started hidle => exact iff_of_true (by simp [LeavesRoom]) (h.setCall ht (by simp))
  | refused => exact iff_of_true (by simp [LeavesRoom]) h
  | @created i nUserID session strName hcall =>
    refine iff_of_true (leavesRoom_of_call (by simp [hcall])) ⟨ht, ?_, fun j id hj => ?_⟩
    · show ((s.world.prepareUser nUserID session strName).pUsers.size : Int) ≤ _
      rw [prepareUser_pUsers]
      exact h.limited
    · obtain ⟨hj, hnew⟩ := (enters_setCall (by simp) hj).1
      show ((s.world.prepareUser nUserID session strName).pUsers.size : Int) < _
      rw [prepareUser_pUsers] at hnew ⊢
      exact h.room j id ⟨hj, hnew⟩
  | unallocated hcall =>
    exact iff_of_true (leavesRoom_of_call (by simp [hcall])) (h.setCall ht (by simp))
  | @counted i user nUserID hcall hroom =>
    refine iff_of_true (leavesRoom_of_call (by simp [hcall])) ⟨ht, h.limited, fun j id hj => ?_⟩
    exact (getUserCount_lt_iff h.limited).mp hroom
  | full hcall =>
    exact iff_of_true (leavesRoom_of_call (by simp [hcall])) (h.setCall ht (by simp))
  | inserted hcall => exact h.insert_iff hsv hcall ht
  | returned hcall =>
    exact iff_of_true (leavesRoom_of_call (by simp [hcall])) (h.setCall ht (by simp))
  | @removed pUser =>
    have hle := size_removeUser hsv s.world pUser
    have hlimited := h.limited
    unfold Limited at hlimited
    refine iff_of_true (by simp [LeavesRoom]) ⟨ht, ?_, fun j id hj => ?_⟩
    · show ((s.world.removeUser sv pUser).1.pUsers.size : Int) ≤ _
      omega
    · show ((s.world.removeUser sv pUser).1.pUsers.size : Int) < _
      by_cases hid : id ∈ s.world.pUsers
      · have hlt := size_removeUser_lt hsv hid hj.2
        omega
      · have hlt := h.room j id ⟨hj.1, hid⟩
        omega

theorem Roomy.limited_proceed (hsv : sv.Lawful) (h : Roomy sv s)
    (hstep : step sv s (.proceed i) = some (t, out)) : Limited sv t := by
  by_cases hcall : ∃ user nUserID, s.call i = .insert user nUserID
  · obtain ⟨user, nUserID, hi⟩ := hcall
    simp only [step, hi, proceed, Option.some.injEq, Prod.mk.injEq] at hstep
    have hkey : (s.world.user user).nPlayerID = nUserID :=
      (h.threads.fresh i user nUserID (by rw [hi]; rfl)).2
    rw [← hstep.1]
    show ((s.world.insertUser sv user).pUsers.size : Int) ≤ _
    rw [size_insertUser hsv, hkey]
    split_ifs with hmem
    · exact h.limited
    · have hroom := h.room i nUserID ⟨⟨user, hi⟩, hmem⟩
      omega
  · have hcall : ∀ user nUserID, s.call i ≠ .insert user nUserID :=
      fun user nUserID hi => hcall ⟨user, nUserID, hi⟩
    exact ((leavesRoom_iff hsv h hstep).mp (leavesRoom_of_call hcall)).limited

theorem roomy_iff (hsv : sv.Lawful) (ht : Threads s) : Roomy sv s ↔ StaysLimited sv s := by
  constructor
  · exact fun h => ⟨h.limited, fun i t out hstep => h.limited_proceed hsv hstep⟩
  · rintro ⟨hlimited, hnext⟩
    refine ⟨ht, hlimited, ?_⟩
    rintro i nUserID ⟨⟨user, hi⟩, hmem⟩
    have hsize : ((s.world.insertUser sv user).pUsers.size : Int) ≤ _ :=
      hnext i _ _ (by rw [step, hi, proceed])
    have hkey : (s.world.user user).nPlayerID = nUserID :=
      (ht.fresh i user nUserID (by rw [hi]; rfl)).2
    rw [size_insertUser hsv, hkey, if_neg hmem] at hsize
    omega

/-- Whatever the interleaving: no call takes the last free place while another one, for another new
id, is between its second count and its write section, if and only if the limit is kept in every
state reached and would be if any of the calls went on there. -/
theorem playerLimit_run_iff {sv : UserServices} (hsv : sv.Lawful) (hmax : 0 ≤ sv.nMaxPlayer)
    {w : World} (hempty : w.pUsers = ∅) (es : List Event) :
    Along (traced (step sv)) (fun x e _ => LeavesRoom sv x.1 e) (⟨w, fun _ => .idle⟩, []) es ↔
      Along (traced (step sv)) (fun _ _ y => StaysLimited sv y.1) (⟨w, fun _ => .idle⟩, []) es := by
  have hmax : 0 ≤ sv.nMaxPlayer.toInt := by
    have hle := Int32.le_iff_toInt_le.mp hmax
    simpa using hle
  have h₀ : Roomy sv ⟨w, fun _ => .idle⟩ := by
    refine ⟨threads_idle hempty, ?_, ?_⟩
    · simp only [Limited, hempty, Std.TreeMap.size_emptyc]
      exact hmax
    · rintro i nUserID ⟨⟨user, hi⟩, -⟩
      cases hi
  have hiff : ∀ x e y, Roomy sv x.1 → traced (step sv) x e = some y →
      (LeavesRoom sv x.1 e ↔ StaysLimited sv y.1) := by
    intro x e y hx hstep
    obtain ⟨out, hstep, -⟩ := traced_eq_some.mp hstep
    rw [leavesRoom_iff hsv hx hstep, roomy_iff hsv (threads_step hsv hx.threads hstep)]
  refine along_iff_along (J := fun x => Roomy sv x.1) (fun x e y hx hstep hy => ?_) hiff es h₀
  obtain ⟨out, hstep, -⟩ := traced_eq_some.mp hstep
  exact (roomy_iff hsv (threads_step hsv hx.threads hstep)).mpr hy

/-- Two logins at a limit of 2, which both count before either inserts. -/
theorem playerLimit_run_iff_two :
    Along (traced (step (.plain 2))) (fun _ _ y => StaysLimited (.plain 2) y.1)
      (⟨start, fun _ => .idle⟩, [])
      [.createUser 0 true 5 none "a", .createUser 1 true 6 none "b", .proceed 0, .proceed 1,
        .proceed 0, .proceed 1, .proceed 0, .proceed 1] := by
  refine (playerLimit_run_iff (UserServices.lawful_plain 2) (by decide) rfl _).mp ?_
  have hcreate (s : Server) (i : Nat) (nUserID : VInt32) (strName : String) :
      LeavesRoom (.plain 2) s (.createUser i true nUserID none strName) := by simp [LeavesRoom]
  refine .cons rfl (hcreate _ 0 5 "a") (.cons rfl (hcreate _ 1 6 "b") ?_)
  refine .cons rfl (leavesRoom_of_call (by rintro _ _ ⟨⟩)) ?_
  refine .cons rfl (leavesRoom_of_call (by rintro _ _ ⟨⟩)) ?_
  refine .cons rfl (leavesRoom_of_call (by rintro _ _ ⟨⟩)) ?_
  refine .cons rfl (leavesRoom_of_call (by rintro _ _ ⟨⟩)) ?_
  refine .cons rfl (fun _ _ _ _ _ _ _ _ => by decide) (.cons rfl ?_ trivial)
  rintro _ j nUserID nUserID' ⟨⟩ ⟨⟨user, hi⟩, -⟩ ⟨⟨user', hj⟩, -⟩ hne
  match j, hj with
  | 1, hj => exact absurd (Call.insert.inj (hj.symm.trans hi)).2 hne

/-- Two logins count before either inserts: with a limit of 1, both users are registered. -/
theorem not_limited_raced : ∃ s log,
    exec (traced (step (.plain 1))) (⟨start, fun _ => .idle⟩, [])
        [.createUser 0 true 5 none "a", .createUser 1 true 6 none "b", .proceed 0, .proceed 1,
          .proceed 0, .proceed 1, .proceed 0, .proceed 1] = some (s, log) ∧
      s.world.pUsers.size = 2 ∧ (UserServices.plain 1).nMaxPlayer = 1 :=
  ⟨_, _, rfl, by decide, rfl⟩

end VChat.CreateRace
