import VChat.Chat.RoomManager
import VChat.Transition.Runs

/-! `GetMMRooms` while other threads act on the rooms it goes through. It holds the manager's lock,
so nobody joins and `m_Rooms` does not change, but it takes a room's lock anew for each question. -/

namespace VChat.ScanRace
open Transition World

inductive Pc where
  | next
  | getStatus (it : VInt32 × VChatRoomRef)
  | getCriteria (it : VInt32 × VChatRoomRef)

structure State where
  world : World
  todo : List (VInt32 × VChatRoomRef)
  pc : Pc
  list : List (MMCriteria × VChatRoomRef)

/-- `scan` is the next step of `GetMMRooms`; the others need no lock but a room's. -/
inductive Event where
  | scan
  | removeUsr (r : VChatRoomRef) (usr : VChatUserRef)
  | startMM (r : VChatRoomRef) (now : VTime)
  | stopMM (r : VChatRoomRef)
  | setStatus (r : VChatRoomRef) (value : VInt32)

variable (modes : MatchMakingModes)

def scan (s : State) : Option State :=
  match s.pc, s.todo with
  | .next, [] => none
  | .next, it :: todo =>
    some { s with
      todo := todo
      pc := if modes.isMatchMakingMode (s.world.room it.2).nGameMode.toInt32 then .getStatus it
        else .next }
  | .getStatus it, _ =>
    some { s with
      pc := if (s.world.room it.2).nRoomStatus = roomEnqueueMM then .getCriteria it else .next }
  | .getCriteria it, _ =>
    some { s with
      pc := .next
      list := match s.world.getCriteria it.2 with
        | some criteria => s.list ++ [(criteria, it.2)]
        | none => s.list }

def step (s : State) : Event → Option State
  | .scan => scan modes s
  | .removeUsr r usr => some { s with world := (s.world.removeUsr r usr).1 }
  | .startMM r now => some { s with world := (s.world.startMM r now).1 }
  | .stopMM r => some { s with world := (s.world.stopMM r).1 }
  | .setStatus r value => some { s with world := (s.world.setStatus r value).1 }

def start (w : World) (list : List (MMCriteria × VChatRoomRef)) : State :=
  ⟨w, w.rooms.toList, .next, list⟩

/-- Since `w` the rooms have only lost members, and with the last of them mode and server. -/
def Shrunk (w t : World) : Prop :=
  ∀ r, (t.room r).users.Sublist (w.room r).users ∧ ((t.room r).users ≠ [] →
    (t.room r).nGameMode = (w.room r).nGameMode ∧ (t.room r).nServerId = (w.room r).nServerId)

variable {modes} {w t u : World} {s s' : State} {r : VChatRoomRef}

theorem shrunk_of_room_eq (h : ∀ r, (t.room r).users = (w.room r).users ∧
    (t.room r).nGameMode = (w.room r).nGameMode ∧ (t.room r).nServerId = (w.room r).nServerId) :
    Shrunk w t := by
  intro r
  obtain ⟨husers, hmode, hserver⟩ := h r
  exact ⟨husers ▸ .refl _, fun _ => ⟨hmode, hserver⟩⟩

theorem Shrunk.trans (h : Shrunk w t) (h' : Shrunk t u) : Shrunk w u := by
  intro r
  obtain ⟨hsub, hkept⟩ := h r
  obtain ⟨hsub', hkept'⟩ := h' r
  refine ⟨hsub'.trans hsub, fun hu => ?_⟩
  have ht : (t.room r).users ≠ [] := by
    intro ht
    rw [ht, List.sublist_nil] at hsub'
    exact hu hsub'
  obtain ⟨hmode, hserver⟩ := hkept ht
  obtain ⟨hmode', hserver'⟩ := hkept' hu
  exact ⟨hmode'.trans hmode, hserver'.trans hserver⟩

theorem shrunk_removeUsr (w : World) (r : VChatRoomRef) (usr : VChatUserRef) :
    Shrunk w (w.removeUsr r usr).1 := by
  intro s
  refine ⟨?_, fun hne => ?_⟩
  · rw [removeUsr_users]
    split_ifs
    · exact List.erase_sublist
    · exact .refl _
  · by_cases hs : s = r
    · subst hs
      by_cases hmem : usr ∈ (w.room s).users
      · rw [removeUsr_room_self hmem] at hne ⊢
        have hleft : ((w.room s).users.erase usr).isEmpty = false :=
          List.isEmpty_eq_false_iff.mpr hne
        simp [VChatRoom.without, hleft]
      · rw [removeUsr_of_not_mem hmem]
        exact ⟨rfl, rfl⟩
    · rw [removeUsr_room_of_ne hs]
      exact ⟨rfl, rfl⟩

theorem Shrunk.step {e : Event} (h : step modes s e = some s') : Shrunk s.world s'.world := by
  cases e with
  | scan =>
    have hworld : s'.world = s.world := by
      simp only [ScanRace.step, scan] at h
      split at h
      · cases h
      all_goals
        obtain rfl := Option.some.inj h
        rfl
    rw [hworld]
    exact shrunk_of_room_eq fun _ => ⟨rfl, rfl, rfl⟩
  | removeUsr r usr =>
    obtain rfl := Option.some.inj h
    exact shrunk_removeUsr s.world r usr
  | startMM r now =>
    obtain rfl := Option.some.inj h
    refine shrunk_of_room_eq fun q => ?_
    simp only [startMM]
    split_ifs
    · rw [modifyRoom_room]
      split_ifs <;> exact ⟨rfl, rfl, rfl⟩
    · exact ⟨rfl, rfl, rfl⟩
  | stopMM r =>
    obtain rfl := Option.some.inj h
    refine shrunk_of_room_eq fun q => ?_
    simp only [stopMM]
    split_ifs
    · rw [modifyRoom_room]
      split_ifs <;> exact ⟨rfl, rfl, rfl⟩
    · exact ⟨rfl, rfl, rfl⟩
  | setStatus r value =>
    obtain rfl := Option.some.inj h
    refine shrunk_of_room_eq fun q => ?_
    simp only [setStatus, modifyRoom_room]
    split_ifs <;> exact ⟨rfl, rfl, rfl⟩

variable {us : List World} {it : VInt32 × VChatRoomRef} {visited : List (VInt32 × VChatRoomRef)}
variable {x : MMCriteria × VChatRoomRef} {entries : List (MMCriteria × VChatRoomRef)}

/-- One after the other, the room was in a matchmaking mode, in the queue, and had the criteria. -/
def Listed (modes : MatchMakingModes) (us : List World) (x : MMCriteria × VChatRoomRef) : Prop :=
  ∃ a b c : World, [a, b, c].Sublist us ∧
    modes.isMatchMakingMode (a.room x.2).nGameMode.toInt32 ∧
    (b.room x.2).nRoomStatus = roomEnqueueMM ∧ c.getCriteria x.2 = some x.1

namespace Pc

def current : Pc → List (VInt32 × VChatRoomRef)
  | next => []
  | getStatus it => [it]
  | getCriteria it => [it]

def Seen (modes : MatchMakingModes) (us : List World) : Pc → Prop
  | next => True
  | getStatus it => ∃ a : World, [a].Sublist us ∧
      modes.isMatchMakingMode (a.room it.2).nGameMode.toInt32
  | getCriteria it => ∃ a b : World, [a, b].Sublist us ∧
      modes.isMatchMakingMode (a.room it.2).nGameMode.toInt32 ∧
      (b.room it.2).nRoomStatus = roomEnqueueMM

end Pc

structure Entries (modes : MatchMakingModes) (w : World) (us : List World)
    (visited : List (VInt32 × VChatRoomRef)) (entries : List (MMCriteria × VChatRoomRef)) :
    Prop where
  sublist : (entries.map Prod.snd).Sublist (visited.map Prod.snd)
  listed : ∀ x ∈ entries, Listed modes us x
  complete : ∀ it ∈ visited, (∀ u ∈ us, (u.mmRoom modes it.2).isSome) →
    it.2 ∈ entries.map Prod.snd
  quiet : (∀ it ∈ visited, ∀ u ∈ us, u.mmRoom modes it.2 = w.mmRoom modes it.2) →
    entries = visited.filterMap fun it => w.mmRoom modes it.2

theorem Listed.mono (h : Listed modes us x) (u : World) : Listed modes (us ++ [u]) x := by
  obtain ⟨a, b, c, hsub, hrest⟩ := h
  exact ⟨a, b, c, hsub.trans (List.sublist_append_left us [u]), hrest⟩

theorem Entries.mono (h : Entries modes w us visited entries) (u : World) :
    Entries modes w (us ++ [u]) visited entries where
  sublist := h.sublist
  listed := fun x hx => (h.listed x hx).mono u
  complete := fun it hit hu => h.complete it hit fun v hv => hu v (List.mem_append_left _ hv)
  quiet := fun hu => h.quiet fun it hit v hv => hu it hit v (List.mem_append_left _ hv)

theorem Entries.skip (h : Entries modes w us visited entries) (hu : u ∈ us)
    (hnone : u.mmRoom modes it.2 = none) : Entries modes w us (visited ++ [it]) entries := by
  refine ⟨?_, h.listed, fun jt hjt hall => ?_, fun hall => ?_⟩
  · rw [List.map_append]
    exact h.sublist.trans (List.sublist_append_left _ _)
  · rcases List.mem_append.mp hjt with hjt | hjt
    · exact h.complete jt hjt hall
    · obtain rfl := List.mem_singleton.mp hjt
      have hsome := hall u hu
      rw [hnone] at hsome
      cases hsome
  · have hit : w.mmRoom modes it.2 = none := by
      rw [← hall it (List.mem_append_right _ (List.mem_singleton_self it)) u hu, hnone]
    rw [List.filterMap_append, List.filterMap_cons, hit, List.filterMap_nil, List.append_nil]
    exact h.quiet fun jt hjt => hall jt (List.mem_append_left _ hjt)

theorem Listed.mmRoom (h : Listed modes us x) (hus : us.Pairwise Shrunk)
    (hquiet : ∀ u ∈ us, u.mmRoom modes x.2 = w.mmRoom modes x.2) :
    w.mmRoom modes x.2 = some x := by
  obtain ⟨a, b, c, hsub, hmode, hstatus, hcriteria⟩ := h
  have hpair := hus.sublist hsub
  have hab : Shrunk a b := by
    simp only [List.pairwise_cons] at hpair
    exact hpair.1 b (by simp)
  have hbc : Shrunk b c := by
    simp only [List.pairwise_cons] at hpair
    exact hpair.2.1 c (by simp)
  have hc : (c.room x.2).users ≠ [] := (getCriteria_eq_some.mp hcriteria).1
  have hb : (b.room x.2).users ≠ [] := by
    intro hb
    have hsub' := (hbc x.2).1
    rw [hb, List.sublist_nil] at hsub'
    exact hc hsub'
  have hbmode : modes.isMatchMakingMode (b.room x.2).nGameMode.toInt32 := by
    rw [((hab x.2).2 hb).1]
    exact hmode
  obtain ⟨y, hy⟩ := exists_mmRoom.mpr ⟨hb, hbmode, hstatus⟩
  have hmem : ∀ v ∈ [a, b, c], v ∈ us := fun v hv => hsub.subset hv
  have hcy : c.mmRoom modes x.2 = some y := by
    rw [hquiet c (hmem c (by simp)), ← hquiet b (hmem b (by simp)), hy]
  obtain ⟨-, -, hcrit, hroom⟩ := mmRoom_eq_some.mp hcy
  have hyx : y = x := Prod.ext (Option.some.inj (hcrit.symm.trans hcriteria)) hroom
  rw [← hquiet c (hmem c (by simp)), hcy, hyx]

theorem Entries.add (h : Entries modes w us visited entries) (hx : Listed modes us x)
    (hus : us.Pairwise Shrunk) (hit : it.2 = x.2) :
    Entries modes w us (visited ++ [it]) (entries ++ [x]) := by
  refine ⟨?_, fun y hy => ?_, fun jt hjt hall => ?_, fun hall => ?_⟩
  · rw [List.map_append, List.map_append, List.map_singleton, List.map_singleton, hit]
    exact h.sublist.append (.refl _)
  · rcases List.mem_append.mp hy with hy | hy
    · exact h.listed y hy
    · obtain rfl := List.mem_singleton.mp hy
      exact hx
  · rw [List.map_append]
    rcases List.mem_append.mp hjt with hjt | hjt
    · exact List.mem_append_left _ (h.complete jt hjt hall)
    · obtain rfl := List.mem_singleton.mp hjt
      exact List.mem_append_right _ (by simp [hit])
  · have hw : w.mmRoom modes it.2 = some x := by
      rw [hit]
      refine hx.mmRoom hus fun u hu => ?_
      rw [← hit]
      exact hall it (List.mem_append_right _ (List.mem_singleton_self it)) u hu
    rw [List.filterMap_append, List.filterMap_cons, hw, List.filterMap_nil]
    exact congrArg (· ++ [x]) (h.quiet fun jt hjt => hall jt (List.mem_append_left _ hjt))

structure Scanned (modes : MatchMakingModes) (w : World) (list : List (MMCriteria × VChatRoomRef))
    (us : List World) (s : State) : Prop where
  pairwise : (us ++ [s.world]).Pairwise Shrunk
  seen : s.pc.Seen modes us
  made : ∃ visited entries, w.rooms.toList = visited ++ (s.pc.current ++ s.todo) ∧
    s.list = list ++ entries ∧ Entries modes w us visited entries

variable {list : List (MMCriteria × VChatRoomRef)}

theorem Pc.Seen.mono {pc : Pc} (h : pc.Seen modes us) (u : World) : pc.Seen modes (us ++ [u]) := by
  have happend : us.Sublist (us ++ [u]) := List.sublist_append_left us [u]
  cases pc with
  | next => trivial
  | getStatus it =>
    obtain ⟨a, hsub, hmode⟩ := h
    exact ⟨a, hsub.trans happend, hmode⟩
  | getCriteria it =>
    obtain ⟨a, b, hsub, hrest⟩ := h
    exact ⟨a, b, hsub.trans happend, hrest⟩

theorem Scanned.scan (h : Scanned modes w list us s) (hs : scan modes s = some s') :
    s'.pc.Seen modes (us ++ [s.world]) ∧
      ∃ visited entries, w.rooms.toList = visited ++ (s'.pc.current ++ s'.todo) ∧
        s'.list = list ++ entries ∧ Entries modes w (us ++ [s.world]) visited entries := by
  obtain ⟨visited, entries, hall, hlist, hentries⟩ := h.made
  have hseen := h.seen
  have hmade := hentries.mono s.world
  have hmem : s.world ∈ us ++ [s.world] := List.mem_append_right _ (List.mem_singleton_self _)
  unfold ScanRace.scan at hs
  split at hs
  · cases hs
  · rename_i it todo hpc htodo
    obtain rfl := Option.some.inj hs
    rw [hpc, htodo] at hall
    by_cases hmode : modes.isMatchMakingMode (s.world.room it.2).nGameMode.toInt32
    · simp only [if_pos hmode]
      refine ⟨⟨s.world, List.sublist_append_right us [s.world], hmode⟩, visited, entries, ?_, hlist,
        hmade⟩
      exact hall
    · simp only [if_neg hmode]
      refine ⟨trivial, visited ++ [it], entries, ?_, hlist, hmade.skip hmem ?_⟩
      · rw [hall]
        simp [Pc.current]
      · rw [mmRoom, if_neg fun hand => hmode hand.1]
  · rename_i it hpc
    obtain rfl := Option.some.inj hs
    rw [hpc] at hall hseen
    obtain ⟨a, ha, hmode⟩ := hseen
    by_cases hstatus : (s.world.room it.2).nRoomStatus = roomEnqueueMM
    · simp only [if_pos hstatus]
      refine ⟨⟨a, s.world, ha.append (.refl [s.world]), hmode, hstatus⟩, visited, entries, ?_,
        hlist, hmade⟩
      exact hall
    · simp only [if_neg hstatus]
      refine ⟨trivial, visited ++ [it], entries, ?_, hlist, hmade.skip hmem ?_⟩
      · rw [hall]
        simp [Pc.current]
      · rw [mmRoom, if_neg fun hand => hstatus hand.2]
  · rename_i it hpc
    obtain rfl := Option.some.inj hs
    rw [hpc] at hall hseen
    obtain ⟨a, b, hab, hmode, hstatus⟩ := hseen
    cases hcriteria : s.world.getCriteria it.2 with
    | some criteria =>
      refine ⟨trivial, visited ++ [it], entries ++ [(criteria, it.2)], ?_, ?_,
        hmade.add ⟨a, b, s.world, hab.append (.refl [s.world]), hmode, hstatus, hcriteria⟩
          h.pairwise rfl⟩
      · rw [hall]
        simp [Pc.current]
      · simp only [hlist, List.append_assoc]
    | none =>
      refine ⟨trivial, visited ++ [it], entries, ?_, ?_, hmade.skip hmem ?_⟩
      · rw [hall]
        simp [Pc.current]
      · simp only [hlist]
      · rw [mmRoom, hcriteria, Option.map_none, ite_self]

theorem Scanned.step (h : Scanned modes w list us s) {e : Event}
    (hs : step modes s e = some s') : Scanned modes w list (us ++ [s.world]) s' := by
  have hpairwise : (us ++ [s.world] ++ [s'.world]).Pairwise Shrunk := by
    have hlast := Shrunk.step hs
    refine List.pairwise_append.mpr ⟨h.pairwise, List.pairwise_singleton .., fun u hu v hv => ?_⟩
    obtain rfl := List.mem_singleton.mp hv
    rcases List.mem_append.mp hu with hu | hu
    · have hbefore := (List.pairwise_append.mp h.pairwise).2.2 u hu s.world
        (List.mem_singleton_self _)
      exact hbefore.trans hlast
    · obtain rfl := List.mem_singleton.mp hu
      exact hlast
  cases e with
  | scan =>
    obtain ⟨hseen, hmade⟩ := h.scan hs
    exact ⟨hpairwise, hseen, hmade⟩
  | removeUsr r usr | startMM r now | stopMM r | setStatus r value =>
    obtain ⟨visited, entries, hall, hlist, hentries⟩ := h.made
    obtain rfl := Option.some.inj hs
    exact ⟨hpairwise, h.seen.mono _, visited, entries, hall, hlist, hentries.mono _⟩

def worlds (log : List (State × Event)) : List World := log.map fun y => y.1.world

theorem scanned_run {es : List Event} {log : List (State × Event)}
    (h : exec (recorded (step modes)) (start w list, []) es = some (s, log)) :
    Scanned modes w list (worlds log) s := by
  refine exec_invariant (I := fun x => Scanned modes w list (worlds x.2) x.1)
    (fun x e y hx hstep => ?_) ?_ h
  · obtain ⟨hstep, hlog⟩ := recorded_eq_some.mp hstep
    rw [hlog, worlds, List.map_append, List.map_singleton]
    exact hx.step hstep
  · refine ⟨List.pairwise_singleton .., trivial, [], [], rfl, (List.append_nil list).symm, ?_⟩
    exact ⟨.refl _, nofun, nofun, fun _ => rfl⟩

/-- Whatever the other threads do meanwhile: each entry is of a stored room and was true at times
that follow each other; the room was not joined since, and its mode is still a matchmaking one; a
room that was to be listed all the time is; and if for no stored room that changed, the list is
the one that a query in one step would give. -/
theorem scan_run {es : List Event} {log : List (State × Event)}
    (h : exec (recorded (step modes)) (start w list, []) es = some (s, log))
    (hdone : scan modes s = none) :
    ∃ entries, s.list = list ++ entries ∧
      (entries.map Prod.snd).Sublist (w.rooms.toList.map Prod.snd) ∧
      (∀ x ∈ entries, Listed modes (worlds log) x ∧
        modes.isMatchMakingMode (x.1.nCriteria 1)) ∧
      (worlds log).Pairwise Shrunk ∧
      (∀ (id : VInt32) r, w.rooms[id]? = some r →
        (∀ u ∈ worlds log, (u.mmRoom modes r).isSome) → r ∈ entries.map Prod.snd) ∧
      ((∀ (id : VInt32) r, w.rooms[id]? = some r →
          ∀ u ∈ worlds log, u.mmRoom modes r = w.mmRoom modes r) →
        s.list = w.getMMRooms modes list) := by
  have hscanned := scanned_run h
  obtain ⟨visited, entries, hall, hlist, hentries⟩ := hscanned.made
  obtain ⟨hpc, htodo⟩ : s.pc = .next ∧ s.todo = [] := by
    unfold ScanRace.scan at hdone
    split at hdone
    · exact ⟨by assumption, by assumption⟩
    all_goals cases hdone
  obtain rfl : visited = w.rooms.toList := by
    rw [hall, hpc, htodo]
    simp [Pc.current]
  have hus := (List.pairwise_append.mp hscanned.pairwise).1
  refine ⟨entries, hlist, hentries.sublist, fun x hx => ⟨hentries.listed x hx, ?_⟩, hus,
    fun id r hr hsome => ?_, fun hquiet => ?_⟩
  · obtain ⟨a, b, c, hsub, hmode, -, hcriteria⟩ := hentries.listed x hx
    obtain ⟨hne, hcriteria⟩ := getCriteria_eq_some.mp hcriteria
    have hac : Shrunk a c := by
      have hpair := hus.sublist hsub
      simp only [List.pairwise_cons] at hpair
      exact hpair.1 c (by simp)
    rw [hcriteria]
    change modes.isMatchMakingMode (c.room x.2).nGameMode.toInt32
    rw [((hac x.2).2 hne).1]
    exact hmode
  · exact hentries.complete (id, r) (Std.TreeMap.mem_toList_iff_getElem?_eq_some.mpr hr) hsome
  · have hlisted := hentries.quiet fun it hit =>
      hquiet it.1 it.2 (Std.TreeMap.mem_toList_iff_getElem?_eq_some.mp hit)
    rw [hlist, getMMRooms_eq, hlisted]
    rfl

/-- A team that breaks up between two questions is still listed, with who is left. -/
theorem scan_run_left :
    let w := (((World.start.userJoinRoom 0 5 9).userJoinRoom 1 5 9).startMM 0 none).1
    ∃ s log entries, exec (recorded (step ⟨9, 10⟩)) (start w [], [])
        [.scan, .scan, .removeUsr 0 1, .scan] = some (s, log) ∧
      (s.world.room 0).nRoomStatus = roomNormal ∧ s.list = [] ++ entries ∧
      entries.map Prod.snd = [0] ∧ ∀ x ∈ entries, Listed ⟨9, 10⟩ (worlds log) x := by
  intro w
  obtain ⟨s, log, h, hdone, hstatus, hrooms⟩ : ∃ s log, exec (recorded (step ⟨9, 10⟩))
      (start w [], []) [.scan, .scan, .removeUsr 0 1, .scan] = some (s, log) ∧
      scan ⟨9, 10⟩ s = none ∧ (s.world.room 0).nRoomStatus = roomNormal ∧
      s.list.map Prod.snd = [0] := ⟨_, _, rfl, rfl, rfl, rfl⟩
  obtain ⟨entries, hlist, -, hlisted, -⟩ := scan_run h hdone
  refine ⟨s, log, entries, h, hstatus, hlist, ?_, fun x hx => (hlisted x hx).1⟩
  rwa [hlist] at hrooms

end VChat.ScanRace
