import VChat.NetWork.SessionPool

/-! What a recycled session is when it is handed out, and which schedules clean it up too late. -/

namespace VChat.NetWork.SessionPool
open Transition

variable {n : Nat}

def Pc.cleaning : Pc → Option VSessionRef
  | .resetUser s _ => some s
  | .closeSocket s _ => some s
  | _ => none

def Pc.closing : Pc → Option (VSessionRef × Nat)
  | .reset s nth => some (s, nth)
  | .push s nth => some (s, nth)
  | .resetUser s nth => some (s, nth)
  | .closeSocket s nth => some (s, nth)
  | _ => none

/-- `create_session` returns a session from the pool only when no thread is still to clean it up. -/
def Meets (m : Manager n) (e : Event) : Prop :=
  ∀ t s, e = .proceed t → m.thread t = .created s true → ∀ i, (m.thread i).cleaning ≠ some s

/-- A session from the pool is handed out clean, no call of `close_session` touches it after it has
been handed out, and no session has two `session_ref`s. -/
structure HandsOutClean (m : Manager n) (e : Event) (m' : Manager n) : Prop where
  clean : ∀ t s, e = .proceed t → m.thread t = .created s true →
    m.socketOpen s = false ∧ m.user s = none
  early : ∀ t s nth, e = .proceed t → (m.thread t).closing = some (s, nth) → m.handed s = nth
  refs : m'.refs.Nodup

def Recycled (m : Manager n) (s : VSessionRef) : Prop :=
  s ∈ m.poolSession.elems ∨ ∃ i, m.thread i = .created s true

structure Tidy (m : Manager n) : Prop where
  placed : Placed m
  current : ∀ t s nth, (m.thread t).closing = some (s, nth) → m.handed s = nth
  waiting : ∀ t s, (m.thread t).cleaning = some s → Recycled m s
  alone : ∀ t i s, (m.thread t).cleaning = some s → (m.thread i).cleaning = some s → t = i
  reset : ∀ t s nth, m.thread t = .closeSocket s nth → m.user s = none
  clean : ∀ s, Recycled m s → (∀ t, (m.thread t).cleaning ≠ some s) →
    m.socketOpen s = false ∧ m.user s = none

section
variable {m m' : Manager n} {t : Nat} {s : VSessionRef}

theorem Tidy.not_mem_refs (h : Tidy m) (hs : Recycled m s) : s ∉ m.refs := by
  intro hrefs
  rcases hs with hpool | ⟨i, hi⟩
  · have hholder := h.placed.holder_unique (r := .pool) (q := .refs) hpool hrefs
    cases hholder
  · have hmem : s ∈ heldBy m (.thread i) := by simp [heldBy, hi, Pc.hand]
    have hholder := h.placed.holder_unique (q := .refs) hmem hrefs
    cases hholder

theorem Tidy.recycled_of_hand (h : Tidy m) (hs : s ∈ (m.thread t).hand) (hr : Recycled m s) :
    m.thread t = .created s true := by
  rcases hr with hpool | ⟨i, hi⟩
  · have hholder := h.placed.holder_unique (r := .thread t) (q := .pool) hs hpool
    cases hholder
  · have hmem : s ∈ heldBy m (.thread i) := by simp [heldBy, hi, Pc.hand]
    have hholder := h.placed.holder_unique (r := .thread t) hs hmem
    cases hholder
    exact hi

theorem Pc.closing_of_cleaning {pc : Pc} (h : pc.cleaning = some s) :
    ∃ nth, pc.closing = some (s, nth) := by
  cases pc <;> simp [Pc.cleaning, Pc.closing] at h ⊢ <;> exact h

theorem Pc.cleaning_or_hand {pc : Pc} {nth : Nat} (h : pc.closing = some (s, nth)) :
    pc.cleaning = some s ∨ s ∈ pc.hand := by
  cases pc with
  | reset x k | push x k =>
    obtain ⟨rfl, rfl⟩ : x = s ∧ k = nth := by simpa [Pc.closing] using h
    exact .inr List.mem_cons_self
  | resetUser x k | closeSocket x k =>
    obtain ⟨rfl, rfl⟩ : x = s ∧ k = nth := by simpa [Pc.closing] using h
    exact .inl rfl
  | _ => simp [Pc.closing] at h

theorem cleaning_ne {x : VSessionRef} (ht : (m.thread t).cleaning = none)
    (hnone : ∀ i, i ≠ t → (m.thread i).cleaning ≠ some x) :
    ∀ i, (m.thread i).cleaning ≠ some x := by
  intro i hi
  have hit : i ≠ t := by
    rintro rfl
    simp [ht] at hi
  exact hnone i hit hi

theorem goto_thread (m : Manager n) (t i : Nat) (pc : Pc) :
    (m.goto t pc).thread i = if i = t then pc else m.thread i := rfl

theorem Recycled.goto {pc : Pc} {x : VSessionRef} (h : Recycled m x)
    (ht : m.thread t ≠ .created x true) : Recycled (m.goto t pc) x := by
  rcases h with hpool | ⟨i, hi⟩
  · exact .inl hpool
  · have hit : i ≠ t := by
      rintro rfl
      exact ht hi
    exact .inr ⟨i, (if_neg hit).trans hi⟩

theorem Recycled.of_goto {pc : Pc} {x : VSessionRef} (h : Recycled (m.goto t pc) x)
    (hpc : pc ≠ .created x true) : Recycled m x := by
  rcases h with hpool | ⟨i, hi⟩
  · exact .inl hpool
  · rw [goto_thread] at hi
    split_ifs at hi
    · exact absurd hi hpc
    · exact .inr ⟨i, hi⟩

theorem Tidy.change (h : Tidy m) {pc : Pc} (hplaced : Placed m')
    (hthread : ∀ i, m'.thread i = if i = t then pc else m.thread i)
    (hcleaning : ∀ x, pc.cleaning = some x → (m.thread t).cleaning = some x)
    (hclosing : ∀ i x nth, (m'.thread i).closing = some (x, nth) → m'.handed x = nth)
    (hrecycled : ∀ i x, (m'.thread i).cleaning = some x → Recycled m x → Recycled m' x)
    (hreset : ∀ i x nth, m'.thread i = .closeSocket x nth → m'.user x = none)
    (hclean : ∀ x, Recycled m' x → (∀ i, (m'.thread i).cleaning ≠ some x) →
      m'.socketOpen x = false ∧ m'.user x = none) : Tidy m' := by
  have hold : ∀ i x, (m'.thread i).cleaning = some x → (m.thread i).cleaning = some x := by
    intro i x hi
    rw [hthread] at hi
    split_ifs at hi with hit
    · exact hit ▸ hcleaning x hi
    · exact hi
  have halone : ∀ i j x,
      (m'.thread i).cleaning = some x → (m'.thread j).cleaning = some x → i = j :=
    fun i j x hi hj => h.alone i j x (hold i x hi) (hold j x hj)
  have hwaiting : ∀ i x, (m'.thread i).cleaning = some x → Recycled m' x :=
    fun i x hi => hrecycled i x hi (h.waiting i x (hold i x hi))
  exact ⟨hplaced, hclosing, hwaiting, halone, hreset, hclean⟩

theorem Tidy.leave (h : Tidy m) {pc : Pc} (hplaced : Placed m')
    (hthread : ∀ i, m'.thread i = if i = t then pc else m.thread i) (hpc : pc.closing = none)
    (hhanded : ∀ i x nth, i ≠ t → (m.thread i).closing = some (x, nth) → m'.handed x = m.handed x)
    (huser : ∀ x, m.user x = none → m'.user x = none)
    (hrecycled : ∀ i x, i ≠ t → (m.thread i).cleaning = some x → Recycled m x → Recycled m' x)
    (hclean : ∀ x, Recycled m' x → (∀ i, i ≠ t → (m.thread i).cleaning ≠ some x) →
      m'.socketOpen x = false ∧ m'.user x = none) : Tidy m' := by
  have hnone : ∀ x, pc.cleaning ≠ some x := by
    intro x hx
    obtain ⟨nth, hclosing⟩ := Pc.closing_of_cleaning hx
    simp [hpc] at hclosing
  have hother : ∀ i, i ≠ t → m'.thread i = m.thread i := fun i hi => (hthread i).trans (if_neg hi)
  have hself : m'.thread t = pc := (hthread t).trans (if_pos rfl)
  apply h.change hplaced hthread
  · exact fun x hx => absurd hx (hnone x)
  · intro i x nth hi
    have hit : i ≠ t := by
      rintro rfl
      simp [hself, hpc] at hi
    rw [hother i hit] at hi
    rw [hhanded i x nth hit hi]
    exact h.current i x nth hi
  · intro i x hi hx
    have hit : i ≠ t := by
      rintro rfl
      exact hnone x (hself ▸ hi)
    exact hrecycled i x hit (hother i hit ▸ hi) hx
  · intro i x nth hi
    have hit : i ≠ t := by
      rintro rfl
      simp [← hself, hi, Pc.closing] at hpc
    exact huser x (h.reset i x nth (hother i hit ▸ hi))
  · intro x hx hno
    exact hclean x hx fun i hit => hother i hit ▸ hno i

theorem Tidy.goto (h : Tidy m) {pc : Pc} (hplaced : Placed m')
    (hthread : ∀ i, m'.thread i = if i = t then pc else m.thread i)
    (hpool : m'.poolSession = m.poolSession) (hhanded : m'.handed = m.handed)
    (hsocket : m'.socketOpen = m.socketOpen) (huser : m'.user = m.user)
    (hclosing : ∀ x nth, pc.closing = some (x, nth) → m.handed x = nth)
    (hcleaning : pc.cleaning = (m.thread t).cleaning)
    (hcreated : ∀ x, pc = .created x true ↔ m.thread t = .created x true)
    (hreset : ∀ x nth, pc = .closeSocket x nth → m.user x = none) : Tidy m' := by
  have hsame : ∀ i, (m'.thread i).cleaning = (m.thread i).cleaning := by
    intro i
    rw [hthread]
    split_ifs with hi
    · rw [hcleaning, hi]
    · rfl
  have hrecycled : ∀ x, Recycled m' x ↔ Recycled m x := by
    intro x
    rw [Recycled, hpool]
    refine or_congr_right (exists_congr fun i => ?_)
    rw [hthread]
    split_ifs with hi
    · rw [hcreated, hi]
    · rfl
  apply h.change hplaced hthread
  · intro x hx
    rwa [← hcleaning]
  · intro i x nth hi
    rw [hthread] at hi
    rw [hhanded]
    split_ifs at hi
    · exact hclosing x nth hi
    · exact h.current i x nth hi
  · intro _ x _ hx
    exact (hrecycled x).mpr hx
  · intro i x nth hi
    rw [hthread] at hi
    rw [huser]
    split_ifs at hi
    · exact hreset x nth hi
    · exact h.reset i x nth hi
  · intro x hx hnone
    rw [hsocket, huser]
    refine h.clean x ((hrecycled x).mp hx) fun i => ?_
    rw [← hsame]
    exact hnone i

theorem Tidy.owner (h : Tidy m) (hs : s ∈ m.refs) (hplaced : Placed m')
    (hthread : m'.thread = m.thread) (hpool : m'.poolSession = m.poolSession)
    (hhanded : m'.handed = m.handed)
    (hother : ∀ x, x ≠ s → m'.socketOpen x = m.socketOpen x ∧ m'.user x = m.user x) : Tidy m' := by
  have hne : ∀ x, Recycled m x → x ≠ s := by
    rintro x hx rfl
    exact h.not_mem_refs hx hs
  have hrecycled : ∀ x, Recycled m' x ↔ Recycled m x := fun x => by
    simp only [Recycled, hthread, hpool]
  refine ⟨hplaced, fun i x nth hi => ?_, fun i x hi => ?_, fun i j x hi hj => ?_,
    fun i x nth hi => ?_, fun x hx hnone => ?_⟩
  · rw [hthread] at hi
    rw [hhanded]
    exact h.current i x nth hi
  · rw [hthread] at hi
    rw [hrecycled]
    exact h.waiting i x hi
  · rw [hthread] at hi hj
    exact h.alone i j x hi hj
  · rw [hthread] at hi
    have hx : Recycled m x := h.waiting i x (by simp [hi, Pc.cleaning])
    rw [(hother x (hne x hx)).2]
    exact h.reset i x nth hi
  · rw [hrecycled] at hx
    simp only [hthread] at hnone
    rw [(hother x (hne x hx)).1, (hother x (hne x hx)).2]
    exact h.clean x hx hnone

theorem Tidy.pushed (h : Tidy m) {nth : Nat} (hpc : m.thread t = .push s nth)
    (hfull : m.poolSession.elems.length < n)
    (hplaced : Placed ({ m with poolSession := ⟨s :: m.poolSession.elems, hfull⟩ }.goto t
      (.resetUser s nth))) :
    Tidy ({ m with poolSession := ⟨s :: m.poolSession.elems, hfull⟩ }.goto t
      (.resetUser s nth)) := by
  have hhand : s ∈ (m.thread t).hand := by simp [hpc, Pc.hand]
  -- until now only this thread had the session, so nobody else is cleaning it up
  have hnot : ¬ Recycled m s := fun hs => by
    have hcreated := h.recycled_of_hand hhand hs
    simp [hpc] at hcreated
  have hnone : ∀ i, (m.thread i).cleaning ≠ some s := fun i hi => hnot (h.waiting i s hi)
  refine ⟨hplaced, fun i x k hi => ?_, fun i x hi => ?_, fun i j x hi hj => ?_,
    fun i x k hi => ?_, fun x hx hx' => ?_⟩
  · rw [goto_thread] at hi
    split_ifs at hi with hit
    · exact h.current t x k (by simpa [hpc, Pc.closing] using hi)
    · exact h.current i x k hi
  · rw [goto_thread] at hi
    split_ifs at hi with hit
    · obtain rfl : s = x := by simpa [Pc.cleaning] using hi
      exact .inl List.mem_cons_self
    · have hpushed : Recycled { m with poolSession := ⟨s :: m.poolSession.elems, hfull⟩ } x :=
        (h.waiting i x hi).imp_left (List.mem_cons_of_mem s)
      exact hpushed.goto (by simp [hpc])
  · rw [goto_thread] at hi hj
    split_ifs at hi hj with hit hjt hjt
    · rw [hit, hjt]
    · obtain rfl : s = x := by simpa [Pc.cleaning] using hi
      exact absurd hj (hnone j)
    · obtain rfl : s = x := by simpa [Pc.cleaning] using hj
      exact absurd hi (hnone i)
    · exact h.alone i j x hi hj
  · rw [goto_thread] at hi
    split_ifs at hi
    exact h.reset i x k hi
  · have hxs : x ≠ s := by
      rintro rfl
      exact hx' t (by simp [goto_thread, Pc.cleaning])
    refine h.clean x ?_ fun i hi => ?_
    · have hpushed := hx.of_goto (by simp)
      exact hpushed.imp_left fun hpool => (List.mem_cons.mp hpool).resolve_left hxs
    · have hit : i ≠ t := by
        rintro rfl
        simp [hpc, Pc.cleaning] at hi
      exact hx' i (by rw [goto_thread, if_neg hit]; exact hi)

theorem Tidy.setUser (h : Tidy m) (hs : (m.thread t).cleaning = some s) :
    Tidy (m.setUser s none) := by
  refine ⟨h.placed.same (fun _ => rfl) rfl, h.current, h.waiting, h.alone, fun i x k hi => ?_,
    fun x hx hnone => ?_⟩
  · show (if x = s then none else m.user x) = none
    rw [h.reset i x k hi, ite_self]
  · have hxs : x ≠ s := by
      rintro rfl
      exact hnone t hs
    obtain ⟨hsocket, huser⟩ := h.clean x hx hnone
    exact ⟨hsocket, (if_neg hxs).trans huser⟩

theorem Tidy.closeSocket (h : Tidy m) {nth : Nat} (hpc : m.thread t = .closeSocket s nth) :
    Tidy ((m.setSocket s false).goto t .idle) := by
  have hplaced : Placed ((m.setSocket s false).goto t .idle) :=
    h.placed.proceed (t := t) (by simp [SessionPool.proceed, hpc])
  apply h.leave hplaced (fun _ => rfl) rfl
  · exact fun _ _ _ _ _ => rfl
  · exact fun _ => id
  · exact fun _ x _ _ hx => hx.goto (m := m.setSocket s false) (by simp [Manager.setSocket, hpc])
  · intro x hx hnone
    by_cases hxs : x = s
    · subst hxs
      exact ⟨if_pos rfl, h.reset t x nth hpc⟩
    · have hbefore : ∀ i, (m.thread i).cleaning ≠ some x := by
        intro i hi
        by_cases hit : i = t
        · rw [hit, hpc] at hi
          exact hxs (Option.some.inj hi).symm
        · exact hnone i hit hi
      obtain ⟨hsocket, huser⟩ := h.clean x (hx.of_goto (by simp)) hbefore
      exact ⟨(if_neg hxs).trans hsocket, huser⟩

theorem Tidy.popped (h : Tidy m) (hpc : m.thread t = .pop) {s : VSessionRef}
    {pool : BoundedStack VSessionRef n} (hpool : m.poolSession.elems = s :: pool.elems)
    (hplaced : Placed ({ m with poolSession := pool }.goto t (.created s true))) :
    Tidy ({ m with poolSession := pool }.goto t (.created s true)) := by
  have hrecycled : ∀ x, Recycled ({ m with poolSession := pool }.goto t (.created s true)) x ↔
      Recycled m x := by
    intro x
    simp only [Recycled, goto_thread, hpool, List.mem_cons]
    constructor
    · rintro (hx | ⟨i, hi⟩)
      · exact .inl (.inr hx)
      · split_ifs at hi
        · exact .inl (.inl (by simpa [eq_comm] using hi))
        · exact .inr ⟨i, hi⟩
    · rintro ((rfl | hx) | ⟨i, hi⟩)
      · exact .inr ⟨t, if_pos rfl⟩
      · exact .inl hx
      · have hit : i ≠ t := by
          rintro rfl
          simp [hpc] at hi
        exact .inr ⟨i, (if_neg hit).trans hi⟩
  apply h.leave hplaced (fun _ => rfl) rfl
  · exact fun _ _ _ _ _ => rfl
  · exact fun _ => id
  · exact fun _ x _ _ hx => (hrecycled x).mpr hx
  · intro x hx hnone
    exact h.clean x ((hrecycled x).mp hx) (cleaning_ne (by simp [hpc, Pc.cleaning]) hnone)

theorem Tidy.create (h : Tidy m) (hpc : m.thread t = .create)
    (hstep : proceed m t = some m') : Tidy m' := by
  have hplaced : Placed m' := h.placed.proceed hstep
  obtain rfl := by simpa [SessionPool.proceed, hpc] using hstep
  apply h.leave hplaced (fun _ => rfl) rfl
  · exact fun _ _ _ _ _ => rfl
  · intro x hx
    show (if x = m.nextSession then none else m.user x) = none
    rw [hx, ite_self]
  · intro _ x _ _ hx
    have hnot : m.thread t ≠ .created x true := by simp [hpc]
    exact hx.goto hnot
  · intro x hx hnone
    show (if x = m.nextSession then false else m.socketOpen x) = false ∧
      (if x = m.nextSession then none else m.user x) = none
    split_ifs with hnew
    · exact ⟨rfl, rfl⟩
    · apply h.clean x
      · exact hx.of_goto (by simp)
      · exact cleaning_ne (by simp [hpc, Pc.cleaning]) hnone

theorem Tidy.returned (h : Tidy m) {recycled : Bool} (hpc : m.thread t = .created s recycled)
    (hnone : ∀ i, (m.thread i).cleaning ≠ some s) : Tidy ((m.handOut s).goto t .idle) := by
  have hplaced : Placed ((m.handOut s).goto t .idle) :=
    h.placed.proceed (t := t) (by simp [SessionPool.proceed, hpc])
  have hhand : s ∈ heldBy m (.thread t) := by simp [heldBy, hpc, Pc.hand]
  -- no call of `close_session` is left that the new count would make late
  have hother : ∀ i k, i ≠ t → (m.thread i).closing ≠ some (s, k) := by
    intro i k hit hi
    rcases Pc.cleaning_or_hand hi with hcleaning | hmem
    · exact hnone i hcleaning
    · have hholder := h.placed.holder_unique (r := .thread i) hmem hhand
      cases hholder
      exact hit rfl
  apply h.leave hplaced (fun _ => rfl) rfl
  · intro i x k hit hi
    have hxs : x ≠ s := by
      rintro rfl
      exact hother i k hit hi
    exact if_neg hxs
  · exact fun _ => id
  · intro i x hit hi hx
    have hnot : m.thread t ≠ .created x true := by
      intro hcreated
      obtain ⟨rfl, -⟩ : s = x ∧ recycled = true := by simpa [hpc] using hcreated
      exact hnone i hi
    exact hx.goto hnot
  · intro x hx hclean
    apply h.clean x
    · exact hx.of_goto (by simp)
    · exact cleaning_ne (by simp [hpc, Pc.cleaning]) hclean

theorem Tidy.proceed (h : Tidy m) (hmeets : Meets m (.proceed t))
    (hstep : proceed m t = some m') : Tidy m' := by
  have hplaced : Placed m' := h.placed.proceed hstep
  cases hpc : m.thread t with
  | idle => simp [SessionPool.proceed, hpc] at hstep
  | reset s nth =>
    obtain rfl := by simpa [SessionPool.proceed, hpc] using hstep
    have hcurrent := h.current t s nth (by simp [hpc, Pc.closing])
    refine h.goto hplaced (fun _ => rfl) rfl rfl rfl rfl (fun x k hx => ?_)
      (by simp [hpc, Pc.cleaning]) (by simp [hpc]) (by simp)
    obtain ⟨rfl, rfl⟩ : s = x ∧ nth = k := by simpa [Pc.closing] using hx
    exact hcurrent
  | push s nth =>
    by_cases hfull : m.poolSession.elems.length < n
    · obtain rfl : _ = m' := by
        simpa [SessionPool.proceed, hpc, m.poolSession.push_of_lt hfull] using hstep
      exact h.pushed hpc hfull hplaced
    · -- a full pool: the session is destroyed, not cleaned up
      obtain rfl := by
        simpa [SessionPool.proceed, hpc, m.poolSession.push_of_full (Nat.not_lt.mp hfull)]
          using hstep
      exact h.goto hplaced (fun _ => rfl) rfl rfl rfl rfl (by simp [Pc.closing])
        (by simp [hpc, Pc.cleaning]) (by simp [hpc]) (by simp)
  | resetUser s nth =>
    obtain rfl := by simpa [SessionPool.proceed, hpc] using hstep
    have hcurrent := h.current t s nth (by simp [hpc, Pc.closing])
    have huser : Tidy (m.setUser s none) := h.setUser (t := t) (by simp [hpc, Pc.cleaning])
    refine huser.goto hplaced (fun _ => rfl) rfl rfl rfl rfl (fun x k hx => ?_) ?_ ?_
      (fun x k hx => ?_)
    · obtain ⟨rfl, rfl⟩ : s = x ∧ nth = k := by simpa [Pc.closing] using hx
      exact hcurrent
    · simp [Manager.setUser, hpc, Pc.cleaning]
    · simp [Manager.setUser, hpc]
    · obtain ⟨rfl, rfl⟩ : s = x ∧ nth = k := by simpa using hx
      exact if_pos rfl
  | closeSocket s nth =>
    obtain rfl := by simpa [SessionPool.proceed, hpc] using hstep
    exact h.closeSocket hpc
  | destroy s =>
    obtain rfl := by simpa [SessionPool.proceed, hpc] using hstep
    exact h.goto hplaced (fun _ => rfl) rfl rfl rfl rfl (by simp [Pc.closing])
      (by simp [hpc, Pc.cleaning]) (by simp [hpc]) (by simp)
  | pop =>
    cases hpool : m.poolSession.elems with
    | nil =>
      obtain rfl := by simpa [SessionPool.proceed, hpc, BoundedStack.pop, hpool] using hstep
      exact h.goto hplaced (fun _ => rfl) rfl rfl rfl rfl (by simp [Pc.closing])
        (by simp [hpc, Pc.cleaning]) (by simp [hpc]) (by simp)
    | cons s rest =>
      obtain rfl := by simpa [SessionPool.proceed, hpc, BoundedStack.pop, hpool] using hstep
      exact h.popped hpc (by simp [hpool]) hplaced
  | create => exact h.create hpc hstep
  | created s recycled =>
    obtain rfl := by simpa [SessionPool.proceed, hpc] using hstep
    refine h.returned hpc fun i hi => ?_
    cases recycled with
    | true => exact hmeets t s rfl hpc i hi
    | false =>
      -- a session just made is in no pool, and only those from the pool are cleaned up
      have hcreated := h.recycled_of_hand (t := t) (by simp [hpc, Pc.hand]) (h.waiting i s hi)
      simp [hpc] at hcreated

theorem Tidy.step {e : Event} (h : Tidy m) (hmeets : Meets m e) (hstep : step m e = some m') :
    Tidy m' := by
  have hplaced : Placed m' := h.placed.step hstep
  cases e with
  | createSession t =>
    obtain ⟨hidle, rfl⟩ := by simpa [SessionPool.step, isIdle_iff] using hstep
    exact h.goto hplaced (fun _ => rfl) rfl rfl rfl rfl (by simp [Pc.closing])
      (by simp [hidle, Pc.cleaning]) (by simp [hidle]) (by simp)
  | closeSession t s =>
    obtain ⟨⟨hidle, hs⟩, rfl⟩ := by simpa [SessionPool.step, isIdle_iff] using hstep
    refine h.goto hplaced (fun _ => rfl) rfl rfl rfl rfl (fun x k hx => ?_)
      (by simp [hidle, Pc.cleaning]) (by simp [hidle]) (by simp)
    obtain ⟨rfl, rfl⟩ : s = x ∧ m.handed s = k := by simpa [Pc.closing] using hx
    rfl
  | proceed t => exact h.proceed hmeets hstep
  | accept s =>
    obtain ⟨hs, rfl⟩ := by simpa [SessionPool.step] using hstep
    exact h.owner hs hplaced rfl rfl rfl fun x hx => ⟨if_neg hx, rfl⟩
  | close s =>
    obtain ⟨hs, rfl⟩ := by simpa [SessionPool.step] using hstep
    exact h.owner hs hplaced rfl rfl rfl fun x hx => ⟨if_neg hx, rfl⟩
  | setUser s refUser =>
    obtain ⟨hs, rfl⟩ := by simpa [SessionPool.step] using hstep
    exact h.owner hs hplaced rfl rfl rfl fun x hx => ⟨rfl, if_neg hx⟩

theorem tidy_start : Tidy (start : Manager n) := by
  have hplaced : Placed (start : Manager n) := by
    refine ⟨fun _ => none, fun x r => ?_, fun _ _ => rfl⟩
    cases r <;> rfl
  refine ⟨hplaced, ?_, ?_, ?_, ?_, fun x _ _ => ⟨rfl, rfl⟩⟩
  · simp [start, Pc.closing]
  · simp [start, Pc.cleaning]
  · simp [start, Pc.cleaning]
  · simp [start]

theorem Tidy.handsOutClean {e : Event} (h : Tidy m) (hmeets : Meets m e)
    (hstep : SessionPool.step m e = some m') : HandsOutClean m e m' where
  clean := fun t s he hpc => h.clean s (.inr ⟨t, hpc⟩) (hmeets t s he hpc)
  early := fun t s nth _ hclosing => h.current t s nth hclosing
  refs := (h.placed.step hstep).nodup

/-- A call of `close_session` has yet to act on a session handed out since it began. -/
def Late (m : Manager n) : Prop :=
  ∃ t s nth, (m.thread t).closing = some (s, nth) ∧ nth < m.handed s

theorem proceed_frame (hstep : proceed m t = some m') :
    (∀ i, i ≠ t → m'.thread i = m.thread i) ∧ ∀ s, m.handed s ≤ m'.handed s := by
  unfold proceed at hstep
  cases hpc : m.thread t with
  | idle => simp [hpc] at hstep
  | pop =>
    cases hpool : m.poolSession.elems with
    | nil =>
      obtain rfl := by simpa [hpc, BoundedStack.pop, hpool] using hstep
      exact ⟨fun i hi => if_neg hi, fun _ => Nat.le_refl _⟩
    | cons s rest =>
      obtain rfl := by simpa [hpc, BoundedStack.pop, hpool] using hstep
      exact ⟨fun i hi => if_neg hi, fun _ => Nat.le_refl _⟩
  | created s recycled =>
    obtain rfl := by simpa [hpc] using hstep
    refine ⟨fun i hi => if_neg hi, fun x => ?_⟩
    show m.handed x ≤ if x = s then m.handed x + 1 else m.handed x
    split_ifs
    · exact Nat.le_succ _
    · exact Nat.le_refl _
  | _ =>
    obtain rfl := by simpa [hpc] using hstep
    exact ⟨fun i hi => if_neg hi, fun _ => Nat.le_refl _⟩

theorem Late.keep {e : Event} (h : Late m) (hstep : step m e = some m')
    (hclean : HandsOutClean m e m') : Late m' := by
  obtain ⟨t, s, nth, hclosing, hlt⟩ := h
  have hbusy : m.thread t ≠ .idle := by
    intro hidle
    simp [hidle, Pc.closing] at hclosing
  cases e with
  | createSession i =>
    obtain ⟨hidle, rfl⟩ := by simpa [step, isIdle_iff] using hstep
    have hit : t ≠ i := fun hit => hbusy (hit ▸ hidle)
    exact ⟨t, s, nth, by rw [goto_thread, if_neg hit, hclosing], hlt⟩
  | closeSession i x =>
    obtain ⟨⟨hidle, -⟩, rfl⟩ := by simpa [step, isIdle_iff] using hstep
    have hit : t ≠ i := fun hit => hbusy (hit ▸ hidle)
    exact ⟨t, s, nth, by rw [goto_thread, if_neg hit, hclosing], hlt⟩
  | proceed i =>
    obtain ⟨hthread, hhanded⟩ := proceed_frame hstep
    have hit : t ≠ i := by
      rintro rfl
      -- a step of the late call itself is the late cleanup that `HandsOutClean` rules out
      have hnow : m.handed s = nth := hclean.early t s nth rfl hclosing
      exact Nat.ne_of_gt hlt hnow
    exact ⟨t, s, nth, by rw [hthread t hit, hclosing], Nat.lt_of_lt_of_le hlt (hhanded s)⟩
  | accept x | close x | setUser x refUser =>
    obtain ⟨-, rfl⟩ := by simpa [step] using hstep
    exact ⟨t, s, nth, hclosing, hlt⟩

theorem Tidy.late_of_not_meets {e : Event} (h : Tidy m) (hmeets : ¬ Meets m e)
    (hstep : SessionPool.step m e = some m') : Late m' := by
  simp only [Meets, not_forall, not_not] at hmeets
  obtain ⟨t, s, rfl, hpc, i, hi⟩ := hmeets
  obtain ⟨nth, hclosing⟩ := Pc.closing_of_cleaning hi
  have hnow : m.handed s = nth := h.current i s nth hclosing
  have hit : i ≠ t := by
    rintro rfl
    simp [hpc, Pc.cleaning] at hi
  obtain rfl := by simpa [SessionPool.step, SessionPool.proceed, hpc] using hstep
  refine ⟨i, s, nth, by rw [goto_thread, if_neg hit]; exact hclosing, ?_⟩
  show nth < if s = s then m.handed s + 1 else m.handed s
  rw [if_pos rfl, hnow]
  exact Nat.lt_succ_self nth

end

/-- Recycled sessions are handed out clean in every run in which `create_session` never returns one
that a thread is still cleaning up, and, when all calls come to their end, in no other; no
session ever has two `session_ref`s. -/
theorem handsOutClean_run (n : Nat) (es : List Event) :
    (Along step (fun m e _ => Meets m e) (start : Manager n) es →
        Along step HandsOutClean (start : Manager n) es) ∧
      (∀ m, exec step (start : Manager n) es = some m → (∀ t, m.thread t = .idle) →
        Along step HandsOutClean (start : Manager n) es →
          Along step (fun m e _ => Meets m e) (start : Manager n) es) ∧
      ∀ m, exec step (start : Manager n) es = some m → m.refs.Nodup := by
  have htidy : ∀ (m : Manager n) e m', Tidy m → Meets m e → step m e = some m' → Tidy m' :=
    fun m e m' h hm hstep => h.step hm hstep
  have hclean : ∀ (m : Manager n) e m', Tidy m → Meets m e → step m e = some m' →
      Tidy m' ∧ HandsOutClean m e m' :=
    fun m e m' h hm hstep => ⟨h.step hm hstep, h.handsOutClean hm hstep⟩
  have hbreach : ∀ (m : Manager n) e m', Tidy m → ¬ Meets m e → step m e = some m' →
      HandsOutClean m e m' → Late m' :=
    fun m e m' h hm hstep _ => h.late_of_not_meets hm hstep
  have hkeep : ∀ (m : Manager n) e m', Late m → step m e = some m' → HandsOutClean m e m' →
      Late m' :=
    fun m e m' h hstep hc => h.keep hstep hc
  have hrest : ∀ m : Manager n, (∀ t, m.thread t = .idle) → ¬ Late m := by
    rintro m hidle ⟨t, s, nth, hclosing, -⟩
    simp [hidle t, Pc.closing] at hclosing
  refine ⟨fun hmeets => hmeets.imp_of_invariant hclean tidy_start, fun m hexec hidle hc => ?_,
    fun m hexec => ?_⟩
  · exact Along.of_rest htidy hbreach hkeep hrest tidy_start hexec hidle hc
  · have hplaced : Placed m :=
      exec_invariant (I := Placed) (fun _ _ _ h hstep => h.step hstep) tidy_start.placed hexec
    exact hplaced.nodup

/-- Thread 1 gets the session that thread 0 has put in the pool and not closed yet: connection and
user are still there, and thread 0 then closes the socket the new owner has accepted on. -/
theorem not_handsOutClean_raced :
    let es : List Event := [.createSession 0, .proceed 0, .proceed 0, .proceed 0, .accept 0,
      .setUser 0 (some 7), .closeSession 0 0, .proceed 0, .proceed 0, .createSession 1, .proceed 1]
    ∃ m m', exec step (start : Manager 1) es = some m ∧ step m (.proceed 1) = some m' ∧
      ¬ HandsOutClean m (.proceed 1) m' ∧
      ∃ m'', exec step m' [.accept 0, .proceed 0, .proceed 0] = some m'' ∧ m''.refs = [0] ∧
        m''.socketOpen 0 = false := by
  intro es
  refine ⟨_, _, rfl, rfl, fun hclean => ?_, _, rfl, rfl, rfl⟩
  have hsocket := (hclean.clean 1 0 rfl rfl).1
  exact Bool.noConfusion hsocket

end VChat.NetWork.SessionPool
