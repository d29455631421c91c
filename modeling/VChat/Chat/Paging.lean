import VChat.Chat.Room
import VChat.Listing.Page

/-! Lists of users handed out page by page. -/

namespace VChat
open Listing

section
variable {α β : Type*} (p : α → Bool) (f : α → β)

def pageLoop (nFrom nTo : VInt32) : VInt32 → List α → List β
  | _, [] => []
  | i, a :: as =>
    if p a then
      if nTo ≤ i then []
      else if nFrom ≤ i then f a :: pageLoop nFrom nTo (i + 1) as
      else pageLoop nFrom nTo (i + 1) as
    else pageLoop nFrom nTo i as

/-- Lists those of `as` that match. A negative `nTo` becomes the size of the whole container. -/
def listPage (as : List α) (nFrom nTo : VInt32) : List β :=
  let nTo := if nTo < 0 then Int32.ofNat as.length else nTo
  if nFrom < nTo then pageLoop p f nFrom nTo 0 as else []

def listing (as : List α) : List β := (as.filter p).map f

variable {p f}

theorem toInt_succ {i n : VInt32} (h : i < n) : (i + 1).toInt = i.toInt + 1 := by
  have hlt : i.toInt < n.toInt := Int32.lt_iff_toInt_lt.mp h
  have hmax := n.toInt_lt
  have hmin := i.le_toInt
  rw [Int32.toInt_add, Int32.toInt_one]
  exact Int.bmod_eq_of_le (by omega) (by omega)

theorem pageLoop_eq (nFrom nTo : VInt32) (as : List α) {i : VInt32} (hi : 0 ≤ i.toInt) :
    pageLoop p f nFrom nTo i as = ((listing p f as).take (nTo.toInt - i.toInt).toNat).drop
      (nFrom.toInt - i.toInt).toNat := by
  induction as generalizing i with
  | nil => simp [pageLoop, listing]
  | cons a as ih =>
    rw [pageLoop]
    by_cases ha : p a = true
    · have hcons : listing p f (a :: as) = f a :: listing p f as := by simp [listing, ha]
      rw [if_pos ha, hcons]
      by_cases hdone : nTo ≤ i
      · have hle : nTo.toInt ≤ i.toInt := Int32.le_iff_toInt_le.mp hdone
        have htake : (nTo.toInt - i.toInt).toNat = 0 := by omega
        rw [if_pos hdone, htake, List.take_zero, List.drop_nil]
      · -- the count stays at or below `nTo`, so it does not overflow
        have hlt : i < nTo := Int32.not_le.mp hdone
        have hsucc := toInt_succ hlt
        have hlt' : i.toInt < nTo.toInt := Int32.lt_iff_toInt_lt.mp hlt
        have htake : (nTo.toInt - i.toInt).toNat = (nTo.toInt - (i + 1).toInt).toNat + 1 := by
          omega
        have ih := ih (i := i + 1) (by omega)
        rw [if_neg hdone, htake, List.take_succ_cons, ih]
        by_cases hfrom : nFrom ≤ i
        · have hle : nFrom.toInt ≤ i.toInt := Int32.le_iff_toInt_le.mp hfrom
          have hdrop : (nFrom.toInt - i.toInt).toNat = 0 := by omega
          have hdrop' : (nFrom.toInt - (i + 1).toInt).toNat = 0 := by omega
          rw [if_pos hfrom, hdrop, hdrop', List.drop_zero, List.drop_zero]
        · have hgt : i.toInt < nFrom.toInt := Int32.lt_iff_toInt_lt.mp (Int32.not_le.mp hfrom)
          have hdrop : (nFrom.toInt - i.toInt).toNat = (nFrom.toInt - (i + 1).toInt).toNat + 1 := by
            omega
          rw [if_neg hfrom, hdrop, List.drop_succ_cons]
    · have hskip : listing p f (a :: as) = listing p f as := by simp [listing, ha]
      rw [if_neg ha, hskip]
      exact ih hi

/-- How far a page can reach: the limit, or the size of the container cast to 32 bits. -/
def reach (size : Nat) (nTo : VInt32) : Nat :=
  (if nTo < 0 then Int32.ofNat size else nTo).toInt.toNat

theorem listPage_eq (as : List α) (nFrom nTo : VInt32) :
    listPage p f as nFrom nTo =
      ((listing p f as).take (reach as.length nTo)).drop nFrom.toInt.toNat := by
  simp only [listPage, reach]
  generalize (if nTo < 0 then Int32.ofNat as.length else nTo) = limit
  split_ifs with hlt
  · have hloop := pageLoop_eq (p := p) (f := f) nFrom limit as (i := 0) (by decide)
    rwa [Int32.toInt_zero, Int.sub_zero, Int.sub_zero] at hloop
  · have hle : limit.toInt ≤ nFrom.toInt := Int32.le_iff_toInt_le.mp (Int32.not_lt.mp hlt)
    have hlen : ((listing p f as).take limit.toInt.toNat).length ≤ nFrom.toInt.toNat := by
      rw [List.length_take]
      omega
    rw [List.drop_eq_nil_of_le hlen]

/-- What the container's size, cast, must not cut off: `k` entries from position `nFrom` on. -/
def Reaches (k size : Nat) (nFrom nTo : VInt32) : Prop :=
  0 ≤ nTo ∨ k = 0 ∨ k ≤ nFrom.toInt ∨ k ≤ (Int32.ofNat size).toInt

theorem listPage_iff (as : List α) (nFrom nTo : VInt32) :
    listPage p f as nFrom nTo = page (listing p f as) nFrom.toInt nTo.toInt ↔
      Reaches (listing p f as).length as.length nFrom nTo := by
  rw [listPage_eq, reach, Reaches]
  by_cases hopen : nTo < 0
  · have hneg : nTo.toInt < 0 := Int32.lt_iff_toInt_lt.mp hopen
    have hnot : ¬ 0 ≤ nTo := fun h => Int32.lt_irrefl (Int32.lt_of_lt_of_le hopen h)
    rw [if_pos hopen, page_open _ _ hneg, or_iff_right hnot, drop_take_eq_drop_iff]
    omega
  · have hle : 0 ≤ nTo := Int32.not_lt.mp hopen
    rw [if_neg hopen, page_of_nonneg _ _ (Int32.le_iff_toInt_le.mp hle)]
    exact iff_of_true rfl (.inl hle)

theorem reaches_of_lt {k size : Nat} (hk : k ≤ size) (hsize : size < 2 ^ 31)
    (nFrom nTo : VInt32) : Reaches k size nFrom nTo := by
  refine .inr (.inr (.inr ?_))
  rw [Int32.toInt_ofNat_of_lt hsize]
  exact Int.ofNat_le.mpr hk

theorem pages_listPage (as : List α) {bs : List VInt32} (hbs : (0 :: bs).Pairwise (· ≤ ·)) :
    pages (listPage p f as) 0 bs = (listing p f as).take (bs.getLastD 0).toInt.toNat := by
  have hpos : ∀ c ∈ (0 :: bs : List VInt32), 0 ≤ c := by
    intro c hc
    rcases List.mem_cons.mp hc with rfl | hc
    · exact Int32.le_refl 0
    · exact (List.pairwise_cons.mp hbs).1 c hc
  have hbs : (0 :: bs).Pairwise fun b c : VInt32 => b ≤ c ∧ 0 ≤ c :=
    hbs.imp_of_mem fun _ hc hle => ⟨hle, hpos _ hc⟩
  refine pages_eq (fun b : VInt32 => b.toInt.toNat) (fun b c h => ?_) (fun b c h => ?_) 0 hbs
  · exact Int.toNat_le_toNat (Int32.le_iff_toInt_le.mp h.1)
  · rw [listPage_eq, reach, if_neg (Int32.not_lt.mpr h.2)]

/-- What paging is for: each page is the slice it is asked for, pages whose boundaries increase
join without gap or overlap, and with an open last page they are the whole listing. -/
structure Paged (get : VInt32 → VInt32 → List β) (xs : List β) (size : Nat) : Prop where
  page_iff : ∀ nFrom nTo,
    get nFrom nTo = page xs nFrom.toInt nTo.toInt ↔ Reaches xs.length size nFrom nTo
  joined : ∀ bs : List VInt32, (0 :: bs).Pairwise (· ≤ ·) →
    pages get 0 bs = xs.take (bs.getLastD 0).toInt.toNat
  whole_iff : ∀ bs : List VInt32, (0 :: bs).Pairwise (· ≤ ·) →
    (pages get 0 bs ++ get (bs.getLastD 0) (-1) = xs ↔
      Reaches xs.length size (bs.getLastD 0) (-1))

variable (p f)

theorem paged_listPage (as : List α) :
    Paged (listPage p f as) (listing p f as) as.length := by
  refine ⟨listPage_iff as, fun bs hbs => pages_listPage as hbs, fun bs hbs => ?_⟩
  have hsplit := List.take_append_drop (bs.getLastD 0).toInt.toNat (listing p f as)
  have hrest : page (listing p f as) (bs.getLastD 0).toInt (-1 : VInt32).toInt = _ :=
    page_open _ _ (by decide)
  rw [← listPage_iff, hrest, pages_listPage as hbs]
  constructor
  · intro heq
    exact List.append_cancel_left (heq.trans hsplit.symm)
  · intro heq
    rw [heq, hsplit]

end

namespace World

def getUserIDArray (w : World) (nServerID nFrom nTo : VInt32) : List VInt32 :=
  listPage (fun u => (w.user u).nServerID = nServerID) (fun u => (w.user u).nPlayerID)
    (w.pUsers.toList.map Prod.snd) nFrom nTo

def getUsers (w : World) (r : VChatRoomRef) (nFrom nTo : VInt32) : List VChatUserRef :=
  listPage (fun _ => true) id (w.room r).users nFrom nTo

def playerIDs (w : World) (nServerID : VInt32) : List VInt32 :=
  listing (fun u => (w.user u).nServerID = nServerID) (fun u => (w.user u).nPlayerID)
    (w.pUsers.toList.map Prod.snd)

/-- Both listings page exactly as far as the number of entries fits the cast to 32 bits. -/
theorem paged (w : World) (nServerID : VInt32) (r : VChatRoomRef) :
    Paged (w.getUserIDArray nServerID) (w.playerIDs nServerID) w.pUsers.size ∧
      Paged (w.getUsers r) (w.room r).users (w.room r).users.length := by
  have hsize : (w.pUsers.toList.map Prod.snd).length = w.pUsers.size := by
    rw [List.length_map, Std.TreeMap.length_toList]
  have hall : listing (fun _ => true) id (w.room r).users = (w.room r).users := by simp [listing]
  constructor
  · rw [← hsize]
    exact paged_listPage _ _ _
  · have hpaged := paged_listPage (fun _ => true) id (w.room r).users
    rwa [hall] at hpaged

theorem users_addUsr_iterate (w : World) (r : VChatRoomRef) (usr : VChatUserRef) (n : Nat) :
    (((fun w : World => w.addUsr r usr)^[n] w).room r).users =
      (w.room r).users ++ List.replicate n usr := by
  induction n with
  | zero => simp
  | succ n ih =>
    rw [Function.iterate_succ_apply', addUsr_room, if_pos rfl, ih, List.append_assoc,
      ← List.replicate_succ']

/-- In a room with `2 ^ 31` members the open page is empty: their number, cast, is negative. -/
theorem not_paged_large :
    ∃ w : World, (w.room 0).users.length = 2 ^ 31 ∧ w.getUsers 0 0 (-1) = [] ∧
      ¬ w.getUsers 0 0 (-1) = page (w.room 0).users 0 (-1) := by
  have husers := users_addUsr_iterate start 0 0 (2 ^ 31)
  generalize (fun w : World => w.addUsr 0 0)^[2 ^ 31] start = w at husers
  have hlen : (w.room 0).users.length = 2 ^ 31 := by
    rw [husers, List.length_append, List.length_replicate]
    rfl
  have hreach : reach (2 ^ 31) (-1) = 0 := by decide
  have hempty : w.getUsers 0 0 (-1) = [] := by
    rw [getUsers, listPage_eq, hlen, hreach, List.take_zero, List.drop_nil]
  refine ⟨w, hlen, hempty, fun heq => ?_⟩
  rw [hempty, page_open _ _ (by decide), Int.toNat_zero, List.drop_zero] at heq
  rw [← heq] at hlen
  cases hlen

end World
end VChat
