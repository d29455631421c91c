import VChat.Chat.Dispatch
import VChat.Codec.Delimited
import VChat.Codec.LittleEndian

/-! The friend list as it is sent, read back by its own layout. -/

namespace VChat
open Codec

structure RoleRecord where
  nServerID : VInt32
  nRoleID : VInt32
  nSex : VInt32
  nLevel : VInt32
  nOnlineStatus : VInt32
  strRoleName : String

structure FriendRecord where
  strDisplayName : String
  strURL : String
  roles : List RoleRecord

/-- How often a loop from 0 runs below a count. -/
def count (n : VInt32) : Nat := n.toInt.toNat

namespace World
variable (sv : Services)

noncomputable def readRole : Decoder VByte RoleRecord := do
  let nServerID ← decode sv.writeObject
  let nRoleID ← decode sv.writeObject
  let nSex ← decode sv.writeObject
  let nLevel ← decode sv.writeObject
  let nOnlineStatus ← decode sv.writeObject
  let strRoleName ← decode sv.writeString
  pure ⟨nServerID, nRoleID, nSex, nLevel, nOnlineStatus, strRoleName⟩

noncomputable def readFriend : Decoder VByte FriendRecord := do
  let strDisplayName ← decode sv.writeString
  let strURL ← decode sv.writeString
  let nRole ← decode sv.writeObject
  let roles ← times (readRole sv) (count nRole)
  pure ⟨strDisplayName, strURL, roles⟩

noncomputable def readFriends : Decoder VByte (List FriendRecord) := do
  let nTotalFriends ← decode sv.writeObject
  times (readFriend sv) (count nTotalFriends)

def roleRecord (w : World) (nRoleID : VInt32) : Option RoleRecord :=
  (sv.findRecordEx nRoleID).map fun user =>
    ⟨user.nServerID, nRoleID, user.nSex, user.nLevel,
      if (w.getUser nRoleID).isSome then 1 else 0, user.strRoleName⟩

def friendRecord (w : World) (zme : ZMEFriend) : FriendRecord :=
  ⟨zme.strDisplayName, zme.strURL,
    if Int32.ofNat zme.nRoleID.length > 0 then zme.nRoleID.filterMap (w.roleRecord sv) else []⟩

def ReadsBack (w : World) (zmes : List ZMEFriend) : Prop :=
  readFriends sv (w.writeFriends sv zmes) = some (zmes.map (w.friendRecord sv), [])

/-- If any roles are written, they are as many as the count before them says. -/
def RolesCounted (zme : ZMEFriend) : Prop :=
  Int32.ofNat zme.nRoleID.length > 0 →
    ((zme.nRoleID.filter fun nRoleID => (sv.findRecordEx nRoleID).isSome).length : Int) =
      (Int32.ofNat zme.nRoleID.length).toInt

def writeRecord (r : RoleRecord) : List VByte :=
  sv.writeObject r.nServerID ++ sv.writeObject r.nRoleID ++ sv.writeObject r.nSex ++
    sv.writeObject r.nLevel ++ sv.writeObject r.nOnlineStatus ++ sv.writeString r.strRoleName

variable {sv} {w : World}

theorem writeRoles_eq (w : World) (ids : List VInt32) :
    ids.flatMap (w.writeRole sv) =
      (ids.filterMap (w.roleRecord sv)).flatMap (writeRecord sv) := by
  induction ids with
  | nil => rfl
  | cons id ids ih =>
    rw [List.flatMap_cons, List.filterMap_cons, ih, writeRole, roleRecord]
    cases sv.findRecordEx id <;> rfl

theorem length_roleRecords (w : World) (ids : List VInt32) :
    (ids.filterMap (w.roleRecord sv)).length =
      (ids.filter fun id => (sv.findRecordEx id).isSome).length := by
  rw [List.length_filterMap_eq_countP, List.countP_eq_length_filter]
  congr 2
  funext id
  exact Option.isSome_map

theorem reads_readRole (hObject : SelfDelimiting sv.writeObject)
    (hString : SelfDelimiting sv.writeString) :
    Reads (readRole sv) (writeRecord sv) id fun _ => True := by
  intro r rest rest'
  simp only [readRole, writeRecord, List.append_assoc, decode_bind hObject, decode_bind hString]
  show some (r, rest) = some (r, rest') ↔ _
  simp [eq_comm]

theorem toNat_count {n : VInt32} (h : n > 0) : (count n : Int) = n.toInt := by
  have hpos : 0 < n.toInt := Int32.lt_iff_toInt_lt.mp h
  exact Int.toNat_of_nonneg (Int.le_of_lt hpos)

theorem count_eq_zero {n : VInt32} (h : ¬ n > 0) : count n = 0 := by
  have hle : n.toInt ≤ 0 := Int32.le_iff_toInt_le.mp (Int32.not_lt.mp h)
  exact Int.toNat_of_nonpos hle

theorem rolesCounted_iff (w : World) (zme : ZMEFriend) : RolesCounted sv zme ↔
    count (Int32.ofNat zme.nRoleID.length) = (w.friendRecord sv zme).roles.length := by
  rw [RolesCounted, friendRecord]
  split_ifs with hpos
  · rw [length_roleRecords, ← toNat_count hpos, Int.natCast_inj, eq_comm]
    exact ⟨fun h => h hpos, fun h _ => h⟩
  · rw [count_eq_zero hpos]
    exact iff_of_true (fun h => absurd h hpos) rfl

theorem writeFriend_eq (w : World) (zme : ZMEFriend) : w.writeFriend sv zme =
    sv.writeString zme.strDisplayName ++ sv.writeString zme.strURL ++
      sv.writeObject (Int32.ofNat zme.nRoleID.length) ++
        (w.friendRecord sv zme).roles.flatMap (writeRecord sv) := by
  rw [writeFriend, friendRecord]
  simp only [writeRoles_eq]
  split_ifs <;> rfl

theorem reads_readFriend (hObject : SelfDelimiting sv.writeObject)
    (hString : SelfDelimiting sv.writeString) :
    Reads (readFriend sv) (w.writeFriend sv) (w.friendRecord sv) (RolesCounted sv) := by
  intro zme rest rest'
  have hroles := (reads_readRole hObject hString).times (w.friendRecord sv zme).roles
    (count (Int32.ofNat zme.nRoleID.length)) rest
  simp only [List.map_id] at hroles
  rw [writeFriend_eq, rolesCounted_iff w]
  simp only [readFriend, List.append_assoc, decode_bind hObject, decode_bind hString, bind_eq_some]
  constructor
  · rintro ⟨roles, r, hread, heq⟩
    obtain ⟨hfriend, rfl⟩ := Prod.mk.inj (Option.some.inj heq)
    have hsame : (w.friendRecord sv zme).roles = roles := by rw [← hfriend]
    obtain ⟨hcount, -, hrest⟩ := (hroles r).mp (hsame ▸ hread)
    exact ⟨hcount, hrest⟩
  · rintro ⟨hcount, rfl⟩
    exact ⟨_, _, (hroles rest').mpr ⟨hcount, fun _ _ => trivial, rfl⟩, rfl⟩

theorem count_ofNat_iff (n : Nat) : count (Int32.ofNat n) = n ↔ n < 2 ^ 31 := by
  constructor
  · intro h
    have hlt := (Int32.ofNat n).toInt_lt
    unfold count at h
    omega
  · intro h
    rw [count, Int32.toInt_ofNat_of_lt h]
    rfl

theorem readsBack_iff_of_ne (hObject : SelfDelimiting sv.writeObject)
    (hString : SelfDelimiting sv.writeString) {zmes : List ZMEFriend} (hne : zmes ≠ []) :
    ReadsBack sv w zmes ↔ zmes.length < 2 ^ 31 ∧ ∀ zme ∈ zmes, RolesCounted sv zme := by
  have hempty : zmes.isEmpty = false := by simpa using hne
  have hread := (reads_readFriend (w := w) hObject hString).times zmes
    (count (Int32.ofNat zmes.length)) [] []
  rw [List.append_nil] at hread
  rw [ReadsBack, readFriends, writeFriends, hempty, if_neg (by decide), decode_bind hObject,
    hread, count_ofNat_iff]
  simp

theorem not_readsBack_nil (hObject : SelfDelimiting sv.writeObject) : ¬ ReadsBack sv w [] := by
  intro h
  obtain ⟨n, rest, hread, -⟩ := bind_eq_some.mp h
  have hbody : ([] : List VByte) = sv.writeObject n ++ rest := (decode_eq_some hObject).mp hread
  have htwo : (0 : VInt32) ≠ 1 := by decide
  exact hObject.ne_nil htwo n (List.append_eq_nil_iff.mp hbody.symm).1

/-- The reply decodes exactly when the list is not empty, its length fits 32 bits, and every role
of every friend has its record (as far as the cast of their number lets them be written). -/
theorem friends_decode_iff (hObject : SelfDelimiting sv.writeObject)
    (hString : SelfDelimiting sv.writeString) (w : World) (zmes : List ZMEFriend) :
    ReadsBack sv w zmes ↔
      zmes ≠ [] ∧ zmes.length < 2 ^ 31 ∧ ∀ zme ∈ zmes, RolesCounted sv zme := by
  by_cases hne : zmes = []
  · subst hne
    exact iff_of_false (not_readsBack_nil hObject) fun h => h.1 rfl
  · rw [readsBack_iff_of_ne hObject hString hne]
    exact (and_iff_right hne).symm

/-- Integers in four bytes, and strings after their length, which is one byte up to 254. -/
def encoded (findRecordEx : VInt32 → Option UserRecord) : Services :=
  { Dispatch.Network.silent.services with
    writeObject := fun v => bytesOf 4 v.toBitVec
    writeString := fun text =>
      let bytes := text.toByteArray.data.toList.map UInt8.toBitVec
      (List.replicate (bytes.length / 255) 255 ++ [BitVec.ofNat 8 (bytes.length % 255)]) ++ bytes
    findRecordEx := findRecordEx }

theorem selfDelimiting_encoded (findRecordEx : VInt32 → Option UserRecord) :
    SelfDelimiting (encoded findRecordEx).writeObject ∧
      SelfDelimiting (encoded findRecordEx).writeString := by
  constructor
  · refine selfDelimiting_of_length (k := 4) (fun v => length_bytesOf 4 _) fun v v' h => ?_
    have hfit : 32 ≤ 8 * 4 := by decide
    have hword : wordOf 32 (bytesOf 4 v.toBitVec) = wordOf 32 (bytesOf 4 v'.toBitVec) :=
      congrArg (wordOf 32) h
    rw [wordOf_bytesOf hfit, wordOf_bytesOf hfit] at hword
    exact Int32.toBitVec_inj.mp hword
  · have hsize : SelfDelimiting fun n : Nat =>
        List.replicate (n / 255) (255 : VByte) ++ [BitVec.ofNat 8 (n % 255)] := by
      refine selfDelimiting_digits 255 (fun i hi j hj h => ?_) (fun i hi h => ?_) (by decide)
      · bv_omega
      · bv_omega
    refine hsize.withLength fun s t h => ?_
    have hbytes := List.map_injective_iff.mpr (fun _ _ => UInt8.toBitVec_inj.mp) h
    exact String.toByteArray_inj.mp (ByteArray.ext (Array.toList_inj.mp hbytes))

/-- One friend with one role that has a record. -/
theorem friends_decode_one :
    let sv := encoded fun id => if id = 7 then some ⟨3, 1, 20, "z"⟩ else none
    ReadsBack sv start [⟨"ab", "u", [7]⟩] := by
  intro sv
  obtain ⟨hObject, hString⟩ := selfDelimiting_encoded fun id =>
    if id = 7 then some ⟨3, 1, 20, "z"⟩ else none
  refine (friends_decode_iff hObject hString start _).mpr ⟨by simp, by simp, fun zme hzme => ?_⟩
  obtain rfl := List.mem_singleton.mp hzme
  exact fun _ => by decide

/-- The empty list, and a friend whose role has no record: the count says 1, and no record
follows. -/
theorem not_friends_decode :
    ¬ ReadsBack (encoded fun _ => none) start [] ∧
      ¬ ReadsBack (encoded fun _ => none) start [⟨"ab", "u", [7]⟩] := by
  obtain ⟨hObject, hString⟩ := selfDelimiting_encoded fun _ => none
  refine ⟨not_readsBack_nil hObject, fun h => ?_⟩
  obtain ⟨-, hroles⟩ := (readsBack_iff_of_ne hObject hString (by simp)).mp h
  exact absurd (hroles _ List.mem_cons_self (by decide)) (by decide)

end World
end VChat
