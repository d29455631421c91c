import Mathlib.Data.List.Basic

/-! Self-delimiting codes, and readers for sequences of values so encoded. -/

namespace VChat.Codec
variable {α β γ : Type}

/-- A code shows where it ends, whatever comes after it. -/
def SelfDelimiting (encode : α → List β) : Prop :=
  ∀ a b xs ys, encode a ++ xs = encode b ++ ys → a = b ∧ xs = ys

abbrev Decoder (β α : Type) := StateT (List β) Option α

open scoped Classical in
noncomputable def decode (encode : α → List β) : Decoder β α := fun bs =>
  if h : ∃ r : α × List β, bs = encode r.1 ++ r.2 then some h.choose else none

def times (d : Decoder β α) : Nat → Decoder β (List α)
  | 0 => pure []
  | n + 1 => do
    let a ← d
    let as ← times d n
    pure (a :: as)

/-- What `write` writes, `d` reads as the value `v`, and nothing beyond it, exactly under the
condition `C`. -/
def Reads (d : Decoder β γ) (write : α → List β) (v : α → γ) (C : α → Prop) : Prop :=
  ∀ a rest r, d (write a ++ rest) = some (v a, r) ↔ C a ∧ r = rest

theorem bind_eq_some {d : Decoder β α} {f : α → Decoder β γ} {bs : List β} {r : γ × List β} :
    (d >>= f) bs = some r ↔ ∃ a rest, d bs = some (a, rest) ∧ f a rest = some r := by
  show (d bs).bind (fun p => f p.1 p.2) = some r ↔ _
  rw [Option.bind_eq_some_iff]
  exact Prod.exists

theorem decode_eq_some {encode : α → List β} (h : SelfDelimiting encode) {bs rest : List β}
    {a : α} : decode encode bs = some (a, rest) ↔ bs = encode a ++ rest := by
  unfold decode
  split_ifs with hr
  · have hspec := hr.choose_spec
    constructor
    · intro heq
      rwa [Option.some.inj heq] at hspec
    · intro hbs
      obtain ⟨ha, hrest⟩ := h _ _ _ _ (hspec.symm.trans hbs)
      exact congrArg some (Prod.ext ha hrest)
  · refine iff_of_false (fun heq => ?_) fun hbs => hr ⟨(a, rest), hbs⟩
    cases heq

theorem decode_bind {encode : α → List β} (h : SelfDelimiting encode) (a : α) (rest : List β)
    (f : α → Decoder β γ) : (decode encode >>= f) (encode a ++ rest) = f a rest := by
  show (decode encode (encode a ++ rest)).bind (fun p => f p.1 p.2) = _
  rw [(decode_eq_some h).mpr rfl]
  rfl

theorem SelfDelimiting.ne_nil {encode : α → List β} (h : SelfDelimiting encode) {b c : α}
    (hbc : b ≠ c) (a : α) : encode a ≠ [] := by
  intro hnil
  have hall : ∀ b, a = b := fun b => (h a b (encode b) [] (by simp [hnil])).1
  exact hbc ((hall b).symm.trans (hall c))

/-- What has been received of a sequence of codes reads as a prefix of the sequence only. -/
theorem SelfDelimiting.isPrefix {encode : α → List β} (h : SelfDelimiting encode)
    (hne : ∀ a, encode a ≠ []) {as bs : List α}
    (hpre : bs.flatMap encode <+: as.flatMap encode) : bs <+: as := by
  induction bs generalizing as with
  | nil => exact List.nil_prefix
  | cons b bs ih =>
    obtain ⟨rest, hrest⟩ := hpre
    rw [List.flatMap_cons, List.append_assoc] at hrest
    cases as with
    | nil => exact absurd (List.append_eq_nil_iff.mp hrest).1 (hne b)
    | cons a as =>
      rw [List.flatMap_cons] at hrest
      obtain ⟨rfl, htail⟩ := h _ _ _ _ hrest
      exact (List.prefix_cons_inj b).mpr (ih ⟨rest, htail⟩)

theorem selfDelimiting_of_length {encode : α → List β} {k : Nat}
    (hlen : ∀ a, (encode a).length = k) (hinj : Function.Injective encode) :
    SelfDelimiting encode := by
  intro a b xs ys heq
  obtain ⟨hcode, hrest⟩ := List.append_inj heq ((hlen a).trans (hlen b).symm)
  exact ⟨hinj hcode, hrest⟩

theorem SelfDelimiting.withBody {head : γ → List β} (h : SelfDelimiting head) {key : α → γ}
    {body : α → List β} (hlen : ∀ a b, key a = key b → (body a).length = (body b).length)
    (hinj : ∀ a b, key a = key b → body a = body b → a = b) :
    SelfDelimiting fun a => head (key a) ++ body a := by
  intro a b xs ys heq
  simp only [List.append_assoc] at heq
  obtain ⟨hkey, hrest⟩ := h _ _ _ _ heq
  obtain ⟨hbody, htail⟩ := List.append_inj hrest (hlen a b hkey)
  exact ⟨hinj a b hkey hbody, htail⟩

/-- A number in digits of base `m + 1`: as many `full` digits as go into it, and one that is not
full. -/
theorem selfDelimiting_digits (m : Nat) {full : β} {digit : Nat → β}
    (hinj : ∀ i < m, ∀ j < m, digit i = digit j → i = j) (hfull : ∀ i < m, digit i ≠ full)
    (hm : 0 < m) : SelfDelimiting fun n => List.replicate (n / m) full ++ [digit (n % m)] := by
  have hdigits : ∀ a b i j, i < m → j < m → ∀ xs ys : List β,
      List.replicate a full ++ digit i :: xs = List.replicate b full ++ digit j :: ys →
        a = b ∧ i = j ∧ xs = ys := by
    intro a
    induction a with
    | zero =>
      intro b i j hi hj xs ys heq
      cases b with
      | zero =>
        obtain ⟨hd, hrest⟩ := List.cons.inj heq
        exact ⟨rfl, hinj i hi j hj hd, hrest⟩
      | succ b => exact absurd (List.cons.inj heq).1 (hfull i hi)
    | succ a ih =>
      intro b i j hi hj xs ys heq
      cases b with
      | zero => exact absurd (List.cons.inj heq).1.symm (hfull j hj)
      | succ b =>
        obtain ⟨hab, hrest⟩ := ih b i j hi hj xs ys (List.cons.inj heq).2
        exact ⟨congrArg Nat.succ hab, hrest⟩
  intro a b xs ys heq
  simp only [List.append_assoc, List.singleton_append] at heq
  obtain ⟨hdiv, hmod, hrest⟩ :=
    hdigits _ _ _ _ (Nat.mod_lt a hm) (Nat.mod_lt b hm) xs ys heq
  refine ⟨?_, hrest⟩
  rw [← Nat.div_add_mod a m, ← Nat.div_add_mod b m, hdiv, hmod]

theorem SelfDelimiting.withLength {size : Nat → List β} (h : SelfDelimiting size)
    {body : α → List β} (hinj : Function.Injective body) :
    SelfDelimiting fun a => size (body a).length ++ body a := by
  intro a b xs ys heq
  simp only [List.append_assoc] at heq
  obtain ⟨hlen, hbody⟩ := h _ _ _ _ heq
  obtain ⟨hcode, hrest⟩ := List.append_inj hbody hlen
  exact ⟨hinj hcode, hrest⟩

theorem Reads.times {d : Decoder β γ} {write : α → List β} {v : α → γ} {C : α → Prop}
    (h : Reads d write v C) (as : List α) (n : Nat) (rest r : List β) :
    times d n (as.flatMap write ++ rest) = some (as.map v, r) ↔
      n = as.length ∧ (∀ a ∈ as, C a) ∧ r = rest := by
  induction as generalizing n with
  | nil =>
    cases n with
    | zero =>
      show some ([], rest) = some ([], r) ↔ _
      simp [eq_comm]
    | succ n =>
      refine iff_of_false (fun heq => ?_) fun heq => nomatch heq.1
      obtain ⟨a, bs, -, heq⟩ := bind_eq_some.mp heq
      obtain ⟨as, bs, -, heq⟩ := bind_eq_some.mp heq
      cases heq
  | cons a as ih =>
    cases n with
    | zero => exact iff_of_false (fun heq => nomatch heq) fun heq => nomatch heq.1
    | succ n =>
      rw [List.flatMap_cons, List.append_assoc, List.map_cons, List.length_cons,
        List.forall_mem_cons, Nat.succ_inj]
      constructor
      · intro heq
        obtain ⟨b, bs, hb, heq⟩ := bind_eq_some.mp heq
        obtain ⟨cs, r', hcs, heq⟩ := bind_eq_some.mp heq
        obtain ⟨hvalues, rfl⟩ := Prod.mk.inj (Option.some.inj heq)
        obtain ⟨rfl, rfl⟩ := List.cons.inj hvalues
        obtain ⟨hC, rfl⟩ := (h a _ _).mp hb
        obtain ⟨hn, hall, hrest⟩ := (ih n).mp hcs
        exact ⟨hn, ⟨hC, hall⟩, hrest⟩
      · rintro ⟨hn, ⟨hC, hall⟩, hrest⟩
        refine bind_eq_some.mpr ⟨v a, _, (h a _ _).mpr ⟨hC, rfl⟩, ?_⟩
        exact bind_eq_some.mpr ⟨as.map v, r, (ih n).mpr ⟨hn, hall, hrest⟩, rfl⟩

end VChat.Codec
