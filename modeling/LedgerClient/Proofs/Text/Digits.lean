import LedgerClient.Proofs.Text.Hex
import Mathlib.Data.List.Induction
/-!
# Which text is taken for digits, and why other text is not

Text is taken for the bytes whose digits it has once its capitals are made small (`spells_iff_toLower`).  Everything else
is refused: for an odd number of bytes, or else for the first of them that is no digit (`decode_eq_error_iff`).
-/
namespace LedgerClient.Hex

variable {s v : List UInt8}

/-! ## Capitals -/

theorem toLower_of_not_ascii {c : Char} (h : ¬ c.toNat < 128) : c.toLower = c := by
  unfold Char.toLower
  rw [dif_neg]
  intro hcapital
  apply h
  exact Nat.lt_of_le_of_lt (UInt32.le_iff_toNat_le.1 hcapital.2) (by decide)

/-- **Made small, a character is a digit** exactly if it is one byte and this byte is read as the digit. -/
theorem toLower_eq_digit_iff {c : Char} {n : Nat} (hn : n < 16) :
    c.toLower = digit n ↔ c.toNat < 128 ∧ digit? (UInt8.ofNat c.toNat) = some n := by
  have hascii : ∀ k : Fin 128, ∀ n : Fin 16,
      (Char.ofNat k).toLower = digit n ↔ digit? (UInt8.ofNat k) = some n.val := by
    decide +kernel
  have hdigit : ∀ n : Fin 16, (digit n).toNat < 128 := by decide
  by_cases hc : c.toNat < 128
  · have h := hascii ⟨c.toNat, hc⟩ ⟨n, hn⟩
    rw [Char.ofNat_toNat] at h
    rw [h, and_iff_right hc]
  · rw [toLower_of_not_ascii hc]
    constructor
    · rintro rfl
      exact absurd (hdigit ⟨n, hn⟩) hc
    · intro h
      exact absurd h.1 hc

theorem digit?_lt {b : UInt8} {n : Nat} (h : digit? b = some n) : n < 16 := by
  unfold digit? at h
  simp only [UInt8.le_iff_toNat_le, UInt8.reduceToNat, Bool.and_eq_true, decide_eq_true_eq] at h
  grind

theorem spells_cons_cons_iff {a b : UInt8} : Spells (a :: b :: s) v ↔
    ∃ x y w, digit? a = some x ∧ digit? b = some y ∧ Spells s w ∧ v = UInt8.ofNat (16 * x + y) :: w := by
  constructor
  · intro h
    cases h with
    | cons ha hb h => exact ⟨_, _, _, ha, hb, h, rfl⟩
  · rintro ⟨x, y, w, ha, hb, h, rfl⟩
    exact .cons ha hb h

theorem cons_cons_eq_encode_iff {c d : Char} {r : List Char} : c :: d :: r = encode v ↔
    ∃ x y w, x < 16 ∧ y < 16 ∧ c = digit x ∧ d = digit y ∧ r = encode w ∧ v = UInt8.ofNat (16 * x + y) :: w := by
  constructor
  · intro h
    cases v with
    | nil => cases h
    | cons b w =>
      have hb : b.toNat < 256 := b.toNat_lt_size
      have hbyte : UInt8.ofNat (16 * (b.toNat / 16) + b.toNat % 16) = b := by
        rw [Nat.div_add_mod, UInt8.ofNat_toNat]
      cases h
      exact ⟨b.toNat / 16, b.toNat % 16, w, by omega, by omega, rfl, rfl, rfl, by rw [hbyte]⟩
  · rintro ⟨x, y, w, hx, hy, rfl, rfl, rfl, rfl⟩
    have hbyte : (UInt8.ofNat (16 * x + y)).toNat = 16 * x + y := Utf8.toNat_ofNat (by omega)
    rw [encode, hbyte, show (16 * x + y) / 16 = x by omega, show (16 * x + y) % 16 = y by omega]

theorem spells_ascii_iff {ds : List Char} (h : ∀ c ∈ ds, c.toNat < 128) :
    Spells (ds.map fun c => UInt8.ofNat c.toNat) v ↔ ds.map Char.toLower = encode v := by
  induction ds using List.twoStepInduction generalizing v with
  | nil =>
    cases v with
    | nil => exact ⟨fun _ => rfl, fun _ => .nil⟩
    | cons b w => exact ⟨nofun, nofun⟩
  | singleton c =>
    constructor
    · intro h
      cases h.even
    · intro h
      have hlength := congrArg List.length h
      cases v with
      | nil => cases hlength
      | cons b w => cases hlength
  | cons_cons c d r ih _ =>
    rw [List.forall_mem_cons, List.forall_mem_cons] at h
    obtain ⟨hc, hd, hr⟩ := h
    simp only [List.map_cons, spells_cons_cons_iff, cons_cons_eq_encode_iff, ih hr]
    constructor
    · rintro ⟨x, y, w, hx, hy, hw, rfl⟩
      have hx' := digit?_lt hx
      have hy' := digit?_lt hy
      exact ⟨x, y, w, hx', hy', (toLower_eq_digit_iff hx').2 ⟨hc, hx⟩, (toLower_eq_digit_iff hy').2 ⟨hd, hy⟩, hw, rfl⟩
    · rintro ⟨x, y, w, hx, hy, hcx, hdy, hw, rfl⟩
      exact ⟨x, y, w, ((toLower_eq_digit_iff hx).1 hcx).2, ((toLower_eq_digit_iff hy).1 hdy).2, hw, rfl⟩

theorem encode_ascii {ds : List Char} (h : ∀ c ∈ ds, c.toNat < 128) :
    Utf8.encode ds = ds.map fun c => UInt8.ofNat c.toNat := by
  induction ds with
  | nil => rfl
  | cons c r ih =>
    rw [List.forall_mem_cons] at h
    rw [Utf8.encode, List.flatMap_cons, ← Utf8.encode, encodeChar_ascii h.1, ih h.2, List.singleton_append,
      List.map_cons]

theorem isDigit_of_spells {ds : List Char} (h : Spells (Utf8.encode ds) v) : ∀ c ∈ ds, IsDigit c := by
  have hdigits := h.digits
  rw [Utf8.encode, List.forall_mem_flatMap] at hdigits
  exact fun c hc => (forall_digit?_iff c).1 (hdigits c hc)

/-- **Text spells the bytes whose digits it has once its capitals are made small.** -/
theorem spells_iff_toLower {ds : List Char} : Spells (Utf8.encode ds) v ↔ ds.map Char.toLower = encode v := by
  have hlowered : ds.map Char.toLower = encode v → ∀ c ∈ ds, c.toNat < 128 := by
    intro h c hc
    have hmem : c.toLower ∈ encode v := h ▸ List.mem_map_of_mem hc
    obtain ⟨n, hn, hdigit⟩ := mem_encode hmem
    exact ((toLower_eq_digit_iff hn).1 hdigit).1
  constructor
  · intro h
    have hascii : ∀ c ∈ ds, c.toNat < 128 := fun c hc => (isDigit_of_spells h c hc).lt
    rw [encode_ascii hascii] at h
    exact (spells_ascii_iff hascii).1 h
  · intro h
    have hascii := hlowered h
    rw [encode_ascii hascii]
    exact (spells_ascii_iff hascii).2 h

theorem isDigit_of_toLower {ds : List Char} (h : ds.map Char.toLower = encode v) : ∀ c ∈ ds, IsDigit c :=
  isDigit_of_spells (spells_iff_toLower.2 h)

theorem IsDigit.not_blank {c : Char} (h : IsDigit c) : isBlank c = false := by
  have hascii : ∀ k : Fin 128, IsDigit (Char.ofNat k) → isBlank (Char.ofNat k) = false := by decide +kernel
  have hc := hascii ⟨c.toNat, h.lt⟩
  rw [Char.ofNat_toNat] at hc
  exact hc h

/-! ## Faults -/

/-- The byte is the one of a digit, of either case. -/
def IsDigitByte (b : UInt8) : Prop := IsDigit (Char.ofNat b.toNat)

/-- What keeps bytes from being read: their number is odd; or it is even, and a byte is the first that is no digit. -/
inductive Faulty (s : List UInt8) : Fault → Prop where
  | odd (h : s.length % 2 = 1) : Faulty s .odd
  | notDigit {pre post : List UInt8} {b : UInt8} (he : s.length % 2 = 0) (hs : s = pre ++ b :: post)
      (hpre : ∀ a ∈ pre, IsDigitByte a) (hb : ¬ IsDigitByte b) : Faulty s (.notDigit b pre.length)

theorem isDigitByte_iff {b : UInt8} : IsDigitByte b ↔ (digit? b).isSome = true := by
  have hb : b.toNat < 256 := b.toNat_lt_size
  have hchar : (Char.ofNat b.toNat).toNat = b.toNat := Utf8.toNat_charOfNat (.inl (by omega))
  by_cases h : b.toNat < 128
  · have hdigit := digit?_ascii (c := Char.ofNat b.toNat) (by rw [hchar]; exact h)
    rw [hchar, UInt8.ofNat_toNat] at hdigit
    exact hdigit.symm
  · rw [digit?_of_le (Nat.le_of_not_lt h)]
    constructor
    · intro hdigit
      have hlt := IsDigit.lt hdigit
      rw [hchar] at hlt
      exact absurd hlt h
    · intro hnone
      cases hnone

theorem digit?_eq_none {b : UInt8} (h : ¬ IsDigitByte b) : digit? b = none := by
  rwa [isDigitByte_iff, Bool.not_eq_true, Option.isSome_eq_false_iff, Option.isNone_iff_eq_none] at h

theorem exists_digit? {b : UInt8} (h : IsDigitByte b) : ∃ n, digit? b = some n :=
  Option.isSome_iff_exists.1 (isDigitByte_iff.1 h)

/-- **Digits are passed over up to the first byte that is none.** -/
theorem pairs_of_first {pre post : List UInt8} {b : UInt8} (he : (pre ++ b :: post).length % 2 = 0)
    (hpre : ∀ a ∈ pre, IsDigitByte a) (hb : ¬ IsDigitByte b) (i : Nat) :
    pairs i (pre ++ b :: post) = .error (.notDigit b (i + pre.length)) := by
  induction pre using List.twoStepInduction generalizing i with
  | nil =>
    cases post with
    | nil => cases he
    | cons c r =>
      rw [List.nil_append, pairs, digit?_eq_none hb]
      rfl
  | singleton a =>
    obtain ⟨x, hx⟩ := exists_digit? (hpre a List.mem_cons_self)
    rw [List.singleton_append, pairs, digit?_eq_none hb, hx]
    rfl
  | cons_cons a a' r ih _ =>
    rw [List.forall_mem_cons, List.forall_mem_cons] at hpre
    obtain ⟨x, hx⟩ := exists_digit? hpre.1
    obtain ⟨y, hy⟩ := exists_digit? hpre.2.1
    have hrest : (r ++ b :: post).length % 2 = 0 := by
      rw [List.cons_append, List.cons_append, List.length_cons, List.length_cons] at he
      omega
    have hlength : i + (a :: a' :: r).length = i + 2 + r.length := by
      rw [List.length_cons, List.length_cons]
      omega
    rw [List.cons_append, List.cons_append, pairs, hx, hy, hlength]
    dsimp only
    rw [ih hrest hpre.2.2]
    rfl

theorem Faulty.decode_eq {f : Fault} (h : Faulty s f) : decode s = .error f := by
  cases h with
  | odd h => rw [decode, if_pos h]
  | notDigit he hs hpre hb =>
    have heven : ¬ s.length % 2 = 1 := by omega
    rw [decode, if_neg heven, hs, pairs_of_first (hs ▸ he) hpre hb, Nat.zero_add]

theorem exists_faulty (h : ∀ v, ¬ Spells s v) : ∃ f, Faulty s f := by
  by_cases hodd : s.length % 2 = 1
  · exact ⟨.odd, .odd hodd⟩
  · have heven : s.length % 2 = 0 := by omega
    cases hfind : s.find? fun b => (digit? b).isNone with
    | none =>
      have hdigits : ∀ b ∈ s, (digit? b).isSome = true := by
        simpa [Option.isSome_iff_ne_none] using hfind
      obtain ⟨v, hv⟩ := exists_spells heven hdigits
      exact absurd hv (h v)
    | some b =>
      obtain ⟨hb, pre, post, hs, hpre⟩ := List.find?_eq_some_iff_append.1 hfind
      refine ⟨_, .notDigit heven hs (fun a ha => ?_) ?_⟩
      · simpa [isDigitByte_iff] using hpre a ha
      · simpa [isDigitByte_iff] using hb

/-- **Bytes are refused for their fault**, and there is no other. -/
theorem decode_eq_error_iff {f : Fault} : decode s = .error f ↔ Faulty s f := by
  constructor
  · intro h
    have hnone : ∀ v, ¬ Spells s v := by
      intro v hv
      cases h.symm.trans (decode_eq_ok_iff.2 hv)
    obtain ⟨g, hg⟩ := exists_faulty hnone
    cases h.symm.trans hg.decode_eq
    exact hg
  · exact Faulty.decode_eq

end LedgerClient.Hex
