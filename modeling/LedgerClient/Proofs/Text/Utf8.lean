import LedgerClient.Text.Utf8
/-!
# Text that is written is read back

A character is spelled by its bytes, whatever comes after them (`pieces_encodeChar`), so the bytes of a text are read
as this text (`text?_utf8`).  No other bytes are: what is read as a text is how the text is written (`text?_eq_ok_iff`).
-/
namespace LedgerClient.Utf8

theorem toNat_ofNat {n : Nat} (h : n < 256) : (UInt8.ofNat n).toNat = n := UInt8.toNat_ofNat_of_lt' h

/-! ## Fronts -/

section Fronts

variable {b t u v : UInt8} {r : List UInt8}

theorem isTail_iff : isTail b = true ↔ 0x80 ≤ b.toNat ∧ b.toNat ≤ 0xBF := by
  simp [isTail, UInt8.le_iff_toNat_le]

theorem isTail_ofNat (n : Nat) : isTail (UInt8.ofNat (0x80 + n % 0x40)) = true := by
  rw [isTail_iff, toNat_ofNat (by omega)]
  omega

theorem bits_ofNat (n : Nat) : bits (UInt8.ofNat (0x80 + n % 0x40)) = n % 0x40 := by
  rw [bits, toNat_ofNat (by omega)]
  omega

theorem opens_of_isTail (ht : isTail t = true) (h₁ : b.toNat = 0xE0 → 0xA0 ≤ t.toNat)
    (h₂ : b.toNat = 0xED → t.toNat ≤ 0x9F) (h₃ : b.toNat = 0xF0 → 0x90 ≤ t.toNat)
    (h₄ : b.toNat = 0xF4 → t.toNat ≤ 0x8F) : opens b t = true := by
  obtain ⟨hl, hu⟩ := isTail_iff.1 ht
  unfold opens
  split
  · rename_i h
    simpa [UInt8.le_iff_toNat_le, hu] using h₁ (congrArg UInt8.toNat h)
  split
  · rename_i h
    simpa [UInt8.le_iff_toNat_le, hl] using h₂ (congrArg UInt8.toNat h)
  split
  · rename_i h
    simpa [UInt8.le_iff_toNat_le, hu] using h₃ (congrArg UInt8.toNat h)
  split
  · rename_i h
    simpa [UInt8.le_iff_toNat_le, hl] using h₄ (congrArg UInt8.toNat h)
  · exact ht

theorem front_one (hb : b.toNat < 0x80) : front b r = .char (Char.ofNat b.toNat) 0 := by
  unfold front
  rw [if_pos (UInt8.lt_iff_toNat_lt.2 hb)]

/-- A lead byte that is not a character and could begin one. -/
theorem front_lead (hb : 0xC2 ≤ b.toNat) (hb' : b.toNat ≤ 0xF4) :
    ¬ b < 0x80 ∧ ¬ (decide (b < 0xC2) || decide (0xF4 < b)) = true := by
  simp only [UInt8.lt_iff_toNat_lt, Bool.or_eq_true, decide_eq_true_eq, UInt8.reduceToNat]
  omega

theorem front_two (hb : 0xC2 ≤ b.toNat) (hb' : b.toNat < 0xE0) (ht : isTail t = true) :
    front b (t :: r) = .char (Char.ofNat (b.toNat % 0x20 * 0x40 + bits t)) 1 := by
  obtain ⟨h₁, h₂⟩ := front_lead hb (by omega)
  have ho : opens b t = true := opens_of_isTail ht (by omega) (by omega) (by omega) (by omega)
  unfold front
  rw [if_neg h₁, if_neg h₂]
  simp only [ho, Bool.not_true, Bool.false_eq_true, ↓reduceIte]
  rw [if_pos (UInt8.lt_iff_toNat_lt.2 hb')]

theorem front_three (hb : 0xE0 ≤ b.toNat) (hb' : b.toNat < 0xF0) (ho : opens b t = true) (hu : isTail u = true) :
    front b (t :: u :: r) = .char (Char.ofNat (b.toNat % 0x10 * 0x1000 + bits t * 0x40 + bits u)) 2 := by
  obtain ⟨h₁, h₂⟩ := front_lead (b := b) (by omega) (by omega)
  have h₃ : ¬ b < 0xE0 := fun h => absurd (UInt8.lt_iff_toNat_lt.1 h) (Nat.not_lt.2 hb)
  unfold front
  rw [if_neg h₁, if_neg h₂]
  simp only [ho, hu, Bool.not_true, Bool.false_eq_true, ↓reduceIte]
  rw [if_neg h₃, if_pos (UInt8.lt_iff_toNat_lt.2 hb')]

theorem front_four (hb : 0xF0 ≤ b.toNat) (hb' : b.toNat ≤ 0xF4) (ho : opens b t = true) (hu : isTail u = true)
    (hv : isTail v = true) :
    front b (t :: u :: v :: r) =
      .char (Char.ofNat (b.toNat % 0x08 * 0x40000 + bits t * 0x1000 + bits u * 0x40 + bits v)) 3 := by
  obtain ⟨h₁, h₂⟩ := front_lead (b := b) (by omega) hb'
  have h₃ : ¬ b < 0xE0 := fun h => absurd (UInt8.lt_iff_toNat_lt.1 h) (Nat.not_lt.2 (Nat.le_trans (by decide) hb))
  have h₄ : ¬ b < 0xF0 := fun h => absurd (UInt8.lt_iff_toNat_lt.1 h) (Nat.not_lt.2 hb)
  unfold front
  rw [if_neg h₁, if_neg h₂]
  simp only [ho, hu, hv, Bool.not_true, Bool.false_eq_true, ↓reduceIte]
  rw [if_neg h₃, if_neg h₄]

end Fronts

/-! ## Characters -/

/-- The numbers of characters leave out the surrogates. -/
theorem toNat_valid (c : Char) : c.toNat < 0xD800 ∨ 0xDFFF < c.toNat ∧ c.toNat < 0x110000 := c.valid

/-- The bytes of a character are a front of their own. -/
theorem encodeChar_front (c : Char) :
    ∃ b tail, encodeChar c = b :: tail ∧ ∀ r, front b (tail ++ r) = .char c tail.length := by
  have hv := toNat_valid c
  have hc := Char.ofNat_toNat c
  unfold encodeChar
  generalize c.toNat = n at hv hc
  by_cases h₁ : n < 0x80
  · have hb : (UInt8.ofNat n).toNat = n := toNat_ofNat (by omega)
    refine ⟨_, [], if_pos h₁, fun r => ?_⟩
    rw [List.nil_append, front_one (by omega), hb, hc]
    rfl
  by_cases h₂ : n < 0x800
  · have hb : (UInt8.ofNat (0xC0 + n / 0x40)).toNat = 0xC0 + n / 0x40 := toNat_ofNat (by omega)
    refine ⟨_, [_], by rw [if_neg h₁, if_pos h₂], fun r => ?_⟩
    rw [List.singleton_append, front_two (by omega) (by omega) (isTail_ofNat n), hb, bits_ofNat,
      show (0xC0 + n / 0x40) % 0x20 * 0x40 + n % 0x40 = n by omega, hc]
    rfl
  by_cases h₃ : n < 0x10000
  · have hb : (UInt8.ofNat (0xE0 + n / 0x1000)).toNat = 0xE0 + n / 0x1000 := toNat_ofNat (by omega)
    have ht : (UInt8.ofNat (0x80 + n / 0x40 % 0x40)).toNat = 0x80 + n / 0x40 % 0x40 := toNat_ofNat (by omega)
    refine ⟨_, [_, _], by rw [if_neg h₁, if_neg h₂, if_pos h₃], fun r => ?_⟩
    rw [List.cons_append, List.singleton_append, front_three (by omega) (by omega)
      (opens_of_isTail (isTail_ofNat _) (by omega) (by omega) (by omega) (by omega)) (isTail_ofNat n), hb, bits_ofNat,
      bits_ofNat, show (0xE0 + n / 0x1000) % 0x10 * 0x1000 + n / 0x40 % 0x40 * 0x40 + n % 0x40 = n by omega, hc]
    rfl
  · have hb : (UInt8.ofNat (0xF0 + n / 0x40000)).toNat = 0xF0 + n / 0x40000 := toNat_ofNat (by omega)
    have ht : (UInt8.ofNat (0x80 + n / 0x1000 % 0x40)).toNat = 0x80 + n / 0x1000 % 0x40 := toNat_ofNat (by omega)
    refine ⟨_, [_, _, _], by rw [if_neg h₁, if_neg h₂, if_neg h₃], fun r => ?_⟩
    rw [List.cons_append, List.cons_append, List.singleton_append, front_four (by omega) (by omega)
      (opens_of_isTail (isTail_ofNat _) (by omega) (by omega) (by omega) (by omega)) (isTail_ofNat _)
      (isTail_ofNat n), hb, bits_ofNat, bits_ofNat, bits_ofNat,
      show (0xF0 + n / 0x40000) % 0x08 * 0x40000 + n / 0x1000 % 0x40 * 0x1000 + n / 0x40 % 0x40 * 0x40 + n % 0x40 = n
        by omega, hc]
    rfl

/-! ## Text -/

theorem piecesFrom_length : ∀ tail r : List UInt8, piecesFrom tail.length (tail ++ r) = pieces r
  | [], _ => rfl
  | _ :: tail, r => piecesFrom_length tail r

/-- **A character is spelled by its bytes.** -/
theorem pieces_encodeChar (c : Char) (r : List UInt8) :
    pieces (encodeChar c ++ r) = .char c (encodeChar c).length :: pieces r := by
  obtain ⟨b, tail, he, hf⟩ := encodeChar_front c
  rw [he, List.cons_append, pieces, piecesFrom, hf r]
  simp only [piecesFrom_length, List.length_cons]

theorem collect_encode (s : List Char) (i : Nat) : collect i (pieces (encode s)) = .ok s := by
  induction s generalizing i with
  | nil => rfl
  | cons c s ih =>
    rw [encode, List.flatMap_cons, pieces_encodeChar, collect, ← encode, ih]
    rfl

theorem decode_encode (s : List Char) : decode (encode s) = .ok s := collect_encode s 0

theorem decodeLossy_encode (s : List Char) : decodeLossy (encode s) = s := by
  unfold decodeLossy
  induction s with
  | nil => rfl
  | cons c s ih =>
    rw [encode, List.flatMap_cons, pieces_encodeChar, ← encode, List.map_cons, ih]
    rfl

/-! ## What is read is what was written -/

theorem toNat_charOfNat {n : Nat} (h : n.isValidChar) : (Char.ofNat n).toNat = n := by
  unfold Char.ofNat
  rw [dif_pos h]
  rfl

theorem ofNat_eq {b : UInt8} {n : Nat} (h : n = b.toNat) : UInt8.ofNat n = b := by
  rw [h, UInt8.ofNat_toNat]

theorem toNat_of_isTail {t : UInt8} (h : isTail t = true) : t.toNat = 0x80 + bits t ∧ bits t < 0x40 := by
  obtain ⟨hl, hu⟩ := isTail_iff.1 h
  unfold bits
  omega

section Spelling

variable {b t u v : UInt8}

/-- What opens a character after its lead byte is a tail byte, and leaves out overlong forms, surrogates and what is too
large. -/
theorem of_opens (h : opens b t = true) :
    isTail t = true ∧ (b.toNat = 0xE0 → 0xA0 ≤ t.toNat) ∧ (b.toNat = 0xED → t.toNat ≤ 0x9F) ∧
      (b.toNat = 0xF0 → 0x90 ≤ t.toNat) ∧ (b.toNat = 0xF4 → t.toNat ≤ 0x8F) := by
  unfold opens at h
  simp only [← UInt8.toNat_inj, UInt8.reduceToNat] at h
  rw [isTail_iff]
  split at h
  · simp only [Bool.and_eq_true, decide_eq_true_eq, UInt8.le_iff_toNat_le, UInt8.reduceToNat] at h
    omega
  split at h
  · simp only [Bool.and_eq_true, decide_eq_true_eq, UInt8.le_iff_toNat_le, UInt8.reduceToNat] at h
    omega
  split at h
  · simp only [Bool.and_eq_true, decide_eq_true_eq, UInt8.le_iff_toNat_le, UInt8.reduceToNat] at h
    omega
  split at h
  · simp only [Bool.and_eq_true, decide_eq_true_eq, UInt8.le_iff_toNat_le, UInt8.reduceToNat] at h
    omega
  · have := isTail_iff.1 h
    omega

theorem encodeChar_one (hb : b.toNat < 0x80) : encodeChar (Char.ofNat b.toNat) = [b] := by
  unfold encodeChar
  dsimp only
  rw [toNat_charOfNat (.inl (by omega)), if_pos hb, UInt8.ofNat_toNat]

theorem encodeChar_two (hb : 0xC2 ≤ b.toNat) (hb' : b.toNat < 0xE0) (ht : isTail t = true) :
    encodeChar (Char.ofNat (b.toNat % 0x20 * 0x40 + bits t)) = [b, t] := by
  obtain ⟨ht, htl⟩ := toNat_of_isTail ht
  unfold encodeChar
  dsimp only
  rw [toNat_charOfNat (.inl (by omega)), if_neg (by omega), if_pos (by omega), ofNat_eq (b := b) (by omega),
    ofNat_eq (b := t) (by omega)]

theorem encodeChar_three (hb : 0xE0 ≤ b.toNat) (hb' : b.toNat < 0xF0) (ho : opens b t = true) (hu : isTail u = true) :
    encodeChar (Char.ofNat (b.toNat % 0x10 * 0x1000 + bits t * 0x40 + bits u)) = [b, t, u] := by
  obtain ⟨ht, h₁, h₂, _⟩ := of_opens ho
  obtain ⟨ht, htl⟩ := toNat_of_isTail ht
  obtain ⟨hu, hul⟩ := toNat_of_isTail hu
  have hv : (b.toNat % 0x10 * 0x1000 + bits t * 0x40 + bits u).isValidChar := by
    unfold Nat.isValidChar
    omega
  unfold encodeChar
  dsimp only
  rw [toNat_charOfNat hv, if_neg (by omega), if_neg (by omega), if_pos (by omega), ofNat_eq (b := b) (by omega),
    ofNat_eq (b := t) (by omega), ofNat_eq (b := u) (by omega)]

theorem encodeChar_four (hb : 0xF0 ≤ b.toNat) (hb' : b.toNat ≤ 0xF4) (ho : opens b t = true) (hu : isTail u = true)
    (hv : isTail v = true) :
    encodeChar (Char.ofNat (b.toNat % 0x08 * 0x40000 + bits t * 0x1000 + bits u * 0x40 + bits v)) = [b, t, u, v] := by
  obtain ⟨ht, _, _, h₃, h₄⟩ := of_opens ho
  obtain ⟨ht, htl⟩ := toNat_of_isTail ht
  obtain ⟨hu, hul⟩ := toNat_of_isTail hu
  obtain ⟨hv, hvl⟩ := toNat_of_isTail hv
  have hn : (b.toNat % 0x08 * 0x40000 + bits t * 0x1000 + bits u * 0x40 + bits v).isValidChar := by
    unfold Nat.isValidChar
    omega
  unfold encodeChar
  dsimp only
  rw [toNat_charOfNat hn, if_neg (by omega), if_neg (by omega), if_neg (by omega), ofNat_eq (b := b) (by omega),
    ofNat_eq (b := t) (by omega), ofNat_eq (b := u) (by omega), ofNat_eq (b := v) (by omega)]

/-- **A character is read from the bytes that spell it**, and from no others. -/
theorem encodeChar_of_front {r : List UInt8} {c : Char} {n : Nat} (h : front b r = .char c n) :
    ∃ tail rest, r = tail ++ rest ∧ tail.length = n ∧ encodeChar c = b :: tail := by
  unfold front at h
  split at h
  · rename_i h₁
    cases h
    exact ⟨[], r, rfl, rfl, encodeChar_one (UInt8.lt_iff_toNat_lt.1 h₁)⟩
  split at h
  · cases h
  rename_i h₁ h₂
  simp only [UInt8.lt_iff_toNat_lt, Bool.or_eq_true, decide_eq_true_eq, UInt8.reduceToNat, not_or, Nat.not_lt] at h₁ h₂
  match r, h with
  | t :: r, h =>
    dsimp only at h
    split at h
    · cases h
    rename_i ho
    simp only [Bool.not_eq_true', Bool.not_eq_false] at ho
    split at h
    · rename_i h₃
      cases h
      exact ⟨[t], r, rfl, rfl, encodeChar_two h₂.1 (UInt8.lt_iff_toNat_lt.1 h₃) (of_opens ho).1⟩
    rename_i h₃
    simp only [UInt8.lt_iff_toNat_lt, UInt8.reduceToNat, Nat.not_lt] at h₃
    match r, h with
    | u :: r, h =>
      dsimp only at h
      split at h
      · cases h
      rename_i hu
      simp only [Bool.not_eq_true', Bool.not_eq_false] at hu
      split at h
      · rename_i h₄
        cases h
        exact ⟨[t, u], r, rfl, rfl, encodeChar_three h₃ (UInt8.lt_iff_toNat_lt.1 h₄) ho hu⟩
      rename_i h₄
      simp only [UInt8.lt_iff_toNat_lt, UInt8.reduceToNat, Nat.not_lt] at h₄
      match r, h with
      | v :: r, h =>
        dsimp only at h
        split at h
        · cases h
        rename_i hv
        simp only [Bool.not_eq_true', Bool.not_eq_false] at hv
        cases h
        exact ⟨[t, u, v], r, rfl, rfl, encodeChar_four h₄ h₂.2 ho hu hv⟩

theorem encode_of_collect {s : List UInt8} {cs : List Char} {i : Nat} (h : collect i (pieces s) = .ok cs) :
    encode cs = s := by
  match s with
  | [] =>
    cases h
    rfl
  | b :: r =>
    cases hf : front b r with
    | bad n => simp only [pieces, piecesFrom, hf, collect, reduceCtorEq] at h
    | cut => simp only [pieces, piecesFrom, hf, collect, reduceCtorEq] at h
    | char c n =>
      obtain ⟨tail, rest, rfl, rfl, hc⟩ := encodeChar_of_front hf
      rw [pieces, piecesFrom, hf] at h
      simp only [piecesFrom_length, collect] at h
      cases hd : collect (i + (tail.length + 1)) (pieces rest) with
      | error f =>
        rw [hd] at h
        cases h
      | ok ds =>
        rw [hd] at h
        cases h
        have ih : encode ds = rest := encode_of_collect hd
        rw [encode, List.flatMap_cons, hc, ← encode, ih]
        rfl
termination_by s.length

/-- **Bytes are read as a text exactly if they are those of the text.** -/
theorem decode_eq_ok_iff {s : List UInt8} {cs : List Char} : decode s = .ok cs ↔ encode cs = s :=
  ⟨encode_of_collect, fun h => h ▸ decode_encode cs⟩

end Spelling

end LedgerClient.Utf8

namespace LedgerClient

/-- **Text that is written is read back.** -/
theorem text?_utf8 (s : String) : text? (utf8 s) = .ok s := by
  rw [text?, utf8, Utf8.decode_encode]
  exact congrArg Except.ok String.ofList_toList

theorem utf8_inj {s t : String} (h : utf8 s = utf8 t) : s = t := by
  have ht := text?_utf8 t
  rw [← h, text?_utf8] at ht
  exact Except.ok.inj ht

/-- **Bytes are the text that is written as these bytes.** -/
theorem text?_eq_ok_iff {bs : List UInt8} {s : String} : text? bs = .ok s ↔ utf8 s = bs := by
  refine ⟨fun h => ?_, fun h => h ▸ text?_utf8 s⟩
  unfold text? at h
  cases hd : Utf8.decode bs with
  | error f =>
    rw [hd] at h
    cases h
  | ok cs =>
    rw [hd] at h
    cases h
    rw [utf8, String.toList_ofList, Utf8.decode_eq_ok_iff.1 hd]

end LedgerClient
