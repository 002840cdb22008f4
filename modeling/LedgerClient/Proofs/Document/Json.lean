import LedgerClient.Document.Json.Reader
import LedgerClient.Document.Json.Writer
import LedgerClient.Proofs.Sequence
import LedgerClient.Proofs.Text.Hex
/-!
# Objects of strings

`IsObject` says which bytes are a JSON object whose values are all strings, and which pairs it holds: with blanks
wherever they may stand, and every way to spell a character.  Its strings are read as their texts (`Body.read`,
`IsText.readText`), and what is written is such an object (`isObject_writeCompact`, `isObject_writeIndented`).
-/
namespace LedgerClient.Json

/-! ## The form -/

/-- Nothing but blanks. -/
def Blanks (s : List UInt8) : Prop := ∀ b ∈ s, isBlank b = true

/-- Four hexadecimal digits and the number they stand for. -/
inductive Hex4 : List UInt8 → Nat → Prop where
  | mk {a b c d : UInt8} {w x y z : Nat} (ha : Hex.digit? a = some w) (hb : Hex.digit? b = some x)
      (hc : Hex.digit? c = some y) (hd : Hex.digit? d = some z) :
      Hex4 [a, b, c, d] (w * 4096 + x * 256 + y * 16 + z)

/-- What stands for a few bytes of a string: a byte itself, an escape of one letter, or one or two escapes by number. -/
inductive Spells : List UInt8 → List UInt8 → Prop where
  | plain {b : UInt8} (h : 0x20 ≤ b) (hq : b ≠ quote) (hb : b ≠ backslash) : Spells [b] [b]
  | letter {b c : UInt8} (h : escaped? b = some c) : Spells [backslash, b] [c]
  | single {ds : List UInt8} {n : Nat} (h : Hex4 ds n) (hl : isLow n = false) (hh : isHigh n = false) :
      Spells (backslash :: letterU :: ds) (Utf8.encodeChar (Char.ofNat n))
  | halves {ds es : List UInt8} {m n : Nat} (hm : Hex4 ds m) (hn : Hex4 es n) (hh : isHigh m = true)
      (hl : isLow n = true) :
      Spells (backslash :: letterU :: (ds ++ backslash :: letterU :: es))
        (Utf8.encodeChar (Char.ofNat ((m - 0xD800) * 0x400 + (n - 0xDC00) + 0x10000)))

/-- What stands between the quotes of a string with these bytes. -/
inductive Body : List UInt8 → List UInt8 → Prop where
  | nil : Body [] []
  | cons {s t r u : List UInt8} (h : Spells s t) (hr : Body r u) : Body (s ++ r) (t ++ u)

inductive IsText : List UInt8 → String → Prop where
  | mk {body : List UInt8} {t : String} (h : Body body (utf8 t)) : IsText (quote :: (body ++ [quote])) t

inductive IsMember : List UInt8 → String × String → Prop where
  | mk {k b b' v : List UInt8} {key value : String} (hk : IsText k key) (hb : Blanks b) (hb' : Blanks b')
      (hv : IsText v value) : IsMember (k ++ (b ++ colon :: (b' ++ v))) (key, value)

/-- Members, from the first key up to the closing brace. -/
inductive Members : List UInt8 → List (String × String) → Prop where
  | last {s b : List UInt8} {p : String × String} (h : IsMember s p) (hb : Blanks b) :
      Members (s ++ (b ++ [closeObject])) [p]
  | more {s b b' r : List UInt8} {p : String × String} {ps : List (String × String)} (h : IsMember s p)
      (hb : Blanks b) (hb' : Blanks b') (hr : Members r ps) : Members (s ++ (b ++ comma :: (b' ++ r))) (p :: ps)

/-- An object of strings by itself, and its pairs in the order of the text. -/
inductive IsObject : List UInt8 → List (String × String) → Prop where
  | empty {b₀ b₁ b₂ : List UInt8} (h₀ : Blanks b₀) (h₁ : Blanks b₁) (h₂ : Blanks b₂) :
      IsObject (b₀ ++ openObject :: (b₁ ++ closeObject :: b₂)) []
  | members {b₀ b₁ b₂ s : List UInt8} {ps : List (String × String)} (h₀ : Blanks b₀) (h₁ : Blanks b₁) (h₂ : Blanks b₂)
      (h : Members s ps) : IsObject (b₀ ++ openObject :: (b₁ ++ (s ++ b₂))) ps

/-! ## Reading strings -/

theorem dropBlanks_blanks {s : List UInt8} (h : Blanks s) : dropBlanks s = [] := by
  induction s with
  | nil => rfl
  | cons b s ih =>
    rw [dropBlanks, List.dropWhile_cons, if_pos (h b List.mem_cons_self)]
    exact ih fun c hc => h c (List.mem_cons_of_mem _ hc)

theorem dropBlanks_append {s : List UInt8} (h : Blanks s) {x : UInt8} (hx : isBlank x = false) (r : List UInt8) :
    dropBlanks (s ++ x :: r) = x :: r := by
  induction s with
  | nil => rw [List.nil_append, dropBlanks, List.dropWhile_cons, if_neg (by rw [hx]; exact Bool.false_ne_true)]
  | cons b s ih =>
    rw [List.cons_append, dropBlanks, List.dropWhile_cons, if_pos (h b List.mem_cons_self)]
    exact ih fun c hc => h c (List.mem_cons_of_mem _ hc)

theorem Hex4.read {ds : List UInt8} {n : Nat} (h : Hex4 ds n) (r : List UInt8) : hex4 (ds ++ r) = .ok n := by
  obtain ⟨ha, hb, hc, hd⟩ := h
  simp only [List.cons_append, hex4, ha, hb, hc, hd]

theorem Hex4.length {ds : List UInt8} {n : Nat} (h : Hex4 ds n) : ds.length = 4 := by
  cases h
  rfl

theorem escape_letterU (r : List UInt8) : escape (letterU :: r) = unicodeEscape r := rfl

theorem not_low_of_high {n : Nat} (h : isHigh n = true) : isLow n = false := by
  simp only [isHigh, isLow, Bool.and_eq_true, decide_eq_true_eq, Bool.and_eq_false_iff, decide_eq_false_iff_not] at *
  omega

theorem stringFrom_length (esc : List UInt8 → Except Fault (List UInt8 × Nat)) :
    ∀ xs r : List UInt8, stringFrom esc xs.length (xs ++ r) = stringFrom esc 0 r
  | [], _ => rfl
  | _ :: xs, r => stringFrom_length esc xs r

/-- An escape is taken whole. -/
theorem stringFrom_escape (xs : List UInt8) {t r : List UInt8} (h : escape (xs ++ r) = .ok (t, xs.length)) :
    stringFrom escape 0 (backslash :: (xs ++ r)) = (stringFrom escape 0 r).map fun (u, v) => (t ++ u, v) := by
  rw [stringFrom, if_neg (by decide), if_pos rfl, h]
  simp only [stringFrom_length]

theorem Spells.read {s t : List UInt8} (h : Spells s t) (r : List UInt8) :
    stringFrom escape 0 (s ++ r) = (stringFrom escape 0 r).map fun (u, v) => (t ++ u, v) := by
  cases h with
  | @plain b h hq hb =>
    have hlt : ¬ b < 0x20 := fun hl => absurd (UInt8.lt_iff_toNat_lt.1 hl) (Nat.not_lt.2 (UInt8.le_iff_toNat_le.1 h))
    rw [List.singleton_append, stringFrom, if_neg hq, if_neg hb, if_neg hlt]
    rfl
  | @letter b c h =>
    refine stringFrom_escape [b] ?_
    rw [List.singleton_append, escape, h]
    rfl
  | @single ds n h hl hh =>
    refine stringFrom_escape (letterU :: ds) ?_
    rw [List.cons_append, escape_letterU, unicodeEscape, h.read, List.length_cons, h.length]
    simp only [ok_bind, hl, hh, Bool.false_eq_true, ↓reduceIte]
  | @halves ds es m n hm hn hh hl =>
    have hlow : isLow m = false := not_low_of_high hh
    refine stringFrom_escape (letterU :: (ds ++ backslash :: letterU :: es)) ?_
    rw [List.cons_append, escape_letterU, unicodeEscape, List.append_assoc, hm.read]
    have hdrop : (ds ++ (backslash :: letterU :: es ++ r)).drop 4 = backslash :: letterU :: (es ++ r) := by
      rw [← hm.length, List.drop_left, List.cons_append, List.cons_append]
    simp only [ok_bind, hlow, hh, hdrop, Bool.false_eq_true, ↓reduceIte, List.length_cons, List.length_append,
      hm.length, hn.length]
    rw [lowHalf]
    simp only [ne_eq, not_true_eq_false, ↓reduceIte, hn.read, ok_bind, hl]

/-- **A string is read up to its closing quote.** -/
theorem Body.read {s t : List UInt8} (h : Body s t) (r : List UInt8) :
    stringFrom escape 0 (s ++ quote :: r) = .ok (t, r) := by
  induction h with
  | nil => rw [List.nil_append, stringFrom, if_pos rfl]
  | cons h _ ih =>
    rw [List.append_assoc, h.read, ih]
    rfl

theorem Body.readString {s : List UInt8} {t : String} (h : Body s (utf8 t)) (r : List UInt8) :
    readString (s ++ quote :: r) = .ok (t, r) := by
  rw [Json.readString, h.read, ok_bind]
  dsimp only
  rw [utf8, Utf8.decode_encode]
  exact congrArg (fun u => Except.ok (u, r)) String.ofList_toList

theorem IsText.readText {s : List UInt8} {t : String} (h : IsText s t) {b : List UInt8} (hb : Blanks b)
    (r : List UInt8) : readText (b ++ (s ++ r)) = .ok (t, r) := by
  obtain ⟨h⟩ := h
  rw [Json.readText, List.cons_append, List.append_assoc, List.singleton_append, dropBlanks_append hb (by decide)]
  exact (if_pos rfl).trans (h.readString r)

/-! ## Reading members -/

theorem dropColon_blanks {b : List UInt8} (hb : Blanks b) (r : List UInt8) : dropColon (b ++ colon :: r) = .ok r := by
  rw [dropColon, dropBlanks_append hb (by decide)]
  exact if_pos rfl

theorem nextKey_first {b : List UInt8} (hb : Blanks b) (rest : List UInt8) :
    nextKey true (b ++ quote :: rest) = .ok (.item rest) := by
  rw [nextKey, dropBlanks_append hb (by decide)]
  rfl

theorem nextKey_comma {b b' : List UInt8} (hb : Blanks b) (hb' : Blanks b') (rest : List UInt8) :
    nextKey false (b ++ comma :: (b' ++ quote :: rest)) = .ok (.item rest) := by
  rw [nextKey, dropBlanks_append hb (by decide)]
  dsimp only
  rw [dropBlanks_append hb' (by decide)]
  rfl

theorem nextKey_close {b : List UInt8} (hb : Blanks b) (first : Bool) (r : List UInt8) :
    nextKey first (b ++ closeObject :: r) = .ok (.close r) := by
  rw [nextKey, dropBlanks_append hb (by decide)]
  exact if_pos rfl

theorem members_close {σ : Type} (member : σ → String → List UInt8 → Except Fault (σ × List UInt8)) (n : Nat)
    {first : Bool} (st : σ) {s r : List UInt8} (h : nextKey first s = .ok (.close r)) :
    members member (n + 1) first st s = .ok (st, r) := by
  rw [members, h]
  rfl

theorem members_item {σ : Type} (member : σ → String → List UInt8 → Except Fault (σ × List UInt8)) (n : Nat)
    {first : Bool} (st : σ) {s rest : List UInt8} (h : nextKey first s = .ok (.item rest)) :
    members member (n + 1) first st s = (readString rest >>= fun (key, r) => member st key r) >>= fun (st, r) =>
      members member n false st r := by
  rw [members, h, bind_assoc]
  rfl

/-! ## Writing -/

theorem Body.append {s t r u : List UInt8} (h : Body s t) (h' : Body r u) : Body (s ++ r) (t ++ u) := by
  induction h with
  | nil => exact h'
  | cons h _ ih =>
    rw [List.append_assoc, List.append_assoc]
    exact .cons h ih

theorem Spells.body {s t : List UInt8} (h : Spells s t) : Body s t := by
  have hb := Body.cons h .nil
  rwa [List.append_nil, List.append_nil] at hb

/-- A byte that stands for itself. -/
def Plain (b : UInt8) : Prop := 0x20 ≤ b ∧ b ≠ quote ∧ b ≠ backslash

theorem body_plain {s : List UInt8} (h : ∀ b ∈ s, Plain b) : Body s s := by
  induction s with
  | nil => exact .nil
  | cons b s ih =>
    obtain ⟨h₁, h₂, h₃⟩ := h b List.mem_cons_self
    exact .cons (.plain h₁ h₂ h₃) (ih fun c hc => h c (List.mem_cons_of_mem _ hc))

theorem plain_ofNat {n : Nat} (h : n < 256) (h₁ : 0x20 ≤ n) (h₂ : n ≠ 0x22) (h₃ : n ≠ 0x5C) :
    Plain (UInt8.ofNat n) := by
  have hn : (UInt8.ofNat n).toNat = n := Utf8.toNat_ofNat h
  refine ⟨UInt8.le_iff_toNat_le.2 (by rw [hn]; exact h₁), fun he => h₂ ?_, fun he => h₃ ?_⟩
  · rw [← hn, he]
    rfl
  · rw [← hn, he]
    rfl

/-- Characters that are not escaped stand for themselves, whatever the number of their bytes. -/
theorem plain_encodeChar {c : Char} (h₁ : 0x20 ≤ c.toNat) (h₂ : c.toNat ≠ 0x22) (h₃ : c.toNat ≠ 0x5C) :
    ∀ b ∈ Utf8.encodeChar c, Plain b := by
  have hv := Utf8.toNat_valid c
  unfold Utf8.encodeChar
  generalize c.toNat = n at hv h₁ h₂ h₃
  have hcons : ∀ {m : Nat} {s : List UInt8}, 0x80 ≤ m → m < 256 → (∀ b ∈ s, Plain b) →
      ∀ b ∈ UInt8.ofNat m :: s, Plain b := by
    rintro m s hm hm' hs b (_ | ⟨_, hb⟩)
    · exact plain_ofNat hm' (by omega) (by omega) (by omega)
    · exact hs b hb
  dsimp only
  split
  · intro b hb
    rw [List.mem_singleton.1 hb]
    exact plain_ofNat (by omega) h₁ h₂ h₃
  split
  · exact hcons (by omega) (by omega) (hcons (by omega) (by omega) nofun)
  split
  · exact hcons (by omega) (by omega) (hcons (by omega) (by omega) (hcons (by omega) (by omega) nofun))
  · exact hcons (by omega) (by omega) (hcons (by omega) (by omega) (hcons (by omega) (by omega)
      (hcons (by omega) (by omega) nofun)))

theorem hex4_control {n : Nat} (h : n < 0x20) :
    Hex4 (Utf8.encode ['0', '0', Hex.digit (n / 16), Hex.digit (n % 16)]) n := by
  obtain ⟨x, hx, hdx⟩ := Hex.encodeChar_digit (n := n / 16) (by omega)
  obtain ⟨y, hy, hdy⟩ := Hex.encodeChar_digit (n := n % 16) (by omega)
  have h0 : Hex.digit? 0x30 = some 0 := by decide
  have he : Utf8.encode ['0', '0', Hex.digit (n / 16), Hex.digit (n % 16)] = [0x30, 0x30, x, y] := by
    simp only [Utf8.encode, List.flatMap_cons, List.flatMap_nil, hx, hy]
    rfl
  have hn : 0 * 4096 + 0 * 256 + n / 16 * 16 + n % 16 = n := by omega
  rw [he]
  have hex := Hex4.mk h0 h0 hdx hdy
  rwa [hn] at hex

/-- **Every character is spelled as it is written.** -/
theorem body_escapeChar (c : Char) : Body (Utf8.encode (escapeChar c)) (Utf8.encodeChar c) := by
  have hletter : ∀ {b d : UInt8}, escaped? b = some d → Body [backslash, b] [d] := fun h => (Spells.letter h).body
  unfold escapeChar
  split
  · rename_i h
    subst h
    exact hletter (by decide)
  rename_i hquote
  split
  · rename_i h
    subst h
    exact hletter (by decide)
  rename_i hback
  iterate 5
    split
    · rename_i h
      subst h
      exact hletter (by decide)
  split
  · rename_i h
    have hx := hex4_control h
    have hs := Spells.single hx (by simp [isLow]; omega) (by simp [isHigh]; omega)
    rw [Char.ofNat_toNat] at hs
    exact hs.body
  · rename_i h
    have hne : ∀ {d : Char}, c ≠ d → c.toNat ≠ d.toNat := fun h he => h (Char.toNat_inj.1 he)
    rw [Utf8.encode, List.flatMap_cons, List.flatMap_nil, List.append_nil]
    exact body_plain (plain_encodeChar (Nat.not_lt.1 h) (hne hquote) (hne hback))

theorem body_escape (s : List Char) : Body (Utf8.encode (s.flatMap escapeChar)) (Utf8.encode s) := by
  induction s with
  | nil => exact .nil
  | cons c s ih =>
    have h := (body_escapeChar c).append ih
    rwa [Utf8.encode, List.flatMap_cons, List.flatMap_append]

theorem isText_writeText (s : List Char) : IsText (Utf8.encode (writeText s)) (String.ofList s) := by
  have h : Body (Utf8.encode (s.flatMap escapeChar)) (utf8 (String.ofList s)) := by
    rw [utf8, String.toList_ofList]
    exact body_escape s
  have he : Utf8.encode (writeText s) = quote :: (Utf8.encode (s.flatMap escapeChar) ++ [quote]) := by
    rw [writeText, Utf8.encode, List.cons_append, List.flatMap_cons, List.flatMap_append]
    rfl
  rw [he]
  exact .mk h

/-- The pair that a member written from two lists of characters holds. -/
def textPair (p : List Char × List Char) : String × String := (String.ofList p.1, String.ofList p.2)

theorem blanks_nil : Blanks [] := nofun

/-- A pair with blanks before its key and before its value. -/
def padded (pad gap : List Char) (p : List Char × List Char) : List Char :=
  pad ++ (writeText p.1 ++ ':' :: (gap ++ writeText p.2))

section Padded

variable {pad gap close : List Char}

theorem isMember_padded (hgap : Blanks (Utf8.encode gap)) (p : List Char × List Char) :
    IsMember (Utf8.encode (writeText p.1 ++ ':' :: (gap ++ writeText p.2))) (textPair p) := by
  have he : Utf8.encode (writeText p.1 ++ ':' :: (gap ++ writeText p.2)) =
      Utf8.encode (writeText p.1) ++ ([] ++ colon :: (Utf8.encode gap ++ Utf8.encode (writeText p.2))) := by
    simp only [Utf8.encode, List.flatMap_append, List.flatMap_cons]
    rfl
  rw [he]
  exact .mk (isText_writeText p.1) blanks_nil hgap (isText_writeText p.2)

/-- Written pairs are members once the blanks before the first are taken. -/
theorem members_padded (hpad : Blanks (Utf8.encode pad)) (hgap : Blanks (Utf8.encode gap))
    (hclose : Blanks (Utf8.encode close)) (p : List Char × List Char) (ps : List (List Char × List Char)) :
    ∃ s, Members s ((p :: ps).map textPair) ∧
      Utf8.encode ([','].intercalate ((p :: ps).map (padded pad gap)) ++ (close ++ ['}'])) = Utf8.encode pad ++ s := by
  induction ps generalizing p with
  | nil =>
    refine ⟨_, .last (isMember_padded hgap p) hclose, ?_⟩
    rw [List.map_singleton, List.intercalate_singleton, padded]
    simp only [Utf8.encode, List.flatMap_append, List.append_assoc]
    rfl
  | cons q ps ih =>
    obtain ⟨s, hs, he⟩ := ih q
    refine ⟨_, .more (isMember_padded hgap p) blanks_nil hpad hs, ?_⟩
    rw [List.map_cons, List.map_cons, List.intercalate_cons_cons, ← List.map_cons, padded, ← he]
    simp only [Utf8.encode, List.flatMap_append, List.flatMap_cons, List.append_assoc]
    rfl

theorem isObject_padded (hpad : Blanks (Utf8.encode pad)) (hgap : Blanks (Utf8.encode gap))
    (hclose : Blanks (Utf8.encode close)) (p : List Char × List Char) (ps : List (List Char × List Char)) :
    IsObject (Utf8.encode ('{' :: ([','].intercalate ((p :: ps).map (padded pad gap)) ++ (close ++ ['}']))))
      ((p :: ps).map textPair) := by
  obtain ⟨s, hs, he⟩ := members_padded hpad hgap hclose p ps
  have h := IsObject.members blanks_nil hpad blanks_nil hs
  rw [List.append_nil, ← he] at h
  exact h

end Padded

/-- **What is written is an object of the pairs it was written from.** -/
theorem isObject_writeCompact (ps : List (List Char × List Char)) :
    IsObject (Utf8.encode (writeCompact ps)) (ps.map textPair) := by
  cases ps with
  | nil => exact .empty blanks_nil blanks_nil blanks_nil
  | cons p ps => exact @isObject_padded [] [] [] blanks_nil blanks_nil blanks_nil p ps

/-- **So is what is written with a pair on each line.** -/
theorem isObject_writeIndented (ps : List (List Char × List Char)) :
    IsObject (Utf8.encode (writeIndented ps)) (ps.map textPair) := by
  cases ps with
  | nil => exact .empty blanks_nil blanks_nil blanks_nil
  | cons p ps =>
    have hindent : Blanks (Utf8.encode ['\n', ' ', ' ']) := List.all_eq_true.1 (by decide)
    have hgap : Blanks (Utf8.encode [' ']) := List.all_eq_true.1 (by decide)
    have hline : Blanks (Utf8.encode ['\n']) := List.all_eq_true.1 (by decide)
    exact isObject_padded hindent hgap hline p ps

end LedgerClient.Json
