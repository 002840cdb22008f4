import LedgerClient.Proofs.Document.Reading
/-!
# Values of JSON

`IsValue` says which bytes are a value by themselves, whatever it holds and however deep; strings need only be spelled,
not stand for text.  Of these forms, strings and numbers are skipped as what they are (`Spelled.skipString`,
`skipNumber_append`), and nothing else is (`spelled_of_skipString`, `number_of_skipNumber`).
-/
namespace LedgerClient.Json

/-! ## The form -/

/-- A byte of a string that stands for itself, or an escape, of which one by number may have any four digits. -/
inductive Piece : List UInt8 → Prop where
  | plain {b : UInt8} (h : Plain b) : Piece [b]
  | letter {b c : UInt8} (h : escaped? b = some c) : Piece [backslash, b]
  | number {ds : List UInt8} {n : Nat} (h : Hex4 ds n) : Piece (backslash :: letterU :: ds)

/-- What stands between the quotes of a string, whether it spells a text or not. -/
inductive Spelled : List UInt8 → Prop where
  | nil : Spelled []
  | cons {s r : List UInt8} (h : Piece s) (hr : Spelled r) : Spelled (s ++ r)

def Digits (s : List UInt8) : Prop := s ≠ [] ∧ ∀ b ∈ s, isDigit b = true

def point : UInt8 := 0x2E
def plus : UInt8 := 0x2B
def zero : UInt8 := 0x30

inductive Fraction : List UInt8 → Prop where
  | none : Fraction []
  | some {ds : List UInt8} (h : Digits ds) : Fraction (point :: ds)

inductive Exponent : List UInt8 → Prop where
  | none : Exponent []
  | some {e : UInt8} {sign ds : List UInt8} (he : e = 0x65 ∨ e = 0x45) (hs : sign = [] ∨ sign = [plus] ∨ sign = [minus])
      (h : Digits ds) : Exponent (e :: (sign ++ ds))

/-- A number: no zero stands in front of other digits. -/
inductive IsNumber : List UInt8 → Prop where
  | mk {sign ds f e : List UInt8} (hs : sign = [] ∨ sign = [minus]) (hd : Digits ds)
      (hz : ds.head? = some zero → ds = [zero]) (hf : Fraction f) (he : Exponent e) : IsNumber (sign ++ (ds ++ (f ++ e)))

def null : List UInt8 := [0x6E, 0x75, 0x6C, 0x6C]

mutual

inductive IsValue : List UInt8 → Prop where
  | text {s : List UInt8} (h : Spelled s) : IsValue (quote :: (s ++ [quote]))
  | number {s : List UInt8} (h : IsNumber s) : IsValue s
  | null : IsValue null
  | true : IsValue [0x74, 0x72, 0x75, 0x65]
  | false : IsValue [0x66, 0x61, 0x6C, 0x73, 0x65]
  | noElements {b : List UInt8} (h : Blanks b) : IsValue (openList :: (b ++ [closeList]))
  | list {b s : List UInt8} {vs : List (List UInt8)} (hb : Blanks b) (h : Elements s vs) : IsValue (openList :: (b ++ s))
  | noMembers {b : List UInt8} (h : Blanks b) : IsValue (openObject :: (b ++ [closeObject]))
  | object {b s : List UInt8} {ms : List (List UInt8 × List UInt8)} (hb : Blanks b) (h : Entries s ms) :
      IsValue (openObject :: (b ++ s))

/-- Values, from the first up to the closing bracket. -/
inductive Elements : List UInt8 → List (List UInt8) → Prop where
  | last {v b : List UInt8} (hv : IsValue v) (hb : Blanks b) : Elements (v ++ (b ++ [closeList])) [v]
  | more {v b b' s : List UInt8} {vs : List (List UInt8)} (hv : IsValue v) (hb : Blanks b) (hb' : Blanks b')
      (h : Elements s vs) : Elements (v ++ (b ++ comma :: (b' ++ s))) (v :: vs)

/-- Members, from the first up to the closing brace: what stands between the quotes of each key, and each value. -/
inductive Entries : List UInt8 → List (List UInt8 × List UInt8) → Prop where
  | last {k b b' v b'' : List UInt8} (hk : Spelled k) (hb : Blanks b) (hb' : Blanks b') (hv : IsValue v)
      (hb'' : Blanks b'') :
      Entries (quote :: (k ++ quote :: (b ++ colon :: (b' ++ (v ++ (b'' ++ [closeObject])))))) [(k, v)]
  | more {k b b' v b'' b₀ s : List UInt8} {ms : List (List UInt8 × List UInt8)} (hk : Spelled k) (hb : Blanks b)
      (hb' : Blanks b') (hv : IsValue v) (hb'' : Blanks b'') (hb₀ : Blanks b₀) (h : Entries s ms) :
      Entries (quote :: (k ++ quote :: (b ++ colon :: (b' ++ (v ++ (b'' ++ comma :: (b₀ ++ s))))))) ((k, v) :: ms)

end

/-! ## Strings -/

theorem Spells.piece {s t : List UInt8} (h : Spells s t) : Spelled s := by
  have hone : ∀ {s : List UInt8}, Piece s → Spelled s := fun {s} h => by
    have hs := Spelled.cons h .nil
    rwa [List.append_nil] at hs
  cases h with
  | plain h hq hb => exact hone (.plain ⟨h, hq, hb⟩)
  | letter h => exact hone (.letter h)
  | single h _ _ => exact hone (.number h)
  | halves hm hn _ _ => exact .cons (.number hm) (hone (.number hn))

theorem Spelled.append {s r : List UInt8} (h : Spelled s) (hr : Spelled r) : Spelled (s ++ r) := by
  induction h with
  | nil => exact hr
  | cons h _ ih =>
    rw [List.append_assoc]
    exact .cons h ih

/-- What spells a text can be skipped. -/
theorem Body.spelled {s t : List UInt8} (h : Body s t) : Spelled s := by
  induction h with
  | nil => exact .nil
  | cons h _ ih => exact h.piece.append ih

theorem IsText.isValue {s : List UInt8} {t : String} (h : IsText s t) : IsValue s := by
  obtain ⟨h⟩ := h
  exact .text h.spelled

theorem looseEscape_letterU {ds : List UInt8} {n : Nat} (h : Hex4 ds n) (r : List UInt8) :
    looseEscape (letterU :: (ds ++ r)) = .ok ([], 5) := by
  have he : escaped? letterU = none := by decide
  rw [looseEscape, he]
  dsimp only
  rw [if_pos rfl, h.read]
  rfl

/-- An escape is taken whole. -/
theorem skipString_escape (xs : List UInt8) {t r : List UInt8} (h : looseEscape (xs ++ r) = .ok (t, xs.length)) :
    skipString (backslash :: (xs ++ r)) = skipString r := by
  rw [skipString, skipString, stringFrom, if_neg (by decide), if_pos rfl, h]
  dsimp only
  rw [stringFrom_length]
  cases stringFrom looseEscape 0 r <;> rfl

theorem skipString_plain {b : UInt8} (h : Plain b) (r : List UInt8) : skipString (b :: r) = skipString r := by
  obtain ⟨h, hq, hb⟩ := h
  have hlt : ¬ b < 0x20 := UInt8.not_lt.2 h
  rw [skipString, skipString, stringFrom, if_neg hq, if_neg hb, if_neg hlt]
  cases stringFrom looseEscape 0 r <;> rfl

theorem Piece.skipString {s : List UInt8} (h : Piece s) (r : List UInt8) :
    skipString (s ++ r) = Json.skipString r := by
  cases h with
  | plain h => exact skipString_plain h r
  | @letter b c h =>
    refine skipString_escape [b] (t := [c]) ?_
    rw [List.singleton_append, looseEscape, h]
    rfl
  | @number ds n h =>
    refine skipString_escape (letterU :: ds) (t := []) ?_
    rw [List.cons_append, looseEscape_letterU h, List.length_cons, h.length]

/-- **A string is skipped up to its closing quote.** -/
theorem Spelled.skipString {s : List UInt8} (h : Spelled s) (r : List UInt8) :
    skipString (s ++ quote :: r) = .ok r := by
  induction h with
  | nil => rw [List.nil_append, Json.skipString, stringFrom, if_pos rfl]; rfl
  | cons h _ ih => rw [List.append_assoc, h.skipString, ih]

theorem piece_of_looseEscape {s t : List UInt8} {n : Nat} (h : looseEscape s = .ok (t, n)) :
    ∃ xs r, s = xs ++ r ∧ xs.length = n ∧ Piece (backslash :: xs) := by
  cases s with
  | nil => cases h
  | cons b r =>
    rw [looseEscape] at h
    split at h
    · rename_i c hc
      cases h
      exact ⟨[b], r, rfl, rfl, .letter hc⟩
    split at h
    · rename_i hb
      cases hx : hex4 r with
      | error f =>
        rw [hx] at h
        cases h
      | ok m =>
        rw [hx] at h
        cases h
        obtain ⟨ds, rest, rfl, hm⟩ := hex4_of_read hx
        exact ⟨letterU :: ds, rest, by rw [hb]; rfl, by rw [List.length_cons, hm.length], .number hm⟩
    · cases h

/-- **What is skipped of a string is spelled.** -/
theorem spelled_of_skipString {s r : List UInt8} (h : skipString s = .ok r) :
    ∃ body, s = body ++ quote :: r ∧ Spelled body := by
  match s with
  | [] => cases h
  | b :: s =>
    by_cases hq : b = quote
    · rw [skipString, stringFrom, if_pos hq] at h
      cases h
      exact ⟨[], by rw [hq]; rfl, .nil⟩
    by_cases hb : b = backslash
    · cases he : looseEscape s with
      | error f =>
        rw [skipString, stringFrom, if_neg hq, if_pos hb, he] at h
        cases h
      | ok p =>
        obtain ⟨t, n⟩ := p
        obtain ⟨xs, rest, rfl, rfl, hpiece⟩ := piece_of_looseEscape he
        rw [hb, skipString_escape xs he] at h
        obtain ⟨body, rfl, hspelled⟩ := spelled_of_skipString h
        exact ⟨backslash :: xs ++ body, by rw [hb, List.append_assoc, List.cons_append], .cons hpiece hspelled⟩
    by_cases hlt : b < 0x20
    · rw [skipString, stringFrom, if_neg hq, if_neg hb, if_pos hlt] at h
      cases h
    · have hplain : Plain b := ⟨UInt8.not_lt.1 hlt, hq, hb⟩
      rw [skipString_plain hplain] at h
      obtain ⟨body, rfl, hspelled⟩ := spelled_of_skipString h
      exact ⟨b :: body, rfl, .cons (.plain hplain) hspelled⟩
termination_by s.length

/-! ## Numbers -/

theorem of_isBlank {b : UInt8} (h : isBlank b = true) : b = 0x20 ∨ b = 0x0A ∨ b = 0x09 ∨ b = 0x0D := by
  simpa [isBlank, or_assoc] using h

theorem of_isDigit {b : UInt8} (h : isDigit b = true) :
    isBlank b = false ∧ b ∉ [quote, comma, plus, minus, point, openList, closeList, openObject, closeObject] := by
  have hno : ∀ c, isDigit c = false → b ≠ c := by
    rintro c hc rfl
    cases h.symm.trans hc
  constructor
  · refine Bool.eq_false_iff.2 fun hb => ?_
    rcases of_isBlank hb with hb | hb | hb | hb <;> exact hno _ (by decide) hb
  · simp only [List.mem_cons, List.not_mem_nil, or_false, not_or]
    exact ⟨hno _ (by decide), hno _ (by decide), hno _ (by decide), hno _ (by decide), hno _ (by decide),
      hno _ (by decide), hno _ (by decide), hno _ (by decide), hno _ (by decide)⟩

/-- What does not begin with a digit. -/
def NoDigit (r : List UInt8) : Prop := r.head?.any isDigit = false

/-- Nothing that a number could go on with comes first. -/
def Ends (r : List UInt8) : Prop := ∀ b ∈ r.head?, isDigit b = false ∧ b ≠ point ∧ b ≠ 0x65 ∧ b ≠ 0x45

theorem Ends.noDigit {r : List UInt8} (h : Ends r) : NoDigit r := by
  cases r with
  | nil => rfl
  | cons b r => exact (h b rfl).1

theorem skipDigits_append {ds r : List UInt8} (hd : ∀ b ∈ ds, isDigit b = true) (hr : NoDigit r) :
    skipDigits (ds ++ r) = r := by
  rw [skipDigits, List.dropWhile_append_of_pos hd]
  cases r with
  | nil => rfl
  | cons b r =>
    have hb : isDigit b = false := hr
    rw [List.dropWhile_cons, if_neg (Bool.eq_false_iff.1 hb)]

/-- Digits at the front, as many as there are. -/
theorem exists_digits {s : List UInt8} (h : s.head?.any isDigit = true) :
    ∃ ds, Digits ds ∧ s = ds ++ skipDigits s := by
  refine ⟨s.takeWhile isDigit, ⟨?_, fun b hb => ?_⟩, List.takeWhile_append_dropWhile.symm⟩
  · cases s with
    | nil => cases h
    | cons b s =>
      have hb : isDigit b = true := h
      rw [List.takeWhile_cons, if_pos hb]
      exact List.cons_ne_nil _ _
  · exact List.all_eq_true.1 List.all_takeWhile b hb

theorem Digits.head {ds r : List UInt8} (h : Digits ds) : (ds ++ r).head?.any isDigit = true := by
  obtain ⟨d, ds, rfl⟩ := List.exists_cons_of_ne_nil h.1
  exact h.2 d List.mem_cons_self

/-- A sign, or none, is dropped before digits. -/
theorem skipExponent_append {sign ds r : List UInt8} (hs : sign = [] ∨ sign = [plus] ∨ sign = [minus])
    (hd : Digits ds) (hr : NoDigit r) : skipExponent (sign ++ (ds ++ r)) = .ok r := by
  have hdigits : ∀ {s}, s = ds ++ r → (if s.head?.any isDigit then .ok (skipDigits s) else .error .badNumber) =
      (.ok r : Except Fault (List UInt8)) := by
    rintro _ rfl
    rw [if_pos hd.head, skipDigits_append hd.2 hr]
  rw [skipExponent.eq_def]
  refine hdigits ?_
  rcases hs with rfl | rfl | rfl
  · obtain ⟨d, ds, rfl⟩ := List.exists_cons_of_ne_nil hd.1
    have hmem := (of_isDigit (hd.2 d List.mem_cons_self)).2
    simp only [List.mem_cons, not_or] at hmem
    have hplus : d ≠ 0x2B := hmem.2.2.1
    have hminus : d ≠ minus := hmem.2.2.2.1
    simp [hplus, hminus]
  · rfl
  · rfl

theorem skipTail_append {e r : List UInt8} (he : Exponent e) (hr : Ends r) : skipTail (e ++ r) = .ok r := by
  cases he with
  | none =>
    cases r with
    | nil => rfl
    | cons b r =>
      obtain ⟨-, -, h₁, h₂⟩ := hr b rfl
      simp [skipTail, h₁, h₂]
  | @some e sign ds he hs hd =>
    have hletter : (e = 0x65 || e = 0x45) = true := by simpa using he
    rw [List.cons_append, List.append_assoc, skipTail, if_pos hletter, skipExponent_append hs hd hr.noDigit]

theorem isNumber_tail_noDigit {f e r : List UInt8} (hf : Fraction f) (he : Exponent e) (hr : Ends r) :
    NoDigit (f ++ (e ++ r)) := by
  cases hf with
  | some _ => rfl
  | none =>
    cases he with
    | none => exact hr.noDigit
    | some he _ _ => rcases he with rfl | rfl <;> rfl

/-- **A number is skipped after its sign**, unless what follows it goes on with it. -/
theorem skipNumber_append {ds f e r : List UInt8} (hd : Digits ds) (hz : ds.head? = some zero → ds = [zero])
    (hf : Fraction f) (he : Exponent e) (hr : Ends r) : skipNumber (ds ++ (f ++ (e ++ r))) = .ok r := by
  have htail : NoDigit (f ++ (e ++ r)) := isNumber_tail_noDigit hf he hr
  obtain ⟨d, ds, rfl⟩ := List.exists_cons_of_ne_nil hd.1
  have hdigit : isDigit d = true := hd.2 d List.mem_cons_self
  have hzero : ¬ ((!isDigit d || (d = 0x30 && (ds ++ (f ++ (e ++ r))).head?.any isDigit)) = true) := by
    rw [hdigit]
    intro h
    obtain ⟨h0, h⟩ := by simpa only [Bool.not_true, Bool.false_or, Bool.and_eq_true, decide_eq_true_eq] using h
    obtain rfl : ds = [] := List.tail_eq_of_cons_eq (hz (congrArg some h0))
    exact absurd h (Bool.eq_false_iff.1 htail)
  rw [List.cons_append, skipNumber, if_neg hzero, ← List.cons_append, skipDigits_append hd.2 htail]
  cases hf with
  | some h =>
    rw [List.cons_append]
    dsimp only
    rw [if_pos (by decide : point = 0x2E), if_pos h.head, skipDigits_append h.2, skipTail_append he hr]
    exact isNumber_tail_noDigit .none he hr
  | none =>
    rw [List.nil_append]
    have hskip : skipTail (e ++ r) = .ok r := skipTail_append he hr
    cases hs : e ++ r with
    | nil =>
      rw [hs] at hskip
      exact hskip
    | cons c t =>
      rw [hs] at hskip
      have hpoint : c ≠ 0x2E := by
        cases he with
        | none =>
          obtain rfl : r = c :: t := hs
          exact (hr c rfl).2.1
        | some he _ _ =>
          obtain rfl := (List.cons.inj hs).1
          rcases he with rfl | rfl <;> decide
      dsimp only
      rw [if_neg hpoint, hskip]

theorem exponent_of_skipTail {s r : List UInt8} (h : skipTail s = .ok r) : ∃ e, s = e ++ r ∧ Exponent e := by
  cases s with
  | nil =>
    cases h
    exact ⟨[], rfl, .none⟩
  | cons b s =>
    rw [skipTail] at h
    split at h
    · rename_i hb
      have hletter : b = 0x65 ∨ b = 0x45 := by simpa using hb
      obtain ⟨sign, t, rfl, hs, ht⟩ : ∃ sign t, s = sign ++ t ∧ (sign = [] ∨ sign = [plus] ∨ sign = [minus]) ∧
          (if t.head?.any isDigit then .ok (skipDigits t) else .error .badNumber) =
            (.ok r : Except Fault (List UInt8)) := by
        rw [skipExponent.eq_def] at h
        dsimp only at h
        split at h
        · rename_i c t
          split at h
          · rename_i hc
            have hsign : c = 0x2B ∨ c = minus := by simpa using hc
            exact ⟨[c], t, rfl, .inr (hsign.imp (congrArg ([·])) (congrArg ([·]))), h⟩
          · exact ⟨[], c :: t, rfl, .inl rfl, h⟩
        · exact ⟨[], [], rfl, .inl rfl, h⟩
      split at ht
      · rename_i hdigit
        obtain ⟨ds, hds, he⟩ := exists_digits hdigit
        cases ht
        exact ⟨b :: (sign ++ ds), by rw [List.cons_append, List.append_assoc, ← he], .some hletter hs hds⟩
      · cases ht
    · cases h
      exact ⟨[], rfl, .none⟩

/-- **What is skipped as a number is one.** -/
theorem number_of_skipNumber {s r : List UInt8} (h : skipNumber s = .ok r) :
    ∃ ds f e, s = ds ++ (f ++ (e ++ r)) ∧ Digits ds ∧ (ds.head? = some zero → ds = [zero]) ∧ Fraction f ∧
      Exponent e := by
  cases s with
  | nil => cases h
  | cons b s =>
    rw [skipNumber] at h
    split at h
    · cases h
    rename_i hb
    obtain ⟨hdigit, hzero⟩ : isDigit b = true ∧ (b = zero → NoDigit s) := by
      simpa [NoDigit, zero] using hb
    obtain ⟨ds, hds, he⟩ := exists_digits (s := b :: s) hdigit
    have hz : ds.head? = some zero → ds = [zero] := by
      obtain ⟨d, ds, rfl⟩ := List.exists_cons_of_ne_nil hds.1
      obtain ⟨rfl, hs⟩ := List.cons.inj he
      intro h
      obtain rfl := Option.some.inj h
      cases ds with
      | nil => rfl
      | cons c ds =>
        have hno : NoDigit s := hzero rfl
        rw [hs] at hno
        cases hno.symm.trans (hds.2 c (List.mem_cons_of_mem _ List.mem_cons_self))
    cases hr : skipDigits (b :: s) with
    | nil =>
      rw [hr] at h he
      cases h
      exact ⟨ds, [], [], he, hds, hz, .none, .none⟩
    | cons c t =>
      rw [hr] at h he
      dsimp only at h
      split at h
      · rename_i hc
        split at h
        · rename_i hfraction
          obtain ⟨fs, hfs, ht⟩ := exists_digits hfraction
          obtain ⟨e, hskip, hexp⟩ := exponent_of_skipTail h
          refine ⟨ds, point :: fs, e, ?_, hds, hz, .some hfs, hexp⟩
          rw [he, List.cons_append, ← hskip, ← ht, hc]
          rfl
        · cases h
      · obtain ⟨e, hskip, hexp⟩ := exponent_of_skipTail h
        exact ⟨ds, [], e, by rw [he, hskip]; rfl, hds, hz, .none, hexp⟩

end LedgerClient.Json
