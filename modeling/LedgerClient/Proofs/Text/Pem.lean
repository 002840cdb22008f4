import LedgerClient.Text.Pem
/-!
# Sections and what stands around them

A section is read from its opening line to its closing mark, and leaves its item whatever comes after it
(`Section.read_text`).  Stray lines and sections of other kinds before it leave their own items, if any, and nothing
else: no label and no line is carried over (`Preface.read`).
-/
namespace LedgerClient.Pem

/-! ## Lines -/

/-- A line up to its end, which is one byte. -/
inductive IsLine : List UInt8 → Prop where
  | mk {text : List UInt8} {e : UInt8} (ht : ∀ b ∈ text, isLineEnd b = false) (he : isLineEnd e = true) :
      IsLine (text ++ [e])

theorem linesFrom_append {text : List UInt8} (h : ∀ b ∈ text, isLineEnd b = false) (line r : List UInt8) :
    linesFrom line (text ++ r) = linesFrom (text.reverse ++ line) r := by
  induction text generalizing line with
  | nil => rfl
  | cons b text ih =>
    have hb : isLineEnd b = false := h b List.mem_cons_self
    rw [List.cons_append, linesFrom, if_neg (by rw [hb]; exact Bool.false_ne_true),
      ih fun c hc => h c (List.mem_cons_of_mem _ hc), List.reverse_cons, List.append_assoc, List.singleton_append]

/-- A line that was begun is the first, up to where it ends. -/
theorem linesFrom_begun {line : List UInt8} (h : line ≠ []) (r : List UInt8) :
    ∃ more rest, linesFrom line r = (line.reverse ++ more) :: rest := by
  induction r generalizing line with
  | nil =>
    refine ⟨[], [], ?_⟩
    rw [linesFrom, if_neg (by simpa using h), List.append_nil]
  | cons b r ih =>
    rw [linesFrom]
    split
    · exact ⟨[b], linesFrom [] r, by rw [List.reverse_cons]⟩
    · obtain ⟨more, rest, hr⟩ := ih (List.cons_ne_nil b line)
      exact ⟨b :: more, rest, by rw [hr, List.reverse_cons, List.append_assoc, List.singleton_append]⟩

theorem lines_line {l : List UInt8} (h : IsLine l) (r : List UInt8) : lines (l ++ r) = l :: lines r := by
  obtain ⟨ht, he⟩ := h
  rw [lines, List.append_assoc, linesFrom_append ht, List.singleton_append, linesFrom, if_pos he, List.append_nil,
    List.reverse_cons, List.reverse_reverse, lines]

theorem lines_flatten {ls : List (List UInt8)} (h : ∀ l ∈ ls, IsLine l) (r : List UInt8) :
    lines (ls.flatten ++ r) = ls ++ lines r := by
  induction ls with
  | nil => rfl
  | cons l ls ih =>
    rw [List.flatten_cons, List.append_assoc, lines_line (h l List.mem_cons_self),
      ih fun l' hl' => h l' (List.mem_cons_of_mem _ hl'), List.cons_append]

/-- Text in which no line ends before the last byte is where the first line begins. -/
theorem lines_unended {text : List UInt8} (h : text ≠ []) (he : ∀ b ∈ text.dropLast, isLineEnd b = false)
    (r : List UInt8) : ∃ more rest, lines (text ++ r) = (text ++ more) :: rest := by
  have ht : text = text.dropLast ++ [text.getLast h] := (List.dropLast_concat_getLast h).symm
  by_cases hl : isLineEnd (text.getLast h) = true
  · have hline : IsLine text := by
      rw [ht]
      exact .mk he hl
    exact ⟨[], lines r, by rw [lines_line hline, List.append_nil]⟩
  · have hall : ∀ b ∈ text, isLineEnd b = false := by
      intro b hb
      rw [ht, List.mem_append, List.mem_singleton] at hb
      rcases hb with hb | rfl
      · exact he b hb
      · simpa using hl
    rw [lines, linesFrom_append hall, List.append_nil]
    have hne : text.reverse ≠ [] := by simpa using h
    obtain ⟨more, rest, hr⟩ := linesFrom_begun hne r
    exact ⟨more, rest, by rw [hr, List.reverse_reverse]⟩

/-! ## Marks -/

/-- The line opens a section with this label. -/
def Opens (label line : List UInt8) : Prop := startMark.isPrefixOf line = true ∧ label? line = some label

/-- The line neither opens a section nor closes one with this label. -/
def Inside (label line : List UInt8) : Prop :=
  startMark.isPrefixOf line = false ∧ (endMark label).isPrefixOf line = false

instance (label line : List UInt8) : Decidable (Opens label line) := inferInstanceAs (Decidable (_ ∧ _))

instance (label line : List UInt8) : Decidable (Inside label line) := inferInstanceAs (Decidable (_ ∧ _))

theorem getElem?_of_isPrefixOf {mark l : List UInt8} {n : Nat} {b : UInt8} (h : mark.isPrefixOf l = true)
    (hb : mark[n]? = some b) : l[n]? = some b := by
  obtain ⟨r, rfl⟩ := List.isPrefixOf_iff_prefix.1 h
  rw [List.getElem?_append_left (List.getElem?_eq_some_iff.1 hb).1, hb]

theorem isPrefixOf_append {mark line : List UInt8} (h : mark.isPrefixOf line = true) (r : List UInt8) :
    mark.isPrefixOf (line ++ r) = true :=
  List.isPrefixOf_iff_prefix.2 ((List.isPrefixOf_iff_prefix.1 h).trans (List.prefix_append _ _))

/-- A line that closes a section has an E where one that opens a section has a B. -/
theorem getElem?_of_endMark {label l : List UInt8} (h : (endMark label).isPrefixOf l = true) :
    l[5]? = some 0x45 := by
  refine getElem?_of_isPrefixOf h ?_
  rw [endMark, List.append_assoc]
  exact getElem?_of_isPrefixOf (List.isPrefixOf_iff_prefix.2 (List.prefix_append _ _)) (by decide)

theorem not_startMark {label l : List UInt8} (h : (endMark label).isPrefixOf l = true) :
    startMark.isPrefixOf l = false := by
  rw [Bool.eq_false_iff]
  intro hs
  have hB : l[5]? = some 0x42 := getElem?_of_isPrefixOf hs (by decide)
  rw [getElem?_of_endMark h] at hB
  cases hB

/-! ## Scanning -/

theorem scan_opening {label line : List UInt8} (h : Opens label line) (s : Option (List UInt8))
    (body rest : List (List UInt8)) : scan s body (line :: rest) = scan (some label) body rest := by
  cases s <;> rw [scan, if_pos h.1, h.2]

theorem scan_stray {line : List UInt8} (h : startMark.isPrefixOf line = false) (body rest : List (List UInt8)) :
    scan none body (line :: rest) = scan none body rest := by
  rw [scan, if_neg (by rw [h]; exact Bool.false_ne_true)]

theorem scan_inside {label : List UInt8} {ls : List (List UInt8)} (h : ∀ l ∈ ls, Inside label l)
    (body rest : List (List UInt8)) :
    scan (some label) body (ls ++ rest) = scan (some label) (ls.reverse ++ body) rest := by
  induction ls generalizing body with
  | nil => rfl
  | cons l ls ih =>
    obtain ⟨hs, he⟩ := h l List.mem_cons_self
    rw [List.cons_append, scan, if_neg (by rw [hs]; exact Bool.false_ne_true)]
    simp only [he, Bool.false_eq_true, ↓reduceIte]
    rw [ih fun l' hl' => h l' (List.mem_cons_of_mem _ hl'), List.reverse_cons, List.append_assoc,
      List.singleton_append]

/-! ## Sections -/

/-- One complete section, as it stands in a file. -/
structure Section (label : List UInt8) where
  opening : List UInt8
  body : List (List UInt8)
  /-- The closing mark and what else there is on its line, perhaps without a line end. -/
  closing : List UInt8
  opening_line : IsLine opening
  opens : Opens label opening
  body_lines : ∀ l ∈ body, IsLine l
  inside : ∀ l ∈ body, Inside label l
  closes : (endMark label).isPrefixOf closing = true
  unended : ∀ b ∈ closing.dropLast, isLineEnd b = false

namespace Section

variable {label : List UInt8} (s : Section label)

def text : List UInt8 := s.opening ++ s.body.flatten ++ s.closing

/-- What the section holds. -/
def contents : Except Base64.Fault (List UInt8) := Base64.decode s.body.flatten

/-- What a section of this kind leaves. -/
def item (k : Kind) : Except Fault Item := (s.contents.mapError Fault.base64).map (Item.mk k)

theorem closing_ne_nil : s.closing ≠ [] := by
  intro h
  have hE := getElem?_of_endMark s.closes
  rw [h] at hE
  cases hE

/-- How reading goes on from the closing line, which may go on itself. -/
theorem read_closing (more : List UInt8) (rest : List (List UInt8)) :
    scan none [] (s.opening :: (s.body ++ (s.closing ++ more) :: rest)) =
      match Kind.ofLabel? label with
      | none => scan none [] rest
      | some k => match s.contents with
        | .error f => [.error (.base64 f)]
        | .ok d => .ok ⟨k, d⟩ :: scan none [] rest := by
  have hc : (endMark label).isPrefixOf (s.closing ++ more) = true := isPrefixOf_append s.closes more
  rw [scan_opening s.opens, scan_inside s.inside, List.append_nil, scan,
    if_neg (by rw [not_startMark hc]; exact Bool.false_ne_true)]
  simp only [hc, ↓reduceIte, List.reverse_reverse]
  rfl

theorem lines_text (suffix : List UInt8) :
    ∃ more rest, lines (s.text ++ suffix) = s.opening :: (s.body ++ (s.closing ++ more) :: rest) := by
  obtain ⟨more, rest, hr⟩ := lines_unended s.closing_ne_nil s.unended suffix
  refine ⟨more, rest, ?_⟩
  rw [text, List.append_assoc, List.append_assoc, lines_line s.opening_line, lines_flatten s.body_lines, hr]

/-- **What a section leaves does not depend on what comes after it.** -/
theorem read_text {k : Kind} (hk : Kind.ofLabel? label = some k) (suffix : List UInt8) :
    ∃ rest, read (s.text ++ suffix) = s.item k :: rest := by
  obtain ⟨more, ls, hl⟩ := s.lines_text suffix
  rw [read, hl, s.read_closing, hk, item]
  cases s.contents with
  | error f => exact ⟨[], rfl⟩
  | ok d => exact ⟨scan none [] ls, rfl⟩

/-- A section that ends with its line, if it holds anything, is read and done with. -/
theorem read_whole (hc : IsLine s.closing) (r : List UInt8) :
    read (s.text ++ r) = match Kind.ofLabel? label with
      | none => read r
      | some k => match s.contents with
        | .error f => [.error (.base64 f)]
        | .ok d => .ok ⟨k, d⟩ :: read r := by
  rw [read, text, List.append_assoc, List.append_assoc, lines_line s.opening_line, lines_flatten s.body_lines,
    lines_line hc]
  exact (congrArg (fun c => scan none [] (s.opening :: (s.body ++ c :: lines r))) s.closing.append_nil.symm).trans
    (s.read_closing [] (lines r))

end Section

/-- Whole lines that open no section, and whole sections, which are read without a fault if their kind is known;
then it is one of those in question. -/
inductive Preface (P : Kind → Prop) : List UInt8 → Prop where
  | nil : Preface P []
  | stray {l r : List UInt8} (hl : IsLine l) (hs : startMark.isPrefixOf l = false) (hr : Preface P r) :
      Preface P (l ++ r)
  | sect {label r : List UInt8} (s : Section label) (hc : IsLine s.closing)
      (hk : ∀ k, Kind.ofLabel? label = some k → P k ∧ ∃ d, s.contents = .ok d) (hr : Preface P r) :
      Preface P (s.text ++ r)

/-- **What stands before a section leaves its own items and nothing else.** -/
theorem Preface.read {P : Kind → Prop} {pre : List UInt8} (h : Preface P pre) :
    ∃ items : List Item, (∀ i ∈ items, P i.kind) ∧ ∀ r, Pem.read (pre ++ r) = items.map .ok ++ Pem.read r := by
  induction h with
  | nil => exact ⟨[], nofun, fun _ => rfl⟩
  | stray hl hs _ ih =>
    obtain ⟨items, hp, hread⟩ := ih
    refine ⟨items, hp, fun r => ?_⟩
    rw [← hread, List.append_assoc, Pem.read, lines_line hl, scan_stray hs]
    rfl
  | @sect label _ s hc hk _ ih =>
    obtain ⟨items, hp, hread⟩ := ih
    cases hkind : Kind.ofLabel? label with
    | none =>
      refine ⟨items, hp, fun r => ?_⟩
      rw [List.append_assoc, s.read_whole hc, hkind, hread]
    | some k =>
      obtain ⟨hPk, d, hd⟩ := hk k hkind
      refine ⟨⟨k, d⟩ :: items, ?_, fun r => ?_⟩
      · rintro i (_ | ⟨_, hi⟩)
        · exact hPk
        · exact hp i hi
      · rw [List.append_assoc, s.read_whole hc, hkind, hd, hread]
        rfl

section

variable {β : Type} {f : List (Except Fault Item) → β}

/-- What passes over all items of these kinds makes nothing of what stands before. -/
theorem Preface.passed {P : Kind → Prop} {pre : List UInt8} (h : Preface P pre)
    (hpass : ∀ i r, P i.kind → f (.ok i :: r) = f r) (r : List UInt8) : f (Pem.read (pre ++ r)) = f (Pem.read r) := by
  obtain ⟨items, hi, hread⟩ := h.read
  rw [hread]
  clear hread
  induction items with
  | nil => rfl
  | cons i items ih =>
    rw [List.map_cons, List.cons_append, hpass i _ (hi i List.mem_cons_self)]
    exact ih fun j hj => hi j (List.mem_cons_of_mem i hj)

/-- What stops at a section makes nothing of what comes after it. -/
theorem Section.stopped {label : List UInt8} (s : Section label) {k : Kind} (hk : Kind.ofLabel? label = some k)
    (hstop : ∀ r, f (s.item k :: r) = f [s.item k]) (suffix : List UInt8) :
    f (Pem.read (s.text ++ suffix)) = f (Pem.read s.text) := by
  obtain ⟨xs, hxs⟩ := s.read_text hk suffix
  obtain ⟨ys, hys⟩ := s.read_text hk []
  rw [List.append_nil] at hys
  rw [hxs, hys, hstop, ← hstop ys]

end

end LedgerClient.Pem
