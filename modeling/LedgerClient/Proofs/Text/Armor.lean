import LedgerClient.Proofs.Text.Base64
import LedgerClient.Proofs.Text.Pem
/-!
# Sections that are written

A section is written in one form: its opening line, the base64 of what it holds in rows of 64 bytes, of which only the
last may be shorter, and its closing line (`armor_write`).  It is read back as the one item of its text (`read_write`),
so the text of an item says what the item is (`write_inj`).
-/
namespace LedgerClient.Pem

/-! ## Rows -/

/-- Rows of text: all are full but the last, which may be shorter and holds something. -/
inductive Rows : List (List UInt8) → Prop where
  | nil : Rows []
  | last {row : List UInt8} (hne : row ≠ []) (hle : row.length ≤ lineWidth) : Rows [row]
  | cons {row : List UInt8} {rows : List (List UInt8)} (hfull : row.length = lineWidth) (h : Rows rows) :
      Rows (row :: rows)

/-- The rows, each with its line end. -/
def lined (rows : List (List UInt8)) : List UInt8 := (rows.map (· ++ [0x0A])).flatten

variable {rows : List (List UInt8)} {row : List UInt8}

theorem Rows.ne_nil (h : Rows rows) (hr : row ∈ rows) : row ≠ [] := by
  induction h with
  | nil => cases hr
  | last hne =>
    rw [List.mem_singleton.1 hr]
    exact hne
  | cons hfull _ ih =>
    rcases List.mem_cons.1 hr with rfl | hr
    · exact List.ne_nil_of_length_pos (by rw [hfull]; decide)
    · exact ih hr

/-- A row that was begun is filled up, and the others follow it. -/
theorem exists_rows_wrap (s : List UInt8) : ∀ (k : Nat) (begun : List UInt8), begun.length + k = lineWidth →
    (begun ≠ [] ∨ s ≠ []) → ∃ rows, Rows rows ∧ rows.flatten = begun ++ s ∧ begun ++ wrap k s = lined rows := by
  induction s with
  | nil =>
    intro k begun hk hne
    refine ⟨[begun], .last (hne.resolve_right (· rfl)) (by omega), by simp, ?_⟩
    rw [wrap]
    simp [lined]
  | cons b r ih =>
    intro k begun hk _
    cases k with
    | zero =>
      obtain ⟨rows, hrows, hflat, hwrap⟩ := ih (lineWidth - 1) [b] rfl (.inl (List.cons_ne_nil _ _))
      refine ⟨begun :: rows, .cons hk hrows, by rw [List.flatten_cons, hflat]; rfl, ?_⟩
      rw [wrap, lined, List.map_cons, List.flatten_cons, ← lined, ← hwrap]
      simp
    | succ k =>
      obtain ⟨rows, hrows, hflat, hwrap⟩ := ih k (begun ++ [b]) (by simp; omega) (.inl (by simp))
      refine ⟨rows, hrows, by rw [hflat]; simp, ?_⟩
      rw [wrap, ← hwrap]
      simp

/-- **Text is broken into rows.** -/
theorem exists_rows (s : List UInt8) : ∃ rows, Rows rows ∧ rows.flatten = s ∧
    (if s.isEmpty then [] else wrap lineWidth s) = lined rows := by
  cases s with
  | nil => exact ⟨[], .nil, rfl, rfl⟩
  | cons b r => exact exists_rows_wrap (b :: r) lineWidth [] rfl (.inr (List.cons_ne_nil _ _))

/-! ## The one form -/

/-- **The form of a section**: what it holds stands in rows of base64. -/
def Armor (i : Item) (text : List UInt8) : Prop :=
  ∃ rows, Rows rows ∧ rows.flatten = Base64.encode i.contents ∧
    text = utf8 "-----BEGIN " ++ i.kind.label ++ utf8 "-----\n" ++ lined rows ++
      (utf8 "-----END " ++ i.kind.label ++ utf8 "-----\n")

theorem armor_write (i : Item) : Armor i (write i) := by
  obtain ⟨rows, hrows, hflat, hwrap⟩ := exists_rows (Base64.encode i.contents)
  refine ⟨rows, hrows, hflat, ?_⟩
  have hend : utf8 "-----\n" = utf8 "-----" ++ [0x0A] := rfl
  simp only [write]
  rw [hwrap, hend]
  simp only [startMark, endMark, List.append_assoc]

/-! ## Reading it -/

section Reading

variable {d : List UInt8} {b : UInt8}

theorem symbol_inside (h : b ∈ Base64.encode d) : isLineEnd b = false ∧ b ≠ dash := by
  have hall : ∀ k : Fin 64, isLineEnd (Base64.symbol k) = false ∧ Base64.symbol k ≠ dash := by decide
  rcases Base64.isSymbol_or_pad h with ⟨n, hn, rfl⟩ | rfl
  · exact hall ⟨n, hn⟩
  · decide

/-- A line that does not begin with a dash stands inside a section. -/
theorem inside_of_head {label s : List UInt8} (h : s[0]? ≠ some dash) : Inside label s := by
  refine ⟨Bool.eq_false_iff.2 fun hs => h ?_, Bool.eq_false_iff.2 fun he => h ?_⟩
  · exact getElem?_of_isPrefixOf hs (by decide)
  · exact getElem?_of_isPrefixOf he (by
      rw [endMark, List.append_assoc]
      exact getElem?_of_isPrefixOf (List.isPrefixOf_iff_prefix.2 (List.prefix_append _ _)) (by decide))

variable (hrows : Rows rows) (hflat : rows.flatten = Base64.encode d)
include hflat

theorem mem_encode_of_mem (hr : row ∈ rows) (hb : b ∈ row) : b ∈ Base64.encode d :=
  hflat ▸ List.mem_flatten_of_mem hr hb

theorem row_line (hr : row ∈ rows) : IsLine (row ++ [0x0A]) :=
  .mk (fun _ hb => (symbol_inside (mem_encode_of_mem hflat hr hb)).1) (by decide)

include hrows in
theorem row_inside (label : List UInt8) (hr : row ∈ rows) : Inside label (row ++ [0x0A]) := by
  refine inside_of_head ?_
  obtain ⟨b, r, rfl⟩ := List.exists_cons_of_ne_nil (hrows.ne_nil hr)
  have hb := (symbol_inside (mem_encode_of_mem hflat hr List.mem_cons_self)).2
  simpa using hb

/-- Line ends do not count, so the rows hold what was written. -/
theorem decode_lined : Base64.decode (lined rows) = .ok d := by
  have hspace : ∀ row ∈ rows, row.filter (fun b => !Base64.isSpace b) = row := fun row hr =>
    List.filter_eq_self.2 fun b hb => by
      rw [Base64.isSpace_of_mem_encode (mem_encode_of_mem hflat hr hb)]
      rfl
  have hfilter : (lined rows).filter (fun b => !Base64.isSpace b) = Base64.encode d := by
    rw [lined, List.filter_flatten, List.map_map, ← hflat]
    congr 1
    refine (List.map_congr_left fun row hr => ?_).trans (List.map_id _)
    rw [Function.comp_apply, List.filter_append, hspace row hr]
    exact List.append_nil row
  rw [← Base64.decode_filter, hfilter, Base64.decode_encode]

end Reading

section Marks

variable (k : Kind)

theorem Kind.ofLabel?_label : Kind.ofLabel? k.label = some k := by
  cases k <;> decide

theorem opening_line : IsLine (utf8 "-----BEGIN " ++ k.label ++ utf8 "-----\n") := by
  have htext : ∀ b ∈ utf8 "-----BEGIN " ++ k.label ++ utf8 "-----", isLineEnd b = false := by
    cases k <;> decide +kernel
  have hline : IsLine ((utf8 "-----BEGIN " ++ k.label ++ utf8 "-----") ++ [0x0A]) := .mk htext (by decide)
  rwa [List.append_assoc] at hline

theorem opening_opens : Opens k.label (utf8 "-----BEGIN " ++ k.label ++ utf8 "-----\n") := by
  cases k <;> decide

theorem closing_text : ∀ b ∈ endMark k.label, isLineEnd b = false := by
  cases k <;> decide +kernel

end Marks

/-- The section that an armored text is. -/
theorem Armor.exists_section {i : Item} {text : List UInt8} (h : Armor i text) :
    ∃ s : Section i.kind.label, s.text = text ∧ IsLine s.closing ∧ s.contents = .ok i.contents := by
  obtain ⟨rows, hrows, hflat, rfl⟩ := h
  have hclosing : utf8 "-----END " ++ i.kind.label ++ utf8 "-----\n" = endMark i.kind.label ++ [0x0A] := by
    have hend : utf8 "-----\n" = utf8 "-----" ++ [0x0A] := rfl
    rw [hend, endMark, List.append_assoc, List.append_assoc, List.append_assoc]
  let s : Section i.kind.label :=
    { opening := utf8 "-----BEGIN " ++ i.kind.label ++ utf8 "-----\n"
      body := rows.map (· ++ [0x0A])
      closing := endMark i.kind.label ++ [0x0A]
      opening_line := opening_line i.kind
      opens := opening_opens i.kind
      body_lines := List.forall_mem_map.2 fun row hr => row_line hflat hr
      inside := List.forall_mem_map.2 fun row hr => row_inside hrows hflat _ hr
      closes := List.isPrefixOf_iff_prefix.2 (List.prefix_append _ _)
      unended := by rw [List.dropLast_concat]; exact closing_text i.kind }
  refine ⟨s, ?_, .mk (closing_text i.kind) (by decide), decode_lined hflat⟩
  rw [hclosing]
  rfl

/-- **A section in its form is read as the one item it was written for.** -/
theorem Armor.read {i : Item} {text : List UInt8} (h : Armor i text) : Pem.read text = [.ok i] := by
  obtain ⟨s, rfl, hclosing, hcontents⟩ := h.exists_section
  have hread := s.read_whole hclosing []
  rw [List.append_nil, Kind.ofLabel?_label, hcontents] at hread
  exact hread

theorem read_write (i : Item) : read (write i) = [.ok i] := (armor_write i).read

/-- Items that are written alike are the same. -/
theorem write_inj {i j : Item} (h : write i = write j) : i = j := by
  have hread := read_write i
  rw [h, read_write] at hread
  cases hread
  rfl

end LedgerClient.Pem
