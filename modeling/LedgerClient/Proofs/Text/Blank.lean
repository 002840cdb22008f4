import LedgerClient.Text.Blank
import Mathlib.Data.List.DropRight
/-!
# Text without the blanks around it

Trimming leaves the one text that neither begins nor ends with a blank and has nothing but blanks around it
(`trim_eq_iff`).  So text that neither begins nor ends with a blank is left as it is, and trimming twice is trimming
once.
-/
namespace LedgerClient

/-! ## Dropping from either end -/

variable {p : Char → Bool} {s t pre post : List Char}

/-- All that is dropped goes, and nothing of what begins otherwise. -/
theorem dropWhile_append_of_head (hpre : ∀ c ∈ pre, p c = true) (hs : ∀ c, s.head? = some c → p c = false) :
    (pre ++ s).dropWhile p = s := by
  rw [List.dropWhile_append_of_pos hpre]
  cases s with
  | nil => rfl
  | cons c r => exact List.dropWhile_cons_of_neg (by rw [hs c rfl]; exact Bool.false_ne_true)

theorem dropTrailing_append_of_last (hpost : ∀ c ∈ post, p c = true) (hs : ∀ c, s.getLast? = some c → p c = false) :
    dropTrailing p (s ++ post) = s := by
  have hreverse : (post.reverse ++ s.reverse).dropWhile p = s.reverse := by
    refine dropWhile_append_of_head (fun c hc => hpost c (List.mem_reverse.1 hc)) fun c hc => hs c ?_
    rwa [List.head?_reverse] at hc
  rw [dropTrailing, List.reverse_append, hreverse, List.reverse_reverse]

/-! ## Trimming -/

/-- The text neither begins nor ends with a blank. -/
structure Bare (s : List Char) : Prop where
  head : ∀ c, s.head? = some c → isBlank c = false
  last : ∀ c, s.getLast? = some c → isBlank c = false

/-- `t` is what stands in `s` between the blanks around it. -/
structure Trims (s t : List Char) : Prop where
  bare : Bare t
  around : ∃ pre post, s = pre ++ t ++ post ∧ (∀ c ∈ pre, isBlank c = true) ∧ ∀ c ∈ post, isBlank c = true

theorem bare_of_forall (h : ∀ c ∈ s, isBlank c = false) : Bare s :=
  ⟨fun c hc => h c (List.mem_of_mem_head? hc), fun c hc => h c (List.mem_of_getLast? hc)⟩

theorem trims_trim (s : List Char) : Trims s (trim s) := by
  have hlead : s.takeWhile isBlank ++ s.dropWhile isBlank = s := List.takeWhile_append_dropWhile
  have htrail : trim s ++ (s.dropWhile isBlank).rtakeWhile isBlank = s.dropWhile isBlank :=
    List.rdropWhile_append_rtakeWhile
  refine ⟨⟨fun c hc => ?_, fun c hc => ?_⟩, s.takeWhile isBlank, (s.dropWhile isBlank).rtakeWhile isBlank, ?_, ?_, ?_⟩
  · have hhead : (s.dropWhile isBlank).head? = some c := by rw [← htrail, List.head?_append, hc, Option.some_or]
    have hnot := List.head?_dropWhile_not isBlank s
    rwa [hhead] at hnot
  · have hnot := List.head?_dropWhile_not isBlank (s.dropWhile isBlank).reverse
    rw [trim, dropTrailing, List.getLast?_reverse] at hc
    rwa [hc] at hnot
  · rw [List.append_assoc, htrail, hlead]
  · intro c hc
    exact List.mem_takeWhile_imp hc
  · intro c hc
    exact List.mem_rtakeWhile_imp hc

/-- **There is one text between the blanks.** -/
theorem Trims.trim_eq (h : Trims s t) : trim s = t := by
  obtain ⟨hbare, pre, post, rfl, hpre, hpost⟩ := h
  cases t with
  | nil =>
    have hall : (pre ++ [] ++ post).dropWhile isBlank = [] := by
      rw [List.dropWhile_eq_nil_iff]
      intro c hc
      rw [List.append_nil, List.mem_append] at hc
      exact hc.elim (hpre c) (hpost c)
    rw [trim, hall]
    rfl
  | cons c r =>
    have hhead : ∀ b, (c :: r ++ post).head? = some b → isBlank b = false := hbare.head
    rw [trim, List.append_assoc, dropWhile_append_of_head hpre hhead, dropTrailing_append_of_last hpost hbare.last]

theorem trim_eq_iff : trim s = t ↔ Trims s t :=
  ⟨fun h => h ▸ trims_trim s, fun h => h.trim_eq⟩

theorem bare_trim (s : List Char) : Bare (trim s) := (trims_trim s).bare

theorem Bare.trim_eq (h : Bare s) : trim s = s := by
  refine Trims.trim_eq ⟨h, [], [], ?_, ?_, ?_⟩
  · rw [List.append_nil, List.nil_append]
  · intro c hc
    cases hc
  · intro c hc
    cases hc

end LedgerClient
