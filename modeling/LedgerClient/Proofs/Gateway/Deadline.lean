import LedgerClient.Gateway.Deadline
/-!
# What a deadline is written as

A deadline can be written down exactly if it is shorter than `networkLimit` (`ofSeconds?_isSome_iff`).  It is written in
the finest unit that leaves room for it (`ofSeconds?_eq_some`), so it is never written as more than it is, and falls
short by less than a unit; and it is read back from its text (`conveys_render`).
-/
namespace LedgerClient.Gateway

/-- From here on a deadline cannot be written down for the network. -/
def networkLimit : Nat := 360000000000

/-! ## Units -/

namespace TimeUnit

theorem mem_all (u : TimeUnit) : u ∈ all := by
  cases u <;> decide

theorem nanoseconds_pos (u : TimeUnit) : 0 < u.nanoseconds := by
  cases u <;> decide

theorem nanoseconds_le_hour (u : TimeUnit) : u.nanoseconds ≤ hour.nanoseconds := by
  cases u <;> decide

theorem all_sorted : all.Pairwise fun u v => u.nanoseconds ≤ v.nanoseconds := by
  decide

/-- A whole number of seconds is a whole number of every unit up to the second. -/
theorem nanoseconds_dvd {u : TimeUnit} (h : u.nanoseconds ≤ second.nanoseconds) : u.nanoseconds ∣ 1000000000 := by
  cases u <;> revert h <;> decide

def ofLetter? (c : Char) : Option TimeUnit := all.find? fun u => u.letter = c

theorem ofLetter?_letter (u : TimeUnit) : ofLetter? u.letter = some u := by
  cases u <;> decide

end TimeUnit

namespace WireDeadline

variable {secs : Nat} {d : WireDeadline}

/-! ## Numbers -/

/-- There is room for a deadline in a unit if it is shorter than so many of them. -/
theorem inUnit_le_iff (u : TimeUnit) :
    inUnit secs u ≤ maxCount ↔ secs * 1000000000 < 100000000 * u.nanoseconds := by
  rw [inUnit, ← Nat.lt_succ_iff, Nat.div_lt_iff_lt_mul u.nanoseconds_pos]
  exact .rfl

/-- **A deadline is written in the finest unit** that leaves it no more than eight digits. -/
theorem ofSeconds?_eq_some (h : ofSeconds? secs = some d) : d.count = inUnit secs d.unit ∧ d.count ≤ maxCount ∧
    ∀ v, inUnit secs v ≤ maxCount → d.unit.nanoseconds ≤ v.nanoseconds := by
  obtain ⟨u, hu, rfl⟩ := Option.map_eq_some_iff.1 h
  obtain ⟨hfits, before, after, hall, hbefore⟩ := List.find?_eq_some_iff_append.1 hu
  have hsorted := TimeUnit.all_sorted
  rw [hall, List.pairwise_append, List.pairwise_cons] at hsorted
  refine ⟨rfl, of_decide_eq_true hfits, fun v hv => ?_⟩
  have hmem := v.mem_all
  rw [hall, List.mem_append, List.mem_cons] at hmem
  rcases hmem with hv' | rfl | hv'
  · have hnot := hbefore v hv'
    rw [decide_eq_true hv] at hnot
    cases hnot
  · exact Nat.le_refl _
  · exact hsorted.2.1.1 v hv'

theorem inUnit_hour_le (u : TimeUnit) : inUnit secs .hour ≤ inUnit secs u :=
  Nat.div_le_div_left u.nanoseconds_le_hour u.nanoseconds_pos

/-- **What can be written down** is what is shorter than the limit. -/
theorem ofSeconds?_isSome_iff : (ofSeconds? secs).isSome ↔ secs < networkLimit := by
  have hhour : inUnit secs .hour ≤ maxCount ↔ secs < networkLimit := by
    rw [inUnit_le_iff, TimeUnit.nanoseconds, networkLimit]
    omega
  rw [ofSeconds?, Option.isSome_map, List.find?_isSome, ← hhour]
  constructor
  · rintro ⟨u, -, hu⟩
    exact Nat.le_trans (inUnit_hour_le u) (of_decide_eq_true hu)
  · exact fun h => ⟨.hour, TimeUnit.mem_all _, decide_eq_true h⟩

/-- **A deadline is never written as more than it is.** -/
theorem nanoseconds_le (h : ofSeconds? secs = some d) : d.nanoseconds ≤ secs * 1000000000 := by
  rw [nanoseconds, (ofSeconds?_eq_some h).1]
  exact Nat.div_mul_le_self _ _

/-- **What is written falls short by less than a unit.** -/
theorem lt_nanoseconds_add (h : ofSeconds? secs = some d) : secs * 1000000000 < d.nanoseconds + d.unit.nanoseconds := by
  rw [nanoseconds, (ofSeconds?_eq_some h).1]
  exact Nat.lt_div_mul_add d.unit.nanoseconds_pos

/-- A number of seconds that has eight digits is written as it is. -/
theorem nanoseconds_eq (h : ofSeconds? secs = some d) (hs : secs ≤ 99999999) :
    d.nanoseconds = secs * 1000000000 := by
  obtain ⟨hcount, -, hfinest⟩ := ofSeconds?_eq_some h
  have hunit : d.unit.nanoseconds ≤ TimeUnit.second.nanoseconds := hfinest .second (by
    rw [inUnit_le_iff, TimeUnit.nanoseconds]
    omega)
  rw [nanoseconds, hcount]
  exact Nat.div_mul_cancel (Nat.dvd_mul_left_of_dvd (TimeUnit.nanoseconds_dvd hunit) secs)

/-- Up to so many minutes, less than a minute is lost. -/
theorem lt_nanoseconds_add_minute (h : ofSeconds? secs = some d) (hs : secs < 6000000000) :
    secs * 1000000000 < d.nanoseconds + 60 * 1000000000 := by
  have hunit : d.unit.nanoseconds ≤ TimeUnit.minute.nanoseconds := (ofSeconds?_eq_some h).2.2 .minute (by
    rw [inUnit_le_iff, TimeUnit.nanoseconds]
    omega)
  exact Nat.lt_of_lt_of_le (lt_nanoseconds_add h) (Nat.add_le_add_left hunit _)

theorem lt_nanoseconds_add_hour (h : ofSeconds? secs = some d) :
    secs * 1000000000 < d.nanoseconds + 3600 * 1000000000 :=
  Nat.lt_of_lt_of_le (lt_nanoseconds_add h) (Nat.add_le_add_left d.unit.nanoseconds_le_hour _)

/-! ## Texts -/

/-- What a text says: a number of one to eight digits, and the letter of a unit. -/
def read? (text : String) : Option WireDeadline := do
  let digits := text.toList.dropLast
  let unit ← TimeUnit.ofLetter? (← text.toList.getLast?)
  if digits.all Char.isDigit && 0 < digits.length && digits.length ≤ 8 then
    some ⟨Nat.ofDigitChars 10 digits 0, unit⟩
  else none

theorem toList_render (d : WireDeadline) : d.render.toList = Nat.toDigits 10 d.count ++ [d.unit.letter] := by
  have hletter : toString d.unit.letter = String.singleton d.unit.letter := rfl
  rw [render, hletter]
  simp

theorem length_digits (hd : d.count ≤ maxCount) : (Nat.toDigits 10 d.count).length ≤ 8 :=
  (Nat.length_toDigits_le_iff (by decide) (by decide)).2 (Nat.lt_of_le_of_lt hd (by decide))

/-- **What is written with eight digits is read back.** -/
theorem read?_render (hd : d.count ≤ maxCount) : read? d.render = some d := by
  have hdigits : (Nat.toDigits 10 d.count).all Char.isDigit = true :=
    List.all_eq_true.2 fun c hc => Nat.isDigit_of_mem_toDigits (by decide) (by decide) hc
  have hpos : 0 < (Nat.toDigits 10 d.count).length := Nat.length_toDigits_pos
  have hcount : Nat.ofDigitChars 10 (Nat.toDigits 10 d.count) 0 = d.count :=
    Nat.ofDigitChars_toDigits (by decide) (by decide)
  unfold read?
  simp only [toList_render, List.dropLast_concat, List.getLast?_concat, Option.bind_eq_bind, Option.bind_some,
    TimeUnit.ofLetter?_letter, hdigits, decide_eq_true hpos, decide_eq_true (length_digits hd), Bool.and_self,
    ↓reduceIte, hcount]

theorem length_render (hd : d.count ≤ maxCount) : d.render.length ≤ 9 := by
  rw [← String.length_toList, toList_render, List.length_append]
  exact Nat.succ_le_succ (length_digits hd)

/-- **The text conveys the deadline** as well as eight digits and the letter of a unit can: what it says is never more
than the deadline, is the same up to eight digits of seconds, and falls short by less than a minute, or an hour where
there are too many minutes. -/
structure Conveys (d : WireDeadline) (text : String) (secs : Nat) : Prop where
  reads : read? text = some d
  digits : d.count ≤ 99999999
  length : text.length ≤ 9
  not_more : d.nanoseconds ≤ secs * 1000000000
  same : secs ≤ 99999999 → d.nanoseconds = secs * 1000000000
  minute : secs < 6000000000 → secs * 1000000000 < d.nanoseconds + 60 * 1000000000
  hour : secs * 1000000000 < d.nanoseconds + 3600 * 1000000000

theorem conveys_render (h : ofSeconds? secs = some d) : d.Conveys d.render secs :=
  have hcount := (ofSeconds?_eq_some h).2.1
  ⟨read?_render hcount, hcount, length_render hcount, nanoseconds_le h, nanoseconds_eq h,
    lt_nanoseconds_add_minute h, lt_nanoseconds_add_hour h⟩

end WireDeadline

end LedgerClient.Gateway
