import LedgerClient.Proofs.Text.Pem
/-!
# One item at a time

Items can be taken from a file one at a time, and whoever does so goes on with the lines after the item.  The turns
give the items in order (`read_eq_next`).  Each turn uses up lines (`next_shorter`), also where it passes over sections
that leave nothing, so that whatever takes turns comes to an end.
-/
namespace LedgerClient.Pem

/-- What comes of one turn: nothing more, a fault, or an item and the lines after it. -/
inductive Turn where
  | ended
  | fault (f : Fault)
  | item (i : Item) (rest : List (List UInt8))

/-- Reads on to the next item, in the section `section?` whose lines so far are `body`, last line first. -/
def nextFrom (section? : Option (List UInt8)) (body : List (List UInt8)) : List (List UInt8) → Turn
  | [] => match section? with
    | none => .ended
    | some l => .fault (.unclosed l)
  | line :: rest =>
    if startMark.isPrefixOf line then
      match label? line with
      | none => .fault (.illegalStart line)
      | some l => nextFrom (some l) body rest
    else match section? with
      | none => nextFrom none body rest
      | some l =>
        if (endMark l).isPrefixOf line then
          match Kind.ofLabel? l with
          | none => nextFrom none [] rest
          | some k => match Base64.decode body.reverse.flatten with
            | .error f => .fault (.base64 f)
            | .ok d => .item ⟨k, d⟩ rest
        else nextFrom (some l) (line :: body) rest

/-- The next item among these lines, between two sections. -/
def next (ls : List (List UInt8)) : Turn := nextFrom none [] ls

/-- What a turn has read, and what is read after it. -/
def Turn.items : Turn → List (Except Fault Item)
  | .ended => []
  | .fault f => [.error f]
  | .item i rest => .ok i :: scan none [] rest

variable {s : Option (List UInt8)} {body ls rest : List (List UInt8)} {i : Item}

theorem scan_eq_nextFrom (s : Option (List UInt8)) (body ls : List (List UInt8)) :
    scan s body ls = (nextFrom s body ls).items := by
  induction ls generalizing s body with
  | nil => cases s <;> rfl
  | cons line rest ih =>
    cases s with
    | none =>
      rw [scan, nextFrom]
      split
      · cases label? line with
        | none => rfl
        | some l => exact ih (some l) body
      · exact ih none body
    | some l =>
      rw [scan, nextFrom]
      split
      · cases label? line with
        | none => rfl
        | some l => exact ih (some l) body
      · split
        · cases Kind.ofLabel? l with
          | none => exact ih none []
          | some k =>
            dsimp only
            cases Base64.decode body.reverse.flatten <;> rfl
        · exact ih (some l) (line :: body)

/-- **The items of a file are those of its turns.** -/
theorem read_eq_next (b : List UInt8) : read b = (next (lines b)).items := scan_eq_nextFrom none [] (lines b)

theorem nextFrom_shorter (h : nextFrom s body ls = .item i rest) : rest.length < ls.length := by
  induction ls generalizing s body with
  | nil => cases s <;> cases h
  | cons line ls ih =>
    -- a turn goes on with the lines after this one, or has just used it up
    rw [List.length_cons]
    unfold nextFrom at h
    split at h
    · split at h
      · cases h
      · exact Nat.lt_succ_of_lt (ih h)
    · split at h
      · exact Nat.lt_succ_of_lt (ih h)
      · split at h
        · split at h
          · exact Nat.lt_succ_of_lt (ih h)
          · split at h <;> cases h
            exact Nat.lt_succ_self _
        · exact Nat.lt_succ_of_lt (ih h)

/-- **Each turn that brings an item uses up lines.** -/
theorem next_shorter (h : next ls = .item i rest) : rest.length < ls.length := nextFrom_shorter h

end LedgerClient.Pem
