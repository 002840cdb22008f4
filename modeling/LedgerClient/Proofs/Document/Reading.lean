import LedgerClient.Proofs.Document.Json
/-!
# What was read is there

Whatever is read as a string is one: each reader is turned into the form of what it took, and what it left
(`body_of_stringFrom`, `body_of_readString`, `isText_of_readText`).
-/
namespace LedgerClient.Json

/-! ## Blanks -/

theorem exists_blanks (s : List UInt8) : ∃ b, Blanks b ∧ s = b ++ dropBlanks s := by
  refine ⟨s.takeWhile isBlank, fun c hc => ?_, List.takeWhile_append_dropWhile.symm⟩
  exact List.all_eq_true.1 List.all_takeWhile c hc

/-- Where something is read after blanks, there are the blanks and what is read. -/
theorem exists_blanks_cons {s : List UInt8} {b : UInt8} {r : List UInt8} (h : dropBlanks s = b :: r) :
    ∃ blanks, Blanks blanks ∧ s = blanks ++ b :: r := by
  obtain ⟨blanks, hb, hs⟩ := exists_blanks s
  exact ⟨blanks, hb, by rw [← h]; exact hs⟩

/-! ## Strings -/

section Strings

variable {s t : List UInt8} {n : Nat}

theorem hex4_of_read (h : hex4 s = .ok n) : ∃ ds r, s = ds ++ r ∧ Hex4 ds n := by
  unfold hex4 at h
  split at h
  · rename_i a b c d r
    split at h
    · rename_i ha hb hc hd
      cases h
      exact ⟨[a, b, c, d], r, rfl, .mk ha hb hc hd⟩
    · cases h
  · cases h

/-- Two halves by number, of which the first was read. -/
theorem halves_of_read {m : Nat} {ds r : List UInt8} (hm : Hex4 ds m) (hh : isHigh m = true)
    (h : lowHalf m r = .ok (t, n)) :
    ∃ xs rest, letterU :: (ds ++ r) = xs ++ rest ∧ xs.length = n ∧ Spells (backslash :: xs) t := by
  unfold lowHalf at h
  split at h
  · cases h
  split at h
  · cases h
  rename_i hback
  split at h
  · cases h
  rename_i v
  split at h
  · cases h
  rename_i hu
  cases hx : hex4 v with
  | error f =>
    rw [hx] at h
    cases h
  | ok k =>
    rw [hx, ok_bind] at h
    split at h
    · rename_i hl
      obtain ⟨rfl, rfl⟩ := Prod.mk.inj (Except.ok.inj h)
      obtain ⟨es, rest, rfl, he⟩ := hex4_of_read hx
      have hlen : (letterU :: (ds ++ backslash :: letterU :: es)).length = 11 := by
        simp only [List.length_cons, List.length_append, hm.length, he.length]
      rw [Decidable.not_not.1 hback, Decidable.not_not.1 hu]
      exact ⟨letterU :: (ds ++ backslash :: letterU :: es), rest, by simp only [List.cons_append, List.append_assoc],
        hlen, .halves hm he hh hl⟩
    · cases h

/-- **An escape spells what is read of it.** -/
theorem spells_of_escape (h : escape s = .ok (t, n)) :
    ∃ xs r, s = xs ++ r ∧ xs.length = n ∧ Spells (backslash :: xs) t := by
  cases s with
  | nil => cases h
  | cons b r =>
    rw [escape] at h
    split at h
    · rename_i c hc
      cases h
      exact ⟨[b], r, rfl, rfl, .letter hc⟩
    split at h
    · rename_i hb
      cases hx : hex4 r with
      | error f =>
        rw [unicodeEscape, hx] at h
        cases h
      | ok m =>
        obtain ⟨ds, rest, rfl, hm⟩ := hex4_of_read hx
        rw [unicodeEscape, hx, ok_bind] at h
        rw [hb]
        split at h
        · cases h
        rename_i hlow
        split at h
        · rename_i hhigh
          rw [← hm.length, List.drop_left] at h
          exact halves_of_read hm hhigh h
        · rename_i hhigh
          cases h
          exact ⟨letterU :: ds, rest, rfl, by rw [List.length_cons, hm.length],
            .single hm (Bool.eq_false_iff.2 hlow) (Bool.eq_false_iff.2 hhigh)⟩
    · cases h

/-- **What is read of a string stands between its quotes.** -/
theorem body_of_stringFrom {s t r : List UInt8} (h : stringFrom escape 0 s = .ok (t, r)) :
    ∃ body, s = body ++ quote :: r ∧ Body body t := by
  match s with
  | [] => cases h
  | b :: s =>
    rw [stringFrom] at h
    split at h
    · rename_i hq
      cases h
      exact ⟨[], by rw [hq]; rfl, .nil⟩
    rename_i hq
    split at h
    · rename_i hb
      cases he : escape s with
      | error f =>
        rw [he] at h
        cases h
      | ok p =>
        obtain ⟨u, n⟩ := p
        obtain ⟨xs, rest, rfl, rfl, hs⟩ := spells_of_escape he
        rw [he] at h
        dsimp only at h
        rw [stringFrom_length] at h
        cases hr : stringFrom escape 0 rest with
        | error f =>
          rw [hr] at h
          cases h
        | ok q =>
          rw [hr] at h
          cases h
          obtain ⟨body, hbody, hspelled⟩ := body_of_stringFrom (t := q.1) (r := q.2) hr
          refine ⟨backslash :: xs ++ body, ?_, .cons hs hspelled⟩
          rw [hb, hbody, List.cons_append, List.cons_append, List.append_assoc]
    rename_i hb
    split at h
    · cases h
    rename_i hlt
    cases hr : stringFrom escape 0 s with
    | error f =>
      rw [hr] at h
      cases h
    | ok q =>
      rw [hr] at h
      cases h
      obtain ⟨body, hbody, hspelled⟩ := body_of_stringFrom (t := q.1) (r := q.2) hr
      have hplain : 0x20 ≤ b := UInt8.not_lt.1 hlt
      exact ⟨b :: body, by rw [hbody]; rfl, .cons (.plain hplain hq hb) hspelled⟩
termination_by s.length

theorem body_of_readString {t : String} {r : List UInt8} (h : readString s = .ok (t, r)) :
    ∃ body, s = body ++ quote :: r ∧ Body body (utf8 t) := by
  unfold readString at h
  cases hs : stringFrom escape 0 s with
  | error f =>
    rw [hs] at h
    cases h
  | ok p =>
    rw [hs, ok_bind] at h
    dsimp only at h
    split at h
    · rename_i cs hcs
      cases h
      obtain ⟨body, hbody, hspelled⟩ := body_of_stringFrom (t := p.1) (r := p.2) hs
      refine ⟨body, hbody, ?_⟩
      rwa [utf8, String.toList_ofList, Utf8.decode_eq_ok_iff.1 hcs]
    · cases h

theorem isText_of_readText {t : String} {r : List UInt8} (h : readText s = .ok (t, r)) :
    ∃ b text, Blanks b ∧ IsText text t ∧ s = b ++ (text ++ r) := by
  unfold readText at h
  split at h
  · cases h
  rename_i c rest hc
  split at h
  · rename_i hq
    obtain ⟨b, hb, rfl⟩ := exists_blanks_cons hc
    obtain ⟨body, rfl, hbody⟩ := body_of_readString h
    refine ⟨b, _, hb, .mk hbody, ?_⟩
    rw [hq, List.cons_append, List.append_assoc, List.singleton_append]
  · cases h

end Strings

/-! ## Marks -/

theorem colon_of_dropColon {s r : List UInt8} (h : dropColon s = .ok r) : ∃ b, Blanks b ∧ s = b ++ colon :: r := by
  unfold dropColon at h
  split at h
  · cases h
  rename_i c rest hc
  split at h
  · rename_i hcolon
    cases h
    rw [hcolon] at hc
    exact exists_blanks_cons hc
  · cases h

theorem key_of_keyHere {s : List UInt8} {next : Next} (h : keyHere s = .ok next) :
    ∃ rest, s = quote :: rest ∧ next = .item rest := by
  cases s with
  | nil => cases h
  | cons b rest =>
    rw [keyHere] at h
    split at h
    · rename_i hb
      cases h
      exact ⟨rest, by rw [hb], rfl⟩
    · split at h <;> cases h

/-- A document is at its end when only blanks are left. -/
theorem finish_eq_ok_iff {α : Type} {x : Reading α} {a : α} : finish x = .ok a ↔ ∃ r, x = .ok (a, r) ∧ Blanks r := by
  constructor
  · intro h
    rcases x with f | ⟨a', r⟩
    · cases h
    rw [finish] at h
    split at h
    · rename_i hr
      cases h
      obtain ⟨b, hb, he⟩ := exists_blanks r
      rw [List.isEmpty_iff.1 hr, List.append_nil] at he
      exact ⟨r, rfl, he ▸ hb⟩
    · cases h
  · rintro ⟨r, rfl, hr⟩
    rw [finish, dropBlanks_blanks hr]
    rfl

end LedgerClient.Json
