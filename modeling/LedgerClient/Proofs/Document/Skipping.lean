import LedgerClient.Proofs.Document.Value
/-!
# Skipping values

Exactly the values are skipped, at any depth, up to what follows them (`IsValue.skipped`, `isValue_of_skipValue`).  What
one step takes is said once for each kind of step; both directions then go by induction on the fuel.
-/
namespace LedgerClient.Json

/-! ## One step -/

theorem Blanks.append {s r : List UInt8} (h : Blanks s) (hr : Blanks r) : Blanks (s ++ r) :=
  fun b hb => (List.mem_append.1 hb).elim (h b) (hr b)

theorem literal_append (cs r : List UInt8) : literal cs (cs ++ r) = .ok r := by
  induction cs with
  | nil => rfl
  | cons c cs ih => rw [List.cons_append, literal, if_pos rfl, ih]

theorem append_of_literal {cs s r : List UInt8} (h : literal cs s = .ok r) : s = cs ++ r := by
  induction cs generalizing s with
  | nil => exact Except.ok.inj h
  | cons c cs ih =>
    cases s with
    | nil => cases h
    | cons b s =>
      rw [literal] at h
      split at h
      · rename_i hb
        rw [hb, ih h]
        rfl
      · cases h

theorem isValue_of_literal {c : UInt8} {f : Document.Found} {cs : List UInt8} (h : literal? c = some (f, cs)) :
    IsValue (c :: cs) := by
  unfold literal? at h
  split at h
  · rename_i hc
    cases h
    exact hc ▸ .null
  split at h
  · rename_i hc
    cases h
    exact hc ▸ .true
  split at h
  · rename_i hc
    cases h
    exact hc ▸ .false
  · cases h

/-- Neither a blank nor what stands between or after items: every value begins with such a byte. -/
def Starts (b : UInt8) : Prop := isBlank b = false ∧ b ≠ comma ∧ b ≠ closeList ∧ b ≠ closeObject

theorem starts_of_isDigit {b : UInt8} (h : isDigit b = true) : Starts b := by
  obtain ⟨hblank, hmem⟩ := of_isDigit h
  simp only [List.mem_cons, not_or] at hmem
  exact ⟨hblank, hmem.2.1, hmem.2.2.2.2.2.2.1, hmem.2.2.2.2.2.2.2.2.1⟩

section Step

variable {n : Nat} {b b' s r : List UInt8}

/-- A value is told by its first byte. -/
theorem skip_value_cons {c : UInt8} (h : dropBlanks s = c :: r) : skip (n + 1) .value s =
    if c = quote then skipString r
    else if c = openList then
      match dropBlanks r with
      | [] => .error .endInList
      | d :: t => if d = closeList then .ok t else skip n .elements (d :: t)
    else if c = openObject then
      match dropBlanks r with
      | [] => .error .endInObject
      | d :: t => if d = closeObject then .ok t else skip n .members (d :: t)
    else if c = minus then skipNumber r
    else if isDigit c then skipNumber (c :: r)
    else match literal? c with
      | some (_, cs) => literal cs r
      | none => .error .noValue := by
  rewrite [skip, h]
  rfl

theorem skip_text (hb : Blanks b) (h : Spelled s) : skip (n + 1) .value (b ++ quote :: (s ++ quote :: r)) = .ok r := by
  rw [skip_value_cons (dropBlanks_append hb (by decide) _), if_pos rfl, h.skipString]

theorem skip_number (hb : Blanks b) (h : IsNumber s) (hr : Ends r) : skip (n + 1) .value (b ++ (s ++ r)) = .ok r := by
  obtain ⟨hs, hd, hz, hf, he⟩ := h
  have hnumber := skipNumber_append hd hz hf he hr
  simp only [List.append_assoc]
  rcases hs with rfl | rfl
  · obtain ⟨d, ds, rfl⟩ := List.exists_cons_of_ne_nil hd.1
    have hdigit : isDigit d = true := hd.2 d List.mem_cons_self
    obtain ⟨hblank, hmem⟩ := of_isDigit hdigit
    simp only [List.mem_cons, not_or] at hmem
    rw [List.nil_append, List.cons_append, skip_value_cons (dropBlanks_append hb hblank _), if_neg hmem.1,
      if_neg hmem.2.2.2.2.2.1, if_neg hmem.2.2.2.2.2.2.2.1, if_neg hmem.2.2.2.1, if_pos hdigit]
    exact hnumber
  · rw [List.singleton_append, skip_value_cons (dropBlanks_append hb (by decide) _)]
    exact hnumber

/-- A list or an object that is not empty goes on with its first item. -/
theorem skip_list {c : UInt8} (hb : Blanks b) (hb' : Blanks b') (hc : Starts c) :
    skip (n + 1) .value (b ++ openList :: (b' ++ c :: r)) = skip n .elements (c :: r) := by
  rw [skip_value_cons (dropBlanks_append hb (by decide) _), if_neg (by decide), if_pos rfl, dropBlanks_append hb' hc.1]
  exact if_neg hc.2.2.1

theorem skip_object {c : UInt8} (hb : Blanks b) (hb' : Blanks b') (hc : Starts c) :
    skip (n + 1) .value (b ++ openObject :: (b' ++ c :: r)) = skip n .members (c :: r) := by
  rw [skip_value_cons (dropBlanks_append hb (by decide) _), if_neg (by decide), if_neg (by decide), if_pos rfl,
    dropBlanks_append hb' hc.1]
  exact if_neg hc.2.2.2

theorem skip_noElements (hb : Blanks b) (hb' : Blanks b') :
    skip (n + 1) .value (b ++ openList :: (b' ++ closeList :: r)) = .ok r := by
  rw [skip_value_cons (dropBlanks_append hb (by decide) _), if_neg (by decide), if_pos rfl,
    dropBlanks_append hb' (by decide)]
  exact if_pos rfl

theorem skip_noMembers (hb : Blanks b) (hb' : Blanks b') :
    skip (n + 1) .value (b ++ openObject :: (b' ++ closeObject :: r)) = .ok r := by
  rw [skip_value_cons (dropBlanks_append hb (by decide) _), if_neg (by decide), if_neg (by decide), if_pos rfl,
    dropBlanks_append hb' (by decide)]
  exact if_pos rfl

theorem skip_null (hb : Blanks b) : skip (n + 1) .value (b ++ (null ++ r)) = .ok r := by
  rw [null, List.cons_append, skip_value_cons (dropBlanks_append hb (by decide) _)]
  exact literal_append _ r

theorem skip_true (hb : Blanks b) : skip (n + 1) .value (b ++ ([0x74, 0x72, 0x75, 0x65] ++ r)) = .ok r := by
  rw [List.cons_append, skip_value_cons (dropBlanks_append hb (by decide) _)]
  exact literal_append _ r

theorem skip_false (hb : Blanks b) : skip (n + 1) .value (b ++ ([0x66, 0x61, 0x6C, 0x73, 0x65] ++ r)) = .ok r := by
  rw [List.cons_append, skip_value_cons (dropBlanks_append hb (by decide) _)]
  exact literal_append _ r

/-- **Elements are a value, and the closing bracket or a comma and more elements.** -/
theorem skip_elements_iff : skip (n + 1) .elements s = .ok r ↔
    ∃ b t, Blanks b ∧ (skip n .value s = .ok (b ++ closeList :: r) ∨
      skip n .value s = .ok (b ++ comma :: t) ∧ skip n .elements t = .ok r) := by
  rw [skip]
  cases hv : skip n .value s with
  | error f => exact ⟨nofun, by rintro ⟨_, _, _, h | ⟨h, _⟩⟩ <;> cases h⟩
  | ok u =>
    rw [ok_bind]
    constructor
    · intro h
      split at h
      · cases h
      rename_i c t hc
      obtain ⟨b, hb, rfl⟩ := exists_blanks_cons hc
      split at h
      · rename_i hcomma
        exact ⟨b, t, hb, .inr ⟨by rw [hcomma], h⟩⟩
      split at h
      · rename_i hclose
        cases h
        exact ⟨b, [], hb, .inl (by rw [hclose])⟩
      · cases h
    · rintro ⟨b, t, hb, h | ⟨h, ht⟩⟩ <;> rw [Except.ok.inj h, dropBlanks_append hb (by decide)]
      · rfl
      · exact ht

/-- **Members are a key and a value, and the closing brace or a comma and more members.** -/
theorem skip_members_iff : skip (n + 1) .members s = .ok r ↔
    ∃ b k b' v b'' t, Blanks b ∧ Spelled k ∧ Blanks b' ∧ s = b ++ quote :: (k ++ quote :: (b' ++ colon :: v)) ∧
      Blanks b'' ∧ (skip n .value v = .ok (b'' ++ closeObject :: r) ∨
        skip n .value v = .ok (b'' ++ comma :: t) ∧ skip n .members t = .ok r) := by
  rw [skip]
  constructor
  · intro h
    split at h
    · cases h
    rename_i c t hc
    obtain ⟨b, hb, rfl⟩ := exists_blanks_cons hc
    split at h
    · cases h
    rename_i hq
    cases hk : skipString t with
    | error f =>
      rw [hk] at h
      cases h
    | ok u =>
      obtain ⟨k, rfl, hspelled⟩ := spelled_of_skipString hk
      rw [hk, ok_bind] at h
      split at h
      · cases h
      rename_i d v hd
      obtain ⟨b', hb', rfl⟩ := exists_blanks_cons hd
      split at h
      · cases h
      rename_i hcolon
      cases hv : skip n .value v with
      | error f =>
        rw [hv] at h
        cases h
      | ok w =>
        rw [hv, ok_bind] at h
        rw [Decidable.not_not.1 hq, Decidable.not_not.1 hcolon]
        split at h
        · cases h
        rename_i e t he
        obtain ⟨b'', hb'', rfl⟩ := exists_blanks_cons he
        split at h
        · rename_i hcomma
          exact ⟨b, k, b', v, b'', t, hb, hspelled, hb', rfl, hb'', .inr ⟨hcomma ▸ hv, h⟩⟩
        split at h
        · rename_i hclose
          cases h
          exact ⟨b, k, b', v, b'', [], hb, hspelled, hb', rfl, hb'', .inl (hclose ▸ hv)⟩
        · cases h
  · rintro ⟨b, k, b', v, b'', t, hb, hk, hb', rfl, hb'', h⟩
    rw [dropBlanks_append hb (by decide)]
    dsimp only
    rw [if_neg (by decide), hk.skipString, ok_bind, dropBlanks_append hb' (by decide)]
    dsimp only
    rw [if_neg (by decide)]
    rcases h with h | ⟨h, ht⟩ <;> rw [h, ok_bind, dropBlanks_append hb'' (by decide)]
    · rfl
    · exact ht

/-- **What one step takes of a value.** -/
theorem of_skip_value (h : skip (n + 1) .value s = .ok r) : ∃ b c t, Blanks b ∧ s = b ++ c :: t ∧
    (c = quote ∧ skipString t = .ok r ∨
      c = openList ∧ (∃ b' u, Blanks b' ∧ t = b' ++ u ∧ (u = closeList :: r ∨ skip n .elements u = .ok r)) ∨
      c = openObject ∧ (∃ b' u, Blanks b' ∧ t = b' ++ u ∧ (u = closeObject :: r ∨ skip n .members u = .ok r)) ∨
      c = minus ∧ skipNumber t = .ok r ∨ skipNumber (c :: t) = .ok r ∨
      ∃ f cs, literal? c = some (f, cs) ∧ t = cs ++ r) := by
  cases hc : dropBlanks s with
  | nil =>
    rw [skip, hc] at h
    cases h
  | cons c t =>
    obtain ⟨b, hb, rfl⟩ := exists_blanks_cons hc
    refine ⟨b, c, t, hb, rfl, ?_⟩
    rw [skip_value_cons hc] at h
    split at h
    · rename_i hq
      exact .inl ⟨hq, h⟩
    split at h
    · rename_i hopen
      refine .inr (.inl ⟨hopen, ?_⟩)
      split at h
      · cases h
      rename_i d u hd
      obtain ⟨b', hb', rfl⟩ := exists_blanks_cons hd
      refine ⟨b', d :: u, hb', rfl, ?_⟩
      split at h
      · rename_i hclose
        cases h
        exact .inl (by rw [hclose])
      · exact .inr h
    split at h
    · rename_i hopen
      refine .inr (.inr (.inl ⟨hopen, ?_⟩))
      split at h
      · cases h
      rename_i d u hd
      obtain ⟨b', hb', rfl⟩ := exists_blanks_cons hd
      refine ⟨b', d :: u, hb', rfl, ?_⟩
      split at h
      · rename_i hclose
        cases h
        exact .inl (by rw [hclose])
      · exact .inr h
    split at h
    · rename_i hminus
      exact .inr (.inr (.inr (.inl ⟨hminus, h⟩)))
    split at h
    · exact .inr (.inr (.inr (.inr (.inl h))))
    split at h
    · rename_i f cs hf
      exact .inr (.inr (.inr (.inr (.inr ⟨f, cs, hf, append_of_literal h⟩))))
    · cases h

end Step

/-! ## Skipping -/

theorem ends_blanks {b r : List UInt8} {c : UInt8} (hb : Blanks b) (hc : Ends (c :: r)) : Ends (b ++ c :: r) := by
  cases b with
  | nil => exact hc
  | cons d b =>
    rintro _ ⟨⟩
    rcases of_isBlank (hb d List.mem_cons_self) with rfl | rfl | rfl | rfl <;>
      exact ⟨by decide, by decide, by decide, by decide⟩

theorem ends_comma (r : List UInt8) : Ends (comma :: r) := by rintro _ ⟨⟩; decide

theorem ends_closeList (r : List UInt8) : Ends (closeList :: r) := by rintro _ ⟨⟩; decide

theorem ends_closeObject (r : List UInt8) : Ends (closeObject :: r) := by rintro _ ⟨⟩; decide

theorem IsValue.head {v : List UInt8} (h : IsValue v) : ∃ c r, v = c :: r ∧ Starts c := by
  have hbyte : ∀ c, c ∈ [quote, minus, openList, openObject, 0x6E, 0x74, 0x66] → Starts c := by
    simp only [List.mem_cons, List.not_mem_nil, or_false]
    rintro c (rfl | rfl | rfl | rfl | rfl | rfl | rfl) <;> exact ⟨by decide, by decide, by decide, by decide⟩
  cases h with
  | number h =>
    obtain ⟨rfl | rfl, hd, -, -, -⟩ := h
    · obtain ⟨d, ds, rfl⟩ := List.exists_cons_of_ne_nil hd.1
      exact ⟨d, _, rfl, starts_of_isDigit (hd.2 d List.mem_cons_self)⟩
    · exact ⟨minus, _, rfl, hbyte _ (by decide)⟩
  | _ => exact ⟨_, _, rfl, hbyte _ (by decide)⟩

theorem Elements.head {s : List UInt8} {vs : List (List UInt8)} (h : Elements s vs) : ∃ c r, s = c :: r ∧ Starts c := by
  cases h with
  | last hv _ =>
    obtain ⟨c, r, rfl, hc⟩ := hv.head
    exact ⟨c, _, rfl, hc⟩
  | more hv _ _ _ =>
    obtain ⟨c, r, rfl, hc⟩ := hv.head
    exact ⟨c, _, rfl, hc⟩

theorem Entries.head {s : List UInt8} {ms : List (List UInt8 × List UInt8)} (h : Entries s ms) :
    ∃ r, s = quote :: r := by
  cases h <;> exact ⟨_, rfl⟩

/-- By induction on the fuel: whatever a value holds is shorter than the value. -/
theorem skip_of_length_lt (n : Nat) {b r : List UInt8} (hb : Blanks b) :
    (∀ {v}, IsValue v → v.length < n → Ends r → skip n .value (b ++ (v ++ r)) = .ok r) ∧
      (∀ {s vs}, Elements s vs → s.length < n → skip n .elements (b ++ (s ++ r)) = .ok r) ∧
      ∀ {s ms}, Entries s ms → s.length < n → skip n .members (b ++ (s ++ r)) = .ok r := by
  induction n generalizing b r with
  | zero => exact ⟨nofun, nofun, nofun⟩
  | succ n ih =>
    refine ⟨fun {v} hv hlen hr => ?_, fun {s vs} hs hlen => ?_, fun {s ms} hs hlen => ?_⟩
    · cases hv with
      | text h => simpa using skip_text hb h
      | number h => exact skip_number hb h hr
      | null => exact skip_null hb
      | true => exact skip_true hb
      | false => exact skip_false hb
      | noElements h => simpa using skip_noElements hb h
      | noMembers h => simpa using skip_noMembers hb h
      | @list b' s vs hb' h =>
        obtain ⟨c, t, rfl, hc⟩ := h.head
        have hstep := skip_list (n := n) (r := t ++ r) hb hb' hc
        have hlen' : (c :: t).length < n := by simp at hlen ⊢; omega
        have hskip := (ih (b := []) (r := r) blanks_nil).2.1 h hlen'
        simpa using hstep.trans hskip
      | @object b' s ms hb' h =>
        obtain ⟨t, rfl⟩ := h.head
        have hstep := skip_object (n := n) (c := quote) (r := t ++ r) hb hb' (by unfold Starts; decide)
        have hlen' : (quote :: t).length < n := by simp at hlen ⊢; omega
        have hskip := (ih (b := []) (r := r) blanks_nil).2.2 h hlen'
        simpa using hstep.trans hskip
    · rw [skip_elements_iff]
      cases hs with
      | @last v b' hv hb' =>
        have hlen' : v.length < n := by simp at hlen; omega
        have hskip := (ih (r := b' ++ closeList :: r) hb).1 hv hlen' (ends_blanks hb' (ends_closeList r))
        exact ⟨b', [], hb', .inl (by simpa using hskip)⟩
      | @more v b₁ b₂ s vs hv hb₁ hb₂ h =>
        have hlen₁ : v.length < n := by simp at hlen; omega
        have hlen₂ : s.length < n := by simp at hlen; omega
        have hskip := (ih (r := b₁ ++ comma :: (b₂ ++ (s ++ r))) hb).1 hv hlen₁ (ends_blanks hb₁ (ends_comma _))
        exact ⟨b₁, b₂ ++ (s ++ r), hb₁, .inr ⟨by simpa using hskip, (ih hb₂).2.1 h hlen₂⟩⟩
    · rw [skip_members_iff]
      cases hs with
      | @last k b₁ b₂ v b₃ hk hb₁ hb₂ hv hb₃ =>
        have hlen' : v.length < n := by simp at hlen; omega
        have hskip := (ih (r := b₃ ++ closeObject :: r) hb₂).1 hv hlen' (ends_blanks hb₃ (ends_closeObject r))
        exact ⟨b, k, b₁, b₂ ++ (v ++ (b₃ ++ closeObject :: r)), b₃, [], hb, hk, hb₁, by simp, hb₃, .inl hskip⟩
      | @more k b₁ b₂ v b₃ b₄ s ms hk hb₁ hb₂ hv hb₃ hb₄ h =>
        have hlen₁ : v.length < n := by simp at hlen; omega
        have hlen₂ : s.length < n := by simp at hlen; omega
        have hskip := (ih (r := b₃ ++ comma :: (b₄ ++ (s ++ r))) hb₂).1 hv hlen₁ (ends_blanks hb₃ (ends_comma _))
        exact ⟨b, k, b₁, b₂ ++ (v ++ (b₃ ++ comma :: (b₄ ++ (s ++ r)))), b₃, b₄ ++ (s ++ r), hb, hk, hb₁, by simp, hb₃,
          .inr ⟨hskip, (ih hb₄).2.2 h hlen₂⟩⟩

/-- **A value is skipped up to what follows it.** -/
theorem IsValue.skipped {v b r : List UInt8} (h : IsValue v) (hb : Blanks b) (hr : Ends r) :
    skipValue (b ++ (v ++ r)) = .ok r := by
  have hlen : v.length < 2 * (b ++ (v ++ r)).length + 1 := by simp only [List.length_append]; omega
  exact (skip_of_length_lt _ hb).1 h hlen hr

/-- Whatever is skipped is there, by induction on the fuel. -/
theorem of_skip (n : Nat) {s r : List UInt8} :
    (skip n .value s = .ok r → ∃ b v, Blanks b ∧ IsValue v ∧ s = b ++ (v ++ r)) ∧
      (skip n .elements s = .ok r → ∃ b t vs, Blanks b ∧ Elements t vs ∧ s = b ++ (t ++ r)) ∧
      (skip n .members s = .ok r → ∃ b t ms, Blanks b ∧ Entries t ms ∧ s = b ++ (t ++ r)) := by
  induction n generalizing s r with
  | zero => exact ⟨nofun, nofun, nofun⟩
  | succ n ih =>
    refine ⟨fun h => ?_, fun h => ?_, fun h => ?_⟩
    · obtain ⟨b, c, t, hb, rfl, hcase⟩ := of_skip_value h
      rcases hcase with ⟨rfl, ht⟩ | ⟨rfl, b', u, hb', rfl, rfl | hu⟩ | ⟨rfl, b', u, hb', rfl, rfl | hu⟩ | ⟨rfl, ht⟩ |
        ht | ⟨f, cs, hf, rfl⟩
      · obtain ⟨body, rfl, hbody⟩ := spelled_of_skipString ht
        exact ⟨b, _, hb, .text hbody, by simp⟩
      · exact ⟨b, _, hb, .noElements hb', by simp⟩
      · obtain ⟨b'', t, vs, hb'', ht, rfl⟩ := ih.2.1 hu
        exact ⟨b, _, hb, .list (hb'.append hb'') ht, by simp⟩
      · exact ⟨b, _, hb, .noMembers hb', by simp⟩
      · obtain ⟨b'', t, ms, hb'', ht, rfl⟩ := ih.2.2 hu
        exact ⟨b, _, hb, .object (hb'.append hb'') ht, by simp⟩
      · obtain ⟨ds, f, e, rfl, hd, hz, hf, he⟩ := number_of_skipNumber ht
        exact ⟨b, _, hb, .number (.mk (.inr rfl) hd hz hf he), by simp⟩
      · obtain ⟨ds, f, e, hs, hd, hz, hf, he⟩ := number_of_skipNumber ht
        exact ⟨b, _, hb, .number (.mk (.inl rfl) hd hz hf he), by simp [hs]⟩
      · exact ⟨b, _, hb, isValue_of_literal hf, by simp⟩
    · obtain ⟨b, t, hb, h | ⟨h, ht⟩⟩ := skip_elements_iff.1 h
      · obtain ⟨b', v, hb', hv, rfl⟩ := ih.1 h
        exact ⟨b', _, [v], hb', .last hv hb, by simp⟩
      · obtain ⟨b', v, hb', hv, rfl⟩ := ih.1 h
        obtain ⟨b'', u, vs, hb'', hu, rfl⟩ := ih.2.1 ht
        exact ⟨b', _, v :: vs, hb', .more hv hb hb'' hu, by simp⟩
    · obtain ⟨b, k, b', v, b'', t, hb, hk, hb', rfl, hb'', h | ⟨h, ht⟩⟩ := skip_members_iff.1 h
      · obtain ⟨b₁, v, hb₁, hv, rfl⟩ := ih.1 h
        exact ⟨b, _, [(k, v)], hb, .last hk hb' hb₁ hv hb'', by simp⟩
      · obtain ⟨b₁, v, hb₁, hv, rfl⟩ := ih.1 h
        obtain ⟨b₂, u, ms, hb₂, hu, rfl⟩ := ih.2.2 ht
        exact ⟨b, _, (k, v) :: ms, hb, .more hk hb' hb₁ hv hb'' hb₂ hu, by simp⟩

/-- **What is skipped is a value.** -/
theorem isValue_of_skipValue {s r : List UInt8} (h : skipValue s = .ok r) :
    ∃ b v, Blanks b ∧ IsValue v ∧ s = b ++ (v ++ r) := (of_skip _).1 h

end LedgerClient.Json
