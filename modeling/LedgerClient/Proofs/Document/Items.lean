import LedgerClient.Proofs.Document.Skipping
/-!
# Items of objects and lists

An object or a list is read item by item up to its closing bracket.  `MembersTo` and `ElementsTo` follow that reading;
what is read from the first item on is an object or a list by the grammar (`membersTo_first_iff`,
`elementsTo_first_iff`).  A reader of members that takes each member as told takes all of them so (`members_eq_ok_iff`).
-/
namespace LedgerClient.Json

/-- An object, with the body of each key and each value in the order of the text. -/
inductive IsObjectOf : List UInt8 → List (List UInt8 × List UInt8) → Prop where
  | empty {b : List UInt8} (hb : Blanks b) : IsObjectOf (openObject :: (b ++ [closeObject])) []
  | members {b s : List UInt8} {ms : List (List UInt8 × List UInt8)} (hb : Blanks b) (h : Entries s ms) :
      IsObjectOf (openObject :: (b ++ s)) ms

/-- A list, with its elements. -/
inductive IsListOf : List UInt8 → List (List UInt8) → Prop where
  | empty {b : List UInt8} (hb : Blanks b) : IsListOf (openList :: (b ++ [closeList])) []
  | elements {b s : List UInt8} {vs : List (List UInt8)} (hb : Blanks b) (h : Elements s vs) :
      IsListOf (openList :: (b ++ s)) vs

theorem IsObjectOf.isValue {s : List UInt8} {ms : List (List UInt8 × List UInt8)} (h : IsObjectOf s ms) : IsValue s := by
  cases h with
  | empty hb => exact .noMembers hb
  | members hb h => exact .object hb h

theorem IsListOf.isValue {s : List UInt8} {vs : List (List UInt8)} (h : IsListOf s vs) : IsValue s := by
  cases h with
  | empty hb => exact .noElements hb
  | elements hb h => exact .list hb h

/-- What stands between quotes spells one text at most. -/
theorem Body.unique {s t u : List UInt8} (h : Body s t) (h' : Body s u) : t = u :=
  (Prod.mk.inj (Except.ok.inj ((h.read []).symm.trans (h'.read [])))).1

/-! ## Up to the closing bracket -/

/-- What stands before an item: blanks, and a comma unless it is the first. -/
inductive Lead : Bool → List UInt8 → Prop where
  | first {b : List UInt8} (hb : Blanks b) : Lead true b
  | next {b b' : List UInt8} (hb : Blanks b) (hb' : Blanks b') : Lead false (b ++ comma :: b')

theorem Lead.append {first : Bool} {lead b : List UInt8} (h : Lead first lead) (hb : Blanks b) :
    Lead first (lead ++ b) := by
  cases h with
  | first h => exact .first (h.append hb)
  | next h h' =>
    rw [List.append_assoc, List.cons_append]
    exact .next h (h'.append hb)

/-- The members that are left of an object, and what follows its closing brace. -/
inductive MembersTo (r : List UInt8) : Bool → List UInt8 → List (List UInt8 × List UInt8) → Prop where
  | close {first : Bool} {b : List UInt8} (hb : Blanks b) : MembersTo r first (b ++ closeObject :: r) []
  | item {first : Bool} {lead k b b' v s : List UInt8} {ms : List (List UInt8 × List UInt8)} (hlead : Lead first lead)
      (hk : Spelled k) (hb : Blanks b) (hb' : Blanks b') (hv : IsValue v) (h : MembersTo r false s ms) :
      MembersTo r first (lead ++ quote :: (k ++ quote :: (b ++ colon :: (b' ++ (v ++ s))))) ((k, v) :: ms)

/-- The elements that are left of a list, and what follows its closing bracket. -/
inductive ElementsTo (r : List UInt8) : Bool → List UInt8 → List (List UInt8) → Prop where
  | close {first : Bool} {b : List UInt8} (hb : Blanks b) : ElementsTo r first (b ++ closeList :: r) []
  | item {first : Bool} {lead v s : List UInt8} {vs : List (List UInt8)} (hlead : Lead first lead) (hv : IsValue v)
      (h : ElementsTo r false s vs) : ElementsTo r first (lead ++ (v ++ s)) (v :: vs)

section Grammar

variable {r s : List UInt8} {first : Bool}

theorem MembersTo.entries {ms : List (List UInt8 × List UInt8)} (h : MembersTo r first s ms) (hne : ms ≠ []) :
    ∃ lead t, Lead first lead ∧ Entries t ms ∧ s = lead ++ (t ++ r) := by
  induction h with
  | close => exact absurd rfl hne
  | @item first lead k b b' v s ms hlead hk hb hb' hv h ih =>
    cases h with
    | close hclose => exact ⟨lead, _, hlead, .last hk hb hb' hv hclose, by simp⟩
    | item _ _ _ _ _ _ =>
      obtain ⟨lead', t, hlead', ht, he⟩ := ih (List.cons_ne_nil _ _)
      obtain _ | ⟨h₁, h₂⟩ := hlead'
      exact ⟨lead, _, hlead, .more hk hb hb' hv h₁ h₂ ht, by rw [he]; simp⟩

theorem MembersTo.of_entries {t lead : List UInt8} {ms : List (List UInt8 × List UInt8)} (h : Entries t ms)
    (hlead : Lead first lead) : MembersTo r first (lead ++ (t ++ r)) ms := by
  induction ms generalizing t first lead with
  | nil => cases h
  | cons m ms ih =>
    cases h with
    | last hk hb hb' hv hclose => simpa using MembersTo.item hlead hk hb hb' hv (.close hclose)
    | more hk hb hb' hv h₁ h₂ ht => simpa using MembersTo.item hlead hk hb hb' hv (ih ht (.next h₁ h₂))

/-- **Members from the first on are those of an object.** -/
theorem membersTo_first_iff {ms : List (List UInt8 × List UInt8)} :
    MembersTo r true s ms ↔ ∃ t, IsObjectOf (openObject :: t) ms ∧ s = t ++ r := by
  constructor
  · intro h
    cases ms with
    | nil =>
      obtain ⟨hb⟩ := h
      exact ⟨_, .empty hb, by simp⟩
    | cons m ms =>
      obtain ⟨_, t, ⟨hb⟩, ht, rfl⟩ := h.entries (List.cons_ne_nil m ms)
      exact ⟨_, .members hb ht, by simp⟩
  · rintro ⟨t, h, rfl⟩
    cases h with
    | empty hb => simpa using (MembersTo.close hb : MembersTo r true _ [])
    | members hb h => simpa using MembersTo.of_entries (r := r) h (.first hb)

theorem ElementsTo.elements {vs : List (List UInt8)} (h : ElementsTo r first s vs) (hne : vs ≠ []) :
    ∃ lead t, Lead first lead ∧ Elements t vs ∧ s = lead ++ (t ++ r) := by
  induction h with
  | close => exact absurd rfl hne
  | @item first lead v s vs hlead hv h ih =>
    cases h with
    | close hclose => exact ⟨lead, _, hlead, .last hv hclose, by simp⟩
    | item _ _ _ =>
      obtain ⟨lead', t, hlead', ht, he⟩ := ih (List.cons_ne_nil _ _)
      obtain _ | ⟨h₁, h₂⟩ := hlead'
      exact ⟨lead, _, hlead, .more hv h₁ h₂ ht, by rw [he]; simp⟩

theorem ElementsTo.of_elements {t lead : List UInt8} {vs : List (List UInt8)} (h : Elements t vs)
    (hlead : Lead first lead) : ElementsTo r first (lead ++ (t ++ r)) vs := by
  induction vs generalizing t first lead with
  | nil => cases h
  | cons v vs ih =>
    cases h with
    | last hv hclose => simpa using ElementsTo.item hlead hv (.close hclose)
    | more hv h₁ h₂ ht => simpa using ElementsTo.item hlead hv (ih ht (.next h₁ h₂))

/-- **Elements from the first on are those of a list.** -/
theorem elementsTo_first_iff {vs : List (List UInt8)} :
    ElementsTo r true s vs ↔ ∃ t, IsListOf (openList :: t) vs ∧ s = t ++ r := by
  constructor
  · intro h
    cases vs with
    | nil =>
      obtain ⟨hb⟩ := h
      exact ⟨_, .empty hb, by simp⟩
    | cons v vs =>
      obtain ⟨_, t, ⟨hb⟩, ht, rfl⟩ := h.elements (List.cons_ne_nil v vs)
      exact ⟨_, .elements hb ht, by simp⟩
  · rintro ⟨t, h, rfl⟩
    cases h with
    | empty hb => simpa using (ElementsTo.close hb : ElementsTo r true _ [])
    | elements hb h => simpa using ElementsTo.of_elements (r := r) h (.first hb)

theorem MembersTo.length_le {ms : List (List UInt8 × List UInt8)} (h : MembersTo r first s ms) :
    ms.length ≤ s.length := by
  induction h with
  | close => exact Nat.zero_le _
  | item _ _ _ _ _ _ ih =>
    simp only [List.length_cons, List.length_append] at ih ⊢
    omega

theorem MembersTo.isValue {ms : List (List UInt8 × List UInt8)} (h : MembersTo r first s ms) :
    ∀ m ∈ ms, IsValue m.2 := by
  induction h with
  | close => exact nofun
  | item _ _ _ _ hv _ ih => exact List.forall_mem_cons.2 ⟨hv, ih⟩

/-- Nothing that a number could go on with comes after a value of an object. -/
theorem MembersTo.ends {ms : List (List UInt8 × List UInt8)} (h : MembersTo r false s ms) : Ends s := by
  cases h with
  | close hb => exact ends_blanks hb (ends_closeObject r)
  | item hlead _ _ _ _ _ =>
    obtain _ | ⟨hb, hb'⟩ := hlead
    rw [List.append_assoc, List.cons_append]
    exact ends_blanks hb (ends_comma _)

end Grammar

/-! ## Members -/

theorem nextKey_lead {first : Bool} {lead : List UInt8} (h : Lead first lead) (rest : List UInt8) :
    nextKey first (lead ++ quote :: rest) = .ok (.item rest) := by
  cases h with
  | first hb => exact nextKey_first hb rest
  | next hb hb' => simpa using nextKey_comma hb hb' rest

/-- **What comes next in an object**: it is closed, or a key follows. -/
theorem of_nextKey {first : Bool} {s : List UInt8} {next : Next} (h : nextKey first s = .ok next) :
    (∃ b rest, Blanks b ∧ s = b ++ closeObject :: rest ∧ next = .close rest) ∨
      ∃ lead rest, Lead first lead ∧ s = lead ++ quote :: rest ∧ next = .item rest := by
  unfold nextKey at h
  split at h
  · cases h
  rename_i c t hc
  obtain ⟨b, hb, rfl⟩ := exists_blanks_cons hc
  split at h
  · rename_i hclose
    cases h
    exact .inl ⟨b, t, hb, by rw [hclose], rfl⟩
  split at h
  · rename_i hfirst
    obtain ⟨rest, he, rfl⟩ := key_of_keyHere h
    exact .inr ⟨b, rest, hfirst ▸ .first hb, by rw [he], rfl⟩
  rename_i hfirst
  split at h
  · rename_i hcomma
    obtain ⟨rest, he, rfl⟩ := key_of_keyHere h
    obtain ⟨b', hb', rfl⟩ := exists_blanks_cons he
    exact .inr ⟨b ++ comma :: b', rest, Bool.eq_false_iff.2 hfirst ▸ .next hb hb', by rw [hcomma]; simp, rfl⟩
  · cases h

section Members

variable {σ : Type} (member : σ → String → List UInt8 → Except Fault (σ × List UInt8))
  (Takes : σ → String → List UInt8 → σ → Prop)

/-- A reader of members takes the value under a key as `Takes` says, and no other bytes. -/
structure Understands : Prop where
  read : ∀ {st key v st' b b' r}, Takes st key v st' → Blanks b → Blanks b' → Ends r →
    member st key (b ++ colon :: (b' ++ (v ++ r))) = .ok (st', r)
  taken : ∀ {st key s st' r}, member st key s = .ok (st', r) → ∃ b b' v, Blanks b ∧ Blanks b' ∧ IsValue v ∧
    Takes st key v st' ∧ s = b ++ colon :: (b' ++ (v ++ r))

/-- Members taken one after the other, each under the text its key spells. -/
inductive Run : σ → List (List UInt8 × List UInt8) → σ → Prop where
  | nil {st : σ} : Run st [] st
  | cons {st st' st'' : σ} {k v : List UInt8} {key : String} {ms : List (List UInt8 × List UInt8)}
      (hk : Body k (utf8 key)) (h : Takes st key v st') (hr : Run st' ms st'') : Run st ((k, v) :: ms) st''

variable {member Takes} {first : Bool} {s r : List UInt8} {st st' : σ} {ms : List (List UInt8 × List UInt8)}

theorem MembersTo.read (hmember : Understands member Takes) {n : Nat} (h : MembersTo r first s ms)
    (hrun : Run Takes st ms st') (hn : ms.length < n) : members member n first st s = .ok (st', r) := by
  induction h generalizing st n with
  | close hb =>
    cases hrun
    obtain ⟨k, rfl⟩ : ∃ k, n = k + 1 := ⟨n - 1, by omega⟩
    exact members_close member k _ (nextKey_close hb _ r)
  | item hlead _ hb hb' hv h ih =>
    obtain _ | ⟨hk, hv', hrun⟩ := hrun
    obtain ⟨k, rfl⟩ : ∃ k, n = k + 1 := ⟨n - 1, by omega⟩
    rw [members_item member k st (nextKey_lead hlead _), hk.readString, ok_bind]
    dsimp only
    rw [hmember.read hv' hb hb' h.ends, ok_bind]
    exact ih hrun (Nat.lt_of_succ_lt_succ hn)

theorem membersTo_of_members (hmember : Understands member Takes) {n : Nat}
    (h : members member n first st s = .ok (st', r)) : ∃ ms, MembersTo r first s ms ∧ Run Takes st ms st' := by
  induction n generalizing first st s with
  | zero => cases h
  | succ n ih =>
    cases hn : nextKey first s with
    | error f =>
      rw [members, hn] at h
      cases h
    | ok next =>
      obtain ⟨b, rest, hb, rfl, rfl⟩ | ⟨lead, rest, hlead, rfl, rfl⟩ := of_nextKey hn
      · rw [members_close member n st hn] at h
        cases h
        exact ⟨[], .close hb, .nil⟩
      rw [members_item member n st hn] at h
      obtain ⟨⟨st₁, u⟩, hitem, hrest⟩ := bind_eq_ok_iff.1 h
      obtain ⟨⟨key, w⟩, hk, hm⟩ := bind_eq_ok_iff.1 hitem
      obtain ⟨k, rfl, hbody⟩ := body_of_readString hk
      obtain ⟨b, b', v, hb, hb', hv, htakes, rfl⟩ := hmember.taken hm
      obtain ⟨ms, hms, hrun⟩ := ih hrest
      exact ⟨(k, v) :: ms, .item hlead hbody.spelled hb hb' hv hms, .cons hbody htakes hrun⟩

/-- **Members are read exactly if each can be taken in turn.** -/
theorem members_eq_ok_iff (hmember : Understands member Takes) {n : Nat} (hn : s.length < n) :
    members member n first st s = .ok (st', r) ↔ ∃ ms, MembersTo r first s ms ∧ Run Takes st ms st' :=
  ⟨membersTo_of_members hmember, fun ⟨_, h, hrun⟩ => h.read hmember hrun (Nat.lt_of_le_of_lt h.length_le hn)⟩

end Members

/-! ## Elements -/

theorem nextElement_lead {first : Bool} {lead : List UInt8} (h : Lead first lead) {c : UInt8} (hc : Starts c)
    (r : List UInt8) : nextElement first (lead ++ c :: r) = .ok (.item (c :: r)) := by
  obtain ⟨hblank, hcomma, hclose, -⟩ := hc
  cases h with
  | first hb =>
    rw [nextElement, dropBlanks_append hb hblank]
    dsimp only
    rw [if_neg hclose, if_pos rfl]
    exact if_neg hclose
  | @next b b' hb hb' =>
    rw [List.append_assoc, List.cons_append, nextElement, dropBlanks_append hb (by decide)]
    dsimp only
    rw [dropBlanks_append hb' hblank]
    exact if_neg hclose

theorem item_of_elementHere {s rest : List UInt8} (h : elementHere s = .ok (.item rest)) : rest = s := by
  cases s with
  | nil => cases h
  | cons b s =>
    rw [elementHere] at h
    split at h
    · cases h
    · cases h
      rfl

theorem lead_of_nextElement {first : Bool} {s rest : List UInt8} (h : nextElement first s = .ok (.item rest)) :
    ∃ lead, Lead first lead ∧ s = lead ++ rest := by
  unfold nextElement at h
  split at h
  · cases h
  rename_i c t hc
  obtain ⟨b, hb, rfl⟩ := exists_blanks_cons hc
  split at h
  · cases h
  split at h
  · rename_i hfirst
    obtain rfl := item_of_elementHere h
    exact ⟨b, hfirst ▸ .first hb, rfl⟩
  rename_i hfirst
  split at h
  · rename_i hcomma
    obtain rfl := item_of_elementHere h
    obtain ⟨b', hb', he⟩ := exists_blanks t
    refine ⟨b ++ comma :: b', Bool.eq_false_iff.2 hfirst ▸ .next hb hb', ?_⟩
    rw [hcomma, List.append_assoc, List.cons_append, ← he]
  · cases h

theorem close_of_nextElement {first : Bool} {s rest : List UInt8} (h : nextElement first s = .ok (.close rest)) :
    ∃ b, Blanks b ∧ s = b ++ closeList :: rest := by
  have hhere : ∀ t, elementHere t ≠ .ok (.close rest) := by
    intro t ht
    cases t with
    | nil => cases ht
    | cons c t =>
      rw [elementHere] at ht
      split at ht <;> cases ht
  unfold nextElement at h
  split at h
  · cases h
  rename_i c t hc
  obtain ⟨b, hb, rfl⟩ := exists_blanks_cons hc
  split at h
  · rename_i hclose
    cases h
    exact ⟨b, hb, by rw [hclose]⟩
  split at h
  · exact absurd h (hhere _)
  split at h
  · exact absurd h (hhere _)
  · cases h

/-- The closing bracket is nothing an element is led by. -/
theorem lead_ne_close {b lead r t : List UInt8} (hb : Blanks b) (hlead : Lead false lead) :
    b ++ closeList :: r ≠ lead ++ t := by
  intro h
  obtain _ | ⟨h₁, _⟩ := hlead
  have hdrop := congrArg dropBlanks h
  rw [List.append_assoc, List.cons_append, dropBlanks_append hb (by decide), dropBlanks_append h₁ (by decide)] at hdrop
  exact absurd (List.cons.inj hdrop).1 (by decide)

theorem endList_eq_ok_iff {s r : List UInt8} : endList s = .ok r ↔ ∃ b, Blanks b ∧ s = b ++ closeList :: r := by
  constructor
  · intro h
    unfold endList at h
    split at h
    · cases h
    rename_i c t hc
    obtain ⟨b, hb, rfl⟩ := exists_blanks_cons hc
    split at h
    · rename_i hclose
      cases h
      exact ⟨b, hb, by rw [hclose]⟩
    split at h
    · split at h <;> cases h
    · cases h
  · rintro ⟨b, hb, rfl⟩
    rw [endList, dropBlanks_append hb (by decide)]
    exact if_pos rfl

/-! ## Readers of single values -/

/-- A reader takes exactly the values that stand for what it gives, after blanks. -/
def Exact {α : Type} (read : List UInt8 → Reading α) (Stands : List UInt8 → α → Prop) : Prop :=
  (∀ {v a}, Stands v a → IsValue v) ∧
    ∀ {s a r}, read s = .ok (a, r) ↔ ∃ b v, Blanks b ∧ Stands v a ∧ s = b ++ (v ++ r)

theorem readText_exact : Exact readText IsText := by
  refine ⟨IsText.isValue, fun {s a r} => ⟨fun h => isText_of_readText h, ?_⟩⟩
  rintro ⟨b, v, hb, hv, rfl⟩
  exact hv.readText hb r

/-- A string, or `null`. -/
inductive IsOptionalText : List UInt8 → Option String → Prop where
  | text {s : List UInt8} {t : String} (h : IsText s t) : IsOptionalText s (some t)
  | null : IsOptionalText null none

theorem IsOptionalText.isValue {s : List UInt8} {o : Option String} (h : IsOptionalText s o) : IsValue s := by
  cases h with
  | text h => exact h.isValue
  | null => exact .null

theorem readOptionalText_exact : Exact readOptionalText IsOptionalText := by
  refine ⟨IsOptionalText.isValue, fun {s a r} => ⟨fun h => ?_, ?_⟩⟩
  · unfold readOptionalText at h
    split at h
    · rename_i c t hc
      obtain ⟨b, hb, rfl⟩ := exists_blanks_cons hc
      split at h
      · rename_i hn
        cases hl : literal [0x75, 0x6C, 0x6C] t with
        | error f =>
          rw [hl] at h
          cases h
        | ok u =>
          rw [hl] at h
          cases h
          exact ⟨b, null, hb, .null, by rw [hn, append_of_literal hl]; rfl⟩
      · cases ht : readText (c :: t) with
        | error f =>
          rw [ht] at h
          cases h
        | ok p =>
          rw [ht] at h
          cases h
          obtain ⟨b', v, hb', hv, he⟩ := isText_of_readText (t := p.1) (r := p.2) ht
          exact ⟨b ++ b', v, hb.append hb', .text hv, by rw [he]; simp⟩
    · cases h
  · rintro ⟨b, v, hb, hv, rfl⟩
    cases hv with
    | null =>
      rw [null, List.cons_append, readOptionalText, dropBlanks_append hb (by decide)]
      dsimp only
      rw [if_pos rfl, literal_append]
      rfl
    | text h =>
      obtain ⟨hbody⟩ := h
      have hread := (IsText.mk hbody).readText blanks_nil r
      rw [List.nil_append, List.cons_append] at hread
      rw [List.cons_append, readOptionalText, dropBlanks_append hb (by decide)]
      dsimp only
      rw [if_neg (by decide), hread]
      rfl

/-! ## Writing -/

/-- A member written from its key and a value that is written already. -/
def writtenMember (q : String × String) : List Char := writeText q.1.toList ++ ':' :: q.2.toList

def writtenObject (qs : List (String × String)) : String :=
  String.ofList ('{' :: ([','].intercalate (qs.map writtenMember) ++ ['}']))

/-- What stands between the quotes of a written key, and the bytes of the value. -/
def memberBytes (q : String × String) : List UInt8 × List UInt8 :=
  (Utf8.encode (q.1.toList.flatMap escapeChar), utf8 q.2)

theorem body_memberBytes (q : String × String) : Body (memberBytes q).1 (utf8 q.1) := body_escape q.1.toList

theorem encode_writtenMember (q : String × String) (s : List Char) : Utf8.encode (writtenMember q ++ s) =
    quote :: ((memberBytes q).1 ++ quote :: ([] ++ colon :: ([] ++ ((memberBytes q).2 ++ ([] ++ Utf8.encode s))))) := by
  simp only [writtenMember, writeText, Utf8.encode, memberBytes, utf8, List.flatMap_append, List.flatMap_cons,
    List.append_assoc, List.cons_append, List.nil_append]
  rfl

/-- **Written members are members.** -/
theorem entries_written (q : String × String) (qs : List (String × String))
    (h : ∀ m ∈ q :: qs, IsValue (utf8 m.2)) :
    Entries (Utf8.encode ([','].intercalate ((q :: qs).map writtenMember) ++ ['}'])) ((q :: qs).map memberBytes) := by
  induction qs generalizing q with
  | nil =>
    rw [List.map_singleton, List.intercalate_singleton, encode_writtenMember]
    exact .last (body_memberBytes q).spelled blanks_nil blanks_nil (h q List.mem_cons_self) blanks_nil
  | cons r qs ih =>
    obtain ⟨hq, hqs⟩ := List.forall_mem_cons.1 h
    rw [List.map_cons, List.map_cons, List.intercalate_cons_cons, List.append_assoc, List.append_assoc,
      encode_writtenMember, ← List.map_cons]
    exact .more (body_memberBytes q).spelled blanks_nil blanks_nil hq blanks_nil blanks_nil (ih r hqs)

theorem isObjectOf_written {qs : List (String × String)} (h : ∀ q ∈ qs, IsValue (utf8 q.2)) :
    IsObjectOf (utf8 (writtenObject qs)) (qs.map memberBytes) := by
  rw [utf8, writtenObject, String.toList_ofList]
  cases qs with
  | nil => exact .empty blanks_nil
  | cons q qs => exact .members blanks_nil (entries_written q qs h)

end LedgerClient.Json
