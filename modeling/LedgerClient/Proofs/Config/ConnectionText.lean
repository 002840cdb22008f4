import LedgerClient.CommandLine.Execution
import LedgerClient.Proofs.Config.Draft
import Mathlib.Data.List.Perm.Basic
/-!
# Which texts are connection strings

`Holds` says which values hold which profile: an object with each field once under its name, or a list of the fields in
order.  A text is read as a profile exactly if it is such a value with nothing but blanks around it, and refused as
invalid input otherwise (`ofConnection_exact`).  Other members may hold any value; but the keys of an object all have to
spell a text (`halfKeyed_refused`).
-/
namespace LedgerClient.Config

open Json (Blanks Body IsText IsOptionalText IsValue Exact Lead ElementsTo IsObjectOf IsListOf Reading)

/-- The elements are the fields of the profile, in order. -/
def InOrder (vs : List (List UInt8)) (p : Profile) : Prop := List.Forall₂ (fun v f => Gives f.1 v f.2) vs p.fields

/-- The value that holds a profile. -/
inductive Holds : List UInt8 → Profile → Prop where
  | object {s : List UInt8} {ms : List (List UInt8 × List UInt8)} {p : Profile} (h : IsObjectOf s ms) (hkeys : Keyed ms)
      (hp : ByName ms p) : Holds s p
  | list {s : List UInt8} {vs : List (List UInt8)} {p : Profile} (h : IsListOf s vs) (hp : InOrder vs p) : Holds s p

/-! ## Lists -/

section Lists

variable {α β : Type} {read : List UInt8 → Reading α} {Reads : List UInt8 → α → Prop}

theorem element_eq_ok_iff (hread : Exact read Reads) {i : Nat} {s r : List UInt8} {a : α} :
    element i read s = .ok (a, r) ↔ ∃ lead v, Lead (decide (i = 0)) lead ∧ Reads v a ∧ s = lead ++ (v ++ r) := by
  constructor
  · intro h
    obtain ⟨next, hnext, hnext'⟩ := bind_eq_ok_iff.1 h
    cases next with
    | close u => cases hnext'
    | item u =>
      obtain ⟨lead, hlead, rfl⟩ := Json.lead_of_nextElement hnext
      obtain ⟨b, v, hb, hv, rfl⟩ := hread.2.1 hnext'
      exact ⟨lead ++ b, v, hlead.append hb, hv, by simp⟩
  · rintro ⟨lead, v, hlead, hv, rfl⟩
    obtain ⟨c, t, rfl, hc⟩ := (hread.1 hv).head
    have hnext := Json.nextElement_lead hlead hc (t ++ r)
    exact bind_eq_ok_iff.2 ⟨_, hnext, hread.2.2 ⟨[], c :: t, Json.blanks_nil, hv, rfl⟩⟩

/-- The contract is read as the other elements are, if the list is not closed before it. -/
theorem contractElement_eq_ok {s r : List UInt8} {o : Option String} (h : contractElement s = .ok (o, r)) :
    (∃ lead v, Lead false lead ∧ IsOptionalText v o ∧ s = lead ++ (v ++ r)) ∨
      ∃ b u, Blanks b ∧ r = b ++ Json.closeList :: u := by
  obtain ⟨next, hnext, hnext'⟩ := bind_eq_ok_iff.1 h
  cases next with
  | close u =>
    cases hnext'
    obtain ⟨b, hb, hs⟩ := Json.close_of_nextElement hnext
    exact .inr ⟨b, u, hb, hs⟩
  | item u =>
    obtain ⟨lead, hlead, rfl⟩ := Json.lead_of_nextElement hnext
    obtain ⟨b, v, hb, hv, rfl⟩ := Json.readOptionalText_exact.2.1 hnext'
    exact .inl ⟨lead ++ b, v, hlead.append hb, hv, by simp⟩

theorem contractElement_append {lead v r : List UInt8} {o : Option String} (hlead : Lead false lead)
    (hv : IsOptionalText v o) : contractElement (lead ++ (v ++ r)) = .ok (o, r) := by
  obtain ⟨c, t, rfl, hc⟩ := hv.isValue.head
  have hnext := Json.nextElement_lead hlead hc (t ++ r)
  exact bind_eq_ok_iff.2 ⟨_, hnext, Json.readOptionalText_exact.2.2 ⟨[], c :: t, Json.blanks_nil, hv, rfl⟩⟩

theorem gives_text (name : String) {v : List UInt8} {t : String} (hname : name ≠ contractField)
    (h : Gives name v t) : IsText v t := by
  cases h with
  | text h => exact h
  | null => exact absurd rfl hname

theorem gives_contract_iff {v : List UInt8} {t : String} :
    Gives contractField v t ↔ ∃ o, IsOptionalText v o ∧ o.getD defaultContract = t := by
  constructor
  · generalize hname : contractField = name
    rintro (h | _)
    · exact ⟨_, .text h, rfl⟩
    · exact ⟨_, .null, rfl⟩
  · rintro ⟨o, h | _, rfl⟩
    · exact .text h
    · exact .null

/-- **Exactly the lists of a profile's fields are read as that profile.** -/
theorem elements_eq_ok_iff {s r : List UInt8} {p : Profile} :
    elements s = .ok (p, r) ↔ ∃ vs, ElementsTo r true s vs ∧ InOrder vs p := by
  have htext : ∀ {i s t r}, element i Json.readText s = .ok (t, r) ↔ _ := element_eq_ok_iff Json.readText_exact
  constructor
  · intro h
    obtain ⟨⟨t₁, s₁⟩, h₁, h⟩ := bind_eq_ok_iff.1 h
    obtain ⟨⟨o, s₂⟩, h₂, h⟩ := bind_eq_ok_iff.1 h
    obtain ⟨⟨t₃, s₃⟩, h₃, h⟩ := bind_eq_ok_iff.1 h
    obtain ⟨⟨t₄, s₄⟩, h₄, h⟩ := bind_eq_ok_iff.1 h
    obtain ⟨⟨t₅, s₅⟩, h₅, h⟩ := bind_eq_ok_iff.1 h
    obtain ⟨⟨t₆, s₆⟩, h₆, h⟩ := bind_eq_ok_iff.1 h
    obtain ⟨⟨t₇, s₇⟩, h₇, h⟩ := bind_eq_ok_iff.1 h
    obtain ⟨⟨t₈, s₈⟩, h₈, h⟩ := bind_eq_ok_iff.1 h
    obtain ⟨s₉, h₉, h⟩ := bind_eq_ok_iff.1 h
    cases h
    obtain ⟨l₁, v₁, hl₁, hv₁, rfl⟩ := htext.1 h₁
    obtain ⟨l₃, v₃, hl₃, hv₃, he₃⟩ := htext.1 h₃
    obtain ⟨l₂, v₂, hl₂, hv₂, rfl⟩ | ⟨b, u, hb, hclose⟩ := contractElement_eq_ok h₂
    · obtain ⟨l₄, v₄, hl₄, hv₄, rfl⟩ := htext.1 h₄
      obtain ⟨l₅, v₅, hl₅, hv₅, rfl⟩ := htext.1 h₅
      obtain ⟨l₆, v₆, hl₆, hv₆, rfl⟩ := htext.1 h₆
      obtain ⟨l₇, v₇, hl₇, hv₇, rfl⟩ := htext.1 h₇
      obtain ⟨l₈, v₈, hl₈, hv₈, rfl⟩ := htext.1 h₈
      obtain ⟨b, hb, rfl⟩ := Json.endList_eq_ok_iff.1 h₉
      subst he₃
      refine ⟨[v₁, v₂, v₃, v₄, v₅, v₆, v₇, v₈], ?_, ?_⟩
      · exact .item hl₁ hv₁.isValue (.item hl₂ hv₂.isValue (.item hl₃ hv₃.isValue (.item hl₄ hv₄.isValue
          (.item hl₅ hv₅.isValue (.item hl₆ hv₆.isValue (.item hl₇ hv₇.isValue (.item hl₈ hv₈.isValue
            (.close hb))))))))
      · exact .cons (.text hv₁) (.cons (gives_contract_iff.2 ⟨o, hv₂, rfl⟩) (.cons (.text hv₃) (.cons (.text hv₄)
          (.cons (.text hv₅) (.cons (.text hv₆) (.cons (.text hv₇) (.cons (.text hv₈) .nil)))))))
    · exact absurd (hclose.symm.trans he₃) (Json.lead_ne_close hb hl₃)
  · rintro ⟨vs, hvs, hp⟩
    obtain _ | ⟨g₁, _ | ⟨g₂, _ | ⟨g₃, _ | ⟨g₄, _ | ⟨g₅, _ | ⟨g₆, _ | ⟨g₇, _ | ⟨g₈, hnil⟩⟩⟩⟩⟩⟩⟩⟩ := hp
    cases hnil
    obtain _ | ⟨hl₁, -, _ | ⟨hl₂, -, _ | ⟨hl₃, -, _ | ⟨hl₄, -, _ | ⟨hl₅, -, _ | ⟨hl₆, -, _ | ⟨hl₇, -, _ |
      ⟨hl₈, -, ⟨hb⟩⟩⟩⟩⟩⟩⟩⟩⟩ := hvs
    obtain ⟨o, hv₂, hcontract⟩ := gives_contract_iff.1 g₂
    have hfirst : ∀ {lead v t r}, Lead true lead → IsText v t → element 0 Json.readText (lead ++ (v ++ r)) = .ok (t, r) :=
      fun hl hv => htext.2 ⟨_, _, hl, hv, rfl⟩
    have hnext : ∀ {i lead v t r}, Lead false lead → IsText v t →
        element (i + 1) Json.readText (lead ++ (v ++ r)) = .ok (t, r) := fun hl hv => htext.2 ⟨_, _, hl, hv, rfl⟩
    rw [elements, hfirst hl₁ (gives_text "channel_name" (by decide) g₁), ok_bind]
    dsimp only
    rw [contractElement_append hl₂ hv₂, ok_bind]
    dsimp only
    rw [hnext hl₃ (gives_text "msp_id" (by decide) g₃), ok_bind]
    dsimp only
    rw [hnext hl₄ (gives_text "cert_path" (by decide) g₄), ok_bind]
    dsimp only
    rw [hnext hl₅ (gives_text "key_path" (by decide) g₅), ok_bind]
    dsimp only
    rw [hnext hl₆ (gives_text "tls_cert_path" (by decide) g₆), ok_bind]
    dsimp only
    rw [hnext hl₇ (gives_text "peer_endpoint" (by decide) g₇), ok_bind]
    dsimp only
    rw [hnext hl₈ (gives_text "gateway_peer" (by decide) g₈), ok_bind]
    dsimp only
    have hdefault : o.getD ({} : Profile).contractName = p.contractName := hcontract
    rw [Json.endList_eq_ok_iff.2 ⟨_, hb, rfl⟩, ok_bind, hdefault]

end Lists

/-! ## Texts -/

/-- A text that is a value holding the profile, and blanks. -/
def Accepts (s : List UInt8) (p : Profile) : Prop :=
  ∃ b v b', Blanks b ∧ Blanks b' ∧ Holds v p ∧ s = b ++ (v ++ b')

theorem readProfile_eq_ok_iff {s : List UInt8} {p : Profile} : readProfile s = .ok p ↔ Accepts s p := by
  rw [readProfile, Json.finish_eq_ok_iff]
  constructor
  · rintro ⟨r, hr, hblanks⟩
    split at hr
    · cases hr
    rename_i c t hc
    obtain ⟨b, hb, rfl⟩ := Json.exists_blanks_cons hc
    split at hr
    · rename_i hopen
      obtain ⟨ms, hms, hkeys, hp⟩ := ofObject_eq_ok_iff.1 hr
      obtain ⟨u, hu, rfl⟩ := Json.membersTo_first_iff.1 hms
      exact ⟨b, _, r, hb, hblanks, .object hu hkeys hp, by rw [hopen]; rfl⟩
    split at hr
    · rename_i hopen
      obtain ⟨vs, hvs, hp⟩ := elements_eq_ok_iff.1 hr
      obtain ⟨u, hu, rfl⟩ := Json.elementsTo_first_iff.1 hvs
      exact ⟨b, _, r, hb, hblanks, .list hu hp, by rw [hopen]; rfl⟩
    · cases hr
  · rintro ⟨b, v, b', hb, hb', hv, rfl⟩
    refine ⟨b', ?_, hb'⟩
    cases hv with
    | object h hkeys hp =>
      obtain ⟨t, rfl⟩ : ∃ t, v = Json.openObject :: t := by cases h <;> exact ⟨_, rfl⟩
      rw [List.cons_append, Json.dropBlanks_append hb (by decide)]
      exact ofObject_eq_ok_iff.2 ⟨_, Json.membersTo_first_iff.2 ⟨t, h, rfl⟩, hkeys, hp⟩
    | list h hp =>
      obtain ⟨t, rfl⟩ : ∃ t, v = Json.openList :: t := by cases h <;> exact ⟨_, rfl⟩
      rw [List.cons_append, Json.dropBlanks_append hb (by decide)]
      exact elements_eq_ok_iff.2 ⟨_, Json.elementsTo_first_iff.2 ⟨t, h, rfl⟩, hp⟩

/-! ## Written profiles -/

/-- A field as a member, its value written as a string. -/
def writtenField (f : String × String) : String × String := (f.1, String.ofList (Json.writeText f.2.toList))

theorem isText_writtenField (f : String × String) : IsText (utf8 (writtenField f).2) f.2 := by
  have h := Json.isText_writeText f.2.toList
  rw [String.ofList_toList] at h
  rw [writtenField, utf8, String.toList_ofList]
  exact h

theorem under_written (name : String) (qs : List (String × String)) :
    Under name (qs.map Json.memberBytes) ((qs.filter (·.1 = name)).map fun q => utf8 q.2) := by
  induction qs with
  | nil => exact .nil
  | cons q qs ih =>
    have hbody := Json.body_memberBytes q
    by_cases he : q.1 = name
    · rw [List.filter_cons_of_pos (by simpa using he)]
      exact .hit (he ▸ hbody) ih
    · rw [List.filter_cons_of_neg (by simpa using he)]
      exact .miss (fun h => he (key_unique hbody h)) ih

theorem filter_key {α : Type} {l : List (String × α)} (h : (l.map Prod.fst).Nodup) {f : String × α} (hf : f ∈ l) :
    l.filter (·.1 = f.1) = [f] := by
  induction l with
  | nil => cases hf
  | cons x l ih =>
    obtain ⟨hx, hnodup⟩ := List.nodup_cons.1 h
    rcases List.mem_cons.1 hf with rfl | hf
    · have hrest : l.filter (·.1 = f.1) = [] := by
        refine List.filter_eq_nil_iff.2 fun y hy he => hx ?_
        rw [← of_decide_eq_true he]
        exact List.mem_map_of_mem hy
      rw [List.filter_cons_of_pos (by simp), hrest]
    · have hne : x.1 ≠ f.1 := fun he => hx (he ▸ List.mem_map_of_mem hf)
      rw [List.filter_cons_of_neg (by simpa using hne), ih hnodup hf]

/-- Whatever stands between them, and in whatever order, the members of a profile give its fields. -/
theorem byName_written {p : Profile} {others qs : List (String × String)} (hothers : ∀ q ∈ others, q.1 ∉ fieldNames)
    (hqs : qs.Perm (p.fields.map writtenField ++ others)) : ByName (qs.map Json.memberBytes) p := by
  intro f hf
  have hnone : others.filter (·.1 = f.1) = [] := by
    refine List.filter_eq_nil_iff.2 fun q hq he => hothers q hq ?_
    rw [of_decide_eq_true he]
    exact mem_fieldNames_of_mem hf
  have hown : (p.fields.map writtenField).filter (·.1 = f.1) = [writtenField f] := by
    rw [List.filter_map]
    have hnames : (p.fields.map Prod.fst).Nodup := (by decide : fieldNames.Nodup)
    exact congrArg (List.map writtenField) (filter_key hnames hf)
  have hfilter : (qs.filter (·.1 = f.1)).Perm [writtenField f] := by
    have hperm := hqs.filter (·.1 = f.1)
    rwa [List.filter_append, hown, hnone, List.append_nil] at hperm
  have hunder := under_written f.1 qs
  rw [List.perm_singleton.1 hfilter] at hunder
  exact .inl ⟨_, hunder, .text (isText_writtenField f)⟩

theorem accepts_written {p : Profile} {others qs : List (String × String)}
    (hothers : ∀ q ∈ others, q.1 ∉ fieldNames ∧ IsValue (utf8 q.2))
    (hqs : qs.Perm (p.fields.map writtenField ++ others)) : Accepts (utf8 (Json.writtenObject qs)) p := by
  have hvalues : ∀ q ∈ qs, IsValue (utf8 q.2) := by
    intro q hq
    rcases List.mem_append.1 (hqs.mem_iff.1 hq) with hown | hother
    · obtain ⟨f, -, rfl⟩ := List.mem_map.1 hown
      exact (isText_writtenField f).isValue
    · exact (hothers q hother).2
  have hkeys : Keyed (qs.map Json.memberBytes) := by
    intro m hm
    obtain ⟨q, -, rfl⟩ := List.mem_map.1 hm
    exact ⟨q.1, Json.body_memberBytes q⟩
  have hp := byName_written (fun q hq => (hothers q hq).1) hqs
  exact ⟨[], _, [], Json.blanks_nil, Json.blanks_nil, .object (Json.isObjectOf_written hvalues) hkeys hp, by simp⟩

/-! ## Connection strings -/

/-- A connection string as a call takes it. -/
def Profile.ofConnection (text : String) : Except CallError Profile :=
  (Profile.ofText text).mapError fun f => .invalidInput (.connectionString f)

theorem withConnection_eq (o : CommandLine.Options) (text : String) (s : Settings) :
    CommandLine.withConnection { o with connection := some text } s =
      ((Profile.ofConnection text).mapError .call).map fun p => { s with connection := p } := by
  cases h : Profile.ofText text <;>
    simp [CommandLine.withConnection, Profile.ofConnection, h, Except.map, Except.mapError]

theorem ofConnection_eq_ok_iff {text : String} {p : Profile} :
    Profile.ofConnection text = .ok p ↔ Accepts (utf8 text) p := by
  rw [Profile.ofConnection, ← readProfile_eq_ok_iff, ← Profile.ofText]
  cases Profile.ofText text <;> simp [Except.mapError]

/-- **Exactly the connection strings are read**, each as the profile it holds, all other texts are refused as invalid
input, and every profile is read from its members in any order and with any other members between them. -/
theorem ofConnection_exact :
    (∀ text p, Profile.ofConnection text = .ok p ↔ Accepts (utf8 text) p) ∧
      (∀ text, (∀ p, ¬ Accepts (utf8 text) p) →
        ∃ f, Profile.ofConnection text = .error (.invalidInput (.connectionString f))) ∧
      ∀ (p : Profile) (others qs : List (String × String)),
        (∀ q ∈ others, q.1 ∉ fieldNames ∧ IsValue (utf8 q.2)) → qs.Perm (p.fields.map writtenField ++ others) →
          Profile.ofConnection (Json.writtenObject qs) = .ok p := by
  refine ⟨fun text p => ofConnection_eq_ok_iff, fun text h => ?_, fun p others qs hothers hqs => ?_⟩
  · cases hread : Profile.ofConnection text with
    | ok p => exact absurd (ofConnection_eq_ok_iff.1 hread) (h p)
    | error e =>
      rw [Profile.ofConnection] at hread
      cases hf : Profile.ofText text with
      | ok p =>
        rw [hf] at hread
        cases hread
      | error f =>
        rw [hf] at hread
        cases hread
        exact ⟨f, rfl⟩
  · exact ofConnection_eq_ok_iff.2 (accepts_written hothers hqs)

/-- The default profile is read from its members in the reverse order, after one that is none of them. -/
theorem ofConnection_exact_reversed : Profile.ofConnection
    (Json.writtenObject (({} : Profile).fields.map writtenField ++ [("peer_port", "9051")]).reverse) = .ok {} := by
  have hport : IsValue (utf8 "9051") := by
    have hdigits : Json.Digits (utf8 "9051") := ⟨by decide, List.all_eq_true.1 (by decide)⟩
    have hnumber := Json.IsNumber.mk (.inl rfl) hdigits (fun h => absurd h (by decide)) .none .none
    exact .number hnumber
  have hothers : ∀ q ∈ [("peer_port", "9051")], q.1 ∉ fieldNames ∧ IsValue (utf8 q.2) :=
    List.forall_mem_singleton.2 ⟨by decide, hport⟩
  exact ofConnection_exact.2.2 {} [("peer_port", "9051")] _ hothers (List.reverse_perm _)

/-- Half of a character, spelled by number. -/
def half : List Char := ['\\', 'u', 'd', '8', '0', '0']

/-- The default profile, after a member whose key is half of a character. -/
def halfKeyed : String :=
  String.ofList ('{' :: '"' :: (half ++ '"' :: ':' :: '0' :: ',' ::
    ([','].intercalate ((({} : Profile).fields.map writtenField).map Json.writtenMember) ++ ['}'])))

theorem spelled_half : Json.Spelled (Utf8.encode half) := by
  have hex : Json.Hex4 [0x64, 0x38, 0x30, 0x30] 0xD800 :=
    .mk (by decide : Hex.digit? 0x64 = some 13) (by decide : Hex.digit? 0x38 = some 8)
      (by decide : Hex.digit? 0x30 = some 0) (by decide : Hex.digit? 0x30 = some 0)
  have hspelled := Json.Spelled.cons (.number hex) .nil
  exact hspelled

theorem not_body_half (t : List UInt8) : ¬ Body (Utf8.encode half) t := by
  intro h
  have hread := h.read []
  have hfails : Json.stringFrom Json.escape 0 (Utf8.encode half ++ [Json.quote]) = .error .unpairedSurrogate := by decide
  cases hfails.symm.trans hread

theorem readProfile_half (r : List UInt8) :
    readProfile (Json.openObject :: Json.quote :: (Utf8.encode half ++ Json.quote :: r)) = .error .unpairedSurrogate := by
  rfl

/-- Its key keeps an object from being read, although it is a member like any other in form. -/
theorem halfKeyed_refused : (∃ ms, IsObjectOf (utf8 halfKeyed) ms ∧ ByName ms {}) ∧
    ∀ p, Profile.ofConnection halfKeyed ≠ .ok p := by
  have hbytes : utf8 halfKeyed = Json.openObject :: ([] ++ Json.quote :: (Utf8.encode half ++ Json.quote :: ([] ++
      Json.colon :: ([] ++ ([0x30] ++ ([] ++ Json.comma :: ([] ++ Utf8.encode
        ([','].intercalate ((({} : Profile).fields.map writtenField).map Json.writtenMember) ++ ['}'])))))))) := by
    rw [utf8, halfKeyed, String.toList_ofList]
    simp only [Utf8.encode, List.flatMap_cons, List.flatMap_append]
    rfl
  have hzero : IsValue [0x30] := by
    have hdigits : Json.Digits [0x30] := ⟨by decide, List.all_eq_true.1 (by decide)⟩
    have hnumber := Json.IsNumber.mk (.inl rfl) hdigits (fun _ => rfl) .none .none
    exact .number hnumber
  constructor
  · have hfields : ∀ q ∈ ({} : Profile).fields.map writtenField, IsValue (utf8 q.2) := by
      intro q hq
      obtain ⟨f, -, rfl⟩ := List.mem_map.1 hq
      exact (isText_writtenField f).isValue
    have hentries := Json.entries_written (writtenField ("channel_name", ({} : Profile).channelName))
      (({} : Profile).fields.tail.map writtenField) hfields
    have hobject := IsObjectOf.members Json.blanks_nil (.more spelled_half Json.blanks_nil Json.blanks_nil hzero
      Json.blanks_nil Json.blanks_nil hentries)
    have hothers : ∀ q ∈ ([] : List (String × String)), q.1 ∉ fieldNames := List.forall_mem_nil _
    have hp := @byName_written {} [] _ hothers (List.Perm.of_eq (List.append_nil _).symm)
    refine ⟨_, hbytes ▸ hobject, fun f hf => ?_⟩
    rcases hp f hf with ⟨v, hunder, hgives⟩ | ⟨hc, hunder, hdefault⟩
    · exact .inl ⟨v, .miss (not_body_half _) hunder, hgives⟩
    · exact .inr ⟨hc, .miss (not_body_half _) hunder, hdefault⟩
  · intro p h
    have hread : Profile.ofText halfKeyed = .error .unpairedSurrogate := by
      rw [Profile.ofText, hbytes]
      exact readProfile_half _
    rw [Profile.ofConnection, hread] at h
    cases h

end LedgerClient.Config
