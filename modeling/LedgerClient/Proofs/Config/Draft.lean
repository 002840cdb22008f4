import LedgerClient.Config.ConnectionText
import LedgerClient.Proofs.Document.Items
/-!
# Objects that hold a profile

`ByName` says which members hold which profile: each field once under its name, where the contract may be left out, and
any other members.  A draft takes the members one after the other (`draft_understands`), and what it has of a field in
the end is what the members give it (`reached_of_run`).  So exactly such objects are read, if each key spells a text
(`ofObject_eq_ok_iff`).
-/
namespace LedgerClient.Config

open Json (Blanks Body IsText IsOptionalText IsValue Exact MembersTo Fault Reading)

/-! ## The format -/

/-- The values under the key `name`, in the order of the text. -/
inductive Under (name : String) : List (List UInt8 × List UInt8) → List (List UInt8) → Prop where
  | nil : Under name [] []
  | hit {k v : List UInt8} {ms : List (List UInt8 × List UInt8)} {vs : List (List UInt8)} (hk : Body k (utf8 name))
      (h : Under name ms vs) : Under name ((k, v) :: ms) (v :: vs)
  | miss {k v : List UInt8} {ms : List (List UInt8 × List UInt8)} {vs : List (List UInt8)} (hk : ¬ Body k (utf8 name))
      (h : Under name ms vs) : Under name ((k, v) :: ms) vs

def contractField : String := "contract_name"

def defaultContract : String := ({} : Profile).contractName

/-- What a value of a field gives the profile: its text, or for a contract that is `null` the default. -/
inductive Gives : String → List UInt8 → String → Prop where
  | text {name : String} {v : List UInt8} {t : String} (h : IsText v t) : Gives name v t
  | null : Gives contractField Json.null defaultContract

/-- Each field of the profile stands once under its name; the contract may be left out. -/
def ByName (ms : List (List UInt8 × List UInt8)) (p : Profile) : Prop :=
  ∀ f ∈ p.fields, (∃ v, Under f.1 ms [v] ∧ Gives f.1 v f.2) ∨
    f.1 = contractField ∧ Under f.1 ms [] ∧ f.2 = defaultContract

/-- Every key spells a text. -/
def Keyed (ms : List (List UInt8 × List UInt8)) : Prop := ∀ m ∈ ms, ∃ key, Body m.1 (utf8 key)

/-- The names of the fields, which are those of any profile. -/
def fieldNames : List String := ({} : Profile).fields.map Prod.fst

/-! ## Values under a key -/

section Keys

variable {name : String} {ms : List (List UInt8 × List UInt8)} {vs : List (List UInt8)} {k v : List UInt8}

theorem key_unique {key : String} (h : Body k (utf8 name)) (h' : Body k (utf8 key)) : name = key :=
  utf8_inj (h.unique h')

theorem Under.of_hit (hk : Body k (utf8 name)) (h : Under name ((k, v) :: ms) vs) :
    ∃ ws, vs = v :: ws ∧ Under name ms ws := by
  cases h with
  | hit _ h => exact ⟨_, rfl, h⟩
  | miss hmiss _ => exact absurd hk hmiss

theorem Under.of_miss (hk : ¬ Body k (utf8 name)) (h : Under name ((k, v) :: ms) vs) : Under name ms vs := by
  cases h with
  | hit hhit _ => exact absurd hhit hk
  | miss _ h => exact h

end Keys

/-! ## Drafts by name -/

/-- What was read of a field so far. -/
def Draft.get (d : Draft) : String → Option (Option String)
  | "channel_name" => d.channelName.map some
  | "contract_name" => d.contractName
  | "msp_id" => d.mspId.map some
  | "cert_path" => d.certPath.map some
  | "key_path" => d.keyPath.map some
  | "tls_cert_path" => d.tlsCertPath.map some
  | "peer_endpoint" => d.peerEndpoint.map some
  | "gateway_peer" => d.gatewayPeer.map some
  | _ => none

def Draft.set (d : Draft) (o : Option String) : String → Draft
  | "channel_name" => { d with channelName := o }
  | "contract_name" => { d with contractName := some o }
  | "msp_id" => { d with mspId := o }
  | "cert_path" => { d with certPath := o }
  | "key_path" => { d with keyPath := o }
  | "tls_cert_path" => { d with tlsCertPath := o }
  | "peer_endpoint" => { d with peerEndpoint := o }
  | "gateway_peer" => { d with gatewayPeer := o }
  | _ => d

/-- A value that is read as `o` under the key `name`. -/
inductive Stands : String → List UInt8 → Option String → Prop where
  | text {name : String} {v : List UInt8} {t : String} (h : IsText v t) : Stands name v (some t)
  | null : Stands contractField Json.null none

theorem mem_fieldNames {name : String} : name ∈ fieldNames ↔ name = "channel_name" ∨ name = "contract_name" ∨
    name = "msp_id" ∨ name = "cert_path" ∨ name = "key_path" ∨ name = "tls_cert_path" ∨ name = "peer_endpoint" ∨
      name = "gateway_peer" := by
  simp [fieldNames, Profile.fields]

section Drafts

variable {d : Draft} {name : String} {v s : List UInt8} {o : Option String}

theorem Draft.get_set (hname : name ∈ fieldNames) (h : Stands name v o) (other : String) :
    (d.set o name).get other = if other = name then some o else d.get other := by
  by_cases he : other = name
  · rw [if_pos he, he]
    cases h with
    | null => rfl
    | text _ => rcases mem_fieldNames.1 hname with rfl | rfl | rfl | rfl | rfl | rfl | rfl | rfl <;> rfl
  · rw [if_neg he]
    rcases mem_fieldNames.1 hname with rfl | rfl | rfl | rfl | rfl | rfl | rfl | rfl <;>
      (unfold Draft.get; split <;> first | rfl | exact absurd rfl he)

theorem Draft.member_text (hname : name ∈ fieldNames) (hc : name ≠ contractField) :
    d.member name s = (once name (d.get name).isSome Json.readText s >>= fun (t, r) => .ok (d.set (some t) name, r)) := by
  have hseen : ∀ (o : Option String) (k : String × List UInt8 → Except Fault (Draft × List UInt8)),
      (once name (o.map some).isSome Json.readText s >>= k) = (once name o.isSome Json.readText s >>= k) :=
    fun o k => by rw [Option.isSome_map]
  rcases mem_fieldNames.1 hname with rfl | rfl | rfl | rfl | rfl | rfl | rfl | rfl <;>
    first | exact absurd rfl hc | exact (hseen _ _).symm

theorem Draft.member_contract : d.member contractField s =
    (once contractField (d.get contractField).isSome Json.readOptionalText s >>= fun (o, r) =>
      .ok (d.set o contractField, r)) := rfl

theorem Draft.member_other (hname : name ∉ fieldNames) :
    d.member name s = (Json.dropColon s >>= fun r => Json.skipValue r >>= fun r => .ok (d, r)) := by
  simp only [mem_fieldNames, not_or] at hname
  unfold Draft.member
  split <;> simp_all

theorem need_eq_ok_iff {o : Option String} {t : String} : need o name = .ok t ↔ o = some t := by
  cases o <;> simp [need]

/-- **A draft is finished exactly if each field is there**, or may be left out. -/
theorem Draft.finish_eq_ok_iff {p : Profile} : d.finish = .ok p ↔ ∀ f ∈ p.fields, d.get f.1 = some (some f.2) ∨
    f.1 = contractField ∧ (d.get f.1).join = none ∧ f.2 = defaultContract := by
  have hcontract : d.contractName.join.getD defaultContract = p.contractName ↔
      d.contractName = some (some p.contractName) ∨ d.contractName.join = none ∧ p.contractName = defaultContract := by
    rcases d.contractName with _ | _ | t <;> simp [eq_comm]
  simp only [Draft.finish, bind_eq_ok_iff, need_eq_ok_iff, Profile.fields, List.forall_mem_cons]
  simp only [Except.ok.injEq, get, Option.map_eq_some_iff, Option.some.injEq, exists_eq_right, contractField,
    String.reduceEq, false_and, or_false, true_and, List.not_mem_nil, IsEmpty.forall_iff, implies_true, and_true]
  constructor
  · rintro ⟨_, h₁, _, h₃, _, h₄, _, h₅, _, h₆, _, h₇, _, h₈, rfl⟩
    exact ⟨h₁, hcontract.1 rfl, h₃, h₄, h₅, h₆, h₇, h₈⟩
  · rintro ⟨h₁, h₂, h₃, h₄, h₅, h₆, h₇, h₈⟩
    have hget : d.contractName.join.getD ({} : Profile).contractName = p.contractName := hcontract.2 h₂
    exact ⟨_, h₁, _, h₃, _, h₄, _, h₅, _, h₆, _, h₇, _, h₈, by rw [hget]⟩

end Drafts

/-! ## Objects -/

/-- What one member does to a draft. -/
inductive Takes : Draft → String → List UInt8 → Draft → Prop where
  | field {d : Draft} {name : String} {v : List UInt8} {o : Option String} (hname : name ∈ fieldNames)
      (hnew : d.get name = none) (h : Stands name v o) : Takes d name v (d.set o name)
  | other {d : Draft} {name : String} {v : List UInt8} (hname : name ∉ fieldNames) (h : IsValue v) : Takes d name v d

theorem once_eq_ok_iff {α : Type} {name : String} {seen : Bool} {read : List UInt8 → Reading α}
    {Reads : List UInt8 → α → Prop} (hread : Exact read Reads) {s r : List UInt8} {a : α} :
    once name seen read s = .ok (a, r) ↔ seen = false ∧
      ∃ b b' v, Blanks b ∧ Blanks b' ∧ Reads v a ∧ s = b ++ Json.colon :: (b' ++ (v ++ r)) := by
  constructor
  · intro h
    cases seen with
    | true => cases h
    | false =>
      obtain ⟨u, hu, hval⟩ := bind_eq_ok_iff.1 h
      obtain ⟨b, hb, rfl⟩ := Json.colon_of_dropColon hu
      obtain ⟨b', v, hb', hv, rfl⟩ := hread.2.1 hval
      exact ⟨rfl, b, b', v, hb, hb', hv, rfl⟩
  · rintro ⟨rfl, b, b', v, hb, hb', hv, rfl⟩
    exact bind_eq_ok_iff.2 ⟨_, Json.dropColon_blanks hb _, hread.2.2 ⟨b', v, hb', hv, rfl⟩⟩

theorem isOptionalText_iff {v : List UInt8} {o : Option String} : IsOptionalText v o ↔ Stands contractField v o := by
  constructor
  · rintro (h | _)
    · exact .text h
    · exact .null
  · generalize hname : contractField = name
    rintro (h | _)
    · exact .text h
    · exact .null

theorem stands_iff {name : String} (hname : name ≠ contractField) {v : List UInt8} {o : Option String} :
    Stands name v o ↔ ∃ t, o = some t ∧ IsText v t := by
  constructor
  · rintro (h | _)
    · exact ⟨_, rfl, h⟩
    · exact absurd rfl hname
  · rintro ⟨t, rfl, h⟩
    exact .text h

/-- **A field is read once**, and as its value stands. -/
theorem Draft.member_eq_ok_iff {d d' : Draft} {name : String} {s r : List UInt8} (hname : name ∈ fieldNames) :
    d.member name s = .ok (d', r) ↔ d.get name = none ∧ ∃ b b' v o, Blanks b ∧ Blanks b' ∧ Stands name v o ∧
      d' = d.set o name ∧ s = b ++ Json.colon :: (b' ++ (v ++ r)) := by
  have hnew : (d.get name).isSome = false ↔ d.get name = none := by rw [Option.isSome_eq_false_iff, Option.isNone_iff_eq_none]
  by_cases hc : name = contractField
  · subst hc
    rw [Draft.member_contract, bind_eq_ok_iff]
    constructor
    · rintro ⟨⟨o, u⟩, honce, h⟩
      obtain ⟨hseen, b, b', v, hb, hb', hv, rfl⟩ := (once_eq_ok_iff Json.readOptionalText_exact).1 honce
      cases h
      exact ⟨hnew.1 hseen, b, b', v, o, hb, hb', isOptionalText_iff.1 hv, rfl, rfl⟩
    · rintro ⟨hget, b, b', v, o, hb, hb', hv, rfl, rfl⟩
      exact ⟨(o, r), (once_eq_ok_iff Json.readOptionalText_exact).2
        ⟨hnew.2 hget, b, b', v, hb, hb', isOptionalText_iff.2 hv, rfl⟩, rfl⟩
  · rw [Draft.member_text hname hc, bind_eq_ok_iff]
    constructor
    · rintro ⟨⟨t, u⟩, honce, h⟩
      obtain ⟨hseen, b, b', v, hb, hb', hv, rfl⟩ := (once_eq_ok_iff Json.readText_exact).1 honce
      cases h
      exact ⟨hnew.1 hseen, b, b', v, some t, hb, hb', .text hv, rfl, rfl⟩
    · rintro ⟨hget, b, b', v, o, hb, hb', hv, rfl, rfl⟩
      obtain ⟨t, rfl, ht⟩ := (stands_iff hc).1 hv
      exact ⟨(t, r), (once_eq_ok_iff Json.readText_exact).2 ⟨hnew.2 hget, b, b', v, hb, hb', ht, rfl⟩, rfl⟩

theorem Stands.isValue {name : String} {v : List UInt8} {o : Option String} (h : Stands name v o) : IsValue v := by
  cases h with
  | text h => exact h.isValue
  | null => exact .null

/-- **Drafts take members as told.** -/
theorem draft_understands : Json.Understands Draft.member Takes where
  read := by
    rintro d key v d' b b' r (⟨hname, hnew, h⟩ | ⟨hname, h⟩) hb hb' hr
    · exact (Draft.member_eq_ok_iff hname).2 ⟨hnew, b, b', v, _, hb, hb', h, rfl, rfl⟩
    · rw [Draft.member_other hname, Json.dropColon_blanks hb, ok_bind, h.skipped hb' hr]
      rfl
  taken := by
    intro d key s d' r h
    by_cases hname : key ∈ fieldNames
    · obtain ⟨hnew, b, b', v, o, hb, hb', hv, rfl, rfl⟩ := (Draft.member_eq_ok_iff hname).1 h
      exact ⟨b, b', v, hb, hb', hv.isValue, .field hname hnew hv, rfl⟩
    · rw [Draft.member_other hname] at h
      obtain ⟨u, hu, h⟩ := bind_eq_ok_iff.1 h
      obtain ⟨w, hw, h⟩ := bind_eq_ok_iff.1 h
      cases h
      obtain ⟨b, hb, rfl⟩ := Json.colon_of_dropColon hu
      obtain ⟨b', v, hb', hv, rfl⟩ := Json.isValue_of_skipValue hw
      exact ⟨b, b', v, hb, hb', hv, .other hname hv, rfl⟩

/-- What members give a field that had `before`: nothing, so that it stays as it is, or its one value. -/
inductive Reached (name : String) (ms : List (List UInt8 × List UInt8)) :
    Option (Option String) → Option (Option String) → Prop where
  | kept {before : Option (Option String)} (h : Under name ms []) : Reached name ms before before
  | given {v : List UInt8} {o : Option String} (h : Under name ms [v]) (hv : Stands name v o) :
      Reached name ms none (some o)

theorem Reached.of_hit {name : String} {k v : List UInt8} {ms : List (List UInt8 × List UInt8)}
    {before after : Option (Option String)} (hk : Body k (utf8 name)) (h : Reached name ((k, v) :: ms) before after) :
    ∃ o, before = none ∧ Stands name v o ∧ Under name ms [] := by
  cases h with
  | kept hunder =>
    obtain ⟨_, hvs, _⟩ := hunder.of_hit hk
    cases hvs
  | @given w o hunder hv =>
    obtain ⟨_, hvs, hnone⟩ := hunder.of_hit hk
    obtain ⟨rfl, rfl⟩ := List.cons.inj hvs
    exact ⟨o, rfl, hv, hnone⟩

section Runs

variable {d d' : Draft} {ms : List (List UInt8 × List UInt8)}

theorem keyed_of_run (h : Json.Run Takes d ms d') : Keyed ms := by
  induction h with
  | nil => exact nofun
  | cons hk _ _ ih => exact List.forall_mem_cons.2 ⟨⟨_, hk⟩, ih⟩

/-- **A run leaves in each field what the members give it.** -/
theorem reached_of_run (h : Json.Run Takes d ms d') {name : String} (hname : name ∈ fieldNames) :
    Reached name ms (d.get name) (d'.get name) := by
  induction h with
  | nil => exact .kept .nil
  | @cons d d₁ d' k v key ms hk htakes _ ih =>
    by_cases he : key = name
    · subst he
      obtain ⟨hname', hnew, hv⟩ | ⟨hother, _⟩ := htakes
      · rw [Draft.get_set hname' hv, if_pos rfl] at ih
        rw [hnew]
        generalize d'.get key = after at ih ⊢
        cases ih with
        | kept h => exact .given (.hit hk h) hv
      · exact absurd hname hother
    · have hmiss : ¬ Body k (utf8 name) := fun hk' => he (key_unique hk hk')
      have hsame : d₁.get name = d.get name := by
        obtain ⟨hname', _, hv⟩ | _ := htakes
        · rw [Draft.get_set hname' hv, if_neg (Ne.symm he)]
        · rfl
      rw [hsame] at ih
      generalize d.get name = before, d'.get name = after at ih ⊢
      cases ih with
      | kept h => exact .kept (.miss hmiss h)
      | given h hv => exact .given (.miss hmiss h) hv

/-- **Members can be taken if each key spells a text and each field is given once at most.** -/
theorem exists_run (hkeys : Keyed ms) (hvalues : ∀ m ∈ ms, IsValue m.2)
    (h : ∀ name ∈ fieldNames, ∃ after, Reached name ms (d.get name) after) : ∃ d', Json.Run Takes d ms d' := by
  induction ms generalizing d with
  | nil => exact ⟨d, .nil⟩
  | cons m ms ih =>
    obtain ⟨k, v⟩ := m
    obtain ⟨⟨key, hk⟩, hkeys'⟩ := List.forall_mem_cons.1 hkeys
    obtain ⟨hv, hvalues'⟩ := List.forall_mem_cons.1 hvalues
    have hrest : ∀ {name before after}, Reached name ((k, v) :: ms) before after → key ≠ name →
        Reached name ms before after := by
      intro name before after hreached he
      have hmiss : ¬ Body k (utf8 name) := fun hk' => he (key_unique hk hk')
      cases hreached with
      | kept hunder => exact .kept (hunder.of_miss hmiss)
      | given hunder hstands => exact .given (hunder.of_miss hmiss) hstands
    by_cases hname : key ∈ fieldNames
    · obtain ⟨after, hreached⟩ := h key hname
      obtain ⟨o, hnew, hstands, hnone⟩ := hreached.of_hit hk
      have htakes : Takes d key v (d.set o key) := .field hname hnew hstands
      obtain ⟨d', hrun⟩ := ih (d := d.set o key) hkeys' hvalues' fun name hn => by
        by_cases he : key = name
        · exact ⟨_, .kept (he ▸ hnone)⟩
        · obtain ⟨after, hreached⟩ := h name hn
          rw [Draft.get_set hname hstands, if_neg (Ne.symm he)]
          exact ⟨after, hrest hreached he⟩
      exact ⟨d', .cons hk htakes hrun⟩
    · obtain ⟨d', hrun⟩ := ih hkeys' hvalues' fun name hn => by
        obtain ⟨after, hreached⟩ := h name hn
        exact ⟨after, hrest hreached fun he => hname (he ▸ hn)⟩
      exact ⟨d', .cons hk (.other hname hv) hrun⟩

end Runs

theorem Under.unique {name : String} {ms : List (List UInt8 × List UInt8)} {vs ws : List (List UInt8)}
    (h : Under name ms vs) (h' : Under name ms ws) : vs = ws := by
  induction h generalizing ws with
  | nil =>
    cases h'
    rfl
  | hit hk _ ih =>
    obtain ⟨us, rfl, hus⟩ := h'.of_hit hk
    rw [ih hus]
  | miss hk _ ih => exact ih (h'.of_miss hk)

theorem Stands.unique {name : String} {v : List UInt8} {o o' : Option String} (h : Stands name v o)
    (h' : Stands name v o') : o = o' := by
  have hnull : ∀ {t : String}, ¬ IsText Json.null t := fun h => by
    generalize hs : Json.null = s at h
    obtain ⟨_⟩ := h
    exact absurd (List.cons.inj hs).1 (by decide)
  cases h with
  | null =>
    cases h' with
    | null => rfl
    | text ht => exact absurd ht hnull
  | text ht =>
    cases h' with
    | null => exact absurd ht hnull
    | text ht' =>
      have hread := (ht.readText Json.blanks_nil []).symm.trans (ht'.readText Json.blanks_nil [])
      rw [(Prod.mk.inj (Except.ok.inj hread)).1]

theorem Reached.unique {name : String} {ms : List (List UInt8 × List UInt8)} {after after' : Option (Option String)}
    (h : Reached name ms none after) (h' : Reached name ms none after') : after = after' := by
  cases h with
  | kept h =>
    cases h' with
    | kept _ => rfl
    | given h' _ => cases h.unique h'
  | given h hv =>
    cases h' with
    | kept h' => cases h.unique h'
    | given h' hv' =>
      cases h.unique h'
      rw [hv.unique hv']

/-- What the members give a field is the text of the profile, or the default where that may stand in. -/
theorem exists_reached_iff {name t : String} {ms : List (List UInt8 × List UInt8)} :
    (∃ after, Reached name ms none after ∧
      (after = some (some t) ∨ name = contractField ∧ after.join = none ∧ t = defaultContract)) ↔
    (∃ v, Under name ms [v] ∧ Gives name v t) ∨ name = contractField ∧ Under name ms [] ∧ t = defaultContract := by
  constructor
  · rintro ⟨after, hreached, hafter⟩
    cases hreached with
    | kept h =>
      obtain hsome | ⟨hc, -, ht⟩ := hafter
      · cases hsome
      · exact .inr ⟨hc, h, ht⟩
    | @given v o h hv =>
      refine .inl ⟨v, h, ?_⟩
      cases hv with
      | text hv =>
        obtain hsome | ⟨-, hnone, -⟩ := hafter
        · cases hsome
          exact .text hv
        · cases hnone
      | null =>
        obtain hsome | ⟨-, -, rfl⟩ := hafter
        · cases hsome
        · exact .null
  · rintro (⟨v, h, hv⟩ | ⟨hc, h, ht⟩)
    · cases hv with
      | text hv => exact ⟨_, .given h (.text hv), .inl rfl⟩
      | null => exact ⟨_, .given h .null, .inr ⟨rfl, rfl, rfl⟩⟩
    · exact ⟨_, .kept h, .inr ⟨hc, rfl, ht⟩⟩

theorem Draft.get_empty (name : String) : ({} : Draft).get name = none := by
  unfold Draft.get
  split <;> rfl

theorem mem_fieldNames_of_mem {p : Profile} {f : String × String} (h : f ∈ p.fields) : f.1 ∈ fieldNames := by
  have hnames : fieldNames = p.fields.map Prod.fst := rfl
  exact hnames ▸ List.mem_map_of_mem h

theorem exists_field {name : String} (h : name ∈ fieldNames) (p : Profile) : ∃ f ∈ p.fields, f.1 = name :=
  List.mem_map.1 (show name ∈ p.fields.map Prod.fst from h)

/-- **Exactly the objects with a profile's fields are read as that profile.** -/
theorem ofObject_eq_ok_iff {s r : List UInt8} {p : Profile} :
    ofObject s = .ok (p, r) ↔ ∃ ms, MembersTo r true s ms ∧ Keyed ms ∧ ByName ms p := by
  have hrun : ofObject s = .ok (p, r) ↔
      ∃ ms, MembersTo r true s ms ∧ ∃ d, Json.Run Takes {} ms d ∧ d.finish = .ok p := by
    rw [ofObject, bind_eq_ok_iff]
    constructor
    · rintro ⟨⟨d, u⟩, hmembers, h⟩
      obtain ⟨q, hq, h⟩ := bind_eq_ok_iff.1 h
      cases h
      obtain ⟨ms, hms, hrun⟩ := (Json.members_eq_ok_iff draft_understands (Nat.lt_succ_self _)).1 hmembers
      exact ⟨ms, hms, d, hrun, hq⟩
    · rintro ⟨ms, hms, d, hrun, hq⟩
      have hmembers := (Json.members_eq_ok_iff draft_understands (Nat.lt_succ_self _)).2 ⟨ms, hms, hrun⟩
      exact ⟨(d, r), hmembers, bind_eq_ok_iff.2 ⟨p, hq, rfl⟩⟩
  rw [hrun]
  refine exists_congr fun ms => and_congr_right fun hms => ?_
  constructor
  · rintro ⟨d, hrun, hfinish⟩
    refine ⟨keyed_of_run hrun, fun f hf => ?_⟩
    have hreached := reached_of_run hrun (mem_fieldNames_of_mem hf)
    rw [Draft.get_empty] at hreached
    exact exists_reached_iff.1 ⟨_, hreached, Draft.finish_eq_ok_iff.1 hfinish f hf⟩
  · rintro ⟨hkeys, hp⟩
    have hall : ∀ name ∈ fieldNames, ∃ after, Reached name ms (({} : Draft).get name) after := by
      intro name hname
      obtain ⟨f, hf, rfl⟩ := exists_field hname p
      obtain ⟨after, hreached, -⟩ := exists_reached_iff.2 (hp f hf)
      exact ⟨after, by rwa [Draft.get_empty]⟩
    obtain ⟨d, hrun⟩ := exists_run hkeys hms.isValue hall
    refine ⟨d, hrun, Draft.finish_eq_ok_iff.2 fun f hf => ?_⟩
    have hreached := reached_of_run hrun (mem_fieldNames_of_mem hf)
    rw [Draft.get_empty] at hreached
    obtain ⟨after, hafter, hfield⟩ := exists_reached_iff.2 (hp f hf)
    rwa [hafter.unique hreached] at hfield

end LedgerClient.Config
