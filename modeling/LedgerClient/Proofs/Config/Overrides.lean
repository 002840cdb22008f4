import LedgerClient.Config.Reader
import LedgerClient.Proofs.Document.Table
import LedgerClient.Proofs.Sequence
import Mathlib
/-!
# What a configuration file sets

A file sets the fields it gives and leaves all others at their defaults (`Overrides`).  What is read of a table is told
for any schema whose fields set what they are named for (`foldlM_putItem_ok`, `foldlM_putItem_error`), and is used for
the tables in a document and for the document itself.  `parse_exact` says from it what every file is read as.
-/
namespace LedgerClient.Config

open Toml (Value Items)

/-! ## Overriding -/

/-- The fields of all tables, with the values they have. -/
def Settings.sections (s : Settings) : List (String × List (String × Value)) :=
  [("connection", s.connection.fields.map fun f => (f.1, .text f.2)),
    ("timeouts", s.timeouts.fields.map fun f => (f.1, .integer f.2)),
    ("keys", [("strict", .boolean s.keys.strict)]),
    ("observability", [("log_level", .text s.observability.logLevel)])]

/-- Each table of fields is left out or a table. -/
def Tabular (items : Items) : Prop :=
  ∀ x ∈ ({} : Settings).sections, ∀ v, items.lookup x.1 = some v → ∃ o t, v = .table o t

/-- What a document gives for a field. -/
def given (items : Items) (table name : String) : Option Value :=
  match items.lookup table with
  | some (.table _ t) => t.lookup name
  | _ => none

/-- A value is of the kind that its field has by default; a number of seconds is not negative. -/
def Fits : Value → Value → Bool
  | .text _, .text _ => true
  | .integer _, .integer n => 0 ≤ n
  | .boolean _, .boolean _ => true
  | _, _ => false

/-- Values by name, of which some are taken from elsewhere. -/
def overridden {ω : Type} (get : String → Option ω) (xs : List (String × ω)) : List (String × ω) :=
  xs.map fun x => (x.1, (get x.1).getD x.2)

/-- The settings are the default ones but for what the document gives. -/
def Overrides (items : Items) (s : Settings) : Prop :=
  s.sections = ({} : Settings).sections.map fun x => (x.1, overridden (given items x.1) x.2)

/-! ## Schemas -/

def setValue {ω : Type} (name : String) (w : ω) (xs : List (String × ω)) : List (String × ω) :=
  xs.map fun x => if x.1 = name then (x.1, w) else x

section Schema

variable {α ω : Type}

/-- A field sets what it is named for to what `out` makes of a value, and fails if that is nothing. -/
def Field.Takes (f : Field α) (values : α → List (String × ω)) (out : Value → Option ω) (v : Value) : Prop :=
  ∀ a, match out v with
    | some w => ∃ a', f.put v a = .ok a' ∧ values a' = setValue f.name w (values a)
    | none => ∃ m, f.put v a = .error m

/-- A schema names all values, and its fields take the values of the items. -/
structure Lawful (fs : List (Field α)) (values : α → List (String × ω)) (out : String → Value → Option ω)
    (items : Items) : Prop where
  names : ∀ a, (values a).map Prod.fst = fs.map Field.name
  takes : ∀ f ∈ fs, ∀ v, (f.name, v) ∈ items → f.Takes values (out f.name) v

variable {fs : List (Field α)} {values : α → List (String × ω)} {out : String → Value → Option ω} {items : Items}

theorem lookup_cons (k n : String) (v : Value) (items : Items) :
    List.lookup n ((k, v) :: items) = if n = k then some v else items.lookup n := by
  rw [List.lookup_cons]
  by_cases h : n = k
  · rw [if_pos h, h, beq_self_eq_true]
  · rw [if_neg h, beq_false_of_ne h]

theorem Lawful.tail {x : String × Value} (h : Lawful fs values out (x :: items)) : Lawful fs values out items :=
  ⟨h.names, fun f hf v hv => h.takes f hf v (List.mem_cons_of_mem _ hv)⟩

theorem Lawful.name_mem (h : Lawful fs values out items) {a : α} {x : String × ω} (hx : x ∈ values a) :
    ∃ f ∈ fs, f.name = x.1 := by
  have hmem := List.mem_map_of_mem (f := Prod.fst) hx
  rw [h.names a] at hmem
  exact List.mem_map.1 hmem

/-- **What is read of items whose known values all fit** is what was there, overridden by them. -/
theorem foldlM_putItem_ok (h : Lawful fs values out items) (hkeys : (items.map Prod.fst).Nodup)
    (hfit : ∀ f ∈ fs, ∀ v, items.lookup f.name = some v → (out f.name v).isSome) (a : α) :
    ∃ a', items.foldlM (putItem fs) a = .ok a' ∧
      values a' = overridden (fun n => (items.lookup n).bind (out n)) (values a) := by
  induction items generalizing a with
  | nil => exact ⟨a, rfl, by simp [overridden]⟩
  | cons x items ih =>
    obtain ⟨k, v⟩ := x
    obtain ⟨hk, hkeys'⟩ := List.nodup_cons.1 hkeys
    have hne : ∀ {n w}, items.lookup n = some w → n ≠ k := by
      rintro n w hw rfl
      have hmem := List.mem_map_of_mem (f := Prod.fst) (Toml.mem_of_lookup hw)
      exact hk hmem
    have hfit' : ∀ f ∈ fs, ∀ w, items.lookup f.name = some w → (out f.name w).isSome := fun f hf w hw =>
      hfit f hf w (by rw [lookup_cons, if_neg (hne hw), hw])
    rw [List.foldlM_cons, putItem]
    cases hfind : fs.find? (·.name = k) with
    | none =>
      obtain ⟨a', ha', hvalues⟩ := ih h.tail hkeys' hfit' a
      refine ⟨a', ha', hvalues.trans (List.map_congr_left fun x hx => ?_)⟩
      obtain ⟨f, hf, hname⟩ := h.name_mem hx
      have hother : x.1 ≠ k := by
        rw [← hname]
        simpa using List.find?_eq_none.1 hfind f hf
      dsimp only
      rw [lookup_cons, if_neg hother]
    | some f =>
      have hf := List.mem_of_find?_eq_some hfind
      obtain rfl : f.name = k := by simpa using List.find?_some hfind
      obtain ⟨w, hw⟩ := Option.isSome_iff_exists.1 (hfit f hf v (by rw [lookup_cons, if_pos rfl]))
      have htakes := h.takes f hf v List.mem_cons_self a
      rw [hw] at htakes
      obtain ⟨a₁, hput, hset⟩ := htakes
      obtain ⟨a', ha', hvalues⟩ := ih h.tail hkeys' hfit' a₁
      dsimp only
      rw [hput, ok_bind]
      refine ⟨a', ha', ?_⟩
      rw [hvalues, hset, overridden, setValue, List.map_map]
      refine List.map_congr_left fun x _ => ?_
      have hnone : items.lookup f.name = none := Option.eq_none_iff_forall_ne_some.2 fun w hw => hne hw rfl
      rw [Function.comp_apply]
      dsimp only
      rw [lookup_cons]
      by_cases hx : x.1 = f.name
      · rw [if_pos hx, if_pos hx]
        dsimp only
        rw [hx, hnone, Option.bind_some, hw]
        rfl
      · rw [if_neg hx, if_neg hx]

/-- **Items of which a known value does not fit are refused.** -/
theorem foldlM_putItem_error (h : Lawful fs values out items)
    (hmisfit : ∃ f ∈ fs, ∃ v, items.lookup f.name = some v ∧ out f.name v = none) (a : α) :
    ∃ m, items.foldlM (putItem fs) a = .error m := by
  obtain ⟨f, hf, v, hv, hout⟩ := hmisfit
  induction items generalizing a with
  | nil => cases hv
  | cons x items ih =>
    obtain ⟨k, u⟩ := x
    rw [List.foldlM_cons]
    cases hput : putItem fs a (k, u) with
    | error m => exact ⟨m, rfl⟩
    | ok a₁ =>
      rw [lookup_cons] at hv
      by_cases hk : f.name = k
      · rw [if_pos hk] at hv
        cases hv
        subst hk
        rw [putItem] at hput
        cases hfind : fs.find? (·.name = f.name) with
        | none => exact absurd (by simp) (List.find?_eq_none.1 hfind f hf)
        | some g =>
          have hg := List.mem_of_find?_eq_some hfind
          have hname : g.name = f.name := by simpa using List.find?_some hfind
          have htakes := h.takes g hg v (hname ▸ List.mem_cons_self) a
          rw [hname, hout] at htakes
          obtain ⟨m, hm⟩ := htakes
          rw [hfind] at hput
          cases hm.symm.trans hput
      · rw [if_neg hk] at hv
        exact ih h.tail a₁ hv

end Schema

/-! ## Fields -/

/-- A reader takes the values that fit a kind, and keeps them as they are. -/
def Reads {β : Type} (read : Value → Except Misfit β) (kind : Value) (embed : β → Value) : Prop :=
  ∀ v, match Fits kind v with
    | true => ∃ b, read v = .ok b ∧ embed b = v
    | false => ∃ m, read v = .error m

theorem readText_reads : Reads readText (.text "") .text := by
  intro v
  cases v with
  | text s => exact ⟨s, rfl, rfl⟩
  | _ => exact ⟨_, rfl⟩

theorem readSeconds_reads : Reads readSeconds (.integer 0) fun n => .integer n := by
  intro v
  cases v with
  | integer n =>
    rw [Fits, readSeconds]
    by_cases h : 0 ≤ n
    · rw [decide_eq_true h, if_pos h]
      exact ⟨n.toNat, rfl, congrArg Value.integer (Int.toNat_of_nonneg h)⟩
    · rw [decide_eq_false h, if_neg h]
      exact ⟨_, rfl⟩
  | _ => exact ⟨_, rfl⟩

theorem readSwitch_reads : Reads readSwitch (.boolean false) .boolean := by
  intro v
  cases v with
  | boolean b => exact ⟨b, rfl, rfl⟩
  | _ => exact ⟨_, rfl⟩

def leaf (kind v : Value) : Option Value := if Fits kind v then some v else none

theorem Field.of_takes {α β : Type} {name : String} {read : Value → Except Misfit β} {set : β → α → α} {kind : Value}
    {embed : β → Value} {values : α → List (String × Value)} (hread : Reads read kind embed)
    (hset : ∀ b a, values (set b a) = setValue name (embed b) (values a)) (v : Value) :
    (Field.of name read set).Takes values (leaf kind) v := by
  intro a
  have h := hread v
  cases hfits : Fits kind v with
  | true =>
    rw [hfits] at h
    obtain ⟨b, hb, rfl⟩ := h
    rw [leaf, if_pos hfits]
    exact ⟨set b a, congrArg (Except.map (set · a)) hb, hset b a⟩
  | false =>
    rw [hfits] at h
    obtain ⟨m, hm⟩ := h
    rw [leaf, if_neg (Bool.eq_false_iff.1 hfits)]
    exact ⟨m, congrArg (Except.map (set · a)) hm⟩

section Tables

variable (items : Items)

theorem profile_lawful : Lawful Profile.schema (fun p => p.fields.map fun f => (f.1, .text f.2))
    (fun _ => leaf (.text "")) items where
  names _ := rfl
  takes f hf v _ := by
    simp only [Profile.schema, List.mem_cons, List.not_mem_nil, or_false] at hf
    rcases hf with rfl | rfl | rfl | rfl | rfl | rfl | rfl | rfl <;>
      exact Field.of_takes readText_reads (fun _ _ => rfl) v

theorem timeouts_lawful : Lawful Timeouts.schema (fun t => t.fields.map fun f => (f.1, .integer f.2))
    (fun _ => leaf (.integer 0)) items where
  names _ := rfl
  takes f hf v _ := by
    simp only [Timeouts.schema, List.mem_cons, List.not_mem_nil, or_false] at hf
    rcases hf with rfl | rfl | rfl | rfl | rfl <;> exact Field.of_takes readSeconds_reads (fun _ _ => rfl) v

theorem keys_lawful : Lawful Keys.schema (fun k => [("strict", .boolean k.strict)])
    (fun _ => leaf (.boolean false)) items where
  names _ := rfl
  takes f hf v _ := by
    rw [List.mem_singleton.1 hf]
    exact Field.of_takes readSwitch_reads (fun _ _ => rfl) v

theorem observability_lawful : Lawful Observability.schema (fun o => [("log_level", .text o.logLevel)])
    (fun _ => leaf (.text "")) items where
  names _ := rfl
  takes f hf v _ := by
    rw [List.mem_singleton.1 hf]
    exact Field.of_takes readText_reads (fun _ _ => rfl) v

end Tables

/-! ## Tables -/

/-- What a table makes of the values of its fields, if it has none that does not fit. -/
def tableOut (defaults : List (String × Value)) : Value → Option (List (String × Value))
  | .table _ t =>
    if ∀ f ∈ defaults, ∀ v, t.lookup f.1 = some v → Fits f.2 v then some (overridden (t.lookup ·) defaults) else none
  | _ => none

/-- **A table gives its fields by name.** -/
theorem readFields_table {α : Type} {fs : List (Field α)} {values : α → List (String × Value)} {kind : Value}
    {wanted : String} {a : α} {o : Toml.Origin} {t : Items} (h : Lawful fs values (fun _ => leaf kind) t)
    (hkind : ∀ f ∈ values a, Fits f.2 = Fits kind) (ht : Toml.Distinct t) :
    match tableOut (values a) (.table o t) with
    | some w => ∃ a', readFields wanted fs (.table o t) a = .ok a' ∧ values a' = w
    | none => ∃ m, readFields wanted fs (.table o t) a = .error m := by
  by_cases hall : ∀ f ∈ values a, ∀ v, t.lookup f.1 = some v → Fits f.2 v
  · have hfit : ∀ f ∈ fs, ∀ v, t.lookup f.name = some v → (leaf kind v).isSome := by
      intro f hf v hv
      have hname := List.mem_map_of_mem (f := Field.name) hf
      rw [← h.names a] at hname
      obtain ⟨x, hx, hxname⟩ := List.mem_map.1 hname
      have hfits := hall x hx v (hxname ▸ hv)
      rw [hkind x hx] at hfits
      rw [leaf, if_pos hfits]
      rfl
    obtain ⟨a', ha', hvalues⟩ := foldlM_putItem_ok h ht.1 hfit a
    rw [tableOut, if_pos hall]
    refine ⟨a', ha', hvalues.trans (List.map_congr_left fun x hx => ?_)⟩
    dsimp only
    cases hv : t.lookup x.1 with
    | none => rfl
    | some v =>
      have hfits := hall x hx v hv
      rw [hkind x hx] at hfits
      rw [Option.bind_some, leaf, if_pos hfits]
  · rw [tableOut, if_neg hall]
    push Not at hall
    obtain ⟨x, hx, v, hv, hmisfit⟩ := hall
    rw [hkind x hx] at hmisfit
    obtain ⟨f, hf, hname⟩ := h.name_mem hx
    exact foldlM_putItem_error h ⟨f, hf, v, hname ▸ hv, if_neg hmisfit⟩ a

/-! ## Documents -/

/-- What a document makes of the default values under the name of a table. -/
def sectionOut (table : String) (v : Value) : Option (List (String × Value)) :=
  (({} : Settings).sections.lookup table).bind (tableOut · v)

section Documents

variable {items : Items}

theorem section_takes {α : Type} {fs : List (Field α)} {values : α → List (String × Value)} {kind : Value}
    {name wanted : String} {a : α} {set : α → Settings → Settings} (h : Toml.Distinct items) (ht : Tabular items)
    (hlawful : ∀ t, Lawful fs values (fun _ => leaf kind) t) (hkind : ∀ f ∈ values a, Fits f.2 = Fits kind)
    (hsection : ({} : Settings).sections.lookup name = some (values a))
    (hset : ∀ b s, (set b s).sections = setValue name (values b) s.sections) {v : Value} (hv : (name, v) ∈ items) :
    (Field.of name (readFields wanted fs · a) set).Takes Settings.sections (sectionOut name) v := by
  obtain ⟨o, t, rfl⟩ := ht _ (Toml.mem_of_lookup hsection) v ((Toml.lookup_eq_some_iff h.1).2 hv)
  have hdistinct : Toml.Distinct t := Toml.distinct_table.1 (h.2 _ hv)
  intro s
  have hread := @readFields_table _ _ _ _ wanted _ o _ (hlawful t) hkind hdistinct
  rw [sectionOut, hsection, Option.bind_some]
  cases hout : tableOut (values a) (.table o t) with
  | some w =>
    rw [hout] at hread
    obtain ⟨b, hb, rfl⟩ := hread
    exact ⟨set b s, congrArg (Except.map (set · s)) hb, hset b s⟩
  | none =>
    rw [hout] at hread
    obtain ⟨m, hm⟩ := hread
    exact ⟨m, congrArg (Except.map (set · s)) hm⟩

theorem fits_text (s : String) : Fits (.text s) = Fits (.text "") := by
  funext v
  cases v <;> rfl

theorem fits_integer (n : Int) : Fits (.integer n) = Fits (.integer 0) := by
  funext v
  cases v <;> rfl

theorem settings_lawful (h : Toml.Distinct items) (ht : Tabular items) :
    Lawful Settings.schema Settings.sections sectionOut items where
  names _ := rfl
  takes f hf v hv := by
    simp only [Settings.schema, List.mem_cons, List.not_mem_nil, or_false] at hf
    rcases hf with rfl | rfl | rfl | rfl
    · refine section_takes h ht profile_lawful (fun f hf => ?_) rfl (fun _ _ => rfl) hv
      obtain ⟨g, -, rfl⟩ := List.mem_map.1 hf
      exact fits_text g.2
    · refine section_takes h ht timeouts_lawful (fun f hf => ?_) rfl (fun _ _ => rfl) hv
      obtain ⟨g, -, rfl⟩ := List.mem_map.1 hf
      exact fits_integer g.2
    · exact section_takes h ht keys_lawful (List.forall_mem_singleton.2 rfl) rfl (fun _ _ => rfl) hv
    · exact section_takes h ht observability_lawful (List.forall_mem_singleton.2 (fits_text _)) rfl (fun _ _ => rfl) hv

/-- A known field is given a value that does not fit it. -/
def Mistyped (items : Items) : Prop :=
  ∃ x ∈ ({} : Settings).sections, ∃ f ∈ x.2, ∃ v, given items x.1 f.1 = some v ∧ Fits f.2 v = false

theorem sectionOut_default {x : String × List (String × Value)} (hx : x ∈ ({} : Settings).sections) :
    ({} : Settings).sections.lookup x.1 = some x.2 :=
  (Toml.lookup_eq_some_iff (by decide)).2 hx

theorem ofItems_error (h : Toml.Distinct items) (ht : Tabular items) (hm : Mistyped items) :
    ∃ m, Settings.ofItems items = .error m := by
  obtain ⟨x, hx, f, hf, v, hv, hmisfit⟩ := hm
  unfold given at hv
  split at hv
  · rename_i o t hl
    obtain ⟨g, hg, hname⟩ := (settings_lawful h ht).name_mem hx
    refine foldlM_putItem_error (settings_lawful h ht) ⟨g, hg, .table o t, hname ▸ hl, ?_⟩ {}
    rw [hname, sectionOut, sectionOut_default hx, Option.bind_some, tableOut, if_neg]
    intro hall
    exact Bool.false_ne_true (hmisfit.symm.trans (hall f hf v hv))
  · cases hv

theorem ofItems_ok (h : Toml.Distinct items) (ht : Tabular items) (hm : ¬ Mistyped items) :
    ∃ s, Settings.ofItems items = .ok s ∧ Overrides items s := by
  have hfits : ∀ x ∈ ({} : Settings).sections, ∀ o t, items.lookup x.1 = some (.table o t) →
      sectionOut x.1 (.table o t) = some (overridden (given items x.1) x.2) := by
    intro x hx o t hl
    have hgiven : given items x.1 = (t.lookup ·) := by
      funext n
      rw [given, hl]
    rw [sectionOut, sectionOut_default hx, Option.bind_some, tableOut, if_pos, hgiven]
    intro f hf v hv
    by_contra hmisfit
    exact hm ⟨x, hx, f, hf, v, by rw [hgiven]; exact hv, Bool.eq_false_iff.2 hmisfit⟩
  have hsome : ∀ f ∈ Settings.schema, ∀ v, items.lookup f.name = some v → (sectionOut f.name v).isSome := by
    intro f hf v hv
    have hname := List.mem_map_of_mem (f := Field.name) hf
    rw [← (settings_lawful h ht).names {}] at hname
    obtain ⟨x, hx, hxname⟩ := List.mem_map.1 hname
    rw [← hxname] at hv ⊢
    obtain ⟨o, t, rfl⟩ := ht x hx v hv
    rw [hfits x hx o t hv]
    rfl
  obtain ⟨s, hs, hsections⟩ := foldlM_putItem_ok (settings_lawful h ht) h.1 hsome {}
  refine ⟨s, hs, hsections.trans (List.map_congr_left fun x hx => ?_)⟩
  dsimp only
  cases hl : items.lookup x.1 with
  | none =>
    have hgiven : given items x.1 = fun _ => none := by
      funext n
      rw [given, hl]
    rw [hgiven, overridden]
    simp
  | some v =>
    obtain ⟨o, t, rfl⟩ := ht x hx v hl
    rw [Option.bind_some, hfits x hx o t hl]
    rfl

/-- Settings are told by their fields. -/
theorem sections_inj {s s' : Settings} (h : s.sections = s'.sections) : s = s' := by
  obtain ⟨⟨_, _, _, _, _, _, _, _⟩, ⟨_, _, _, _, _⟩, ⟨_⟩, ⟨_⟩⟩ := s
  obtain ⟨⟨_, _, _, _, _, _, _, _⟩, ⟨_, _, _, _, _⟩, ⟨_⟩, ⟨_⟩⟩ := s'
  simpa [Settings.sections, Profile.fields, Timeouts.fields, and_assoc, Int.ofNat_inj] using h

end Documents

/-! ## Files -/

/-- What is wrong with a file lies in its form or in the kind of a value. -/
inductive LoadError.IsParse : LoadError → Prop where
  | notToml : IsParse .notToml
  | misfit (m : Misfit) : IsParse (.misfit m)

/-- What comes of settings once they are checked. -/
def Settings.checked (s : Settings) : Except LoadError Settings :=
  match s.validate with
  | .ok () => .ok s
  | .error ps => .error (.problems ps)

/-- Two documents give each known field the same value, or both none. -/
def SameKnown (items items' : Items) : Prop :=
  ∀ x ∈ ({} : Settings).sections, ∀ f ∈ x.2, given items x.1 f.1 = given items' x.1 f.1

section Files

variable {text : String} {items items' : Items}

theorem mistyped_congr (h : SameKnown items items') : Mistyped items ↔ Mistyped items' := by
  unfold Mistyped
  exact exists_congr fun x => and_congr_right fun hx => exists_congr fun f => and_congr_right fun hf => by
    rw [h x hx f hf]

theorem overrides_congr (h : SameKnown items items') {s : Settings} (hs : Overrides items s) : Overrides items' s := by
  refine hs.trans (List.map_congr_left fun x hx => ?_)
  rw [Prod.mk.injEq]
  refine ⟨rfl, List.map_congr_left fun f hf => ?_⟩
  rw [h x hx f hf]

theorem parse_mistyped (hd : Toml.document text.toList = some items) (ht : Tabular items) (hm : Mistyped items) :
    ∃ m, Settings.parse text = .error (.misfit m) := by
  obtain ⟨m, hread⟩ := ofItems_error (Toml.distinct_of_document hd) ht hm
  exact ⟨m, by rw [Settings.parse, Settings.read, hd]; dsimp only; rw [hread]⟩

theorem parse_overrides (hd : Toml.document text.toList = some items) (ht : Tabular items) (hm : ¬ Mistyped items) :
    ∃ s, Overrides items s ∧ Settings.parse text = s.checked := by
  obtain ⟨s, hread, hs⟩ := ofItems_ok (Toml.distinct_of_document hd) ht hm
  refine ⟨s, hs, ?_⟩
  rw [Settings.parse, Settings.read, hd]
  dsimp only
  rw [hread]
  dsimp only
  rw [Settings.checked]
  rcases s.validate with ps | ⟨⟩ <;> rfl

end Files

/-- **A file that is no document is refused**, and so is one with a known value of a wrong kind.  Any other whose tables
of fields are tables is read as the default settings but for the known fields that it gives, once these settings are
checked.  Nothing else in a file matters. -/
theorem parse_exact (text : String) :
    (Toml.document text.toList = none → ∃ e, e.IsParse ∧ Settings.parse text = .error e) ∧
      ∀ items, Toml.document text.toList = some items → Tabular items →
        (Mistyped items → ∃ e, e.IsParse ∧ Settings.parse text = .error e) ∧
        (¬ Mistyped items → ∃ s, (∀ s', Overrides items s' ↔ s' = s) ∧ Settings.parse text = s.checked) ∧
        ∀ text' items', Toml.document text'.toList = some items' → Tabular items' → SameKnown items items' →
          (∀ s, Settings.parse text = .ok s ↔ Settings.parse text' = .ok s) ∧
            ∀ ps, Settings.parse text = .error (.problems ps) ↔ Settings.parse text' = .error (.problems ps) := by
  refine ⟨fun hd => ⟨.notToml, .notToml, ?_⟩, fun items hd ht => ⟨fun hm => ?_, fun hm => ?_,
    fun text' items' hd' ht' hsame => ?_⟩⟩
  · rw [Settings.parse, Settings.read, hd]
  · obtain ⟨m, hparse⟩ := parse_mistyped hd ht hm
    exact ⟨_, .misfit m, hparse⟩
  · obtain ⟨s, hs, hparse⟩ := parse_overrides hd ht hm
    refine ⟨s, fun s' => ⟨fun hs' => sections_inj (hs'.trans hs.symm), ?_⟩, hparse⟩
    rintro rfl
    exact hs
  · by_cases hm : Mistyped items
    · obtain ⟨m, hparse⟩ := parse_mistyped hd ht hm
      obtain ⟨m', hparse'⟩ := parse_mistyped hd' ht' ((mistyped_congr hsame).1 hm)
      rw [hparse, hparse']
      exact ⟨fun s => ⟨nofun, nofun⟩, fun ps => ⟨nofun, nofun⟩⟩
    · obtain ⟨s, hs, hparse⟩ := parse_overrides hd ht hm
      obtain ⟨s', hs', hparse'⟩ := parse_overrides hd' ht' (mt (mistyped_congr hsame).2 hm)
      obtain rfl : s = s' := sections_inj ((overrides_congr hsame hs).trans hs'.symm)
      rw [hparse, hparse']
      exact ⟨fun _ => Iff.rfl, fun _ => Iff.rfl⟩

/-- A file that sets what has no default and one deadline, and has a table and a key that nobody knows. -/
def sparseText : String :=
  "[other]\nevaluate_secs = 1\n[timeouts]\nevaluate_secs = 2\nname = [1, \"x\"]\n[connection]\n" ++
    "channel_name = \"c\"\ncontract_name = \"b\"\ncert_path = \"e\"\nkey_path = \"k\"\ntls_cert_path = \"t\"\n" ++
    "gateway_peer = \"p\"\n"

def sparseItems : Items :=
  [("other", .table .header [("evaluate_secs", .integer 1)]),
    ("timeouts", .table .header [("evaluate_secs", .integer 2), ("name", .list false [.integer 1, .text "x"])]),
    ("connection", .table .header [("channel_name", .text "c"), ("contract_name", .text "b"),
      ("cert_path", .text "e"), ("key_path", .text "k"), ("tls_cert_path", .text "t"), ("gateway_peer", .text "p")])]

/-- What it comes to: all else is as it is without a file. -/
def sparse : Settings where
  connection :=
    { channelName := "c", contractName := "b", certPath := "e", keyPath := "k", tlsCertPath := "t"
      gatewayPeer := "p" }
  timeouts := { evaluate := 2 }

theorem document_sparse : Toml.document sparseText.toList = some sparseItems := by cbv

theorem parse_exact_sparse : Settings.parse sparseText = .ok sparse := by
  have ht : Tabular sparseItems := by
    intro x hx v hv
    have hmem := Toml.mem_of_lookup hv
    simp only [sparseItems, List.mem_cons, List.not_mem_nil, or_false, Prod.mk.injEq] at hmem
    rcases hmem with ⟨-, rfl⟩ | ⟨-, rfl⟩ | ⟨-, rfl⟩ <;> exact ⟨_, _, rfl⟩
  have hm : ¬ Mistyped sparseItems := by
    unfold Mistyped
    decide
  obtain ⟨s, hs, hparse⟩ := ((parse_exact sparseText).2 _ document_sparse ht).2.1 hm
  have hvalid : sparse.checked = .ok sparse := rfl
  rw [hparse, ← (hs sparse).1 rfl, hvalid]

end LedgerClient.Config
