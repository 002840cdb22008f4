import LedgerClient.Document.Toml.Reader
import Mathlib.Data.List.Nodup
/-!
# The keys of a table are distinct

No table of a document, at any depth, has a key twice (`distinct_of_document`).  A table grows only under a key that it
lacks; each step of a reader keeps this, and so do all lines together.
-/
namespace LedgerClient.Toml

/-- The tables in a value have distinct keys. -/
inductive Value.Distinct : Value → Prop where
  | text (s : String) : Distinct (.text s)
  | integer (n : Int) : Distinct (.integer n)
  | real (x : Float) : Distinct (.real x)
  | boolean (b : Bool) : Distinct (.boolean b)
  | moment : Distinct .moment
  | list {grows : Bool} {vs : List Value} (h : ∀ v ∈ vs, Distinct v) : Distinct (.list grows vs)
  | table {o : Origin} {items : List (String × Value)} (hkeys : (items.map Prod.fst).Nodup)
      (h : ∀ x ∈ items, Distinct x.2) : Distinct (.table o items)

/-- So have these items, and the tables in them. -/
def Distinct (items : Items) : Prop := (items.map Prod.fst).Nodup ∧ ∀ x ∈ items, x.2.Distinct

theorem distinct_table {o : Origin} {items : Items} : (Value.table o items).Distinct ↔ Distinct items := by
  constructor
  · intro h
    cases h with
    | table hkeys h => exact ⟨hkeys, h⟩
  · exact fun h => .table h.1 h.2

theorem distinct_list {grows : Bool} {vs : List Value} : (Value.list grows vs).Distinct ↔ ∀ v ∈ vs, v.Distinct := by
  constructor
  · intro h
    cases h with
    | list h => exact h
  · exact .list

/-! ## Items -/

theorem mem_of_lookup {β : Type} {xs : List (String × β)} {k : String} {v : β} (h : xs.lookup k = some v) :
    (k, v) ∈ xs := by
  induction xs with
  | nil => cases h
  | cons x xs ih =>
    obtain ⟨a, b⟩ := x
    rw [List.lookup_cons] at h
    split at h
    · rename_i ha
      cases h
      rw [eq_of_beq ha]
      exact List.mem_cons_self
    · exact List.mem_cons_of_mem _ (ih h)

theorem not_mem_keys {β : Type} {xs : List (String × β)} {k : String} (h : xs.lookup k = none) :
    k ∉ xs.map Prod.fst := by
  intro hk
  obtain ⟨x, hx, rfl⟩ := List.mem_map.1 hk
  have hne := List.lookup_eq_none_iff.1 h x hx
  exact absurd rfl (bne_iff_ne.1 hne)

/-- Among distinct keys, what stands under a key is found. -/
theorem lookup_eq_some_iff {β : Type} {xs : List (String × β)} (h : (xs.map Prod.fst).Nodup) {k : String} {v : β} :
    xs.lookup k = some v ↔ (k, v) ∈ xs := by
  refine ⟨mem_of_lookup, fun hmem => ?_⟩
  cases hl : xs.lookup k with
  | none => exact absurd (List.mem_map_of_mem hmem) (not_mem_keys hl)
  | some w => exact congrArg (fun x => some x.2) (List.inj_on_of_nodup_map h (mem_of_lookup hl) hmem rfl)

section Items

variable {items items' : Items} {k : String} {v : Value}

theorem Distinct.of_lookup (h : Distinct items) (hl : items.lookup k = some v) : v.Distinct :=
  h.2 (k, v) (mem_of_lookup hl)

theorem Distinct.append (h : Distinct items) (hk : k ∉ items.map Prod.fst) (hv : v.Distinct) :
    Distinct (items ++ [(k, v)]) := by
  constructor
  · rw [List.map_append, List.map_singleton]
    exact List.nodup_append.2 ⟨h.1, List.nodup_singleton _, fun a ha b hb => by
      rw [List.mem_singleton.1 hb]
      exact ne_of_mem_of_not_mem ha hk⟩
  · intro x hx
    rcases List.mem_append.1 hx with hx | hx
    · exact h.2 x hx
    · rw [List.mem_singleton.1 hx]
      exact hv

theorem keys_replace (k : String) (v : Value) (items : Items) :
    (replace k v items).map Prod.fst = items.map Prod.fst := by
  induction items with
  | nil => rfl
  | cons x items ih =>
    obtain ⟨a, b⟩ := x
    rw [replace]
    split
    · rfl
    · rw [List.map_cons, ih, List.map_cons]

theorem mem_replace {x : String × Value} (h : x ∈ replace k v items) : x ∈ items ∨ x.2 = v := by
  induction items with
  | nil => cases h
  | cons y items ih =>
    obtain ⟨a, b⟩ := y
    rw [replace] at h
    split at h
    · rcases List.mem_cons.1 h with rfl | h
      · exact .inr rfl
      · exact .inl (List.mem_cons_of_mem _ h)
    · rcases List.mem_cons.1 h with rfl | h
      · exact .inl List.mem_cons_self
      · exact (ih h).imp_left (List.mem_cons_of_mem _)

theorem Distinct.replace (h : Distinct items) (hv : v.Distinct) : Distinct (replace k v items) := by
  refine ⟨by rw [keys_replace]; exact h.1, fun x hx => ?_⟩
  rcases mem_replace hx with hx | hx
  · exact h.2 x hx
  · rw [hx]
    exact hv

theorem Distinct.remove (h : Distinct items) : Distinct (remove k items) :=
  ⟨h.1.sublist (List.filter_sublist.map Prod.fst), fun x hx => h.2 x (List.mem_of_mem_filter hx)⟩

theorem not_mem_remove : k ∉ (remove k items).map Prod.fst := by
  intro hk
  obtain ⟨x, hx, rfl⟩ := List.mem_map.1 hk
  exact of_decide_eq_true (List.mem_filter.1 hx).2 rfl

end Items

theorem Value.Distinct.of_append {grows : Bool} {vs : List Value} {v : Value}
    (h : ∀ w ∈ vs, w.Distinct) (hv : v.Distinct) : (Value.list grows (vs ++ [v])).Distinct := by
  refine .list fun w hw => ?_
  rcases List.mem_append.1 hw with hw | hw
  · exact h w hw
  · rw [List.mem_singleton.1 hw]
    exact hv

theorem distinct_nil : Distinct [] := ⟨List.nodup_nil, nofun⟩

/-- **A change at the end of a path keeps all keys distinct**, if it does so at its own place. -/
theorem Distinct.update {byKey : Bool} {f : Origin → Items → Option Items}
    (hf : ∀ {o t t'}, Distinct t → f o t = some t' → Distinct t') {ks : List String} {o : Origin} {items items' : Items}
    (h : Distinct items) (hu : update byKey f ks o items = some items') : Distinct items' := by
  induction ks generalizing o items items' with
  | nil => exact hf h hu
  | cons k ks ih =>
    rw [Toml.update] at hu
    split at hu
    · rename_i hl
      obtain ⟨t, ht, rfl⟩ := Option.map_eq_some_iff.1 hu
      exact h.append (not_mem_keys hl) (distinct_table.2 (ih distinct_nil ht))
    · rename_i o' t hl
      split at hu
      · cases hu
      obtain ⟨t', ht, rfl⟩ := Option.map_eq_some_iff.1 hu
      exact h.replace (distinct_table.2 (ih (distinct_table.1 (h.of_lookup hl)) ht))
    · rename_i vs hl
      split at hu
      · rename_i o' t hlast
        obtain ⟨t', ht, rfl⟩ := Option.map_eq_some_iff.1 hu
        have hvs := distinct_list.1 (h.of_lookup hl)
        have hlast' : (Value.table o' t).Distinct := hvs _ (List.mem_of_getLast? hlast)
        have hnew := ih (distinct_table.1 hlast') ht
        exact h.replace (.of_append (fun w hw => hvs w (List.dropLast_subset vs hw)) (distinct_table.2 hnew))
      · cases hu
    · cases hu

theorem Distinct.openTable {k : String} {o : Origin} {items items' : Items} (h : Distinct items)
    (ho : openTable k o items = some items') : Distinct items' := by
  unfold Toml.openTable at ho
  split at ho
  · rename_i hl
    cases ho
    exact h.append (not_mem_keys hl) (distinct_table.2 distinct_nil)
  · rename_i t hl
    cases ho
    exact h.remove.append not_mem_remove (distinct_table.2 (distinct_table.1 (h.of_lookup hl)))
  · cases ho

theorem Distinct.openElement {k : String} {o : Origin} {items items' : Items} (h : Distinct items)
    (ho : openElement k o items = some items') : Distinct items' := by
  unfold Toml.openElement at ho
  split at ho
  · rename_i hl
    cases ho
    exact h.append (not_mem_keys hl) (.list (List.forall_mem_singleton.2 (distinct_table.2 distinct_nil)))
  · rename_i vs hl
    cases ho
    have hvs := distinct_list.1 (h.of_lookup hl)
    exact h.replace (.of_append hvs (distinct_table.2 distinct_nil))
  · cases ho

theorem Distinct.addTo {o : Origin} {ks : List String} {v : Value} {items items' : Items} (h : Distinct items)
    (hv : v.Distinct) (ha : addTo o ks v items = some items') : Distinct items' := by
  obtain ⟨⟨path, k⟩, -, hd⟩ := Option.bind_eq_some_iff.1 ha
  refine h.update (fun {o t t'} ht hf => ?_) hd
  split at hf
  · cases hf
  · rename_i hnew
    cases hf
    cases hl : t.lookup k with
    | none => exact ht.append (not_mem_keys hl) hv
    | some w =>
      rw [hl] at hnew
      exact absurd (Bool.or_true _) hnew

/-! ## Values -/

theorem distinct_of_inRange {n : Int} {v : Value} (h : inRange n = some v) : v.Distinct := by
  unfold inRange at h
  split at h <;> cases h
  exact .integer n

theorem distinct_of_integer? {s : List Char} {v : Value} (h : integer? s = some v) : v.Distinct := by
  unfold integer? at h
  split at h <;>
    · obtain ⟨ds, -, hr⟩ := Option.bind_eq_some_iff.1 h
      exact distinct_of_inRange hr

theorem distinct_of_scaled {negative : Bool} {ds : List Nat} {e : Int} {v : Value}
    (h : scaled negative ds e = some v) : v.Distinct := by
  unfold scaled at h
  dsimp only at h
  split at h
  · cases h
    exact .real _
  · split at h <;> cases h
    exact .real _

theorem distinct_of_real? {s : List Char} {v : Value} (h : real? s = some v) : v.Distinct := by
  unfold real? at h
  dsimp only at h
  split at h
  · cases h
    exact .real _
  split at h
  · cases h
    exact .real _
  split at h
  · split at h
    · cases h
    · exact distinct_of_scaled h
  · cases h

theorem distinct_of_word? {w : List Char} {v : Value} (h : word? w = some v) : v.Distinct := by
  unfold word? at h
  split at h
  · cases h
    exact .boolean _
  split at h
  · cases h
    exact .boolean _
  rcases hm : moment? w with _ | m
  · rw [hm] at h
    rcases hi : integer? w with _ | n
    · rw [hi] at h
      exact distinct_of_real? h
    · rw [hi] at h
      cases h
      exact distinct_of_integer? hi
  · rw [hm] at h
    cases h
    obtain ⟨-, hmoment⟩ := Option.ite_none_right_eq_some.1 hm
    cases hmoment
    exact .moment

theorem distinct_of_scalar {s r : List Char} {v : Value} (h : scalar s = some (v, r)) : v.Distinct := by
  have hword : ∀ {u t}, (word? u).map (·, t) = some (v, r) → v.Distinct := by
    intro u t h
    obtain ⟨w, hw, he⟩ := Option.map_eq_some_iff.1 h
    cases he
    exact distinct_of_word? hw
  unfold scalar at h
  dsimp only at h
  split at h
  · split at h
    · split at h <;> cases h
      exact .moment
    · exact hword h
  · exact hword h

theorem distinct_of_text {x : Reading String} {v : Value} {r : List Char}
    (h : x.map (fun (t, u) => (Value.text t, u)) = some (v, r)) : v.Distinct := by
  obtain ⟨t, -, he⟩ := Option.map_eq_some_iff.1 h
  cases he
  exact .text _

/-- By induction on the fuel, as a value, elements and pairs are read by turns. -/
theorem distinct_of_read (n : Nat) :
    (∀ {depth s v r}, value n depth s = some (v, r) → v.Distinct) ∧
      (∀ {depth vs s v r}, (∀ w ∈ vs, w.Distinct) → elements n depth vs s = some (v, r) → v.Distinct) ∧
      ∀ {depth first items s v r}, Distinct items → pairs n depth first items s = some (v, r) → v.Distinct := by
  induction n with
  | zero => exact ⟨nofun, fun _ => nofun, fun _ => nofun⟩
  | succ n ih =>
    obtain ⟨ihvalue, ihelements, ihpairs⟩ := ih
    refine ⟨fun {depth s v r} h => ?_, fun {depth vs s v r} hvs h => ?_, fun {depth first items s v r} hitems h => ?_⟩
    · unfold value at h
      split at h
      · exact distinct_of_text h
      · exact distinct_of_text h
      · exact distinct_of_text h
      · exact distinct_of_text h
      · split at h
        · exact ihelements (List.forall_mem_nil _) h
        · cases h
      · split at h
        · exact ihpairs distinct_nil h
        · cases h
      · exact distinct_of_scalar h
    · unfold elements at h
      split at h
      · cases h
        exact .list fun w hw => hvs w (List.mem_reverse.1 hw)
      split at h
      · cases h
      rename_i w t hw
      have hall := List.forall_mem_cons.2 ⟨ihvalue hw, hvs⟩
      split at h
      · exact ihelements hall h
      · cases h
        exact .list fun x hx => hall x (List.mem_reverse.1 hx)
      · cases h
    · unfold pairs at h
      split at h
      · cases h
        exact distinct_table.2 hitems
      split at h
      · split at h
        · cases h
        rename_i w t hw
        split at h
        · cases h
        rename_i items' ha
        have hitems' := hitems.addTo (ihvalue hw) ha
        split at h
        · exact ihpairs hitems' h
        · cases h
          exact distinct_table.2 hitems'
        · cases h
      · cases h

/-! ## Lines -/

theorem Distinct.header {d d' : Draft} {s r : List Char} (h : Distinct d.root) (hh : header d s = some (d', r)) :
    Distinct d'.root := by
  unfold Toml.header at hh
  extract_lets single parts at hh
  generalize parts = p at hh
  split at hh
  · cases hh
  rename_i ks many t
  split at hh
  · obtain ⟨root, hroot, he⟩ := Option.map_eq_some_iff.1 hh
    cases he
    cases many with
    | true =>
      rw [if_pos rfl] at hroot
      exact h.update (fun ht hf => ht.openElement hf) hroot
    | false =>
      rw [if_neg Bool.false_ne_true] at hroot
      exact h.update (fun ht hf => ht.openTable hf) hroot
  · cases hh

theorem Distinct.assignment {d d' : Draft} {s r : List Char} (h : Distinct d.root)
    (ha : assignment d s = some (d', r)) : Distinct d'.root := by
  unfold Toml.assignment at ha
  split at ha
  · split at ha
    · cases ha
    rename_i v t hv
    split at ha
    · cases ha
    obtain ⟨root, hroot, he⟩ := Option.map_eq_some_iff.1 ha
    cases he
    exact h.update (fun ht hf => ht.addTo ((distinct_of_read _).1 hv) hf) hroot
  · cases ha

/-- **What the lines make keeps all keys distinct.** -/
theorem Distinct.lines {n : Nat} {d d' : Draft} {s : List Char} (h : Distinct d.root) (hl : lines n d s = some d') :
    Distinct d'.root := by
  induction n generalizing d s with
  | zero => cases hl
  | succ n ih =>
    unfold Toml.lines at hl
    split at hl
    · cases hl
      exact h
    · obtain ⟨t, -, hl⟩ := Option.bind_eq_some_iff.1 hl
      exact ih h hl
    · exact ih h hl
    · obtain ⟨t, -, hl⟩ := Option.bind_eq_some_iff.1 hl
      exact ih h hl
    · obtain ⟨⟨d₁, t⟩, hd, hl⟩ := Option.bind_eq_some_iff.1 hl
      exact ih (h.header hd) hl
    · obtain ⟨⟨d₁, t⟩, hd, hl⟩ := Option.bind_eq_some_iff.1 hl
      exact ih (h.assignment hd) hl

/-- **The tables of a document have distinct keys.** -/
theorem distinct_of_document {s : List Char} {items : Items} (h : document s = some items) : Distinct items := by
  obtain ⟨d, hd, rfl⟩ := Option.map_eq_some_iff.1 h
  exact Distinct.lines distinct_nil hd

end LedgerClient.Toml
