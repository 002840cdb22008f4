import LedgerClient.Proofs.Client.OrderedMap
import LedgerClient.Proofs.Document.Texts
import LedgerClient.Proofs.Text.Order
import Mathlib.Data.List.Nodup
/-!
# Which maps are read

A map is read from an object of strings, of which the last pair with a key is kept (`Kept`).  All that is kept has to be
digits, or else the first in order that is not is what the map is refused for; and of keys that spell the same bytes the
last in order counts (`decodeMap_eq_iff`).
-/
namespace LedgerClient.KeyValue

section Maps

variable {α β γ δ ε : Type} {less : α → α → Bool}

/-! ## Pairs that are kept -/

/-- The pair is the last with its key. -/
def Kept (ps : List (α × β)) (a : α) (b : β) : Prop :=
  ∃ before after, ps = before ++ (a, b) :: after ∧ ∀ v, (a, v) ∉ after

section

variable [DecidableEq α]

theorem mapOf_ne_none {ps : List (α × β)} {a : α} {b : β} (h : (a, b) ∈ ps) : mapOf ps a ≠ none := by
  induction ps with
  | nil => cases h
  | cons p ps ih =>
    rw [mapOf_cons, ne_eq, Option.or_eq_none_iff]
    rintro ⟨hrest, hhead⟩
    rcases List.mem_cons.1 h with rfl | h
    · rw [if_pos rfl] at hhead
      cases hhead
    · exact ih h hrest

/-- **Pairs come to a map of those that are kept.** -/
theorem mapOf_eq_some_iff {ps : List (α × β)} {a : α} {b : β} : mapOf ps a = some b ↔ Kept ps a b := by
  induction ps with
  | nil => exact ⟨nofun, fun ⟨before, after, h, _⟩ => by cases before <;> cases h⟩
  | cons p ps ih =>
    rw [mapOf_cons, Option.or_eq_some_iff]
    constructor
    · rintro (h | ⟨hnone, h⟩)
      · obtain ⟨before, after, rfl, hlast⟩ := ih.1 h
        exact ⟨p :: before, after, rfl, hlast⟩
      · split at h
        · rename_i ha
          cases h
          subst ha
          exact ⟨[], ps, rfl, fun v hv => mapOf_ne_none hv hnone⟩
        · cases h
    · rintro ⟨_ | ⟨q, before⟩, after, h, hlast⟩ <;> obtain ⟨rfl, rfl⟩ := List.cons.inj h
      · refine .inr ⟨Option.eq_none_iff_forall_ne_some.2 fun v hv => hlast v (mem_of_mapOf hv), if_pos rfl⟩
      · exact .inl (ih.2 ⟨before, after, rfl, hlast⟩)

end

/-- The list of a map is one. -/
theorem Holds.unique (hless : StrictOrder less) {m m' : List (α × β)} {M : α → Option β} (h : Holds less m M)
    (h' : Holds less m' M) : m = m' := by
  have hnodup : ∀ {q : List (α × β)}, Holds less q M → q.Nodup := fun hq => List.Nodup.of_map Prod.fst (hq.nodup hless)
  have hperm : m.Perm m' := (List.perm_ext_iff_of_nodup (hnodup h) (hnodup h')).2 fun p =>
    (h.mem_iff p.1 p.2).trans (h'.mem_iff p.1 p.2).symm
  refine hperm.eq_of_pairwise (fun p q _ _ hpq hqp => ?_) h.sorted h'.sorted
  have hself := hless.trans hpq hqp
  rw [hless.irrefl] at hself
  cases hself

theorem holds_of_sorted [DecidableEq α] (hless : StrictOrder less) {m : List (α × β)}
    (h : m.Pairwise fun p q => less p.1 q.1 = true) : Holds less m (mapOf m) :=
  ⟨h, fun _ _ => ⟨mapOf_of_nodup (nodup_of_sorted hless h), mem_of_mapOf⟩⟩

/-- **A list that is in order is the list of its own pairs.** -/
theorem ofPairs_of_sorted [DecidableEq α] (hless : StrictOrder less) {m : List (α × β)}
    (h : m.Pairwise fun p q => less p.1 q.1 = true) : ofPairs less m = m :=
  (holds_ofPairs hless m).unique hless (holds_of_sorted hless h)

/-! ## Pairs that are read in order -/

/-- **Of what is read in order, the last that is read with a key counts.** -/
theorem mapOf_mapM [DecidableEq γ] (hless : StrictOrder less) {f : α × β → Except ε (γ × δ)} {q : List (α × β)}
    {bs : List (γ × δ)} (h : q.mapM f = .ok bs) (hq : q.Pairwise fun x y => less x.1 y.1 = true) {k : γ} {v : δ} :
    mapOf bs k = some v ↔
      ∃ x ∈ q, f x = .ok (k, v) ∧ ∀ y ∈ q, ∀ w, f y = .ok (k, w) → less x.1 y.1 = false := by
  have hall := mapM_eq_ok_iff.1 h
  clear h
  induction hall with
  | nil => simp [mapOf, overlay]
  | @cons x z q bs hx hrest ih =>
    obtain ⟨hfirst, hq⟩ := List.pairwise_cons.1 hq
    have hmem := fun {y} => mem_mapM_iff (mapM_eq_ok_iff.2 hrest) (y := y)
    rw [mapOf_cons, Option.or_eq_some_iff]
    refine (or_congr_left (ih hq)).trans ⟨?_, ?_⟩
    · rintro (⟨x', hx', he, hlast⟩ | ⟨hnone, hif⟩)
      · refine ⟨x', List.mem_cons_of_mem _ hx', he, List.forall_mem_cons.2 ⟨fun w _ => ?_, hlast⟩⟩
        exact Bool.eq_false_iff.2 fun hl => Bool.eq_false_iff.1 (hless.irrefl _) (hless.trans hl (hfirst x' hx'))
      · split at hif
        · rename_i hk
          obtain ⟨k', v'⟩ := z
          cases hif
          cases hk
          refine ⟨x, List.mem_cons_self, hx, List.forall_mem_cons.2 ⟨fun _ _ => hless.irrefl _, fun y hy w hw => ?_⟩⟩
          exact absurd hnone (mapOf_ne_none (hmem.2 ⟨y, hy, hw⟩))
        · cases hif
    · rintro ⟨x', hx', he, hlast⟩
      have hlater := (List.forall_mem_cons.1 hlast).2
      rcases List.mem_cons.1 hx' with rfl | hx'
      · cases he.symm.trans hx
        refine .inr ⟨Option.eq_none_iff_forall_ne_some.2 fun w hw => ?_, if_pos rfl⟩
        obtain ⟨y, hy, hyw⟩ := hmem.1 (mem_of_mapOf hw)
        exact Bool.eq_false_iff.1 (hlater y hy w hyw) (hfirst y hy)
      · exact .inl ⟨x', hx', he, hlater⟩

/-- **What is read in order fails with the first by its key that cannot be read.** -/
theorem mapM_eq_error_iff_first (hless : StrictOrder less) {f : α × β → Except ε (γ × δ)} {q : List (α × β)}
    (hq : q.Pairwise fun x y => less x.1 y.1 = true) {e : ε} :
    q.mapM f = .error e ↔ ∃ x ∈ q, f x = .error e ∧ ∀ y ∈ q, less y.1 x.1 = true → ∃ z, f y = .ok z := by
  rw [mapM_eq_error_iff]
  constructor
  · rintro ⟨before, x, after, rfl, hbefore, hx⟩
    refine ⟨x, List.mem_append_right _ List.mem_cons_self, hx, fun y hy hlt => ?_⟩
    rcases List.mem_append.1 hy with hy | hy
    · exact hbefore y hy
    -- What is not before it has no smaller key.
    exfalso
    obtain ⟨-, hafter, -⟩ := List.pairwise_append.1 hq
    rcases List.mem_cons.1 hy with rfl | hy
    · exact Bool.eq_false_iff.1 (hless.irrefl _) hlt
    · exact Bool.eq_false_iff.1 (hless.irrefl _) (hless.trans hlt ((List.pairwise_cons.1 hafter).1 y hy))
  · rintro ⟨x, hx, he, hfirst⟩
    obtain ⟨before, after, rfl⟩ := List.append_of_mem hx
    obtain ⟨-, -, hbefore⟩ := List.pairwise_append.1 hq
    exact ⟨before, x, after, rfl,
      fun y hy => hfirst y (List.mem_append_left _ hy) (hbefore y hy x List.mem_cons_self), he⟩

end Maps

/-! ## Entries -/

/-- What is wrong with an entry: its key is not in digits, or its key is and its value is not. -/
inductive EntryFault (key value : String) : ParseCause → Prop where
  | key {f : Hex.Fault} (hk : ¬ Hex.IsDigits key) (hf : Hex.decode (utf8 key) = .error f) :
      EntryFault key value (.keyNotHex key f)
  | value {f : Hex.Fault} (hk : Hex.IsDigits key) (hv : ¬ Hex.IsDigits value)
      (hf : Hex.decode (utf8 value) = .error f) : EntryFault key value (.entryNotHex key f)

theorem isDigits_iff {t : String} : Hex.IsDigits t ↔ ∃ v, Hex.decode (utf8 t) = .ok v := by
  rw [← Hex.exists_spells_iff]
  exact exists_congr fun v => Hex.decode_eq_ok_iff.symm

theorem not_isDigits {t : String} {f : Hex.Fault} (h : Hex.decode (utf8 t) = .error f) : ¬ Hex.IsDigits t := by
  intro ht
  obtain ⟨v, hv⟩ := isDigits_iff.1 ht
  cases h.symm.trans hv

section Entries

variable {p : String × String} {c : ParseCause}

theorem decodePair_eq_ok_iff {k v : Bytes} :
    decodePair p = .ok (k, v) ↔ Hex.Spells (utf8 p.1) k ∧ Hex.Spells (utf8 p.2) v := by
  rw [← Hex.decode_eq_ok_iff, ← Hex.decode_eq_ok_iff, decodePair]
  cases Hex.decode (utf8 p.1) with
  | error f => simp
  | ok k' => cases Hex.decode (utf8 p.2) <;> simp

theorem exists_decodePair_iff : (∃ b, decodePair p = .ok b) ↔ Hex.IsDigits p.1 ∧ Hex.IsDigits p.2 := by
  rw [← Hex.exists_spells_iff, ← Hex.exists_spells_iff]
  constructor
  · rintro ⟨⟨k, v⟩, h⟩
    obtain ⟨hk, hv⟩ := decodePair_eq_ok_iff.1 h
    exact ⟨⟨k, hk⟩, ⟨v, hv⟩⟩
  · rintro ⟨⟨k, hk⟩, ⟨v, hv⟩⟩
    exact ⟨(k, v), decodePair_eq_ok_iff.2 ⟨hk, hv⟩⟩

/-- **The key of an entry is looked at before its value.** -/
theorem decodePair_eq_error_iff : decodePair p = .error c ↔ EntryFault p.1 p.2 c := by
  unfold decodePair
  constructor
  · intro h
    split at h
    · rename_i f hf
      cases h
      exact .key (not_isDigits hf) hf
    rename_i k hk
    split at h
    · rename_i f hf
      cases h
      exact .value (isDigits_iff.2 ⟨k, hk⟩) (not_isDigits hf) hf
    · cases h
  · rintro (⟨-, hf⟩ | ⟨hk, -, hf⟩)
    · rw [hf]
    · obtain ⟨k, hk⟩ := isDigits_iff.1 hk
      rw [hk]
      dsimp only
      rw [hf]

end Entries

/-! ## Maps of digits -/

section Reading

variable {ps : List (String × String)}

/-- The pairs that are kept, in order. -/
def kept (ps : List (String × String)) : List (String × String) := ofPairs (fun a b => decide (a < b)) ps

theorem mem_kept {p : String × String} : p ∈ kept ps ↔ Kept ps p.1 p.2 := by
  rw [← mapOf_eq_some_iff]
  exact (holds_ofPairs strictOrder_text ps).mem_iff p.1 p.2

theorem kept_sorted (ps : List (String × String)) : (kept ps).Pairwise fun p q => decide (p.1 < q.1) = true :=
  (holds_ofPairs strictOrder_text ps).sorted

/-- Pairs of characters are kept as their texts are. -/
theorem map_textPair_ofPairs (qs : List (List Char × List Char)) :
    (ofPairs (fun a b => decide (a < b)) qs).map Json.textPair = kept (qs.map Json.textPair) := by
  have horder : ∀ a b : List Char, decide (String.ofList a < String.ofList b) = decide (a < b) := fun a b => by
    have hchars : (String.ofList a).toList < (String.ofList b).toList ↔ a < b := by simp
    exact decide_eq_decide.2 hchars
  exact ofPairs_map horder qs

/-- What the kept pairs say about a key: the value of the last of them, in the order of bytes, that spells it. -/
def Says (ps : List (String × String)) (k v : Bytes) : Prop :=
  ∃ key value, Kept ps key value ∧ Hex.Spells (utf8 key) k ∧ Hex.Spells (utf8 value) v ∧
    ∀ key' value', Kept ps key' value' → Hex.Spells (utf8 key') k → utf8 key' ≤ utf8 key

/-- The first of the kept pairs, in the order of bytes, that is not in digits. -/
def FirstFault (ps : List (String × String)) (c : ParseCause) : Prop :=
  ∃ key value, Kept ps key value ∧ EntryFault key value c ∧
    ∀ key' value', Kept ps key' value' → utf8 key' < utf8 key → Hex.IsDigits key' ∧ Hex.IsDigits value'

/-- All that is kept is in digits. -/
def AllDigits (ps : List (String × String)) : Prop :=
  ∀ key value, Kept ps key value → Hex.IsDigits key ∧ Hex.IsDigits value

theorem exists_mapM_decodePair : (∃ bs, (kept ps).mapM decodePair = .ok bs) ↔ AllDigits ps := by
  rw [exists_mapM_iff]
  constructor
  · exact fun h key value hk => exists_decodePair_iff.1 (h (key, value) (mem_kept.2 hk))
  · exact fun h p hp => exists_decodePair_iff.2 (h p.1 p.2 (mem_kept.1 hp))

/-- **The map of what was read has what the kept pairs say.** -/
theorem mapOf_read {bs : List (Bytes × Bytes)} (h : (kept ps).mapM decodePair = .ok bs) {k v : Bytes} :
    mapOf bs k = some v ↔ Says ps k v := by
  have hle : ∀ {key key' : String}, decide (key < key') = false ↔ utf8 key' ≤ utf8 key := fun {_ _} => by
    rw [decide_eq_false_iff_not, ← utf8_lt_iff, List.not_lt]
  rw [mapOf_mapM strictOrder_text h (kept_sorted ps)]
  constructor
  · rintro ⟨p, hp, he, hlast⟩
    obtain ⟨hk, hv⟩ := decodePair_eq_ok_iff.1 he
    refine ⟨p.1, p.2, mem_kept.1 hp, hk, hv, fun key' value' hkept hk' => ?_⟩
    -- Its value can be read as well, for otherwise nothing would have been.
    obtain ⟨v', hv'⟩ := (Hex.exists_spells_iff _).2 (exists_mapM_decodePair.1 ⟨bs, h⟩ key' value' hkept).2
    exact hle.1 (hlast (key', value') (mem_kept.2 hkept) v' (decodePair_eq_ok_iff.2 ⟨hk', hv'⟩))
  · rintro ⟨key, value, hkept, hk, hv, hlast⟩
    refine ⟨(key, value), mem_kept.2 hkept, decodePair_eq_ok_iff.2 ⟨hk, hv⟩, fun p hp w hw => ?_⟩
    exact hle.2 (hlast p.1 p.2 (mem_kept.1 hp) (decodePair_eq_ok_iff.1 hw).1)

/-- **What fails is the first fault.** -/
theorem mapM_decodePair_eq_error_iff {c : ParseCause} : (kept ps).mapM decodePair = .error c ↔ FirstFault ps c := by
  have hlt : ∀ {key key' : String}, decide (key < key') = true ↔ utf8 key < utf8 key' := fun {_ _} => by
    rw [decide_eq_true_iff, utf8_lt_iff]
  rw [mapM_eq_error_iff_first strictOrder_text (kept_sorted ps)]
  constructor
  · rintro ⟨p, hp, he, hfirst⟩
    refine ⟨p.1, p.2, mem_kept.1 hp, decodePair_eq_error_iff.1 he, fun key' value' hkept h => ?_⟩
    exact exists_decodePair_iff.1 (hfirst (key', value') (mem_kept.2 hkept) (hlt.2 h))
  · rintro ⟨key, value, hkept, hfault, hfirst⟩
    refine ⟨(key, value), mem_kept.2 hkept, decodePair_eq_error_iff.2 hfault, fun p hp h => ?_⟩
    exact exists_decodePair_iff.2 (hfirst p.1 p.2 (mem_kept.1 hp) (hlt.1 h))

end Reading

/-! ## Maps that are read -/

/-- The map that is read holds exactly what the kept pairs say. -/
theorem ofPairs_eq_iff {ps : List (String × String)} {bs : List (Bytes × Bytes)} {m : ByteMap}
    (h : (kept ps).mapM decodePair = .ok bs) :
    ByteMap.ofPairs bs = m ↔ m.Pairwise (fun p q => p.1 < q.1) ∧ ∀ k v, (k, v) ∈ m ↔ Says ps k v := by
  have hbs := holds_ofPairs strictOrder_lt bs
  constructor
  · rintro rfl
    exact ⟨hbs.sorted.imp List.lex_eq_true_iff_lt.1, fun k v => (hbs.mem_iff k v).trans (mapOf_read h)⟩
  · rintro ⟨hsorted, hmem⟩
    refine hbs.unique strictOrder_lt ⟨hsorted.imp List.lex_eq_true_iff_lt.2, fun k v => ?_⟩
    exact (hmem k v).trans (mapOf_read h).symm

theorem decodeMap_eq_ok_iff {raw : Bytes} {m : ByteMap} : decodeMap raw = .ok m ↔
    ∃ ps, Json.IsObject raw ps ∧ ∃ bs, (kept ps).mapM decodePair = .ok bs ∧ ByteMap.ofPairs bs = m := by
  unfold decodeMap
  constructor
  · intro h
    split at h
    · cases h
    rename_i ps hps
    split at h
    · cases h
    rename_i bs hbs
    exact ⟨ps, Json.readTexts_eq_ok_iff.1 hps, bs, hbs, Except.ok.inj h⟩
  · rintro ⟨ps, hps, bs, hbs, rfl⟩
    rw [hps.readTexts_eq]
    dsimp only
    rw [← kept, hbs]

theorem decodeMap_eq_error_iff {raw : Bytes} {c : ParseCause} : decodeMap raw = .error c ↔
    (∃ f, (∀ ps, ¬ Json.IsObject raw ps) ∧ Json.readTexts raw = .error f ∧ c = .notTexts f) ∨
      ∃ ps, Json.IsObject raw ps ∧ FirstFault ps c := by
  unfold decodeMap
  constructor
  · intro h
    split at h
    · rename_i f hf
      cases h
      exact .inl ⟨f, Json.readTexts_eq_error_iff.1 ⟨f, hf⟩, hf, rfl⟩
    rename_i ps hps
    split at h
    · rename_i c' hc
      cases h
      exact .inr ⟨ps, Json.readTexts_eq_ok_iff.1 hps, mapM_decodePair_eq_error_iff.1 hc⟩
    · cases h
  · rintro (⟨f, -, hf, rfl⟩ | ⟨ps, hps, hc⟩)
    · rw [hf]
    · rw [hps.readTexts_eq]
      dsimp only
      rw [← kept, mapM_decodePair_eq_error_iff.2 hc]

/-- A map is read exactly from an object of strings all of whose kept pairs are digits: it is in order of its keys and
holds what these pairs say.  All else is refused, for it is no object of strings, or for its first fault. -/
theorem decodeMap_eq_iff (raw : Bytes) :
    let got := (decodeMap raw).mapError CallError.parse
    ((∃ m, got = .ok m) ↔ ∃ ps, Json.IsObject raw ps ∧ AllDigits ps) ∧
      (∀ m, got = .ok m ↔ ∃ ps, Json.IsObject raw ps ∧ AllDigits ps ∧ m.Pairwise (fun p q => p.1 < q.1) ∧
        ∀ k v, (k, v) ∈ m ↔ Says ps k v) ∧
      ∀ e, got = .error e ↔
        (∃ f, (∀ ps, ¬ Json.IsObject raw ps) ∧ Json.readTexts raw = .error f ∧ e = .parse (.notTexts f)) ∨
          ∃ ps c, Json.IsObject raw ps ∧ FirstFault ps c ∧ e = .parse c := by
  intro got
  have hok : ∀ m, got = .ok m ↔ decodeMap raw = .ok m := fun m => by
    unfold got
    cases decodeMap raw <;> simp [Except.mapError]
  have herror : ∀ e, got = .error e ↔ ∃ c, decodeMap raw = .error c ∧ e = .parse c := fun e => by
    unfold got
    cases decodeMap raw <;> simp [Except.mapError, eq_comm]
  refine ⟨?_, fun m => ?_, fun e => ?_⟩
  · simp only [hok, decodeMap_eq_ok_iff, ← exists_mapM_decodePair]
    exact ⟨fun ⟨m, ps, hps, bs, hbs, _⟩ => ⟨ps, hps, bs, hbs⟩, fun ⟨ps, hps, bs, hbs⟩ => ⟨_, ps, hps, bs, hbs, rfl⟩⟩
  · rw [hok, decodeMap_eq_ok_iff]
    refine exists_congr fun ps => and_congr_right fun _ => ?_
    constructor
    · rintro ⟨bs, hbs, hm⟩
      exact ⟨exists_mapM_decodePair.1 ⟨bs, hbs⟩, (ofPairs_eq_iff hbs).1 hm⟩
    · rintro ⟨hdigits, hm⟩
      obtain ⟨bs, hbs⟩ := exists_mapM_decodePair.2 hdigits
      exact ⟨bs, hbs, (ofPairs_eq_iff hbs).2 hm⟩
  · simp only [herror, decodeMap_eq_error_iff]
    constructor
    · rintro ⟨c, ⟨f, hnone, hf, rfl⟩ | ⟨ps, hps, hc⟩, rfl⟩
      · exact .inl ⟨f, hnone, hf, rfl⟩
      · exact .inr ⟨ps, c, hps, hc, rfl⟩
    · rintro (⟨f, hnone, hf, rfl⟩ | ⟨ps, c, hps, hc, rfl⟩)
      · exact ⟨.notTexts f, .inl ⟨f, hnone, hf, rfl⟩, rfl⟩
      · exact ⟨c, .inr ⟨ps, hps, hc⟩, rfl⟩

/-- The second key is the first in order, and the third pair comes in place of the first. -/
example : decodeMap (utf8 "\x7b\"6b\":\"01\",\"6B\":\"02\",\"6b\":\"03\"\x7d") = .ok [([0x6b], [3])] := rfl

end LedgerClient.KeyValue
