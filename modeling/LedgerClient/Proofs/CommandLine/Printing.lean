import LedgerClient.CommandLine.Execution
import LedgerClient.Proofs.Client.Batch
import LedgerClient.Proofs.Run
/-!
# Which pairs are printed

A map is printed as an object whose keys are the keys of the map as they are shown.  In digits no two keys are shown
alike, and no two that are text.  Other bytes are shown with a mark in place of each ill-formed run, and of keys that are
shown alike only the last is printed: every pair is printed exactly if no two keys are shown alike (`getAll_prints`).
-/
namespace LedgerClient.CommandLine

open Config (Settings)
open Gateway (Fresh)
open KeyValue (ByteMap Bytes kept)

/-- Bytes as they are shown. -/
def printed (hexDigits : Bool) (bs : Bytes) : String := String.ofList (shown hexDigits bs)

def printedPair (hexDigits : Bool) (p : Bytes × Bytes) : String × String :=
  (printed hexDigits p.1, printed hexDigits p.2)

/-- The object that is printed has exactly one entry for each pair of the map. -/
def PrintsEvery (hexDigits : Bool) (m : ByteMap) : Prop :=
  ∃ es, Json.IsObject (Utf8.encode (showMap hexDigits m)) es ∧ es.Perm (m.map (printedPair hexDigits))

theorem printed_text (t : String) : printed false (utf8 t) = t := by
  have hshown : shown false (utf8 t) = t.toList := Utf8.decodeLossy_encode t.toList
  rw [printed, hshown, String.ofList_toList]

/-- The entries of the object are what is kept of the printed pairs. -/
theorem isObject_showMap (h : Bool) (m : ByteMap) :
    Json.IsObject (Utf8.encode (showMap h m)) (kept (m.map (printedPair h))) := by
  have hobject := Json.isObject_writeIndented (KeyValue.ofPairs (fun a b => decide (a < b))
    (m.map fun p => (shown h p.1, shown h p.2)))
  rw [KeyValue.map_textPair_ofPairs, List.map_map] at hobject
  exact hobject

/-! ## Keys that are shown alike -/

section Alike

variable {h : Bool} {m : ByteMap}

theorem kept_keys (ps : List (String × String)) : ((kept ps).map Prod.fst).Nodup :=
  (KeyValue.holds_ofPairs KeyValue.strictOrder_text ps).nodup KeyValue.strictOrder_text

/-- **Every pair is printed exactly if no two keys are shown alike.** -/
theorem printsEvery_iff (hm : (m.map Prod.fst).Nodup) :
    PrintsEvery h m ↔ ∀ p ∈ m, ∀ q ∈ m, printed h p.1 = printed h q.1 → p = q := by
  have hnodup : m.Nodup := List.Nodup.of_map Prod.fst hm
  have hkeys : (m.map (printedPair h)).map Prod.fst = m.map fun p => printed h p.1 := List.map_map
  rw [← List.nodup_map_iff_inj_on hnodup, ← hkeys]
  constructor
  · rintro ⟨es, hes, hperm⟩
    rw [hes.unique (isObject_showMap h m)] at hperm
    exact (hperm.map Prod.fst).nodup_iff.1 (kept_keys _)
  · intro hk
    refine ⟨_, isObject_showMap h m, (List.perm_ext_iff_of_nodup (.of_map Prod.fst (kept_keys _))
      (.of_map Prod.fst hk)).2 fun e => ?_⟩
    rw [KeyValue.mem_kept, ← KeyValue.mapOf_eq_some_iff]
    exact ⟨KeyValue.mem_of_mapOf, KeyValue.mapOf_of_nodup hk⟩

/-- No pair is lost where the keys can be told from how they are shown. -/
theorem printsEvery_of_injOn (hm : (m.map Prod.fst).Nodup)
    (hkeys : ∀ p ∈ m, ∀ q ∈ m, printed h p.1 = printed h q.1 → p.1 = q.1) : PrintsEvery h m :=
  (printsEvery_iff hm).2 fun p hp q hq he => List.inj_on_of_nodup_map hm hp hq (hkeys p hp q hq he)

end Alike

/-! ## The command -/

section Command

variable (w : Surroundings) (fresh : Fresh) (s : Settings)

theorem perform_getAll (h : Bool) (t : Trace) : (Run.after t (perform w fresh s h .getAll)).1 =
    (Run.after t ((KeyValue.Client.ofSettings s).getAll w fresh)).1.map fun m => line (showMap h m) := by
  rw [perform, Run.after_bind]
  rcases Run.after t ((KeyValue.Client.ofSettings s).getAll w fresh) with ⟨x | m, u⟩ <;> rfl

/-- All that is got is the map of some pairs. -/
theorem eq_ofPairs_of_getAll {c : KeyValue.Client} {t : Trace} {m : ByteMap}
    (hm : (Run.after t (c.getAll w fresh)).1 = .ok m) : ∃ ps, ByteMap.ofPairs ps = m := by
  unfold KeyValue.Client.getAll at hm
  rw [Run.after_bind] at hm
  generalize Run.after t (c.evaluate w fresh "getAll" (KeyValue.encodeBatch [])) = r at hm
  rcases r with ⟨x | raw, u⟩
  · cases hm
  · dsimp only at hm
    rw [Run.after_ofExcept] at hm
    cases hd : KeyValue.decodeMap raw with
    | error c =>
      rw [hd] at hm
      cases hm
    | ok m' =>
      rw [hd] at hm
      cases hm
      obtain ⟨-, -, bs, -, he⟩ := KeyValue.decodeMap_eq_ok_iff.1 hd
      exact ⟨bs, he⟩

/-- All pairs that were got are printed as one object, which keeps the last of those whose keys are shown alike.  So every
pair is printed exactly if no two keys are shown alike; in digits that is always so, and for keys that are text. -/
theorem getAll_prints (h : Bool) (t : Trace) :
    (∀ out, (Run.after t (perform w fresh s h .getAll)).1 = .ok out ↔
      ∃ ps, (Run.after t ((KeyValue.Client.ofSettings s).getAll w fresh)).1 = .ok (ByteMap.ofPairs ps) ∧
        out = line (showMap h (ByteMap.ofPairs ps))) ∧
      ∀ ps, let m := ByteMap.ofPairs ps
        Json.IsObject (Utf8.encode (showMap h m)) (kept (m.map (printedPair h))) ∧
          (PrintsEvery h m ↔ ∀ p ∈ m, ∀ q ∈ m, printed h p.1 = printed h q.1 → p = q) ∧
          PrintsEvery true m ∧
          ((∀ p ∈ m, ∃ key, p.1 = utf8 key) → PrintsEvery false m) := by
  refine ⟨fun out => ?_, fun ps => ?_⟩
  · rw [perform_getAll]
    constructor
    · intro hout
      cases hgot : (Run.after t ((KeyValue.Client.ofSettings s).getAll w fresh)).1 with
      | error x =>
        rw [hgot] at hout
        cases hout
      | ok m =>
        obtain ⟨ps, rfl⟩ := eq_ofPairs_of_getAll w fresh hgot
        rw [hgot] at hout
        exact ⟨ps, rfl, (Except.ok.inj hout).symm⟩
    · rintro ⟨ps, hgot, rfl⟩
      rw [hgot]
      rfl
  · intro m
    have hm : (m.map Prod.fst).Nodup := (KeyValue.holds_ofPairs KeyValue.strictOrder_lt ps).nodup KeyValue.strictOrder_lt
    refine ⟨isObject_showMap h m, printsEvery_iff hm, printsEvery_of_injOn hm fun p _ q _ he => hex_inj he,
      fun htext => printsEvery_of_injOn hm fun p hp q hq he => ?_⟩
    obtain ⟨a, ha⟩ := htext p hp
    obtain ⟨b, hb⟩ := htext q hq
    rw [ha, hb, printed_text, printed_text] at he
    rw [ha, hb, he]

end Command

/-- Two keys that are no text are shown as the same mark, and one of them is lost. -/
theorem not_always_every :
    ¬ ∀ (h : Bool) (ps : List (Bytes × Bytes)), PrintsEvery h (ByteMap.ofPairs ps) := by
  intro hall
  have hevery := hall false [([0xFE], [0x31]), ([0xFF], [0x32])]
  rw [printsEvery_iff (by decide)] at hevery
  have hsame := hevery ([0xFE], [0x31]) (by decide) ([0xFF], [0x32]) (by decide) (by decide)
  exact absurd hsame (by decide)

end LedgerClient.CommandLine
