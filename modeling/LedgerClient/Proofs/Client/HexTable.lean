import LedgerClient.Proofs.Client.HexEntries
/-!
# A map of bytes in a table of text

The table of a contract mirrors a map of bytes if it has the digits of its keys and values and nothing else
(`Mirrors`).  Batches are written so that the table goes on mirroring the map (`isObject_encodeBatch`,
`Mirrors.overlay`), and what is read from the table is what the map holds (`decodeValue_hex`, `Mirrors.decodeMap`).
-/
namespace LedgerClient.KeyValue

/-- What a contract keeps. -/
abbrev Table := String → Option String

/-- What a client sees. -/
abbrev Memory := Bytes → Option Bytes

def hexPair (p : Bytes × Bytes) : String × String := (hex p.1, hex p.2)

theorem hexPair_inj {p q : Bytes × Bytes} (h : hexPair p = hexPair q) : p = q :=
  Prod.ext (hex_inj (Prod.mk.inj h).1) (hex_inj (Prod.mk.inj h).2)

/-- The table has the map's pairs, each in digits, and no other. -/
structure Mirrors (S : Table) (M : Memory) : Prop where
  at_hex : ∀ k, S (hex k) = (M k).map hex
  hex_of : ∀ {key value}, S key = some value → ∃ k, key = hex k

theorem mirrors_empty : Mirrors (fun _ => none) (fun _ => none) := ⟨fun _ => rfl, nofun⟩

variable {S : Table} {M : Memory}

theorem Mirrors.set (h : Mirrors S M) (k v : Bytes) : Mirrors (set S (hex k) (hex v)) (set M k v) := by
  refine ⟨fun a => ?_, fun {key value} hk => ?_⟩
  · by_cases ha : a = k
    · rw [ha, set_self, set_self]
      rfl
    · rw [set_ne _ ha, set_ne _ fun he => ha (hex_inj he), h.at_hex]
  · by_cases hkey : key = hex k
    · exact ⟨k, hkey⟩
    · rw [set_ne _ hkey] at hk
      exact h.hex_of hk

theorem Mirrors.erase (h : Mirrors S M) (k : Bytes) : Mirrors (erase S (hex k)) (erase M k) := by
  unfold KeyValue.erase
  refine ⟨fun a => ?_, fun {key value} hk => ?_⟩
  · by_cases ha : a = k
    · rw [if_pos (by rw [ha]), if_pos ha]
      rfl
    · rw [if_neg fun he => ha (hex_inj he), if_neg ha, h.at_hex]
  · split at hk
    · cases hk
    · exact h.hex_of hk

/-- **Writing the digits of pairs mirrors writing the pairs.** -/
theorem Mirrors.overlay (h : Mirrors S M) (ps : List (Bytes × Bytes)) :
    Mirrors (overlay S (ps.map hexPair)) (overlay M ps) := by
  induction ps generalizing S M with
  | nil => exact h
  | cons p ps ih => exact ih (h.set p.1 p.2)

/-! ## Batches -/

theorem ofPairs_sorted (ps : List (Bytes × Bytes)) : (ByteMap.ofPairs ps).Pairwise fun p q => p.1 < q.1 :=
  (holds_ofPairs strictOrder_lt ps).sorted.imp List.lex_eq_true_iff_lt.1

section Written

variable {m : ByteMap}

theorem hexPair_sorted (h : m.Pairwise fun p q => p.1 < q.1) : (m.map hexPair).Pairwise fun p q => p.1 < q.1 :=
  List.pairwise_map.2 (h.imp hex_lt_iff.2)

/-- The digits of a map are in order as they stand. -/
theorem kept_hexPair (h : m.Pairwise fun p q => p.1 < q.1) : kept (m.map hexPair) = m.map hexPair :=
  ofPairs_of_sorted strictOrder_text ((hexPair_sorted h).imp decide_eq_true)

/-- **A batch is written as the object of its digits.** -/
theorem isObject_encodeBatch (h : m.Pairwise fun p q => p.1 < q.1) :
    Json.IsObject (encodeBatch m) (m.map hexPair) := by
  have hobject := Json.isObject_writeCompact
    (ofPairs (fun a b => decide (a < b)) (m.map fun p => (Hex.encode p.1, Hex.encode p.2)))
  rw [map_textPair_ofPairs, List.map_map] at hobject
  rw [← kept_hexPair h]
  exact hobject

end Written

/-! ## What is read -/

/-- **A value is read from its digits.** -/
theorem decodeValue_hex (v : Bytes) : decodeValue (utf8 (hex v)) = .ok v := by
  rw [decodeValue, utf8_hex, Utf8.decode_encode]
  dsimp only
  rw [Hex.trim_encode, Hex.decode_encode]

theorem decodePair_hexPair (p : Bytes × Bytes) : decodePair (hexPair p) = .ok p := by
  rw [decodePair, hexPair]
  dsimp only
  rw [utf8_hex, Hex.decode_encode]
  dsimp only
  rw [utf8_hex, Hex.decode_encode]

theorem mapM_decodePair (bs : List (Bytes × Bytes)) : (bs.map hexPair).mapM decodePair = .ok bs := by
  induction bs with
  | nil => rfl
  | cons p bs ih =>
    rw [List.map_cons, List.mapM_cons, decodePair_hexPair, ih]
    rfl

/-- Pairs of a table that mirrors a map are digits of pairs. -/
theorem Mirrors.exists_map (h : Mirrors S M) {ps : List (String × String)}
    (hps : ∀ key value, (key, value) ∈ ps → S key = some value) : ∃ bs : List (Bytes × Bytes), ps = bs.map hexPair := by
  induction ps with
  | nil => exact ⟨[], rfl⟩
  | cons p ps ih =>
    obtain ⟨bs, rfl⟩ := ih fun key value hm => hps key value (List.mem_cons_of_mem _ hm)
    have hp : S p.1 = some p.2 := hps p.1 p.2 List.mem_cons_self
    obtain ⟨k, hk⟩ := h.hex_of hp
    rw [hk, h.at_hex, Option.map_eq_some_iff] at hp
    obtain ⟨v, _, hv⟩ := hp
    exact ⟨(k, v) :: bs, by rw [List.map_cons, hexPair, ← hk, hv]⟩

/-- **All of the map is read from an object with all of the table**, however it is written and in whatever order. -/
theorem Mirrors.decodeMap (h : Mirrors S M) {raw : Bytes} {ps : List (String × String)} (ho : Json.IsObject raw ps)
    (hn : (ps.map Prod.fst).Nodup) (hps : ∀ key value, (key, value) ∈ ps ↔ S key = some value) :
    ∃ m, decodeMap raw = .ok m ∧ Holds lt m M := by
  have hq := holds_ofPairs strictOrder_text ps
  rw [mapOf_eq_iff hn hps] at hq
  obtain ⟨bs, hbs⟩ := h.exists_map fun key value => (hq.mem_iff key value).1
  have hmem : ∀ k v, (k, v) ∈ bs ↔ M k = some v := by
    intro k v
    have hex_mem : (k, v) ∈ bs ↔ (hex k, hex v) ∈ bs.map hexPair := by
      refine ⟨fun hm => List.mem_map.2 ⟨_, hm, rfl⟩, fun hm => ?_⟩
      obtain ⟨p, hp, he⟩ := List.mem_map.1 hm
      rwa [← hexPair_inj (p := p) (q := (k, v)) he]
    rw [hex_mem, ← hbs, hq.mem_iff, h.at_hex, Option.map_eq_some_iff]
    exact ⟨fun ⟨w, hw, he⟩ => hex_inj he ▸ hw, fun hv => ⟨v, hv, rfl⟩⟩
  have hnodup : (bs.map Prod.fst).Nodup := by
    have hkeys := hq.nodup strictOrder_text
    rw [hbs, List.map_map] at hkeys
    have hcomp : Prod.fst ∘ hexPair = hex ∘ Prod.fst := rfl
    rw [hcomp, ← List.map_map] at hkeys
    exact (List.pairwise_map.1 hkeys).imp fun hne he => hne (congrArg hex he)
  refine ⟨ByteMap.ofPairs bs, ?_, ?_⟩
  · rw [KeyValue.decodeMap, ho.readTexts_eq]
    dsimp only
    rw [hbs, mapM_decodePair]
  · have hm := holds_ofPairs strictOrder_lt bs
    rwa [mapOf_eq_iff hnodup hmem] at hm

end LedgerClient.KeyValue
