import LedgerClient.Proofs.Client.HexTable
/-!
# Each map is written in one way

A map is written as the object of its digits, which stand in the order of its keys, since digits keep the order of the
bytes they are written for.  What is written is read as the same map, so pairs that come to one map are written alike and
no others are (`encodeBatch_canonical`).
-/
namespace LedgerClient.KeyValue

theorem mem_ofPairs {ps : List (Bytes × Bytes)} {k v : Bytes} : (k, v) ∈ ByteMap.ofPairs ps ↔ Kept ps k v := by
  rw [← mapOf_eq_some_iff]
  exact (holds_ofPairs strictOrder_lt ps).mem_iff k v

theorem ofPairs_eq_iff_kept {ps qs : List (Bytes × Bytes)} :
    ByteMap.ofPairs ps = ByteMap.ofPairs qs ↔ ∀ k v, Kept ps k v ↔ Kept qs k v := by
  constructor
  · intro h k v
    rw [← mem_ofPairs, h, mem_ofPairs]
  · intro h
    have hsame : mapOf ps = mapOf qs := by
      funext k
      exact Option.ext fun v => by rw [mapOf_eq_some_iff, mapOf_eq_some_iff, h]
    have hps := holds_ofPairs strictOrder_lt ps
    rw [hsame] at hps
    exact hps.unique strictOrder_lt (holds_ofPairs strictOrder_lt qs)

section Written

variable {m m' : ByteMap}

/-- **A map is read from what it is written as.** -/
theorem decodeMap_encodeBatch (h : m.Pairwise fun p q => p.1 < q.1) : decodeMap (encodeBatch m) = .ok m := by
  refine decodeMap_eq_ok_iff.2 ⟨_, isObject_encodeBatch h, m, ?_, ?_⟩
  · rw [kept_hexPair h, mapM_decodePair]
  · exact ofPairs_of_sorted strictOrder_lt (h.imp List.lex_eq_true_iff_lt.2)

theorem encodeBatch_inj (h : m.Pairwise fun p q => p.1 < q.1) (h' : m'.Pairwise fun p q => p.1 < q.1)
    (he : encodeBatch m = encodeBatch m') : m = m' := by
  have hread := decodeMap_encodeBatch h
  rw [he, decodeMap_encodeBatch h'] at hread
  exact (Except.ok.inj hread).symm

end Written

/-- The entry is written for the pair: both its key and its value have the lowercase digits of the pair's. -/
def Enters (p : Bytes × Bytes) (e : String × String) : Prop := Hex.Writes e.1 p.1 ∧ Hex.Writes e.2 p.2

theorem enters_hexPair (m : ByteMap) : List.Forall₂ Enters m (m.map hexPair) :=
  List.forall₂_map_right_iff.2 (List.forall₂_same.2 fun p _ => ⟨Hex.writes_encode p.1, Hex.writes_encode p.2⟩)

/-- The map of any pairs is written as an object with one entry in lowercase digits for each of its pairs, in the order of
its keys, which is also that of their digits.  It is read back as this map, and other pairs are written as the same bytes
exactly if they come to the same map. -/
theorem encodeBatch_canonical (ps : List (Bytes × Bytes)) :
    let m := ByteMap.ofPairs ps
    (∀ k v, (k, v) ∈ m ↔ Kept ps k v) ∧
      m.Pairwise (fun p q => p.1 < q.1) ∧
      (∃ es, Json.IsObject (encodeBatch m) es ∧ List.Forall₂ Enters m es ∧ es.Pairwise fun e f => e.1 < f.1) ∧
      decodeMap (encodeBatch m) = .ok m ∧
      ∀ qs, encodeBatch (ByteMap.ofPairs qs) = encodeBatch m ↔ ∀ k v, Kept qs k v ↔ Kept ps k v := by
  intro m
  have hm : m.Pairwise fun p q => p.1 < q.1 := ofPairs_sorted ps
  refine ⟨fun k v => mem_ofPairs, hm, ⟨m.map hexPair, isObject_encodeBatch hm, enters_hexPair m, hexPair_sorted hm⟩,
    decodeMap_encodeBatch hm, fun qs => ?_⟩
  rw [← ofPairs_eq_iff_kept]
  exact ⟨encodeBatch_inj (ofPairs_sorted qs) hm, congrArg encodeBatch⟩

/-- A key comes before the longer ones it begins, and the later of two pairs with one key counts. -/
example : encodeBatch (ByteMap.ofPairs [([0x6b, 0], [1]), ([0x6b], [0xff]), ([], []), ([0x6b], [2])]) =
    utf8 "\x7b\"\":\"\",\"6b\":\"02\",\"6b00\":\"01\"\x7d" := rfl

end LedgerClient.KeyValue
