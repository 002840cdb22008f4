import LedgerClient.Client.KeyValue
/-!
# Maps in order

A list of pairs in order of their keys stands for one map (`Holds`).  Putting in a pair sets its key and keeps the
order (`Holds.insert`), so a list built from any pairs stands for what they come to when written one after the other
(`holds_ofPairs`).
-/
namespace LedgerClient.KeyValue

variable {α β : Type} {less : α → α → Bool}

/-- Of any two keys that differ, one comes first. -/
structure StrictOrder (less : α → α → Bool) : Prop where
  irrefl : ∀ a, less a a = false
  trans : ∀ {a b c}, less a b = true → less b c = true → less a c = true
  eq : ∀ {a b}, less a b = false → less b a = false → a = b

theorem strictOrder_lt : StrictOrder lt where
  irrefl a := Bool.eq_false_iff.2 fun h => List.lt_irrefl a (List.lex_eq_true_iff_lt.1 h)
  trans h h' := List.lex_eq_true_iff_lt.2
    (List.lt_trans (List.lex_eq_true_iff_lt.1 h) (List.lex_eq_true_iff_lt.1 h'))
  eq h h' := List.le_antisymm
    (List.not_lt.1 fun g => Bool.eq_false_iff.1 h' (List.lex_eq_true_iff_lt.2 g))
    (List.not_lt.1 fun g => Bool.eq_false_iff.1 h (List.lex_eq_true_iff_lt.2 g))

theorem strictOrder_text : StrictOrder fun a b : String => decide (a < b) where
  irrefl a := decide_eq_false (String.lt_irrefl a)
  trans h h' := decide_eq_true (String.lt_trans (of_decide_eq_true h) (of_decide_eq_true h'))
  eq h h' := String.le_antisymm (String.not_lt.1 (of_decide_eq_false h')) (String.not_lt.1 (of_decide_eq_false h))

/-! ## Maps -/

section Maps

variable [DecidableEq α]

def set (M : α → Option β) (k : α) (v : β) : α → Option β := fun a => if a = k then some v else M a

def erase (M : α → Option β) (k : α) : α → Option β := fun a => if a = k then none else M a

/-- Pairs written into a map one after the other. -/
def overlay (M : α → Option β) (ps : List (α × β)) : α → Option β := ps.foldl (fun M p => set M p.1 p.2) M

/-- The map of some pairs, of which later ones count. -/
def mapOf (ps : List (α × β)) : α → Option β := overlay (fun _ => none) ps

theorem set_self (M : α → Option β) (k : α) (v : β) : set M k v k = some v := if_pos rfl

theorem set_ne (M : α → Option β) {k a : α} (h : a ≠ k) (v : β) : set M k v a = M a := if_neg h

theorem set_eq_or (M : α → Option β) (k : α) (v : β) (a : α) :
    set M k v a = (set (fun _ => none) k v a).or (M a) := by
  unfold set
  split <;> rfl

/-- Pairs that are written into a map count before what it held. -/
theorem overlay_apply (M : α → Option β) (ps : List (α × β)) (a : α) : overlay M ps a = (mapOf ps a).or (M a) := by
  induction ps generalizing M with
  | nil => rfl
  | cons p ps ih =>
    have hcons : ∀ M : α → Option β, overlay M (p :: ps) = overlay (set M p.1 p.2) ps := fun _ => rfl
    rw [mapOf, hcons, hcons, ih, ih (set _ _ _), set_eq_or M, Option.or_assoc]

theorem mapOf_cons (p : α × β) (ps : List (α × β)) (a : α) :
    mapOf (p :: ps) a = (mapOf ps a).or (if a = p.1 then some p.2 else none) := overlay_apply _ ps a

theorem mem_of_mapOf {ps : List (α × β)} {a : α} {b : β} (h : mapOf ps a = some b) : (a, b) ∈ ps := by
  induction ps with
  | nil => cases h
  | cons p ps ih =>
    rw [mapOf_cons, Option.or_eq_some_iff] at h
    rcases h with h | ⟨_, h⟩
    · exact List.mem_cons_of_mem _ (ih h)
    · split at h
      · rename_i ha
        cases h
        subst ha
        exact List.mem_cons_self
      · cases h

/-- Of pairs with different keys every one counts. -/
theorem mapOf_of_nodup {ps : List (α × β)} (h : (ps.map Prod.fst).Nodup) {a : α} {b : β} (hm : (a, b) ∈ ps) :
    mapOf ps a = some b := by
  induction ps with
  | nil => cases hm
  | cons p ps ih =>
    obtain ⟨hp, hr⟩ := List.nodup_cons.1 h
    rw [mapOf_cons]
    rcases List.mem_cons.1 hm with rfl | hm
    · have hnone : mapOf ps a = none := Option.eq_none_iff_forall_ne_some.2 fun c hc =>
        hp (List.mem_map.2 ⟨(a, c), mem_of_mapOf hc, rfl⟩)
      rw [hnone, if_pos rfl]
      rfl
    · rw [ih hr hm]
      rfl

theorem mapOf_eq_iff {ps : List (α × β)} (h : (ps.map Prod.fst).Nodup) {M : α → Option β}
    (hM : ∀ a b, (a, b) ∈ ps ↔ M a = some b) : mapOf ps = M := by
  funext a
  refine Option.ext fun b => ⟨fun hb => (hM a b).1 (mem_of_mapOf hb), fun hb => mapOf_of_nodup h ((hM a b).2 hb)⟩

end Maps

/-! ## Lists in order -/

/-- The list is in order and has exactly the pairs of the map. -/
structure Holds (less : α → α → Bool) (m : List (α × β)) (M : α → Option β) : Prop where
  sorted : m.Pairwise fun p q => less p.1 q.1 = true
  mem_iff : ∀ a b, (a, b) ∈ m ↔ M a = some b

theorem nodup_of_sorted (hless : StrictOrder less) {m : List (α × β)}
    (h : m.Pairwise fun p q => less p.1 q.1 = true) : (m.map Prod.fst).Nodup := by
  refine List.pairwise_map.2 (h.imp fun {p q} hpq he => ?_)
  rw [he, hless.irrefl] at hpq
  cases hpq

theorem Holds.nodup {m : List (α × β)} {M : α → Option β} (hless : StrictOrder less) (h : Holds less m M) :
    (m.map Prod.fst).Nodup := nodup_of_sorted hless h.sorted

/-- An insertion adds nothing but its pair. -/
theorem mem_insert {k : α} {v : β} {m : List (α × β)} {p : α × β} (h : p ∈ insert less k v m) :
    p = (k, v) ∨ p ∈ m := by
  induction m with
  | nil => exact .inl (List.mem_singleton.1 h)
  | cons q m ih =>
    obtain ⟨a, b⟩ := q
    rw [insert] at h
    split at h
    · exact List.mem_cons.1 h
    split at h
    · rcases List.mem_cons.1 h with rfl | h
      · exact .inr List.mem_cons_self
      · exact (ih h).imp id (List.mem_cons_of_mem _)
    · exact (List.mem_cons.1 h).imp id (List.mem_cons_of_mem _)

theorem sorted_insert (hless : StrictOrder less) (k : α) (v : β) {m : List (α × β)}
    (h : m.Pairwise fun p q => less p.1 q.1 = true) :
    (insert less k v m).Pairwise fun p q => less p.1 q.1 = true := by
  induction m with
  | nil => exact List.pairwise_singleton _ _
  | cons q m ih =>
    obtain ⟨a, b⟩ := q
    obtain ⟨hq, hm⟩ := List.pairwise_cons.1 h
    rw [insert]
    split
    · rename_i hka
      refine List.pairwise_cons.2 ⟨fun p hp => ?_, h⟩
      rcases List.mem_cons.1 hp with rfl | hp
      · exact hka
      · exact hless.trans hka (hq p hp)
    rename_i hka
    split
    · rename_i hak
      refine List.pairwise_cons.2 ⟨fun p hp => ?_, ih hm⟩
      rcases mem_insert hp with rfl | hp
      · exact hak
      · exact hq p hp
    · rename_i hak
      obtain rfl : k = a := hless.eq (Bool.eq_false_iff.2 hka) (Bool.eq_false_iff.2 hak)
      exact List.pairwise_cons.2 ⟨hq, hm⟩

section Map

variable {γ δ : Type} {less' : γ → γ → Bool} {f : α → γ} {g : β → δ}

theorem insert_map (hf : ∀ a b, less' (f a) (f b) = less a b) (k : α) (v : β) (m : List (α × β)) :
    (insert less k v m).map (Prod.map f g) = insert less' (f k) (g v) (m.map (Prod.map f g)) := by
  induction m with
  | nil => rfl
  | cons q m ih =>
    obtain ⟨a, b⟩ := q
    rw [insert, List.map_cons, Prod.map_apply, insert, hf, hf, ← ih]
    split
    · rfl
    split <;> rfl

/-- Pairs can be put in order before or after their keys are changed, if the order is kept. -/
theorem ofPairs_map (hf : ∀ a b, less' (f a) (f b) = less a b) (ps : List (α × β)) :
    (ofPairs less ps).map (Prod.map f g) = ofPairs less' (ps.map (Prod.map f g)) := by
  have hfold : ∀ (ps m : List (α × β)), (ps.foldl (fun m p => insert less p.1 p.2 m) m).map (Prod.map f g) =
      (ps.map (Prod.map f g)).foldl (fun m p => insert less' p.1 p.2 m) (m.map (Prod.map f g)) := by
    intro ps
    induction ps with
    | nil => exact fun _ => rfl
    | cons p ps ih =>
      intro m
      rw [List.foldl_cons, ih, insert_map hf]
      rfl
  exact hfold ps []

end Map

theorem not_mem_of_less (hless : StrictOrder less) {k : α} {m : List (α × β)} (h : ∀ p ∈ m, less k p.1 = true)
    (b : β) : (k, b) ∉ m := fun hm => Bool.eq_false_iff.1 (hless.irrefl k) (h _ hm)

theorem mem_insert_self (hless : StrictOrder less) (k : α) (v : β) {m : List (α × β)}
    (h : m.Pairwise fun p q => less p.1 q.1 = true) (b : β) : (k, b) ∈ insert less k v m ↔ b = v := by
  have hself : ∀ {r : List (α × β)}, (∀ p ∈ r, less k p.1 = true) → ((k, b) ∈ (k, v) :: r ↔ b = v) := by
    intro r hr
    rw [List.mem_cons]
    refine ⟨fun hm => ?_, fun hb => .inl (by rw [hb])⟩
    rcases hm with hm | hm
    · exact (Prod.mk.inj hm).2
    · exact absurd hm (not_mem_of_less hless hr b)
  induction m with
  | nil => exact hself nofun
  | cons q m ih =>
    obtain ⟨a, d⟩ := q
    obtain ⟨hq, hm⟩ := List.pairwise_cons.1 h
    rw [insert]
    split
    · rename_i hka
      refine hself fun p hp => ?_
      rcases List.mem_cons.1 hp with rfl | hp
      · exact hka
      · exact hless.trans hka (hq p hp)
    rename_i hka
    split
    · rename_i hak
      have hne : (k, b) ≠ (a, d) := fun he => by
        rw [(Prod.mk.inj he).1, hless.irrefl] at hak
        cases hak
      rw [List.mem_cons, or_iff_right hne]
      exact ih hm
    · rename_i hak
      obtain rfl : k = a := hless.eq (Bool.eq_false_iff.2 hka) (Bool.eq_false_iff.2 hak)
      exact hself hq

theorem mem_insert_ne (hless : StrictOrder less) {k a : α} (hne : a ≠ k) (v b : β) (m : List (α × β)) :
    (a, b) ∈ insert less k v m ↔ (a, b) ∈ m := by
  have hcons : ∀ r : List (α × β), (a, b) ∈ (k, v) :: r ↔ (a, b) ∈ r := fun r => by
    rw [List.mem_cons, or_iff_right fun he => hne (Prod.mk.inj he).1]
  induction m with
  | nil => exact hcons []
  | cons q m ih =>
    obtain ⟨c, d⟩ := q
    rw [insert]
    split
    · exact hcons _
    rename_i hkc
    split
    · rw [List.mem_cons, List.mem_cons]
      exact or_congr Iff.rfl ih
    · rename_i hck
      obtain rfl : k = c := hless.eq (Bool.eq_false_iff.2 hkc) (Bool.eq_false_iff.2 hck)
      rw [hcons, List.mem_cons, or_iff_right fun he => hne (Prod.mk.inj he).1]

variable [DecidableEq α]

/-- **Putting in a pair sets its key.** -/
theorem Holds.insert (hless : StrictOrder less) {m : List (α × β)} {M : α → Option β} (h : Holds less m M) (k : α)
    (v : β) : Holds less (insert less k v m) (set M k v) := by
  refine ⟨sorted_insert hless k v h.sorted, fun a b => ?_⟩
  by_cases ha : a = k
  · rw [ha, mem_insert_self hless k v h.sorted, set_self, Option.some.injEq, eq_comm]
  · rw [mem_insert_ne hless ha, set_ne _ ha, h.mem_iff]

/-- **A list built from pairs stands for their map.** -/
theorem holds_ofPairs (hless : StrictOrder less) (ps : List (α × β)) : Holds less (ofPairs less ps) (mapOf ps) := by
  have hfold : ∀ (ps : List (α × β)) {m : List (α × β)} {M : α → Option β}, Holds less m M →
      Holds less (ps.foldl (fun m p => KeyValue.insert less p.1 p.2 m) m) (overlay M ps) := by
    intro ps
    induction ps with
    | nil => exact fun h => h
    | cons p ps ih => exact fun h => ih (h.insert hless p.1 p.2)
  exact hfold ps ⟨List.Pairwise.nil, fun a b => ⟨nofun, nofun⟩⟩

theorem Holds.mapOf_eq (hless : StrictOrder less) {m : List (α × β)} {M : α → Option β} (h : Holds less m M) :
    mapOf m = M := mapOf_eq_iff (h.nodup hless) h.mem_iff

/-- Pairs can be put in order before they are written. -/
theorem overlay_ofPairs (hless : StrictOrder less) (M : α → Option β) (ps : List (α × β)) :
    overlay M (ofPairs less ps) = overlay M ps := by
  funext a
  rw [overlay_apply, overlay_apply M ps, (holds_ofPairs hless ps).mapOf_eq hless]

end LedgerClient.KeyValue
