import Mathlib.Data.List.Forall2
import LedgerClient.Storage.FileTree
/-!
# Trees that differ in one file

Two trees that differ in the contents of one file only cannot be told apart without reading it: folders list the same
names, every path leads to the same place (`DifferAt.resolve`), and a file is one in both.
-/
namespace LedgerClient.Storage

/-- An entry, and the same but for the contents of the file at `p`. -/
def AlikeBut (p : List String) (e e' : List String × Node) : Prop :=
  e = e' ∨ ∃ c c', e = (p, .file c) ∧ e' = (p, .file c')

/-- **The trees differ in the contents of the file at `p`**, if at all. -/
structure DifferAt (p : List String) (t t' : FileTree) : Prop where
  here : t'.here = t.here
  entries : List.Forall₂ (AlikeBut p) t.entries t'.entries

theorem DifferAt.refl (p : List String) (t : FileTree) : DifferAt p t t :=
  ⟨rfl, List.forall₂_same.2 fun _ _ => .inl rfl⟩

variable {p : List String} {t t' : FileTree}

theorem AlikeBut.fst {e e' : List String × Node} (h : AlikeBut p e e') : e'.1 = e.1 := by
  rcases h with rfl | ⟨c, c', rfl, rfl⟩ <;> rfl

theorem DifferAt.names (h : DifferAt p t t') (q : List String) : t'.names q = t.names q := by
  have hes := h.entries
  unfold FileTree.names
  generalize t.entries = es, t'.entries = es' at hes
  induction hes with
  | nil => rfl
  | cons he _ ih => simp only [List.filterMap_cons, he.fst, ih]

theorem find?_alikeBut {es es' : List (List String × Node)} (h : List.Forall₂ (AlikeBut p) es es') (q : List String) :
    (es.find? fun e => e.1 = q).map Prod.snd = (es'.find? fun e => e.1 = q).map Prod.snd ∨
      q = p ∧ ∃ c c', (es.find? fun e => e.1 = q).map Prod.snd = some (.file c) ∧
        (es'.find? fun e => e.1 = q).map Prod.snd = some (.file c') := by
  induction h with
  | nil => exact .inl rfl
  | @cons e e' es es' he _ ih =>
    by_cases hq : e.1 = q
    · have hq' : e'.1 = q := he.fst.trans hq
      rw [List.find?_cons_of_pos (by simpa using hq), List.find?_cons_of_pos (by simpa using hq')]
      rcases he with rfl | ⟨c, c', rfl, rfl⟩
      · exact .inl rfl
      · exact .inr ⟨hq.symm, c, c', rfl, rfl⟩
    · have hq' : ¬ e'.1 = q := fun h => hq (he.fst.symm.trans h)
      rwa [List.find?_cons_of_neg (by simpa using hq), List.find?_cons_of_neg (by simpa using hq')]

theorem DifferAt.lookup (h : DifferAt p t t') (q : List String) :
    t.lookup q = t'.lookup q ∨ q = p ∧ ∃ c c', t.lookup q = some (.file c) ∧ t'.lookup q = some (.file c') := by
  unfold FileTree.lookup
  split
  · exact .inl rfl
  · exact find?_alikeBut h.entries q

/-! ## Following paths -/

/-- The same comes of a path, or two files at `p`. -/
def LeadsAlike (p : List String) (r r' : Except IoCause FileTree.Place) : Prop :=
  r = r' ∨ ∃ c c', r = .ok (p, .file c) ∧ r' = .ok (p, .file c')

theorem DifferAt.walkNames (h : DifferAt p t t') {follow follow' : List String → String → List String →
    Except IoCause FileTree.Place} (hf : ∀ q target r, LeadsAlike p (follow q target r) (follow' q target r))
    (ns : List String) (q : List String) :
    LeadsAlike p (t.walkNames follow q ns) (t'.walkNames follow' q ns) := by
  induction ns generalizing q with
  | nil => exact .inl rfl
  | cons n r ih =>
    -- only the lookup looks into the trees; where it tells them apart the path ends, or it fails in both
    unfold FileTree.walkNames
    split
    · exact ih q
    · split
      · exact ih q.dropLast
      · split
        · exact .inl rfl
        · rcases h.lookup (q ++ [n]) with hl | ⟨hp, c, c', hl, hl'⟩
          · rw [← hl]
            cases t.lookup (q ++ [n]) with
            | none => exact .inl rfl
            | some node =>
              cases node with
              | folder => exact ih _
              | file c => exact .inl rfl
              | link target => exact hf q target r
          · rw [hl, hl']
            dsimp only
            split
            · exact .inr ⟨c, c', by rw [hp], by rw [hp]⟩
            · exact .inl rfl

theorem DifferAt.walk (h : DifferAt p t t') (k : Nat) (q ns : List String) :
    LeadsAlike p (t.walk k q ns) (t'.walk k q ns) := by
  induction k generalizing q ns with
  | zero => exact h.walkNames (fun _ _ _ => .inl rfl) ns q
  | succ k ih => exact h.walkNames (fun q target r => ih _ _) ns q

/-- **Every path leads to the same place.** -/
theorem DifferAt.resolve (h : DifferAt p t t') (path : String) : LeadsAlike p (t.resolve path) (t'.resolve path) := by
  unfold FileTree.resolve
  rw [h.here]
  split
  · exact .inl rfl
  · split
    · exact .inl rfl
    · split
      · exact .inl rfl
      · exact h.walk _ _ _

theorem DifferAt.list (h : DifferAt p t t') (path : String) : t'.list path = t.list path := by
  unfold FileTree.list
  rcases h.resolve path with hr | ⟨c, c', hr, hr'⟩
  · rw [← hr]
    cases t.resolve path with
    | error e => rfl
    | ok place =>
      obtain ⟨q, node⟩ := place
      cases node with
      | folder => exact congrArg Except.ok (h.names q)
      | file c => rfl
      | link target => rfl
  · rw [hr, hr']

theorem DifferAt.isFile (h : DifferAt p t t') (path : String) : t'.isFile path = t.isFile path := by
  unfold FileTree.isFile
  rcases h.resolve path with hr | ⟨c, c', hr, hr'⟩
  · rw [← hr]
  · rw [hr, hr']
    rfl

end LedgerClient.Storage
