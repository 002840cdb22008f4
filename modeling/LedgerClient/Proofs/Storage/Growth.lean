import Mathlib.Data.List.Nodup
import LedgerClient.Storage.FileTree
/-!
# Trees that grow

What a path leads to stays where it is when more is put into a tree (`Extends.resolve`).  A tree whose folders are
listed in another order is one that has grown into the other, both ways (`Relists.extends`).
-/
namespace LedgerClient.Storage.FileTree

/-- **All that stands in `t` stands in `t'`.** -/
structure Extends (t t' : FileTree) : Prop where
  here : t'.here = t.here
  lookup : ∀ p node, t.lookup p = some node → t'.lookup p = some node

/-- **The same tree, with its folders listed in another order.** -/
structure Relists (t t' : FileTree) : Prop where
  here : t'.here = t.here
  lookup : ∀ p, t'.lookup p = t.lookup p
  names : ∀ p, (t'.names p).Perm (t.names p)

variable {t t' : FileTree}

theorem Relists.symm (h : Relists t t') : Relists t' t :=
  ⟨h.here.symm, fun p => (h.lookup p).symm, fun p => (h.names p).symm⟩

theorem Relists.extends (h : Relists t t') : Extends t t' :=
  ⟨h.here, fun p _ hp => (h.lookup p).trans hp⟩

/-- Entries put after the others hide none of them. -/
theorem extends_append (t : FileTree) (es : List (List String × Node)) :
    Extends t { t with entries := t.entries ++ es } := by
  refine ⟨rfl, fun p node hp => ?_⟩
  unfold lookup at hp ⊢
  by_cases hroot : p.isEmpty = true
  · rw [if_pos hroot] at hp ⊢
    exact hp
  · rw [if_neg hroot] at hp ⊢
    obtain ⟨e, he, hnode⟩ := Option.map_eq_some_iff.1 hp
    rw [List.find?_append, he]
    exact congrArg some hnode

/-! ## Following paths -/

theorem Extends.walkNames (h : Extends t t') {follow follow' : List String → String → List String → Except IoCause Place}
    (hf : ∀ q target r place, follow q target r = .ok place → follow' q target r = .ok place) {place : Place} :
    ∀ (ns p : List String), t.walkNames follow p ns = .ok place → t'.walkNames follow' p ns = .ok place
  | [], p, hw => hw
  | n :: r, p, hw => by
    unfold FileTree.walkNames at hw ⊢
    by_cases hdot : n = "."
    · rw [if_pos hdot] at hw ⊢
      exact h.walkNames hf r p hw
    rw [if_neg hdot] at hw ⊢
    by_cases hup : n = ".."
    · rw [if_pos hup] at hw ⊢
      exact h.walkNames hf r p.dropLast hw
    rw [if_neg hup] at hw ⊢
    by_cases hlong : maxName < n.utf8ByteSize
    · rw [if_pos hlong] at hw
      cases hw
    rw [if_neg hlong] at hw ⊢
    cases hl : t.lookup (p ++ [n]) with
    | none =>
      rw [hl] at hw
      cases hw
    | some node =>
      rw [hl] at hw
      rw [h.lookup _ _ hl]
      cases node with
      | folder => exact h.walkNames hf r _ hw
      | file c => exact hw
      | link target => exact hf _ _ _ _ hw

theorem Extends.walk (h : Extends t t') {place : Place} :
    ∀ (k : Nat) (p ns : List String), t.walk k p ns = .ok place → t'.walk k p ns = .ok place
  | 0, p, ns, hw => h.walkNames (fun _ _ _ _ hf => hf) ns p hw
  | k + 1, p, ns, hw => h.walkNames (fun _ _ _ _ hf => h.walk k _ _ hf) ns p hw

/-- **A path that leads somewhere leads there in the larger tree.** -/
theorem Extends.resolve (h : Extends t t') {path : String} {place : Place} (hr : t.resolve path = .ok place) :
    t'.resolve path = .ok place := by
  unfold FileTree.resolve at hr ⊢
  rw [h.here]
  by_cases hnul : path.toList.contains '\x00' = true
  · rw [if_pos hnul] at hr
    cases hr
  rw [if_neg hnul] at hr ⊢
  by_cases hempty : path.toList.isEmpty = true
  · rw [if_pos hempty] at hr
    cases hr
  rw [if_neg hempty] at hr ⊢
  by_cases hlong : maxPath < path.utf8ByteSize
  · rw [if_pos hlong] at hr
    cases hr
  rw [if_neg hlong] at hr ⊢
  exact h.walk _ _ _ hr

theorem Extends.isFile (h : Extends t t') {path : String} {b : Bool} (hf : t.isFile path = .ok b) :
    t'.isFile path = .ok b := by
  unfold FileTree.isFile at hf ⊢
  cases hr : t.resolve path with
  | error c =>
    rw [hr] at hf
    cases hf
  | ok place =>
    rw [hr] at hf
    rw [h.resolve hr]
    exact hf

/-- What is listed is a folder. -/
theorem list_eq_ok_iff {path : String} {names : List String} :
    t.list path = .ok names ↔ ∃ p, t.resolve path = .ok (p, .folder) ∧ names = t.names p := by
  unfold FileTree.list
  cases t.resolve path with
  | error c => simp
  | ok place =>
    obtain ⟨p, node⟩ := place
    cases node <;> simp [eq_comm]

/-- **Listed in another order**, a folder has the same names. -/
theorem Relists.list (h : Relists t t') {path : String} {names : List String} (hl : t.list path = .ok names) :
    ∃ names', t'.list path = .ok names' ∧ names'.Perm names := by
  obtain ⟨p, hr, rfl⟩ := list_eq_ok_iff.1 hl
  exact ⟨t'.names p, list_eq_ok_iff.2 ⟨p, h.extends.resolve hr, rfl⟩, h.names p⟩

/-! ## Entries in another order -/

theorem find?_eq_some_iff_mem {es : List (List String × Node)} (hes : (es.map Prod.fst).Nodup) {p : List String}
    {node : Node} : (es.find? fun e => e.1 = p).map Prod.snd = some node ↔ (p, node) ∈ es := by
  induction es with
  | nil => simp
  | cons e es ih =>
    rw [List.map_cons, List.nodup_cons] at hes
    by_cases he : e.1 = p
    · have hout : (p, node) ∉ es := fun h => hes.1 (he ▸ List.mem_map_of_mem h)
      rw [List.find?_cons_of_pos (by simpa using he), List.mem_cons, or_iff_left hout]
      constructor
      · intro h
        rw [← he, ← Option.some.inj h]
      · rintro rfl
        rfl
    · rw [List.find?_cons_of_neg (by simpa using he), ih hes.2, List.mem_cons]
      exact (or_iff_right fun h => he (congrArg Prod.fst h).symm).symm

/-- Where no path stands twice, the order of the entries is the order of the lists only. -/
theorem relists_of_perm {es : List (List String × Node)} (hes : (t.entries.map Prod.fst).Nodup)
    (h : es.Perm t.entries) : Relists t { t with entries := es } := by
  have hes' : (es.map Prod.fst).Nodup := (h.map Prod.fst).nodup_iff.2 hes
  refine ⟨rfl, fun p => ?_, fun p => h.filterMap _⟩
  unfold lookup
  by_cases hroot : p.isEmpty = true
  · rw [if_pos hroot, if_pos hroot]
  · rw [if_neg hroot, if_neg hroot]
    refine Option.ext fun node => ?_
    rw [find?_eq_some_iff_mem hes', find?_eq_some_iff_mem hes]
    exact h.mem_iff

/-- The name of `q` in the folder `p`, if it stands there. -/
def nameIn (p q : List String) : Option String :=
  match q.getLast? with
  | some n => if q.dropLast = p then some n else none
  | none => none

theorem eq_of_nameIn {p q : List String} {n : String} (h : nameIn p q = some n) : q = p ++ [n] := by
  unfold nameIn at h
  cases hlast : q.getLast? with
  | none =>
    rw [hlast] at h
    cases h
  | some m =>
    rw [hlast] at h
    dsimp only at h
    split at h
    · rename_i hdrop
      cases h
      rw [← hdrop]
      exact (List.dropLast_append_getLast? n hlast).symm
    · cases h

/-- Where no path stands twice, no folder lists a name twice. -/
theorem names_nodup (hes : (t.entries.map Prod.fst).Nodup) (p : List String) : (t.names p).Nodup := by
  have hnames : t.names p = (t.entries.map Prod.fst).filterMap (nameIn p) := by
    rw [List.filterMap_map]
    rfl
  rw [hnames]
  refine List.Nodup.filterMap (fun q q' n hq hq' => ?_) hes
  rw [eq_of_nameIn hq, eq_of_nameIn hq']

end LedgerClient.Storage.FileTree
