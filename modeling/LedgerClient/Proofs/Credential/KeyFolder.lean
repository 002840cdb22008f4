import LedgerClient.Credential.KeyStore
import LedgerClient.Proofs.Run
import LedgerClient.Proofs.Storage.Growth
import LedgerClient.Proofs.Text.Order
/-!
# The choice of a key file

What is chosen in a folder depends on which of its entries are files, and on nothing else (`Selected`): not on the order
in which they are listed, nor on folders among them (`KeyStore.select_listed`).  The one way in which a folder counts is
that a link may lead through it, and a link that leads nowhere is an error (`KeyStore.folder_counts`).
-/
namespace LedgerClient.KeyStore

open Storage (FileTree)

/-- The entry leads to a file or a folder. -/
def Followed (t : FileTree) (dir n : String) : Prop := ∃ b, t.isFile (entryPath dir n) = .ok b

/-- The entry leads to a file. -/
def isKey (t : FileTree) (dir n : String) : Bool := (t.isFile (entryPath dir n)).toOption == some true

/-- The entries that lead to files. -/
def keys (t : FileTree) (dir : String) (names : List String) : List String := names.filter (isKey t dir)

variable {t t' : FileTree} {dir : String} {strict : Bool} {names names' : List String}

theorem isKey_eq {n : String} {b : Bool} (h : t.isFile (entryPath dir n) = .ok b) : isKey t dir n = b := by
  rw [isKey, h]
  cases b <;> rfl

theorem Followed.grown {n : String} (h : Followed t dir n) (ht : t.Extends t') : Followed t' dir n := by
  obtain ⟨b, hb⟩ := h
  exact ⟨b, ht.isFile hb⟩

/-- Entries that lead somewhere lead there in a larger tree, and so are keys or not as they were. -/
theorem keys_grown (ht : t.Extends t') (h : ∀ n ∈ names, Followed t dir n) : keys t' dir names = keys t dir names := by
  refine List.filter_congr fun n hn => ?_
  obtain ⟨b, hb⟩ := h n hn
  rw [isKey_eq hb, isKey_eq (ht.isFile hb)]

/-! ## Entries that lead to files -/

theorem candidates_eq_ok (h : ∀ n ∈ names, Followed t dir n) : candidates t dir names = .ok (keys t dir names) := by
  induction names with
  | nil => rfl
  | cons n ns ih =>
    obtain ⟨⟨b, hb⟩, hns⟩ := List.forall_mem_cons.1 h
    rw [candidates, hb, ih hns]
    cases b with
    | true => exact congrArg Except.ok (List.filter_cons_of_pos (isKey_eq hb)).symm
    | false =>
      have hout : ¬ isKey t dir n = true := by rw [isKey_eq hb]; exact Bool.false_ne_true
      exact congrArg Except.ok (List.filter_cons_of_neg hout).symm

/-- **An entry that leads nowhere** is named. -/
theorem candidates_eq_error (h : ¬ ∀ n ∈ names, Followed t dir n) :
    ∃ n ∈ names, ∃ c, t.isFile (entryPath dir n) = .error c ∧
      candidates t dir names = .error (.io (entryPath dir n) c) := by
  induction names with
  | nil => simp at h
  | cons n ns ih =>
    cases hn : t.isFile (entryPath dir n) with
    | error c => exact ⟨n, List.mem_cons_self, c, hn, by rw [candidates, hn]⟩
    | ok b =>
      have hns : ¬ ∀ m ∈ ns, Followed t dir m := fun hns => h (List.forall_mem_cons.2 ⟨⟨b, hn⟩, hns⟩)
      obtain ⟨m, hm, c, hc, he⟩ := ih hns
      exact ⟨m, List.mem_cons_of_mem _ hm, c, hc, by rw [candidates, hn, he]; rfl⟩

/-! ## The first name -/

theorem least_cons (n m : String) (ns : List String) : least n (m :: ns) = least (if m < n then m else n) ns := rfl

theorem least_mem (n : String) (ns : List String) : least n ns ∈ n :: ns := by
  induction ns generalizing n with
  | nil => exact List.mem_cons_self
  | cons m ns ih =>
    rw [least_cons]
    rcases List.mem_cons.1 (ih (if m < n then m else n)) with h | h
    · rw [h]
      split <;> simp
    · exact List.mem_cons_of_mem _ (List.mem_cons_of_mem _ h)

theorem least_le (n : String) (ns : List String) : ∀ m ∈ n :: ns, least n ns ≤ m := by
  induction ns generalizing n with
  | nil =>
    intro m hm
    rw [List.mem_singleton.1 hm]
    exact String.le_refl n
  | cons k ns ih =>
    have hfirst := ih (if k < n then k else n) _ List.mem_cons_self
    have hnk : (if k < n then k else n) ≤ n ∧ (if k < n then k else n) ≤ k := by
      by_cases hlt : k < n
      · rw [if_pos hlt]
        exact ⟨String.not_lt.1 (String.lt_asymm hlt), String.le_refl k⟩
      · rw [if_neg hlt]
        exact ⟨String.le_refl n, String.not_lt.1 hlt⟩
    intro m hm
    rw [least_cons]
    rcases List.mem_cons.1 hm with rfl | hm
    · exact String.le_trans hfirst hnk.1
    · rcases List.mem_cons.1 hm with rfl | hm
      · exact String.le_trans hfirst hnk.2
      · exact ih _ m (List.mem_cons_of_mem _ hm)

/-- **The first of some names**, in the order of their bytes. -/
def First (n : String) (ns : List String) : Prop := n ∈ ns ∧ ∀ m ∈ ns, ¬ utf8 m < utf8 n

theorem first_least (n : String) (ns : List String) : First (least n ns) (n :: ns) :=
  ⟨least_mem n ns, fun m hm h => String.not_lt.2 (least_le n ns m hm) (utf8_lt_iff.1 h)⟩

/-- There is one first name, in whatever order they are listed. -/
theorem First.unique {n m : String} {ns ms : List String} (hn : First n ns) (hm : First m ms) (h : ns.Perm ms) :
    n = m := by
  have hnm : ¬ m < n := fun hlt => hn.2 m (h.mem_iff.2 hm.1) (utf8_lt_iff.2 hlt)
  have hmn : ¬ n < m := fun hlt => hm.2 n (h.mem_iff.1 hn.1) (utf8_lt_iff.2 hlt)
  exact String.le_antisymm (String.not_lt.1 hnm) (String.not_lt.1 hmn)

/-! ## The choice -/

/-- **What a choice among key files comes to**, and what it reports. -/
inductive Chosen (dir : String) (strict : Bool) (ks : List String) : Except CallError String → List Event → Prop
  | none (hks : ks = []) : Chosen dir strict ks (.error (.noKeyFound dir)) []
  | only {n : String} (hks : ks = [n]) : Chosen dir strict ks (.ok (entryPath dir n)) []
  | ambiguous (hks : 2 ≤ ks.length) (hs : strict = true) :
      Chosen dir strict ks (.error (.ambiguousKey dir ks.length)) []
  | first {n : String} (hks : 2 ≤ ks.length) (hs : strict = false) (hn : First n ks) :
      Chosen dir strict ks (.ok (entryPath dir n)) [.manyKeys dir ks.length (entryPath dir n)]

/-- **What a choice comes to** in a folder that lists `names`: an entry that leads nowhere is an error, and otherwise the
choice is among the entries that lead to files. -/
inductive Selected (t : FileTree) (dir : String) (strict : Bool) (names : List String) :
    Except CallError String → List Event → Prop
  | astray {n : String} {c : IoCause} (hn : n ∈ names) (hc : t.isFile (entryPath dir n) = .error c) :
      Selected t dir strict names (.error (.io (entryPath dir n) c)) []
  | chosen {r : Except CallError String} {es : List Event} (hall : ∀ n ∈ names, Followed t dir n)
      (h : Chosen dir strict (keys t dir names) r es) : Selected t dir strict names r es

theorem chosen_cons (dir : String) (strict : Bool) (n : String) (ns : List String) :
    Chosen dir strict (n :: ns)
      (if strict && !ns.isEmpty then .error (.ambiguousKey dir (ns.length + 1)) else .ok (entryPath dir (least n ns)))
      (if strict || ns.isEmpty then [] else [.manyKeys dir (ns.length + 1) (entryPath dir (least n ns))]) := by
  cases ns with
  | nil =>
    rw [List.isEmpty_nil, Bool.not_true, Bool.and_false, Bool.or_true]
    exact .only rfl
  | cons m ns =>
    have htwo : 2 ≤ (n :: m :: ns).length := by simp only [List.length_cons]; omega
    cases strict with
    | true => exact .ambiguous htwo rfl
    | false => exact .first htwo rfl (first_least n (m :: ns))

theorem Chosen.perm {ks ks' : List String} {r : Except CallError String} {es : List Event}
    (h : Chosen dir strict ks r es) (hp : ks.Perm ks') : Chosen dir strict ks' r es := by
  cases h with
  | none hks => exact .none (List.nil_perm.1 (hks ▸ hp))
  | only hks => exact .only (List.singleton_perm.1 (hks ▸ hp)).symm
  | ambiguous hks hs =>
    rw [hp.length_eq] at hks ⊢
    exact .ambiguous hks hs
  | first hks hs hn =>
    rw [hp.length_eq] at hks ⊢
    exact .first hks hs ⟨hp.mem_iff.1 hn.1, fun m hm => hn.2 m (hp.mem_iff.2 hm)⟩

/-- A choice among key files comes to one thing. -/
theorem Chosen.unique {ks : List String} {r r' : Except CallError String} {es es' : List Event}
    (h : Chosen dir strict ks r es) (h' : Chosen dir strict ks r' es') : r = r' ∧ es = es' := by
  cases h with
  | none hks =>
    subst hks
    cases h' with
    | none _ => exact ⟨rfl, rfl⟩
    | only hks' => cases hks'
    | ambiguous hks' _ => exact absurd hks' (by decide)
    | first hks' _ _ => exact absurd hks' (by decide)
  | only hks =>
    subst hks
    cases h' with
    | none hks' => cases hks'
    | only hks' =>
      cases hks'
      exact ⟨rfl, rfl⟩
    | ambiguous hks' _ => exact absurd hks' (by simp)
    | first hks' _ _ => exact absurd hks' (by simp)
  | ambiguous hks hs =>
    cases h' with
    | none hks' => simp [hks'] at hks
    | only hks' => simp [hks'] at hks
    | ambiguous _ _ => exact ⟨rfl, rfl⟩
    | first _ hs' _ => cases hs.symm.trans hs'
  | first hks hs hn =>
    cases h' with
    | none hks' => simp [hks'] at hks
    | only hks' => simp [hks'] at hks
    | ambiguous _ hs' => cases hs.symm.trans hs'
    | first _ _ hn' =>
      rw [hn.unique hn' (List.Perm.refl ks)]
      exact ⟨rfl, rfl⟩

/-- Reports some events and ends. -/
def ending (r : Except CallError String) (es : List Event) : Run String := do
  Run.reports es
  Run.ofExcept r

theorem select_of_error {e : CallError} (h : choose t dir strict = .error e) :
    select t dir strict = ending (.error e) [] := by
  refine Run.ext fun u => ?_
  rw [select, h, ending, Run.ofExcept_error_bind, Run.after_bind, Run.after_reports, List.append_nil]
  rfl

theorem select_of_ok {c : Choice} (h : choose t dir strict = .ok c) :
    select t dir strict = ending (.ok c.path) (if 1 < c.count then [.manyKeys dir c.count c.path] else []) := by
  refine Run.ext fun u => ?_
  rw [select, h, Run.ofExcept_ok, pure_bind, ending, Run.after_bind, Run.after_reports]
  by_cases hmany : 1 < c.count
  · rw [if_pos hmany, if_pos hmany]
    rfl
  · rw [if_neg hmany, if_neg hmany, List.append_nil]
    rfl

theorem choose_of_error {e : CallError} (hlist : t.list dir = .ok names) (h : candidates t dir names = .error e) :
    choose t dir strict = .error e := by
  unfold choose chooseAmong
  simp only [hlist, h]

theorem choose_of_nil (hlist : t.list dir = .ok names) (h : candidates t dir names = .ok []) :
    choose t dir strict = .error (.noKeyFound dir) := by
  unfold choose chooseAmong
  simp only [hlist, h]

theorem choose_of_cons {n : String} {ns : List String} (hlist : t.list dir = .ok names)
    (h : candidates t dir names = .ok (n :: ns)) : choose t dir strict =
      if strict && !ns.isEmpty then .error (.ambiguousKey dir (ns.length + 1))
      else .ok ⟨entryPath dir (least n ns), ns.length + 1⟩ := by
  unfold choose chooseAmong
  simp only [hlist, h]

theorem select_of_cons {n : String} {ns : List String} (hlist : t.list dir = .ok names)
    (h : candidates t dir names = .ok (n :: ns)) : select t dir strict = ending
      (if strict && !ns.isEmpty then .error (.ambiguousKey dir (ns.length + 1)) else .ok (entryPath dir (least n ns)))
      (if strict || ns.isEmpty then [] else [.manyKeys dir (ns.length + 1) (entryPath dir (least n ns))]) := by
  have hchoose : choose t dir strict = _ := choose_of_cons hlist h
  cases strict with
  | false =>
    cases ns with
    | nil => exact select_of_ok hchoose
    | cons m ns => exact select_of_ok hchoose
  | true =>
    cases ns with
    | nil => exact select_of_ok hchoose
    | cons m ns => exact select_of_error hchoose

/-- **Every choice comes to one of these.** -/
theorem select_selected (strict : Bool) (hlist : t.list dir = .ok names) :
    ∃ r es, Selected t dir strict names r es ∧ select t dir strict = ending r es := by
  by_cases h : ∀ n ∈ names, Followed t dir n
  · have hcandidates := candidates_eq_ok h
    cases hkeys : keys t dir names with
    | nil =>
      rw [hkeys] at hcandidates
      exact ⟨_, _, .chosen h (.none hkeys), select_of_error (choose_of_nil hlist hcandidates)⟩
    | cons n ns =>
      have hchosen := chosen_cons dir strict n ns
      rw [hkeys] at hcandidates
      rw [← hkeys] at hchosen
      exact ⟨_, _, .chosen h hchosen, select_of_cons hlist hcandidates⟩
  · obtain ⟨n, hn, c, hc, he⟩ := candidates_eq_error h
    exact ⟨_, _, .astray hn hc, select_of_error (choose_of_error hlist he)⟩

/-! ## Choices that are alike -/

/-- The choice fails at an entry that leads nowhere. -/
def Astray (t : FileTree) (dir : String) (strict : Bool) : Prop :=
  ∃ names n c, t.list dir = .ok names ∧ n ∈ names ∧ t.isFile (entryPath dir n) = .error c ∧
    select t dir strict = ending (.error (.io (entryPath dir n) c)) []

/-- **The choices are the same**, or both fail, each at an entry that leads nowhere. -/
def Alike (t t' : FileTree) (dir : String) (strict : Bool) : Prop :=
  select t dir strict = select t' dir strict ∨ Astray t dir strict ∧ Astray t' dir strict

theorem alike_of_perm (hlist : t.list dir = .ok names) (hlist' : t'.list dir = .ok names')
    (hfollowed : (∀ n ∈ names, Followed t dir n) ↔ ∀ n ∈ names', Followed t' dir n)
    (hkeys : (∀ n ∈ names, Followed t dir n) → (keys t dir names).Perm (keys t' dir names')) :
    Alike t t' dir strict := by
  obtain ⟨r, es, hr, hselect⟩ := select_selected strict hlist
  obtain ⟨r', es', hr', hselect'⟩ := select_selected strict hlist'
  -- one fails just where the other does, since each fails where some entry of its own leads nowhere
  cases hr with
  | astray hn hc =>
    cases hr' with
    | astray hn' hc' => exact .inr ⟨⟨_, _, _, hlist, hn, hc, hselect⟩, _, _, _, hlist', hn', hc', hselect'⟩
    | chosen hall' _ =>
      obtain ⟨b, hb⟩ := hfollowed.2 hall' _ hn
      cases hc.symm.trans hb
  | chosen hall h =>
    cases hr' with
    | astray hn' hc' =>
      obtain ⟨b, hb⟩ := hfollowed.1 hall _ hn'
      cases hc'.symm.trans hb
    | chosen hall' h' =>
      obtain ⟨rfl, rfl⟩ := (h.perm (hkeys hall)).unique h'
      exact .inl (hselect.trans hselect'.symm)

theorem alike_of_relists (hlist : t.list dir = .ok names) (h : t.Relists t') : Alike t t' dir strict := by
  obtain ⟨names', hlist', hperm⟩ := h.list hlist
  have hfollowed : ∀ n, Followed t dir n ↔ Followed t' dir n := fun n =>
    ⟨fun hn => hn.grown h.extends, fun hn => hn.grown h.symm.extends⟩
  refine alike_of_perm hlist hlist' ?_ fun hall => ?_
  · simp only [hfollowed, hperm.mem_iff]
  · rw [← keys_grown h.extends hall]
    exact (hperm.filter _).symm

/-- **The folder `dir` gains the entry `n`, which leads to a folder**; all that was there stays. -/
structure GainsFolder (t t' : FileTree) (dir n : String) : Prop where
  grown : t.Extends t'
  listed : ∃ names names', t.list dir = .ok names ∧ t'.list dir = .ok names' ∧ names'.Perm (n :: names)
  folder : t'.isFile (entryPath dir n) = .ok false

theorem alike_of_gainsFolder {n : String} (hlist : t.list dir = .ok names) (h : GainsFolder t t' dir n)
    (hback : ∀ m ∈ names, Followed t' dir m → Followed t dir m) : Alike t t' dir strict := by
  obtain ⟨names₀, names', hlist₀, hlist', hperm⟩ := h.listed
  cases hlist.symm.trans hlist₀
  have hfollowed : (∀ m ∈ names', Followed t' dir m) ↔ ∀ m ∈ names, Followed t' dir m := by
    simp only [hperm.mem_iff, List.forall_mem_cons]
    exact and_iff_right ⟨false, h.folder⟩
  refine alike_of_perm hlist hlist' ?_ fun hall => ?_
  · rw [hfollowed]
    exact forall₂_congr fun m hm => ⟨fun hm' => hm'.grown h.grown, hback m hm⟩
  · have hout : ¬ isKey t' dir n = true := by
      rw [isKey_eq h.folder]
      exact Bool.false_ne_true
    have hcons : keys t' dir (n :: names) = keys t' dir names := List.filter_cons_of_neg hout
    rw [← keys_grown h.grown hall, ← hcons]
    exact (hperm.filter _).symm

/-- **The choice in a folder that can be listed** is among the entries that lead to files, each counted once, unless one
leads nowhere.  It does not depend on the order of the entries, and a folder among them changes nothing as long as no
other entry needs it to lead anywhere. -/
theorem select_listed (strict : Bool) (hlist : t.list dir = .ok names) :
    (∃ r es, Selected t dir strict names r es ∧ select t dir strict = ending r es) ∧
      ((t.entries.map Prod.fst).Nodup → (keys t dir names).Nodup) ∧
      (∀ t', t.Relists t' → Alike t t' dir strict) ∧
      ∀ t' n, GainsFolder t t' dir n → (∀ m ∈ names, Followed t' dir m → Followed t dir m) →
        Alike t t' dir strict := by
  refine ⟨select_selected strict hlist, fun hes => ?_, fun t' h => alike_of_relists hlist h,
    fun t' n h hback => alike_of_gainsFolder hlist h hback⟩
  obtain ⟨p, -, rfl⟩ := FileTree.list_eq_ok_iff.1 hlist
  exact (FileTree.names_nodup hes p).filter _

/-- Two keys, listed the second one first. -/
def pair (es : List (List String × Storage.Node)) : FileTree where
  entries := [(["ks"], .folder), (["ks", "b"], .file []), (["ks", "a"], .file [])] ++ es

theorem select_listed_pair :
    (pair []).list "/ks" = .ok ["b", "a"] ∧
      select (pair []) "/ks" false = ending (.ok "/ks/a") [.manyKeys "/ks" 2 "/ks/a"] ∧
      (∃ r es, Selected (pair []) "/ks" false ["b", "a"] r es ∧ select (pair []) "/ks" false = ending r es) ∧
      (keys (pair []) "/ks" ["b", "a"]).Nodup ∧
      Alike (pair []) { pair [] with entries := (pair []).entries.reverse } "/ks" false ∧
      Alike (pair []) (pair [(["ks", "sub"], .folder)]) "/ks" false := by
  have hlist : (pair []).list "/ks" = .ok ["b", "a"] := rfl
  have hdistinct : ((pair []).entries.map Prod.fst).Nodup := by decide
  obtain ⟨hselected, hnodup, hrelists, hgains⟩ := select_listed false hlist
  refine ⟨hlist, rfl, hselected, hnodup hdistinct, hrelists _ (FileTree.relists_of_perm hdistinct (List.reverse_perm _)),
    hgains _ "sub" ⟨FileTree.extends_append (pair []) _, ⟨_, ["b", "a", "sub"], hlist, rfl, by decide⟩, rfl⟩ ?_⟩
  intro m hm _
  rcases List.mem_cons.1 hm with rfl | hm
  · exact ⟨true, rfl⟩
  · rw [List.mem_singleton.1 hm]
    exact ⟨true, rfl⟩

/-- A key beside a link to a folder that may be there. -/
def linked (es : List (List String × Storage.Node)) : FileTree where
  entries := [(["ks"], .folder), (["ks", "key"], .file []), (["ks", "l"], .link "sub")] ++ es

theorem ending_ok_ne_error (path : String) (e : CallError) (es es' : List Event) :
    ending (.ok path) es ≠ ending (.error e) es' := by
  intro h
  have hresult : (Run.after {} (ending (.ok path) es)).1 = (Run.after {} (ending (.error e) es')).1 := by rw [h]
  cases hresult

/-- **A folder counts** where a link leads to it. -/
theorem folder_counts : GainsFolder (linked []) (linked [(["ks", "sub"], .folder)]) "/ks" "sub" ∧
    select (linked []) "/ks" false = ending (.error (.io "/ks/l" FileTree.notFound)) [] ∧
    select (linked [(["ks", "sub"], .folder)]) "/ks" false = ending (.ok "/ks/key") [] ∧
    ¬ Alike (linked []) (linked [(["ks", "sub"], .folder)]) "/ks" false := by
  have hwithout : select (linked []) "/ks" false = ending (.error (.io "/ks/l" FileTree.notFound)) [] :=
    select_of_error rfl
  have hwith : select (linked [(["ks", "sub"], .folder)]) "/ks" false = ending (.ok "/ks/key") [] :=
    select_of_ok (c := ⟨"/ks/key", 1⟩) rfl
  refine ⟨⟨FileTree.extends_append (linked []) _, ⟨["key", "l"], ["key", "l", "sub"], rfl, rfl, by decide⟩, rfl⟩, hwithout,
    hwith, ?_⟩
  rintro (h | ⟨-, _, _, _, -, -, -, h⟩)
  · exact ending_ok_ne_error _ _ _ _ (hwith.symm.trans (h.symm.trans hwithout))
  · exact ending_ok_ne_error _ _ _ _ (hwith.symm.trans h)

end LedgerClient.KeyStore
