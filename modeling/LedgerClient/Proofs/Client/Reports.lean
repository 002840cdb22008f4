import LedgerClient.Proofs.Client.KeyWarning
import LedgerClient.Proofs.Client.Steady
import LedgerClient.Proofs.Gateway.Reports
/-!
# What one call reports

A call counts once, gives one sample of its duration and, if it failed, counts once more under the kind of its error.
It warns of a choice among many keys and of a transaction whose end is unknown, and reports the error it ends with
(`BridgeCall.reports`).
-/
namespace LedgerClient

variable {α : Type}

/-! ## Errors that are found before anything is sent -/

theorem refusal_eq_some_iff {r : Except CallError α} {e : CallError} : refusal r = some e ↔ r = .error e := by
  cases r <;> simp [refusal]

/-- Errors about what is, or is not, in a file or a folder. -/
inductive CallError.OfFiles : CallError → Prop
  | io (path : String) (c : IoCause) : OfFiles (.io path c)
  | parse (c : ParseCause) : OfFiles (.parse c)
  | noKeyFound (dir : String) : OfFiles (.noKeyFound dir)
  | ambiguousKey (dir : String) (count : Nat) : OfFiles (.ambiguousKey dir count)

theorem CallError.OfFiles.phase? {e : CallError} (h : e.OfFiles) : e.phase? = none := by
  cases h <;> rfl

theorem Certificate.ofFiles_of_load {files : Storage.FileTree} {home path : String} {e : CallError}
    (h : Certificate.load files home path = .error e) : e.OfFiles := by
  unfold Certificate.load at h
  dsimp only at h
  split at h
  · cases h
    exact .io _ _
  · split at h <;> cases h
    exact .parse _

theorem Network.phase?_of_endpointUri {endpoint : String} {c : ConnectionCause}
    (h : endpointUri endpoint = .error c) : (CallError.connection c).phase? = none := by
  unfold endpointUri at h
  dsimp only at h
  split at h
  · cases h
    rfl
  · split at h
    · cases h
    · split at h <;> cases h
      rfl

namespace KeyStore

variable {files : Storage.FileTree} {dir path : String} {strict : Bool}

theorem ofFiles_of_candidates {names : List String} {e : CallError} (h : candidates files dir names = .error e) :
    e.OfFiles := by
  induction names with
  | nil => cases h
  | cons n ns ih =>
    unfold candidates at h
    split at h
    · cases h
      exact .io _ _
    · cases hc : candidates files dir ns with
      | error e' =>
        rw [hc] at h
        cases h
        exact ih hc
      | ok r =>
        rw [hc] at h
        cases h

theorem ofFiles_of_choose {e : CallError} (h : choose files dir strict = .error e) : e.OfFiles := by
  unfold choose at h
  split at h
  · cases h
    exact .io _ _
  · unfold chooseAmong at h
    split at h
    · rename_i hc
      cases h
      exact ofFiles_of_candidates hc
    · cases h
      exact .noKeyFound _
    · split at h <;> cases h
      exact .ambiguousKey _ _

theorem ofFiles_of_readKey {e : CallError} (h : readKey files path = .error e) : e.OfFiles := by
  unfold readKey at h
  split at h
  · cases h
    exact .io _ _
  · split at h <;> cases h
    exact .parse _

end KeyStore

namespace LocalCheck

variable {w : Surroundings} {p : Policy} {i : Invocation} {e : CallError}

/-- What is wrong with the files of a call is an error about files. -/
theorem ofFiles_of_error? {c : LocalCheck} (hc : c ∈ [anchor, certificate, key]) (h : error? w p i c = some e) :
    e.OfFiles := by
  simp only [List.mem_cons, List.not_mem_nil, or_false] at hc
  rcases hc with rfl | rfl | rfl
  · exact Certificate.ofFiles_of_load (refusal_eq_some_iff.1 h)
  · exact Certificate.ofFiles_of_load (refusal_eq_some_iff.1 h)
  · simp only [error?] at h
    split at h
    · rename_i hc
      cases h
      exact KeyStore.ofFiles_of_choose hc
    · exact KeyStore.ofFiles_of_readKey (refusal_eq_some_iff.1 h)

/-- **What is wrong with a call before it is sent** is not put down to a phase. -/
theorem phase?_of_error? {c : LocalCheck} (h : error? w p i c = some e) : e.phase? = none := by
  cases c with
  | anchor | certificate | key => exact (ofFiles_of_error? (by simp) h).phase?
  | endpoint =>
    simp only [error?] at h
    cases hu : Network.endpointUri i.endpoint with
    | ok uri => rw [hu] at h; cases h
    | error c =>
      rw [hu] at h
      cases h
      exact Network.phase?_of_endpointUri hu
  | peerName | mspId =>
    simp only [error?] at h
    split at h <;> cases h
    rfl
  | target =>
    simp only [error?] at h
    split at h
    · cases h
    · split at h
      · cases h
        rfl
      · split at h <;> cases h
        rfl
  | network | contract =>
    simp only [error?, Gateway.Session.checkNetwork, Gateway.Session.checkContract] at h
    split at h <;> cases h
    rfl

theorem phase?_of_firstError? (h : firstError? w p i = some e) : e.phase? = none := by
  obtain ⟨c, _, hc⟩ := List.exists_of_findSome?_eq_some h
  exact phase?_of_error? hc

end LocalCheck

/-! ## Accounts -/

namespace Invocation

open Gateway (Session)
open LocalCheck (ready)

variable {w : Surroundings} {p : Policy} {i : Invocation}

/-- What is measured of a call: that it was made, its duration, and the kind of its error. -/
def counted (op : Operation) (e? : Option CallError) : List Metric :=
  [.call op e?.isNone, .duration op] ++ (e?.map fun e => .failure e.kind).toList

/-- The report of the error that a call ended with. -/
def failureReport (op : Operation) (i : Invocation) (e? : Option CallError) : List Event :=
  (e?.map (.callFailed op i.function i.network i.contract)).toList

theorem after_account (op : Operation) {x : Except Stop α} (hx : x ≠ .error .panicked) (t : Trace) :
    (Run.after t (account op i x)).2 = { t with
      metrics := t.metrics ++ counted op (errorOf x)
      events := t.events ++ failureReport op i (errorOf x) } := by
  rcases x with (e | _) | a
  · simp [account, counted, failureReport, errorOf, Run.after_bind]
  · exact absurd rfl hx
  · simp [account, counted, failureReport, errorOf, Run.after_bind]

/-- The run was accounted for as the call `i`, with warnings about its keys and of a doubt about `tx`. -/
def Accounted (op : Operation) (i : Invocation) (keys : List Event) (tx : String) (t : Trace) (x : Except Stop α)
    (u : Trace) : Prop :=
  Adds (counted op (errorOf x)) (keys ++ doubt tx (errorOf x) ++ failureReport op i (errorOf x)) t x u

/-- An account adds the metrics of the call and the report of its error. -/
theorem accounted_of_adds {keys : List Event} {tx : String} {t u : Trace} {x : Except Stop α}
    (h : Adds [] (keys ++ doubt tx (errorOf x)) t x u) (op : Operation) :
    Accounted op i keys tx t x (Run.after u (account op i x)).2 := by
  rw [after_account op h.finished]
  exact ⟨h.finished, by rw [h.metrics, List.append_nil], by rw [h.events, List.append_assoc]⟩

/-- What is accounted for does not depend on what the run brings. -/
theorem Accounted.map {β : Type} {op : Operation} {keys : List Event} {tx : String} {t u : Trace} {x : Except Stop α}
    (h : Accounted op i keys tx t x u) (f : α → β) : Accounted op i keys tx t (x.map f) u := by
  have he : errorOf (x.map f) = errorOf x := by rcases x with (e | _) | a <;> rfl
  have hf : x.map f ≠ .error .panicked := fun hx => h.finished (by rcases x with (e | _) | a <;> cases hx; rfl)
  unfold Accounted
  rw [he]
  exact ⟨hf, h.metrics, h.events⟩

section Operations

variable {r : Run α} {op : Operation} {k : Session → Run α} {tx : String}

/-- What an operation does before its account: it is not measured, and warns about its keys and of a doubt. -/
theorem ready_bind_adds
    (hk : ∀ s, Opened w p i s → ∀ t,
      Adds [] (doubt tx (errorOf (Run.after t (k s)).1)) t (Run.after t (k s)).1 (Run.after t (k s)).2)
    {keys : List Event} (hready : ∀ t, (Run.after t (ready w p i)).2 = { t with events := t.events ++ keys })
    (t : Trace) :
    let ran := Run.after t (ready w p i >>= k)
    Adds [] (keys ++ doubt tx (errorOf ran.1)) t ran.1 ran.2 := by
  intro ran
  have ht := hready t
  obtain ⟨u, -, ⟨e, he, hr⟩ | ⟨-, s, -, hr⟩⟩ := LocalCheck.ready_checks w p i t
  · obtain rfl : u = { t with events := t.events ++ keys } := by rw [← ht, hr]
    have hran : ran = (.error (.failed e), _) := Run.after_bind_error hr k
    have hnone : doubt tx (some e) = [] :=
      doubt_eq_nil (by rw [LocalCheck.phase?_of_firstError? he]; exact nofun)
    rw [hran, errorOf, hnone, List.append_nil]
    exact ⟨nofun, (List.append_nil _).symm, rfl⟩
  · obtain rfl : u = { t with events := t.events ++ keys } := by rw [← ht, hr]
    have hran : ran = _ := Run.after_bind_ok hr k
    have hu := hk s (ready_ok hr) { t with events := t.events ++ keys }
    rw [← hran] at hu
    exact ⟨hu.finished, hu.metrics, by rw [hu.events, List.append_assoc]⟩

/-- **An operation is accounted for once**, after all that it warns of. -/
theorem operation_accounted (hr : r = Run.observe (ready w p i >>= k) (account op i))
    (hk : ∀ s, Opened w p i s → ∀ t,
      Adds [] (doubt tx (errorOf (Run.after t (k s)).1)) t (Run.after t (k s)).1 (Run.after t (k s)).2)
    {keys : List Event} (hready : ∀ t, (Run.after t (ready w p i)).2 = { t with events := t.events ++ keys })
    (t : Trace) : Accounted op i keys tx t (Run.after t r).1 (Run.after t r).2 := by
  rw [hr, Run.after_observe]
  dsimp only
  exact accounted_of_adds (ready_bind_adds hk hready t) op

end Operations

/-! A session of a call has its identity, and a signer that fails without a phase. -/

theorem Opened.isOpen {s : Session} (h : Opened w p i s) : s.isOpen = true := by
  obtain ⟨_, _, _, _, _, _, _, _, rfl⟩ := h
  rfl

theorem Opened.creator {s : Session} (h : Opened w p i s) : ∃ d, i.identity w = .ok d ∧ s.creator = d.serialize := by
  obtain ⟨_, d, _, _, _, _, hd, _, rfl⟩ := h
  exact ⟨d, hd, rfl⟩

theorem Opened.timely {s : Session} (ht : ∀ q, p.timeouts.phase q < Gateway.networkLimit) (h : Opened w p i s) :
    s.Timely := by
  obtain ⟨_, _, _, _, _, _, _, _, rfl⟩ := h
  exact fun q => ht q.phase

theorem Opened.signsPhaseless {s : Session} (h : Opened w p i s) : s.SignsPhaseless := by
  obtain ⟨_, _, k, _, _, _, _, _, rfl⟩ := h
  intro n d e he
  change SigningKey.sign k d = .error e at he
  unfold SigningKey.sign at he
  split at he <;> cases he
  rfl

end Invocation

/-! ## Calls -/

/-- A call that is made, and what it is made with. -/
structure BridgeCall where
  surroundings : Surroundings
  policy : Policy
  fresh : Gateway.Fresh
  op : Operation
  invocation : Invocation

/-- How a run ends, without what it brings, and what it leaves behind. -/
def endAfter (t : Trace) (r : Run α) : Except Stop Unit × Trace :=
  ((Run.after t r).1.map fun _ => (), (Run.after t r).2)

@[simp] theorem endAfter_fst (t : Trace) (r : Run α) : (endAfter t r).1 = (Run.after t r).1.map fun _ => () := rfl

@[simp] theorem endAfter_snd (t : Trace) (r : Run α) : (endAfter t r).2 = (Run.after t r).2 := rfl

theorem accounted_endAfter {r : Run α} {op : Operation} {i : Invocation} {keys : List Event} {tx : String}
    {t : Trace}
    (h : Invocation.Accounted op i keys tx t (Run.after t r).1 (Run.after t r).2) :
    Invocation.Accounted op i keys tx t (endAfter t r).1 (endAfter t r).2 :=
  h.map _

theorem endAfter_fst_of_steady {r : Run α} (h : r.Steady) (t u : Trace) : (endAfter t r).1 = (endAfter u r).1 := by
  rw [endAfter, endAfter, h t u]

namespace BridgeCall

open Invocation (KeyWarning Accounted counted failureReport operation_accounted)

variable (b : BridgeCall)

/-- How the call ends, without what it brings, and what it leaves behind. -/
def after (t : Trace) : Except Stop Unit × Trace :=
  match b.op with
  | .write => endAfter t (b.invocation.write b.surroundings b.policy b.fresh)
  | .read => endAfter t (b.invocation.read b.surroundings b.policy b.fresh)

/-- The end with an error, or without one. -/
def endOf : Option CallError → Except Stop Unit
  | some e => .error (.failed e)
  | none => .ok ()

/-- **The call ends with the error**, or without one, whatever was done before it. -/
def EndsWith (e? : Option CallError) : Prop := ∀ t, (b.after t).1 = endOf e?

/-- No deadline is too long to be written down. -/
def Timely : Prop := ∀ p, b.policy.timeouts.phase p < Gateway.networkLimit

/-- The identifier of its transaction, which it has if it gets so far. -/
def transaction : String :=
  match b.invocation.identity b.surroundings with
  | .ok d => Gateway.transactionId b.fresh.nonce d.serialize
  | .error _ => ""

variable {b}

/-- A call ends in one way. -/
theorem EndsWith.unique {e? e?' : Option CallError} (h : b.EndsWith e?) (h' : b.EndsWith e?') : e? = e?' := by
  have he : endOf e? = endOf e?' := (h {}).symm.trans (h' {})
  cases e? <;> cases e?' <;> cases he <;> rfl

theorem transaction_of_opened {s : Gateway.Session}
    (h : Invocation.Opened b.surroundings b.policy b.invocation s) :
    Gateway.transactionId b.fresh.nonce s.creator = b.transaction := by
  obtain ⟨d, hd, hc⟩ := h.creator
  have ht : b.transaction = Gateway.transactionId b.fresh.nonce d.serialize := by
    unfold transaction
    rw [hd]
  rw [ht, hc]

theorem after_steady (t u : Trace) : (b.after t).1 = (b.after u).1 := by
  unfold after
  split
  · exact endAfter_fst_of_steady (Invocation.write_steady _ _ _ _) t u
  · exact endAfter_fst_of_steady (Invocation.read_steady _ _ _ _) t u

/-- A call that is not cut off ends with an error or without one. -/
theorem eq_endOf {x : Except Stop Unit} (h : x ≠ .error .panicked) : x = endOf (errorOf x) := by
  rcases x with (e | _) | _
  · rfl
  · exact absurd rfl h
  · rfl

theorem after_accounted (ht : b.Timely) {keys : List Event}
    (hready : ∀ t, (Run.after t (LocalCheck.ready b.surroundings b.policy b.invocation)).2 =
      { t with events := t.events ++ keys }) (t : Trace) :
    Accounted b.op b.invocation keys b.transaction t (b.after t).1 (b.after t).2 := by
  unfold after
  split <;> rename_i hop
  · rw [hop]
    refine accounted_endAfter (operation_accounted (Invocation.write_eq b.fresh) (fun s hs t => ?_) hready t)
    rw [← transaction_of_opened hs]
    exact s.submit_adds (hs.timely ht) hs.signsPhaseless ⟨_, _, _, _, _⟩ t
  · rw [hop]
    refine accounted_endAfter (operation_accounted (Invocation.read_eq b.fresh) (fun s hs t => ?_) hready t)
    exact s.evaluate_adds hs.isOpen (hs.timely ht) hs.signsPhaseless ⟨_, _, _, _, _⟩ t _

/-- **What one call reports**: how it ended is measured once; it warns about its keys if there were many, and of a
doubt if its status did not come in time, and reports its error last. -/
theorem reports (ht : b.Timely) : ∃ keys e?, KeyWarning b.surroundings b.policy b.invocation keys ∧ b.EndsWith e? ∧
    ∀ t, (b.after t).2.metrics = t.metrics ++ counted b.op e? ∧
      (b.after t).2.events =
        t.events ++ (keys ++ doubt b.transaction e? ++ failureReport b.op b.invocation e?) := by
  obtain ⟨keys, hkeys, hready⟩ := Invocation.ready_reports b.surroundings b.policy b.invocation
  have h := after_accounted ht hready
  refine ⟨keys, errorOf (b.after {}).1, hkeys, fun t => ?_, fun t => ?_⟩
  · rw [after_steady t {}]
    exact eq_endOf (h {}).finished
  · rw [after_steady {} t]
    exact ⟨(h t).metrics, (h t).events⟩

end BridgeCall
end LedgerClient
