import Mathlib.Data.List.Forall2
import LedgerClient.Proofs.TwoRuns
/-!
# Up to the transaction

Two calls that are made apart have transactions of their own, whose identifiers may turn up in what is reported.  Texts,
errors and events are the same up to the transaction if they differ in nothing else (`SameText`, `CallError.UpTo`,
`Event.UpTo`), and runs if they are measured alike and their events and ends are so (`upTo`).
-/
namespace LedgerClient

/-- The results are both good and related, or both errors and related. -/
inductive SideBySide {ε ε' α α' : Type} (X : ε → ε' → Prop) (V : α → α' → Prop) : Except ε α → Except ε' α' → Prop where
  | ok {a : α} {a' : α'} (h : V a a') : SideBySide X V (.ok a) (.ok a')
  | error {e : ε} {e' : ε'} (h : X e e') : SideBySide X V (.error e) (.error e')

/-- **The texts differ in the name of a transaction**, `tx` in one and `tx'` in the other. -/
inductive SameText (tx tx' : String) : String → String → Prop where
  | same (s : String) : SameText tx tx' s s
  | name : SameText tx tx' tx tx'
  | append {a a' b b' : String} (h : SameText tx tx' a a') (h' : SameText tx tx' b b') :
      SameText tx tx' (a ++ b) (a' ++ b')

section

variable (tx tx' : String)

/-- **The errors differ in the name of a transaction.** -/
inductive CallError.UpTo : CallError → CallError → Prop where
  | same (e : CallError) : UpTo e e
  | lost {p : Phase} {a a' : String} (h : SameText tx tx' a a') :
      UpTo (.connection (.failed p a)) (.connection (.failed p a'))
  | rpc {p : Phase} {c : RpcCode} {a a' : String} (h : SameText tx tx' a a') :
      UpTo (.remote p (.rpc c a)) (.remote p (.rpc c a'))
  | refused {p : Phase} {n : Int} {a a' : String} (h : SameText tx tx' a a') :
      UpTo (.remote p (.peerStatus n a)) (.remote p (.peerStatus n a'))
  | invalidated {p : Phase} {n : Int} : UpTo (.remote p (.invalidated tx n)) (.remote p (.invalidated tx' n))

inductive Stop.UpTo : Stop → Stop → Prop where
  | failed {e e' : CallError} (h : CallError.UpTo tx tx' e e') : UpTo (.failed e) (.failed e')
  | panicked : UpTo .panicked .panicked

inductive FieldValue.UpTo : FieldValue → FieldValue → Prop where
  | text {a a' : String} (h : SameText tx tx' a a') : UpTo (.text a) (.text a')
  | number (n : Nat) : UpTo (.number n) (.number n)

/-- **The events are written alike** but for the name of a transaction, whatever words other libraries have. -/
structure Event.UpTo (e e' : Event) : Prop where
  level : e'.level = e.level
  message : e'.message = e.message
  fields : ∀ words : Wording,
    List.Forall₂ (fun f f' => f'.1 = f.1 ∧ FieldValue.UpTo tx tx' f.2 f'.2) (e.fields words) (e'.fields words)

end

variable {tx tx' : String}

/-! ## Errors and events -/

namespace CallError.UpTo

variable {e e' : CallError}

theorem kind (h : CallError.UpTo tx tx' e e') : e'.kind = e.kind := by
  cases h <;> rfl

/-- **Errors that are the same up to the transaction have messages that are.** -/
theorem message (h : CallError.UpTo tx tx' e e') (words : Wording) :
    SameText tx tx' (e.message words) (e'.message words) := by
  cases h with
  | same e => exact .same _
  | lost h => exact .append (.same _) (.append (.same _) h)
  | rpc h => exact .append (.same _) (.append (.same _) h)
  | refused h => exact .append (.same _) (.append (.same _) h)
  | invalidated => exact .append (.same _) (.append (.append (.append (.same _) .name) (.same _)) (.same _))

end CallError.UpTo

namespace Event.UpTo

theorem refl (e : Event) : Event.UpTo tx tx' e e := by
  refine ⟨rfl, rfl, fun words => List.forall₂_same.2 fun f _ => ⟨rfl, ?_⟩⟩
  cases f.2 with
  | text s => exact .text (.same s)
  | number n => exact .number n

theorem commitUnknown : Event.UpTo tx tx' (.commitUnknown tx) (.commitUnknown tx') :=
  ⟨rfl, rfl, fun _ => .cons ⟨rfl, .text .name⟩ .nil⟩

theorem callFailed {e e' : CallError} (h : CallError.UpTo tx tx' e e') (op : Operation)
    (function channel contract : String) :
    Event.UpTo tx tx' (.callFailed op function channel contract e) (.callFailed op function channel contract e') := by
  refine ⟨rfl, rfl, fun words => ?_⟩
  have hkind := h.kind
  simp only [Event.fields, hkind]
  have hsame : ∀ s, FieldValue.UpTo tx tx' (.text s) (.text s) := fun s => .text (.same s)
  exact .cons ⟨rfl, hsame _⟩ (.cons ⟨rfl, hsame _⟩ (.cons ⟨rfl, hsame _⟩ (.cons ⟨rfl, hsame _⟩
    (.cons ⟨rfl, hsame _⟩ (.cons ⟨rfl, .text (h.message words)⟩ .nil)))))

end Event.UpTo

/-! ## Runs -/

/-- Runs are measured alike, and their events and how they stop differ in the name of the transaction; nothing is said
of a run whose signer fails. -/
def upTo (tx tx' : String) : Comparison where
  traces t t' := t'.metrics = t.metrics ∧ List.Forall₂ (Event.UpTo tx tx') t.events t'.events
  stops := Stop.UpTo tx tx'
  excuse x := x = .failed (.identity .signing)

theorem upTo_traces_refl (t : Trace) : (upTo tx tx').traces t t :=
  ⟨rfl, List.forall₂_same.2 fun e _ => .refl e⟩

theorem upTo_stops_refl (x : Stop) : (upTo tx tx').stops x x := by
  cases x with
  | failed e => exact .failed (.same e)
  | panicked => exact .panicked

end LedgerClient
