import LedgerClient.Proofs.Client.Accounting
import LedgerClient.Proofs.Gateway.Evaluation
/-!
# The outline of a call

Both operations have one outline: a session is made ready, the contract is used, and the end is accounted for
(`BridgeCall.after_eq`).  What is done with some settings comes to at most one such call, and ends as it does unless
the answer cannot be read (`Errand.after_of_reaches`).
-/
namespace LedgerClient

open Accounting (EntryPoint Use)
open Config (Settings)
open Gateway (Fresh Session Write)
open Invocation (account)
open KeyValue (ByteMap Bytes)
open LocalCheck (ready)

variable {α β : Type}

namespace BridgeCall

/-- What the contract is asked for. -/
def asked (b : BridgeCall) : Write :=
  ⟨b.fresh, b.invocation.network, b.invocation.contract, b.invocation.function, b.invocation.payload⟩

theorem account_map (op : Operation) (i : Invocation) (x : Except Stop α) (f : α → β) :
    account op i (x.map f) = account op i x := by
  rcases x with (e | _) | a <;> rfl

theorem endAfter_observe {r : Run Session} {k : Session → Run α} {op : Operation} {i : Invocation} (t : Trace) :
    endAfter t (Run.observe (r >>= k) (account op i)) =
      Run.after t (Run.observe (r >>= fun s => k s >>= fun _ => pure ()) (account op i)) := by
  rw [← bind_assoc, endAfter, Run.after_observe, Run.after_observe, Run.after_discard]
  dsimp only
  rw [account_map]

/-- **The outline of a call**: a session is made ready, the contract is used, and the end is accounted for. -/
theorem after_eq (b : BridgeCall) (t : Trace) :
    b.after t = Run.after t (Run.observe
      (ready b.surroundings b.policy b.invocation >>= fun s => s.carryOut b.asked b.op)
      (account b.op b.invocation)) := by
  obtain ⟨w, p, fresh, op, i⟩ := b
  cases op with
  | write => rw [after, Invocation.write_eq, endAfter_observe]; rfl
  | read => rw [after, Invocation.read_eq, endAfter_observe]; rfl

end BridgeCall

/-! ## Settings put to use -/

/-- How calls are made with these settings. -/
def Config.Settings.policy (s : Settings) : Policy := ⟨s.timeouts, s.keys.strict⟩

/-- What can be done with some settings: a call, or an operation on byte keys and values. -/
inductive Errand where
  | write (function : String) (payload : List UInt8)
  | read (function : String) (payload : List UInt8)
  | put (batch : ByteMap)
  | get (key : Bytes)
  | getAll
  | remove (key : Bytes)

namespace Errand

variable (s : Settings)

/-- Where the errand enters. -/
def point : Errand → EntryPoint
  | write f p => .write s.policy (.ofProfile s.connection f p)
  | read f p => .read s.policy (.ofProfile s.connection f p)
  | put batch => .put (.ofSettings s) batch
  | get key => .get (.ofSettings s) key
  | getAll => .getAll (.ofSettings s)
  | remove key => .remove (.ofSettings s) key

variable (w : Surroundings) (fresh : Fresh) (t : Trace)

/-- How the errand ends, without what it brings, and what it leaves behind. -/
def after : Errand → Except Stop Unit × Trace
  | write f p => endAfter t ((Invocation.ofProfile s.connection f p).write w s.policy fresh)
  | read f p => endAfter t ((Invocation.ofProfile s.connection f p).read w s.policy fresh)
  | put batch => endAfter t ((KeyValue.Client.ofSettings s).put w fresh batch)
  | get key => endAfter t ((KeyValue.Client.ofSettings s).get w fresh key)
  | getAll => endAfter t ((KeyValue.Client.ofSettings s).getAll w fresh)
  | remove key => endAfter t ((KeyValue.Client.ofSettings s).remove w fresh key)

variable {s w fresh t}

/-- The call of an errand is made where the errand is done, as the settings say, and by no host. -/
theorem call_of_reaches {e : Errand} {byHost : Bool} {b : BridgeCall}
    (h : Use.Reaches w fresh (e.point s) byHost b) :
    byHost = false ∧ b.surroundings = w ∧ b.policy = s.policy := by
  cases e <;> cases h <;> exact ⟨rfl, rfl, rfl⟩

/-- The errand ends as the call does, unless its answer cannot be read. -/
def FollowsUp (ran called : Except Stop Unit × Trace) : Prop :=
  ran.2 = called.2 ∧ (ran.1 = called.1 ∨ ∃ c, ran.1 = .error (.failed c) ∧ called.1 = .ok ())

theorem FollowsUp.refl (ran : Except Stop Unit × Trace) : FollowsUp ran ran := ⟨rfl, .inl rfl⟩

theorem followsUp_ofExcept (r : Run α) (f : α → Except CallError β) :
    FollowsUp (endAfter t (r >>= fun a => Run.ofExcept (f a))) (endAfter t r) := by
  unfold FollowsUp endAfter
  rw [Run.after_bind]
  rcases Run.after t r with ⟨x | a, u⟩
  · exact ⟨rfl, .inl rfl⟩
  · dsimp only
    rw [Run.after_ofExcept]
    cases f a with
    | error c => exact ⟨rfl, .inr ⟨c, rfl, rfl⟩⟩
    | ok b => exact ⟨rfl, .inl rfl⟩

theorem endAfter_discard (r : Run α) : endAfter t (r >>= fun _ => pure ()) = endAfter t r := by
  rw [endAfter, endAfter, Run.after_discard]
  rcases Run.after t r with ⟨x | a, u⟩ <;> rfl

/-- **An errand ends as the call that comes of it**, unless its answer cannot be read. -/
theorem after_of_reaches {e : Errand} {byHost : Bool} {b : BridgeCall}
    (h : Use.Reaches w fresh (e.point s) byHost b) : FollowsUp (e.after s w fresh t) (b.after t) := by
  cases e with
  | write | read =>
    cases h
    exact .refl _
  | put batch =>
    cases h with
    | put hne =>
      simp only [after, KeyValue.Client.put, KeyValue.Client.submit]
      rw [if_neg (by simpa using hne), endAfter_discard]
      exact .refl _
  | remove key =>
    cases h
    simp only [after, KeyValue.Client.remove, KeyValue.Client.submit, endAfter_discard]
    exact .refl _
  | get key =>
    cases h
    exact followsUp_ofExcept _ _
  | getAll =>
    cases h
    exact followsUp_ofExcept _ _

theorem after_of_not_reaches {e : Errand} (h : ∀ byHost b, ¬ Use.Reaches w fresh (e.point s) byHost b) :
    e.after s w fresh t = (.ok (), t) := by
  cases e with
  | put batch =>
    rcases batch with _ | ⟨p, batch⟩
    · rfl
    · exact absurd (.put (List.cons_ne_nil _ _)) (h false _)
  | write => exact absurd .write (h false _)
  | read => exact absurd .read (h false _)
  | get => exact absurd .get (h false _)
  | getAll => exact absurd .getAll (h false _)
  | remove => exact absurd .remove (h false _)

end Errand
end LedgerClient
