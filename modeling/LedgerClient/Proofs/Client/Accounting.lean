import Mathlib.Data.List.Forall2
import LedgerClient.Client.KeyValue
import LedgerClient.Proofs.Client.Boundary
import LedgerClient.Proofs.Client.Reports
/-!
# Accounting

A call is made at the bridge, by a host, or for a client of keys and values.  However it is made, it leaves one entry
(`Use.Leaves`): what was measured of it and what was reported.  Uses one after the other leave their entries in order
and nothing else, so the totals are those of the calls (`exactly_once`).
-/
namespace LedgerClient.Accounting

open Boundary (Arguments)
open Gateway (Fresh)
open Invocation (KeyWarning counted failureReport)
open KeyValue (ByteMap Bytes)

variable {α β : Type}

/-! ## Uses -/

/-- The ways to make a call. -/
inductive EntryPoint where
  | write (p : Policy) (i : Invocation)
  | read (p : Policy) (i : Invocation)
  | hostWrite (a : Arguments)
  | hostRead (a : Arguments)
  | put (c : KeyValue.Client) (batch : ByteMap)
  | get (c : KeyValue.Client) (key : Bytes)
  | getAll (c : KeyValue.Client)
  | remove (c : KeyValue.Client) (key : Bytes)

/-- How the call is made; a host has no choice. -/
def EntryPoint.policy : EntryPoint → Policy
  | .write p _ | .read p _ => p
  | .hostWrite _ | .hostRead _ => {}
  | .put c _ | .get c _ | .getAll c | .remove c _ => c.policy

/-- One use of an entry point, with all around it. -/
structure Use where
  surroundings : Surroundings
  fresh : Fresh
  point : EntryPoint

namespace Use

/-- No deadline is too long to be written down. -/
def Timely (u : Use) : Prop := ∀ p, u.point.policy.timeouts.phase p < Gateway.networkLimit

/-- What is left behind after a use. -/
def after (u : Use) (t : Trace) : Trace :=
  match u.point with
  | .write p i => (Run.after t (i.write u.surroundings p u.fresh)).2
  | .read p i => (Run.after t (i.read u.surroundings p u.fresh)).2
  | .hostWrite a => (Boundary.write u.surroundings u.fresh a t).2
  | .hostRead a => (Boundary.read u.surroundings u.fresh a t).2
  | .put c batch => (Run.after t (c.put u.surroundings u.fresh batch)).2
  | .get c key => (Run.after t (c.get u.surroundings u.fresh key)).2
  | .getAll c => (Run.after t (c.getAll u.surroundings u.fresh)).2
  | .remove c key => (Run.after t (c.remove u.surroundings u.fresh key)).2

/-- What is left behind after uses, one after the other. -/
def afterAll (us : List Use) (t : Trace) : Trace := us.foldl (fun t u => u.after t) t

/-- **The call that comes of a use**, made by a host or not. -/
inductive Reaches (w : Surroundings) (fresh : Fresh) : EntryPoint → Bool → BridgeCall → Prop
  | write {p : Policy} {i : Invocation} : Reaches w fresh (.write p i) false ⟨w, p, fresh, .write, i⟩
  | read {p : Policy} {i : Invocation} : Reaches w fresh (.read p i) false ⟨w, p, fresh, .read, i⟩
  | hostWrite {a : Arguments} {i : Invocation} (h : a.Spells i) :
      Reaches w fresh (.hostWrite a) true ⟨w, {}, fresh, .write, i⟩
  | hostRead {a : Arguments} {i : Invocation} (h : a.Spells i) :
      Reaches w fresh (.hostRead a) true ⟨w, {}, fresh, .read, i⟩
  | put {c : KeyValue.Client} {batch : ByteMap} (h : batch ≠ []) : Reaches w fresh (.put c batch) false
      ⟨w, c.policy, fresh, .write, .ofProfile c.profile "put" (KeyValue.encodeBatch batch)⟩
  | get {c : KeyValue.Client} {key : Bytes} : Reaches w fresh (.get c key) false
      ⟨w, c.policy, fresh, .read, .ofProfile c.profile "get" (Utf8.encode (Hex.encode key))⟩
  | getAll {c : KeyValue.Client} : Reaches w fresh (.getAll c) false
      ⟨w, c.policy, fresh, .read, .ofProfile c.profile "getAll" (KeyValue.encodeBatch [])⟩
  | remove {c : KeyValue.Client} {key : Bytes} : Reaches w fresh (.remove c key) false
      ⟨w, c.policy, fresh, .write, .ofProfile c.profile "delete" (Utf8.encode (Hex.encode key))⟩

end Use

/-! ## Entries -/

/-- The report of input that was refused. -/
def rejection : Option CallError → List Event
  | some (.invalidInput c) => [.argumentsRejected c]
  | _ => []

/-- What is known of a use: nothing happened, its arguments were refused, or a call was made, with some warning about
its keys, and ended with an error or without one. -/
inductive Entry where
  | nothing
  | refused (c : InputCause)
  | made (b : BridgeCall) (byHost : Bool) (keys : List Event) (e? : Option CallError)

namespace Entry

/-- **What is measured**: each call once, its duration once, and its error, if it has one, once. -/
def metrics : Entry → List Metric
  | .nothing | .refused _ => []
  | .made b _ _ e? => counted b.op e?

/-- **What is reported**: many keys, a doubt, the error, and to a host that its input was refused. -/
def events : Entry → List Event
  | .nothing => []
  | .refused c => [.argumentsRejected c]
  | .made b byHost keys e? =>
    keys ++ doubt b.transaction e? ++ failureReport b.op b.invocation e? ++ if byHost then rejection e? else []

/-- A call of the operation that ended with success or not. -/
def isCall (op : Operation) (ok : Bool) : Entry → Bool
  | .made b _ _ e? => b.op = op && e?.isNone = ok
  | _ => false

/-- A call of the operation, however it ended. -/
def isOf (op : Operation) : Entry → Bool
  | .made b _ _ _ => b.op = op
  | _ => false

/-- A call that ended with an error of the kind. -/
def isFailure (kind : String) : Entry → Bool
  | .made _ _ _ (some e) => e.kind = kind
  | _ => false

end Entry

/-- **The entry of a use.** -/
inductive Use.Leaves (u : Use) : Entry → Prop
  | nothing {c : KeyValue.Client} (h : u.point = .put c []) : Leaves u .nothing
  | refused {a : Arguments} {c : InputCause} (h : u.point = .hostWrite a ∨ u.point = .hostRead a) (hr : a.Refused c) :
      Leaves u (.refused c)
  | made {b : BridgeCall} {byHost : Bool} {keys : List Event} {e? : Option CallError}
      (hb : Use.Reaches u.surroundings u.fresh u.point byHost b)
      (hk : KeyWarning b.surroundings b.policy b.invocation keys) (he : b.EndsWith e?) :
      Leaves u (.made b byHost keys e?)

/-! ## One use -/

theorem after_bind_silent {r : Run α} {k : α → Run β} (hk : ∀ a u, (Run.after u (k a)).2 = u) (t : Trace) :
    (Run.after t (r >>= k)).2 = (Run.after t r).2 := by
  rw [Run.after_bind]
  rcases Run.after t r with ⟨x | a, u⟩
  · rfl
  · exact hk a u

theorem explanation_map (op : Operation) (x : Except Stop α) (f : α → β) :
    Boundary.explanation op (x.map f) = Boundary.explanation op x := by
  rcases x with (e | _) | a
  · cases e <;> rfl
  · rfl
  · rfl

theorem explanation_endOf (op : Operation) (e? : Option CallError) :
    Boundary.explanation op (BridgeCall.endOf e?) = rejection e? := by
  rcases e? with _ | e
  · rfl
  · cases e <;> rfl

/-- What a host adds to the call that comes of its arguments. -/
def noted (byHost : Bool) (op : Operation) (ran : Except Stop Unit × Trace) : Trace :=
  { ran.2 with events := ran.2.events ++ if byHost then Boundary.explanation op ran.1 else [] }

theorem noted_false (op : Operation) (ran : Except Stop Unit × Trace) : noted false op ran = ran.2 := by
  simp [noted]

namespace Use

variable {u : Use}

/-- **A use leaves behind what its call does**, and of a host, what it is told. -/
theorem after_of_reaches {w : Surroundings} {fresh : Fresh} {point : EntryPoint} {byHost : Bool} {b : BridgeCall}
    (h : Reaches w fresh point byHost b) (t : Trace) :
    Use.after ⟨w, fresh, point⟩ t = noted byHost b.op (b.after t) := by
  cases h with
  | write | read =>
    rw [noted_false]
    simp only [Use.after, BridgeCall.after, endAfter_snd]
  | hostWrite h =>
    simp only [Use.after, BridgeCall.after, noted, endAfter_fst, endAfter_snd, explanation_map, ↓reduceIte]
    rw [Boundary.write_eq, Boundary.guarded_eq, Boundary.after_invoke_spelled h]
    rfl
  | hostRead h =>
    simp only [Use.after, BridgeCall.after, noted, endAfter_fst, endAfter_snd, explanation_map, ↓reduceIte]
    rw [Boundary.read_eq, Boundary.guarded_eq, Boundary.after_invoke_spelled h]
    rfl
  | @put c batch h =>
    rw [noted_false]
    simp only [Use.after, BridgeCall.after, endAfter_snd, KeyValue.Client.put]
    rw [if_neg (by simpa using h)]
    exact after_bind_silent (fun _ _ => rfl) t
  | get | getAll =>
    rw [noted_false]
    simp only [Use.after, BridgeCall.after, endAfter_snd, KeyValue.Client.get, KeyValue.Client.getAll,
      KeyValue.Client.evaluate]
    exact after_bind_silent (fun _ _ => by rw [Run.after_ofExcept]) t
  | remove =>
    rw [noted_false]
    simp only [Use.after, BridgeCall.after, endAfter_snd, KeyValue.Client.remove]
    exact after_bind_silent (fun _ _ => rfl) t

theorem Reaches.policy {w : Surroundings} {fresh : Fresh} {point : EntryPoint} {byHost : Bool} {b : BridgeCall}
    (h : Reaches w fresh point byHost b) : b.policy = point.policy := by
  cases h <;> rfl

theorem Reaches.surroundings {w : Surroundings} {fresh : Fresh} {point : EntryPoint} {byHost : Bool} {b : BridgeCall}
    (h : Reaches w fresh point byHost b) : b.surroundings = w := by
  cases h <;> rfl

/-- One call at most comes of a use. -/
theorem Reaches.unique {w : Surroundings} {fresh : Fresh} {point : EntryPoint} {byHost byHost' : Bool}
    {b b' : BridgeCall} (h : Reaches w fresh point byHost b) (h' : Reaches w fresh point byHost' b') :
    byHost = byHost' ∧ b = b' := by
  cases h with
  | hostWrite h =>
    cases h' with
    | hostWrite h' =>
      rw [h.unique h']
      exact ⟨rfl, rfl⟩
  | hostRead h =>
    cases h' with
    | hostRead h' =>
      rw [h.unique h']
      exact ⟨rfl, rfl⟩
  | _ =>
    cases h'
    exact ⟨rfl, rfl⟩

theorem not_reaches_of_nothing {b : BridgeCall} {byHost : Bool} {c : KeyValue.Client} (h : u.point = .put c []) :
    ¬ Reaches u.surroundings u.fresh u.point byHost b := by
  rw [h]
  intro hb
  cases hb with
  | put hn => exact hn rfl

theorem not_reaches_of_refused {b : BridgeCall} {byHost : Bool} {a : Arguments} {c : InputCause}
    (h : u.point = .hostWrite a ∨ u.point = .hostRead a) (hr : a.Refused c) :
    ¬ Reaches u.surroundings u.fresh u.point byHost b := by
  intro hb
  rcases h with h | h <;> rw [h] at hb <;> cases hb <;> rename_i hs <;> exact hr.not_spells hs

/-- A call comes of a use, or its batch is empty, or its arguments are refused. -/
theorem reaches_or (u : Use) : (∃ byHost b, Reaches u.surroundings u.fresh u.point byHost b) ∨
    (∃ c, u.point = .put c []) ∨ ∃ a c, (u.point = .hostWrite a ∨ u.point = .hostRead a) ∧ a.Refused c := by
  rcases u with ⟨w, fresh, point⟩
  cases point with
  | write => exact .inl ⟨_, _, .write⟩
  | read => exact .inl ⟨_, _, .read⟩
  | hostWrite a =>
    rcases a.spells_or_refused with ⟨i, h⟩ | ⟨c, h⟩
    · exact .inl ⟨_, _, .hostWrite h⟩
    · exact .inr (.inr ⟨a, c, .inl rfl, h⟩)
  | hostRead a =>
    rcases a.spells_or_refused with ⟨i, h⟩ | ⟨c, h⟩
    · exact .inl ⟨_, _, .hostRead h⟩
    · exact .inr (.inr ⟨a, c, .inr rfl, h⟩)
  | put c batch =>
    by_cases h : batch = []
    · subst h
      exact .inr (.inl ⟨c, rfl⟩)
    · exact .inl ⟨_, _, .put h⟩
  | get => exact .inl ⟨_, _, .get⟩
  | getAll => exact .inl ⟨_, _, .getAll⟩
  | remove => exact .inl ⟨_, _, .remove⟩

theorem after_of_nothing {c : KeyValue.Client} (h : u.point = .put c []) (t : Trace) : u.after t = t := by
  rw [after, h]
  rfl

/-- Of arguments that are refused a host is told, and nothing else is done. -/
theorem after_of_refused {a : Arguments} {c : InputCause} (h : u.point = .hostWrite a ∨ u.point = .hostRead a)
    (hr : a.Refused c) (t : Trace) : u.after t = { t with events := t.events ++ [.argumentsRejected c] } := by
  rcases h with h | h
  · simp only [after, h]
    rw [Boundary.write_eq, Boundary.guarded_eq, Boundary.after_invoke_refused hr]
    rfl
  · simp only [after, h]
    rw [Boundary.read_eq, Boundary.guarded_eq, Boundary.after_invoke_refused hr]
    rfl

/-- **Every use leaves its entry**, and nothing else. -/
theorem leaves_entry (ht : u.Timely) : ∃ x, u.Leaves x ∧
    ∀ t, (u.after t).metrics = t.metrics ++ x.metrics ∧ (u.after t).events = t.events ++ x.events := by
  rcases u.reaches_or with ⟨byHost, b, hb⟩ | ⟨c, hc⟩ | ⟨a, c, ha, hr⟩
  · obtain ⟨keys, e?, hk, he, hadd⟩ := BridgeCall.reports (b := b) fun p => by rw [hb.policy]; exact ht p
    refine ⟨.made b byHost keys e?, .made hb hk he, fun t => ?_⟩
    obtain ⟨hm, hev⟩ := hadd t
    have hu : u.after t = noted byHost b.op (b.after t) := after_of_reaches hb t
    rw [hu, noted, he t, explanation_endOf]
    exact ⟨hm, by rw [hev, Entry.events, List.append_assoc]⟩
  · refine ⟨.nothing, .nothing hc, fun t => ?_⟩
    rw [after_of_nothing hc]
    exact ⟨(List.append_nil _).symm, (List.append_nil _).symm⟩
  · refine ⟨.refused c, .refused ha hr, fun t => ?_⟩
    rw [after_of_refused ha hr]
    exact ⟨(List.append_nil _).symm, rfl⟩

/-- **A use has one entry.** -/
theorem Leaves.unique {x y : Entry} (hx : u.Leaves x) (hy : u.Leaves y) : x = y := by
  cases hx with
  | nothing h =>
    cases hy with
    | nothing => rfl
    | refused h' => rw [h] at h'; rcases h' with h' | h' <;> cases h'
    | made hb => exact absurd hb (not_reaches_of_nothing h)
  | refused h hr =>
    cases hy with
    | nothing h' => rw [h'] at h; rcases h with h | h <;> cases h
    | refused h' hr' =>
      rcases h with h | h <;> rcases h' with h' | h' <;> cases h.symm.trans h' <;> rw [hr.unique hr']
    | made hb => exact absurd hb (not_reaches_of_refused h hr)
  | made hb hk he =>
    cases hy with
    | nothing h' => exact absurd hb (not_reaches_of_nothing h')
    | refused h' hr' => exact absurd hb (not_reaches_of_refused h' hr')
    | made hb' hk' he' =>
      obtain ⟨rfl, rfl⟩ := hb.unique hb'
      rw [hk.unique hk', he.unique he']

/-! ## Uses one after the other -/

/-- **Uses leave their entries in order**, and nothing else. -/
theorem afterAll_entries {us : List Use} (ht : ∀ u ∈ us, u.Timely) : ∃ xs, List.Forall₂ Leaves us xs ∧
    ∀ t, (afterAll us t).metrics = t.metrics ++ xs.flatMap Entry.metrics ∧
      (afterAll us t).events = t.events ++ xs.flatMap Entry.events := by
  induction us with
  | nil => exact ⟨[], .nil, fun t => ⟨(List.append_nil _).symm, (List.append_nil _).symm⟩⟩
  | cons u us ih =>
    obtain ⟨x, hx, hu⟩ := (leaves_entry (ht u List.mem_cons_self))
    obtain ⟨xs, hxs, hus⟩ := ih fun v hv => ht v (List.mem_cons_of_mem u hv)
    refine ⟨x :: xs, .cons hx hxs, fun t => ?_⟩
    obtain ⟨hm, he⟩ := hus (u.after t)
    rw [afterAll, List.foldl_cons, ← afterAll, hm, he, (hu t).1, (hu t).2]
    exact ⟨List.append_assoc .., List.append_assoc ..⟩

theorem entries_unique {us : List Use} {xs ys : List Entry} (hx : List.Forall₂ Leaves us xs)
    (hy : List.Forall₂ Leaves us ys) : xs = ys := by
  induction hx generalizing ys with
  | nil => cases hy; rfl
  | cons h _ ih =>
    cases hy with
    | cons h' hy => rw [h.unique h', ih hy]

end Use

/-! ## Totals -/

namespace Entry

/-- What each entry has once or not at all, all of them have as often as there are entries that have it. -/
theorem count_flatMap {m : Metric} {has : Entry → Bool} (h : ∀ x, (metrics x).count m = if has x then 1 else 0)
    (xs : List Entry) : (xs.flatMap metrics).count m = xs.countP has := by
  induction xs with
  | nil => rfl
  | cons x xs ih => rw [List.flatMap_cons, List.count_append, ih, h, List.countP_cons, Nat.add_comm]

theorem count_call (op : Operation) (ok : Bool) (x : Entry) :
    (metrics x).count (.call op ok) = if x.isCall op ok then 1 else 0 := by
  rcases x with _ | _ | ⟨b, _, _, _ | e⟩ <;> simp [metrics, isCall, counted, List.count_cons]

theorem count_duration (op : Operation) (x : Entry) :
    (metrics x).count (.duration op) = if x.isOf op then 1 else 0 := by
  rcases x with _ | _ | ⟨b, _, _, _ | e⟩ <;> simp [metrics, isOf, counted, List.count_cons]

theorem count_failure (kind : String) (x : Entry) :
    (metrics x).count (.failure kind) = if x.isFailure kind then 1 else 0 := by
  rcases x with _ | _ | ⟨b, _, _, _ | e⟩ <;> simp [metrics, isFailure, counted, List.count_cons]

end Entry

/-- **Exactly-once accounting.**  However uses follow each other, each leaves the one entry it has: a call that is made
is counted once with its operation and how it ended, gives one sample of its duration and, if it ended with an error,
counts once under the kind of it; it warns of many keys and of a doubt, reports its error with all that it was asked
for, and tells a host that its input was refused.  So each counter comes to the number of the calls it is about. -/
theorem exactly_once (us : List Use) (ht : ∀ u ∈ us, u.Timely) (t : Trace) :
    ∃ xs, (∀ ys, List.Forall₂ Use.Leaves us ys ↔ ys = xs) ∧
      (Use.afterAll us t).metrics = t.metrics ++ xs.flatMap Entry.metrics ∧
      (Use.afterAll us t).events = t.events ++ xs.flatMap Entry.events ∧
      (∀ op ok, (Use.afterAll us t).metrics.count (.call op ok) =
        t.metrics.count (.call op ok) + xs.countP (Entry.isCall op ok)) ∧
      (∀ op, (Use.afterAll us t).metrics.count (.duration op) =
        t.metrics.count (.duration op) + xs.countP (Entry.isOf op)) ∧
      (∀ kind, (Use.afterAll us t).metrics.count (.failure kind) =
        t.metrics.count (.failure kind) + xs.countP (Entry.isFailure kind)) ∧
      ∀ words op function channel contract e, (Event.callFailed op function channel contract e).fields words =
        [("operation", .text op.name), ("function", .text function), ("channel", .text channel),
          ("contract", .text contract), ("kind", .text e.kind), ("error", .text (e.message words))] := by
  obtain ⟨xs, hxs, hadd⟩ := Use.afterAll_entries ht
  obtain ⟨hm, he⟩ := hadd t
  refine ⟨xs, fun ys => ⟨fun hys => Use.entries_unique hys hxs, fun h => h ▸ hxs⟩, hm, he, fun op ok => ?_,
    fun op => ?_, fun kind => ?_, fun _ _ _ _ _ _ => rfl⟩
  · rw [hm, List.count_append, Entry.count_flatMap (Entry.count_call op ok)]
  · rw [hm, List.count_append, Entry.count_flatMap (Entry.count_duration op)]
  · rw [hm, List.count_append, Entry.count_flatMap (Entry.count_failure kind)]

/-! A query without a trusted certificate, a host without arguments, and a batch of nothing. -/

/-- No files, and no peer. -/
def nowhere : Surroundings where
  files := {}
  home := "/"
  reach _ := Gateway.Peer.absent ""

def sampleCall : Invocation :=
  ⟨[], "f", "c", "b", "Org1MSP", "/cert", "/keys", "/anchor", "localhost:7051", "localhost"⟩

def sampleUses : List Use :=
  [⟨nowhere, ⟨[], {}⟩, .read {} sampleCall⟩,
    ⟨nowhere, ⟨[], {}⟩, .hostWrite ⟨.missing 0, none, none, none, none, none, none, none, none, none⟩⟩,
    ⟨nowhere, ⟨[], {}⟩, .put ⟨{}, {}⟩ []⟩]

theorem sampleUses_timely : ∀ u ∈ sampleUses, u.Timely := by
  have h : ∀ p : Phase, ({} : Config.Timeouts).phase p < Gateway.networkLimit := fun p => by cases p <;> decide
  rintro u (_ | ⟨_, _ | ⟨_, _ | ⟨_, ⟨⟩⟩⟩⟩) <;> exact h

theorem sampleUses_leave : List.Forall₂ Use.Leaves sampleUses
    [.made ⟨nowhere, {}, ⟨[], {}⟩, .read, sampleCall⟩ false [] (some (.io "/anchor" (.code 2))),
      .refused (.nullArgument "function"), .nothing] := by
  refine .cons (.made .read (.none fun n ns h => ?_) fun t => ?_) (.cons (.refused (.inl rfl) ?_)
    (.cons (.nothing rfl) .nil))
  · obtain ⟨_, h⟩ := h.transport
    have hn : sampleCall.transport nowhere = .error (.io "/anchor" (.code 2)) := rfl
    cases hn.symm.trans h
  · rfl
  · exact Boundary.Arguments.read_eq_error_iff.1 rfl

theorem exactly_once_sample : (∀ u ∈ sampleUses, u.Timely) ∧
    (Use.afterAll sampleUses {}).metrics = [.call .read false, .duration .read, .failure "io"] ∧
    (Use.afterAll sampleUses {}).events =
      [.callFailed .read "f" "c" "b" (.io "/anchor" (.code 2)), .argumentsRejected (.nullArgument "function")] := by
  obtain ⟨xs, hxs, hm, he, _⟩ := exactly_once sampleUses sampleUses_timely {}
  obtain rfl := (hxs _).1 sampleUses_leave
  exact ⟨sampleUses_timely, hm, he⟩

end LedgerClient.Accounting
