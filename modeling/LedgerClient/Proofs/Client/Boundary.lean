import LedgerClient.Client.Boundary
import LedgerClient.Proofs.Run
import LedgerClient.Proofs.Sequence
import LedgerClient.Proofs.Text.Utf8
/-!
# What a host gets

Ten arguments either spell a call (`Arguments.Spells`) or are refused for the first of them that is bad
(`Arguments.Refused`), and what is read of them is the one or the other.  A call that is spelled is made as any other,
and of how it ends a host gets a status and, of a query, a buffer (`host_gets`).
-/
namespace LedgerClient.Boundary

open Gateway (Fresh)

/-! ## Arguments -/

/-- The argument spells the text: its bytes up to the first NUL are those of the text. -/
def Argument.Spells (a : Argument) (s : String) : Prop := ∃ bs, a = some bs ∧ bs.takeWhile (· ≠ 0) = utf8 s

/-- What is wrong with an argument: it is missing, or spells no text. -/
inductive Argument.Bad (name : String) : Argument → InputCause → Prop where
  | missing : Bad name none (.nullArgument name)
  | noText {bs : List UInt8} (h : ∀ s, ¬ Argument.Spells (some bs) s) : Bad name (some bs) (.argumentNotUtf8 name)

theorem Argument.read_eq_ok_iff {name : String} {a : Argument} {s : String} : a.read name = .ok s ↔ a.Spells s := by
  cases a with
  | none => simp [Argument.read, Argument.Spells]
  | some bs =>
    simp only [Argument.read, Argument.Spells, Option.some.injEq, exists_eq_left']
    rw [eq_comm (b := utf8 s), ← text?_eq_ok_iff]
    cases text? (bs.takeWhile (· ≠ 0)) <;> simp

theorem Argument.read_eq_error_iff {name : String} {a : Argument} {c : InputCause} :
    a.read name = .error c ↔ a.Bad name c := by
  constructor
  · intro h
    cases a with
    | none =>
      cases h
      exact .missing
    | some bs =>
      have hn : ∀ s, ¬ Argument.Spells (some bs) s := fun s hs => by
        rw [Argument.read_eq_ok_iff.2 hs] at h
        cases h
      unfold Argument.read at h
      dsimp only at h
      split at h <;> cases h
      exact .noText hn
  · rintro (_ | h)
    · rfl
    · rename_i bs
      cases hr : Argument.read name (some bs) with
      | ok s => exact absurd (Argument.read_eq_ok_iff.1 hr) (h s)
      | error c' =>
        unfold Argument.read at hr
        dsimp only at hr
        split at hr <;> cases hr
        rfl

/-- The bytes that a payload stands for; a missing one may stand for none. -/
def PayloadArgument.Holds : PayloadArgument → List UInt8 → Prop
  | .missing n, bs => n = 0 ∧ bs = []
  | .bytes bs, bs' => bs' = bs

theorem PayloadArgument.read_eq_ok_iff {a : PayloadArgument} {bs : List UInt8} : a.read = .ok bs ↔ a.Holds bs := by
  rcases a with (_ | n) | bs' <;> simp [PayloadArgument.read, PayloadArgument.Holds, eq_comm]

theorem PayloadArgument.read_eq_error_iff {a : PayloadArgument} {c : InputCause} :
    a.read = .error c ↔ ∃ n, a = .missing n ∧ n ≠ 0 ∧ c = .nullPayload n := by
  rcases a with (_ | n) | bs' <;> simp [PayloadArgument.read, eq_comm]

namespace Arguments

/-- The arguments that are text, by name, in the order in which they are given. -/
def texts (a : Arguments) : List (String × Argument) :=
  [("function", a.function), ("network", a.network), ("contract", a.contract), ("msp_id", a.mspId),
    ("cert_path", a.certPath), ("key_dir", a.keyDir), ("trust_anchor_path", a.anchorPath),
    ("peer_endpoint", a.endpoint), ("peer_name", a.peerName)]

/-- **The arguments of a call**, each in its place. -/
structure Spells (a : Arguments) (i : Invocation) : Prop where
  payload : a.payload.Holds i.payload
  function : a.function.Spells i.function
  network : a.network.Spells i.network
  contract : a.contract.Spells i.contract
  mspId : a.mspId.Spells i.mspId
  certPath : a.certPath.Spells i.certPath
  keyDir : a.keyDir.Spells i.keyDir
  anchorPath : a.anchorPath.Spells i.anchorPath
  endpoint : a.endpoint.Spells i.endpoint
  peerName : a.peerName.Spells i.peerName

/-- **What the arguments are refused for**: a payload that is missing though it should have a length, or else the first
text that is bad. -/
inductive Refused (a : Arguments) : InputCause → Prop where
  | payload {n : Nat} (h : a.payload = .missing n) (hn : n ≠ 0) : Refused a (.nullPayload n)
  | text {bs : List UInt8} {before after : List (String × Argument)} {name : String} {x : Argument} {c : InputCause}
      (hp : a.payload.Holds bs) (h : a.texts = before ++ (name, x) :: after)
      (hb : ∀ y ∈ before, ∃ s, y.2.Spells s) (hx : x.Bad name c) : Refused a c

variable {a : Arguments} {i : Invocation} {c : InputCause}

/-- The texts of a call, in the order of its arguments. -/
def callOf (payload : List UInt8) : List String → Invocation
  | [function, network, contract, mspId, certPath, keyDir, anchorPath, endpoint, peerName] =>
    { payload, function, network, contract, mspId, certPath, keyDir, anchorPath, endpoint, peerName }
  | _ => ⟨payload, "", "", "", "", "", "", "", "", ""⟩

/-- Texts are read after the payload, one after the other. -/
theorem read_eq (a : Arguments) :
    a.read = a.payload.read >>= fun bs => callOf bs <$> a.texts.mapM fun x => x.2.read x.1 := by
  simp only [texts, List.mapM_cons, List.mapM_nil, bind_pure_comp, map_bind, Functor.map_map]
  rfl

/-- **What is read of the arguments is the call they spell.** -/
theorem read_eq_ok_iff : a.read = .ok i ↔ a.Spells i := by
  rw [read_eq]
  constructor
  · intro h
    cases hp : a.payload.read with
    | error c =>
      rw [hp] at h
      cases h
    | ok bs =>
      cases ht : a.texts.mapM fun x => x.2.read x.1 with
      | error c =>
        rw [hp, ok_bind, ht] at h
        cases h
      | ok ts =>
        rw [hp, ok_bind, ht] at h
        have hs := mapM_eq_ok_iff.1 ht
        simp only [texts, Argument.read_eq_ok_iff, List.forall₂_cons_left_iff, List.forall₂_nil_left_iff] at hs
        obtain ⟨_, _, h₁, ⟨_, _, h₂, ⟨_, _, h₃, ⟨_, _, h₄, ⟨_, _, h₅, ⟨_, _, h₆, ⟨_, _, h₇, ⟨_, _, h₈,
          ⟨_, _, h₉, rfl, rfl⟩, rfl⟩, rfl⟩, rfl⟩, rfl⟩, rfl⟩, rfl⟩, rfl⟩, rfl⟩ := hs
        cases h
        exact ⟨PayloadArgument.read_eq_ok_iff.1 hp, h₁, h₂, h₃, h₄, h₅, h₆, h₇, h₈, h₉⟩
  · intro h
    have ht : a.texts.mapM (fun x => x.2.read x.1) = .ok [i.function, i.network, i.contract, i.mspId, i.certPath,
        i.keyDir, i.anchorPath, i.endpoint, i.peerName] := by
      rw [mapM_eq_ok_iff]
      simp only [texts, Argument.read_eq_ok_iff, List.forall₂_cons, List.forall₂_nil_left_iff, and_true]
      exact ⟨h.function, h.network, h.contract, h.mspId, h.certPath, h.keyDir, h.anchorPath, h.endpoint, h.peerName⟩
    rw [PayloadArgument.read_eq_ok_iff.2 h.payload, ht]
    rfl

/-- **What they are refused for is the first that is bad.** -/
theorem read_eq_error_iff : a.read = .error c ↔ a.Refused c := by
  rw [read_eq]
  cases hp : a.payload.read with
  | error c' =>
    obtain ⟨n, hn, h0, rfl⟩ := PayloadArgument.read_eq_error_iff.1 hp
    constructor
    · intro h
      cases h
      exact .payload hn h0
    · rintro (⟨h, _⟩ | ⟨hb, _⟩)
      · rw [hn] at h
        cases h
        rfl
      · rw [PayloadArgument.read_eq_ok_iff.2 hb] at hp
        cases hp
  | ok bs =>
    have hm : (callOf bs <$> a.texts.mapM fun x => x.2.read x.1) = .error c ↔
        (a.texts.mapM fun x => x.2.read x.1) = .error c := by
      cases a.texts.mapM fun x => x.2.read x.1 <;> simp [Functor.map, Except.map]
    rw [ok_bind, hm, mapM_eq_error_iff]
    constructor
    · rintro ⟨before, x, after, ht, hb, hx⟩
      refine .text (PayloadArgument.read_eq_ok_iff.1 hp) ht (fun y hy => ?_) (Argument.read_eq_error_iff.1 hx)
      obtain ⟨s, hs⟩ := hb y hy
      exact ⟨s, Argument.read_eq_ok_iff.1 hs⟩
    · rintro (⟨h, h0⟩ | ⟨_, ht, hb, hx⟩)
      · have he := PayloadArgument.read_eq_error_iff.2 ⟨_, h, h0, rfl⟩
        rw [hp] at he
        cases he
      · refine ⟨_, _, _, ht, fun y hy => ?_, Argument.read_eq_error_iff.2 hx⟩
        obtain ⟨s, hs⟩ := hb y hy
        exact ⟨s, Argument.read_eq_ok_iff.2 hs⟩

/-- Arguments spell one call. -/
theorem Spells.unique {i' : Invocation} (h : a.Spells i) (h' : a.Spells i') : i = i' :=
  Except.ok.inj ((read_eq_ok_iff.2 h).symm.trans (read_eq_ok_iff.2 h'))

/-- They are refused for one thing. -/
theorem Refused.unique {c' : InputCause} (h : a.Refused c) (h' : a.Refused c') : c = c' :=
  Except.error.inj ((read_eq_error_iff.2 h).symm.trans (read_eq_error_iff.2 h'))

/-- What is refused spells no call. -/
theorem Refused.not_spells (h : a.Refused c) : ¬ a.Spells i := fun hi => by
  cases (read_eq_error_iff.2 h).symm.trans (read_eq_ok_iff.2 hi)

/-- Arguments spell a call, or are refused. -/
theorem spells_or_refused (a : Arguments) : (∃ i, a.Spells i) ∨ ∃ c, a.Refused c := by
  cases h : a.read with
  | ok i => exact .inl ⟨i, read_eq_ok_iff.1 h⟩
  | error c => exact .inr ⟨c, read_eq_error_iff.1 h⟩

end Arguments

/-! ## Calls -/

section Calls

variable {α : Type} {a : Arguments} {i : Invocation} {t : Trace}

/-- What is reported of how a call ended: input that was refused, and work that was cut off. -/
def explanation (op : Operation) : Except Stop α → List Event
  | .error (.failed (.invalidInput c)) => [.argumentsRejected c]
  | .error .panicked => [.panicCaught op]
  | _ => []

theorem after_explain (op : Operation) (x : Except Stop α) (t : Trace) :
    Run.after t (explain op x) = (.ok (), { t with events := t.events ++ explanation op x }) := by
  rcases x with (e | _) | v
  · cases e with
    | invalidInput c => rfl
    | _ => simp only [explain, explanation, Run.after_pure, List.append_nil]
  · rfl
  · simp only [explain, explanation, Run.after_pure, List.append_nil]

/-- **What is guarded ends as it does**, and is explained. -/
theorem guarded_eq (op : Operation) (r : Run α) (t : Trace) :
    guarded op r t = ((Run.after t r).1,
      { (Run.after t r).2 with events := (Run.after t r).2.events ++ explanation op (Run.after t r).1 }) := by
  rw [guarded, Run.after_observe, after_explain]

/-- A call that is refused is not begun. -/
theorem after_invoke_refused {c : InputCause} (h : a.Refused c) (k : Invocation → Run α) (t : Trace) :
    Run.after t (invoke a k) = (.error (.failed (.invalidInput c)), t) := by
  rw [invoke, Arguments.read_eq_error_iff.2 h]
  rfl

/-- A call that is spelled is made. -/
theorem after_invoke_spelled (h : a.Spells i) (k : Invocation → Run α) (t : Trace) :
    Run.after t (invoke a k) = Run.after t (k i) := by
  rw [invoke, Arguments.read_eq_ok_iff.2 h]
  rfl

/-- The status for how a call ended. -/
def statusOf : Except Stop α → Nat
  | .ok _ => statusSuccess
  | .error _ => statusFailure

theorem statusOf_eq_zero_iff {x : Except Stop α} : statusOf x = 0 ↔ ∃ v, x = .ok v := by
  cases x <;> simp [statusOf, statusSuccess, statusFailure]

theorem write_eq (w : Surroundings) (fresh : Fresh) (a : Arguments) (t : Trace) :
    write w fresh a t = Prod.map statusOf id (guarded .write (invoke a fun i => i.write w {} fresh) t) := by
  unfold write
  rcases guarded .write (invoke a fun i => i.write w {} fresh) t with ⟨_ | _, u⟩ <;> rfl

theorem read_eq (w : Surroundings) (fresh : Fresh) (a : Arguments) (t : Trace) :
    read w fresh a t = Prod.map .ofEnd id (guarded .read (invoke a fun i => i.read w {} fresh) t) := by
  rw [read]
  rfl

/-- A buffer is handed out exactly for an answer: its bytes and a NUL. -/
theorem ofEnd_gives_iff {x : Except Stop (List UInt8)} {bs : List UInt8} :
    x = .ok bs ↔ (ReadResult.ofEnd x).status = 0 ∧ (ReadResult.ofEnd x).length = bs.length ∧
      (ReadResult.ofEnd x).buffer = some (bs ++ [0]) := by
  cases x with
  | error e => simp [ReadResult.ofEnd, statusFailure]
  | ok b =>
    simp only [Except.ok.injEq, ReadResult.ofEnd, statusSuccess, ReadResult.length, ReadResult.buffer, Option.map_some,
      Option.getD_some, Option.some.injEq, List.append_left_inj, true_and]
    exact ⟨fun h => h ▸ ⟨rfl, rfl⟩, And.right⟩

/-- **What a host gets.**  Arguments spell a call, or are refused for the first that is bad, the payload before the
texts; then nothing is done but to report it.  A call that is spelled is made with the default deadlines and whatever
key there is, and ends with a status, or with a buffer that holds the answer and a NUL; so does whatever is cut off. -/
theorem host_gets (w : Surroundings) (fresh : Fresh) (a : Arguments) (t : Trace) :
    ((∃ i, a.Spells i) ∨ ∃ c, a.Refused c) ∧
    (∀ c, a.Refused c → (∀ i, ¬ a.Spells i) ∧
      write w fresh a t = (1, { t with events := t.events ++ [.argumentsRejected c] }) ∧
      read w fresh a t = (⟨1, none⟩, { t with events := t.events ++ [.argumentsRejected c] })) ∧
    (∀ n, (InputCause.nullPayload n).message = "payload is null but payload_len is " ++ toString n) ∧
    (∀ name, (InputCause.nullArgument name).message = name ++ " is null" ∧
      (InputCause.argumentNotUtf8 name).message = name ++ " is not valid UTF-8") ∧
    (∀ i, a.Spells i →
      (let call := Run.after t (i.write w ⟨{}, false⟩ fresh)
       let got := write w fresh a t
       (got.1 = 0 ∨ got.1 = 1) ∧ (got.1 = 0 ↔ ∃ c, call.1 = .ok c) ∧
         got.2 = { call.2 with events := call.2.events ++ explanation .write call.1 }) ∧
      (let call := Run.after t (i.read w ⟨{}, false⟩ fresh)
       let got := read w fresh a t
       (∀ bs, call.1 = .ok bs ↔
         got.1.status = 0 ∧ got.1.length = bs.length ∧ got.1.buffer = some (bs ++ [0])) ∧
       ((∀ bs, call.1 ≠ .ok bs) → got.1.status = 1 ∧ got.1.length = 0 ∧ got.1.buffer = none) ∧
       got.2 = { call.2 with events := call.2.events ++ explanation .read call.1 })) ∧
    (∀ (α : Type) (op : Operation) (work : Run α) (u : Trace), Run.after t work = (.error .panicked, u) →
      guarded op work t = (.error .panicked, { u with events := u.events ++ [.panicCaught op] }) ∧
      statusOf (guarded op work t).1 = 1) ∧
    ReadResult.ofEnd (.error .panicked) = ⟨1, none⟩ := by
  refine ⟨a.spells_or_refused, fun c h => ?_, fun _ => rfl, fun _ => ⟨rfl, rfl⟩, fun i h => ⟨?_, ?_⟩,
    fun α op work u h => ?_, rfl⟩
  · refine ⟨fun i => h.not_spells, ?_, ?_⟩
    · rw [write_eq, guarded_eq, after_invoke_refused h]
      rfl
    · rw [read_eq, guarded_eq, after_invoke_refused h]
      rfl
  · rw [write_eq, guarded_eq, after_invoke_spelled h]
    generalize Run.after t (i.write w ⟨{}, false⟩ fresh) = call
    refine ⟨?_, statusOf_eq_zero_iff, rfl⟩
    rcases call with ⟨_ | c, u⟩
    · exact .inr rfl
    · exact .inl rfl
  · rw [read_eq, guarded_eq, after_invoke_spelled h]
    generalize Run.after t (i.read w ⟨{}, false⟩ fresh) = call
    refine ⟨fun bs => ofEnd_gives_iff, fun hn => ?_, rfl⟩
    rcases call with ⟨_ | bs, u⟩
    · exact ⟨rfl, rfl, rfl⟩
    · exact absurd rfl (hn bs)
  · rw [guarded_eq, h]
    exact ⟨rfl, rfl⟩

end Calls

end LedgerClient.Boundary
