import LedgerClient.Proofs.Network.Endpoint
/-!
# What is reported of settings

Settings are checked in fourteen places, one after the other (`Settings.checks`), and each check that fails is reported,
whatever the others come to (`Settings.validate_reports`).  Thirteen of the checks look at one value only; the last of
the connection looks for the port of the endpoint (`hasPort_iff`).
-/
namespace LedgerClient.Config

open Text (SplitsFirst schemeMark)

/-! ## Ports -/

/-- Decimal digits, however many, of a number that fits 16 bits; a plus sign may stand before them. -/
def IsPort (s : List Char) : Prop :=
  ∃ ds, (s = ds ∨ s = '+' :: ds) ∧ ds ≠ [] ∧ (∀ c ∈ ds, c.isDigit = true) ∧ Decimal.number ds ≤ 65535

/-- What stands after the first scheme mark, or everything. -/
inductive Authority (e : List Char) : List Char → Prop where
  | whole (h : ¬ schemeMark <:+: e) : Authority e e
  | rest {a b : List Char} (h : SplitsFirst schemeMark e a b) : Authority e b

/-- A port stands after the last colon, and something before it. -/
def NamesPort (e : List Char) : Prop :=
  ∃ host port, Authority e (host ++ ':' :: port) ∧ host ≠ [] ∧ ':' ∉ port ∧ IsPort port

variable {e s : List Char}

theorem isPort_iff : isPort s = true ↔ IsPort s := by
  have hplus : ∀ {ds : List Char}, (∀ c ∈ ds, c.isDigit = true) → ds.head? ≠ some '+' := by
    intro ds hds hhead
    have hdigit := hds '+' (List.mem_of_mem_head? hhead)
    revert hdigit
    decide
  have hdigits : ∀ ds : List Char, (!ds.isEmpty && ds.all Char.isDigit && decide (Decimal.number ds ≤ 65535)) = true ↔
      ds ≠ [] ∧ (∀ c ∈ ds, c.isDigit = true) ∧ Decimal.number ds ≤ 65535 := by
    intro ds
    simp [and_assoc]
  rw [isPort, hdigits]
  by_cases hs : s.head? = some '+'
  · obtain ⟨r, rfl⟩ := List.head?_eq_some_iff.1 hs
    rw [if_pos hs, List.tail_cons]
    constructor
    · intro h
      exact ⟨r, .inr rfl, h⟩
    · rintro ⟨ds, rfl | hr, h⟩
      · exact absurd hs (hplus h.2.1)
      · cases hr
        exact h
  · rw [if_neg hs]
    constructor
    · intro h
      exact ⟨s, .inl rfl, h⟩
    · rintro ⟨ds, rfl | rfl, h⟩
      · exact h
      · exact absurd rfl hs

theorem authority_iff {b : List Char} : Authority e b ↔ ((Text.splitFirst? schemeMark e).map Prod.snd).getD e = b := by
  have hmark : schemeMark ≠ [] := by decide
  cases hs : Text.splitFirst? schemeMark e with
  | none =>
    have hnone := (Text.splitFirst?_eq_none_iff hmark).1 hs
    constructor
    · rintro (_ | h)
      · rfl
      · exact absurd ⟨_, _, h.1.symm⟩ hnone
    · rintro rfl
      exact .whole hnone
  | some ab =>
    have hsplit := (Text.splitFirst?_eq_some_iff hmark).1 hs
    constructor
    · rintro (hnone | h)
      · exact absurd ⟨_, _, hsplit.1.symm⟩ hnone
      · exact (hsplit.unique h).2
    · rintro rfl
      exact .rest hsplit

/-- **Which endpoints name a port.** -/
theorem hasPort_iff : hasPort e = true ↔ NamesPort e := by
  unfold NamesPort
  simp only [authority_iff]
  rw [hasPort]
  generalize ((Text.splitFirst? schemeMark e).map Prod.snd).getD e = authority
  have hlast : ∀ host port, authority = host ++ ':' :: port ∧ host ≠ [] ∧ ':' ∉ port ∧ IsPort port ↔
      Text.splitLast? ':' authority = some (host, port) ∧ host ≠ [] ∧ isPort port = true := by
    intro host port
    rw [Text.splitLast?_eq_some_iff, isPort_iff]
    tauto
  simp only [hlast]
  cases Text.splitLast? ':' authority with
  | none => simp
  | some hp =>
    obtain ⟨host, port⟩ := hp
    simp

instance (e : List Char) : Decidable (NamesPort e) := decidable_of_iff _ hasPort_iff

example : NamesPort "https://[::1]:+07051".toList ∧ ¬ NamesPort "https://[::1]".toList := by decide +kernel

/-! ## Checks -/

/-- What is said of a field, and whether it is said. -/
abbrev Check := (String × String) × Bool

def Check.filled (field value : String) : Check :=
  ((s!"connection.{field}", "must not be empty"), trim value.toList = [])

/-- An endpoint that is left out is not asked for its port as well. -/
def Check.port (endpoint : String) : Check :=
  (("connection.peer_endpoint", s!"'{endpoint}' must be host:port"), endpoint ≠ "" ∧ ¬ NamesPort endpoint.toList)

def Check.timely (field : String) (secs : Nat) : Check :=
  ((s!"timeouts.{field}", "must be greater than zero"), secs = 0)

/-- **All that is checked**, in order. -/
def Settings.checks (s : Settings) : List Check :=
  let c := s.connection
  let t := s.timeouts
  [.filled "channel_name" c.channelName, .filled "contract_name" c.contractName, .filled "msp_id" c.mspId,
    .filled "cert_path" c.certPath, .filled "key_path" c.keyPath, .filled "tls_cert_path" c.tlsCertPath,
    .filled "peer_endpoint" c.peerEndpoint, .filled "gateway_peer" c.gatewayPeer, .port c.peerEndpoint,
    .timely "evaluate_secs" t.evaluate, .timely "endorse_secs" t.endorse, .timely "submit_secs" t.submit,
    .timely "commit_status_secs" t.commitStatus, .timely "connect_secs" t.connect]

/-- What is said of the settings: of which field, and what. -/
def Settings.reported (s : Settings) : List (String × String) :=
  match s.validate with
  | .ok () => []
  | .error ps => ps.map fun p => (p.field, p.message)

variable {s s' : Settings}

/-- The fields and messages of the checks that fail. -/
def failing (cs : List Check) : List (String × String) := (cs.filter Prod.snd).map Prod.fst

theorem reported_eq : s.reported = s.problems.map fun p => (p.field, p.message) := by
  unfold Settings.reported Settings.validate
  cases s.problems <;> rfl

theorem checks_eq : s.checks = s.connection.fields.map (fun f => .filled f.1 f.2) ++
    [.port s.connection.peerEndpoint] ++ s.timeouts.fields.map (fun f => .timely f.1 f.2) :=
  rfl

theorem failing_append (cs ds : List Check) : failing (cs ++ ds) = failing cs ++ failing ds := by
  rw [failing, List.filter_append, List.map_append]
  rfl

theorem failing_filled (fs : List (String × String)) : failing (fs.map fun f => .filled f.1 f.2) =
    ((fs.filter fun f => IsBlank f.2).map fun f => Problem.blank f.1).map fun p => (p.field, p.message) := by
  rw [failing, List.filter_map, List.map_map, List.map_map]
  have hcheck : (Prod.snd ∘ fun f : String × String => Check.filled f.1 f.2) = fun f => decide (IsBlank f.2) := by
    funext f
    exact decide_eq_decide.2 trim_eq_nil_iff
  rw [hcheck]
  rfl

theorem failing_timely (fs : List (String × Nat)) : failing (fs.map fun f => .timely f.1 f.2) =
    ((fs.filter fun f => f.2 = 0).map fun f => Problem.zero f.1).map fun p => (p.field, p.message) := by
  rw [failing, List.filter_map, List.map_map, List.map_map]
  rfl

theorem failing_port (endpoint : String) : failing [.port endpoint] =
    (if endpoint ≠ "" && !hasPort endpoint.toList then [Problem.noPort endpoint] else []).map
      fun p => (p.field, p.message) := by
  have hcheck : (Check.port endpoint).2 = (decide (endpoint ≠ "") && !hasPort endpoint.toList) := by
    rw [Check.port, Bool.eq_iff_iff]
    simp [← hasPort_iff]
  rw [failing, List.filter_singleton, hcheck]
  generalize (decide (endpoint ≠ "") && !hasPort endpoint.toList) = lacking
  cases lacking <;> rfl

/-- **Every check that fails is reported**, and nothing else. -/
theorem reported_eq_failing : s.reported = failing s.checks := by
  rw [reported_eq, checks_eq, failing_append, failing_append, failing_filled, failing_port, failing_timely,
    ← List.map_append, ← List.map_append]
  rfl

/-! ## Settings that differ in one field -/

/-- The fields other than `n` are the same, by name and in order. -/
structure Settings.SameBut (n : String) (s s' : Settings) : Prop where
  connection : s.connection.fields.filter (fun f => s!"connection.{f.1}" ≠ n) =
    s'.connection.fields.filter fun f => s!"connection.{f.1}" ≠ n
  timeouts : s.timeouts.fields.filter (fun f => s!"timeouts.{f.1}" ≠ n) =
    s'.timeouts.fields.filter fun f => s!"timeouts.{f.1}" ≠ n

variable {n : String}

theorem Settings.SameBut.peerEndpoint (h : s.SameBut n s') (hn : "connection.peer_endpoint" ≠ n) :
    s.connection.peerEndpoint = s'.connection.peerEndpoint := by
  have hmem : ("peer_endpoint", s.connection.peerEndpoint) ∈
      s.connection.fields.filter fun f => s!"connection.{f.1}" ≠ n :=
    List.mem_filter.2 ⟨by simp [Profile.fields], decide_eq_true hn⟩
  rw [h.connection] at hmem
  simpa [Profile.fields] using (List.mem_filter.1 hmem).1

theorem Settings.SameBut.checks (h : s.SameBut n s') :
    s.checks.filter (·.1.1 ≠ n) = s'.checks.filter (·.1.1 ≠ n) := by
  have hfilled := congrArg (List.map fun f => Check.filled f.1 f.2) h.connection
  have htimely := congrArg (List.map fun f => Check.timely f.1 f.2) h.timeouts
  have hport : [Check.port s.connection.peerEndpoint].filter (·.1.1 ≠ n) =
      [Check.port s'.connection.peerEndpoint].filter (·.1.1 ≠ n) := by
    by_cases hn : "connection.peer_endpoint" = n
    · subst hn
      rfl
    · rw [h.peerEndpoint hn]
  simp only [checks_eq, List.filter_append, List.filter_map, hport]
  exact congrArg₂ (· ++ _ ++ ·) hfilled htimely

theorem filter_failing (cs : List Check) : (failing cs).filter (·.1 ≠ n) = failing (cs.filter (·.1.1 ≠ n)) := by
  rw [failing, failing, List.filter_map, List.filter_filter, List.filter_filter]
  simp only [Bool.and_comm, Function.comp_def]

theorem Settings.SameBut.reported (h : s.SameBut n s') :
    s.reported.filter (·.1 ≠ n) = s'.reported.filter (·.1 ≠ n) := by
  rw [reported_eq_failing, reported_eq_failing, filter_failing, filter_failing, h.checks]

/-- **What is asked of settings, and what is said** of settings that fall short: what each check that fails has to
say, whatever the others come to.  Settings that differ in one field get the same reports of every other. -/
theorem Settings.validate_reports (s : Settings) :
    (s.validate = .ok () ↔ (∀ f ∈ s.connection.fields, trim f.2.toList ≠ []) ∧ (∀ f ∈ s.timeouts.fields, f.2 ≠ 0) ∧
      NamesPort s.connection.peerEndpoint.toList) ∧
    s.reported = failing s.checks ∧
    ∀ n s', s.SameBut n s' → s.reported.filter (·.1 ≠ n) = s'.reported.filter (·.1 ≠ n) := by
  refine ⟨?_, reported_eq_failing, fun n s' h => h.reported⟩
  simp only [Settings.validate_eq_ok_iff, hasPort_iff, ne_eq, trim_eq_nil_iff]
  exact and_right_comm.trans and_assoc

/-- Settings of which one deadline is zero. -/
def Settings.hastyAt (endpoint : String) : Settings :=
  { sampleAt endpoint with timeouts := { endorse := 0 } }

/-- A deadline of zero is reported with and without a port. -/
theorem Settings.validate_reports_hasty :
    (hastyAt "localhost").reported =
      [("connection.peer_endpoint", "'localhost' must be host:port"),
        ("timeouts.endorse_secs", "must be greater than zero")] ∧
    (hastyAt "localhost").SameBut "connection.peer_endpoint" (hastyAt "localhost:7051") ∧
    (hastyAt "localhost").reported.filter (·.1 ≠ "connection.peer_endpoint") =
      (hastyAt "localhost:7051").reported.filter (·.1 ≠ "connection.peer_endpoint") := by
  have hsame : (hastyAt "localhost").SameBut "connection.peer_endpoint" (hastyAt "localhost:7051") :=
    ⟨by decide +kernel, by decide +kernel⟩
  obtain ⟨-, hreported, hothers⟩ := validate_reports (hastyAt "localhost")
  refine ⟨?_, hsame, hothers _ _ hsame⟩
  rw [hreported]
  decide +kernel

end LedgerClient.Config
