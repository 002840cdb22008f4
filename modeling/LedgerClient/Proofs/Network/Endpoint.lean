import LedgerClient.Config.Validation
import LedgerClient.Network.Transport
import LedgerClient.Proofs.Text.Split
import Mathlib.Data.List.DropRight
/-!
# Endpoints of settings that pass the checks

Settings pass the checks exactly if every field of the connection is filled in, the endpoint names a
port and no deadline is zero (`Config.Settings.validate_eq_ok_iff`).  The check of an endpoint passes
over a scheme, whichever it is, and a transport takes `https` only: an endpoint that passes is refused
exactly if it has another scheme, and then every call with these settings fails when it connects
(`Config.Settings.endpoint_refused_iff`).
-/
namespace LedgerClient

/-- **Trimming leaves nothing** of blanks, and of nothing else. -/
theorem trim_eq_nil_iff {s : String} : trim s.toList = [] ↔ IsBlank s := by
  rw [trim, dropTrailing, List.reverse_eq_nil_iff, List.dropWhile_eq_nil_iff]
  simp only [List.mem_reverse]
  rw [← List.dropWhile_eq_nil_iff, List.dropWhile_idempotent, List.dropWhile_eq_nil_iff, ← List.all_eq_true]
  exact Iff.rfl

namespace Config

variable {s : Settings}

/-! ## What passes the checks -/

theorem Profile.problems_eq_nil_iff (p : Profile) :
    p.problems = [] ↔ (∀ f ∈ p.fields, ¬ IsBlank f.2) ∧ hasPort p.peerEndpoint.toList = true := by
  have hblank : (∀ f ∈ p.fields, ¬ decide (IsBlank f.2) = true) ↔ ∀ f ∈ p.fields, ¬ IsBlank f.2 := by
    simp only [decide_eq_true_eq]
  rw [problems, List.append_eq_nil_iff, List.map_eq_nil_iff, List.filter_eq_nil_iff]
  refine (and_congr_left' hblank).trans ?_
  refine and_congr_right fun hf => ?_
  -- An endpoint that is left out is reported as blank only.
  have hne : p.peerEndpoint ≠ "" := by
    intro he
    refine hf ("peer_endpoint", p.peerEndpoint) (by simp [fields]) ?_
    rw [he]
    exact rfl
  simp [hne]

theorem Timeouts.problems_eq_nil_iff (t : Timeouts) : t.problems = [] ↔ ∀ f ∈ t.fields, f.2 ≠ 0 := by
  simp [problems]

/-- **What the checks ask for**: no field of the connection is blank, the endpoint names a port and no
deadline is zero. -/
theorem Settings.validate_eq_ok_iff : s.validate = .ok () ↔
    ((∀ f ∈ s.connection.fields, ¬ IsBlank f.2) ∧ hasPort s.connection.peerEndpoint.toList = true) ∧
      ∀ f ∈ s.timeouts.fields, f.2 ≠ 0 := by
  rw [← Profile.problems_eq_nil_iff, ← Timeouts.problems_eq_nil_iff, ← List.append_eq_nil_iff,
    ← problems, validate, ← List.isEmpty_iff]
  split <;> simp_all

theorem Settings.validate_eq_error (h : s.validate ≠ .ok ()) : s.validate = .error s.problems := by
  unfold validate at h ⊢
  split
  · rename_i hp
    exact absurd (if_pos hp) h
  · rfl

end Config

/-! ## What a transport takes -/

namespace Network

open Text (SplitsFirst schemeMark)

variable {p : String}

/-- **An endpoint that is not blank is refused for its scheme**, and only for a scheme other than
`https`. -/
theorem endpointUri_eq_error_iff (hp : ¬ IsBlank p) {c : ConnectionCause} :
    endpointUri p = .error c ↔
      ∃ a b, SplitsFirst schemeMark (trim p.toList) a b ∧ a ≠ secure ∧ c = .scheme (String.ofList a) := by
  have hne : (trim p.toList).isEmpty = false := by
    rw [List.isEmpty_eq_false_iff]
    exact fun h => hp (trim_eq_nil_iff.1 h)
  simp only [← Text.splitFirst?_eq_some_iff (show schemeMark ≠ [] by decide)]
  rw [endpointUri]
  simp only [hne, Bool.false_eq_true, if_false]
  cases hs : Text.splitFirst? schemeMark (trim p.toList) with
  | none => simp
  | some ab =>
    obtain ⟨a, b⟩ := ab
    by_cases ha : a = secure
    · subst ha
      simp
    · simp [ha, eq_comm]

/-- The endpoint is looked at before anything else. -/
theorem Transport.connect_of_endpointUri_eq_error {c : ConnectionCause} (h : endpointUri p = .error c)
    (anchor : Certificate) (peerName : String) : connect anchor p peerName = .error (.connection c) := by
  rw [connect, checkTarget, h]

end Network

namespace Config

open Network (Transport endpointUri secure)
open Text (SplitsFirst schemeMark)

variable {s : Settings}

/-- **Settings that pass the checks have an endpoint that is refused** exactly if a scheme other than
`https` stands in front of it; connecting then fails whatever certificate is trusted and whatever
peer is expected.  Without such a scheme the endpoint is taken. -/
theorem Settings.endpoint_refused_iff (h : s.validate = .ok ()) :
    (∀ c, endpointUri s.connection.peerEndpoint = .error c ↔
      ∃ a b, SplitsFirst schemeMark (trim s.connection.peerEndpoint.toList) a b ∧ a ≠ secure ∧
        c = .scheme (String.ofList a)) ∧
    (∀ c, endpointUri s.connection.peerEndpoint = .error c → ∀ anchor peerName,
      Transport.connect anchor s.connection.peerEndpoint peerName = .error (.connection c)) ∧
    ((∃ uri, endpointUri s.connection.peerEndpoint = .ok uri) ↔
      ∀ a b, SplitsFirst schemeMark (trim s.connection.peerEndpoint.toList) a b → a = secure) := by
  have hb : ¬ IsBlank s.connection.peerEndpoint :=
    (Settings.validate_eq_ok_iff.1 h).1.1 ("peer_endpoint", s.connection.peerEndpoint) (by simp [Profile.fields])
  have href := fun c => Network.endpointUri_eq_error_iff hb (c := c)
  refine ⟨href, fun c hc anchor peerName => Transport.connect_of_endpointUri_eq_error hc anchor peerName, ?_⟩
  cases hu : endpointUri s.connection.peerEndpoint with
  | ok uri =>
    refine ⟨fun _ a b hab => ?_, fun _ => ⟨uri, rfl⟩⟩
    by_contra ha
    have := (href _).2 ⟨a, b, hab, ha, rfl⟩
    rw [hu] at this
    cases this
  | error c =>
    obtain ⟨a, b, hab, ha, -⟩ := (href c).1 hu
    exact ⟨fun ⟨_, h⟩ => (by cases h), fun hall => absurd (hall a b hab) ha⟩

/-- Settings of which all is filled in, with the peer at `endpoint`. -/
def Settings.sampleAt (endpoint : String) : Settings where
  connection :=
    { certPath := "cert.pem", keyPath := "keystore", tlsCertPath := "ca.pem", peerEndpoint := endpoint }

/-- An endpoint with `http` passes the checks, and connecting fails whatever is trusted. -/
theorem Settings.endpoint_refused_iff_http : (sampleAt "http://localhost:7051").validate = .ok () ∧
    ∀ anchor peerName,
      Transport.connect anchor "http://localhost:7051" peerName = .error (.connection (.scheme "http")) :=
  ⟨by rfl, (endpoint_refused_iff (s := sampleAt "http://localhost:7051") (by rfl)).2.1 (.scheme "http") (by rfl)⟩

/-- Not every endpoint that passes the checks is taken. -/
theorem Settings.endpoint_not_always_taken :
    ¬ ∀ s : Settings, s.validate = .ok () → ∃ uri, endpointUri s.connection.peerEndpoint = .ok uri := by
  intro hall
  obtain ⟨uri, hu⟩ := hall (sampleAt "http://localhost:7051") (by rfl)
  have href : endpointUri (sampleAt "http://localhost:7051").connection.peerEndpoint = .error (.scheme "http") := by
    rfl
  rw [href] at hu
  cases hu

end Config
end LedgerClient
