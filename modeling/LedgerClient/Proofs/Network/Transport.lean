import LedgerClient.Proofs.Network.Endpoint
import LedgerClient.Proofs.Text.Blank
import Mathlib.Data.List.Infix
/-!
# Transports go to secure addresses only

An endpoint is taken as the address that it is, if it begins with `https`, and as the address that it lacks the scheme
of, if it has none (`endpointUri_eq_ok_iff`).  Either way the first scheme of the address is `https` and there are no
blanks around it (`Secure`), so that the address is itself taken as it is, and whoever connects connects to such an
address (`Transport.connect_secure`).
-/
namespace LedgerClient.Network

open Text (SplitsFirst schemeMark)

variable {e : String} {u : List Char}

/-! ## Addresses -/

/-- The first scheme is `https`, and no blanks stand around the address. -/
structure Secure (u : List Char) : Prop where
  scheme : ∃ b, SplitsFirst schemeMark u secure b
  bare : Bare u

theorem Secure.starts (h : Secure u) : ∃ b, u = secure ++ schemeMark ++ b := by
  obtain ⟨b, hb⟩ := h.scheme
  exact ⟨b, hb.1⟩

theorem splitsFirst_secure (t : List Char) : SplitsFirst schemeMark (secure ++ schemeMark ++ t) secure t :=
  Text.splitsFirst_of_not_mem (by decide)

/-- The address of an endpoint: the endpoint, or the endpoint after the scheme that it lacks. -/
inductive Addressed (e : String) : List Char → Prop where
  | whole {b : List Char} (h : SplitsFirst schemeMark (trim e.toList) secure b) : Addressed e (trim e.toList)
  | lacking (hb : ¬ IsBlank e) (h : ¬ schemeMark <:+: trim e.toList) :
      Addressed e (secure ++ schemeMark ++ trim e.toList)

theorem not_isBlank_of_splitsFirst {a b : List Char} (h : SplitsFirst schemeMark (trim e.toList) a b) : ¬ IsBlank e := by
  intro hb
  have hnil := h.1
  rw [trim_eq_nil_iff.2 hb] at hnil
  simp [schemeMark] at hnil

theorem Addressed.not_isBlank (h : Addressed e u) : ¬ IsBlank e := by
  cases h with
  | whole hs => exact not_isBlank_of_splitsFirst hs
  | lacking hb _ => exact hb

/-- **Which endpoints are taken**, and as which address. -/
theorem endpointUri_eq_ok_iff : endpointUri e = .ok u ↔ Addressed e u := by
  have hmark : schemeMark ≠ [] := by decide
  constructor
  · intro h
    rw [endpointUri] at h
    split at h
    · cases h
    rename_i hne
    have hb : ¬ IsBlank e := fun hb => hne (by rw [trim_eq_nil_iff.2 hb]; rfl)
    split at h
    · rename_i hs
      cases h
      exact .lacking hb ((Text.splitFirst?_eq_none_iff hmark).1 hs)
    · rename_i a b hs
      split at h
      · rename_i ha
        cases h
        subst ha
        exact .whole ((Text.splitFirst?_eq_some_iff hmark).1 hs)
      · cases h
  · intro h
    have hne : (trim e.toList).isEmpty = false := by
      rw [List.isEmpty_eq_false_iff]
      intro hnil
      exact h.not_isBlank (trim_eq_nil_iff.1 hnil)
    rw [endpointUri]
    simp only [hne, Bool.false_eq_true, if_false]
    cases h with
    | whole hs => simp only [(Text.splitFirst?_eq_some_iff hmark).2 hs, if_true]
    | lacking _ hs => simp only [(Text.splitFirst?_eq_none_iff hmark).2 hs]

theorem Addressed.secure (h : Addressed e u) : Secure u := by
  cases h with
  | whole hs => exact ⟨⟨_, hs⟩, bare_trim _⟩
  | lacking hb _ =>
    refine ⟨⟨_, splitsFirst_secure _⟩, fun c hc => ?_, fun c hc => ?_⟩
    · cases hc
      decide
    · have hne : trim e.toList ≠ [] := fun hnil => hb (trim_eq_nil_iff.1 hnil)
      rw [List.getLast?_append_of_ne_nil _ hne] at hc
      exact (bare_trim _).last c hc

/-- **A secure address is taken as it is.** -/
theorem Secure.endpointUri_eq (h : Secure u) : endpointUri (String.ofList u) = .ok u := by
  obtain ⟨b, hb⟩ := h.scheme
  have htrim : trim (String.ofList u).toList = u := by rw [String.toList_ofList, h.bare.trim_eq]
  have haddressed : Addressed (String.ofList u) (trim (String.ofList u).toList) := .whole (by rw [htrim]; exact hb)
  rw [htrim] at haddressed
  exact endpointUri_eq_ok_iff.2 haddressed

/-! ## Transports -/

/-- A transport goes to the address of its endpoint. -/
theorem Transport.of_connect {anchor : Certificate} {peerName : String} {τ : Transport}
    (h : connect anchor e peerName = .ok τ) : ∃ u, endpointUri e = .ok u ∧ τ.endpoint = String.ofList u := by
  rw [connect, checkTarget] at h
  cases hu : endpointUri e with
  | error c =>
    rw [hu] at h
    cases h
  | ok u =>
    rw [hu] at h
    dsimp only at h
    split_ifs at h
    cases h
    exact ⟨u, rfl, rfl⟩

theorem Addressed.ofList_eq (h : Addressed e u) :
    String.ofList u = (if schemeMark <:+: trim e.toList then "" else "https://") ++ trimmed e := by
  rw [← String.toList_inj, String.toList_append, trimmed, String.toList_ofList, String.toList_ofList]
  cases h with
  | whole hs =>
    rw [if_pos ⟨_, _, hs.1.symm⟩]
    rfl
  | lacking _ hs =>
    rw [if_neg hs]
    rfl

/-- **A transport goes to a secure address.**  It is the endpoint without the blanks around it, behind `https` if it
has no scheme; as an endpoint it is taken as it is.  Whatever has another scheme than `https` is refused. -/
theorem Transport.connect_secure (e : String) :
    (∀ anchor peerName τ, connect anchor e peerName = .ok τ →
      (∃ rest, τ.endpoint = "https://" ++ rest) ∧
        τ.endpoint = (if "://".toList <:+: trim e.toList then "" else "https://") ++ trimmed e) ∧
    (∀ u, endpointUri e = .ok u → endpointUri (String.ofList u) = .ok u) ∧
    ∀ a b, SplitsFirst "://".toList (trim e.toList) a b → a ≠ "https".toList →
      endpointUri e = .error (.scheme (String.ofList a)) ∧
        ∀ anchor peerName, connect anchor e peerName = .error (.connection (.scheme (String.ofList a))) := by
  refine ⟨fun anchor peerName τ h => ?_, fun u h => ?_, fun a b hs ha => ?_⟩
  · obtain ⟨u, hu, hτ⟩ := of_connect h
    have haddressed := endpointUri_eq_ok_iff.1 hu
    obtain ⟨rest, hrest⟩ := haddressed.secure.starts
    refine ⟨⟨String.ofList rest, ?_⟩, hτ.trans haddressed.ofList_eq⟩
    rw [hτ, hrest, String.ofList_append]
    rfl
  · exact (endpointUri_eq_ok_iff.1 h).secure.endpointUri_eq
  · have hrefused : endpointUri e = .error (.scheme (String.ofList a)) :=
      (endpointUri_eq_error_iff (not_isBlank_of_splitsFirst hs)).2 ⟨a, b, hs, ha, rfl⟩
    exact ⟨hrefused, fun anchor peerName => connect_of_endpointUri_eq_error hrefused anchor peerName⟩

/-- A host among blanks, the address that it gets, and a scheme that is `https` in capitals only. -/
theorem Transport.connect_secure_host :
    (∀ anchor, ∃ τ, connect anchor " localhost:7051\n" "localhost" = .ok τ ∧ τ.endpoint = "https://localhost:7051") ∧
    endpointUri "https://localhost:7051" = .ok "https://localhost:7051".toList ∧
    ∀ anchor peerName, connect anchor "HTTPS://localhost" peerName = .error (.connection (.scheme "HTTPS")) := by
  refine ⟨fun anchor => ?_, ?_, ?_⟩
  · have hcheck : checkTarget " localhost:7051\n" "localhost" = .ok "https://localhost:7051" := by decide +kernel
    have hmark : ¬ "://".toList <:+: trim " localhost:7051\n".toList := by decide +kernel
    have hτ : connect anchor " localhost:7051\n" "localhost" = .ok ⟨"https://localhost:7051", "localhost", anchor, true⟩ := by
      rw [connect, hcheck]
    refine ⟨_, hτ, ?_⟩
    rw [((connect_secure " localhost:7051\n").1 anchor "localhost" _ hτ).2, if_neg hmark]
    rfl
  · exact (connect_secure "localhost:7051").2.1 "https://localhost:7051".toList (by rfl)
  · have hs : SplitsFirst "://".toList (trim "HTTPS://localhost".toList) "HTTPS".toList "localhost".toList :=
      Text.splitsFirst_of_eq_some (by decide +kernel)
    exact ((connect_secure "HTTPS://localhost").2.2 _ _ hs (by decide)).2

end LedgerClient.Network
