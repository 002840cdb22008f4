import LedgerClient.Proofs.Client.Outline
import LedgerClient.Proofs.Network.Endpoint
/-!
# Names that are filled in

A blank name is asked about in six places: once when settings are checked, and then one name at a time where it is
used.  All of them ask the same question, and each gets the name that was checked: with settings that pass the checks
nothing is ever turned down for a blank name, nor for any other input (`Config.Settings.names_pass`).
-/
namespace LedgerClient

open Gateway (Fresh Session Stage Write)
open LocalCheck (ready)

variable {α β : Type}

/-! ## Runs that end with such errors only -/

namespace Run

variable {P : CallError → Prop}

/-- Every error that the run can end with is such an error. -/
def Raises (P : CallError → Prop) (r : Run α) : Prop := ∀ t e, (after t r).1 = .error (.failed e) → P e

theorem raises_pure (a : α) : (pure a : Run α).Raises P := nofun

theorem raises_ofExcept {r : Except CallError α} (h : ∀ e, r = .error e → P e) : (ofExcept r).Raises P := by
  intro t e he
  cases r with
  | ok a => cases he
  | error e' =>
    cases he
    exact h e rfl

/-- **Runs one after the other raise what each of them raises**; of what follows, only what can follow counts. -/
theorem Raises.bind_of {r : Run α} {k : α → Run β} (h : r.Raises P)
    (hk : ∀ t u a, after t r = (.ok a, u) → (k a).Raises P) : (r >>= k).Raises P := by
  intro t e he
  rcases hr : after t r with ⟨x | a, u⟩
  · rw [after_bind_error hr] at he
    cases he
    exact h t e (by rw [hr])
  · rw [after_bind_ok hr] at he
    exact hk t u a hr u e he

theorem Raises.bind {r : Run α} {k : α → Run β} (h : r.Raises P) (hk : ∀ a, (k a).Raises P) : (r >>= k).Raises P :=
  h.bind_of fun _ _ a _ => hk a

theorem Raises.observe {r : Run α} (h : r.Raises P) (k : Except Stop α → Run Unit) : (observe r k).Raises P :=
  fun t e he => h t e (by rwa [after_observe] at he)

theorem Raises.not_raised {r : Run α} (h : r.Raises fun e => ¬ P e) {e : CallError} (he : P e) (t : Trace) :
    (after t r).1 ≠ .error (.failed e) :=
  fun hr => h t e hr he

end Run

/-! ## Sessions -/

namespace Gateway

variable {s : Session} {P : CallError → Prop}

/-- **A stage raises its signer's errors and those of its phase.** -/
theorem Stage.run_raises {g : Stage s α β} (hs : ∀ n d e, s.signer n d = .error e → P e)
    (hp : ∀ e, e.phase? ≠ none → P e) (hl : ∀ a e, g.look a = .error e → e.phase? ≠ none) : g.run.Raises P := by
  intro t e he
  have h : g.Ends t (.error (.failed e)) (Run.after t g.run).2 := .of_run (Prod.ext he rfl)
  obtain hσ | ⟨σ, hf⟩ | ⟨a, ha⟩ := h.of_error ""
  · exact hs _ _ _ hσ
  · exact hp e (by rw [hf.phase]; exact nofun)
  · exact hp e (hl a e ha)

namespace Session

/-- **An open session raises its signer's errors and those of the phases**, in a write and in a query. -/
theorem submit_raises (ho : s.isOpen = true) (hs : ∀ n d e, s.signer n d = .error e → P e)
    (hp : ∀ e, e.phase? ≠ none → P e) (w : Write) :
    (s.submitTransaction w.fresh w.channel w.chaincode w.function w.payload).Raises P := by
  rw [submit_eq_stages w ho]
  refine (Stage.run_raises hs hp fun a e h => ?_).bind fun v => ?_
  · rw [phase?_of_prepared h]
    exact nofun
  refine (Stage.run_raises hs hp fun a e h => ?_).bind fun _ => ?_
  · cases h
  refine Stage.run_raises hs hp fun a e h => ?_
  rw [phase?_of_committed h]
  exact nofun

theorem evaluate_raises (ho : s.isOpen = true) (hs : ∀ n d e, s.signer n d = .error e → P e)
    (hp : ∀ e, e.phase? ≠ none → P e) (w : Write) :
    (s.evaluateTransaction w.fresh w.channel w.chaincode w.function w.payload).Raises P := by
  rw [evaluate_eq_stage w ho]
  refine Stage.run_raises hs hp fun a e h => ?_
  rw [phase?_of_answered h]
  exact nofun

end Session
end Gateway

/-! ## Calls with all names filled in -/

/-- **The errors that turn input down**: a name without which there is nobody to ask, or anything else that a call was
given. -/
inductive CallError.TurnsDown : CallError → Prop
  | input (c : InputCause) : TurnsDown (.invalidInput c)
  | mspId : TurnsDown (.identity .blankMsp)
  | endpoint : TurnsDown (.connection .blankEndpoint)
  | peerName : TurnsDown (.connection .blankServerName)

theorem CallError.OfFiles.not_turnsDown {e : CallError} (h : e.OfFiles) : ¬ e.TurnsDown := by
  cases h <;> nofun

theorem CallError.not_turnsDown_of_phase {e : CallError} (h : e.phase? ≠ none) : ¬ e.TurnsDown := by
  rintro (_ | _ | _ | _) <;> exact h rfl

namespace Invocation

variable {w : Surroundings} {p : Policy} {i : Invocation}

/-- No name of the call is blank. -/
structure Filled (i : Invocation) : Prop where
  network : ¬ IsBlank i.network
  contract : ¬ IsBlank i.contract
  mspId : ¬ IsBlank i.mspId
  endpoint : ¬ IsBlank i.endpoint
  peerName : ¬ IsBlank i.peerName

/-- **Each name of a call is the one that was checked.** -/
theorem filled_ofProfile {s : Config.Settings} (h : s.validate = .ok ()) (function : String) (payload : List UInt8) :
    (ofProfile s.connection function payload).Filled := by
  have hf := (Config.Settings.validate_eq_ok_iff.1 h).1.1
  simp only [Config.Profile.fields, List.forall_mem_cons] at hf
  obtain ⟨hchannel, hcontract, hmsp, -, -, -, hendpoint, hpeer, -⟩ := hf
  exact ⟨hchannel, hcontract, hmsp, hendpoint, hpeer⟩

namespace Filled

open LocalCheck (error?)

/-- The checks that ask for nothing but a name. -/
theorem error?_eq_none (h : i.Filled) {c : LocalCheck} (hc : c ∈ [.peerName, .mspId, .network, .contract]) :
    error? w p i c = none := by
  simp only [List.mem_cons, List.not_mem_nil, or_false] at hc
  rcases hc with rfl | rfl | rfl | rfl
  · exact if_neg h.peerName
  · exact if_neg h.mspId
  · simp only [error?, Session.checkNetwork, if_neg h.network, refusal]
  · simp only [error?, Session.checkContract, if_neg h.contract, refusal]

theorem endpointUri_ne (h : i.Filled) : Network.endpointUri i.endpoint ≠ .error .blankEndpoint := by
  intro hu
  obtain ⟨_, _, _, _, hc⟩ := (Network.endpointUri_eq_error_iff h.endpoint).1 hu
  cases hc

/-- **What can still be wrong** with a call whose names are filled in is none of its names. -/
theorem not_turnsDown (h : i.Filled) {c : LocalCheck} {e : CallError} (he : error? w p i c = some e) :
    ¬ e.TurnsDown := by
  cases c with
  | anchor | certificate | key => exact (LocalCheck.ofFiles_of_error? (by simp) he).not_turnsDown
  | peerName | mspId | network | contract =>
    rw [h.error?_eq_none (by simp)] at he
    cases he
  | endpoint =>
    simp only [error?] at he
    cases hu : Network.endpointUri i.endpoint with
    | ok uri => rw [hu] at he; cases he
    | error c =>
      rw [hu] at he
      cases he
      obtain ⟨_, _, _, _, rfl⟩ := (Network.endpointUri_eq_error_iff h.endpoint).1 hu
      rintro ⟨⟩
  | target =>
    simp only [error?] at he
    split at he
    · cases he
    · split at he
      · cases he
        rintro ⟨⟩
      · split at he <;> cases he
        rintro ⟨⟩

theorem ready_raises (h : i.Filled) : (ready w p i).Raises fun e => ¬ e.TurnsDown := by
  intro t e he
  obtain ⟨u, -, ⟨e', he', hr⟩ | ⟨-, s, -, hr⟩⟩ := LocalCheck.ready_checks w p i t <;> rw [hr] at he
  · cases he
    obtain ⟨c, _, hc⟩ := List.exists_of_findSome?_eq_some he'
    exact h.not_turnsDown hc
  · cases he

theorem signer_not_turnsDown {s : Session} (h : Opened w p i s) (n : Nat) (d : List UInt8) (e : CallError)
    (he : s.signer n d = .error e) : ¬ e.TurnsDown := by
  obtain ⟨_, _, k, _, _, _, _, _, rfl⟩ := h
  change SigningKey.sign k d = .error e at he
  unfold SigningKey.sign at he
  split at he <;> cases he
  exact nofun

/-- **A call whose names are filled in** is never turned down for what it was given. -/
theorem write_raises (h : i.Filled) (fresh : Fresh) : (i.write w p fresh).Raises fun e => ¬ e.TurnsDown := by
  rw [write_eq]
  refine (h.ready_raises.bind_of fun t u s hs => ?_).observe _
  have hopened := ready_ok hs
  exact Session.submit_raises hopened.isOpen (signer_not_turnsDown hopened)
    (fun e he => CallError.not_turnsDown_of_phase he) ⟨fresh, i.network, i.contract, i.function, i.payload⟩

theorem read_raises (h : i.Filled) (fresh : Fresh) : (i.read w p fresh).Raises fun e => ¬ e.TurnsDown := by
  rw [read_eq]
  refine (h.ready_raises.bind_of fun t u s hs => ?_).observe _
  have hopened := ready_ok hs
  exact Session.evaluate_raises hopened.isOpen (signer_not_turnsDown hopened)
    (fun e he => CallError.not_turnsDown_of_phase he) ⟨fresh, i.network, i.contract, i.function, i.payload⟩

end Filled
end Invocation

/-! ## Settings that pass the checks -/

/-- What cannot be read from an answer is an error about what was read. -/
theorem raises_parse {r : Except ParseCause α} :
    (Run.ofExcept (r.mapError .parse)).Raises fun e => ¬ e.TurnsDown := by
  refine Run.raises_ofExcept fun e he => ?_
  cases r <;> cases he
  exact nofun

namespace Config

open KeyValue (ByteMap Bytes Client)

/-- **Settings that pass the checks are never turned down for a name.**  The checks of single names have nothing left
to find, and whatever the settings are used for, by whomever and with whatever deadlines and rule for keys, does not
end with an error about its input, the organisation, the endpoint or the name of the peer being left out. -/
theorem Settings.names_pass {s : Settings} (h : s.validate = .ok ()) (w : Surroundings) (p : Policy) (fresh : Fresh)
    (t : Trace) :
    (∀ function payload,
      let i := Invocation.ofProfile s.connection function payload
      (∀ c ∈ [.peerName, .mspId, .network, .contract], LocalCheck.error? w p i c = none) ∧
        Network.endpointUri i.endpoint ≠ .error .blankEndpoint) ∧
    ∀ e : CallError, e.TurnsDown →
      (∀ function payload,
        let i := Invocation.ofProfile s.connection function payload
        (Run.after t (i.write w p fresh)).1 ≠ .error (.failed e) ∧
          (Run.after t (i.read w p fresh)).1 ≠ .error (.failed e)) ∧
      let client : Client := ⟨s.connection, p⟩
      (∀ batch, (Run.after t (client.put w fresh batch)).1 ≠ .error (.failed e)) ∧
        (∀ key, (Run.after t (client.get w fresh key)).1 ≠ .error (.failed e)) ∧
        (Run.after t (client.getAll w fresh)).1 ≠ .error (.failed e) ∧
        ∀ key, (Run.after t (client.remove w fresh key)).1 ≠ .error (.failed e) := by
  have hfilled := Invocation.filled_ofProfile h
  refine ⟨fun function payload => ⟨fun c hc => (hfilled function payload).error?_eq_none hc,
    (hfilled function payload).endpointUri_ne⟩, fun e he => ⟨fun function payload =>
      ⟨((hfilled function payload).write_raises fresh).not_raised he t,
        ((hfilled function payload).read_raises fresh).not_raised he t⟩, ?_⟩⟩
  intro client
  have hsubmit : ∀ function payload, (client.submit w fresh function payload).Raises fun e => ¬ e.TurnsDown :=
    fun function payload => ((hfilled function payload).write_raises fresh).bind fun _ => Run.raises_pure ()
  have hevaluate : ∀ function payload, (client.evaluate w fresh function payload).Raises fun e => ¬ e.TurnsDown :=
    fun function payload => (hfilled function payload).read_raises fresh
  refine ⟨fun batch => Run.Raises.not_raised ?_ he t,
    fun key => ((hevaluate _ _).bind fun _ => raises_parse).not_raised he t,
    ((hevaluate _ _).bind fun _ => raises_parse).not_raised he t, fun key => (hsubmit _ _).not_raised he t⟩
  unfold Client.put
  split
  · exact Run.raises_pure ()
  · exact hsubmit _ _

/-- The default names with all paths filled in, where nothing is found. -/
theorem Settings.names_pass_sample : (sampleAt "localhost:7051").validate = .ok () ∧
    (Run.after {} ((Invocation.ofProfile (sampleAt "localhost:7051").connection "f" []).read Accounting.nowhere {}
      ⟨[], {}⟩)).1 ≠ .error (.failed (.identity .blankMsp)) ∧
    (Run.after {} ((⟨(sampleAt "localhost:7051").connection, {}⟩ : Client).getAll Accounting.nowhere ⟨[], {}⟩)).1 ≠
      .error (.failed (.invalidInput .blankContract)) := by
  have hv : (sampleAt "localhost:7051").validate = .ok () := by rfl
  have h := (names_pass hv Accounting.nowhere {} ⟨[], {}⟩ {}).2
  exact ⟨hv, ((h _ .mspId).1 "f" []).2, (h _ (.input .blankContract)).2.2.2.1⟩

end Config
end LedgerClient
