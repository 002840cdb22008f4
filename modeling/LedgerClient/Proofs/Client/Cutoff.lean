import LedgerClient.Config.Reader
import LedgerClient.Proofs.Client.KeyValue
import LedgerClient.Proofs.Client.Outline
import LedgerClient.Proofs.Gateway.Cutoff
import LedgerClient.Proofs.Network.Endpoint
/-!
# Settings that cut calls off

Settings that pass the checks may hold a deadline that is too long to be written down for the network.  Whatever is
done with such settings is cut off as soon as a request with this deadline is due, and then it is neither measured nor
reported; with other settings everything ends with a result or an error (`Errand.errand_cutOff_iff`).
-/
namespace LedgerClient

open Accounting (Use)
open Config (Settings)
open Gateway (Fresh Request Session Stage Write networkLimit)
open Invocation (KeyWarning Opened)
open LocalCheck (ready)

/-! ## Sessions whose signer does not count -/

namespace Gateway

variable {α β : Type} {s : Session} {w : Write}

theorem Stage.Passed.renumber (hs : s.SignsAlike) {g : Stage s α β} {m : Nat} {q : Request} {b : β}
    (h : g.Passed m q b) (n : Nat) : g.Passed n q b := by
  obtain ⟨σ, a, hσ, h⟩ := h
  exact ⟨σ, a, by rw [hs n m, hσ], h⟩

/-- What is due does not depend on the signatures before it. -/
theorem Session.Due.renumber (hs : s.SignsAlike) {m : Nat} {op : Operation} {q : Request} (h : s.Due w m op q)
    (n : Nat) : s.Due w n op q := by
  cases h with
  | read hσ => exact .read (by rw [hs n m, hσ])
  | @write done message σ request hr hσ =>
    have hd : s.Reached w n done message request := by
      cases hr with
      | endorse => exact .endorse
      | submit h₁ => exact .submit (h₁.renumber hs n)
      | commitStatus h₁ h₂ => exact .commitStatus (h₁.renumber hs n) (h₂.renumber hs (n + 1))
    exact .write hd (by rw [hs _ (m + done.length), hσ])

end Gateway

/-! ## Calls -/

namespace BridgeCall

variable {b : BridgeCall}

/-- **A request of the call is due**: the call gets a session, and there it is. -/
def Due (b : BridgeCall) (q : Request) : Prop :=
  ∃ s, (∀ t, (Run.after t (ready b.surroundings b.policy b.invocation)).1 = .ok s) ∧ s.Due b.asked 0 b.op q

theorem ready_finished (w : Surroundings) (p : Policy) (i : Invocation) (t : Trace) : ¬ (ready w p i).CutOff t := by
  intro hc
  obtain ⟨u, -, ⟨e, -, h⟩ | ⟨-, s, -, h⟩⟩ := LocalCheck.ready_checks w p i t <;>
  · rw [Run.CutOff, h] at hc
    cases hc

theorem overlong_iff {s : Session} (h : Opened b.surroundings b.policy b.invocation s) (q : Request) :
    s.Overlong q.phase ↔ networkLimit ≤ b.policy.timeouts.phase q.phase := by
  obtain ⟨_, _, _, _, _, _, _, _, rfl⟩ := h
  exact and_iff_right rfl

theorem after_eq_panicked_iff {t : Trace} : (b.after t).1 = .error .panicked ↔ ∃ s u,
    Run.after t (ready b.surroundings b.policy b.invocation) = (.ok s, u) ∧ (s.carryOut b.asked b.op).CutOff u := by
  rw [after_eq, Run.after_observe]
  change Run.CutOff _ t ↔ _
  rw [Run.bind_cutOff_iff, or_iff_right (ready_finished _ _ _ t)]

/-- **A call is cut off exactly when a request is due** whose deadline is too long to be written down. -/
theorem cutOff_iff {t : Trace} : (b.after t).1 = .error .panicked ↔
    ∃ q, b.Due q ∧ networkLimit ≤ b.policy.timeouts.phase q.phase := by
  rw [after_eq_panicked_iff]
  constructor
  · rintro ⟨s, u, hs, h⟩
    have ho := Invocation.ready_ok hs
    obtain ⟨q, hq, hl⟩ := (Session.carryOut_cutOff_iff ho.isOpen).1 h
    refine ⟨q, ⟨s, fun t' => ?_, hq.renumber ho.signsAlike 0⟩, (overlong_iff ho q).1 hl⟩
    rw [Invocation.ready_steady _ _ _ t' t, hs]
  · rintro ⟨q, ⟨s, hs, hq⟩, hl⟩
    have hready : Run.after t (ready b.surroundings b.policy b.invocation) = (.ok s, _) := Prod.ext (hs t) rfl
    have ho := Invocation.ready_ok hready
    exact ⟨s, _, hready, (Session.carryOut_cutOff_iff ho.isOpen).2
      ⟨q, hq.renumber ho.signsAlike _, (overlong_iff ho q).2 hl⟩⟩

/-- **A call that is cut off** is not measured, and has reported nothing but its choice among many keys. -/
theorem silent_of_cutOff {t : Trace} (h : (b.after t).1 = .error .panicked) :
    (b.after t).2.metrics = t.metrics ∧ ∃ keys, KeyWarning b.surroundings b.policy b.invocation keys ∧
      (b.after t).2.events = t.events ++ keys := by
  obtain ⟨s, u, hs, hcut⟩ := after_eq_panicked_iff.1 h
  obtain ⟨keys, hkeys, hready⟩ := Invocation.ready_reports b.surroundings b.policy b.invocation
  -- the account of a call that is cut off is empty, so all of its events come from getting ready
  obtain rfl : u = { t with events := t.events ++ keys } := by rw [← hready, hs]
  obtain ⟨hm, he⟩ := Session.carryOut_silent (Invocation.ready_ok hs).isOpen hcut
  have hafter : (b.after t).2 = (Run.after { t with events := t.events ++ keys } (s.carryOut b.asked b.op)).2 := by
    rw [after_eq, Run.after_observe, Run.after_bind_ok hs]
    rw [Run.CutOff] at hcut
    rw [hcut]
    rfl
  rw [hafter]
  exact ⟨hm, keys, hkeys, he⟩

end BridgeCall

/-! ## Settings -/

theorem Config.Settings.validate_of_parse {text : String} {s : Settings} (h : Settings.parse text = .ok s) :
    s.validate = .ok () := by
  unfold parse at h
  cases hr : read text with
  | error e => rw [hr] at h; cases h
  | ok s' =>
    rw [hr] at h
    dsimp only at h
    cases hv : s'.validate with
    | error ps => rw [hv] at h; cases h
    | ok _ =>
      rw [hv] at h
      cases h
      exact hv

/-- **No deadline of settings that pass the checks is zero.** -/
theorem Config.Settings.phase_pos {s : Settings} (h : s.validate = .ok ()) (p : Phase) : 0 < s.timeouts.phase p := by
  have hpos := (Settings.validate_eq_ok_iff.1 h).2
  simp only [Config.Timeouts.fields, List.forall_mem_cons] at hpos
  cases p <;> simp only [Config.Timeouts.phase] <;> omega

namespace Errand

theorem cutOff_iff_call {s : Settings} {w : Surroundings} {fresh : Fresh} {t : Trace} {e : Errand} :
    (e.after s w fresh t).1 = .error .panicked ↔
      ∃ b, Use.Reaches w fresh (e.point s) false b ∧ (b.after t).1 = .error .panicked := by
  constructor
  · intro h
    by_cases hb : ∃ byHost b, Use.Reaches w fresh (e.point s) byHost b
    · obtain ⟨byHost, b, hb⟩ := hb
      obtain ⟨rfl, -⟩ := call_of_reaches hb
      obtain ⟨-, he | ⟨c, hc, -⟩⟩ := after_of_reaches (t := t) hb
      · exact ⟨b, hb, he.symm.trans h⟩
      · cases hc.symm.trans h
    · rw [after_of_not_reaches fun byHost b h => hb ⟨byHost, b, h⟩] at h
      cases h
  · rintro ⟨b, hb, h⟩
    obtain ⟨-, he | ⟨c, -, hc⟩⟩ := after_of_reaches (t := t) hb
    · exact he.trans h
    · cases hc.symm.trans h

/-- **Settings that are taken from a text cut a call off** exactly when a request is due whose deadline is 360000000000
seconds or more: no deadline is zero, but nothing keeps them from being as long as that.  With settings whose deadlines
are shorter everything ends with a result or an error.  What is cut off is neither measured nor reported as failed. -/
theorem errand_cutOff_iff {text : String} {s : Settings} (h : Settings.parse text = .ok s) (e : Errand)
    (w : Surroundings) (fresh : Fresh) (t : Trace) :
    let ran := e.after s w fresh t
    (∀ p, 0 < s.timeouts.phase p) ∧
    (ran.1 = .error .panicked ↔ ∃ b q, Use.Reaches w fresh (e.point s) false b ∧ b.Due q ∧
      360000000000 ≤ s.timeouts.phase q.phase) ∧
    ((∀ p, s.timeouts.phase p < 360000000000) → ran.1 ≠ .error .panicked) ∧
    (ran.1 = .error .panicked → ran.2.metrics = t.metrics ∧ ∃ b keys, Use.Reaches w fresh (e.point s) false b ∧
      KeyWarning w s.policy b.invocation keys ∧ ran.2.events = t.events ++ keys) := by
  intro ran
  have hcut : ran.1 = .error .panicked ↔ ∃ b q, Use.Reaches w fresh (e.point s) false b ∧ b.Due q ∧
      360000000000 ≤ s.timeouts.phase q.phase := by
    refine cutOff_iff_call.trans (exists_congr fun b => ⟨fun ⟨hb, h⟩ => ?_, fun ⟨q, hb, hq, hl⟩ => ⟨hb, ?_⟩⟩)
    · obtain ⟨q, hq, hl⟩ := BridgeCall.cutOff_iff.1 h
      rw [(call_of_reaches hb).2.2] at hl
      exact ⟨q, hb, hq, hl⟩
    · refine BridgeCall.cutOff_iff.2 ⟨q, hq, ?_⟩
      rw [(call_of_reaches hb).2.2]
      exact hl
  refine ⟨Config.Settings.phase_pos (Config.Settings.validate_of_parse h), hcut, fun hshort hran => ?_, fun hran => ?_⟩
  · obtain ⟨b, q, -, -, hl⟩ := hcut.1 hran
    exact Nat.not_le.2 (hshort q.phase) hl
  · obtain ⟨b, hb, hp⟩ := cutOff_iff_call.1 hran
    obtain ⟨hm, keys, hkeys, he⟩ := BridgeCall.silent_of_cutOff hp
    obtain ⟨-, hw, hpolicy⟩ := call_of_reaches hb
    rw [hpolicy, hw] at hkeys
    have htrace : ran.2 = (b.after t).2 := (after_of_reaches hb).1
    rw [htrace]
    exact ⟨hm, b, keys, hb, hkeys, he⟩

/-! A query that is given 360000000000 seconds. -/

open KeyValue.Sample (canAsk_get ledger identity_eq key_eq)

def overlongText : String :=
  "[connection]\nchannel_name = \"c\"\ncontract_name = \"b\"\ncert_path = \"/cert\"\nkey_path = \"/keys\"\n" ++
    "tls_cert_path = \"/anchor\"\ngateway_peer = \"localhost\"\n[timeouts]\nevaluate_secs = 360000000000\n"

def overlong : Settings where
  connection := KeyValue.Sample.client.profile
  timeouts := { evaluate := 360000000000 }

theorem parse_overlong : Settings.parse overlongText = .ok overlong := by decide +kernel

/-- The call that the query comes to. -/
def overlongCall : BridgeCall :=
  ⟨ledger.around [], overlong.policy, ⟨[2], {}⟩, .read, .ofProfile overlong.connection "get" []⟩

theorem due_overlong : ∃ q, overlongCall.Due q ∧ q.phase = .evaluate := by
  have hnone : LocalCheck.firstError? overlongCall.surroundings overlongCall.policy overlongCall.invocation = none := by
    rw [← Option.isNone_iff_eq_none]
    decide +kernel
  obtain ⟨u, -, ⟨e, he, -⟩ | ⟨-, s, -, hs⟩⟩ :=
    LocalCheck.ready_checks overlongCall.surroundings overlongCall.policy overlongCall.invocation {}
  · cases hnone.symm.trans he
  have hready : ∀ t, (Run.after t (ready _ _ _)).1 = .ok s := fun t => by
    rw [Invocation.ready_steady _ _ _ t {}, hs]
  obtain ⟨τ, d, k, t, _, _, hd, hk, rfl⟩ := Invocation.ready_ok hs
  cases (identity_eq []).symm.trans hd
  cases (key_eq [] t).symm.trans (congrArg Prod.fst hk)
  obtain ⟨σ, hσ⟩ := (canAsk_get []).signs 0
  exact ⟨_, ⟨_, hready, .read hσ⟩, rfl⟩

theorem cutOff_overlong : (overlongCall.after {}).1 = .error .panicked := by
  obtain ⟨q, hq, hp⟩ := due_overlong
  refine BridgeCall.cutOff_iff.2 ⟨q, hq, ?_⟩
  rw [hp]
  exact Nat.le_refl _

theorem errand_cutOff_iff_overlong : Settings.parse overlongText = .ok overlong ∧
    ((Errand.read "get" []).after overlong (ledger.around []) ⟨[2], {}⟩ {}).1 = .error .panicked := by
  refine ⟨parse_overlong, ?_⟩
  obtain ⟨-, hcut, -⟩ := errand_cutOff_iff parse_overlong (.read "get" []) (ledger.around []) ⟨[2], {}⟩ {}
  obtain ⟨q, hq, hp⟩ := due_overlong
  exact hcut.2 ⟨overlongCall, q, .read, hq, by rw [hp]; exact Nat.le_refl _⟩

/-- It is not so that all settings that are taken let everything end. -/
theorem not_always_finished : ¬ ∀ (text : String) (s : Settings) (e : Errand) (w : Surroundings) (fresh : Fresh)
    (t : Trace), Settings.parse text = .ok s → (e.after s w fresh t).1 ≠ .error .panicked := fun hall =>
  hall _ _ (.read "get" []) (ledger.around []) ⟨[2], {}⟩ {} parse_overlong cutOff_overlong

end Errand
end LedgerClient
