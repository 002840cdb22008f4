import LedgerClient.Proofs.Client.KeyValue
import LedgerClient.Proofs.Client.Outline
import LedgerClient.Proofs.Gateway.Pace
/-!
# The deadlines of all calls

However a call is made, each of its requests is given the seconds of its own phase and has its own time with the peer
(`BridgeCall.after_inOwnTime`).  These seconds travel with it: what the peer reads is never more than what is waited
for, and falls short of it by less than the unit it is written in (`Use.deadlines_travel`).
-/
namespace LedgerClient

/-! ## Sessions -/

namespace Gateway

/-- **The requests have each their own time with the peer**: only the last can be answered too late, and a timeout of
its phase is the end exactly if a request is, or the peer says so. -/
structure Peer.InTime (p : Peer) (calls : List Call) (x : Except Stop Unit) : Prop where
  in_time : ∀ c ∈ calls.dropLast, (p.reply c.request).delayMs ≤ c.deadline * 1000
  cut_off : ∀ c ∈ calls, x = .error (.failed (.timeout c.request.phase c.deadline)) ↔
    c.deadline * 1000 < (p.reply c.request).delayMs ∨
      ∃ text, (p.reply c.request).answer = .refused .deadlineExceeded text

namespace Session

variable {s : Session}

theorem InOwnTime.peer {calls : List Call} {x : Except Stop Unit} (h : s.InOwnTime calls x fun _ => False) :
    s.peer.InTime calls x := by
  have hd : ∀ c ∈ calls, c.deadline = s.timeouts.phase c.request.phase := fun c hc => by
    rw [(h.sent c hc).1]
    rfl
  refine ⟨fun c hc => ?_, fun c hc => ?_⟩
  · rw [hd c (List.dropLast_subset _ hc)]
    exact Nat.not_lt.1 (h.in_time c hc)
  · have hcut := h.cut_off c hc
    rw [and_iff_left not_false] at hcut
    rw [hcut, hd c hc]
    rfl

/-- **The calls of a session have each their own time**, if its signer makes up no timeouts. -/
theorem carryOut_inOwnTime (hs : s.SignsPhaseless) (w : Write) (op : Operation) (t : Trace) :
    let ran := Run.after t (s.carryOut w op)
    ∃ calls, ran.2.calls = t.calls ++ calls ∧ s.InOwnTime calls ran.1 fun _ => False := by
  intro ran
  cases op with
  | read =>
    obtain ⟨calls, hcalls, h⟩ := evaluate_inOwnTime (s := s) (w := w) (t := t) rfl
    simp only [ran, carryOut, Run.after_discard]
    exact ⟨calls, hcalls, h.map _ fun _ _ => .rfl⟩
  | write =>
    have hcourse : s.Course w t _ _ := course_of_submit rfl
    obtain ⟨calls, hcalls, h⟩ := hcourse.inOwnTime
    simp only [ran, carryOut, Run.after_discard]
    refine ⟨calls, hcalls, h.map _ fun p secs => ⟨False.elim, ?_⟩⟩
    rintro ⟨_, _, _, _, hσ⟩
    cases hs _ _ _ hσ

/-- What goes with a call through a network is the text of its deadline. -/
theorem conveys_sent {q : Request} (hn : s.link = .network) (hs : s.Sendable q) :
    ∃ text d, (s.sent q).timeout = some text ∧ WireDeadline.Conveys d text (s.deadline q) := by
  obtain ⟨d, hd⟩ := Option.isSome_iff_exists.1 (WireDeadline.ofSeconds?_isSome_iff.2 (hs hn))
  refine ⟨d.render, d, ?_, WireDeadline.conveys_render hd⟩
  rw [sent, timeout?, hn, hd]
  rfl

end Session
end Gateway

/-! ## Calls -/

namespace BridgeCall

open Invocation (Opened)
open LocalCheck (ready)

/-- **A call sends nothing, or what its session sends**, in its own time. -/
theorem after_inOwnTime (b : BridgeCall) (t : Trace) : ∃ calls, (b.after t).2.calls = t.calls ++ calls ∧
    (calls = [] ∨ ∃ s, Opened b.surroundings b.policy b.invocation s ∧
      s.InOwnTime calls (b.after t).1 fun _ => False) := by
  rw [after_eq]
  obtain ⟨u, hu, ⟨e, -, h⟩ | ⟨-, s, -, h⟩⟩ := LocalCheck.ready_checks b.surroundings b.policy b.invocation t
  · obtain ⟨-, hcalls⟩ := Invocation.after_not_ready (k := fun s => s.carryOut b.asked b.op) rfl h
    exact ⟨[], by rw [hcalls, hu, List.append_nil], .inl rfl⟩
  · obtain ⟨hend, hcalls⟩ := Invocation.after_ready (k := fun s => s.carryOut b.asked b.op) rfl h
    have hopened := Invocation.ready_ok h
    obtain ⟨calls, hsent, hin⟩ := Gateway.Session.carryOut_inOwnTime hopened.signsPhaseless b.asked b.op u
    rw [hend, hcalls, ← hu]
    exact ⟨calls, hsent, .inr ⟨s, hopened, hin⟩⟩

end BridgeCall

/-! ## Uses -/

namespace Accounting.Use

open Gateway (WireDeadline)

/-- **Deadlines travel with their calls, and are kept.**  However a call is made, each request that is sent has the
seconds of its own phase, and a text goes with it that conveys them.  These are the seconds that are waited for: only
the last of the requests can take longer, and the call ends with a timeout of a request's phase exactly if that request
does, or the peer says so. -/
theorem deadlines_travel (u : Use) (t : Trace) :
    let T := u.point.policy.timeouts
    ∃ calls, (u.after t).calls = t.calls ++ calls ∧
      (∀ c ∈ calls,
        c.deadline = (match c.request with
          | .endorse _ => T.endorse
          | .submit _ => T.submit
          | .commitStatus _ => T.commitStatus
          | .evaluate _ => T.evaluate) ∧
        ∃ text d, c.timeout = some text ∧ WireDeadline.Conveys d text c.deadline) ∧
      (calls ≠ [] → ∃ byHost b τ, Use.Reaches u.surroundings u.fresh u.point byHost b ∧
        b.invocation.transport u.surroundings = .ok τ ∧
        (u.surroundings.reach τ).InTime calls (b.after t).1) := by
  intro T
  rcases u.reaches_or with ⟨byHost, b, hb⟩ | ⟨c, hc⟩ | ⟨a, c, ha, hr⟩
  · have hu : u.after t = noted byHost b.op (b.after t) := after_of_reaches hb t
    have hpolicy : T = b.policy.timeouts := by rw [hb.policy]
    have hw := hb.surroundings
    obtain ⟨calls, hcalls, rfl | ⟨s, hs, hin⟩⟩ := b.after_inOwnTime t
    · exact ⟨[], by rw [hu]; exact hcalls, nofun, fun h => absurd rfl h⟩
    obtain ⟨τ, d, k, _, _, hτ, -, -, rfl⟩ := hs
    refine ⟨calls, by rw [hu]; exact hcalls, fun c hc => ?_, fun _ => ⟨byHost, b, τ, hb, hw ▸ hτ, hw ▸ hin.peer⟩⟩
    obtain ⟨hsent, hsend⟩ := hin.sent c hc
    rw [hsent, hpolicy]
    refine ⟨?_, Gateway.Session.conveys_sent rfl hsend⟩
    cases c.request <;> rfl
  · rw [after_of_nothing hc]
    exact ⟨[], (List.append_nil _).symm, nofun, fun h => absurd rfl h⟩
  · rw [after_of_refused ha hr]
    exact ⟨[], (List.append_nil _).symm, nofun, fun h => absurd rfl h⟩

/-! A client that asks its ledger for a key. -/

open KeyValue.Sample (canAsk_get client ledger opens serves)

def asking : Use := ⟨ledger.around [], ⟨[2], {}⟩, .get client []⟩

theorem calls_asking : ∃ c q, (asking.after {}).calls = [c] ∧ c.request = .evaluate q := by
  obtain ⟨s, u, hs, ho, hu, -, hcalls⟩ :=
    KeyValue.exists_session (serves.checked [] "get" []) (Invocation.read_eq ⟨[2], {}⟩)
  have hask := canAsk_get []
  rw [← opens hs] at hask
  rcases hrun : Run.after u (s.evaluateTransaction ⟨[2], {}⟩ client.profile.channelName client.profile.contractName
    "get" []) with ⟨x, v⟩
  obtain ⟨tx, p, -, hanswer⟩ := Gateway.Session.evaluate_answered (w := client.asking ⟨[2], {}⟩ "get" []) ho
    (serves.runs [] s hs).heard hask hrun
  rw [opens hs] at hanswer
  obtain ⟨-, hv⟩ := hanswer _ rfl
  rw [hu, List.nil_append] at hv
  have hafter := after_of_reaches (@Reaches.get (ledger.around []) ⟨[2], {}⟩ client []) {}
  have hkey : Utf8.encode (Hex.encode []) = [] := rfl
  rw [noted_false, BridgeCall.after, endAfter_snd, hkey] at hafter
  dsimp only at hafter
  have hsent := hcalls.trans ((congrArg (fun z => z.2.calls) hrun).trans hv)
  exact ⟨_, _, (congrArg Trace.calls hafter).trans hsent, rfl⟩

theorem deadlines_travel_asking : ∃ q text d, (asking.after {}).calls = [⟨.evaluate q, 5, some text⟩] ∧
    WireDeadline.Conveys d text 5 ∧ ∃ byHost b τ, Use.Reaches asking.surroundings asking.fresh asking.point byHost b ∧
      (asking.surroundings.reach τ).InTime [⟨.evaluate q, 5, some text⟩] (b.after {}).1 := by
  obtain ⟨calls, hcalls, hall, hin⟩ := asking.deadlines_travel {}
  obtain ⟨⟨q, secs, timeout⟩, q', hc, rfl⟩ := calls_asking
  obtain rfl := hcalls.symm.trans hc
  obtain ⟨hsecs, text, d, htext, hd⟩ := hall _ List.mem_cons_self
  obtain ⟨byHost, b, τ, hb, -, hin⟩ := hin (List.cons_ne_nil _ _)
  obtain rfl : secs = 5 := hsecs
  obtain rfl : timeout = some text := htext
  exact ⟨q', text, d, hc, hd, byHost, b, τ, hb, hin⟩

end Accounting.Use
end LedgerClient
