import LedgerClient.Proofs.Client.KeyValue
import LedgerClient.Proofs.Text.Blank
import LedgerClient.Proofs.Text.Digits
/-!
# Which values are read

A value is read from text with its digits, capitals or not, with blanks around them or not.  All other bytes are
refused, for they are no text, or else for what is wrong with the digits (`decodeValue_exact`); so a client gets a value
from whatever brings its digits.
-/
namespace LedgerClient.KeyValue

open Gateway (Fresh Session)

variable {raw v : Bytes}

/-- The digits of `v`, capitals or not, between blanks. -/
inductive Pads (raw v : Bytes) : Prop where
  | intro {pre ds post : List Char} (hpre : ∀ c ∈ pre, isBlank c = true) (hpost : ∀ c ∈ post, isBlank c = true)
      (hds : ds.map Char.toLower = Hex.encode v) (hraw : utf8 (String.ofList (pre ++ ds ++ post)) = raw)

/-- What is wrong with a value. -/
inductive ValueFault (raw : Bytes) : ParseCause → Prop where
  | notText {f : Utf8.Fault} (h : ∀ t, utf8 t ≠ raw) (hf : Utf8.decode raw = .error f) : ValueFault raw (.valueNotText f)
  | notHex {t : String} {f : Hex.Fault} (ht : utf8 t = raw) (hf : Hex.Faulty (Utf8.encode (trim t.toList)) f) :
      ValueFault raw (.valueNotHex f)

/-! ## Values -/

section Results

variable {α ε ε' : Type} {x : Except ε α} {f : ε → ε'}

theorem mapError_eq_ok_iff {a : α} : x.mapError f = .ok a ↔ x = .ok a := by
  cases x <;> simp [Except.mapError]

theorem mapError_eq_error_iff {e : ε'} : x.mapError f = .error e ↔ ∃ c, x = .error c ∧ e = f c := by
  cases x <;> simp [Except.mapError, eq_comm]

end Results

theorem decodeValue_utf8 (t : String) :
    decodeValue (utf8 t) = (Hex.decode (Utf8.encode (trim t.toList))).mapError .valueNotHex := by
  rw [decodeValue, utf8, Utf8.decode_encode]
  dsimp only
  cases Hex.decode (Utf8.encode (trim t.toList)) <;> rfl

theorem decodeValue_of_not_text {f : Utf8.Fault} (hf : Utf8.decode raw = .error f) :
    decodeValue raw = .error (.valueNotText f) := by
  rw [decodeValue, hf]

/-- Bytes are text, or reading them as text fails. -/
theorem text_or_fault (raw : Bytes) : (∃ t, utf8 t = raw) ∨ ∃ f, (∀ t, utf8 t ≠ raw) ∧ Utf8.decode raw = .error f := by
  cases hd : Utf8.decode raw with
  | ok cs =>
    have hcs := Utf8.decode_eq_ok_iff.1 hd
    refine .inl ⟨String.ofList cs, ?_⟩
    rw [utf8, String.toList_ofList, hcs]
  | error f =>
    refine .inr ⟨f, ?_, rfl⟩
    rintro t rfl
    rw [utf8, Utf8.decode_encode] at hd
    cases hd

theorem decodeValue_eq_ok_iff :
    decodeValue raw = .ok v ↔ ∃ t, utf8 t = raw ∧ (trim t.toList).map Char.toLower = Hex.encode v := by
  have htext : ∀ t, decodeValue (utf8 t) = .ok v ↔ (trim t.toList).map Char.toLower = Hex.encode v := by
    intro t
    rw [decodeValue_utf8, mapError_eq_ok_iff, Hex.decode_eq_ok_iff, Hex.spells_iff_toLower]
  constructor
  · intro h
    obtain ⟨t, rfl⟩ | ⟨f, -, hf⟩ := text_or_fault raw
    · exact ⟨t, rfl, (htext t).1 h⟩
    · rw [decodeValue_of_not_text hf] at h
      cases h
  · rintro ⟨t, rfl, h⟩
    exact (htext t).2 h

theorem decodeValue_eq_error_iff {c : ParseCause} : decodeValue raw = .error c ↔ ValueFault raw c := by
  constructor
  · intro h
    obtain ⟨t, rfl⟩ | ⟨f, hnot, hf⟩ := text_or_fault raw
    · rw [decodeValue_utf8, mapError_eq_error_iff] at h
      obtain ⟨f, hf, rfl⟩ := h
      exact .notHex rfl (Hex.decode_eq_error_iff.1 hf)
    · rw [decodeValue_of_not_text hf] at h
      cases h
      exact .notText hnot hf
  · rintro (⟨-, hf⟩ | ⟨rfl, hf⟩)
    · exact decodeValue_of_not_text hf
    · rw [decodeValue_utf8, hf.decode_eq]
      rfl

/-- **Neither capitals nor blanks around the digits matter.** -/
theorem Pads.decodeValue_eq (h : Pads raw v) : decodeValue raw = .ok v := by
  obtain ⟨hpre, hpost, hds, rfl⟩ := h
  refine decodeValue_eq_ok_iff.2 ⟨_, rfl, ?_⟩
  rw [String.toList_ofList, Trims.trim_eq ⟨bare_of_forall fun c hc => ?_, _, _, rfl, hpre, hpost⟩]
  · exact hds
  · exact (Hex.isDigit_of_toLower hds c hc).not_blank

/-! ## Clients -/

section Clients

variable {c : Client} {w : Surroundings} {fresh : Fresh} {key : Bytes}

theorem Client.after_get {t u : Trace}
    (h : Run.after t (c.evaluate w fresh "get" (utf8 (hex key))) = (.ok raw, u)) :
    Run.after t (c.get w fresh key) = (((decodeValue raw).mapError .parse).mapError .failed, u) := by
  rw [utf8_hex] at h
  rw [Client.get, Run.after_bind_ok h, Run.after_ofExcept]

theorem Pads.after_get (hpads : Pads raw v) {t u : Trace}
    (h : Run.after t (c.evaluate w fresh "get" (utf8 (hex key))) = (.ok raw, u)) :
    Run.after t (c.get w fresh key) = (.ok v, u) := by
  rw [Client.after_get h, hpads.decodeValue_eq]
  rfl

/-- **What a ledger has under a key is brought as it is.** -/
theorem Ledger.evaluate_get {L : Ledger} (h : L.Serves c) {σ : L.State} {text : String}
    (hf : ∀ s, c.Opens (L.around σ) s → s.CanAsk (c.asking fresh "get" (utf8 (hex key))))
    (htable : L.table σ (hex key) = some text) :
    ∃ u, Run.after {} (c.evaluate (L.around σ) fresh "get" (utf8 (hex key))) = (.ok (utf8 text), u) := by
  obtain ⟨s, u, hs, ho, -, hx, -⟩ :=
    exists_session (h.checked σ "get" (utf8 (hex key))) (Invocation.read_eq fresh)
  have hruns := h.runs σ s hs
  rcases hrun : Run.after u (s.evaluateTransaction fresh c.profile.channelName c.profile.contractName "get"
    (utf8 (hex key))) with ⟨x, u'⟩
  obtain ⟨tx, p, hasks, hanswer⟩ :=
    Session.evaluate_answered (w := c.asking fresh "get" (utf8 (hex key))) ho hruns.heard (hf s hs) hrun
  obtain ⟨r, hr, a, ha, hfind⟩ := hruns.get fresh (hex key) tx p hasks
  rw [htable] at hfind
  obtain ⟨hstatus, hpayload⟩ := hfind
  have hbrought : Gateway.answered r = .ok (utf8 text) := by
    rw [Gateway.answered, ha]
    dsimp only
    rw [if_neg (by simpa using hstatus), hpayload]
  rcases hw : Run.after {} (c.evaluate (L.around σ) fresh "get" (utf8 (hex key))) with ⟨y, t⟩
  unfold Client.evaluate at hw
  rw [hw] at hx
  have hy : y = .ok (utf8 text) := by
    have hyx : y = x := hx.trans (congrArg Prod.fst hrun)
    rw [hyx, (hanswer r hr).1, hbrought]
    rfl
  exact ⟨t, by rw [hy]⟩

end Clients

/-- **Which values are read, why others are not, and that a client gets them.** -/
theorem decodeValue_exact :
    (∀ raw v, decodeValue raw = .ok v ↔ ∃ t, utf8 t = raw ∧ (trim t.toList).map Char.toLower = Hex.encode v) ∧
    (∀ raw e, (decodeValue raw).mapError CallError.parse = .error e ↔ ∃ c, ValueFault raw c ∧ e = .parse c) ∧
    ∀ raw v, Pads raw v → decodeValue raw = .ok v ∧
      (∀ (c : Client) w fresh key t u, Run.after t (c.evaluate w fresh "get" (utf8 (hex key))) = (.ok raw, u) →
        Run.after t (c.get w fresh key) = (.ok v, u)) ∧
      ∀ (L : Ledger) (c : Client) (σ : L.State) fresh key text, L.Serves c →
        (∀ s, c.Opens (L.around σ) s → s.CanAsk (c.asking fresh "get" (utf8 (hex key)))) →
        L.table σ (hex key) = some text → utf8 text = raw → (Run.after {} (c.get (L.around σ) fresh key)).1 = .ok v := by
  refine ⟨fun raw v => decodeValue_eq_ok_iff, fun raw e => ?_, fun raw v hpads => ⟨hpads.decodeValue_eq, ?_, ?_⟩⟩
  · rw [mapError_eq_error_iff]
    exact exists_congr fun c => and_congr_left' decodeValue_eq_error_iff
  · intro c w fresh key t u hraw
    exact hpads.after_get hraw
  · intro L c σ fresh key text hserves hf htable hraw
    obtain ⟨u, hu⟩ := Ledger.evaluate_get hserves hf htable
    rw [hraw] at hu
    rw [hpads.after_get hu]

open Sample in
/-- A value written with a capital between blanks. -/
theorem decodeValue_exact_padded : ledger.Serves client ∧ Pads (utf8 " fF\n") [0xFF] ∧
    (Run.after {} (client.get (ledger.around [("", " fF\n")]) ⟨[2], {}⟩ [])).1 = .ok [0xFF] := by
  have hpre : ∀ c ∈ [' '], isBlank c = true := List.forall_mem_singleton.2 rfl
  have hpost : ∀ c ∈ ['\n'], isBlank c = true := List.forall_mem_singleton.2 rfl
  have hpads : Pads (utf8 " fF\n") [0xFF] := @Pads.intro _ _ _ ['f', 'F'] _ hpre hpost (by decide) rfl
  refine ⟨serves, hpads, ?_⟩
  obtain ⟨-, -, hread⟩ := decodeValue_exact
  obtain ⟨-, -, hget⟩ := hread _ _ hpads
  exact hget ledger client [("", " fF\n")] ⟨[2], {}⟩ [] " fF\n" serves (fun s hs => opens hs ▸ canAsk_get _) rfl rfl

end LedgerClient.KeyValue
