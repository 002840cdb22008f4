import LedgerClient.Proofs.Client.Opening
import LedgerClient.Proofs.Gateway.Evaluation
import LedgerClient.Proofs.Gateway.Failure
import LedgerClient.Proofs.Text.Pem
/-!
# Only the first certificate counts

What stands in a file before and after its first certificate makes no difference to the certificate read from it
(`Certificate.ofPem_around`), so none to a call either: calls whose files of certificates begin with the same ones
are the same call.  In particular a peer that could only be trusted by a later certificate hears nothing
(`first_certificate_counts`).
-/
namespace LedgerClient

open Gateway (Fresh Peer Session Stage Write)
open Pem (Kind Item Preface Section)

namespace Certificate

theorem firstOf_of_ofPem {pem : List UInt8} {c : Certificate} (h : ofPem pem = .ok c) :
    firstOf (Pem.read pem) = .ok c.der := by
  unfold ofPem at h
  cases hf : firstOf (Pem.read pem) with
  | error e =>
    rw [hf] at h
    cases h
  | ok der =>
    rw [hf] at h
    change ofDer der = .ok c at h
    unfold ofDer at h
    split at h
    · cases h
      rfl
    · cases h

theorem ofDer_names {der : List UInt8} {n : X509.Names} (h : X509.certificate der = some n) :
    ofDer der = .ok ⟨der, n, h⟩ := by
  unfold ofDer
  split
  · rename_i m hm
    cases hm.symm.trans h
    rfl
  · rename_i hm
    cases hm.symm.trans h

/-- **The certificate of a file is that of its first section for one.** -/
theorem ofPem_around {pre : List UInt8} (h : Preface (· ≠ .certificate) pre) (s : Section Kind.certificate.label)
    (suffix : List UInt8) : ofPem (pre ++ s.text ++ suffix) = ofPem s.text := by
  have hk : Kind.ofLabel? Kind.certificate.label = some .certificate := by decide
  have hpass : ∀ (i : Item) r, i.kind ≠ .certificate → firstOf (.ok i :: r) = firstOf r := fun i r hi => by
    rw [firstOf, if_neg hi]
  have hstop : ∀ r, firstOf (s.item .certificate :: r) = firstOf [s.item .certificate] := fun r => by
    unfold Section.item
    cases s.contents <;> rfl
  rw [ofPem, ofPem, List.append_assoc, h.passed hpass, s.stopped hk hstop]

/-- Two files that begin with the same certificate, whatever else they hold. -/
inductive SameFirst : List UInt8 → List UInt8 → Prop where
  | mk {pre pre' : List UInt8} (h : Preface (· ≠ .certificate) pre) (h' : Preface (· ≠ .certificate) pre')
      (s : Section Kind.certificate.label) (suffix suffix' : List UInt8) :
      SameFirst (pre ++ s.text ++ suffix) (pre' ++ s.text ++ suffix')

theorem SameFirst.ofPem_eq {a b : List UInt8} (h : SameFirst a b) : ofPem a = ofPem b := by
  obtain ⟨h, h', s, suffix, suffix'⟩ := h
  rw [ofPem_around h, ofPem_around h']

theorem load_eq_ofPem {files : Storage.FileTree} {home path : String} {a : List UInt8}
    (h : files.read (Storage.expandHome home path) = .ok a) : load files home path = (ofPem a).mapError .parse := by
  unfold load
  dsimp only
  rw [h]
  dsimp only
  cases ofPem a <;> rfl

end Certificate

/-! ## A peer out of reach -/

namespace Gateway

variable {α β : Type} {s : Session} {text : String}

/-- Nothing comes of a stage, and nothing is seen of it, if nothing listens. -/
theorem Stage.Ends.of_absent {g : Stage s α β} {t u : Trace} {x : Except Stop β} (h : g.Ends t x u)
    (hp : s.peer = Peer.absent text) : (∀ b, x ≠ .ok b) ∧ u.calls = t.calls := by
  have hanswer : ∀ q, (s.peer.reply q).answer = .unreachable text := fun q => by
    rw [hp]
    cases q <;> rfl
  refine ⟨?_, ?_⟩
  · rintro b rfl
    obtain ⟨q, hq, _⟩ := h.of_ok
    have ha := hq.answered.2
    rw [hanswer] at ha
    cases ha
  · cases h with
    | unsigned => rfl
    | @sent σ _ =>
      have hs : s.seen (g.request σ) = [] := if_neg fun hc => by
        rw [Reply.reached, hanswer] at hc
        exact Bool.false_ne_true hc.2
      simp only [hs, List.append_nil]

theorem Session.submit_absent (s : Session) (hp : s.peer = Peer.absent text) (w : Write) (t : Trace) :
    let run := Run.after t (s.submitTransaction w.fresh w.channel w.chaincode w.function w.payload)
    (∀ c, run.1 ≠ .ok c) ∧ run.2.calls = t.calls := by
  intro run
  rcases hrun : run with ⟨x, u⟩
  have h : s.Course w t x u := Session.course_of_submit hrun
  cases h with
  | closed => exact ⟨nofun, rfl⟩
  | unendorsed h₁ => exact ⟨nofun, (h₁.of_absent hp).2⟩
  | unsubmitted h₁ _ => exact absurd rfl ((h₁.of_absent hp).1 _)
  | submitted h₁ _ _ => exact absurd rfl ((h₁.of_absent hp).1 _)

theorem Session.evaluate_absent (s : Session) (ho : s.isOpen = true) (hp : s.peer = Peer.absent text)
    (w : Write) (t : Trace) :
    let run := Run.after t (s.evaluateTransaction w.fresh w.channel w.chaincode w.function w.payload)
    (∀ b, run.1 ≠ .ok b) ∧ run.2.calls = t.calls := by
  intro run
  rcases hrun : run with ⟨x, u⟩
  exact (Session.ends_of_evaluate ho hrun).of_absent hp

end Gateway

/-! ## Calls -/

namespace Invocation

variable {w w' : Surroundings} {p : Policy} {i i' : Invocation}

/-- Calls that are the same but for the files of certificates, which begin with the same ones. -/
structure Alike (w w' : Surroundings) (p : Policy) (i i' : Invocation) : Prop where
  call : i' = { i with anchorPath := i'.anchorPath, certPath := i'.certPath }
  reach : w'.reach = w.reach
  key : key w' p i' = key w p i
  anchor : ∃ a b, w.files.read (Storage.expandHome w.home i.anchorPath) = .ok a ∧
    w'.files.read (Storage.expandHome w'.home i'.anchorPath) = .ok b ∧ Certificate.SameFirst a b
  certificate : ∃ a b, w.files.read (Storage.expandHome w.home i.certPath) = .ok a ∧
    w'.files.read (Storage.expandHome w'.home i'.certPath) = .ok b ∧ Certificate.SameFirst a b

theorem load_alike {files files' : Storage.FileTree} {home home' path path' : String}
    (h : ∃ a b, files.read (Storage.expandHome home path) = .ok a ∧
      files'.read (Storage.expandHome home' path') = .ok b ∧ Certificate.SameFirst a b) :
    Certificate.load files' home' path' = Certificate.load files home path := by
  obtain ⟨a, b, ha, hb, hab⟩ := h
  rw [Certificate.load_eq_ofPem ha, Certificate.load_eq_ofPem hb, hab.ofPem_eq]

theorem Alike.transport_eq (h : Alike w w' p i i') : transport w' i' = transport w i := by
  unfold transport
  rw [load_alike h.anchor, h.call]

theorem Alike.identity_eq (h : Alike w w' p i i') : identity w' i' = identity w i := by
  unfold identity
  rw [load_alike h.certificate, h.call]

/-- **Calls that are alike open the same session**: its creator and the transport it is reached by are the same. -/
theorem Alike.openSession_eq (h : Alike w w' p i i') : i'.openSession w' p = i.openSession w p := by
  rw [Invocation.openSession_eq, Invocation.openSession_eq, h.transport_eq, h.identity_eq, h.key]
  unfold session
  rw [h.reach]

theorem Alike.write_eq (h : Alike w w' p i i') (fresh : Fresh) : i'.write w' p fresh = i.write w p fresh := by
  unfold write
  rw [h.openSession_eq, h.call]
  rfl

theorem Alike.read_eq (h : Alike w w' p i i') (fresh : Fresh) : i'.read w' p fresh = i.read w p fresh := by
  unfold read
  rw [h.openSession_eq, h.call]
  rfl

/-- Whatever is done with sessions whose peer is out of reach comes to nothing, and so do calls that get no other. -/
theorem after_unreached {α : Type} {op : Operation} {r : Run α} {k : Session → Run α}
    (hr : r = Run.observe (LocalCheck.ready w p i >>= k) (account op i))
    (hp : ∀ τ, transport w i = .ok τ → ∃ text, w.reach τ = Peer.absent text)
    (hk : ∀ s text t, s.isOpen = true → s.peer = Peer.absent text →
      (∀ a, (Run.after t (k s)).1 ≠ .ok a) ∧ (Run.after t (k s)).2.calls = t.calls) (t : Trace) :
    (∀ a, (Run.after t r).1 ≠ .ok a) ∧ (Run.after t r).2.calls = t.calls := by
  obtain ⟨u, hu, ⟨e, _, h⟩ | ⟨_, s, hs, h⟩⟩ := LocalCheck.ready_checks w p i t
  · obtain ⟨h₁, h₂⟩ := after_not_ready hr h
    rw [h₁, h₂]
    exact ⟨nofun, hu⟩
  · obtain ⟨h₁, h₂⟩ := after_ready hr h
    obtain ⟨τ, d, key, _, _, hτ, _, _, rfl⟩ := ready_ok h
    obtain ⟨text, hp⟩ := hp τ hτ
    rw [h₁, h₂, ← hu]
    exact hk _ text u hs hp

/-- **Only the first certificate of a file counts.**  It is the same by itself and in any surroundings; calls that
are alike are the same call, down to the session opened and everything left behind; and if nothing listens for
transports but those with a trusted anchor, then a call whose anchor file begins with another certificate fails and
sends nothing, whatever comes later in the file. -/
theorem first_certificate_counts (w : Surroundings) (p : Policy) (i : Invocation) (fresh : Fresh) :
    (∀ pre (s : Section Kind.certificate.label) suffix, Preface (· ≠ .certificate) pre →
      Certificate.ofPem (pre ++ s.text ++ suffix) = Certificate.ofPem s.text) ∧
    (∀ w' i', Alike w w' p i i' →
      transport w' i' = transport w i ∧ i'.openSession w' p = i.openSession w p ∧
        i'.write w' p fresh = i.write w p fresh ∧ i'.read w' p fresh = i.read w p fresh) ∧
    (∀ (trusted : Certificate → Prop) pre (s : Section Kind.certificate.label) suffix,
      Preface (· ≠ .certificate) pre →
      w.files.read (Storage.expandHome w.home i.anchorPath) = .ok (pre ++ s.text ++ suffix) →
      (∀ c, Certificate.ofPem s.text = .ok c → ¬ trusted c) →
      (∀ τ, ¬ trusted τ.anchor → ∃ text, w.reach τ = Peer.absent text) → ∀ t,
        let written := Run.after t (i.write w p fresh)
        let read := Run.after t (i.read w p fresh)
        (∀ c, written.1 ≠ .ok c) ∧ (∀ b, read.1 ≠ .ok b) ∧ written.2.calls = t.calls ∧ read.2.calls = t.calls) := by
  refine ⟨fun pre s suffix h => Certificate.ofPem_around h s suffix, fun w' i' h =>
    ⟨h.transport_eq, h.openSession_eq, h.write_eq fresh, h.read_eq fresh⟩, ?_⟩
  intro trusted pre s suffix h hfile hfirst hreach t
  have hp : ∀ τ, transport w i = .ok τ → ∃ text, w.reach τ = Peer.absent text := by
    intro τ hτ
    have hload := load_of_transport hτ
    rw [Certificate.load_eq_ofPem hfile, Certificate.ofPem_around h] at hload
    refine hreach τ (hfirst _ ?_)
    cases hc : Certificate.ofPem s.text with
    | error c =>
      rw [hc] at hload
      cases hload
    | ok c =>
      rw [hc] at hload
      cases hload
      rfl
  have hw := after_unreached (Invocation.write_eq (p := p) fresh) hp
    (fun s _ t _ hs => s.submit_absent hs ⟨fresh, i.network, i.contract, i.function, i.payload⟩ t) t
  have hr := after_unreached (Invocation.read_eq (p := p) fresh) hp
    (fun s _ t ho hs => s.evaluate_absent ho hs ⟨fresh, i.network, i.contract, i.function, i.payload⟩ t) t
  exact ⟨hw.1, hr.1, hw.2, hr.2⟩

/-! An anchor file that came to hold something before its certificate, and another certificate after it. -/

/-- A certificate that takes two lines, closed without a line end. -/
def smallSection : Section Kind.certificate.label where
  opening := utf8 "-----BEGIN CERTIFICATE-----" ++ [0x0A]
  body := [(Base64.encode Session.smallCertificate).take Pem.lineWidth ++ [0x0A],
    (Base64.encode Session.smallCertificate).drop Pem.lineWidth ++ [0x0A]]
  closing := utf8 "-----END CERTIFICATE-----"
  opening_line := .mk (by decide +kernel) (by decide)
  opens := by decide +kernel
  body_lines := by
    rintro l (_ | ⟨_, _ | ⟨_, ⟨⟩⟩⟩) <;> exact .mk (by decide +kernel) (by decide)
  inside := by decide +kernel
  closes := by decide +kernel
  unended := by decide +kernel

/-- A public key, of which only the form matters. -/
def otherSection : Section Kind.publicKey.label where
  opening := utf8 "-----BEGIN PUBLIC KEY-----" ++ [0x0A]
  body := [utf8 "AAAA" ++ [0x0A]]
  closing := utf8 "-----END PUBLIC KEY-----" ++ [0x0A]
  opening_line := .mk (by decide +kernel) (by decide)
  opens := by decide +kernel
  body_lines := by
    rintro l (_ | ⟨_, ⟨⟩⟩)
    exact .mk (by decide +kernel) (by decide)
  inside := by decide +kernel
  closes := by decide +kernel
  unended := by decide +kernel

theorem otherSection_preface : Preface (· ≠ .certificate) (utf8 "note" ++ [0x0A] ++ (otherSection.text ++ [])) :=
  .stray (.mk (by decide +kernel) (by decide)) (by decide +kernel)
    (.sect otherSection (.mk (by decide +kernel) (by decide))
      (fun k hk => by
        rw [show Kind.ofLabel? Kind.publicKey.label = some .publicKey by decide] at hk
        cases hk
        exact ⟨by decide, [0, 0, 0], rfl⟩) .nil)

/-- A key with the scalar one. -/
def smallKey : List UInt8 := [0x30, 0x25, 0x02, 0x01, 0x01, 0x04, 0x20] ++ List.replicate 31 0 ++ [1]

/-- A peer that is found where the anchor is another certificate. -/
def surroundings (anchor : List UInt8) : Surroundings where
  files := { entries := [(["anchor"], .file anchor), (["cert"], .file smallSection.text), (["keys"], .folder),
    (["keys", "key"], .file (Pem.write ⟨.ecKey, smallKey⟩))] }
  home := "/"
  reach τ := if τ.anchor.der = Session.smallCertificate then Peer.absent "" else Session.stalled.peer

def call : Invocation where
  payload := []
  function := "f"
  network := "c"
  contract := "b"
  mspId := "Org1MSP"
  certPath := "/cert"
  keyDir := "/keys"
  anchorPath := "/anchor"
  endpoint := "localhost:7051"
  peerName := "localhost"

/-- The anchor file after it was added to. -/
def grown : List UInt8 :=
  utf8 "note" ++ [0x0A] ++ (otherSection.text ++ []) ++ smallSection.text ++ utf8 "\n-----BEGIN"

theorem read_anchor (a : List UInt8) : (surroundings a).files.read (Storage.expandHome "/" "/anchor") = .ok a := rfl

theorem key_surroundings (a : List UInt8) : key (surroundings a) {} call =
    Run.ofExcept (KeyStore.readKey (surroundings []).files "/keys/key") := by
  have hc : KeyStore.choose (surroundings a).files (Storage.expandHome "/" "/keys") false = .ok ⟨"/keys/key", 1⟩ := rfl
  have hr : KeyStore.readKey (surroundings a).files "/keys/key" =
    KeyStore.readKey (surroundings []).files "/keys/key" := rfl
  show KeyStore.load (surroundings a).files "/" "/keys" false = _
  unfold KeyStore.load KeyStore.select
  rw [hc, ← hr]
  rfl

theorem alike_grown : Alike (surroundings smallSection.text) (surroundings grown) {} call call where
  call := rfl
  reach := rfl
  key := by rw [key_surroundings, key_surroundings]
  anchor := by
    refine ⟨_, _, read_anchor _, read_anchor _, ?_⟩
    have h := Certificate.SameFirst.mk .nil otherSection_preface smallSection [] (utf8 "\n-----BEGIN")
    rwa [List.nil_append, List.append_nil] at h
  certificate := ⟨smallSection.text, smallSection.text, rfl, rfl, by
    have h := Certificate.SameFirst.mk .nil .nil smallSection [] []
    rwa [List.nil_append, List.append_nil] at h⟩

theorem first_certificate_counts_grown :
    Certificate.ofPem grown = Certificate.ofPem smallSection.text ∧
    Alike (surroundings smallSection.text) (surroundings grown) {} call call ∧
    call.write (surroundings grown) {} ⟨[], {}⟩ = call.write (surroundings smallSection.text) {} ⟨[], {}⟩ ∧
    (∀ c, Certificate.ofPem smallSection.text = .ok c → c.der = Session.smallCertificate) ∧
    (∀ τ, ¬ τ.anchor.der ≠ Session.smallCertificate → (surroundings grown).reach τ = Peer.absent "") ∧
    (Run.after {} (call.write (surroundings grown) {} ⟨[], {}⟩)).2.calls = [] := by
  obtain ⟨hpem, halike, _⟩ := first_certificate_counts (surroundings smallSection.text) {} call ⟨[], {}⟩
  obtain ⟨_, _, htrust⟩ := first_certificate_counts (surroundings grown) {} call ⟨[], {}⟩
  have hfirst : ∀ c, Certificate.ofPem smallSection.text = .ok c → c.der = Session.smallCertificate := by
    intro c hc
    have hf : Certificate.firstOf (Pem.read smallSection.text) = .ok Session.smallCertificate := rfl
    exact Except.ok.inj ((Certificate.firstOf_of_ofPem hc).symm.trans hf)
  have hreach : ∀ τ, ¬ τ.anchor.der ≠ Session.smallCertificate → (surroundings grown).reach τ = Peer.absent "" :=
    fun τ hτ => if_pos (Decidable.not_not.1 hτ)
  obtain ⟨_, _, hcalls, _⟩ := htrust (fun c => c.der ≠ Session.smallCertificate) _ smallSection _
    otherSection_preface (read_anchor grown) (fun c hc hn => hn (hfirst c hc))
    (fun τ hτ => ⟨"", hreach τ hτ⟩) {}
  exact ⟨hpem _ smallSection _ otherSection_preface, alike_grown, (halike _ _ alike_grown).2.2.1, hfirst, hreach,
    hcalls⟩

end Invocation
end LedgerClient
