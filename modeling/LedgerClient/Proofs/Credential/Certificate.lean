import LedgerClient.Proofs.Client.FirstCertificate
import LedgerClient.Proofs.Text.Armor
/-!
# The one text of a certificate

However the file was laid out that a certificate was read from, the certificate is written in the one form of its
section, and read back from it unchanged (`ofPem_pem`).  So its bytes, its text and the certificate itself determine
each other (`pem_canonical`).
-/
namespace LedgerClient.Certificate

variable {a : List UInt8} {c d : Certificate}

/-- All that can be seen of two certificates is the same. -/
structure Agrees (c d : Certificate) : Prop where
  pem : c.pem = d.pem
  der : c.der = d.der
  subject : c.subject = d.subject
  issuer : c.issuer = d.issuer

theorem ofPem_of_firstOf {der : List UInt8} {n : X509.Names} (hd : firstOf (Pem.read a) = .ok der)
    (hn : X509.certificate der = some n) : ofPem a = .ok ⟨der, n, hn⟩ := by
  rw [ofPem, hd]
  exact ofDer_names hn

/-- **A certificate is the one that its text is read as.** -/
theorem ofPem_pem (c : Certificate) : ofPem c.pem = .ok c := by
  have hfirst : firstOf (Pem.read c.pem) = .ok c.der := by
    rw [pem, Pem.read_write]
    rfl
  exact ofPem_of_firstOf hfirst c.names_eq

/-- What is read in a certificate is determined by its bytes. -/
theorem eq_of_der_eq (h : c.der = d.der) : c = d := by
  obtain ⟨der, names, hc⟩ := c
  obtain ⟨_, names', hd⟩ := d
  cases h
  cases hc.symm.trans hd
  rfl

theorem der_eq_iff_pem_eq : c.der = d.der ↔ c.pem = d.pem := by
  constructor
  · exact fun h => congrArg pem (eq_of_der_eq h)
  · intro h
    have hitem := Pem.write_inj h
    injection hitem

theorem pem_eq_iff : c.pem = d.pem ↔ c = d :=
  ⟨fun h => eq_of_der_eq (der_eq_iff_pem_eq.2 h), congrArg pem⟩

theorem agrees_iff : c.Agrees d ↔ c = d := by
  constructor
  · exact fun h => eq_of_der_eq h.der
  · rintro rfl
    exact ⟨rfl, rfl, rfl, rfl⟩

/-- **A certificate has one text.**  Whatever files two certificates were read from, each is written as one section with
its bytes in rows of 64, and is read back from it with the same text, bytes, subject and issuer.  Two of them have the
same bytes exactly if they have the same text, and exactly if they are the same; that is so if the first certificates of
the files hold the same bytes, however these are spelled and whatever stands around them. -/
theorem pem_canonical {a b : List UInt8} {c d : Certificate} (hc : ofPem a = .ok c) (hd : ofPem b = .ok d) :
    Pem.Armor ⟨.certificate, c.der⟩ c.pem ∧ c.der ≠ [] ∧ Pem.read c.pem = [.ok ⟨.certificate, c.der⟩] ∧
    (∃ c', ofPem c.pem = .ok c' ∧ c'.Agrees c) ∧
    (c.der = d.der ↔ c.pem = d.pem) ∧ (c.pem = d.pem ↔ c.Agrees d) ∧ (c.Agrees d ↔ c = d) ∧
    (c = d ↔ firstOf (Pem.read a) = firstOf (Pem.read b)) := by
  have hne : c.der ≠ [] := fun h => by
    have hnames := c.names_eq
    rw [h] at hnames
    cases hnames
  refine ⟨Pem.armor_write _, hne, Pem.read_write _, ⟨c, ofPem_pem c, agrees_iff.2 rfl⟩, der_eq_iff_pem_eq,
    pem_eq_iff.trans agrees_iff.symm, agrees_iff, ?_⟩
  rw [firstOf_of_ofPem hc, firstOf_of_ofPem hd, Except.ok.injEq]
  exact ⟨congrArg der, eq_of_der_eq⟩

/-! A certificate in short lines that end as in other places, without padding, and with a note before it. -/

open Gateway.Session (smallCertificate smallCertificate_names)

def looseText : List UInt8 :=
  utf8 "note\n-----BEGIN CERTIFICATE-----\r\n" ++
    ((List.range 9).flatMap fun k =>
      (((Base64.encode smallCertificate).dropLast.drop (10 * k)).take 10) ++ [0x0D, 0x0A]) ++
    utf8 "-----END CERTIFICATE-----"

theorem ofPem_looseText : ofPem looseText = .ok ⟨smallCertificate, ⟨[], []⟩, smallCertificate_names⟩ :=
  ofPem_of_firstOf rfl smallCertificate_names

theorem pem_canonical_small : ∃ c, ofPem looseText = .ok c ∧ c.der = smallCertificate ∧ c.pem ≠ looseText ∧
    Pem.Armor ⟨.certificate, smallCertificate⟩ c.pem ∧ ofPem c.pem = .ok c := by
  obtain ⟨harmor, -, -, ⟨c', hc', hagrees⟩, -⟩ := pem_canonical ofPem_looseText ofPem_looseText
  refine ⟨_, ofPem_looseText, rfl, by decide +kernel, harmor, ?_⟩
  rw [hc', agrees_iff.1 hagrees]

end LedgerClient.Certificate
