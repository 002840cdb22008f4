import LedgerClient.Credential.SigningKey
import LedgerClient.Proofs.Crypto.Curve
import LedgerClient.Proofs.Der.Strict
/-!
# Signatures

What a key signs is the strict form of a pair of numbers (`Ecdsa.Signature.Form`): the first between one and the order,
the second in the lower half.  The pair verifies whenever the one before it was brought to the lower half does
(`SigningKey.sign_lower_half`), and it does (`SigningKey.sign_verifies`).
-/
namespace LedgerClient

open Ecdsa Der.Strict

namespace Ecdsa.Signature

variable {σ : Signature}

/-! ## The smaller second number -/

theorem lowS_r (n : Nat) (σ : Signature) : (σ.lowS n).r = σ.r := by
  unfold lowS
  split <;> rfl

/-- Of an odd order, the lower half ends at `(n - 1) / 2`. -/
theorem lowS_s_mem {n : Nat} (hn : n % 2 = 1) (h0 : 0 < σ.s) (hs : σ.s < n) :
    0 < (σ.lowS n).s ∧ (σ.lowS n).s ≤ (n - 1) / 2 := by
  unfold lowS
  by_cases hhigh : n / 2 < σ.s
  · rw [if_pos hhigh]
    dsimp only
    omega
  · rw [if_neg hhigh]
    omega

/-! ## The written form -/

/-- **The strict form of a pair**: a sequence of two integers in the fewest bytes, each with its length in one byte, and
nothing after it. -/
def Form (σ : Signature) (bytes : List UInt8) : Prop :=
  ∃ r s, Minimal σ.r r ∧ Minimal σ.s s ∧ r.length + s.length + 4 < 0x80 ∧
    bytes = idSequence :: UInt8.ofNat (r.length + s.length + 4) ::
      (idInteger :: UInt8.ofNat r.length :: r ++ idInteger :: UInt8.ofNat s.length :: s)

section Encode

variable (h : (unsignedContents σ.r).length + (unsignedContents σ.s).length + 4 < 0x80)

include h

theorem short_r : Short (unsignedContents σ.r) := by
  unfold Short
  omega

theorem short_s : Short (unsignedContents σ.s) := by
  unfold Short
  omega

theorem integers_eq : writeUnsigned σ.r ++ writeUnsigned σ.s =
    idInteger :: UInt8.ofNat (unsignedContents σ.r).length :: unsignedContents σ.r ++
      idInteger :: UInt8.ofNat (unsignedContents σ.s).length :: unsignedContents σ.s := by
  rw [writeUnsigned, writeUnsigned, write_of_short (short_r h), write_of_short (short_s h)]

theorem length_integers : (writeUnsigned σ.r ++ writeUnsigned σ.s).length =
    (unsignedContents σ.r).length + (unsignedContents σ.s).length + 4 := by
  rw [integers_eq h]
  simp only [List.length_append, List.length_cons]
  omega

theorem encode_eq : σ.encode = idSequence :: UInt8.ofNat (writeUnsigned σ.r ++ writeUnsigned σ.s).length ::
    (writeUnsigned σ.r ++ writeUnsigned σ.s) :=
  write_of_short (by rw [Short, length_integers h]; exact h)

theorem length_encode : σ.encode.length = (unsignedContents σ.r).length + (unsignedContents σ.s).length + 6 := by
  rw [encode_eq h, List.length_cons, List.length_cons, length_integers h]

theorem form_encode : σ.Form σ.encode := by
  refine ⟨_, _, minimal_unsignedContents σ.r, minimal_unsignedContents σ.s, h, ?_⟩
  rw [encode_eq h, length_integers h, integers_eq h]

theorem decode?_encode : decode? σ.encode = some σ := by
  have hwhole : whole idSequence σ.encode = some (writeUnsigned σ.r ++ writeUnsigned σ.s) :=
    whole_write rfl (by rw [Short, length_integers h]; exact h)
  have hlast : readUnsigned (writeUnsigned σ.s) = some (σ.s, []) := by
    rw [← List.append_nil (writeUnsigned σ.s)]
    exact readUnsigned_writeUnsigned (short_s h) []
  unfold decode?
  rw [hwhole, Option.bind_eq_bind, Option.bind_some, readUnsigned_writeUnsigned (short_r h), Option.bind_eq_bind,
    Option.bind_some]
  dsimp only
  rw [hlast]
  rfl

end Encode

end Ecdsa.Signature

namespace SigningKey

open P256 (PrivateKey)

theorem sign_eq_ok_iff {k : PrivateKey} {digest bytes : List UInt8} : sign k digest = .ok bytes ↔
    ∃ raw, sign? P256.group k.scalar digest = some raw ∧ (raw.lowS P256.order).encode = bytes := by
  unfold sign
  cases sign? P256.group k.scalar digest with
  | none => simp
  | some raw => simp [P256.group]

/-- Bringing a pair to the lower half does not change whether it verifies. -/
theorem verify_lowS (k : PrivateKey) (digest : List UInt8) (σ : Signature) :
    verify P256.group k.publicPoint digest (σ.lowS P256.order) = verify P256.group k.publicPoint digest σ := by
  have hmul : P256.order • k.scalar • P256.generator = 0 := by
    rw [smul_comm, P256.order_nsmul_generator, nsmul_zero]
  rw [k.publicPoint_eq]
  exact P256.group_lawful.verify_lowS hmul digest σ

theorem verify_raw {k : PrivateKey} {digest : List UInt8} {raw : Signature}
    (h : sign? P256.group k.scalar digest = some raw) : verify P256.group k.publicPoint digest raw = true := by
  rw [k.publicPoint_eq]
  exact P256.group_lawful.verify_signed h

/-- The numbers of a signature are those the order leaves room for. -/
theorem range_raw {k : PrivateKey} {digest : List UInt8} {raw : Signature}
    (h : sign? P256.group k.scalar digest = some raw) :
    0 < raw.r ∧ raw.r < P256.order ∧ 0 < raw.s ∧ raw.s < P256.order :=
  (P256.group_lawful.verify_iff.1 (P256.group_lawful.verify_signed h)).1

/-- In the lower half, 33 bytes are enough for the first number and 32 for the second. -/
theorem length_lowS {raw : Signature} (hr : raw.r < P256.order)
    (hs : (raw.lowS P256.order).s ≤ (P256.order - 1) / 2) :
    (unsignedContents (raw.lowS P256.order).r).length ≤ 33 ∧ (unsignedContents (raw.lowS P256.order).s).length ≤ 32 := by
  have hsize : P256.order < 256 ^ 32 := by decide
  have hr' : (raw.lowS P256.order).r < 128 * 256 ^ 32 := by
    rw [Signature.lowS_r]
    omega
  exact ⟨length_unsignedContents_le hr', length_unsignedContents_le (j := 31) (by omega)⟩

/-- **What a key signs**: the bytes are the strict form of the pair `σ` and are read back as it; its second number is in
the lower half; and it verifies whenever the pair `raw` does, which is the one before it was brought there. -/
structure Signed (k : PrivateKey) (digest bytes : List UInt8) (raw σ : Signature) : Prop where
  made : sign? P256.group k.scalar digest = some raw
  form : σ.Form bytes
  decoded : Signature.decode? bytes = some σ
  length : bytes.length ≤ 71
  r : 0 < σ.r ∧ σ.r < P256.order
  s : 0 < σ.s ∧ σ.s ≤ (P256.order - 1) / 2
  verifies : verify P256.group k.publicPoint digest raw = true → verify P256.group k.publicPoint digest σ = true

theorem signed_lowS {k : PrivateKey} {digest : List UInt8} {raw : Signature}
    (h : sign? P256.group k.scalar digest = some raw) :
    Signed k digest (raw.lowS P256.order).encode raw (raw.lowS P256.order) := by
  obtain ⟨hr0, hr, hs0, hs⟩ := range_raw h
  have hlow := Signature.lowS_s_mem (by decide : P256.order % 2 = 1) hs0 hs
  obtain ⟨hlengthr, hlengths⟩ := length_lowS hr hlow.2
  have hshort : (unsignedContents (raw.lowS P256.order).r).length +
      (unsignedContents (raw.lowS P256.order).s).length + 4 < 0x80 := by omega
  refine ⟨h, Signature.form_encode hshort, Signature.decode?_encode hshort, ?_, ?_, hlow, fun hverify => ?_⟩
  · rw [Signature.length_encode hshort]
    omega
  · rw [Signature.lowS_r]
    exact ⟨hr0, hr⟩
  · rw [verify_lowS]
    exact hverify

/-- **Every signature is the strict form of a pair in the lower half**, of 71 bytes at most, and the pair verifies for the
key whenever the one that was brought there does. -/
theorem sign_lower_half {k : PrivateKey} {digest bytes : List UInt8} (h : sign k digest = .ok bytes) :
    ∃ raw σ, Signed k digest bytes raw σ := by
  obtain ⟨raw, hraw, rfl⟩ := sign_eq_ok_iff.1 h
  exact ⟨raw, _, signed_lowS hraw⟩

/-- A key whose signature of the zero digest starts out in the upper half. -/
def sampleKey : PrivateKey := ⟨3, by decide, by decide⟩

theorem sign_lower_half_sample : ∃ bytes raw σ, sign sampleKey (List.replicate 32 0) = .ok bytes ∧
    P256.order / 2 < raw.s ∧ Signed sampleKey (List.replicate 32 0) bytes raw σ := by
  -- only the pair is evaluated, and what is written of it follows
  have hraw : (sign? P256.group sampleKey.scalar (List.replicate 32 0)).any (P256.order / 2 < ·.s) = true := by
    decide +kernel
  obtain ⟨raw, hmade, hhigh⟩ := (Option.any_eq_true _ _).1 hraw
  have hsign := sign_eq_ok_iff.2 ⟨raw, hmade, rfl⟩
  obtain ⟨raw', σ, hsigned⟩ := sign_lower_half hsign
  cases hmade.symm.trans hsigned.made
  exact ⟨_, raw, σ, hsign, of_decide_eq_true hhigh, hsigned⟩

/-- **Signatures verify**: what a key signs is read back as a pair that verifies for it. -/
theorem sign_verifies {k : PrivateKey} {digest bytes : List UInt8} (h : sign k digest = .ok bytes) :
    ∃ σ, Signature.decode? bytes = some σ ∧ verify P256.group k.publicPoint digest σ = true := by
  obtain ⟨raw, hraw, rfl⟩ := sign_eq_ok_iff.1 h
  have hsigned := signed_lowS hraw
  exact ⟨_, hsigned.decoded, hsigned.verifies (verify_raw hraw)⟩

end SigningKey
end LedgerClient
