import LedgerClient.Proofs.Text.Utf8
/-!
# Texts in the order of their bytes

Of two characters the one that comes first has the bytes that come first, whatever follows them, so texts are in the
order of their bytes (`utf8_lt_iff`).
-/
namespace LedgerClient.Utf8

section Bytes

variable {m n : Nat} {r u : List UInt8}

/-- Bytes whose numbers are in order, or are the same and come before others that are. -/
theorem ofNat_cons_lt (hn : n < 256) (hle : m ≤ n) (hr : m = n → r < u) :
    UInt8.ofNat m :: r < UInt8.ofNat n :: u := by
  have hm : (UInt8.ofNat m).toNat = m := toNat_ofNat (Nat.lt_of_le_of_lt hle hn)
  rw [List.cons_lt_cons_iff, UInt8.lt_iff_toNat_lt, ← UInt8.toNat_inj, hm, toNat_ofNat hn]
  rcases Nat.lt_or_eq_of_le hle with h | h
  · exact .inl h
  · exact .inr ⟨h, hr h⟩

theorem ofNat_cons_lt_of_lt (hn : n < 256) (hlt : m < n) : UInt8.ofNat m :: r < UInt8.ofNat n :: u :=
  ofNat_cons_lt hn (Nat.le_of_lt hlt) fun he => absurd he (Nat.ne_of_lt hlt)

end Bytes

/-- **The bytes of characters are in order**, and what follows them makes no difference. -/
theorem encodeChar_append_lt {c d : Char} (h : c < d) (r u : List UInt8) : encodeChar c ++ r < encodeChar d ++ u := by
  have hlt : c.toNat < d.toNat := h
  have hd := toNat_valid d
  unfold encodeChar
  generalize c.toNat = m at hlt
  generalize d.toNat = n at hlt hd
  dsimp only
  by_cases h₁ : n < 0x80
  · rw [if_pos h₁, if_pos (Nat.lt_trans hlt h₁)]
    exact ofNat_cons_lt_of_lt (by omega) hlt
  rw [if_neg h₁]
  by_cases h₂ : n < 0x800
  · rw [if_pos h₂]
    split
    · exact ofNat_cons_lt_of_lt (by omega) (by omega)
    rw [if_pos (Nat.lt_trans hlt h₂)]
    exact ofNat_cons_lt (by omega) (by omega) fun _ => ofNat_cons_lt_of_lt (by omega) (by omega)
  rw [if_neg h₂]
  by_cases h₃ : n < 0x10000
  · rw [if_pos h₃]
    split
    · exact ofNat_cons_lt_of_lt (by omega) (by omega)
    split
    · exact ofNat_cons_lt_of_lt (by omega) (by omega)
    rw [if_pos (Nat.lt_trans hlt h₃)]
    exact ofNat_cons_lt (by omega) (by omega) fun _ => ofNat_cons_lt (by omega) (by omega) fun _ =>
      ofNat_cons_lt_of_lt (by omega) (by omega)
  rw [if_neg h₃]
  split
  · exact ofNat_cons_lt_of_lt (by omega) (by omega)
  split
  · exact ofNat_cons_lt_of_lt (by omega) (by omega)
  split
  · exact ofNat_cons_lt_of_lt (by omega) (by omega)
  exact ofNat_cons_lt (by omega) (by omega) fun _ => ofNat_cons_lt (by omega) (by omega) fun _ =>
    ofNat_cons_lt (by omega) (by omega) fun _ => ofNat_cons_lt_of_lt (by omega) (by omega)

theorem encode_lt {s t : List Char} (h : s < t) : encode s < encode t := by
  induction s generalizing t with
  | nil =>
    cases t with
    | nil => exact absurd h (List.not_lt_nil _)
    | cons d t =>
      obtain ⟨b, tail, he, -⟩ := encodeChar_front d
      rw [encode, encode, List.flatMap_cons, he]
      exact List.nil_lt_cons _ _
  | cons c s ih =>
    cases t with
    | nil => exact absurd h (List.not_lt_nil _)
    | cons d t =>
      rw [encode, encode, List.flatMap_cons, List.flatMap_cons]
      rcases List.cons_lt_cons_iff.1 h with hcd | ⟨rfl, hst⟩
      · exact encodeChar_append_lt hcd _ _
      · exact List.append_left_lt (ih hst)

end LedgerClient.Utf8

namespace LedgerClient

/-- **Texts are in the order of their bytes.** -/
theorem utf8_lt_iff {a b : String} : utf8 a < utf8 b ↔ a < b := by
  have hlt : ∀ {a b : String}, a < b → utf8 a < utf8 b := fun h => Utf8.encode_lt h
  refine ⟨fun h => Classical.byContradiction fun hn => ?_, hlt⟩
  by_cases hba : b < a
  · exact List.lt_asymm h (hlt hba)
  · rw [String.le_antisymm (String.not_lt.1 hba) (String.not_lt.1 hn)] at h
    exact List.lt_irrefl _ h

end LedgerClient
