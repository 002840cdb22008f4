import LedgerClient.Credential.SigningKey
import LedgerClient.Proofs.Text.Armor
import LedgerClient.Proofs.Text.Turns
/-!
# The first key of a file

Whoever looks for the key of a file takes its items one at a time, until one is a private key or a fault.  That comes to
an end, since each turn uses up lines, and what it ends with is decided by that one item.  So neither sections and text
before the key nor anything after it makes a difference (`SigningKey.first_key_decides`).
-/
namespace LedgerClient.SigningKey

open P256 (PrivateKey)
open Pem (Item Kind Preface Section Turn)

/-- The kinds of sections that hold a private key, usable or not. -/
def keyKinds : List Kind := [.pkcs8Key, .ecKey, .rsaKey]

theorem mem_keyKinds {k : Kind} : k ∈ keyKinds ↔ k = .pkcs8Key ∨ k = .ecKey ∨ k = .rsaKey := by
  simp [keyKinds]

/-- **What is made of the items from the first on that is a private key or a fault.** -/
inductive Decided : List (Except Pem.Fault Item) → Except ParseCause PrivateKey → Prop
  | ended : Decided [] (.error .noKey)
  | fault {f : Pem.Fault} {r : List (Except Pem.Fault Item)} : Decided (.error f :: r) (.error (.pem f))
  | wrapped {d : List UInt8} {k : PrivateKey} {r : List (Except Pem.Fault Item)} (h : P256.ofWrapped? d = some k) :
      Decided (.ok ⟨.pkcs8Key, d⟩ :: r) (.ok k)
  | notWrapped {d : List UInt8} {r : List (Except Pem.Fault Item)} (h : P256.ofWrapped? d = none) :
      Decided (.ok ⟨.pkcs8Key, d⟩ :: r) (.error (.wrappedKeyForm d))
  | bare {d : List UInt8} {k : PrivateKey} {r : List (Except Pem.Fault Item)} (h : P256.ofBare? d = some k) :
      Decided (.ok ⟨.ecKey, d⟩ :: r) (.ok k)
  | notBare {d : List UInt8} {r : List (Except Pem.Fault Item)} (h : P256.ofBare? d = none) :
      Decided (.ok ⟨.ecKey, d⟩ :: r) (.error (.bareKeyForm d))
  | rsa {d : List UInt8} {r : List (Except Pem.Fault Item)} : Decided (.ok ⟨.rsaKey, d⟩ :: r) (.error .rsaKey)

variable {i : Item} {r : List (Except Pem.Fault Item)}

theorem firstOf_passed (h : i.kind ∉ keyKinds) : firstOf (.ok i :: r) = firstOf r := by
  obtain ⟨k, d⟩ := i
  change k ∉ keyKinds at h
  cases k with
  | pkcs8Key | ecKey | rsaKey => exact absurd (by decide) h
  | _ => rfl

theorem decided_firstOf (h : i.kind ∈ keyKinds) : Decided (.ok i :: r) (firstOf (.ok i :: r)) := by
  obtain ⟨k, d⟩ := i
  rcases mem_keyKinds.1 h with rfl | rfl | rfl
  · rw [firstOf]
    dsimp only
    cases hd : P256.ofWrapped? d with
    | some k => exact .wrapped hd
    | none => exact .notWrapped hd
  · rw [firstOf]
    dsimp only
    cases hd : P256.ofBare? d with
    | some k => exact .bare hd
    | none => exact .notBare hd
  · exact .rsa

/-- **The first private key or fault decides**, of whatever items. -/
theorem exists_decided (xs : List (Except Pem.Fault Item)) : ∃ (passed : List Item) (rest : List (Except Pem.Fault Item)),
    xs = passed.map .ok ++ rest ∧ (∀ i ∈ passed, i.kind ∉ keyKinds) ∧ Decided rest (firstOf xs) := by
  induction xs with
  | nil => exact ⟨[], [], rfl, nofun, .ended⟩
  | cons x xs ih =>
    cases x with
    | error f => exact ⟨[], .error f :: xs, rfl, nofun, .fault⟩
    | ok i =>
      by_cases hi : i.kind ∈ keyKinds
      · exact ⟨[], .ok i :: xs, rfl, nofun, decided_firstOf hi⟩
      · obtain ⟨passed, rest, hxs, hpassed, hd⟩ := ih
        refine ⟨i :: passed, rest, by rw [hxs]; rfl, List.forall_mem_cons.2 ⟨hi, hpassed⟩, ?_⟩
        rwa [firstOf_passed hi]

/-! ## Looking for it -/

/-- Takes turns until an item decides, `n` at most; `none` if that is too few. -/
def search : Nat → List (List UInt8) → Option (Except ParseCause PrivateKey)
  | 0, _ => none
  | n + 1, ls => match Pem.next ls with
    | .ended => some (.error .noKey)
    | .fault f => some (.error (.pem f))
    | .item i rest => if i.kind ∈ keyKinds then some (firstOf [.ok i]) else search n rest

/-- **The search ends** within one turn more than there are lines. -/
theorem search_ends {n : Nat} {ls : List (List UInt8)} (h : ls.length < n) :
    search n ls = some (firstOf (Pem.scan none [] ls)) := by
  induction n generalizing ls with
  | zero => exact absurd h (Nat.not_lt_zero _)
  | succ n ih =>
    rw [search, Pem.scan_eq_nextFrom, ← Pem.next]
    cases hn : Pem.next ls with
    | ended => rfl
    | fault f => rfl
    | item i rest =>
      dsimp only [Turn.items]
      split
      · rename_i hi
        obtain ⟨k, d⟩ := i
        rcases mem_keyKinds.1 hi with rfl | rfl | rfl <;> rfl
      · rename_i hi
        rw [firstOf_passed hi]
        exact ih (Nat.lt_of_lt_of_le (Pem.next_shorter hn) (Nat.le_of_lt_succ h))

/-! ## What makes no difference -/

theorem ofPem_preface {pre : List UInt8} (h : Preface (· ∉ keyKinds) pre) (r : List UInt8) :
    ofPem (pre ++ r) = ofPem r :=
  h.passed (f := firstOf) (fun _ _ hi => firstOf_passed hi) r

theorem ofPem_section {k : Kind} (hk : k ∈ keyKinds) (s : Section k.label) (suffix : List UInt8) :
    ofPem (s.text ++ suffix) = ofPem s.text := by
  refine s.stopped (f := firstOf) (Kind.ofLabel?_label k) (fun r => ?_) suffix
  unfold Section.item
  cases s.contents with
  | error f => rfl
  | ok d =>
    rcases mem_keyKinds.1 hk with rfl | rfl | rfl <;> rfl

/-- **The first private key or fault of a file decides.**  Looking for it item by item comes to an end, whatever the
file holds, and what it ends with is what is made of that one item, or of there being none; the text of what is wrong
says which it was, and of a key that is malformed what is wrong with it.  Whole lines outside of sections and whole
sections of other kinds before it make no difference, and nothing does that comes after the section of a key. -/
theorem first_key_decides (b : List UInt8) :
    (∀ n, (Pem.lines b).length < n → search n (Pem.lines b) = some (ofPem b)) ∧
    (∃ (passed : List Item) (rest : List (Except Pem.Fault Item)), Pem.read b = passed.map .ok ++ rest ∧
      (∀ i ∈ passed, i.kind ∉ keyKinds) ∧ Decided rest (ofPem b)) ∧
    (∀ pre, Preface (· ∉ keyKinds) pre → ofPem (pre ++ b) = ofPem b) ∧
    (∀ k ∈ keyKinds, ∀ s : Section k.label, b = s.text → ∀ suffix, ofPem (b ++ suffix) = ofPem b) ∧
    ∀ words : Wording,
      (∀ f, (ParseCause.pem f).message words = "Invalid PEM: " ++ f.message) ∧
      ParseCause.noKey.message words = "No PRIVATE KEY block found in PEM input" ∧
      ParseCause.rsaKey.message words = "RSA private keys are not supported" ∧
      (∀ d, (ParseCause.wrappedKeyForm d).message words = "Invalid PKCS#8 P-256 key: " ++ words.wrappedKey d) ∧
      ∀ d, (ParseCause.bareKeyForm d).message words = "Invalid SEC1 P-256 key: " ++ words.bareKey d := by
  refine ⟨fun n hn => search_ends hn, exists_decided (Pem.read b), fun pre h => ofPem_preface h b, ?_,
    fun _ => ⟨fun _ => rfl, rfl, rfl, fun _ => rfl, fun _ => rfl⟩⟩
  rintro k hk s rfl suffix
  exact ofPem_section hk s suffix

/-! A note and a public key before the key with the scalar one, and a section that is not closed after it. -/

def oneKey : Item := ⟨.ecKey, [0x30, 0x25, 0x02, 0x01, 0x01, 0x04, 0x20] ++ List.replicate 31 0 ++ [1]⟩

def beforeKey : List UInt8 := utf8 "note\n" ++ Pem.write ⟨.publicKey, [0]⟩

theorem beforeKey_preface : Preface (· ∉ keyKinds) beforeKey := by
  obtain ⟨s, hs, hc, hd⟩ := (Pem.armor_write ⟨.publicKey, [0]⟩).exists_section
  have hsect : Preface (· ∉ keyKinds) (s.text ++ []) := by
    refine .sect s hc (fun k hk => ?_) .nil
    rw [Kind.ofLabel?_label] at hk
    cases hk
    exact ⟨by decide, _, hd⟩
  rw [hs, List.append_nil] at hsect
  have hline : Pem.IsLine (utf8 "note" ++ [0x0A]) := .mk (by decide +kernel) (by decide)
  exact .stray hline (by decide) hsect

theorem first_key_decides_between : Preface (· ∉ keyKinds) beforeKey ∧
    ofPem (beforeKey ++ (Pem.write oneKey ++ utf8 "-----BEGIN")) = .ok ⟨1, by decide, by decide⟩ ∧
    search 6 (Pem.lines (Pem.write oneKey)) = some (.ok ⟨1, by decide, by decide⟩) := by
  have hkey : ofPem (Pem.write oneKey) = .ok ⟨1, by decide, by decide⟩ := by rfl
  obtain ⟨s, hs, -, -⟩ := (Pem.armor_write oneKey).exists_section
  refine ⟨beforeKey_preface, ?_, ?_⟩
  · rw [(first_key_decides _).2.2.1 beforeKey beforeKey_preface,
      (first_key_decides _).2.2.2.1 .ecKey (by decide) s hs.symm, hkey]
  · rw [(first_key_decides _).1 6 (by decide), hkey]

end LedgerClient.SigningKey
