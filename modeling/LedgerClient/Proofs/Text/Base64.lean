import LedgerClient.Proofs.Text.Utf8
import LedgerClient.Text.Base64
/-!
# Bytes that are written in base64 are read back

Spaces count for nothing (`decode_filter`), symbols are gathered until eight of them have come together
(`decodeFrom_full`), and a group of four symbols stands for the three bytes it was made of, or for the last two or the
last one; so bytes are read back from their symbols, whatever their number (`decode_encode`).
-/
namespace LedgerClient.Base64

variable {n : Nat} {b : UInt8} {r : List UInt8}

/-! ## Symbols -/

/-- A symbol of the alphabet. -/
def IsSymbol (b : UInt8) : Prop := ∃ n, n < 64 ∧ b = symbol n

theorem symbol?_symbol (h : n < 64) : symbol? (symbol n) = some n := by
  have hall : ∀ k : Fin 64, symbol? (symbol k) = some k.val := by decide
  exact hall ⟨n, h⟩

theorem isSpace_symbol (h : n < 64) : isSpace (symbol n) = false := by
  have hall : ∀ k : Fin 64, isSpace (symbol k) = false := by decide
  exact hall ⟨n, h⟩

theorem symbol_ne_pad (h : n < 64) : symbol n ≠ pad := by
  have hall : ∀ k : Fin 64, symbol k ≠ pad := by decide
  exact hall ⟨n, h⟩

theorem sextet_symbol (h : n < 64) : sextet (symbol n) = .ok (some n) := by
  rw [sextet, if_neg (symbol_ne_pad h), symbol?_symbol h]

/-! ## Groups -/

theorem ofNat_eq_of_mod {n : Nat} {b : UInt8} (h : n % 256 = b.toNat) : UInt8.ofNat n = b :=
  UInt8.toNat_inj.1 (by rw [UInt8.toNat_ofNat', h])

section Groups

variable (a b c : UInt8)

/-- The four symbols of three bytes. -/
def quad : List Nat :=
  [a.toNat / 4, a.toNat % 4 * 16 + b.toNat / 16, b.toNat % 16 * 4 + c.toNat / 64, c.toNat % 64]

theorem quad_lt {n : Nat} (h : n ∈ quad a b c) : n < 64 := by
  have ha : a.toNat < 256 := a.toNat_lt_size
  have hb : b.toNat < 256 := b.toNat_lt_size
  have hc : c.toNat < 256 := c.toNat_lt_size
  simp only [quad, List.mem_cons, List.not_mem_nil, or_false] at h
  omega

theorem first_octet : UInt8.ofNat (a.toNat / 4 * 4 + (a.toNat % 4 * 16 + b.toNat / 16) / 16) = a := by
  have ha : a.toNat < 256 := a.toNat_lt_size
  have hb : b.toNat < 256 := b.toNat_lt_size
  exact ofNat_eq_of_mod (by omega)

theorem second_octet :
    UInt8.ofNat ((a.toNat % 4 * 16 + b.toNat / 16) * 16 + (b.toNat % 16 * 4 + c.toNat / 64) / 4) = b := by
  have hb : b.toNat < 256 := b.toNat_lt_size
  have hc : c.toNat < 256 := c.toNat_lt_size
  exact ofNat_eq_of_mod (by omega)

theorem third_octet : UInt8.ofNat ((b.toNat % 16 * 4 + c.toNat / 64) * 64 + c.toNat % 64) = c := by
  have hc : c.toNat < 256 := c.toNat_lt_size
  exact ofNat_eq_of_mod (by omega)

/-- **A group stands for the bytes it was made of**, also if only the first symbols of it are there. -/
theorem octets_quad : octets (quad a b c) = [a, b, c] ∧ octets ((quad a b 0).take 3) = [a, b] ∧
    octets ((quad a 0 0).take 2) = [a] := by
  refine ⟨?_, ?_, ?_⟩ <;> simp only [quad, List.take, octets, first_octet, second_octet, third_octet]

end Groups

/-! What is written, by groups. -/

theorem encode_one (a : UInt8) : encode [a] = ((quad a 0 0).take 2).map symbol ++ [pad, pad] := rfl

theorem encode_two (a b : UInt8) : encode [a, b] = ((quad a b 0).take 3).map symbol ++ [pad] := rfl

theorem encode_three (a b c : UInt8) (r : List UInt8) :
    encode (a :: b :: c :: r) = (quad a b c).map symbol ++ encode r := rfl

theorem isSymbol_of_mem {g : List Nat} (hg : ∀ n ∈ g, n < 64) (h : b ∈ g.map symbol) : IsSymbol b := by
  obtain ⟨n, hn, rfl⟩ := List.mem_map.1 h
  exact ⟨n, hg n hn, rfl⟩

theorem take_quad_lt {a b c : UInt8} (k : Nat) : ∀ n ∈ (quad a b c).take k, n < 64 :=
  fun _ h => quad_lt a b c (List.mem_of_mem_take h)

/-- **Only symbols and padding are written.** -/
theorem isSymbol_or_pad {d : List UInt8} (h : b ∈ encode d) : IsSymbol b ∨ b = pad := by
  induction d using encode.induct with
  | case1 => cases h
  | case2 x =>
    rw [encode_one, List.mem_append] at h
    rcases h with h | h
    · exact .inl (isSymbol_of_mem (take_quad_lt 2) h)
    · exact .inr (List.eq_of_mem_replicate (n := 2) h)
  | case3 x y =>
    rw [encode_two, List.mem_append] at h
    rcases h with h | h
    · exact .inl (isSymbol_of_mem (take_quad_lt 3) h)
    · exact .inr (List.mem_singleton.1 h)
  | case4 x y z r ih =>
    rw [encode_three, List.mem_append] at h
    rcases h with h | h
    · exact .inl (isSymbol_of_mem (fun n => quad_lt x y z) h)
    · exact ih h

theorem isSpace_of_mem_encode {d : List UInt8} (h : b ∈ encode d) : isSpace b = false := by
  rcases isSymbol_or_pad h with ⟨n, hn, rfl⟩ | rfl
  · exact isSpace_symbol hn
  · decide

/-! ## Gathering -/

theorem decodeFrom_space (h : isSpace b = true) (block : List (Option Nat)) :
    decodeFrom block (b :: r) = decodeFrom block r := by
  rw [decodeFrom, if_pos h]

theorem decodeFrom_filter (block : List (Option Nat)) (s : List UInt8) :
    decodeFrom block (s.filter fun b => !isSpace b) = decodeFrom block s := by
  induction s generalizing block with
  | nil => rfl
  | cons b r ih =>
    cases hb : isSpace b with
    | true => rw [List.filter_cons_of_neg (by simp [hb]), decodeFrom_space hb, ih]
    | false =>
      rw [List.filter_cons_of_pos (by simp [hb]), decodeFrom, decodeFrom, hb]
      simp only [ih]

/-- **Spaces count for nothing**, wherever they stand. -/
theorem decode_filter (s : List UInt8) : decode (s.filter fun b => !isSpace b) = decode s :=
  decodeFrom_filter [] s

theorem decodeFrom_symbol {block : List (Option Nat)} (h : n < 64) (hb : block.length < 8) :
    decodeFrom block (symbol n :: r) = decodeFrom (block ++ [some n]) r := by
  rw [decodeFrom, isSpace_symbol h, sextet_symbol h]
  simp only [Bool.false_eq_true, ↓reduceIte, hb]

theorem decodeFrom_pad {block : List (Option Nat)} (hb : block.length < 8) :
    decodeFrom block (pad :: r) = decodeFrom (block ++ [none]) r := by
  have hs : sextet pad = .ok none := rfl
  rw [decodeFrom, hs]
  simp only [show isSpace pad = false by decide, Bool.false_eq_true, ↓reduceIte, hb]

/-- **Eight symbols that have come together are done with**: what comes after them begins anew. -/
theorem decodeFrom_full {g : List Nat} (hg : g.length = 8) (s : List UInt8) :
    decodeFrom (g.map some) s = (decodeFrom [] s).map (octets g ++ ·) := by
  induction s with
  | nil =>
    match g, hg with
    | [_, _, _, _, _, _, _, _], _ => rfl
  | cons b r ih =>
    rw [decodeFrom, decodeFrom]
    split
    · exact ih
    · cases sextet b with
      | error f => rfl
      | ok s =>
        dsimp only
        have hfull : ¬ (g.map some).length < 8 := by simp [hg]
        rw [if_neg hfull]
        simp

/-! ## Reading groups -/

theorem octets_append {g h : List Nat} (hg : g.length = 4) : octets (g ++ h) = octets g ++ octets h := by
  match g, hg with
  | [_, _, _, _], _ => rfl

/-- Of the last block, a first group of symbols is read by itself. -/
theorem lastBlock_append {g : List Nat} (hg : g.length = 4) (x : Option Nat) (l : List (Option Nat)) :
    lastBlock (g.map some ++ x :: l) = (lastGroup (x :: l)).map (octets g ++ ·) := by
  have hlong : ¬ (g.map some ++ x :: l).length ≤ 4 := by
    rw [List.length_append, List.length_map, List.length_cons, hg]
    omega
  have hsome : ¬ none ∈ g.map some := by simp
  rw [lastBlock, if_neg hlong, List.take_left' (by simpa using hg), List.drop_left' (by simpa using hg), if_neg hsome]
  simp

theorem decodeFrom_symbols {g : List Nat} (hg : ∀ n ∈ g, n < 64) (block : List (Option Nat))
    (hb : block.length + g.length ≤ 8) :
    decodeFrom block (g.map symbol ++ r) = decodeFrom (block ++ g.map some) r := by
  induction g generalizing block with
  | nil => rw [List.map_nil, List.nil_append, List.map_nil, List.append_nil]
  | cons n g ih =>
    rw [List.length_cons] at hb
    rw [List.map_cons, List.cons_append, decodeFrom_symbol (hg n List.mem_cons_self) (by omega),
      ih (fun m hm => hg m (List.mem_cons_of_mem n hm)) _ (by rw [List.length_append, List.length_singleton]; omega),
      List.map_cons, List.append_assoc, List.singleton_append]

/-- **Symbols are read where a block begins, and where one group was gathered before them.** -/
theorem decodeFrom_encode (d : List UInt8) : decodeFrom [] (encode d) = .ok d ∧
    ∀ g : List Nat, g.length = 4 → decodeFrom (g.map some) (encode d) = .ok (octets g ++ d) := by
  induction d using encode.induct with
  | case1 =>
    refine ⟨rfl, fun g hg => ?_⟩
    match g, hg with
    | [_, _, _, _], _ => rfl
  | case2 a =>
    have hone := (octets_quad a 0 0).2.2
    refine ⟨?_, fun g hg => ?_⟩
    · rw [encode_one, decodeFrom_symbols (take_quad_lt 2) _ (by simp [quad]), decodeFrom_pad (by simp [quad]),
        decodeFrom_pad (by simp [quad])]
      exact congrArg Except.ok hone
    · rw [encode_one, decodeFrom_symbols (take_quad_lt 2) _ (by simp [hg, quad]), decodeFrom_pad (by simp [hg, quad]),
        decodeFrom_pad (by simp [hg, quad]), List.append_assoc, List.append_assoc, decodeFrom]
      exact (lastBlock_append hg _ _).trans (congrArg (fun l => Except.ok (octets g ++ l)) hone)
  | case3 a b =>
    have htwo := (octets_quad a b 0).2.1
    refine ⟨?_, fun g hg => ?_⟩
    · rw [encode_two, decodeFrom_symbols (take_quad_lt 3) _ (by simp [quad]), decodeFrom_pad (by simp [quad])]
      exact congrArg Except.ok htwo
    · rw [encode_two, decodeFrom_symbols (take_quad_lt 3) _ (by simp [hg, quad]), decodeFrom_pad (by simp [hg, quad]),
        List.append_assoc, decodeFrom]
      exact (lastBlock_append hg _ _).trans (congrArg (fun l => Except.ok (octets g ++ l)) htwo)
  | case4 a b c r ih =>
    have hthree := (octets_quad a b c).1
    have hlt : ∀ n ∈ quad a b c, n < 64 := fun n => quad_lt a b c
    refine ⟨?_, fun g hg => ?_⟩
    · rw [encode_three, decodeFrom_symbols hlt _ (by simp [quad]), List.nil_append, ih.2 _ rfl, hthree]
      rfl
    · rw [encode_three, decodeFrom_symbols hlt _ (by simp [hg, quad]), ← List.map_append,
        decodeFrom_full (by simp [hg, quad]), ih.1, octets_append hg, hthree, Except.map, List.append_assoc]
      rfl

/-- **Bytes are read back from their symbols.** -/
theorem decode_encode (d : List UInt8) : decode (encode d) = .ok d := (decodeFrom_encode d).1

end LedgerClient.Base64
