import Mathlib.Data.List.Basic

/-!
# Base64

Bytes in the alphabet of 64 symbols, three bytes to four symbols, the last group filled up with
padding.  What is written is read back.
-/

namespace Base64

def PAD : UInt8 := 61

/-- The symbol of a number below 64. -/
def symbol (n : ℕ) : UInt8 :=
  .ofNat (if n < 26 then n + 65 else if n < 52 then n + 71 else if n < 62 then n - 4
    else if n = 62 then 43 else 47)

/-- The number of a symbol. -/
def number (b : UInt8) : Option ℕ :=
  if 65 ≤ b ∧ b ≤ 90 then some (b.toNat - 65)
  else if 97 ≤ b ∧ b ≤ 122 then some (b.toNat - 71)
  else if 48 ≤ b ∧ b ≤ 57 then some (b.toNat + 4)
  else if b = 43 then some 62
  else if b = 47 then some 63
  else none

def encode : List UInt8 → List UInt8
  | a :: b :: c :: s =>
    symbol (a.toNat / 4) :: symbol (a.toNat % 4 * 16 + b.toNat / 16)
      :: symbol (b.toNat % 16 * 4 + c.toNat / 64) :: symbol (c.toNat % 64) :: encode s
  | [a, b] =>
    [symbol (a.toNat / 4), symbol (a.toNat % 4 * 16 + b.toNat / 16), symbol (b.toNat % 16 * 4), PAD]
  | [a] => [symbol (a.toNat / 4), symbol (a.toNat % 4 * 16), PAD, PAD]
  | [] => []

/-- The bytes that the symbols of the last group write, unless bits are left over. -/
def lastGroup (a b c d : UInt8) : Option (List UInt8) := do
  let w ← number a
  let x ← number b
  if c = PAD ∧ d = PAD then if x % 16 = 0 then some [.ofNat (w * 4 + x / 16)] else none
  else do
    let y ← number c
    if d = PAD then
      if y % 4 = 0 then some [.ofNat (w * 4 + x / 16), .ofNat (x % 16 * 16 + y / 4)] else none
    else do
      let z ← number d
      some [.ofNat (w * 4 + x / 16), .ofNat (x % 16 * 16 + y / 4), .ofNat (y % 4 * 64 + z)]

def decode : List UInt8 → Option (List UInt8)
  | [] => some []
  | [a, b, c, d] => lastGroup a b c d
  | a :: b :: c :: d :: s => do
    let w ← number a
    let x ← number b
    let y ← number c
    let z ← number d
    let rest ← decode s
    some (.ofNat (w * 4 + x / 16) :: .ofNat (x % 16 * 16 + y / 4) :: .ofNat (y % 4 * 64 + z)
      :: rest)
  | _ => none

/-- A symbol can be printed, stands for its number, and is not the padding. -/
theorem symbol_spec {n : ℕ} (h : n < 64) :
  number (symbol n) = some n ∧ symbol n ≠ PAD ∧ 33 ≤ (symbol n).toNat ∧ (symbol n).toNat < 127
  := by
  have hall : ∀ n : Fin 64, number (symbol n) = some n.val ∧ symbol n ≠ PAD
      ∧ 33 ≤ (symbol n).toNat ∧ (symbol n).toNat < 127 := by
    decide
  exact hall ⟨n, h⟩

theorem number_symbol {n : ℕ} (h : n < 64) :
  number (symbol n) = some n
  := (symbol_spec h).1

theorem symbol_ne_pad {n : ℕ} (h : n < 64) :
  symbol n ≠ PAD
  := (symbol_spec h).2.1

section
variable (a b c : UInt8)

theorem first_lt :
  a.toNat / 4 < 64
  := by
  have := a.toNat_lt
  omega

theorem second_lt :
  a.toNat % 4 * 16 + b.toNat / 16 < 64
  := by
  have := b.toNat_lt
  omega

theorem third_lt :
  b.toNat % 16 * 4 + c.toNat / 64 < 64
  := by
  have := c.toNat_lt
  omega

theorem fourth_lt :
  c.toNat % 64 < 64
  := Nat.mod_lt _ (by decide)

theorem ofNat_first :
  UInt8.ofNat (a.toNat / 4 * 4 + (a.toNat % 4 * 16 + b.toNat / 16) / 16) = a
  := by
  have ha := a.toNat_lt
  have hb := b.toNat_lt
  apply UInt8.toNat.inj
  rw [UInt8.toNat_ofNat']
  omega

theorem ofNat_second :
  UInt8.ofNat ((a.toNat % 4 * 16 + b.toNat / 16) % 16 * 16
    + (b.toNat % 16 * 4 + c.toNat / 64) / 4) = b
  := by
  have hb := b.toNat_lt
  have hc := c.toNat_lt
  apply UInt8.toNat.inj
  rw [UInt8.toNat_ofNat']
  omega

theorem ofNat_third :
  UInt8.ofNat ((b.toNat % 16 * 4 + c.toNat / 64) % 4 * 64 + c.toNat % 64) = c
  := by
  have hc := c.toNat_lt
  apply UInt8.toNat.inj
  rw [UInt8.toNat_ofNat']
  omega

end

/-- What is written is read back. -/
theorem decode_encode (s : List UInt8) :
  decode (encode s) = some s
  := by
  induction s using encode.induct with
  | case1 a b c s ih =>
      have hone := number_symbol (first_lt a)
      have htwo := number_symbol (second_lt a b)
      have hthree := number_symbol (third_lt b c)
      have hfour := number_symbol (fourth_lt c)
      rw [encode]
      cases hrest : encode s with
      | nil =>
          rw [hrest] at ih
          cases ih
          simp only [decode, lastGroup, hone, htwo, hthree, hfour, Option.bind_eq_bind,
            Option.bind_some, symbol_ne_pad (third_lt b c), symbol_ne_pad (fourth_lt c), false_and,
            if_false, ofNat_first, ofNat_second, ofNat_third]
      | cons d rest =>
          rw [hrest] at ih
          simp only [decode, hone, htwo, hthree, hfour, ih, Option.bind_eq_bind, Option.bind_some,
            ofNat_first, ofNat_second, ofNat_third]
  | case2 a b =>
      have h₀ : (0 : UInt8).toNat = 0 := rfl
      have hthird := third_lt b 0
      have hsecond := ofNat_second a b 0
      rw [h₀, Nat.zero_div, Nat.add_zero] at hthird hsecond
      have hzero : b.toNat % 16 * 4 % 4 = 0 := Nat.mul_mod_left _ _
      simp only [encode, decode, lastGroup, number_symbol (first_lt a),
        number_symbol (second_lt a b), number_symbol hthird, symbol_ne_pad hthird, Option.bind_eq_bind, Option.bind_some,
        false_and, if_false, if_true, hzero, ofNat_first, hsecond]
  | case3 a =>
      have h₀ : (0 : UInt8).toNat = 0 := rfl
      have hsecond := second_lt a 0
      have hfirst := ofNat_first a 0
      rw [h₀, Nat.zero_div, Nat.add_zero] at hsecond hfirst
      have hzero : a.toNat % 4 * 16 % 16 = 0 := Nat.mul_mod_left _ _
      simp only [encode, decode, lastGroup, number_symbol (first_lt a), number_symbol hsecond,
        Option.bind_eq_bind, Option.bind_some, and_self, if_true, hzero, hfirst]
  | case4 => rfl

theorem encode_ne_nil {s : List UInt8} (h : s ≠ []) :
  encode s ≠ []
  := by
  fun_cases encode s
  case case4 => exact absurd rfl h
  all_goals exact List.cons_ne_nil _ _

/-- What is written can be printed. -/
theorem printable_of_mem_encode {x : UInt8} {s : List UInt8} (h : x ∈ encode s) :
  33 ≤ x.toNat ∧ x.toNat < 127
  := by
  have hpad : 33 ≤ PAD.toNat ∧ PAD.toNat < 127 := by decide
  induction s using encode.induct with
  | case1 a b c s ih =>
      rw [encode] at h
      simp only [List.mem_cons] at h
      rcases h with rfl | rfl | rfl | rfl | h
      · exact (symbol_spec (first_lt a)).2.2
      · exact (symbol_spec (second_lt a b)).2.2
      · exact (symbol_spec (third_lt b c)).2.2
      · exact (symbol_spec (fourth_lt c)).2.2
      · exact ih h
  | case2 a b =>
      rw [encode] at h
      simp only [List.mem_cons, List.not_mem_nil, or_false] at h
      rcases h with rfl | rfl | rfl | rfl
      · exact (symbol_spec (first_lt a)).2.2
      · exact (symbol_spec (second_lt a b)).2.2
      · exact (symbol_spec (Nat.lt_of_le_of_lt (Nat.le_add_right _ _) (third_lt b 0))).2.2
      · exact hpad
  | case3 a =>
      rw [encode] at h
      simp only [List.mem_cons, List.not_mem_nil, or_false] at h
      rcases h with rfl | rfl | rfl | rfl
      · exact (symbol_spec (first_lt a)).2.2
      · exact (symbol_spec (Nat.lt_of_le_of_lt (Nat.le_add_right _ _) (second_lt a 0))).2.2
      · exact hpad
      · exact hpad
  | case4 => cases h

example : decode [84, 87, 70, 117, 84, 81, 61, 61] = some [77, 97, 110, 77] := by rfl

end Base64
