import Mathlib.Data.List.Basic
import Mathlib.Data.Nat.Basic

/-!
# Numbers written in a radix

The digits of a number, highest first, and the number that digits write.  A number is read back
from its digits, whatever follows that is not a digit; and its digits start with a zero only when
it is zero.
-/

namespace Digits

variable {radix n : ℕ} {c : Char} {s : List Char}

/-- The value of a character as a digit in a radix of at most sixteen. -/
def toDigit (radix : ℕ) (c : Char) : Option ℕ :=
  let d :=
    if c.isDigit then c.toNat - 48
    else if 'a' ≤ c ∧ c ≤ 'f' then c.toNat - 87
    else if 'A' ≤ c ∧ c ≤ 'F' then c.toNat - 55
    else radix
  if d < radix then some d else none

/-- The digits at the start of a text. -/
def digits (radix : ℕ) (s : List Char) : List Char :=
  s.takeWhile (fun c => (toDigit radix c).isSome)

/-- The number that digits write. -/
def value (radix : ℕ) (s : List Char) : ℕ :=
  s.foldl (fun n c => n * radix + (toDigit radix c).getD 0) 0

/-- What follows an optional sign. -/
def afterSign : List Char → List Char
  | '+' :: ds => ds
  | ds => ds

/-- Read a number up to `max` in decimal, after an optional sign. -/
def parseUnsigned (max : ℕ) (s : List Char) : Option ℕ :=
  let ds := afterSign s
  if ds ≠ [] ∧ ds.all (fun c => (toDigit 10 c).isSome) = true ∧ value 10 ds ≤ max then
    some (value 10 ds)
  else none

theorem toDigit_digitChar {d : ℕ} (hd : d < radix) (hradix : radix ≤ 16) :
  toDigit radix d.digitChar = some d
  := by
  have hvalue : ∀ d : Fin 16, ∀ radix : Fin 17, d.val < radix.val →
      toDigit radix.val d.val.digitChar = some d.val := by
    decide
  exact hvalue ⟨d, by omega⟩ ⟨radix, by omega⟩ hd

/-- A digit is one in every larger radix. -/
theorem isSome_toDigit_of_le {radix' : ℕ} (hle : radix ≤ radix')
    (h : (toDigit radix c).isSome = true) :
  (toDigit radix' c).isSome = true
  := by
  simp only [toDigit, Option.isSome_ite] at h ⊢
  by_cases hdigit : c.isDigit = true
  · rw [if_pos hdigit] at h ⊢
    exact lt_of_lt_of_le h hle
  rw [if_neg hdigit] at h ⊢
  by_cases hlower : 'a' ≤ c ∧ c ≤ 'f'
  · rw [if_pos hlower] at h ⊢
    exact lt_of_lt_of_le h hle
  rw [if_neg hlower] at h ⊢
  by_cases hupper : 'A' ≤ c ∧ c ≤ 'F'
  · rw [if_pos hupper] at h ⊢
    exact lt_of_lt_of_le h hle
  · rw [if_neg hupper] at h
    exact absurd h (lt_irrefl _)

/-- The characters that can be digits. -/
theorem toNat_of_isSome_toDigit (h : (toDigit radix c).isSome = true) :
  48 ≤ c.toNat ∧ c.toNat ≤ 102
  := by
  simp only [toDigit, Option.isSome_ite] at h
  by_cases hdigit : c.isDigit = true
  · rw [Char.isDigit, Bool.and_eq_true, decide_eq_true_eq, decide_eq_true_eq] at hdigit
    have hlow : 48 ≤ c.toNat := hdigit.1
    have hhigh : c.toNat ≤ 57 := hdigit.2
    omega
  rw [if_neg hdigit] at h
  by_cases hlower : 'a' ≤ c ∧ c ≤ 'f'
  · have hlow : 97 ≤ c.toNat := hlower.1
    have hhigh : c.toNat ≤ 102 := hlower.2
    omega
  rw [if_neg hlower] at h
  by_cases hupper : 'A' ≤ c ∧ c ≤ 'F'
  · have hlow : 65 ≤ c.toNat := hupper.1
    have hhigh : c.toNat ≤ 70 := hupper.2
    omega
  · rw [if_neg hupper] at h
    exact absurd h (lt_irrefl _)

theorem value_append (s : List Char) (c : Char) :
  value radix (s ++ [c]) = value radix s * radix + (toDigit radix c).getD 0
  := by
  rw [value, List.foldl_append, List.foldl_cons, List.foldl_nil, value]

variable (hbase : 1 < radix) (hradix : radix ≤ 16)
include hbase hradix

theorem isSome_toDigit_of_mem (h : c ∈ Nat.toDigits radix n) :
  (toDigit radix c).isSome = true
  := by
  induction n using Nat.strongRecOn with
  | ind n ih =>
      rw [Nat.toDigits_eq_if hbase] at h
      split at h
      · rename_i hlt
        rw [List.mem_singleton.mp h, toDigit_digitChar hlt hradix]
        rfl
      · rename_i hge
        rcases List.mem_append.mp h with h | h
        · exact ih (n / radix) (Nat.div_lt_self (by omega) hbase) h
        · rw [List.mem_singleton.mp h, toDigit_digitChar (Nat.mod_lt n (by omega)) hradix]
          rfl

theorem value_toDigits (n : ℕ) :
  value radix (Nat.toDigits radix n) = n
  := by
  induction n using Nat.strongRecOn with
  | ind n ih =>
      rw [Nat.toDigits_eq_if hbase]
      split
      · rename_i hlt
        rw [value, List.foldl_cons, List.foldl_nil, toDigit_digitChar hlt hradix]
        simp
      · rename_i hge
        rw [value_append, ih (n / radix) (Nat.div_lt_self (by omega) hbase),
          toDigit_digitChar (Nat.mod_lt n (by omega)) hradix, Option.getD_some, Nat.mul_comm]
        exact Nat.div_add_mod n radix

/-- The digits of a number are the digits at the start, before what is not one. -/
theorem digits_toDigits (hs : ∀ c ∈ s.head?, toDigit radix c = none) :
  digits radix (Nat.toDigits radix n ++ s) = Nat.toDigits radix n
  := by
  rw [digits, List.takeWhile_append_of_pos (fun c hc => isSome_toDigit_of_mem hbase hradix hc)]
  cases s with
  | nil => simp
  | cons c s =>
      rw [List.takeWhile_cons_of_neg (by simp [hs c rfl]), List.append_nil]

/-- Only zero starts with a zero. -/
theorem head?_toDigits (h : (Nat.toDigits radix n).head? = some '0') :
  (Nat.toDigits radix n).length = 1
  := by
  induction n using Nat.strongRecOn with
  | ind n ih =>
      rw [Nat.toDigits_eq_if hbase] at h ⊢
      split
      · rfl
      · rename_i hge
        exfalso
        rw [if_neg hge, List.head?_append_of_ne_nil _ Nat.toDigits_ne_nil] at h
        have hone := ih (n / radix) (Nat.div_lt_self (by omega) hbase) h
        obtain ⟨c, hc⟩ := List.length_eq_one_iff.mp hone
        rw [hc] at h
        cases h
        have hzero := value_toDigits hbase hradix (n / radix)
        rw [hc, value, List.foldl_cons, List.foldl_nil] at hzero
        have hdiv : 0 < n / radix := Nat.div_pos (by omega) (by omega)
        have hdigit : (toDigit radix '0').getD 0 = 0 := by
          rw [show '0' = (0 : ℕ).digitChar from rfl, toDigit_digitChar (by omega) hradix]
          rfl
        rw [hdigit] at hzero
        omega

omit hbase hradix in
/-- A number is read back from its decimal digits. -/
theorem parseUnsigned_toDigits {max : ℕ} (h : n ≤ max) :
  parseUnsigned max (Nat.toDigits 10 n) = some n
  := by
  have hdigit : ∀ c ∈ Nat.toDigits 10 n, (toDigit 10 c).isSome = true :=
    fun c hc => isSome_toDigit_of_mem (by decide) (by decide) hc
  have hsign : afterSign (Nat.toDigits 10 n) = Nat.toDigits 10 n := by
    unfold afterSign
    split
    · rename_i ds hds
      have hplus := hdigit '+' (hds ▸ List.mem_cons_self)
      exact absurd hplus (by decide)
    · rfl
  rw [parseUnsigned, hsign, value_toDigits (by decide) (by decide), if_pos]
  exact ⟨Nat.toDigits_ne_nil, List.all_eq_true.mpr hdigit, h⟩

end Digits
