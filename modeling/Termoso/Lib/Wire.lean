import Mathlib.Data.Nat.Notation
import Mathlib.Tactic.Ring

/-!
# Tagged fields on the wire

A message is a list of fields, each a number, written in base 128 with the low digits first, or
bytes, written after their length.  Before the value stands the number of the field and the kind
of the value.

What is written is read back as it was, whatever comes after it.
-/

namespace Wire

abbrev Bytes := List UInt8

/-- Write a number in base 128, with a mark on every byte but the last. -/
def putVarint (v : ℕ) : Bytes :=
  if v < 128 then [UInt8.ofNat v] else UInt8.ofNat (v % 128 + 128) :: putVarint (v / 128)

/-- Read a number, and return what comes after it. -/
def getVarint : Bytes → Option (ℕ × Bytes)
  | [] => none
  | b :: buf =>
    if b.toNat < 128 then some (b.toNat, buf)
    else (getVarint buf).map (fun r => (b.toNat - 128 + 128 * r.1, r.2))

/-- A field of a message. -/
inductive Field
  | uint (field v : ℕ)
  | bytes (field : ℕ) (v : Bytes)
deriving DecidableEq

/-- Write a field. -/
def Field.encode : Field → Bytes
  | .uint field v => putVarint (field * 8) ++ putVarint v
  | .bytes field v => putVarint (field * 8 + 2) ++ putVarint v.length ++ v

/-- Read a field, and return what comes after it. -/
def getField (buf : Bytes) : Option (Field × Bytes) :=
  (getVarint buf).bind fun (tag, buf) =>
    (getVarint buf).bind fun (v, buf) =>
      if tag % 8 = 0 then some (.uint (tag / 8) v, buf)
      else if tag % 8 = 2 ∧ v ≤ buf.length then some (.bytes (tag / 8) (buf.take v), buf.drop v)
      else none

/-- Write the fields of a message. -/
def encode (fields : List Field) : Bytes := fields.flatMap Field.encode

/-- Read at most so many fields, up to the end. -/
def getFields : ℕ → Bytes → Option (List Field)
  | _, [] => some []
  | 0, _ :: _ => none
  | n + 1, buf => (getField buf).bind fun (f, buf) => (getFields n buf).map (fun fs => f :: fs)

/-- Read the fields of a message. -/
def decode (buf : Bytes) : Option (List Field) := getFields buf.length buf

/-! ### What is written is read back -/

theorem getVarint_putVarint (v : ℕ) (buf : Bytes) :
  getVarint (putVarint v ++ buf) = some (v, buf)
  := by
  induction v using putVarint.induct with
  | case1 v hv =>
      have hbyte : (UInt8.ofNat v).toNat = v := by
        rw [UInt8.toNat_ofNat']
        omega
      rw [putVarint, if_pos hv, List.singleton_append, getVarint, hbyte, if_pos hv]
  | case2 v hv ih =>
      have hbyte : (UInt8.ofNat (v % 128 + 128)).toNat = v % 128 + 128 := by
        rw [UInt8.toNat_ofNat']
        omega
      have hnot : ¬ v % 128 + 128 < 128 := by omega
      rw [putVarint, if_neg hv, List.cons_append, getVarint, hbyte, if_neg hnot, ih]
      simp only [Option.map_some, Option.some.injEq, Prod.mk.injEq, and_true]
      omega

theorem getField_encode (f : Field) (buf : Bytes) :
  getField (f.encode ++ buf) = some (f, buf)
  := by
  cases f with
  | uint field v =>
      simp only [Field.encode, List.append_assoc, getField, getVarint_putVarint, Option.bind_some]
      have hkind : field * 8 % 8 = 0 := by omega
      have hfield : field * 8 / 8 = field := by omega
      rw [if_pos hkind, hfield]
  | bytes field v =>
      simp only [Field.encode, List.append_assoc, getField, getVarint_putVarint, Option.bind_some]
      have hkind : (field * 8 + 2) % 8 = 2 := by omega
      have hfield : (field * 8 + 2) / 8 = field := by omega
      have hlen : v.length ≤ (v ++ buf).length := by simp
      rw [if_neg (by omega), if_pos ⟨hkind, hlen⟩, hfield, List.take_left, List.drop_left]

theorem encode_ne_nil (f : Field) :
  f.encode ≠ []
  := by
  intro h
  have hread := getField_encode f []
  rw [h] at hread
  cases hread

theorem getFields_encode {fields : List Field} {n : ℕ} (h : fields.length ≤ n) :
  getFields n (encode fields) = some fields
  := by
  induction fields generalizing n with
  | nil =>
      rw [encode, List.flatMap_nil]
      cases n <;> rfl
  | cons f fields ih =>
      obtain ⟨n, rfl⟩ : ∃ m, n = m + 1 := Nat.exists_eq_succ_of_ne_zero (by
        simp only [List.length_cons] at h
        omega)
      have hread : getField (encode (f :: fields)) = some (f, encode fields) :=
        getField_encode f (encode fields)
      have hne : encode (f :: fields) ≠ [] := by
        intro hnil
        rw [hnil] at hread
        cases hread
      cases hbuf : encode (f :: fields) with
      | nil => exact absurd hbuf hne
      | cons b buf =>
          have hle : fields.length ≤ n := Nat.le_of_succ_le_succ h
          simp only [getFields, ← hbuf, hread, Option.bind_some, ih hle, Option.map_some]

theorem length_le_length_encode (fields : List Field) :
  fields.length ≤ (encode fields).length
  := by
  induction fields with
  | nil => exact Nat.zero_le _
  | cons f fields ih =>
      have hpos : 0 < f.encode.length := List.length_pos_iff.mpr (encode_ne_nil f)
      simp only [encode, List.flatMap_cons, List.length_append, List.length_cons] at ih ⊢
      omega

/-- The fields written are the fields read. -/
@[simp]
theorem decode_encode (fields : List Field) :
  decode (encode fields) = some fields
  := getFields_encode (length_le_length_encode fields)

/-! ### Numbers of fixed length -/

/-- Write a number in so many bytes, the high ones first. -/
def putFixed : ℕ → ℕ → Bytes
  | 0, _ => []
  | n + 1, v => UInt8.ofNat (v / 256 ^ n) :: putFixed n v

/-- Read a number from bytes, the high ones first. -/
def getFixed (buf : Bytes) : ℕ := buf.foldl (fun v b => v * 256 + b.toNat) 0

@[simp]
theorem length_putFixed (n v : ℕ) :
  (putFixed n v).length = n
  := by
  induction n with
  | zero => rfl
  | succ n ih => rw [putFixed, List.length_cons, ih]

/-- A number that fits is read as it was written. -/
theorem getFixed_putFixed {n v : ℕ} (h : v < 256 ^ n) :
  getFixed (putFixed n v) = v
  := by
  have hfold : ∀ n high, (putFixed n v).foldl (fun v b => v * 256 + b.toNat) high
      = high * 256 ^ n + v % 256 ^ n := by
    intro n
    induction n with
    | zero => simp [putFixed, Nat.mod_one]
    | succ n ih =>
        intro high
        have hsplit : v % 256 ^ (n + 1) = v % 256 ^ n + 256 ^ n * (v / 256 ^ n % 2 ^ 8) :=
          Nat.mod_pow_succ
        rw [putFixed, List.foldl_cons, ih, UInt8.toNat_ofNat', hsplit]
        ring
  rw [getFixed, hfold, Nat.mod_eq_of_lt h, Nat.zero_mul, Nat.zero_add]

end Wire
