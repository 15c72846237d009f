import Mathlib.Data.Nat.Basic

/-!
# Numbers of two bytes

A number of sixteen bits as two bytes, in either byte order.
-/

namespace Word

/-- The two bytes of a number. -/
def bytes (littleEndian : Bool) (v : UInt16) : List UInt8 :=
  let high : UInt8 := .ofNat (v.toNat / 256)
  let low : UInt8 := .ofNat (v.toNat % 256)
  if littleEndian then [low, high] else [high, low]

/-- The number that two bytes hold. -/
def read (littleEndian : Bool) (a b : UInt8) : UInt16 :=
  .ofNat (if littleEndian then b.toNat * 256 + a.toNat else a.toNat * 256 + b.toNat)

theorem ofNat_high_low (v : UInt16) :
  UInt16.ofNat ((UInt8.ofNat (v.toNat / 256)).toNat * 256 + (UInt8.ofNat (v.toNat % 256)).toNat) = v
  := by
  have hv := v.toNat_lt
  apply UInt16.toNat.inj
  rw [UInt16.toNat_ofNat', UInt8.toNat_ofNat', UInt8.toNat_ofNat']
  omega

theorem high_low_ofNat (a b : UInt8) :
  UInt8.ofNat ((UInt16.ofNat (a.toNat * 256 + b.toNat)).toNat / 256) = a ∧
    UInt8.ofNat ((UInt16.ofNat (a.toNat * 256 + b.toNat)).toNat % 256) = b
  := by
  have ha := a.toNat_lt
  have hb := b.toNat_lt
  constructor
  · apply UInt8.toNat.inj
    rw [UInt8.toNat_ofNat', UInt16.toNat_ofNat']
    omega
  · apply UInt8.toNat.inj
    rw [UInt8.toNat_ofNat', UInt16.toNat_ofNat']
    omega

@[simp]
theorem length_bytes (littleEndian : Bool) (v : UInt16) :
  (bytes littleEndian v).length = 2
  := by
  cases littleEndian <;> rfl

/-- A number that is written is read back. -/
theorem exists_bytes (littleEndian : Bool) (v : UInt16) :
  ∃ a b, bytes littleEndian v = [a, b] ∧ read littleEndian a b = v
  := by
  cases littleEndian with
  | true => exact ⟨_, _, rfl, ofNat_high_low v⟩
  | false => exact ⟨_, _, rfl, ofNat_high_low v⟩

/-- A number that is read is written back. -/
theorem bytes_read (littleEndian : Bool) (a b : UInt8) :
  bytes littleEndian (read littleEndian a b) = [a, b]
  := by
  cases littleEndian with
  | true =>
      obtain ⟨hhigh, hlow⟩ := high_low_ofNat b a
      exact congrArg₂ (fun x y => [x, y]) hlow hhigh
  | false =>
      obtain ⟨hhigh, hlow⟩ := high_low_ofNat a b
      exact congrArg₂ (fun x y => [x, y]) hhigh hlow

end Word
