import Termoso.Core.Mosh.Proto
import Mathlib.Data.Nat.Bitwise
import Mathlib.Tactic.Ring

/-!
# Instructions on the wire

An instruction is written as one field after the other: numbers in base 128, then the diff and the
chaff with their lengths.  It is read field by field into a value that starts out empty.

The reader shifts the digits of a number into place.  Numbers of 64 bits take at most ten digits,
so what was written is read back.
-/

namespace Termoso.Core.Mosh

open Wire (Bytes putVarint)
open Reader

namespace Instruction

/-- An instruction with its numbers in the range of their types. -/
structure Fits (i : Instruction) : Prop where
  protocolVersion : i.protocolVersion < 2 ^ 32
  oldNum : i.oldNum < 2 ^ 64
  newNum : i.newNum < 2 ^ 64
  ackNum : i.ackNum < 2 ^ 64
  throwawayNum : i.throwawayNum < 2 ^ 64
  diff : i.diff.length < 2 ^ 64
  chaff : i.chaff.length < 2 ^ 64

def encode (i : Instruction) : Bytes :=
  putUint 1 i.protocolVersion ++ putUint 2 i.oldNum ++ putUint 3 i.newNum ++ putUint 4 i.ackNum
    ++ putUint 5 i.throwawayNum ++ putBytes 6 i.diff ++ putBytes 7 i.chaff

def default : Instruction := ⟨0, 0, 0, 0, 0, [], []⟩

/-- Read a field into an instruction. -/
def decodeField (t : UInt64 × UInt64) (i : Instruction) (buf : Bytes) :
    Except MoshError (Instruction × Bytes) :=
  if t = (1, VARINT) then do
    let (v, buf) ← varint buf
    if v.toNat < 2 ^ 32 then .ok ({ i with protocolVersion := v.toNat }, buf) else .error .protobuf
  else if t = (2, VARINT) then (varint buf).map (fun r => ({ i with oldNum := r.1.toNat }, r.2))
  else if t = (3, VARINT) then (varint buf).map (fun r => ({ i with newNum := r.1.toNat }, r.2))
  else if t = (4, VARINT) then (varint buf).map (fun r => ({ i with ackNum := r.1.toNat }, r.2))
  else if t = (5, VARINT) then (varint buf).map (fun r => ({ i with throwawayNum := r.1.toNat }, r.2))
  else if t = (6, LEN) then (bytes buf).map (fun r => ({ i with diff := r.1 }, r.2))
  else if t = (7, LEN) then (bytes buf).map (fun r => ({ i with chaff := r.1 }, r.2))
  else skipping t.2 i buf

def decode (buf : Bytes) : Except MoshError Instruction := fields decodeField buf.length default buf

end Instruction

namespace Reader

/-! ### What the reader reads -/

/-- A digit shifted into place is added to the digits below it. -/
theorem toNat_or_shiftLeft {v : UInt64} {b : UInt8} {s : ℕ} (hs : s < 64) (hv : v.toNat < 2 ^ s)
    (hb : b.toNat % 128 * 2 ^ s < 2 ^ 64) :
  (v ||| ((b &&& 0x7f).toUInt64 <<< UInt64.ofNat s)).toNat = v.toNat + b.toNat % 128 * 2 ^ s
  := by
  have hdigit : (b &&& 0x7f).toNat = b.toNat % 128 := by
    rw [UInt8.toNat_and]
    exact Nat.and_two_pow_sub_one_eq_mod b.toNat 7
  have hshift : (UInt64.ofNat s).toNat % 64 = s := by
    rw [UInt64.toNat_ofNat']
    omega
  rw [UInt64.toNat_or, UInt64.toNat_shiftLeft, hshift, UInt8.toNat_toUInt64, hdigit,
    Nat.shiftLeft_eq, Nat.mod_eq_of_lt hb, Nat.or_comm, Nat.mul_comm,
    ← Nat.two_pow_add_eq_or_of_lt hv]
  omega

/-- A byte without the mark ends a number. -/
theorem and_mark_eq_zero_iff {b : UInt8} :
  b &&& 0x80 = 0 ↔ b.toNat < 128
  := by
  have hbit : (b &&& 0x80).toNat = (b.toNat.testBit 7).toNat * 2 ^ 7 := by
    rw [UInt8.toNat_and]
    exact Nat.and_two_pow b.toNat 7
  have hb : b.toNat < 256 := b.toNat_lt
  rw [← UInt8.toNat_inj, hbit, Nat.testBit_eq_decide_div_mod_eq]
  by_cases h : b.toNat / 2 ^ 7 % 2 = 1
  · simp only [h, decide_true]
    constructor
    · intro hone
      cases hone
    · omega
  · simp only [h, decide_false]
    constructor
    · omega
    · exact fun _ => rfl

/-- Digits that fit above others fit with them. -/
theorem add_lt_of_mul_lt {low v s : ℕ} (hs : s < 64) (hlow : low < 2 ^ s) (hv : v * 2 ^ s < 2 ^ 64) :
  low + v * 2 ^ s < 2 ^ 64
  := by
  have hsplit : 2 ^ 64 = 2 ^ (64 - s) * 2 ^ s := by
    rw [← Nat.pow_add]
    congr 1
    omega
  rw [hsplit] at hv ⊢
  have hlt : v < 2 ^ (64 - s) := Nat.lt_of_mul_lt_mul_right hv
  calc
    low + v * 2 ^ s < 2 ^ s + v * 2 ^ s := Nat.add_lt_add_right hlow _
    _ = (v + 1) * 2 ^ s := by ring
    _ ≤ 2 ^ (64 - s) * 2 ^ s := Nat.mul_le_mul_right _ hlt

/-- A number in base 128 is read back on top of the digits below it. -/
theorem varintFrom_putVarint (n s v : ℕ) (low : UInt64) (buf : Bytes) (hn : s + 7 * n = 70)
    (hs : s < 64) (hlow : low.toNat < 2 ^ s) (hv : v * 2 ^ s < 2 ^ 64) :
  varintFrom n (UInt64.ofNat s) low (putVarint v ++ buf)
    = .ok (UInt64.ofNat (low.toNat + v * 2 ^ s), buf)
  := by
  induction v using Nat.strong_induction_on generalizing n s low with
  | _ v ih =>
    by_cases hsmall : v < 128
    · obtain ⟨n, rfl⟩ : ∃ m, n = m + 1 := Nat.exists_eq_succ_of_ne_zero (by omega)
      have hbyte : (UInt8.ofNat v).toNat = v := by
        rw [UInt8.toNat_ofNat']
        omega
      have hdigit : v % 128 = v := Nat.mod_eq_of_lt hsmall
      have hvalue : low ||| ((UInt8.ofNat v &&& 0x7f).toUInt64 <<< UInt64.ofNat s)
          = UInt64.ofNat (low.toNat + v * 2 ^ s) := by
        apply UInt64.toNat_inj.mp
        rw [toNat_or_shiftLeft hs hlow (by rwa [hbyte, hdigit]), hbyte, hdigit,
          UInt64.toNat_ofNat', Nat.mod_eq_of_lt (add_lt_of_mul_lt hs hlow hv)]
      rw [putVarint, if_pos hsmall, List.singleton_append, varintFrom, hvalue,
        if_pos (and_mark_eq_zero_iff.mpr (by rwa [hbyte]))]
    · obtain ⟨n, rfl⟩ : ∃ m, n = m + 1 := Nat.exists_eq_succ_of_ne_zero (by omega)
      have hbyte : (UInt8.ofNat (v % 128 + 128)).toNat = v % 128 + 128 := by
        rw [UInt8.toNat_ofNat']
        omega
      have hdigit : (v % 128 + 128) % 128 = v % 128 := by omega
      have hpow : 2 ^ (s + 7) = 128 * 2 ^ s := by
        rw [Nat.pow_add]
        ring
      have hsum : v % 128 * 2 ^ s + v / 128 * 2 ^ (s + 7) = v * 2 ^ s := by
        rw [hpow]
        calc
          v % 128 * 2 ^ s + v / 128 * (128 * 2 ^ s) = (v % 128 + 128 * (v / 128)) * 2 ^ s := by ring
          _ = v * 2 ^ s := by rw [Nat.mod_add_div]
      have hfirst : v % 128 * 2 ^ s < 2 ^ 64 := by omega
      have hrest : v / 128 * 2 ^ (s + 7) < 2 ^ 64 := by omega
      have hnext : s + 7 < 64 := by
        by_contra hnot
        have hpow64 : 2 ^ 64 ≤ 2 ^ (s + 7) := Nat.pow_le_pow_right (by omega) (by omega)
        have hpos : 1 ≤ v / 128 := by omega
        have := Nat.mul_le_mul hpos hpow64
        omega
      have hvalue := toNat_or_shiftLeft (b := UInt8.ofNat (v % 128 + 128)) hs hlow
        (by rwa [hbyte, hdigit])
      rw [hbyte, hdigit] at hvalue
      have hshift : UInt64.ofNat s + 7 = UInt64.ofNat (s + 7) := by
        apply UInt64.toNat_inj.mp
        rw [UInt64.toNat_add, UInt64.toNat_ofNat', UInt64.toNat_ofNat']
        simp
      rw [putVarint, if_neg hsmall, List.cons_append, varintFrom,
        if_neg (by rw [and_mark_eq_zero_iff, hbyte]; omega), hshift,
        ih (v / 128) (by omega) n (s + 7) _ (by omega) hnext]
      · rw [hvalue, Nat.add_assoc, hsum]
      · rw [hvalue, hpow]
        have : v % 128 ≤ 127 := by omega
        have := Nat.mul_le_mul_right (2 ^ s) this
        omega
      · exact hrest

variable {v : ℕ} {buf : Bytes}

theorem varint_putVarint (hv : v < 2 ^ 64) :
  varint (putVarint v ++ buf) = .ok (UInt64.ofNat v, buf)
  := by
  have hread := varintFrom_putVarint 10 0 v 0 buf (by omega) (by omega) (by decide) (by omega)
  simpa [varint] using hread

theorem bytes_putVarint {b : Bytes} (hb : b.length < 2 ^ 64) :
  bytes (putVarint b.length ++ b ++ buf) = .ok (b, buf)
  := by
  have hlen : (UInt64.ofNat b.length).toNat = b.length := by
    rw [UInt64.toNat_ofNat', Nat.mod_eq_of_lt hb]
  unfold bytes
  rw [List.append_assoc, varint_putVarint hb]
  change advance (UInt64.ofNat b.length).toNat (b ++ buf) = _
  rw [hlen, advance, if_pos (by simp), List.take_left, List.drop_left]

theorem tag_putVarint {field wire : ℕ} (hfield : field < 2 ^ 29) (hwire : wire < 8) :
  tag (putVarint (field * 8 + wire) ++ buf) = .ok ((UInt64.ofNat field, UInt64.ofNat wire), buf)
  := by
  have hlt : field * 8 + wire < 2 ^ 64 := by omega
  have htag : (UInt64.ofNat (field * 8 + wire)).toNat = field * 8 + wire := by
    rw [UInt64.toNat_ofNat', Nat.mod_eq_of_lt hlt]
  have hnumber : UInt64.ofNat (field * 8 + wire) >>> 3 = UInt64.ofNat field := by
    apply UInt64.toNat_inj.mp
    rw [UInt64.toNat_shiftRight, htag, UInt64.toNat_ofNat', Nat.shiftRight_eq_div_pow]
    change (field * 8 + wire) / 2 ^ 3 = field % 2 ^ 64
    omega
  have hkind : UInt64.ofNat (field * 8 + wire) &&& 7 = UInt64.ofNat wire := by
    apply UInt64.toNat_inj.mp
    rw [UInt64.toNat_and, htag, UInt64.toNat_ofNat']
    change (field * 8 + wire) &&& (2 ^ 3 - 1) = wire % 2 ^ 64
    rw [Nat.and_two_pow_sub_one_eq_mod]
    omega
  unfold tag
  rw [varint_putVarint hlt]
  change (if (UInt64.ofNat (field * 8 + wire) >>> 3).toNat < 2 ^ 32 then _ else _) = _
  rw [if_pos]
  · rw [hnumber, hkind]
  · rw [hnumber, UInt64.toNat_ofNat']
    omega

/-- What is read from fields that were written, when each is read on its own. -/
theorem fields_encode {α : Type} {field : UInt64 × UInt64 → α → Bytes → Except MoshError (α × Bytes)}
    {put : Wire.Field → α → α} {fs : List Wire.Field} {n : ℕ} (a : α)
    (hread : ∀ f ∈ fs, ∀ a buf, ∃ t rest, tag (f.encode ++ buf) = .ok (t, rest)
      ∧ field t a rest = .ok (put f a, buf)) (hn : fs.length ≤ n) :
  fields field n a (Wire.encode fs) = .ok (fs.foldl (fun a f => put f a) a)
  := by
  induction fs generalizing n a with
  | nil =>
      rw [Wire.encode, List.flatMap_nil]
      cases n <;> rfl
  | cons f fs ih =>
      obtain ⟨n, rfl⟩ : ∃ m, n = m + 1 := Nat.exists_eq_succ_of_ne_zero (by
        simp only [List.length_cons] at hn
        omega)
      obtain ⟨t, rest, htag, hfield⟩ := hread f List.mem_cons_self a (Wire.encode fs)
      have hcons : Wire.encode (f :: fs) = f.encode ++ Wire.encode fs := rfl
      have hlater : ∀ f' ∈ fs, ∀ a buf, ∃ t rest, tag (f'.encode ++ buf) = .ok (t, rest)
          ∧ field t a rest = .ok (put f' a, buf) :=
        fun f' hf' => hread f' (List.mem_cons_of_mem f hf')
      cases hbuf : f.encode ++ Wire.encode fs with
      | nil => exact absurd (List.append_eq_nil_iff.mp hbuf).1 (Wire.encode_ne_nil f)
      | cons b buf =>
          rw [hcons, hbuf]
          change (tag (b :: buf) >>= fun r => field r.1 a r.2 >>= fun r => fields field n r.1 r.2) = _
          rw [← hbuf, htag]
          change (field t a rest >>= fun r => fields field n r.1 r.2) = _
          rw [hfield]
          exact ih (put f a) hlater (Nat.le_of_succ_le_succ hn)

end Reader

namespace Instruction

/-- The fields of an instruction. -/
def wireFields (i : Instruction) : List Wire.Field :=
  [.uint 1 i.protocolVersion, .uint 2 i.oldNum, .uint 3 i.newNum, .uint 4 i.ackNum,
    .uint 5 i.throwawayNum, .bytes 6 i.diff, .bytes 7 i.chaff]

theorem encode_eq_encode_wireFields (i : Instruction) :
  i.encode = Wire.encode i.wireFields
  := by
  simp [encode, wireFields, putUint, putBytes, Wire.encode]

/-- Put a field into an instruction. -/
def put : Wire.Field → Instruction → Instruction
  | .uint 1 v, i => { i with protocolVersion := v }
  | .uint 2 v, i => { i with oldNum := v }
  | .uint 3 v, i => { i with newNum := v }
  | .uint 4 v, i => { i with ackNum := v }
  | .uint 5 v, i => { i with throwawayNum := v }
  | .bytes 6 b, i => { i with diff := b }
  | .bytes 7 b, i => { i with chaff := b }
  | _, i => i

/-- An instruction is read as it was written. -/
theorem decode_encode {i : Instruction} (h : i.Fits) :
  decode i.encode = .ok i
  := by
  have hnat : ∀ v : ℕ, v < 2 ^ 64 → (UInt64.ofNat v).toNat = v := by
    intro v hv
    rw [UInt64.toNat_ofNat', Nat.mod_eq_of_lt hv]
  have huint : ∀ field v buf, field < 2 ^ 29 →
      tag ((Wire.Field.uint field v).encode ++ buf)
        = .ok ((UInt64.ofNat field, 0), putVarint v ++ buf) := by
    intro field v buf hfield
    rw [Wire.Field.encode, List.append_assoc]
    exact @tag_putVarint _ field 0 hfield (by omega)
  have hbytes : ∀ field b buf, field < 2 ^ 29 →
      tag ((Wire.Field.bytes field b).encode ++ buf)
        = .ok ((UInt64.ofNat field, 2), putVarint b.length ++ b ++ buf) := by
    intro field b buf hfield
    rw [Wire.Field.encode, List.append_assoc, List.append_assoc, List.append_assoc]
    exact @tag_putVarint _ field 2 hfield (by omega)
  rw [decode, encode_eq_encode_wireFields, @fields_encode _ _ put]
  · rfl
  · intro f hf a buf
    simp only [wireFields, List.mem_cons, List.not_mem_nil, or_false] at hf
    rcases hf with rfl | rfl | rfl | rfl | rfl | rfl | rfl
    · refine ⟨_, _, huint _ _ _ (by omega), ?_⟩
      have hv : i.protocolVersion < 2 ^ 64 := h.protocolVersion.trans (by omega)
      have hread : decodeField (UInt64.ofNat 1, 0) a (putVarint i.protocolVersion ++ buf)
          = if (UInt64.ofNat i.protocolVersion).toNat < 2 ^ 32 then
              .ok ({ a with protocolVersion := (UInt64.ofNat i.protocolVersion).toNat }, buf)
            else .error .protobuf := by
        rw [decodeField, if_pos (by decide), varint_putVarint hv]
        rfl
      rw [hread, hnat _ hv, if_pos h.protocolVersion, put]
    · refine ⟨_, _, huint _ _ _ (by omega), ?_⟩
      simp [decodeField, VARINT, varint_putVarint h.oldNum, hnat _ h.oldNum, put, Except.map]
    · refine ⟨_, _, huint _ _ _ (by omega), ?_⟩
      simp [decodeField, VARINT, varint_putVarint h.newNum, hnat _ h.newNum, put, Except.map]
    · refine ⟨_, _, huint _ _ _ (by omega), ?_⟩
      simp [decodeField, VARINT, varint_putVarint h.ackNum, hnat _ h.ackNum, put, Except.map]
    · refine ⟨_, _, huint _ _ _ (by omega), ?_⟩
      simp [decodeField, VARINT, varint_putVarint h.throwawayNum, hnat _ h.throwawayNum, put,
        Except.map]
    · refine ⟨_, _, hbytes _ _ _ (by omega), ?_⟩
      rw [decodeField, if_neg (by decide), if_neg (by decide), if_neg (by decide),
        if_neg (by decide), if_neg (by decide), if_pos (by decide), bytes_putVarint h.diff]
      rfl
    · refine ⟨_, _, hbytes _ _ _ (by omega), ?_⟩
      rw [decodeField, if_neg (by decide), if_neg (by decide), if_neg (by decide),
        if_neg (by decide), if_neg (by decide), if_neg (by decide), if_pos (by decide),
        bytes_putVarint h.chaff]
      rfl
  · exact Wire.length_le_length_encode _

end Instruction

end Termoso.Core.Mosh
