import Termoso.Lib.Digits
import Termoso.Lib.Utf8

/-!
# Percent-encoding

Characters of a set are written as the bytes they have in UTF-8, each in two hexadecimal digits
after a percent sign.  Percent signs themselves are not of such a set: what looks like a byte that
was written so is left as it is, and read as that byte.  So a text comes back only when nothing in
it looks like one.
-/

namespace Percent

open Digits Utf8

/-- The characters with a value as hexadecimal digits, in upper case. -/
def upperDigit (n : ℕ) : Char := Char.ofNat (if n < 10 then n + 48 else n + 55)

/-- A byte as it is written. -/
def triplet (b : UInt8) : Text := ['%', upperDigit (b.toNat / 16), upperDigit (b.toNat % 16)]

/-- Write the characters of a set as their bytes. -/
def encode (set : Char → Bool) (s : Text) : Text :=
  s.flatMap (fun c => if set c then (String.utf8EncodeChar c).flatMap triplet else [c])

def isHex (c : Char) : Bool := (toDigit 16 c).isSome

/-- The bytes of a text: of a character, or the one that was written. -/
def pieces : Text → List (List UInt8)
  | '%' :: a :: b :: s =>
    match toDigit 16 a, toDigit 16 b with
    | some x, some y => [.ofNat (x * 16 + y)] :: pieces s
    | _, _ => [37] :: pieces (a :: b :: s)
  | c :: s => String.utf8EncodeChar c :: pieces s
  | [] => []

/-- Read the bytes that were written. -/
def decode (s : Text) : List UInt8 := (pieces s).flatten

/-- Nothing in a text looks like a byte that was written. -/
def isPlain : Text → Bool
  | '%' :: a :: b :: s => !(isHex a && isHex b) && isPlain (a :: b :: s)
  | _ :: s => isPlain s
  | [] => true

/-- A text begins with two hexadecimal digits. -/
def startsHex : Text → Bool
  | a :: b :: _ => isHex a && isHex b
  | _ => false

/-! ### Reading -/

section
variable {s : Text} {c : Char}

theorem pieces_cons (h : ¬ (c = '%' ∧ startsHex s = true)) :
  pieces (c :: s) = String.utf8EncodeChar c :: pieces s
  := by
  conv_lhs => unfold pieces
  split
  · rename_i a b s' heq
    cases heq
    split
    · rename_i x y hx hy
      refine absurd ⟨rfl, ?_⟩ h
      rw [startsHex, isHex, isHex, hx, hy]
      rfl
    · rfl
  · rename_i heq
    cases heq
    rfl
  · rename_i heq
    cases heq

theorem toDigit_upperDigit {n : ℕ} (h : n < 16) :
  toDigit 16 (upperDigit n) = some n
  := by
  have hdigit : ∀ n : Fin 16, toDigit 16 (upperDigit n.val) = some n.val := by decide
  exact hdigit ⟨n, h⟩

theorem pieces_triplet (b : UInt8) :
  pieces (triplet b ++ s) = [b] :: pieces s
  := by
  have hb := b.toNat_lt
  have hhigh := toDigit_upperDigit (n := b.toNat / 16) (by omega)
  have hlow := toDigit_upperDigit (n := b.toNat % 16) (by omega)
  have hbyte : UInt8.ofNat (b.toNat / 16 * 16 + b.toNat % 16) = b := by
    rw [Nat.div_add_mod', UInt8.ofNat_toNat]
  rw [triplet, List.cons_append, List.cons_append, List.cons_append, List.nil_append, pieces, hhigh,
    hlow]
  dsimp only
  rw [hbyte]

theorem decode_cons (h : ¬ (c = '%' ∧ startsHex s = true)) :
  decode (c :: s) = String.utf8EncodeChar c ++ decode s
  := by
  rw [decode, pieces_cons h, List.flatten_cons, decode]

theorem decode_triplets (bytes : List UInt8) :
  decode (bytes.flatMap triplet ++ s) = bytes ++ decode s
  := by
  induction bytes with
  | nil => rfl
  | cons b bytes ih =>
      rw [List.flatMap_cons, List.append_assoc, decode, pieces_triplet, List.flatten_cons]
      exact congrArg (b :: ·) ih

/-- Bytes that were written do not go on over a character that is no digit. -/
theorem decode_append_cons (h : isHex c = false) (s t : Text) :
  decode (s ++ c :: t) = decode s ++ decode (c :: t)
  := by
  fun_induction pieces s with
  | case1 a b s x y hy hx ih =>
      rw [List.cons_append, List.cons_append, List.cons_append, decode, decode, pieces, pieces, hx,
        hy]
      exact congrArg ([UInt8.ofNat (x * 16 + y)] ++ ·) ih
  | case2 a b s hnot ih =>
      have hstart : ¬ ('%' = '%' ∧ startsHex (a :: b :: s) = true) := by
        rintro ⟨-, hstart⟩
        rw [startsHex, Bool.and_eq_true, isHex, isHex] at hstart
        obtain ⟨x, hx⟩ := Option.isSome_iff_exists.mp hstart.1
        obtain ⟨y, hy⟩ := Option.isSome_iff_exists.mp hstart.2
        exact hnot x y hx hy
      have happend : ¬ ('%' = '%' ∧ startsHex (a :: b :: s ++ c :: t) = true) := hstart
      rw [List.cons_append, decode_cons happend, decode_cons hstart, ih, List.append_assoc]
  | case3 d s hnot ih =>
      have hstart : ¬ (d = '%' ∧ startsHex s = true) := by
        rintro ⟨rfl, hstart⟩
        match s, hstart with
        | a :: b :: s', _ => exact hnot a b s' rfl rfl
      have happend : ¬ (d = '%' ∧ startsHex (s ++ c :: t) = true) := by
        rintro ⟨rfl, happend⟩
        match s with
        | [] =>
            cases t with
            | nil => cases happend
            | cons e t =>
                rw [List.nil_append, startsHex, h] at happend
                cases happend
        | [a] =>
            rw [List.cons_append, List.nil_append, startsHex, h, Bool.and_false] at happend
            cases happend
        | a :: b :: s' => exact hnot a b s' rfl rfl
      rw [List.cons_append, decode_cons happend, decode_cons hstart, ih, List.append_assoc]
  | case4 => rfl

/-- The bytes of a character that writes no byte are among those of a text it is in. -/
theorem mem_decode (hc : c ∈ s) (hpercent : c ≠ '%') (hhex : isHex c = false) {b : UInt8}
    (hb : b ∈ String.utf8EncodeChar c) :
  b ∈ decode s
  := by
  obtain ⟨x, y, rfl⟩ := List.append_of_mem hc
  rw [decode_append_cons hhex, decode_cons (fun h => hpercent h.1)]
  exact List.mem_append_right _ (List.mem_append_left _ hb)

/-- No more pieces than characters, and fewer when something looks like a byte. -/
theorem length_pieces_le (s : Text) :
  (pieces s).length ≤ s.length ∧ ((pieces s).length = s.length → isPlain s = true)
  := by
  fun_induction pieces s with
  | case1 a b s x y hx hy ih =>
      simp only [List.length_cons]
      exact ⟨by omega, by omega⟩
  | case2 a b s hnot ih =>
      rw [isPlain, Bool.and_eq_true]
      simp only [List.length_cons] at ih ⊢
      refine ⟨by omega, fun h => ⟨?_, ih.2 (by omega)⟩⟩
      rw [Bool.not_eq_true', Bool.and_eq_false_iff, isHex, isHex]
      cases ha : toDigit 16 a with
      | none => exact .inl rfl
      | some x =>
          cases hb : toDigit 16 b with
          | none => exact .inr rfl
          | some y => exact absurd hb (hnot x y ha)
  | case3 c s hnot ih =>
      simp only [List.length_cons]
      refine ⟨by omega, fun h => ?_⟩
      rw [isPlain.eq_2 c s hnot]
      exact ih.2 (by omega)
  | case4 => exact ⟨Nat.le_refl _, fun _ => rfl⟩

theorem isPiece_of_mem {p : List UInt8} (h : p ∈ pieces s) :
  IsPiece p
  := by
  fun_induction pieces s with
  | case1 a b s x y hy hx ih =>
      rcases List.mem_cons.mp h with rfl | h
      · exact .inr ⟨_, rfl⟩
      · exact ih h
  | case2 a b s hnot ih =>
      rcases List.mem_cons.mp h with rfl | h
      · exact .inr ⟨_, rfl⟩
      · exact ih h
  | case3 c s hnot ih =>
      rcases List.mem_cons.mp h with rfl | h
      · exact .inl ⟨_, rfl⟩
      · exact ih h
  | case4 => exact (List.not_mem_nil h).elim

/-- A text without percent signs is its own bytes. -/
theorem decode_of_not_mem (h : '%' ∉ s) :
  decode s = Utf8.encode s
  := by
  induction s with
  | nil => rfl
  | cons c s ih =>
      rw [List.mem_cons, not_or] at h
      rw [decode_cons (fun hc => h.1 hc.1.symm), ih h.2, Utf8.encode_cons]

/-- A plain text is its own bytes. -/
theorem decode_of_isPlain (h : isPlain s = true) :
  decode s = Utf8.encode s
  := by
  induction s with
  | nil => rfl
  | cons c s ih =>
      have hcons : ¬ (c = '%' ∧ startsHex s = true) ∧ isPlain s = true := by
        unfold isPlain at h
        split at h
        · rename_i a b s' heq
          cases heq
          rw [Bool.and_eq_true, Bool.not_eq_true'] at h
          refine ⟨fun hstart => ?_, h.2⟩
          rw [startsHex, h.1] at hstart
          cases hstart.2
        · rename_i c' s' hnot heq
          cases heq
          refine ⟨?_, h⟩
          rintro ⟨rfl, hstart⟩
          match s, hstart with
          | a :: b :: s'', _ => exact hnot a b s'' rfl rfl
        · rename_i heq
          cases heq
      rw [decode_cons hcons.1, ih hcons.2]
      rfl

/-- A text is read in pieces around a character that writes no byte. -/
theorem lossy_decode_append (hhex : isHex c = false) (hpercent : c ≠ '%') (x t : Text) :
  lossy (decode (x ++ c :: t)) = lossy (decode x) ++ c :: lossy (decode t)
  := by
  have hcons : decode (c :: t) = String.utf8EncodeChar c ++ decode t :=
    decode_cons (fun h => hpercent h.1)
  have hchar := lossy_char c (decode t)
  obtain ⟨b, bytes, hbytes⟩ := List.exists_cons_of_ne_nil (String.utf8EncodeChar_ne_nil (c := c))
  have hfirst : b.IsUTF8FirstByte :=
    (first_of_char (c := c) (i := 0) (by rw [hbytes]; rfl)).mpr rfl
  rw [hbytes, List.cons_append] at hcons hchar
  rw [decode_append_cons hhex, hcons, lossy_append hfirst, hchar]

/-- Bytes are read as no more characters than there are, and as fewer when something looks like a
byte. -/
theorem length_lossy_decode_le (s : Text) :
  (lossy (decode s)).length ≤ s.length ∧
    ((lossy (decode s)).length = s.length → isPlain s = true ∧ lossy (decode s) = s)
  := by
  have hread := @length_lossy_flatten_le (pieces s) (fun p hp => isPiece_of_mem hp)
  obtain ⟨hle, hplain⟩ := length_pieces_le s
  refine ⟨Nat.le_trans hread hle, fun h => ?_⟩
  have hs := hplain (Nat.le_antisymm hle (h ▸ hread))
  rw [decode_of_isPlain hs, lossy_encode]
  exact ⟨hs, rfl⟩

end

/-! ### Writing and reading -/

theorem startsHex_percent (s : Text) :
  startsHex ('%' :: s) = false
  := by
  cases s <;> rfl

section
variable {set : Char → Bool} {s : Text} {c : Char}

theorem encode_cons (c : Char) (s : Text) :
  encode set (c :: s)
    = (if set c then (String.utf8EncodeChar c).flatMap triplet else [c]) ++ encode set s
  := rfl

theorem encode_cons_of_pos (h : set c = true) (s : Text) :
  encode set (c :: s) = (String.utf8EncodeChar c).flatMap triplet ++ encode set s
  := by
  rw [encode_cons, if_pos h]

theorem encode_cons_of_neg (h : set c = false) (s : Text) :
  encode set (c :: s) = c :: encode set s
  := by
  rw [encode_cons, if_neg (by rw [h]; exact Bool.false_ne_true)]
  rfl

theorem encode_append (s t : Text) :
  encode set (s ++ t) = encode set s ++ encode set t
  := List.flatMap_append

/-- What has no character of the set is written as it is. -/
theorem encode_eq_self (h : ∀ c ∈ s, set c = false) :
  encode set s = s
  := by
  induction s with
  | nil => rfl
  | cons c s ih =>
      rw [encode_cons_of_neg (h c List.mem_cons_self),
        ih (fun d hd => h d (List.mem_cons_of_mem c hd))]

/-- Of a written text: what is not of the set, and percent signs and digits. -/
theorem of_mem_encode (h : c ∈ encode set s) :
  (c ∈ s ∧ set c = false) ∨ c = '%' ∨ isHex c = true
  := by
  obtain ⟨d, hd, hc⟩ := List.mem_flatMap.mp h
  split at hc
  · right
    obtain ⟨b, -, hc⟩ := List.mem_flatMap.mp hc
    have hb := b.toNat_lt
    simp only [triplet, List.mem_cons, List.not_mem_nil, or_false] at hc
    rcases hc with rfl | rfl | rfl
    · exact .inl rfl
    · right
      rw [isHex, toDigit_upperDigit (by omega)]
      rfl
    · right
      rw [isHex, toDigit_upperDigit (by omega)]
      rfl
  · rename_i hset
    obtain rfl := List.mem_singleton.mp hc
    exact .inl ⟨hd, Bool.eq_false_iff.mpr hset⟩

/-- Where percent signs are written, the bytes of the text come back. -/
theorem decode_encode_append (hpercent : set '%' = true) (s t : Text) :
  decode (encode set s ++ t) = Utf8.encode s ++ decode t
  := by
  induction s with
  | nil => rfl
  | cons c s ih =>
      cases hset : set c with
      | true =>
          rw [encode_cons_of_pos hset, List.append_assoc, decode_triplets, ih, Utf8.encode_cons,
            List.append_assoc]
      | false =>
          rw [encode_cons_of_neg hset, List.cons_append, decode_cons, ih, Utf8.encode_cons,
            List.append_assoc]
          · rintro ⟨rfl, -⟩
            rw [hpercent] at hset
            cases hset

theorem exists_triplets (c : Char) :
  ∃ t, (String.utf8EncodeChar c).flatMap triplet = '%' :: t
  := by
  obtain ⟨b, bytes, hbytes⟩ := List.exists_cons_of_ne_nil String.utf8EncodeChar_ne_nil
  rw [hbytes, List.flatMap_cons, triplet]
  exact ⟨_, rfl⟩

theorem startsHex_encode (hhex : ∀ c, isHex c = true → set c = false) (s : Text) :
  startsHex (encode set s) = startsHex s
  := by
  have hnot : ∀ c, set c = true → isHex c = false := by
    intro c hc
    cases hhc : isHex c with
    | false => rfl
    | true =>
        rw [hhex c hhc] at hc
        cases hc
  match s with
  | [] => rfl
  | a :: s =>
      cases ha : set a with
      | true =>
          obtain ⟨t, ht⟩ := exists_triplets a
          rw [encode_cons_of_pos ha, ht, List.cons_append, startsHex_percent]
          cases s with
          | nil => rfl
          | cons b s => rw [startsHex, hnot a ha, Bool.false_and]
      | false =>
          rw [encode_cons_of_neg ha]
          match s with
          | [] => rfl
          | b :: s =>
              cases hb : set b with
              | true =>
                  obtain ⟨t, ht⟩ := exists_triplets b
                  rw [encode_cons_of_pos hb, ht, List.cons_append, startsHex, startsHex, hnot b hb]
                  rfl
              | false =>
                  rw [encode_cons_of_neg hb]
                  rfl

/-- Where percent signs and digits are not of the set, what is written reads as the text itself
does. -/
theorem decode_encode (hpercent : set '%' = false) (hhex : ∀ c, isHex c = true → set c = false)
    (s : Text) :
  decode (encode set s) = decode s
  := by
  have hplain : ∀ (c : Char) (s : Text), ¬ (c = '%' ∧ startsHex s = true) →
      decode (encode set s) = decode s → decode (encode set (c :: s)) = decode (c :: s) := by
    intro c s hc ih
    cases hset : set c with
    | true => rw [encode_cons_of_pos hset, decode_triplets, decode_cons hc, ih]
    | false =>
        rw [encode_cons_of_neg hset, decode_cons, decode_cons hc, ih]
        rw [startsHex_encode hhex]
        exact hc
  fun_induction pieces s with
  | case1 a b s x y hy hx ih =>
      have ha : set a = false := hhex a (by rw [isHex, hx]; rfl)
      have hb : set b = false := hhex b (by rw [isHex, hy]; rfl)
      rw [encode_cons_of_neg hpercent, encode_cons_of_neg ha, encode_cons_of_neg hb, decode, decode,
        pieces, pieces, hx, hy]
      exact congrArg ([UInt8.ofNat (x * 16 + y)] ++ ·) ih
  | case2 a b s hnot ih =>
      apply hplain '%' _ _ ih
      rintro ⟨-, hstart⟩
      rw [startsHex, Bool.and_eq_true, isHex, isHex] at hstart
      obtain ⟨x, hx⟩ := Option.isSome_iff_exists.mp hstart.1
      obtain ⟨y, hy⟩ := Option.isSome_iff_exists.mp hstart.2
      exact hnot x y hx hy
  | case3 c s hnot ih =>
      apply hplain c s _ ih
      rintro ⟨rfl, hstart⟩
      match s, hstart with
      | a :: b :: s', _ => exact hnot a b s' rfl rfl
  | case4 => rfl

end

end Percent
