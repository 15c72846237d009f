import Mathlib.Data.List.Basic

/-!
# Texts as bytes

The bytes of a text in UTF-8, and the text of bytes that need not be such: for each piece of them
that is no character, and each start of a character that breaks off, a replacement character.  The
bytes of a text are read as the text, whatever follows.  What is read before a byte that begins a
character does not depend on what follows, and bytes of characters and single bytes are read as no
more characters than there are.
-/

namespace Utf8

abbrev Text := List Char

def encode (s : Text) : List UInt8 := s.flatMap String.utf8EncodeChar

theorem encode_cons (c : Char) (s : Text) :
  encode (c :: s) = String.utf8EncodeChar c ++ encode s
  := rfl

/-- A text of ASCII characters, a byte for each. -/
def ascii (s : String) : List UInt8 := s.toList.map (fun c => c.toNat.toUInt8)

/-- What stands for bytes that are no character. -/
def REPLACEMENT : Char := '\uFFFD'

/-- The character that bytes begin with. -/
def firstChar (b : List UInt8) : Option Char := b.toByteArray.utf8DecodeChar? 0

/-- A byte that goes on with a character. -/
def isCont (b : UInt8) : Bool := 0x80 ≤ b && b ≤ 0xBF

/-- Two bytes that a character of at least three can begin with. -/
def isLead (a b : UInt8) : Bool :=
  if a = 0xE0 then 0xA0 ≤ b && b ≤ 0xBF
  else if a = 0xED then 0x80 ≤ b && b ≤ 0x9F
  else if a = 0xF0 then 0x90 ≤ b && b ≤ 0xBF
  else if a = 0xF4 then 0x80 ≤ b && b ≤ 0x8F
  else 0xE1 ≤ a && a ≤ 0xF3 && isCont b

/-- How many bytes one replacement character stands for: as many as could begin a character, and
at least one. -/
def broken : List UInt8 → ℕ
  | a :: b :: c :: _ => if !isLead a b then 1 else if 0xF0 ≤ a && isCont c then 3 else 2
  | [a, b] => if isLead a b then 2 else 1
  | _ => 1

theorem broken_pos (b : List UInt8) :
  0 < broken b
  := by
  fun_cases broken b
  all_goals decide

/-- The text of bytes, with replacement characters where they are none. -/
def lossy (b : List UInt8) : Text :=
  if _ : b = [] then []
  else
    match firstChar b with
    | some c => c :: lossy (b.drop c.utf8Size)
    | none => REPLACEMENT :: lossy (b.drop (broken b))
termination_by b.length
decreasing_by
  · have hpos := c.utf8Size_pos
    have hlen := List.length_pos_of_ne_nil ‹_›
    rw [List.length_drop]
    omega
  · have hpos := broken_pos b
    have hlen := List.length_pos_of_ne_nil ‹_›
    rw [List.length_drop]
    omega

section
variable (c : Char) (s : Text) (rest : List UInt8)

theorem firstChar_append :
  firstChar (String.utf8EncodeChar c ++ rest) = some c
  := by
  rw [firstChar, List.toByteArray_append, ByteArray.utf8DecodeChar?_utf8EncodeChar_append]

/-- A character is read from its bytes. -/
theorem lossy_char :
  lossy (String.utf8EncodeChar c ++ rest) = c :: lossy rest
  := by
  have hlen := String.length_utf8EncodeChar c
  have hne : String.utf8EncodeChar c ++ rest ≠ [] := by
    apply List.append_ne_nil_of_left_ne_nil
    apply List.ne_nil_of_length_pos
    rw [hlen]
    exact c.utf8Size_pos
  rw [lossy, dif_neg hne, firstChar_append]
  dsimp only
  rw [← hlen, List.drop_left]

@[simp]
theorem lossy_nil :
  lossy [] = []
  := by
  rw [lossy, dif_pos rfl]

/-- A text is read from its bytes. -/
theorem lossy_encode_append :
  lossy (encode s ++ rest) = s ++ lossy rest
  := by
  induction s with
  | nil => rfl
  | cons c s ih =>
      rw [encode, List.flatMap_cons, List.append_assoc, lossy_char, List.cons_append]
      exact congrArg (c :: ·) ih

theorem lossy_encode :
  lossy (encode s) = s
  := by
  have h := lossy_encode_append s []
  rw [List.append_nil, lossy_nil, List.append_nil] at h
  exact h

end

/-- A byte of ASCII is a character. -/
theorem utf8EncodeChar_ofNat {b : UInt8} (h : b < 0x80) :
  String.utf8EncodeChar (Char.ofNat b.toNat) = [b]
  := by
  have hall : ∀ n : Fin 128, String.utf8EncodeChar (Char.ofNat n.val) = [.ofNat n.val] := by
    decide
  have heq := hall ⟨b.toNat, h⟩
  rw [UInt8.ofNat_toNat] at heq
  exact heq

theorem lossy_cons {b : UInt8} (h : b < 0x80) (rest : List UInt8) :
  lossy (b :: rest) = Char.ofNat b.toNat :: lossy rest
  := by
  have heq := lossy_char (Char.ofNat b.toNat) rest
  rw [utf8EncodeChar_ofNat h] at heq
  exact heq

/-- ASCII is read byte for byte. -/
theorem lossy_append_of_ascii {p : List UInt8} (h : ∀ b ∈ p, b < 0x80) (rest : List UInt8) :
  lossy (p ++ rest) = p.map (fun b => Char.ofNat b.toNat) ++ lossy rest
  := by
  induction p with
  | nil => rfl
  | cons b p ih =>
      rw [List.cons_append, lossy_cons (h b List.mem_cons_self),
        ih (fun b' hb' => h b' (List.mem_cons_of_mem b hb'))]
      rfl

/-! ### Texts of bytes that need not be characters -/

/-- A byte that goes on with a character begins none. -/
theorem not_first_of_isCont {b : UInt8} (h : isCont b = true) :
  ¬ b.IsUTF8FirstByte
  := by
  have hall : ∀ n : Fin 256, isCont (.ofNat n.val) = true →
      ¬ (UInt8.ofNat n.val).IsUTF8FirstByte := by
    decide +kernel
  have hb := hall ⟨b.toNat, b.toNat_lt⟩
  rw [UInt8.ofNat_toNat] at hb
  exact hb h

theorem isCont_of_isLead {a b : UInt8} (h : isLead a b = true) :
  isCont b = true
  := by
  have hbound : ∀ {low high : UInt8}, 0x80 ≤ low → high ≤ 0xBF →
      (decide (low ≤ b) && decide (b ≤ high)) = true → isCont b = true := by
    intro low high hlow hhigh hb
    rw [Bool.and_eq_true, decide_eq_true_eq, decide_eq_true_eq] at hb
    rw [isCont, Bool.and_eq_true, decide_eq_true_eq, decide_eq_true_eq]
    exact ⟨UInt8.le_trans hlow hb.1, UInt8.le_trans hb.2 hhigh⟩
  rw [isLead] at h
  split at h
  · exact hbound (by decide) (by decide) h
  split at h
  · exact hbound (by decide) (by decide) h
  split at h
  · exact hbound (by decide) (by decide) h
  split at h
  · exact hbound (by decide) (by decide) h
  · rw [Bool.and_eq_true] at h
    exact h.2

theorem exists_of_firstChar {b : List UInt8} {c : Char} (h : firstChar b = some c) :
  ∃ rest, b = String.utf8EncodeChar c ++ rest
  := by
  have heq := ByteArray.eq_of_utf8DecodeChar?_eq_some h
  refine ⟨(b.toByteArray.extract c.utf8Size b.toByteArray.size).data.toList, ?_⟩
  have hdata := congrArg (fun x => x.data.toList) heq
  simpa using hdata

theorem first_of_char {c : Char} {i : ℕ} {b : UInt8} (h : (String.utf8EncodeChar c)[i]? = some b) :
  b.IsUTF8FirstByte ↔ i = 0
  := by
  obtain ⟨hi, rfl⟩ := List.getElem?_eq_some_iff.mp h
  exact UInt8.isUTF8FirstByte_getElem_utf8EncodeChar

/-- One replacement character stands for a byte and such as go on with a character. -/
theorem broken_spec {x : List UInt8} (hx : x ≠ []) :
  broken x ≤ x.length ∧
    ∀ i b, x[i]? = some b → 0 < i → i < broken x → isCont b = true
  := by
  match x with
  | [a] => exact ⟨Nat.le_refl 1, fun i b _ hpos hlt => absurd hlt (Nat.not_lt.mpr hpos)⟩
  | [a, b] =>
      rw [broken]
      split
      · rename_i hlead
        refine ⟨Nat.le_refl 2, fun i b' hb' hpos hlt => ?_⟩
        obtain rfl : i = 1 := by omega
        cases hb'
        exact isCont_of_isLead hlead
      · exact ⟨Nat.le_add_left 1 1, fun i _ _ hpos hlt => by omega⟩
  | a :: b :: c :: s =>
      have hlen : 3 ≤ (a :: b :: c :: s).length := Nat.le_add_left 3 s.length
      rw [broken]
      split
      · exact ⟨by omega, fun i _ _ hpos hlt => by omega⟩
      rename_i hlead
      rw [Bool.not_eq_true, Bool.not_eq_false'] at hlead
      have hb := isCont_of_isLead hlead
      split
      · rename_i hthree
        refine ⟨hlen, fun i b' hb' hpos hlt => ?_⟩
        obtain rfl | rfl : i = 1 ∨ i = 2 := by omega
        · cases hb'
          exact hb
        · cases hb'
          exact (Bool.and_eq_true_iff.mp hthree).2
      · refine ⟨by omega, fun i b' hb' hpos hlt => ?_⟩
        obtain rfl : i = 1 := by omega
        cases hb'
        exact hb

theorem broken_append {x : List UInt8} (hx : x ≠ []) {f : UInt8} (hf : f.IsUTF8FirstByte)
    (y : List UInt8) :
  broken (x ++ f :: y) = broken x
  := by
  have hcont : isCont f = false := Bool.eq_false_iff.mpr (fun h => not_first_of_isCont h hf)
  have hlead : ∀ a, isLead a f = false := fun a =>
    Bool.eq_false_iff.mpr (fun h => not_first_of_isCont (isCont_of_isLead h) hf)
  match x with
  | [a] =>
      have hone : broken [a] = 1 := rfl
      rw [hone, List.cons_append, List.nil_append]
      cases y with
      | nil => rw [broken, hlead, if_neg Bool.false_ne_true]
      | cons d y =>
          rw [broken, hlead]
          rfl
  | [a, b] =>
      rw [List.cons_append, List.cons_append, List.nil_append, broken, hcont, broken,
        Bool.and_false]
      cases isLead a b <;> rfl
  | a :: b :: c :: s => rfl

/-- Bytes are read up to one that begins a character as if it did not follow. -/
theorem exists_lossy_append {x : List UInt8} (hx : x ≠ []) :
  ∃ c k, 0 < k ∧ k ≤ x.length ∧
    (∀ i b, x[i]? = some b → 0 < i → i < k → ¬ b.IsUTF8FirstByte) ∧
    lossy x = c :: lossy (x.drop k) ∧
    ∀ (f : UInt8) (y : List UInt8), f.IsUTF8FirstByte →
      lossy (x ++ f :: y) = c :: lossy (x.drop k ++ f :: y)
  := by
  cases hfirst : firstChar x with
  | some c =>
      obtain ⟨rest, rfl⟩ := exists_of_firstChar hfirst
      have hlen := String.length_utf8EncodeChar c
      refine ⟨c, c.utf8Size, c.utf8Size_pos, ?_, ?_, ?_, ?_⟩
      · rw [List.length_append, hlen]
        exact Nat.le_add_right _ _
      · intro i b hb hpos hlt
        rw [List.getElem?_append_left (hlen ▸ hlt)] at hb
        rw [first_of_char hb]
        exact Nat.ne_of_gt hpos
      · rw [lossy_char, ← hlen, List.drop_left]
      · intro f y _
        rw [List.append_assoc, lossy_char, ← hlen, List.drop_left]
  | none =>
      obtain ⟨hle, hcont⟩ := broken_spec hx
      refine ⟨REPLACEMENT, broken x, broken_pos x, hle,
        fun i b hb hpos hlt => not_first_of_isCont (hcont i b hb hpos hlt), ?_, ?_⟩
      · rw [lossy, dif_neg hx, hfirst]
      · intro f y hf
        have hnone : firstChar (x ++ f :: y) = none := by
          cases hsome : firstChar (x ++ f :: y) with
          | none => rfl
          | some c =>
              obtain ⟨rest, hrest⟩ := exists_of_firstChar hsome
              have hwhole : ∀ z, x = String.utf8EncodeChar c ++ z → False := by
                rintro z rfl
                rw [firstChar_append] at hfirst
                cases hfirst
              rcases List.append_eq_append_iff.mp hrest with ⟨z, hz, hf'⟩ | ⟨z, hz, -⟩
              · cases z with
                | nil => exact (hwhole [] (by rw [hz, List.append_nil, List.append_nil])).elim
                | cons g z =>
                    -- the byte that follows would go on with the character
                    cases hf'
                    have hg : (String.utf8EncodeChar c)[x.length]? = some f := by
                      rw [hz, List.getElem?_append_right (Nat.le_refl _), Nat.sub_self]
                      rfl
                    exact absurd (List.length_eq_zero_iff.mp ((first_of_char hg).mp hf)) hx
              · exact (hwhole z hz).elim
        rw [lossy, dif_neg (List.append_ne_nil_of_left_ne_nil hx _), hnone]
        dsimp only
        rw [broken_append hx hf, List.drop_append_of_le_length hle]

/-- A text is read piece by piece where a character begins. -/
theorem lossy_append {f : UInt8} (h : f.IsUTF8FirstByte) (x y : List UInt8) :
  lossy (x ++ f :: y) = lossy x ++ lossy (f :: y)
  := by
  induction hn : x.length using Nat.strongRecOn generalizing x with
  | ind n ih =>
      by_cases hx : x = []
      · rw [hx, List.nil_append, lossy_nil, List.nil_append]
      · obtain ⟨c, k, hpos, hle, -, hlossy, happend⟩ := exists_lossy_append hx
        rw [happend f y h, hlossy, List.cons_append]
        exact congrArg (c :: ·) (ih _ (by rw [List.length_drop]; omega) (x.drop k) rfl)

/-- Bytes of a character, and single bytes. -/
def IsPiece (p : List UInt8) : Prop := (∃ c, p = String.utf8EncodeChar c) ∨ ∃ b, p = [b]

/-- As many bytes that begin no character are as many pieces. -/
theorem drop_flatten {ps : List (List UInt8)} (hps : ∀ p ∈ ps, IsPiece p) {k : ℕ}
    (hk : k ≤ ps.flatten.length)
    (h : ∀ i b, ps.flatten[i]? = some b → i < k → ¬ b.IsUTF8FirstByte) :
  ps.flatten.drop k = (ps.drop k).flatten
  := by
  induction k generalizing ps with
  | zero => rfl
  | succ k ih =>
      cases ps with
      | nil => rfl
      | cons p ps =>
          rcases hps p List.mem_cons_self with ⟨c, rfl⟩ | ⟨b, rfl⟩
          · -- the first byte of a character begins one
            obtain ⟨b, bytes, hbytes⟩ :=
              List.exists_cons_of_ne_nil (String.utf8EncodeChar_ne_nil (c := c))
            have hb : (String.utf8EncodeChar c)[0]? = some b := by
              rw [hbytes]
              rfl
            refine absurd ((first_of_char hb).mpr rfl) (h 0 b ?_ (Nat.succ_pos k))
            rw [List.flatten_cons, hbytes]
            rfl
          · apply ih (fun p hp => hps p (List.mem_cons_of_mem _ hp))
            · exact Nat.le_of_succ_le_succ hk
            · exact fun i b hb hlt => h (i + 1) b hb (Nat.succ_lt_succ hlt)

/-- Pieces are read as no more characters. -/
theorem length_lossy_flatten_le {ps : List (List UInt8)} (hps : ∀ p ∈ ps, IsPiece p) :
  (lossy ps.flatten).length ≤ ps.length
  := by
  induction hn : ps.length using Nat.strongRecOn generalizing ps with
  | ind n ih =>
      cases ps with
      | nil =>
          rw [List.flatten_nil, lossy_nil]
          exact Nat.zero_le n
      | cons p ps =>
          have htail : ∀ q ∈ ps, IsPiece q := fun q hq => hps q (List.mem_cons_of_mem p hq)
          rw [List.length_cons] at hn
          rcases hps p List.mem_cons_self with ⟨c, rfl⟩ | ⟨b, rfl⟩
          · rw [List.flatten_cons, lossy_char, List.length_cons]
            have hle := ih ps.length (by omega) htail rfl
            omega
          · obtain ⟨c, k, hpos, hle, hnot, hlossy, -⟩ :=
              exists_lossy_append (List.cons_ne_nil b ps.flatten)
            rw [List.length_cons] at hle
            have hdrop : ps.flatten.drop (k - 1) = (ps.drop (k - 1)).flatten := by
              apply drop_flatten htail
              · omega
              · exact fun i x hx hlt => hnot (i + 1) x hx (Nat.succ_pos i) (by omega)
            have hcons : (b :: ps.flatten).drop k = ps.flatten.drop (k - 1) := by
              obtain ⟨j, rfl⟩ := Nat.exists_eq_succ_of_ne_zero (Nat.ne_of_gt hpos)
              rfl
            have hrest := ih (ps.drop (k - 1)).length (by rw [List.length_drop]; omega)
              (fun q hq => htail q (List.mem_of_mem_drop hq)) rfl
            rw [List.length_drop] at hrest
            rw [List.flatten_cons, List.singleton_append, hlossy, List.length_cons, hcons, hdrop]
            omega

end Utf8
