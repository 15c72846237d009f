import Termoso.Lib.Digits
import Mathlib.Algebra.Ring.Nat
import Mathlib.Data.List.Basic
import Mathlib.Data.List.TakeWhile

/-!
# Internet addresses

The texts of IPv4 and IPv6 addresses as the standard library of Rust reads and writes them: an IPv6
address is written in lower case with its first longest run of at least two zero groups left out,
and an address that maps an IPv4 address with that address at its end; it is read with one run left
out anywhere and with an IPv4 address at its end.  What is written is read back.
-/

namespace IpAddr

open Digits

abbrev Text := List Char

structure Ipv4Addr where
  a : BitVec 8
  b : BitVec 8
  c : BitVec 8
  d : BitVec 8
deriving DecidableEq

structure Ipv6Addr where
  segments : List (BitVec 16)
  length_segments : segments.length = 8
deriving DecidableEq

/-- The address as a number of 32 bits. -/
def Ipv4Addr.toBits (i : Ipv4Addr) : BitVec 32 := i.a ++ i.b ++ i.c ++ i.d

/-- The address as a number of 128 bits. -/
def Ipv6Addr.toBits (i : Ipv6Addr) : BitVec 128 :=
  .ofNat 128 (i.segments.foldl (fun n s => n * 2 ^ 16 + s.toNat) 0)

/-- The IPv4 address that an IPv6 address maps. -/
def Ipv6Addr.toIpv4Mapped (i : Ipv6Addr) : Option Ipv4Addr :=
  match i.segments with
  | [0, 0, 0, 0, 0, 0xFFFF, ab, cd] =>
    some ⟨ab.extractLsb' 8 8, ab.extractLsb' 0 8, cd.extractLsb' 8 8, cd.extractLsb' 0 8⟩
  | _ => none

/-- The IPv6 address that maps an IPv4 address. -/
def Ipv4Addr.toIpv6Mapped (i : Ipv4Addr) : Ipv6Addr :=
  ⟨[0, 0, 0, 0, 0, 0xFFFF, i.a ++ i.b, i.c ++ i.d], rfl⟩

inductive Addr
  | v4 (i : Ipv4Addr)
  | v6 (i : Ipv6Addr)
deriving DecidableEq

/-! ### Writing -/

def Ipv4Addr.display (i : Ipv4Addr) : Text :=
  Nat.toDigits 10 i.a.toNat ++ '.' :: Nat.toDigits 10 i.b.toNat ++ '.' :: Nat.toDigits 10 i.c.toNat
    ++ '.' :: Nat.toDigits 10 i.d.toNat

/-- A group in hexadecimal. -/
def hex (s : BitVec 16) : Text := Nat.toDigits 16 s.toNat

/-- Groups, each after a colon. -/
def fmtTail (chunk : List (BitVec 16)) : Text := chunk.flatMap (fun s => ':' :: hex s)

/-- Groups, with colons between them. -/
def fmtSubslice : List (BitVec 16) → Text
  | [] => []
  | first :: tail => hex first ++ fmtTail tail

/-- A run of zero groups. -/
structure Span where
  start : ℕ
  len : ℕ
deriving DecidableEq

/-- One more group, at an index, for the longest run of zero groups and the one it is in. -/
def nextSpan (i : ℕ) (segment : BitVec 16) (longest current : Span) : Span × Span :=
  if segment = 0 then
    let current := ⟨if current.len = 0 then i else current.start, current.len + 1⟩
    (if longest.len < current.len then current else longest, current)
  else (longest, ⟨0, 0⟩)

/-- The first longest run of zero groups among those from an index on. -/
def longestSpan : ℕ → List (BitVec 16) → Span → Span → Span
  | _, [], longest, _ => longest
  | i, s :: ss, longest, current =>
    longestSpan (i + 1) ss (nextSpan i s longest current).1 (nextSpan i s longest current).2

def Ipv6Addr.display (i : Ipv6Addr) : Text :=
  match i.toIpv4Mapped with
  | some ipv4 => "::ffff:".toList ++ ipv4.display
  | none =>
    let zeroes := longestSpan 0 i.segments ⟨0, 0⟩ ⟨0, 0⟩
    if 1 < zeroes.len then
      fmtSubslice (i.segments.take zeroes.start) ++ "::".toList
        ++ fmtSubslice (i.segments.drop (zeroes.start + zeroes.len))
    else fmtSubslice i.segments

def Addr.display : Addr → Text
  | .v4 i => i.display
  | .v6 i => i.display

/-! ### Reading -/

/-- Read a character. -/
def readGivenChar (c : Char) : Text → Option Text
  | d :: s => if d = c then some s else none
  | [] => none

/-- Read a number of at most `maxDigits` digits that has a number of bits. -/
def readNumber (radix maxDigits width : ℕ) (allowZeroPrefix : Bool) (s : Text) :
    Option (BitVec width × Text) :=
  let ds := digits radix s
  if maxDigits < ds.length then none
  else if ds = [] then none
  else if !allowZeroPrefix && s.head? == some '0' && decide (1 < ds.length) then none
  else if value radix ds < 2 ^ width then some (.ofNat width (value radix ds), s.drop ds.length)
  else none

def readOctet : Text → Option (BitVec 8 × Text) := readNumber 10 3 8 false

def readIpv4Addr (s : Text) : Option (Ipv4Addr × Text) := do
  let (a, s) ← readOctet s
  let (b, s) ← readOctet (← readGivenChar '.' s)
  let (c, s) ← readOctet (← readGivenChar '.' s)
  let (d, s) ← readOctet (← readGivenChar '.' s)
  return (⟨a, b, c, d⟩, s)

/-- Read a colon, unless this is the first, and what follows. -/
def readSeparator {α : Type} (first : Bool) (inner : Text → Option α) (s : Text) : Option α :=
  if first then inner s else (readGivenChar ':' s).bind inner

def readGroup : Text → Option (BitVec 16 × Text) := readNumber 16 4 16 true

/-- Read at most `limit` groups, the last two of which can be written as an IPv4 address; reports
whether they are. -/
def readGroups : ℕ → Bool → Text → List (BitVec 16) × Bool × Text
  | 0, _, s => ([], false, s)
  | limit + 1, first, s =>
    match if limit = 0 then none else readSeparator first readIpv4Addr s with
    | some (i, s) => ([i.a ++ i.b, i.c ++ i.d], true, s)
    | none =>
      match readSeparator first readGroup s with
      | some (g, s) =>
        let (gs, ipv4, s) := readGroups limit false s
        (g :: gs, ipv4, s)
      | none => ([], false, s)

theorem length_readGroups (limit : ℕ) (first : Bool) (s : Text) :
  (readGroups limit first s).1.length ≤ limit
  := by
  induction limit generalizing first s with
  | zero => exact le_rfl
  | succ limit ih =>
      rw [readGroups]
      split
      · rename_i hipv4
        split at hipv4
        · cases hipv4
        · rename_i hlimit
          simp only [List.length_cons, List.length_nil]
          omega
      · split
        · exact Nat.succ_le_succ (ih false _)
        · exact Nat.zero_le _

/-- Read what follows the groups `head` of an address: two colons, and the groups at its end. -/
def readTail (head : List (BitVec 16)) (hhead : head.length < 8) (s : Text) :
    Option (Ipv6Addr × Text) :=
  ((readGivenChar ':' s).bind (readGivenChar ':')).map (fun s =>
    let r := readGroups (8 - (head.length + 1)) true s
    (⟨head ++ List.replicate (8 - head.length - r.1.length) 0 ++ r.1, by
      have hlength := length_readGroups (8 - (head.length + 1)) true s
      rw [List.length_append, List.length_append, List.length_replicate]
      change head.length + (8 - head.length - (readGroups _ true s).1.length)
        + (readGroups _ true s).1.length = 8
      omega⟩, r.2.2))

def readIpv6Addr (s : Text) : Option (Ipv6Addr × Text) :=
  let r := readGroups 8 true s
  if h : r.1.length = 8 then some (⟨r.1, h⟩, r.2.2)
  else if r.2.1 then none
  else readTail r.1 (lt_of_le_of_ne (length_readGroups 8 true s) h) r.2.2

/-- Read an address. -/
def parse (s : Text) : Option Addr :=
  let read := ((readIpv4Addr s).map (fun r => (Addr.v4 r.1, r.2))).or
    ((readIpv6Addr s).map (fun r => (Addr.v6 r.1, r.2)))
  match read with
  | some (i, []) => some i
  | _ => none

/-! ### Reading what was written -/

section
variable {s t rest : Text} {width maxDigits : ℕ} {radix : ℕ}

/-- A number is read back from its digits, before what is not a digit. -/
theorem readNumber_toDigits {allowZeroPrefix : Bool} (v : BitVec width) (hbase : 1 < radix)
    (hradix : radix ≤ 16) (hmax : 0 < maxDigits) (hv : v.toNat < radix ^ maxDigits)
    (hrest : ∀ c ∈ rest.head?, toDigit radix c = none) :
  readNumber radix maxDigits width allowZeroPrefix (Nat.toDigits radix v.toNat ++ rest)
    = some (v, rest)
  := by
  have hlength := (Nat.length_toDigits_le_iff hbase hmax).mpr hv
  have hzero : (Nat.toDigits radix v.toNat ++ rest).head? = some '0' →
      ¬ 1 < (Nat.toDigits radix v.toNat).length := by
    intro h
    rw [List.head?_append_of_ne_nil _ Nat.toDigits_ne_nil] at h
    rw [head?_toDigits hbase hradix h]
    omega
  rw [readNumber, digits_toDigits hbase hradix hrest, if_neg (by omega),
    if_neg Nat.toDigits_ne_nil, if_neg, value_toDigits hbase hradix, if_pos v.isLt, List.drop_left,
    BitVec.ofNat_toNat, BitVec.setWidth_eq]
  rw [Bool.and_eq_true, Bool.and_eq_true, beq_iff_eq, decide_eq_true_eq]
  rintro ⟨⟨-, h⟩, hlong⟩
  exact hzero h hlong

/-- There is no number where the text does not start with a digit. -/
theorem readNumber_eq_none {allowZeroPrefix : Bool} (h : ∀ c ∈ s.head?, toDigit radix c = none) :
  readNumber radix maxDigits width allowZeroPrefix s = none
  := by
  have hdigits : digits radix s = [] := by
    cases s with
    | nil => rfl
    | cons c s => exact List.takeWhile_cons_of_neg (by simp [h c rfl])
  rw [readNumber, hdigits]
  rfl

theorem readGroup_eq_none (h : ∀ c ∈ s.head?, toDigit 16 c = none) :
  readGroup s = none
  := readNumber_eq_none h

theorem readOctet_toDigits (v : BitVec 8) (hrest : ∀ c ∈ rest.head?, toDigit 10 c = none) :
  readOctet (Nat.toDigits 10 v.toNat ++ rest) = some (v, rest)
  := by
  apply readNumber_toDigits v (by decide) (by decide) (by decide) _ hrest
  have := v.isLt
  omega

theorem readGroup_hex (v : BitVec 16) (hrest : ∀ c ∈ rest.head?, toDigit 16 c = none) :
  readGroup (hex v ++ rest) = some (v, rest)
  := by
  apply readNumber_toDigits v (by decide) (by decide) (by decide) _ hrest
  exact v.isLt

/-- An IPv4 address is read back, before what is not a digit. -/
theorem readIpv4Addr_display (i : Ipv4Addr) (hrest : ∀ c ∈ rest.head?, toDigit 10 c = none) :
  readIpv4Addr (i.display ++ rest) = some (i, rest)
  := by
  have hdot : ∀ s : Text, ∀ c ∈ ('.' :: s).head?, toDigit 10 c = none := by
    rintro s _ ⟨⟩
    rfl
  rw [readIpv4Addr, Ipv4Addr.display]
  simp only [List.append_assoc, List.cons_append]
  rw [readOctet_toDigits _ (hdot _)]
  simp only [Option.bind_eq_bind, Option.bind_some, readGivenChar, if_pos]
  rw [readOctet_toDigits _ (hdot _)]
  simp only [Option.bind_some, if_pos]
  rw [readOctet_toDigits _ (hdot _)]
  simp only [Option.bind_some, if_pos]
  rw [readOctet_toDigits _ hrest]
  rfl

theorem readNumber_suffix {allowZeroPrefix : Bool} {v : BitVec width}
    (h : readNumber radix maxDigits width allowZeroPrefix s = some (v, t)) :
  t <:+ s
  := by
  rw [readNumber] at h
  split at h
  · cases h
  split at h
  · cases h
  split at h
  · cases h
  split at h
  · cases h
    exact List.drop_suffix _ _
  · cases h

/-- Without a dot there is no IPv4 address. -/
theorem readIpv4Addr_eq_none (hdot : '.' ∉ s) :
  readIpv4Addr s = none
  := by
  rw [readIpv4Addr]
  cases hread : readOctet s with
  | none => rfl
  | some r =>
      obtain ⟨a, t⟩ := r
      have hsuffix := readNumber_suffix hread
      have hnone : readGivenChar '.' t = none := by
        cases t with
        | nil => rfl
        | cons c t =>
            rw [readGivenChar, if_neg]
            rintro rfl
            exact hdot (hsuffix.subset List.mem_cons_self)
      simp only [Option.bind_eq_bind, Option.bind_some, hnone, Option.bind_none]

/-- Where the groups of an address end: at the end of the text, or at two colons. -/
def Ends (s : Text) : Prop := s = [] ∨ ∃ t, s = ':' :: ':' :: t

theorem Ends.not_digit (h : Ends s) :
  ∀ c ∈ s.head?, toDigit 16 c = none
  := by
  rcases h with rfl | ⟨t, rfl⟩
  · rintro _ ⟨⟩
  · rintro _ ⟨⟩
    rfl

theorem colon_not_digit (s : Text) :
  ∀ c ∈ (':' :: s).head?, toDigit 16 c = none
  := by
  rintro _ ⟨⟩
  rfl

/-- After a group, what follows starts with a colon, or ends the groups. -/
theorem fmtTail_not_digit (chunk : List (BitVec 16)) (h : Ends s) :
  ∀ c ∈ (fmtTail chunk ++ s).head?, toDigit 16 c = none
  := by
  cases chunk with
  | nil => exact h.not_digit
  | cons g gs => exact colon_not_digit _

theorem mem_hex {c : Char} {v : BitVec 16} (h : c ∈ hex v) :
  (toDigit 16 c).isSome = true
  := isSome_toDigit_of_mem (by decide) (by decide) h

theorem mem_fmtTail {c : Char} {chunk : List (BitVec 16)} (h : c ∈ fmtTail chunk) :
  c = ':' ∨ (toDigit 16 c).isSome = true
  := by
  obtain ⟨g, -, hc⟩ := List.mem_flatMap.mp h
  exact (List.mem_cons.mp hc).imp_right mem_hex

theorem mem_fmtSubslice {c : Char} {chunk : List (BitVec 16)} (h : c ∈ fmtSubslice chunk) :
  c = ':' ∨ (toDigit 16 c).isSome = true
  := by
  cases chunk with
  | nil => cases h
  | cons g gs =>
      rcases List.mem_append.mp h with h | h
      · exact .inr (mem_hex h)
      · exact mem_fmtTail h

theorem not_dot_of_mem {c : Char} (h : c = ':' ∨ (toDigit 16 c).isSome = true) :
  c ≠ '.'
  := by
  rintro rfl
  rcases h with h | h
  · exact absurd h (by decide)
  · exact absurd h (by decide)

/-- Groups after the first are read back, up to where they end. -/
theorem readGroups_fmtTail {limit : ℕ} {chunk : List (BitVec 16)} (hlimit : chunk.length ≤ limit)
    (hends : Ends rest) (hdot : '.' ∉ fmtTail chunk ++ rest) :
  readGroups limit false (fmtTail chunk ++ rest) = (chunk, false, rest)
  := by
  induction limit generalizing chunk with
  | zero =>
      obtain rfl := List.length_eq_zero_iff.mp (Nat.le_zero.mp hlimit)
      rfl
  | succ limit ih =>
      have hipv4 : (if limit = 0 then none else readSeparator false readIpv4Addr
          (fmtTail chunk ++ rest)) = none := by
        split
        · rfl
        · rw [readSeparator, if_neg (by decide)]
          cases hs : fmtTail chunk ++ rest with
          | nil => rfl
          | cons c s =>
              rw [hs] at hdot
              rw [readGivenChar]
              split
              · exact readIpv4Addr_eq_none (fun h => hdot (List.mem_cons_of_mem _ h))
              · rfl
      rw [readGroups, hipv4]
      dsimp only
      cases chunk with
      | nil =>
          have hgroup : readSeparator false readGroup (fmtTail [] ++ rest) = none := by
            rcases hends with rfl | ⟨t, rfl⟩
            · rfl
            · exact readGroup_eq_none (colon_not_digit t)
          rw [hgroup]
          rfl
      | cons g gs =>
          have hgroup : readSeparator false readGroup (fmtTail (g :: gs) ++ rest)
              = some (g, fmtTail gs ++ rest) := by
            have htext : fmtTail (g :: gs) ++ rest = ':' :: (hex g ++ (fmtTail gs ++ rest)) := by
              rw [fmtTail, List.flatMap_cons, List.cons_append, List.cons_append,
                List.append_assoc]
              rfl
            rw [htext]
            exact readGroup_hex g (fmtTail_not_digit gs hends)
          rw [hgroup]
          dsimp only
          rw [ih (Nat.le_of_succ_le_succ hlimit)]
          intro h
          apply hdot
          rw [fmtTail, List.flatMap_cons, List.append_assoc]
          exact List.mem_append_right _ h

/-- Groups are read back, up to where they end. -/
theorem readGroups_fmtSubslice {limit : ℕ} {chunk : List (BitVec 16)}
    (hlimit : chunk.length ≤ limit) (hends : Ends rest) (hdot : '.' ∉ fmtSubslice chunk ++ rest) :
  readGroups limit true (fmtSubslice chunk ++ rest) = (chunk, false, rest)
  := by
  cases limit with
  | zero =>
      obtain rfl := List.length_eq_zero_iff.mp (Nat.le_zero.mp hlimit)
      rfl
  | succ limit =>
      have hipv4 : (if limit = 0 then none else readSeparator true readIpv4Addr
          (fmtSubslice chunk ++ rest)) = none := by
        split
        · rfl
        · exact readIpv4Addr_eq_none hdot
      rw [readGroups, hipv4]
      dsimp only
      cases chunk with
      | nil =>
          have hgroup : readSeparator true readGroup (fmtSubslice [] ++ rest) = none :=
            readGroup_eq_none hends.not_digit
          rw [hgroup]
          rfl
      | cons g gs =>
          have hgroup : readSeparator true readGroup (fmtSubslice (g :: gs) ++ rest)
              = some (g, fmtTail gs ++ rest) := by
            rw [fmtSubslice, List.append_assoc]
            exact readGroup_hex g (fmtTail_not_digit gs hends)
          rw [hgroup]
          dsimp only
          rw [readGroups_fmtTail (Nat.le_of_succ_le_succ hlimit) hends]
          intro h
          apply hdot
          rw [fmtSubslice, List.append_assoc]
          exact List.mem_append_right _ h

end

/-! ### The longest run of zero groups -/

/-- A run of zero groups of a list. -/
def Span.Of (zeroes : Span) (ss : List (BitVec 16)) : Prop :=
  ∃ front back, ss = front ++ List.replicate zeroes.len 0 ++ back ∧ front.length = zeroes.start

theorem Span.Of.append {zeroes : Span} {ss : List (BitVec 16)} (h : zeroes.Of ss)
    (ss' : List (BitVec 16)) :
  zeroes.Of (ss ++ ss')
  := by
  obtain ⟨front, back, rfl, hfront⟩ := h
  exact ⟨front, back ++ ss', by simp, hfront⟩

/-- The run found is a run: the longest so far is one of the groups before, and the current one is
at their end. -/
theorem longestSpan_of {before after : List (BitVec 16)} {longest current : Span}
    (hlongest : 0 < longest.len → longest.Of before)
    (hcurrent : 0 < current.len → ∃ front, before = front ++ List.replicate current.len 0
      ∧ front.length = current.start)
    (hlen : 0 < (longestSpan before.length after longest current).len) :
  (longestSpan before.length after longest current).Of (before ++ after)
  := by
  induction after generalizing before longest current with
  | nil =>
      rw [List.append_nil]
      exact hlongest hlen
  | cons s after ih =>
      rw [longestSpan] at hlen ⊢
      have hbefore : before.length + 1 = (before ++ [s]).length := by simp
      rw [hbefore] at hlen ⊢
      rw [List.append_cons before s after]
      have hlongest' : 0 < longest.len → longest.Of (before ++ [s]) :=
        fun h => (hlongest h).append [s]
      by_cases hs : s = 0
      · subst hs
        have hcurrent' : ∃ front, before ++ [0] = front ++ List.replicate (current.len + 1) 0
            ∧ front.length = if current.len = 0 then before.length else current.start := by
          by_cases hzero : current.len = 0
          · exact ⟨before, by simp [hzero], by simp [hzero]⟩
          · obtain ⟨front, rfl, hfront⟩ := hcurrent (Nat.pos_of_ne_zero hzero)
            use front
            rw [if_neg hzero, List.replicate_succ', List.append_assoc]
            exact ⟨rfl, hfront⟩
        apply ih _ _ hlen
        · rw [nextSpan, if_pos rfl]
          dsimp only
          intro hpos
          split
          · obtain ⟨front, hfront, hlength⟩ := hcurrent'
            exact ⟨front, [], by rw [List.append_nil, hfront], hlength⟩
          · rename_i hle
            rw [if_neg hle] at hpos
            exact hlongest' hpos
        · rw [nextSpan, if_pos rfl]
          exact fun _ => hcurrent'
      · apply ih _ _ hlen
        · rw [nextSpan, if_neg hs]
          exact hlongest'
        · rw [nextSpan, if_neg hs]
          intro h
          cases h

theorem longestSpan_start {ss : List (BitVec 16)}
    (hlen : 0 < (longestSpan 0 ss ⟨0, 0⟩ ⟨0, 0⟩).len) :
  (longestSpan 0 ss ⟨0, 0⟩ ⟨0, 0⟩).Of ss
  := @longestSpan_of [] ss ⟨0, 0⟩ ⟨0, 0⟩ (fun h => absurd h (lt_irrefl 0))
    (fun h => absurd h (lt_irrefl 0)) hlen

/-- The groups before and after a run of zeros make up the address. -/
theorem Span.Of.eq {zeroes : Span} {ss : List (BitVec 16)} (h : zeroes.Of ss) :
  ss.take zeroes.start ++ List.replicate zeroes.len 0 ++ ss.drop (zeroes.start + zeroes.len) = ss
  := by
  obtain ⟨front, back, rfl, hfront⟩ := h
  have hlength : zeroes.start + zeroes.len
      = (front ++ List.replicate zeroes.len (0 : BitVec 16)).length := by
    rw [List.length_append, List.length_replicate, hfront]
  rw [hlength, List.drop_left, ← hfront, List.append_assoc front, List.take_left,
    List.append_assoc]

/-! ### Round trips -/

theorem extract_append (s : BitVec 16) :
  s.extractLsb' 8 8 ++ s.extractLsb' 0 8 = s
  := by
  apply BitVec.eq_of_toNat_eq
  rw [BitVec.toNat_append, BitVec.extractLsb'_toNat, BitVec.extractLsb'_toNat]
  have := s.isLt
  rw [← Nat.shiftLeft_add_eq_or_of_lt (by omega), Nat.shiftLeft_eq, Nat.shiftRight_eq_div_pow]
  omega

/-- An address that maps an IPv4 address is the address it is mapped to. -/
theorem toIpv6Mapped_of_toIpv4Mapped {i : Ipv6Addr} {ipv4 : Ipv4Addr}
    (h : i.toIpv4Mapped = some ipv4) :
  ipv4.toIpv6Mapped = i
  := by
  obtain ⟨segments, hlength⟩ := i
  rw [Ipv6Addr.toIpv4Mapped] at h
  split at h
  · rename_i ab cd hsegments
    cases h
    simp only [Ipv4Addr.toIpv6Mapped, extract_append]
    congr 1
    exact hsegments.symm
  · cases h

theorem toIpv4Mapped_toIpv6Mapped (i : Ipv4Addr) :
  i.toIpv6Mapped.toIpv4Mapped = some i
  := by
  have hhigh : ∀ a b : BitVec 8, (a ++ b).extractLsb' 8 8 = a := by
    intro a b
    apply BitVec.eq_of_toNat_eq
    rw [BitVec.extractLsb'_toNat, BitVec.toNat_append, Nat.shiftRight_eq_div_pow,
      ← Nat.shiftLeft_add_eq_or_of_lt b.isLt, Nat.shiftLeft_eq]
    have := a.isLt
    have := b.isLt
    omega
  have hlow : ∀ a b : BitVec 8, (a ++ b).extractLsb' 0 8 = b := by
    intro a b
    apply BitVec.eq_of_toNat_eq
    rw [BitVec.extractLsb'_toNat, BitVec.toNat_append, Nat.shiftRight_eq_div_pow,
      ← Nat.shiftLeft_add_eq_or_of_lt b.isLt, Nat.shiftLeft_eq]
    have := a.isLt
    have := b.isLt
    omega
  change some (Ipv4Addr.mk _ _ _ _) = some i
  rw [hhigh, hlow, hhigh, hlow]

theorem readIpv4Addr_display_nil (i : Ipv4Addr) :
  readIpv4Addr i.display = some (i, [])
  := by
  have hread := @readIpv4Addr_display [] i (by rintro _ ⟨⟩)
  rw [List.append_nil] at hread
  exact hread

theorem parse_display_v4 (i : Ipv4Addr) :
  parse i.display = some (.v4 i)
  := by
  rw [parse, readIpv4Addr_display_nil]
  rfl

/-- An IPv6 address that is read in full, and does not start as an IPv4 address. -/
theorem parse_of_readIpv6Addr {s : Text} {i : Ipv6Addr} (hipv4 : readIpv4Addr s = none)
    (hipv6 : readIpv6Addr s = some (i, [])) :
  parse s = some (.v6 i)
  := by
  rw [parse, hipv4, hipv6]
  rfl

/-- An address of which fewer than eight groups are read at first is read on after two colons. -/
theorem readIpv6Addr_of_head {s rest : Text} {head : List (BitVec 16)}
    (hhead : readGroups 8 true s = (head, false, rest)) (hlt : head.length < 8) :
  readIpv6Addr s = readTail head hlt rest
  := by
  rw [readIpv6Addr, dif_neg (by rw [hhead]; exact Nat.ne_of_lt hlt), if_neg (by simp [hhead])]
  simp only [hhead]

theorem readTail_of {s rest : Text} {head tail : List (BitVec 16)} {ipv4 : Bool}
    (hlt : head.length < 8) (htail : readGroups (8 - (head.length + 1)) true s = (tail, ipv4, rest))
    {i : Ipv6Addr}
    (hi : i.segments = head ++ List.replicate (8 - head.length - tail.length) 0 ++ tail) :
  readTail head hlt (':' :: ':' :: s) = some (i, rest)
  := by
  obtain ⟨segments, hlength⟩ := i
  obtain rfl := hi
  simp only [readTail, readGivenChar, if_pos, Option.bind_some, Option.map_some, htail]

theorem parse_display_mapped (ipv4 : Ipv4Addr) :
  parse ("::ffff:".toList ++ ipv4.display) = some (.v6 ipv4.toIpv6Mapped)
  := by
  have hread : readIpv4Addr ("::ffff:".toList ++ ipv4.display) = none := rfl
  apply parse_of_readIpv6Addr hread
  have hhead : readGroups 8 true ("::ffff:".toList ++ ipv4.display)
      = ([], false, "::ffff:".toList ++ ipv4.display) := by
    have hgroup : readSeparator true readGroup ("::ffff:".toList ++ ipv4.display) = none := rfl
    rw [readGroups, if_neg (by decide), readSeparator, if_pos rfl, hread]
    dsimp only
    rw [hgroup]
  have htail : readGroups 7 true ("ffff:".toList ++ ipv4.display)
      = ([0xFFFF, ipv4.a ++ ipv4.b, ipv4.c ++ ipv4.d], true, []) := by
    have hfirst : readSeparator true readIpv4Addr ("ffff:".toList ++ ipv4.display) = none := rfl
    have hgroup : readSeparator true readGroup ("ffff:".toList ++ ipv4.display)
        = some (0xFFFF, ':' :: ipv4.display) :=
      readGroup_hex 0xFFFF (colon_not_digit _)
    have hnext : readSeparator false readIpv4Addr (':' :: ipv4.display) = some (ipv4, []) := by
      exact readIpv4Addr_display_nil ipv4
    rw [readGroups, if_neg (by decide), hfirst]
    dsimp only
    rw [hgroup]
    dsimp only
    rw [readGroups, if_neg (by decide), hnext]
  have hlt : ([] : List (BitVec 16)).length < 8 := by decide
  rw [readIpv6Addr_of_head hhead hlt]
  exact readTail_of hlt htail rfl

/-- Groups that are written in full are read back. -/
theorem parse_fmtSubslice {i : Ipv6Addr} :
  parse (fmtSubslice i.segments) = some (.v6 i)
  := by
  have hdot : '.' ∉ fmtSubslice i.segments ++ [] := by
    rw [List.append_nil]
    exact fun h => not_dot_of_mem (mem_fmtSubslice h) rfl
  have hread := readGroups_fmtSubslice (Nat.le_of_eq i.length_segments) (.inl rfl) hdot
  rw [List.append_nil] at hread hdot
  apply parse_of_readIpv6Addr (readIpv4Addr_eq_none hdot)
  rw [readIpv6Addr, dif_pos (by rw [hread]; exact i.length_segments)]
  simp only [hread]

/-- Groups that are written with a run of zeros left out are read back. -/
theorem parse_compressed {i : Ipv6Addr} {front back : List (BitVec 16)} {len : ℕ}
    (hi : i.segments = front ++ List.replicate len 0 ++ back) (hlen : 1 < len) :
  parse (fmtSubslice front ++ "::".toList ++ fmtSubslice back) = some (.v6 i)
  := by
  have hlength := i.length_segments
  rw [hi, List.length_append, List.length_append, List.length_replicate] at hlength
  have hnot : ∀ chunk, '.' ∉ fmtSubslice chunk := fun _ h => not_dot_of_mem (mem_fmtSubslice h) rfl
  have hrest : '.' ∉ "::".toList ++ fmtSubslice back := by
    intro h
    rcases List.mem_append.mp h with h | h
    · exact absurd h (by decide)
    · exact hnot back h
  have hdot : '.' ∉ fmtSubslice front ++ ("::".toList ++ fmtSubslice back) := by
    intro h
    rcases List.mem_append.mp h with h | h
    · exact hnot front h
    · exact hrest h
  have hlt : front.length < 8 := by omega
  have hhead := readGroups_fmtSubslice (Nat.le_of_lt hlt) (.inr ⟨fmtSubslice back, rfl⟩) hdot
  have hback : '.' ∉ fmtSubslice back ++ [] := by
    rw [List.append_nil]
    exact hnot back
  have hlimit : back.length ≤ 8 - (front.length + 1) := by omega
  have htail := readGroups_fmtSubslice hlimit (.inl rfl) hback
  rw [List.append_nil] at htail
  rw [List.append_assoc]
  apply parse_of_readIpv6Addr (readIpv4Addr_eq_none hdot)
  change readIpv6Addr (fmtSubslice front ++ ':' :: ':' :: fmtSubslice back) = _
  rw [readIpv6Addr_of_head hhead hlt]
  apply readTail_of hlt htail
  have hzeros : 8 - front.length - back.length = len := by omega
  rw [hzeros, hi]

theorem parse_display_v6 (i : Ipv6Addr) :
  parse i.display = some (.v6 i)
  := by
  rw [Ipv6Addr.display]
  cases hmapped : i.toIpv4Mapped with
  | some ipv4 =>
      rw [← toIpv6Mapped_of_toIpv4Mapped hmapped]
      exact parse_display_mapped ipv4
  | none =>
      dsimp only
      split
      · rename_i hlen
        exact parse_compressed (longestSpan_start (Nat.zero_lt_of_lt hlen)).eq.symm hlen
      · exact parse_fmtSubslice

/-- An address is read back from its text. -/
theorem parse_display (i : Addr) :
  parse i.display = some i
  := by
  cases i with
  | v4 i => exact parse_display_v4 i
  | v6 i => exact parse_display_v6 i

/-! ### What an address is written with -/

/-- The characters of addresses. -/
def isAddrChar (c : Char) : Bool := c == ':' || c == '.' || (toDigit 16 c).isSome

theorem mem_display_v4 {i : Ipv4Addr} {c : Char} (h : c ∈ i.display) :
  isAddrChar c = true
  := by
  have hdigit : ∀ v : BitVec 8, c ∈ Nat.toDigits 10 v.toNat → isAddrChar c = true := by
    intro v hc
    have hten := isSome_toDigit_of_mem (by decide) (by decide) hc
    rw [isAddrChar, isSome_toDigit_of_le (by decide) hten, Bool.or_true]
  rw [Ipv4Addr.display] at h
  simp only [List.append_assoc, List.cons_append, List.mem_append, List.mem_cons] at h
  rcases h with h | rfl | h | rfl | h | rfl | h
  · exact hdigit _ h
  · rfl
  · exact hdigit _ h
  · rfl
  · exact hdigit _ h
  · rfl
  · exact hdigit _ h

theorem mem_display {i : Addr} {c : Char} (h : c ∈ i.display) :
  isAddrChar c = true
  := by
  have hgroups : ∀ chunk, c ∈ fmtSubslice chunk → isAddrChar c = true := by
    intro chunk hc
    rw [isAddrChar]
    rcases mem_fmtSubslice hc with rfl | hc
    · rfl
    · rw [hc, Bool.or_true]
  cases i with
  | v4 i => exact mem_display_v4 h
  | v6 i =>
      rw [Addr.display, Ipv6Addr.display] at h
      split at h
      · rcases List.mem_append.mp h with h | h
        · have hall : "::ffff:".toList.all isAddrChar = true := by decide
          exact List.all_eq_true.mp hall c h
        · exact mem_display_v4 h
      · dsimp only at h
        split at h
        · rcases List.mem_append.mp h with h | h
          · rcases List.mem_append.mp h with h | h
            · exact hgroups _ h
            · have hall : "::".toList.all isAddrChar = true := by decide
              exact List.all_eq_true.mp hall c h
          · exact hgroups _ h
        · exact hgroups _ h

/-- An IPv6 address has a colon. -/
theorem colon_mem_display (i : Ipv6Addr) :
  ':' ∈ i.display
  := by
  rw [Ipv6Addr.display]
  split
  · exact List.mem_append_left _ (by decide)
  · dsimp only
    split
    · exact List.mem_append_left _ (List.mem_append_right _ List.mem_cons_self)
    · obtain ⟨segments, hlen⟩ := i
      match segments, hlen with
      | s :: s' :: ss, _ => exact List.mem_append_right _ List.mem_cons_self

theorem display_ne_nil (i : Addr) :
  i.display ≠ []
  := by
  intro h
  have hparse := parse_display i
  rw [h] at hparse
  cases hparse

/-! ### The characters of an address -/

/-- A character that addresses are written with. -/
def AddrChar (c : Char) : Prop := (toDigit 16 c).isSome = true ∨ c = ':' ∨ c = '.'

/-- What is read between two places has only characters of addresses. -/
def Reads (s t : Text) : Prop := ∃ u, s = u ++ t ∧ ∀ c ∈ u, AddrChar c

section
variable {s t r : Text}

theorem Reads.refl (s : Text) :
  Reads s s
  := ⟨[], rfl, fun _ h => absurd h List.not_mem_nil⟩

theorem Reads.trans (h : Reads s t) (h' : Reads t r) :
  Reads s r
  := by
  obtain ⟨u, rfl, hu⟩ := h
  obtain ⟨u', rfl, hu'⟩ := h'
  use u ++ u', (List.append_assoc u u' r).symm
  intro c hc
  exact (List.mem_append.mp hc).elim (hu c) (hu' c)

theorem reads_readGivenChar {c : Char} (hc : AddrChar c) (h : readGivenChar c s = some t) :
  Reads s t
  := by
  cases s with
  | nil => cases h
  | cons d s =>
      rw [readGivenChar] at h
      split at h
      · rename_i hd
        cases h
        use [d], rfl
        intro e he
        rw [List.mem_singleton.mp he, hd]
        exact hc
      · cases h

theorem reads_readNumber {radix maxDigits width : ℕ} {allowZeroPrefix : Bool} {v : BitVec width}
    (hradix : radix ≤ 16) (h : readNumber radix maxDigits width allowZeroPrefix s = some (v, t)) :
  Reads s t
  := by
  have hdrop : t = s.drop (digits radix s).length := by
    rw [readNumber] at h
    split at h
    · cases h
    split at h
    · cases h
    split at h
    · cases h
    split at h
    · cases h
      rfl
    · cases h
  have hsplit : s = digits radix s ++ s.dropWhile (fun c => (toDigit radix c).isSome) :=
    List.takeWhile_append_dropWhile.symm
  use digits radix s
  constructor
  · rw [hdrop]
    conv => rhs; rhs; rhs; rw [hsplit]
    rw [List.drop_left]
    exact hsplit
  · intro c hc
    have hdigit : (toDigit radix c).isSome = true :=
      List.mem_takeWhile_imp (p := fun c => (toDigit radix c).isSome) hc
    exact .inl (isSome_toDigit_of_le hradix hdigit)

theorem reads_readIpv4Addr {i : Ipv4Addr} (h : readIpv4Addr s = some (i, t)) :
  Reads s t
  := by
  have hdot : AddrChar '.' := .inr (.inr rfl)
  simp only [readIpv4Addr, Option.bind_eq_bind, Option.bind_eq_some_iff, Prod.exists,
    Option.pure_def, Option.some.injEq, Prod.mk.injEq] at h
  obtain ⟨a, s₁, h₁, s₁', h₁', b, s₂, h₂, s₂', h₂', c, s₃, h₃, s₃', h₃', d, s₄, h₄, _, rfl⟩ := h
  have hfirst := (reads_readNumber (by decide) h₁).trans (reads_readGivenChar hdot h₁')
  have hsecond := (reads_readNumber (by decide) h₂).trans (reads_readGivenChar hdot h₂')
  have hthird := (reads_readNumber (by decide) h₃).trans (reads_readGivenChar hdot h₃')
  exact ((hfirst.trans hsecond).trans hthird).trans (reads_readNumber (by decide) h₄)

theorem reads_readSeparator {α : Type} {first : Bool} {inner : Text → Option (α × Text)} {v : α}
    (hinner : ∀ s t v, inner s = some (v, t) → Reads s t)
    (h : readSeparator first inner s = some (v, t)) :
  Reads s t
  := by
  rw [readSeparator] at h
  split at h
  · exact hinner s t v h
  · obtain ⟨s', hcolon, hread⟩ := Option.bind_eq_some_iff.mp h
    exact (reads_readGivenChar (.inr (.inl rfl)) hcolon).trans (hinner s' t v hread)

theorem reads_readGroups (limit : ℕ) (first : Bool) (s : Text) :
  Reads s (readGroups limit first s).2.2
  := by
  induction limit generalizing first s with
  | zero => exact .refl s
  | succ limit ih =>
      rw [readGroups]
      split
      · rename_i i s' hipv4
        split at hipv4
        · cases hipv4
        · exact reads_readSeparator (fun _ _ _ => reads_readIpv4Addr) hipv4
      · split
        · rename_i g s' hgroup
          have hread : Reads s s' :=
            reads_readSeparator (fun _ _ _ => reads_readNumber (by decide)) hgroup
          exact hread.trans (ih false s')
        · exact .refl s

theorem reads_readIpv6Addr {i : Ipv6Addr} (h : readIpv6Addr s = some (i, t)) :
  Reads s t
  := by
  have hgroups := reads_readGroups 8 true s
  have hcolon : AddrChar ':' := .inr (.inl rfl)
  rw [readIpv6Addr] at h
  split at h
  · cases h
    exact hgroups
  split at h
  · cases h
  · rw [readTail, Option.map_eq_some_iff] at h
    obtain ⟨s', hcolons, heq⟩ := h
    obtain ⟨s'', h₁, h₂⟩ := Option.bind_eq_some_iff.mp hcolons
    cases heq
    have htail := (reads_readGivenChar hcolon h₁).trans (reads_readGivenChar hcolon h₂)
    exact (hgroups.trans htail).trans (reads_readGroups _ true s')

/-- An address that is read has been written with the characters of addresses. -/
theorem addrChar_of_parse {i : Addr} (h : parse s = some i) :
  ∀ c ∈ s, AddrChar c
  := by
  have hall : ∀ {s : Text}, Reads s [] → ∀ c ∈ s, AddrChar c := by
    rintro s ⟨u, rfl, hu⟩ c hc
    rw [List.append_nil] at hc
    exact hu c hc
  rw [parse] at h
  split at h
  · rename_i i' hread
    apply hall
    obtain hv4 | ⟨_, hv6⟩ := Option.or_eq_some_iff.mp hread
    · obtain ⟨⟨i₄, t⟩, hr, heq⟩ := Option.map_eq_some_iff.mp hv4
      cases heq
      exact reads_readIpv4Addr hr
    · obtain ⟨⟨i₆, t⟩, hr, heq⟩ := Option.map_eq_some_iff.mp hv6
      cases heq
      exact reads_readIpv6Addr hr
  · cases h

end
/-! ### Addresses as bytes -/

/-- The bytes of an address, highest first. -/
def Ipv4Addr.octets (i : Ipv4Addr) : List UInt8 := [⟨i.a⟩, ⟨i.b⟩, ⟨i.c⟩, ⟨i.d⟩]

/-- The bytes of a group, highest first. -/
def groupOctets (s : BitVec 16) : List UInt8 := [⟨s.extractLsb' 8 8⟩, ⟨s.extractLsb' 0 8⟩]

def Ipv6Addr.octets (i : Ipv6Addr) : List UInt8 := i.segments.flatMap groupOctets

/-- The groups that bytes write. -/
def groups : List UInt8 → List (BitVec 16)
  | a :: b :: s => (a.toBitVec ++ b.toBitVec) :: groups s
  | _ => []

/-- The address that four or sixteen bytes write. -/
def ofOctets (b : List UInt8) : Option Addr :=
  match b with
  | [a, b, c, d] => some (.v4 ⟨a.toBitVec, b.toBitVec, c.toBitVec, d.toBitVec⟩)
  | b => if h : (groups b).length = 8 ∧ b.length = 16 then some (.v6 ⟨groups b, h.1⟩) else none

theorem groups_flatMap (ss : List (BitVec 16)) :
  groups (ss.flatMap groupOctets) = ss
  := by
  induction ss with
  | nil => rfl
  | cons s ss ih =>
      change (s.extractLsb' 8 8 ++ s.extractLsb' 0 8) :: groups (ss.flatMap groupOctets) = s :: ss
      rw [ih, extract_append]

theorem length_flatMap_groupOctets (ss : List (BitVec 16)) :
  (ss.flatMap groupOctets).length = 2 * ss.length
  := by
  induction ss with
  | nil => rfl
  | cons s ss ih =>
      rw [List.flatMap_cons, List.length_append, ih, List.length_cons]
      change 2 + _ = _
      omega

@[simp]
theorem Ipv4Addr.length_octets (i : Ipv4Addr) :
  i.octets.length = 4
  := rfl

@[simp]
theorem Ipv6Addr.length_octets (i : Ipv6Addr) :
  i.octets.length = 16
  := by
  rw [Ipv6Addr.octets, length_flatMap_groupOctets, i.length_segments]

theorem ofOctets_v4 (i : Ipv4Addr) :
  ofOctets i.octets = some (.v4 i)
  := rfl

theorem ofOctets_v6 (i : Ipv6Addr) :
  ofOctets i.octets = some (.v6 i)
  := by
  have hlen := i.length_octets
  have hgroups : groups i.octets = i.segments := groups_flatMap i.segments
  unfold ofOctets
  split
  · rename_i heq
    rw [heq] at hlen
    cases hlen
  · rw [dif_pos ⟨by rw [hgroups, i.length_segments], hlen⟩]
    simp only [hgroups]

end IpAddr
