import Termoso.Lib.IpAddr
import Termoso.Lib.Percent

/-!
# Hosts of URLs

A host as the URL standard reads it: an IPv6 address between brackets, an IPv4 address where the
last label is a number, and a domain else.  What IDNA makes of a domain is a parameter.  A domain
and an address come back when they are written and read again.
-/

namespace UrlHost

open IpAddr (Ipv4Addr Ipv6Addr)
open Digits Utf8

/-- What IDNA makes of a domain: a text of ASCII that it leaves as it is.  A text of ASCII without
letters it leaves as it is too. -/
structure Idna where
  toAscii : Text → Option Text
  isAscii : ∀ {s t}, toAscii s = some t → ∀ c ∈ t, c.toNat < 128
  again : ∀ {s t}, toAscii s = some t → toAscii t = some t
  unlettered : ∀ {s : Text}, (∀ c ∈ s, c.toNat < 128 ∧ c.isAlpha = false) → toAscii s = some s

/-- Why a URL is not read. -/
inductive ParseError
  | emptyHost
  | idnaError
  | invalidPort
  | invalidIpv4Address
  | invalidIpv6Address
  | relativeUrlWithoutBase
deriving DecidableEq

def ParseError.display : ParseError → String
  | .emptyHost => "empty host"
  | .idnaError => "invalid international domain name"
  | .invalidPort => "invalid port number"
  | .invalidIpv4Address => "invalid IPv4 address"
  | .invalidIpv6Address => "invalid IPv6 address"
  | .relativeUrlWithoutBase => "relative URL without a base"

inductive Host
  | domain (d : Text)
  | ipv4 (i : Ipv4Addr)
  | ipv6 (i : Ipv6Addr)
deriving DecidableEq

/-- A character that no domain has. -/
def isForbidden (c : Char) : Bool :=
  decide (c.toNat ≤ 0x20) || c == '\x7F' || "#%/:<>?@[\\]^|".toList.contains c

/-! ### IPv4 addresses -/

/-- A number in a radix; none for no digits at all. -/
def readRadix (radix : ℕ) (s : Text) : Option ℕ :=
  if s.all (fun c => (toDigit radix c).isSome) then some (value radix s) else none

/-- A part of an IPv4 address, in hexadecimal, octal or decimal. -/
def parseNumber : Text → Option ℕ
  | [] => none
  | '0' :: 'x' :: s => readRadix 16 s
  | '0' :: 'X' :: s => readRadix 16 s
  | '0' :: c :: s => readRadix 8 (c :: s)
  | s => readRadix 10 s

/-- What stands between the dots, of which one can be the last character. -/
def labels (s : Text) : List Text :=
  let parts := s.splitOn '.'
  if parts.getLast? = some [] then parts.dropLast else parts

/-- The last label is a number. -/
def endsInNumber (s : Text) : Bool :=
  match (labels s).getLast? with
  | none => false
  | some l => (!l.isEmpty && l.all Char.isDigit) || (parseNumber l).isSome

/-- The value of parts, of which the last fills all the bytes that are left. -/
def ipv4Value : ℕ → List ℕ → ℕ
  | _, [] => 0
  | _, [n] => n
  | k, n :: ns => n * 256 ^ k + ipv4Value (k - 1) ns

/-- The IPv4 address of a number. -/
def ofNumber (n : ℕ) : Ipv4Addr :=
  ⟨.ofNat 8 (n / 2 ^ 24), .ofNat 8 (n / 2 ^ 16), .ofNat 8 (n / 2 ^ 8), .ofNat 8 n⟩

def parseIpv4 (s : Text) : Option Ipv4Addr :=
  if 4 < (labels s).length then none
  else
    ((labels s).mapM parseNumber).bind (fun ns =>
      if ns.dropLast.any (fun n => decide (255 < n))
          || decide (256 ^ (5 - ns.length) ≤ ns.getLast?.getD 0) then none
      else some (ofNumber (ipv4Value 3 ns)))

def parseIpv6 (s : Text) : Option Ipv6Addr :=
  match IpAddr.parse s with
  | some (.v6 i) => some i
  | _ => none

/-! ### Hosts -/

/-- Read a domain, or an IPv4 address. -/
def parseDomain (idna : Idna) (s : Text) : Except ParseError Host :=
  match idna.toAscii (lossy (Percent.decode s)) with
  | none => .error .idnaError
  | some d =>
    if d.any isForbidden then .error .idnaError
    else if d = [] then .error .emptyHost
    else if endsInNumber d then
      match parseIpv4 d with
      | some i => .ok (.ipv4 i)
      | none => .error .invalidIpv4Address
    else .ok (.domain d)

/-- Read a host. -/
def parse (idna : Idna) (s : Text) : Except ParseError Host :=
  match s with
  | '[' :: s =>
    if s.getLast? = some ']' then
      match parseIpv6 s.dropLast with
      | some i => .ok (.ipv6 i)
      | none => .error .invalidIpv6Address
    else .error .invalidIpv6Address
  | s => parseDomain idna s

/-! ### Reading what was written -/

/-- A decimal digit as a character. -/
theorem digit_spec {c : Char} (h : (toDigit 10 c).isSome = true) :
  c.toNat < 128 ∧ c.isAlpha = false ∧ c.isDigit = true ∧ isForbidden c = false
  := by
  have hbound : 48 ≤ c.toNat ∧ c.toNat ≤ 57 := by
    simp only [toDigit, Option.isSome_ite] at h
    by_cases hdigit : c.isDigit = true
    · rw [Char.isDigit, Bool.and_eq_true, decide_eq_true_eq, decide_eq_true_eq] at hdigit
      exact hdigit
    rw [if_neg hdigit] at h
    by_cases hlower : 'a' ≤ c ∧ c ≤ 'f'
    · have hlow : 97 ≤ c.toNat := hlower.1
      rw [if_pos hlower] at h
      omega
    rw [if_neg hlower] at h
    by_cases hupper : 'A' ≤ c ∧ c ≤ 'F'
    · have hlow : 65 ≤ c.toNat := hupper.1
      rw [if_pos hupper] at h
      omega
    · rw [if_neg hupper] at h
      exact absurd h (Nat.lt_irrefl _)
  have hall : ∀ n : Fin 58, 48 ≤ n.val → (Char.ofNat n.val).isAlpha = false ∧
      (Char.ofNat n.val).isDigit = true ∧ isForbidden (Char.ofNat n.val) = false := by
    decide
  have hc := hall ⟨c.toNat, by omega⟩ hbound.1
  rw [Char.ofNat_toNat] at hc
  exact ⟨by omega, hc⟩

section
variable {idna : Idna} {d : Text}

/-- A domain without forbidden characters that IDNA leaves as it is. -/
theorem parse_of (hascii : idna.toAscii d = some d) (hchars : ∀ c ∈ d, isForbidden c = false)
    (hne : d ≠ []) :
  parse idna d
    = if endsInNumber d then
        match parseIpv4 d with
        | some i => .ok (.ipv4 i)
        | none => .error .invalidIpv4Address
      else .ok (.domain d)
  := by
  have hpercent : '%' ∉ d := fun h => absurd (hchars _ h) (by decide)
  have hany : ¬ d.any isForbidden = true := by
    intro h
    obtain ⟨c, hc, hforbidden⟩ := List.any_eq_true.mp h
    rw [hchars c hc] at hforbidden
    cases hforbidden
  unfold parse
  split
  · rename_i s
    exact absurd (hchars '[' List.mem_cons_self) (by decide)
  · rw [parseDomain, Percent.decode_of_not_mem hpercent, lossy_encode, hascii]
    dsimp only
    rw [if_neg hany, if_neg hne]

/-- What a domain is that is read. -/
theorem of_parse_domain {s : Text} (h : parse idna s = .ok (.domain d)) :
  idna.toAscii d = some d ∧ (∀ c ∈ d, isForbidden c = false) ∧ d ≠ [] ∧ endsInNumber d = false
  := by
  have hdomain : parseDomain idna s = .ok (.domain d) := by
    unfold parse at h
    split at h
    · split at h
      · split at h <;> cases h
      · cases h
    · exact h
  unfold parseDomain at hdomain
  split at hdomain
  · cases hdomain
  rename_i d' hascii
  split at hdomain
  · cases hdomain
  rename_i hany
  split at hdomain
  · cases hdomain
  rename_i hne
  split at hdomain
  · split at hdomain <;> cases hdomain
  rename_i hnumber
  cases hdomain
  refine ⟨idna.again hascii, fun c hc => ?_, hne, Bool.eq_false_iff.mpr hnumber⟩
  exact Bool.eq_false_iff.mpr (fun hforbidden => hany (List.any_eq_true.mpr ⟨c, hc, hforbidden⟩))

/-- A domain is read back. -/
theorem parse_domain {s : Text} (h : parse idna s = .ok (.domain d)) :
  parse idna d = .ok (.domain d)
  := by
  obtain ⟨hascii, hchars, hne, hnumber⟩ := of_parse_domain h
  rw [parse_of hascii hchars hne, hnumber, if_neg Bool.false_ne_true]

/-- No domain is a text of slashes. -/
theorem parse_slashes {s : Text} (hslash : ∀ c ∈ lossy (Percent.decode s), c = '/')
    (hbracket : s.head? ≠ some '[') (host : Host) :
  parse idna s ≠ .ok host
  := by
  intro h
  have hdomain : parseDomain idna s = .ok host := by
    unfold parse at h
    split at h
    · exact absurd rfl hbracket
    · exact h
  have hascii : idna.toAscii (lossy (Percent.decode s)) = some (lossy (Percent.decode s)) := by
    apply idna.unlettered
    intro c hc
    rw [hslash c hc]
    decide
  rw [parseDomain, hascii] at hdomain
  dsimp only at hdomain
  cases hs : lossy (Percent.decode s) with
  | nil =>
      rw [hs] at hdomain
      cases hdomain
  | cons c t =>
      have hc := hslash c (by rw [hs]; exact List.mem_cons_self)
      rw [hs, hc] at hdomain
      cases hdomain

end

/-! IPv4 addresses. -/

theorem display_eq (i : Ipv4Addr) :
  i.display = ['.'].intercalate [Nat.toDigits 10 i.a.toNat, Nat.toDigits 10 i.b.toNat,
    Nat.toDigits 10 i.c.toNat, Nat.toDigits 10 i.d.toNat]
  := by
  rw [Ipv4Addr.display]
  simp

theorem readRadix_toDigits (n : ℕ) :
  readRadix 10 (Nat.toDigits 10 n) = some n
  := by
  have hall : (Nat.toDigits 10 n).all (fun c => (toDigit 10 c).isSome) = true :=
    List.all_eq_true.mpr (fun c hc => isSome_toDigit_of_mem (by decide) (by decide) hc)
  rw [readRadix, if_pos hall, value_toDigits (by decide) (by decide)]

theorem parseNumber_toDigits (n : ℕ) :
  parseNumber (Nat.toDigits 10 n) = some n
  := by
  have hzero : ∀ c s, Nat.toDigits 10 n ≠ '0' :: c :: s := by
    intro c s h
    have hlen := @head?_toDigits 10 n (by decide) (by decide) (by rw [h]; rfl)
    rw [h] at hlen
    cases hlen
  have hread := readRadix_toDigits n
  unfold parseNumber
  split
  · rename_i h
    exact absurd h Nat.toDigits_ne_nil
  · exact absurd ‹_› (hzero _ _)
  · exact absurd ‹_› (hzero _ _)
  · exact absurd ‹_› (hzero _ _)
  · exact hread

theorem labels_display (i : Ipv4Addr) :
  labels i.display = [Nat.toDigits 10 i.a.toNat, Nat.toDigits 10 i.b.toNat,
    Nat.toDigits 10 i.c.toNat, Nat.toDigits 10 i.d.toNat]
  := by
  have hdot : ∀ n, '.' ∉ Nat.toDigits 10 n := by
    intro n h
    have hdigit := isSome_toDigit_of_mem (by decide) (by decide) h
    exact absurd hdigit (by decide)
  rw [labels, display_eq, List.splitOn_intercalate]
  · rw [if_neg]
    intro h
    exact Nat.toDigits_ne_nil (Option.some.inj h)
  · simp only [List.mem_cons, List.not_mem_nil, or_false]
    rintro l (rfl | rfl | rfl | rfl)
    all_goals exact hdot _
  · exact List.cons_ne_nil _ _

theorem ofNumber_ipv4Value (i : Ipv4Addr) :
  ofNumber (ipv4Value 3 [i.a.toNat, i.b.toNat, i.c.toNat, i.d.toNat]) = i
  := by
  obtain ⟨a, b, c, d⟩ := i
  have ha := a.isLt
  have hb := b.isLt
  have hc := c.isLt
  have hd := d.isLt
  simp only [ofNumber, ipv4Value, Ipv4Addr.mk.injEq]
  refine ⟨?_, ?_, ?_, ?_⟩
  all_goals
    apply BitVec.eq_of_toNat_eq
    rw [BitVec.toNat_ofNat]
    omega

theorem parseIpv4_display (i : Ipv4Addr) :
  parseIpv4 i.display = some i
  := by
  have hnumbers : (labels i.display).mapM parseNumber
      = some [i.a.toNat, i.b.toNat, i.c.toNat, i.d.toNat] := by
    rw [labels_display]
    simp [parseNumber_toDigits]
  have ha := i.a.isLt
  have hb := i.b.isLt
  have hc := i.c.isLt
  have hd := i.d.isLt
  have hlen : ¬ 4 < (labels i.display).length := by
    rw [labels_display]
    exact Nat.lt_irrefl 4
  rw [parseIpv4, hnumbers, if_neg hlen, Option.bind_some, if_neg, ofNumber_ipv4Value]
  simp only [List.dropLast, List.any_cons, List.any_nil, List.getLast?_cons_cons,
    List.getLast?_singleton, Option.getD_some, List.length_cons, List.length_nil, Bool.or_eq_true,
    decide_eq_true_eq, Bool.or_false]
  omega

theorem digit_of_mem {n : ℕ} {c : Char} (h : c ∈ Nat.toDigits 10 n) :
  c.toNat < 128 ∧ c.isAlpha = false ∧ c.isDigit = true ∧ isForbidden c = false
  := digit_spec (isSome_toDigit_of_mem (by decide) (by decide) h)

theorem mem_display_ipv4 {i : Ipv4Addr} {c : Char} (h : c ∈ i.display) :
  c.toNat < 128 ∧ c.isAlpha = false ∧ isForbidden c = false
  := by
  have hdigit : ∀ {n : ℕ}, c ∈ Nat.toDigits 10 n →
      c.toNat < 128 ∧ c.isAlpha = false ∧ isForbidden c = false := by
    intro n hn
    have hspec := digit_of_mem hn
    exact ⟨hspec.1, hspec.2.1, hspec.2.2.2⟩
  rw [Ipv4Addr.display] at h
  simp only [List.append_assoc, List.cons_append, List.mem_append, List.mem_cons] at h
  rcases h with h | rfl | h | rfl | h | rfl | h
  · exact hdigit h
  · decide
  · exact hdigit h
  · decide
  · exact hdigit h
  · decide
  · exact hdigit h

/-- An IPv4 address is read back. -/
theorem parse_ipv4 (idna : Idna) (i : Ipv4Addr) :
  parse idna i.display = .ok (.ipv4 i)
  := by
  have hascii := idna.unlettered
    (fun c hc => ⟨(mem_display_ipv4 hc).1, (mem_display_ipv4 (i := i) hc).2.1⟩)
  have hnumber : endsInNumber i.display = true := by
    rw [endsInNumber, labels_display]
    simp only [List.getLast?_cons_cons, List.getLast?_singleton]
    rw [parseNumber_toDigits, Option.isSome_some, Bool.or_true]
  rw [parse_of hascii (fun c hc => (mem_display_ipv4 hc).2.2) (IpAddr.display_ne_nil (.v4 i)),
    hnumber, if_pos rfl, parseIpv4_display]

/-- An IPv6 address is read back between brackets. -/
theorem parse_ipv6 (idna : Idna) (i : Ipv6Addr) :
  parse idna ('[' :: (i.display ++ [']'])) = .ok (.ipv6 i)
  := by
  rw [parse, if_pos (by rw [List.getLast?_concat]), List.dropLast_concat, parseIpv6,
    IpAddr.parse_display_v6]

/-! ### Writing -/

/-- A host as it stands in a URL. -/
def Host.text : Host → Text
  | .domain d => d
  | .ipv4 i => i.display
  | .ipv6 i => '[' :: (i.display ++ [']'])

section
variable {idna : Idna} {s : Text} {host : Host}

/-- A host that was read is read back. -/
theorem parse_text (h : parse idna s = .ok host) :
  parse idna host.text = .ok host
  := by
  cases host with
  | domain d => exact parse_domain h
  | ipv4 i => exact parse_ipv4 idna i
  | ipv6 i => exact parse_ipv6 idna i

theorem text_ne_nil (h : parse idna s = .ok host) :
  host.text ≠ []
  := by
  cases host with
  | domain d => exact (of_parse_domain h).2.2.1
  | ipv4 i => exact IpAddr.display_ne_nil (.v4 i)
  | ipv6 i => exact List.cons_ne_nil _ _

end

end UrlHost
