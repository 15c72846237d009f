import Termoso.Lib.IpAddr
import Termoso.Lib.Result
import Termoso.Lib.Split
import Termoso.Proto

/-!
# Lists of allowed networks

A team can restrict the networks its members sign in from.  A list holds addresses and networks, and
is brought to one spelling when it is set.

An entry contains the addresses of its own family that start with its bits, and an IPv4 entry those
mapped to IPv6 as well; an IPv6 entry contains no IPv4 address.  A list without entries restricts
nothing.
-/

namespace Termoso.Server.Trust

open IpAddr Split Digits

def MAX_ALLOWLIST : ℕ := 100

/-- The width of addresses of a family. -/
def width : Addr → ℕ
  | .v4 _ => 32
  | .v6 _ => 128

/-- Read `ip` or `ip/bits`; bare addresses get a host mask. -/
def parseCidr (s : Text) : Option (Addr × ℕ) :=
  let net := match cut ['/'] s with
    | some (a, b) => (parse (trimBy isWhitespace a)).bind (fun ip =>
      (parseUnsigned 255 (trimBy isWhitespace b)).map (fun bits => (ip, bits)))
    | none => (parse (trimBy isWhitespace s)).map (fun ip => (ip, width ip))
  net.filter (fun n => decide (n.2 ≤ width n.1))

/-- Whether two numbers agree in what a mask of their first bits keeps. -/
def sameMasked {w : ℕ} (bits : ℕ) (n i : BitVec w) : Bool :=
  bits == 0 || n &&& (BitVec.allOnes w <<< (w - bits)) == i &&& (BitVec.allOnes w <<< (w - bits))

def cidrContains (net : Addr) (bits : ℕ) (ip : Addr) : Bool :=
  match net, ip with
  | .v4 n, .v4 i => sameMasked bits n.toBits i.toBits
  | .v6 n, .v6 i => sameMasked bits n.toBits i.toBits
  | .v4 n, .v6 i => i.toIpv4Mapped.any (fun i4 => sameMasked bits n.toBits i4.toBits)
  | .v6 _, .v4 _ => false

/-- Empty list = no restriction; an unknown client address never passes a non-empty list. -/
def ipAllowed (list : List Text) (ip : Option Addr) : Bool :=
  if list = [] then true
  else
    match ip with
    | none => false
    | some ip => (list.filterMap parseCidr).any (fun n => cidrContains n.1 n.2 ip)

/-- The one spelling of an entry. -/
def spell (ip : Addr) (bits : ℕ) : Text := ip.display ++ '/' :: Nat.toDigits 10 bits

theorem lawfulBEq_text : LawfulBEq Text := inferInstance

attribute [local instance] lawfulBEq_text

/-- Add the entries of an input that are not blank to a list, each once. -/
def normalizeInto : List Text → List Text → Except Text (List Text)
  | out, [] => .ok out
  | out, raw :: input =>
    let s := trimBy isWhitespace raw
    if s = [] then normalizeInto out input
    else
      match parseCidr s with
      | none => .error (s ++ " is not an IP address or CIDR".toList)
      | some (ip, bits) =>
        normalizeInto (if spell ip bits ∈ out then out else out ++ [spell ip bits]) input

def normalizeAllowlist (input : List Text) : Except Text (List Text) := do
  let out ← normalizeInto [] input
  if MAX_ALLOWLIST < out.length then
    throw ("ip_allowlist holds at most ".toList ++ Nat.toDigits 10 MAX_ALLOWLIST
      ++ " entries".toList)
  return out

/-! ### Networks -/

/-- Two numbers start with the same bits. -/
def Agree {w : ℕ} (bits : ℕ) (n i : BitVec w) : Prop := ∀ k < bits, n.getMsbD k = i.getMsbD k

/-- A network contains the addresses of its family that start with its bits, and an IPv4 network
those mapped to IPv6 as well. -/
def Contains : Addr → ℕ → Addr → Prop
  | .v4 n, bits, .v4 i => Agree bits n.toBits i.toBits
  | .v6 n, bits, .v6 i => Agree bits n.toBits i.toBits
  | .v4 n, bits, .v6 i => ∃ i4, i.toIpv4Mapped = some i4 ∧ Agree bits n.toBits i4.toBits
  | .v6 _, _, .v4 _ => False

/-- Some entry of a list is a network of a kind. -/
def Lists (list : List Text) (P : Addr → ℕ → Prop) : Prop :=
  ∃ entry ∈ list, ∃ net bits, parseCidr entry = some (net, bits) ∧ P net bits

section
variable {w bits : ℕ} {net ip : Addr} {s : Text} {input list out : List Text}
  {P : Addr → ℕ → Prop}

/-- A mask of the first bits keeps the first bits. -/
theorem sameMasked_iff {n i : BitVec w} (hbits : bits ≤ w) :
  sameMasked bits n i = true ↔ Agree bits n i
  := by
  have hmask : ∀ k < w, (BitVec.allOnes w <<< (w - bits)).getMsbD k = decide (k < bits) := by
    intro k hk
    rw [BitVec.getMsbD_shiftLeft, BitVec.getMsbD_allOnes]
    simp only [decide_eq_decide]
    omega
  rw [sameMasked, Bool.or_eq_true, beq_iff_eq, beq_iff_eq]
  constructor
  · rintro (rfl | h) k hk
    · exact absurd hk (Nat.not_lt_zero k)
    · have hbit := congrArg (fun x => BitVec.getMsbD x k) h
      simp only [BitVec.getMsbD_and, hmask k (by omega), hk, decide_true, Bool.and_true] at hbit
      exact hbit
  · intro h
    right
    apply BitVec.eq_of_getMsbD_eq
    intro k hk
    rw [BitVec.getMsbD_and, BitVec.getMsbD_and, hmask k hk]
    by_cases hlt : k < bits
    · rw [h k hlt]
    · simp [hlt]

theorem cidrContains_iff (hbits : bits ≤ width net) :
  cidrContains net bits ip = true ↔ Contains net bits ip
  := by
  cases net with
  | v4 n =>
      cases ip with
      | v4 i => exact sameMasked_iff hbits
      | v6 i =>
          rw [cidrContains, Contains, Option.any_eq_true]
          apply exists_congr
          intro i4
          exact and_congr_right (fun _ => sameMasked_iff hbits)
  | v6 n =>
      cases ip with
      | v4 i => simp [cidrContains, Contains]
      | v6 i => exact sameMasked_iff hbits

theorem le_of_parseCidr (h : parseCidr s = some (net, bits)) :
  bits ≤ width net
  := of_decide_eq_true (Option.filter_eq_some_iff.mp h).2

/-- A client is allowed by a list with entries when one of them contains its address. -/
theorem ipAllowed_iff {client : Option Addr} :
  ipAllowed list client = true
    ↔ list = [] ∨ ∃ ip ∈ client, Lists list (fun net bits => Contains net bits ip)
  := by
  unfold ipAllowed
  split
  · rename_i hnil
    simp [hnil]
  · rename_i hne
    simp only [hne, false_or]
    cases client with
    | none => simp
    | some ip =>
        simp only [List.any_eq_true, List.mem_filterMap, Option.mem_some_iff, exists_eq_left']
        constructor
        · rintro ⟨⟨net, bits⟩, ⟨entry, hentry, hparse⟩, hcontains⟩
          exact ⟨entry, hentry, net, bits, hparse,
            (cidrContains_iff (le_of_parseCidr hparse)).mp hcontains⟩
        · rintro ⟨entry, hentry, net, bits, hparse, hcontains⟩
          exact ⟨(net, bits), ⟨entry, hentry, hparse⟩,
            (cidrContains_iff (le_of_parseCidr hparse)).mpr hcontains⟩

/-! ### One spelling -/

/-- The blanks around an entry do not matter. -/
theorem parseCidr_trimBy (s : Text) :
  parseCidr (trimBy isWhitespace s) = parseCidr s
  := by
  obtain ⟨x, y, hs, hx, hy⟩ := exists_eq_trimBy isWhitespace s
  have hslash : ∀ t : Text, (∀ c ∈ t, isWhitespace c = true) → '/' ∉ t :=
    fun t ht h => absurd (ht _ h) (by decide)
  have hleft : ∀ t : Text, trimBy isWhitespace (x ++ t) = trimBy isWhitespace t := by
    intro t
    have := trimBy_append hx (y := []) (by simp) t
    rwa [List.append_nil] at this
  have hright : ∀ t : Text, trimBy isWhitespace (t ++ y) = trimBy isWhitespace t := by
    intro t
    exact trimBy_append (x := []) (by simp) hy t
  have hcut := cut_singleton_append (hslash x hx) (hslash y hy) (trimBy isWhitespace s)
  rw [← hs] at hcut
  rw [parseCidr, parseCidr, hcut]
  cases cut ['/'] (trimBy isWhitespace s) with
  | some r =>
      obtain ⟨a, b⟩ := r
      simp only [Option.map_some, hleft, hright]
  | none =>
      have htwice : trimBy isWhitespace (trimBy isWhitespace s) = trimBy isWhitespace s := by
        conv_rhs => rw [hs]
        rw [trimBy_append hx hy]
      simp only [Option.map_none, htwice]

theorem not_isWhitespace_of_isAddrChar {c : Char} (h : isAddrChar c = true) :
  isWhitespace c = false
  := by
  rw [isAddrChar, Bool.or_eq_true, Bool.or_eq_true] at h
  rcases h with (h | h) | h
  · rw [beq_iff_eq.mp h]
    rfl
  · rw [beq_iff_eq.mp h]
    rfl
  · obtain ⟨hlow, hhigh⟩ := toNat_of_isSome_toDigit h
    simp only [isWhitespace, Bool.or_eq_false_iff, Bool.and_eq_false_iff, decide_eq_false_iff_not,
      List.contains_eq_mem, List.mem_cons, List.not_mem_nil, or_false]
    omega

theorem isAddrChar_of_mem_toDigits {c : Char} (h : c ∈ Nat.toDigits 10 bits) :
  isAddrChar c = true
  := by
  have hten := isSome_toDigit_of_mem (by decide) (by decide) h
  rw [isAddrChar, isSome_toDigit_of_le (by decide) hten, Bool.or_true]

/-- What an address is written with is not trimmed. -/
theorem trimBy_of_isAddrChar (h : ∀ c ∈ s, isAddrChar c = true) :
  trimBy isWhitespace s = s
  := trimBy_eq_self_of_forall (fun c hc => not_isWhitespace_of_isAddrChar (h c hc))

theorem width_le (ip : Addr) :
  width ip ≤ 255
  := by
  cases ip with
  | v4 i => exact Nat.le_of_ble_eq_true rfl
  | v6 i => exact Nat.le_of_ble_eq_true rfl

/-- An entry is read back from its one spelling. -/
theorem parseCidr_spell (h : bits ≤ width ip) :
  parseCidr (spell ip bits) = some (ip, bits)
  := by
  have hslash : '/' ∉ ip.display := fun hc => absurd (mem_display hc) (by decide)
  have htext : spell ip bits = ip.display ++ ['/'] ++ Nat.toDigits 10 bits := by
    simp [spell]
  rw [parseCidr, htext, cut_append (List.cons_ne_nil _ _) (apart_singleton hslash)]
  dsimp only
  rw [trimBy_of_isAddrChar (fun _ => mem_display), parse_display, Option.bind_some,
    trimBy_of_isAddrChar (fun _ => isAddrChar_of_mem_toDigits),
    parseUnsigned_toDigits (h.trans (width_le ip)), Option.map_some, Option.filter_some,
    if_pos (decide_eq_true h)]

/-! ### Normalising -/

theorem lists_append {list' : List Text} :
  Lists (list ++ list') P ↔ Lists list P ∨ Lists list' P
  := by
  simp only [Lists, List.mem_append, or_and_right, exists_or]

theorem lists_cons {entry : Text} :
  Lists (entry :: list) P ↔ (∃ net bits, parseCidr entry = some (net, bits) ∧ P net bits)
    ∨ Lists list P
  := by
  simp only [Lists, List.mem_cons, or_and_right, exists_or, exists_eq_left]

/-- A blank entry is no network. -/
theorem parseCidr_blank (h : trimBy isWhitespace s = []) :
  parseCidr s = none
  := by
  rw [← parseCidr_trimBy, h]
  rfl

/-- A normalised list has the networks of its input. -/
theorem lists_of_normalizeInto (h : normalizeInto out input = .ok list) :
  Lists list P ↔ Lists out P ∨ Lists input P
  := by
  induction input generalizing out with
  | nil =>
      rw [normalizeInto] at h
      cases h
      simp [Lists]
  | cons raw input ih =>
      rw [normalizeInto] at h
      rw [lists_cons]
      split at h
      · rename_i hblank
        rw [ih h, parseCidr_blank hblank]
        simp
      · split at h
        · cases h
        · rename_i ip bits hparse
          rw [ih h]
          rw [parseCidr_trimBy] at hparse
          have hspell := parseCidr_spell (le_of_parseCidr hparse)
          have hone : (∃ net bits, parseCidr raw = some (net, bits) ∧ P net bits) ↔ P ip bits := by
            rw [hparse]
            simp
          rw [hone]
          split
          · rename_i hmem
            constructor
            · exact Or.imp_right .inr
            · rintro (hout | hP | hinput)
              · exact .inl hout
              · exact .inl ⟨_, hmem, ip, bits, hspell, hP⟩
              · exact .inr hinput
          · rw [lists_append, lists_cons, hspell]
            simp [Lists, or_assoc]

/-- A list is empty when it was and every entry of the input is blank. -/
theorem eq_nil_of_normalizeInto (h : normalizeInto out input = .ok list) :
  list = [] ↔ out = [] ∧ ∀ raw ∈ input, trimBy isWhitespace raw = []
  := by
  induction input generalizing out with
  | nil =>
      rw [normalizeInto] at h
      cases h
      simp
  | cons raw input ih =>
      rw [normalizeInto] at h
      rw [List.forall_mem_cons]
      split at h
      · rename_i hblank
        rw [ih h]
        simp [hblank]
      · rename_i hblank
        split at h
        · cases h
        · rw [ih h]
          have hne : ∀ e : Text, (if e ∈ out then out else out ++ [e]) ≠ [] := by
            intro e
            split
            · rename_i hmem
              exact List.ne_nil_of_mem hmem
            · simp
          simp [hblank, hne]

theorem normalizeInto_of_ok (h : normalizeAllowlist input = .ok list) :
  normalizeInto [] input = .ok list
  := by
  obtain ⟨out, hout, h⟩ := bind_eq_ok.mp h
  obtain ⟨-, h⟩ := check_eq_ok.mp h
  cases h
  exact hout

/-- A list that is set allows the clients its input allows, unless the input holds nothing but
blanks: then it allows every client, where the input allows none.  A client is allowed by a list
without entries, and by one with an entry that contains its address.  An address mapped to IPv6 is
allowed where the IPv4 address is, and by IPv6 entries that contain it. -/
theorem allowlist_decides (h : normalizeAllowlist input = .ok list) :
  (input = [] ∨ (∃ raw ∈ input, trimBy isWhitespace raw ≠ []) →
      ∀ client, ipAllowed list client = ipAllowed input client)
    ∧ ((∀ raw ∈ input, trimBy isWhitespace raw = []) → ∀ client, ipAllowed list client = true)
    ∧ (∀ client, ipAllowed input client = true ↔ input = []
      ∨ ∃ ip ∈ client, Lists input (fun net bits => Contains net bits ip))
    ∧ ∀ i : Ipv4Addr, ipAllowed input (some (.v6 i.toIpv6Mapped)) = true
      ↔ ipAllowed input (some (.v4 i)) = true ∨ Lists input (fun net bits =>
        ∃ n, net = .v6 n ∧ Contains net bits (.v6 i.toIpv6Mapped))
  := by
  have hinto := normalizeInto_of_ok h
  have hempty := eq_nil_of_normalizeInto hinto
  have hlists : ∀ P, Lists list P ↔ Lists input P := by
    intro P
    rw [lists_of_normalizeInto hinto]
    simp [Lists]
  refine ⟨?_, ?_, fun client => ipAllowed_iff, ?_⟩
  · intro hentries client
    have hnil : list = [] ↔ input = [] := by
      rw [hempty]
      constructor
      · rintro ⟨-, hblank⟩
        rcases hentries with hnil | ⟨raw, hraw, hne⟩
        · exact hnil
        · exact absurd (hblank raw hraw) hne
      · rintro rfl
        simp
    rw [Bool.eq_iff_iff, ipAllowed_iff, ipAllowed_iff, hnil]
    simp only [hlists]
  · intro hblank client
    exact ipAllowed_iff.mpr (.inl (hempty.mpr ⟨rfl, hblank⟩))
  · intro i
    have hmapped : ∀ net bits, Contains net bits (.v6 i.toIpv6Mapped)
        ↔ Contains net bits (.v4 i)
          ∨ ∃ n, net = .v6 n ∧ Contains net bits (.v6 i.toIpv6Mapped) := by
      intro net bits
      cases net with
      | v4 n => simp [Contains, toIpv4Mapped_toIpv6Mapped]
      | v6 n => simp [Contains]
    simp only [ipAllowed_iff, Option.mem_some_iff, exists_eq_left']
    rw [or_assoc]
    apply or_congr_right
    constructor
    · rintro ⟨entry, hentry, net, bits, hparse, hcontains⟩
      rcases (hmapped net bits).mp hcontains with h | h
      · exact .inl ⟨entry, hentry, net, bits, hparse, h⟩
      · exact .inr ⟨entry, hentry, net, bits, hparse, h⟩
    · rintro (⟨entry, hentry, net, bits, hparse, h⟩ | ⟨entry, hentry, net, bits, hparse, h⟩)
      · exact ⟨entry, hentry, net, bits, hparse, (hmapped net bits).mpr (.inl h)⟩
      · exact ⟨entry, hentry, net, bits, hparse, (hmapped net bits).mpr (.inr h)⟩

end

/-! ### Lists on which spelling matters -/

/-- One network, with blanks around it. -/
def oneNetwork : List Text := [" 10.0.0.0/8 ".toList]

theorem allowlist_decides_oneNetwork :
  normalizeAllowlist oneNetwork = .ok ["10.0.0.0/8".toList]
    ∧ ∀ client, ipAllowed ["10.0.0.0/8".toList] client = ipAllowed oneNetwork client
  := by
  have h : normalizeAllowlist oneNetwork = .ok ["10.0.0.0/8".toList] := by decide +kernel
  have hentry : ∃ raw ∈ oneNetwork, trimBy isWhitespace raw ≠ [] :=
    ⟨_, List.mem_singleton_self _, by decide +kernel⟩
  exact ⟨h, (allowlist_decides h).1 (.inr hentry)⟩

/-- A blank entry refuses every client before it is dropped; no entry contains an address that an
empty list allows; and an entry written as the IPv6 address that maps an IPv4 address contains the
one and not the other. -/
theorem not_allowlist_decides :
  (¬ ∀ input list, normalizeAllowlist input = .ok list →
      ∀ ip, ipAllowed input (some ip) = ipAllowed list (some ip))
    ∧ (¬ ∀ input list, normalizeAllowlist input = .ok list →
      ∀ ip, ipAllowed input (some ip) = true ↔ Lists input (fun net bits => Contains net bits ip))
    ∧ ¬ ∀ input list, normalizeAllowlist input = .ok list → ∀ i : Ipv4Addr,
      ipAllowed input (some (.v4 i)) = ipAllowed input (some (.v6 i.toIpv6Mapped))
  := by
  refine ⟨?_, ?_, ?_⟩
  · intro h
    have hsame := h [[' ']] [] (by decide +kernel) (.v4 ⟨10, 0, 0, 1⟩)
    revert hsame
    decide +kernel
  · intro h
    obtain ⟨entry, hentry, -⟩ := (h [] [] rfl (.v4 ⟨10, 0, 0, 1⟩)).mp rfl
    cases hentry
  · intro h
    have hsame := h ["::ffff:10.0.0.1".toList] ["::ffff:10.0.0.1/128".toList] (by decide +kernel)
      ⟨10, 0, 0, 1⟩
    revert hsame
    decide +kernel

end Termoso.Server.Trust
