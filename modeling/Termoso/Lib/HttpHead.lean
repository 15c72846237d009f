import Termoso.Lib.Base64
import Termoso.Lib.IpAddr
import Termoso.Lib.Split
import Termoso.Lib.Utf8

/-!
# Heads of HTTP messages

The head of a request that opens a tunnel, read as the protocol has it: a request line with the
authority to connect to, field lines, and an empty line with nothing after it.  A host is one that
a URI can name: a registered name, or an IP literal in brackets.  And what the head of a positive
reply to such a request is.
-/

namespace Http

open Split Utf8

def CRLF : List UInt8 := [13, 10]

/-- The characters of bytes, one for each. -/
def chars (b : List UInt8) : List Char := b.map (fun b => Char.ofNat b.toNat)

/-! ### Classes of bytes -/

def isAlpha (b : UInt8) : Bool := (65 ≤ b && b ≤ 90) || (97 ≤ b && b ≤ 122)

def isDigit (b : UInt8) : Bool := 48 ≤ b && b ≤ 57

def isHexDigit (b : UInt8) : Bool := isDigit b || (65 ≤ b && b ≤ 70) || (97 ≤ b && b ≤ 102)

/-- A letter, a digit, or one of `-._~`. -/
def isUnreserved (b : UInt8) : Bool := isAlpha b || isDigit b || [45, 46, 95, 126].contains b

/-- One of the signs that delimit parts of a component: an exclamation or dollar sign, an
ampersand, an apostrophe, a round bracket, or one of `*+,;=`. -/
def isSubDelim (b : UInt8) : Bool := [33, 36, 38, 39, 40, 41, 42, 43, 44, 59, 61].contains b

/-- A letter, a digit, or one of the signs a token can have. -/
def isTokenChar (b : UInt8) : Bool :=
  isAlpha b || isDigit b
    || [33, 35, 36, 37, 38, 39, 42, 43, 45, 46, 94, 95, 96, 124, 126].contains b

/-- A byte of a field value or a reason: visible, above ASCII, a space or a tabulator. -/
def isFieldChar (b : UInt8) : Bool := (33 ≤ b && b ≤ 126) || 128 ≤ b || b == 32 || b == 9

def lower (b : UInt8) : UInt8 := if 65 ≤ b && b ≤ 90 then b + 32 else b

/-! ### Hosts -/

/-- A registered name: letters, digits and signs, and bytes that are percent-encoded. -/
def isRegName : List UInt8 → Bool
  | 37 :: x :: y :: s => isHexDigit x && isHexDigit y && isRegName s
  | c :: s => (isUnreserved c || isSubDelim c) && isRegName s
  | [] => true

def isIpv6 (s : List UInt8) : Bool :=
  match IpAddr.parse (chars s) with
  | some (.v6 _) => true
  | _ => false

/-- An address of a later version. -/
def isFuture : List UInt8 → Bool
  | v :: s =>
    match cut [46] s with
    | some (version, rest) => lower v == 118 && version != [] && version.all isHexDigit
        && rest != [] && rest.all (fun b => isUnreserved b || isSubDelim b || b == 58)
    | none => false
  | [] => false

/-- An IP literal: an address in brackets. -/
def isIpLiteral : List UInt8 → Bool
  | 91 :: s => s.getLast? == some 93 && (isIpv6 s.dropLast || isFuture s.dropLast)
  | _ => false

/-- A host as a URI has it. -/
def isUriHost (host : List UInt8) : Bool := isRegName host || isIpLiteral host

/-! ### Requests -/

/-- A request to open a tunnel: where to, and its fields, with their names in lower case. -/
structure Request where
  host : List UInt8
  port : ℕ
  fields : List (List UInt8 × List UInt8)

/-- The host and the port of an authority. -/
def readAuthority (a : List UInt8) : Option (List UInt8 × ℕ) :=
  (cut [58] a.reverse).bind fun (port, host) =>
    if isUriHost host.reverse && port != [] && port.all isDigit
        && decide (Digits.value 10 (chars port.reverse) < 2 ^ 16) then
      some (host.reverse, Digits.value 10 (chars port.reverse))
    else none

def isBlank (b : UInt8) : Bool := b == 32 || b == 9

/-- A field line: a name and a value, without the blanks around it. -/
def readField (line : List UInt8) : Option (List UInt8 × List UInt8) :=
  (cut [58] line).bind fun (name, value) =>
    if name != [] && name.all isTokenChar && value.all isFieldChar then
      some (name.map lower, trimBy isBlank value)
    else none

theorem length_of_cut_crlf {b line rest : List UInt8} (h : cut CRLF b = some (line, rest)) :
  rest.length < b.length
  := by
  rw [cut_eq_some h, List.length_append, List.length_append]
  change rest.length < line.length + 2 + rest.length
  omega

/-- The field lines up to an empty one, and what follows it. -/
def readFields (b : List UInt8) : Option (List (List UInt8 × List UInt8) × List UInt8) :=
  match _ : cut CRLF b with
  | none => none
  | some (line, rest) =>
    if line = [] then some ([], rest)
    else
      (readField line).bind fun field =>
        (readFields rest).map fun r => (field :: r.1, r.2)
termination_by b.length
decreasing_by exact length_of_cut_crlf ‹_›

/-- The head of a request with the method `CONNECT`, with nothing after it. -/
def readConnect (b : List UInt8) : Option Request :=
  (cut CRLF b).bind fun (line, rest) =>
  (cut [32] line).bind fun (method, line) =>
  (cut [32] line).bind fun (target, version) =>
  (readAuthority target).bind fun (host, port) =>
  (readFields rest).bind fun (fields, rest) =>
    if method = ascii "CONNECT" ∧ version = ascii "HTTP/1.1" ∧ rest = [] then
      some ⟨host, port, fields⟩
    else none

/-- The user and the password of basic credentials. -/
def readBasic (value : List UInt8) : Option (List UInt8 × List UInt8) :=
  (cut [32] value).bind fun (scheme, token) =>
    if scheme.map lower = ascii "basic" then (Base64.decode token).bind (cut [58]) else none

/-! ### Replies -/

/-- A head: a first line, field lines, and an empty line. -/
def head (first : List UInt8) (lines : List (List UInt8)) : List UInt8 :=
  first ++ (CRLF ++ (lines.flatMap (· ++ CRLF) ++ CRLF))

/-- The first line of a reply with a version and a status. -/
def statusLine (major minor a b c : UInt8) (reason : List UInt8) : List UInt8 :=
  [72, 84, 84, 80, 47, major, 46, minor, 32, a, b, c, 32] ++ reason

/-- The head of a reply with a status from 200 to 299. -/
def IsPositive (reply : List UInt8) : Prop :=
  ∃ major minor b c reason lines, [major, minor, b, c].all isDigit = true
    ∧ reason.all isFieldChar = true ∧ (∀ line ∈ lines, (readField line).isSome = true)
    ∧ reply = head (statusLine major minor 50 b c reason) lines

/-- The decimal digits of a number. -/
def decimal (n : ℕ) : List UInt8 := (Nat.toDigits 10 n).map (fun c => c.toNat.toUInt8)

/-! ### Reading what was written -/

theorem forall_byte {P : UInt8 → Prop} (h : ∀ n : Fin 256, P (.ofNat n.val)) (b : UInt8) :
  P b
  := by
  have hb := h ⟨b.toNat, b.toNat_lt⟩
  rw [UInt8.ofNat_toNat] at hb
  exact hb

theorem toNat_ofNat :
  ∀ b : UInt8, (Char.ofNat b.toNat).toNat = b.toNat
  := by
  intro b
  have hvalid : b.toNat.isValidChar := by
    have hbound := b.toNat_lt
    exact .inl (by omega)
  rw [Char.ofNat, dif_pos hvalid]
  rfl

/-- A byte that can be printed and is no space. -/
def Visible (b : UInt8) : Prop := 33 ≤ b.toNat ∧ b.toNat < 127

instance (b : UInt8) : Decidable (Visible b) := inferInstanceAs (Decidable (_ ∧ _))

theorem visible_of_isUnreserved :
  ∀ b : UInt8, isUnreserved b = true → Visible b
  := by
  intro b h
  simp [isUnreserved, isAlpha, isDigit, UInt8.le_iff_toNat_le, ← UInt8.toNat_inj] at h
  rw [Visible]
  omega

theorem visible_of_isSubDelim :
  ∀ b : UInt8, isSubDelim b = true → Visible b
  := by
  intro b h
  simp [isSubDelim, ← UInt8.toNat_inj] at h
  rw [Visible]
  omega

theorem visible_of_isHexDigit :
  ∀ b : UInt8, isHexDigit b = true → Visible b
  := by
  intro b h
  simp [isHexDigit, isDigit, UInt8.le_iff_toNat_le] at h
  rw [Visible]
  omega

theorem isFieldChar_of_visible :
  ∀ b : UInt8, Visible b → isFieldChar b = true ∧ isBlank b = false
  := by
  rintro b ⟨hlow, hhigh⟩
  simp [isFieldChar, isBlank, UInt8.le_iff_toNat_le, ← UInt8.toNat_inj]
  omega

theorem visible_of_lower :
  ∀ b : UInt8, lower b = 118 → Visible b
  := by
  intro b h
  rw [lower] at h
  split at h
  · rename_i hupper
    simp [UInt8.le_iff_toNat_le] at hupper
    rw [Visible]
    omega
  · rw [h]
    decide

theorem visible_of_addrChar {b : UInt8} (h : IpAddr.AddrChar (Char.ofNat b.toNat)) :
  Visible b
  := by
  have htoNat : (Char.ofNat b.toNat).toNat = b.toNat := toNat_ofNat b
  obtain hdigit | hcolon | hdot := h
  · have hrange := Digits.toNat_of_isSome_toDigit hdigit
    rw [htoNat] at hrange
    exact ⟨by omega, by omega⟩
  · rw [hcolon] at htoNat
    rw [Visible, ← htoNat]
    decide
  · rw [hdot] at htoNat
    rw [Visible, ← htoNat]
    decide

theorem visible_of_isRegName {s : List UInt8} (h : isRegName s = true) :
  ∀ b ∈ s, Visible b
  := by
  induction s using isRegName.induct with
  | case1 x y s ih =>
      rw [isRegName, Bool.and_eq_true, Bool.and_eq_true] at h
      intro b hb
      rcases List.mem_cons.mp hb with rfl | hb
      · decide
      rcases List.mem_cons.mp hb with rfl | hb
      · exact visible_of_isHexDigit b h.1.1
      rcases List.mem_cons.mp hb with rfl | hb
      · exact visible_of_isHexDigit b h.1.2
      · exact ih h.2 b hb
  | case2 c s hne ih =>
      rw [isRegName.eq_2 c s hne, Bool.and_eq_true, Bool.or_eq_true] at h
      intro b hb
      rcases List.mem_cons.mp hb with rfl | hb
      · exact h.1.elim (visible_of_isUnreserved b) (visible_of_isSubDelim b)
      · exact ih h.2 b hb
  | case3 => exact fun b hb => absurd hb List.not_mem_nil

theorem visible_of_isIpv6 {s : List UInt8} (h : isIpv6 s = true) :
  ∀ b ∈ s, Visible b
  := by
  intro b hb
  rw [isIpv6] at h
  split at h
  · rename_i i hparse
    apply visible_of_addrChar
    exact IpAddr.addrChar_of_parse hparse _ (List.mem_map_of_mem hb)
  · cases h

theorem visible_of_isFuture {s : List UInt8} (h : isFuture s = true) :
  ∀ b ∈ s, Visible b
  := by
  cases s with
  | nil => cases h
  | cons v s =>
      rw [isFuture] at h
      split at h
      · rename_i version rest hcut
        simp only [Bool.and_eq_true, List.all_eq_true, Bool.or_eq_true, beq_iff_eq] at h
        obtain ⟨⟨⟨⟨hv, _⟩, hversion⟩, _⟩, hrest⟩ := h
        intro b hb
        rw [cut_eq_some hcut, List.mem_cons, List.mem_append, List.mem_append,
          List.mem_singleton] at hb
        rcases hb with rfl | (hb | rfl) | hb
        · exact visible_of_lower b hv
        · exact visible_of_isHexDigit b (hversion b hb)
        · decide
        · rcases hrest b hb with (hb | hb) | rfl
          · exact visible_of_isUnreserved b hb
          · exact visible_of_isSubDelim b hb
          · decide
      · cases h

/-- A host has only visible characters. -/
theorem visible_of_isUriHost {host : List UInt8} (h : isUriHost host = true) :
  ∀ b ∈ host, Visible b
  := by
  rw [isUriHost, Bool.or_eq_true] at h
  obtain h | h := h
  · exact visible_of_isRegName h
  · cases host with
    | nil => exact fun b hb => absurd hb List.not_mem_nil
    | cons c s =>
        unfold isIpLiteral at h
        split at h
        · rename_i s' heq
          cases heq
          rw [Bool.and_eq_true, Bool.or_eq_true, beq_iff_eq] at h
          have hlast := List.dropLast_append_getLast? 93 h.1
          intro b hb
          rw [← hlast, List.mem_cons, List.mem_append, List.mem_singleton] at hb
          rcases hb with rfl | hb | rfl
          · decide
          · exact h.2.elim (fun h => visible_of_isIpv6 h b hb) (fun h => visible_of_isFuture h b hb)
          · decide
        · cases h

theorem not_mem_of_visible {s : List UInt8} {b : UInt8} (hb : ¬ Visible b)
    (h : ∀ b ∈ s, Visible b) :
  b ∉ s
  := fun hmem => hb (h b hmem)

theorem isDigit_of_mem_decimal {n : ℕ} {b : UInt8} (h : b ∈ decimal n) :
  isDigit b = true
  := by
  obtain ⟨c, hc, rfl⟩ := List.mem_map.mp h
  have hdigit := Digits.isSome_toDigit_of_mem (by decide) (by decide) hc
  have hten : ∀ n : Fin 103, (Digits.toDigit 10 (Char.ofNat n.val)).isSome = true →
      isDigit (n.val.toUInt8) = true := by
    decide
  have hrange := Digits.toNat_of_isSome_toDigit hdigit
  have hc' := hten ⟨c.toNat, by omega⟩
  rw [Char.ofNat_toNat] at hc'
  exact hc' hdigit

theorem visible_of_isDigit :
  ∀ b : UInt8, isDigit b = true → Visible b ∧ b ≠ 58
  := by
  intro b h
  simp [isDigit, UInt8.le_iff_toNat_le] at h
  simp [Visible, ← UInt8.toNat_inj]
  omega

theorem chars_decimal (n : ℕ) :
  chars (decimal n) = Nat.toDigits 10 n
  := by
  rw [chars, decimal, List.map_map]
  conv => rhs; rw [← List.map_id (Nat.toDigits 10 n)]
  apply List.map_congr_left
  intro c hc
  have hrange := Digits.toNat_of_isSome_toDigit
    (Digits.isSome_toDigit_of_mem (by decide) (by decide) hc)
  change Char.ofNat (c.toNat.toUInt8).toNat = c
  rw [Nat.toUInt8, UInt8.toNat_ofNat', Nat.mod_eq_of_lt (by omega), Char.ofNat_toNat]

theorem readAuthority_of {host : List UInt8} {n : ℕ} (hhost : isUriHost host = true)
    (hn : n < 2 ^ 16) :
  readAuthority (host ++ 58 :: decimal n) = some (host, n)
  := by
  have hcolon : (58 : UInt8) ∉ (decimal n).reverse := by
    rw [List.mem_reverse]
    exact fun h => (visible_of_isDigit 58 (isDigit_of_mem_decimal h)).2 rfl
  have hcut : cut [58] (host ++ 58 :: decimal n).reverse
      = some ((decimal n).reverse, host.reverse) := by
    rw [List.reverse_append, List.reverse_cons]
    exact cut_append (List.cons_ne_nil _ _) (apart_singleton hcolon) _
  have hne : (decimal n).reverse ≠ [] := by
    rw [ne_eq, List.reverse_eq_nil_iff]
    exact fun h => Nat.toDigits_ne_nil (List.map_eq_nil_iff.mp h)
  have hdigits : (decimal n).reverse.all isDigit = true := by
    rw [List.all_eq_true]
    exact fun b hb => isDigit_of_mem_decimal (List.mem_reverse.mp hb)
  rw [readAuthority, hcut, Option.bind_some]
  dsimp only
  rw [List.reverse_reverse, List.reverse_reverse, chars_decimal,
    Digits.value_toDigits (by decide) (by decide), if_pos]
  rw [hhost, hdigits, bne_iff_ne.mpr hne, decide_eq_true hn]
  rfl

theorem readAuthority_eq_some {a host : List UInt8} {n : ℕ}
    (h : readAuthority a = some (host, n)) :
  isUriHost host = true ∧ ∃ port, a = host ++ 58 :: port
  := by
  obtain ⟨⟨p, h'⟩, hcut, h⟩ := Option.bind_eq_some_iff.mp h
  dsimp only at h
  split at h
  · rename_i hcond
    simp only [Bool.and_eq_true] at hcond
    cases h
    refine ⟨hcond.1.1.1, p.reverse, ?_⟩
    have heq := congrArg List.reverse (cut_eq_some hcut)
    rw [List.reverse_reverse, List.reverse_append, List.reverse_append] at heq
    exact heq
  · cases h

theorem readField_of {name value : List UInt8} (hne : name ≠ [])
    (hname : name.all isTokenChar = true) (hvalue : ∀ b ∈ value, isFieldChar b = true)
    (htrim : trimBy isBlank value = value) :
  readField (name ++ 58 :: 32 :: value) = some (name.map lower, value)
  := by
  have hcolon : (58 : UInt8) ∉ name := by
    intro h
    have htoken := List.all_eq_true.mp hname 58 h
    cases htoken
  have hcut : cut [58] (name ++ 58 :: 32 :: value) = some (name, 32 :: value) := by
    have h := cut_append (List.cons_ne_nil 58 []) (apart_singleton hcolon) (32 :: value)
    rw [List.append_assoc] at h
    exact h
  have htrim' : trimBy isBlank (32 :: value) = value := by
    have hblank : ∀ c ∈ [(32 : UInt8)], isBlank c = true := List.all_eq_true.mp rfl
    have h := trimBy_append hblank (fun c hc => absurd hc List.not_mem_nil) value
    rw [List.append_nil, htrim] at h
    exact h
  rw [readField, hcut, Option.bind_some]
  dsimp only
  rw [if_pos, htrim']
  have hall : (32 :: value).all isFieldChar = true := by
    rw [List.all_eq_true]
    intro b hb
    rcases List.mem_cons.mp hb with rfl | hb
    · rfl
    · exact hvalue b hb
  rw [hname, hall, bne_iff_ne.mpr hne]
  rfl

theorem cut_crlf {line : List UInt8} (h : (13 : UInt8) ∉ line) (rest : List UInt8) :
  cut CRLF (line ++ (CRLF ++ rest)) = some (line, rest)
  := by
  have hcut := cut_append (List.cons_ne_nil 13 [10]) (apart_of_head h) rest
  rw [List.append_assoc] at hcut
  exact hcut

theorem readFields_nil (rest : List UInt8) :
  readFields (CRLF ++ rest) = some ([], rest)
  := by
  have hcut : cut CRLF (CRLF ++ rest) = some ([], rest) := @cut_crlf [] List.not_mem_nil rest
  unfold readFields
  split
  · rename_i hnone
    rw [hcut] at hnone
    cases hnone
  · rename_i line rest' hsome
    rw [hcut] at hsome
    cases hsome
    rw [if_pos rfl]

theorem readFields_cons {line rest : List UInt8} {field : List UInt8 × List UInt8}
    (hcr : (13 : UInt8) ∉ line) (hne : line ≠ []) (hfield : readField line = some field) :
  readFields (line ++ (CRLF ++ rest)) = (readFields rest).map (fun r => (field :: r.1, r.2))
  := by
  have hcut := cut_crlf hcr rest
  conv => lhs; unfold readFields
  split
  · rename_i hnone
    rw [hcut] at hnone
    cases hnone
  · rename_i line' rest' hsome
    rw [hcut] at hsome
    cases hsome
    rw [if_neg hne, hfield, Option.bind_some]

/-- A request is read from its lines. -/
theorem readConnect_of {host rest : List UInt8} {n : ℕ}
    {fields : List (List UInt8 × List UInt8)} (hhost : isUriHost host = true) (hn : n < 2 ^ 16)
    (hfields : readFields rest = some (fields, [])) :
  readConnect (ascii "CONNECT" ++ 32 :: (host ++ 58 :: decimal n
    ++ 32 :: (ascii "HTTP/1.1" ++ (CRLF ++ rest)))) = some ⟨host, n, fields⟩
  := by
  have hauthority : ∀ b ∈ host ++ 58 :: decimal n, Visible b := by
    intro b hb
    rcases List.mem_append.mp hb with hb | hb
    · exact visible_of_isUriHost hhost b hb
    rcases List.mem_cons.mp hb with rfl | hb
    · decide
    · exact (visible_of_isDigit b (isDigit_of_mem_decimal hb)).1
  have hspace := not_mem_of_visible (b := 32) (by decide) hauthority
  have hcr : (13 : UInt8) ∉ ascii "CONNECT" ++ 32 :: (host ++ 58 :: decimal n
      ++ 32 :: ascii "HTTP/1.1") := by
    intro h
    rcases List.mem_append.mp h with h | h
    · exact absurd h (by decide)
    rcases List.mem_cons.mp h with h | h
    · cases h
    rcases List.mem_append.mp h with h | h
    · exact absurd (hauthority 13 h) (by decide)
    · exact absurd h (by decide)
  have hline := cut_crlf hcr rest
  have hmethod := cut_append (List.cons_ne_nil 32 []) (apart_singleton (t := ascii "CONNECT")
    (by decide)) (host ++ 58 :: decimal n ++ 32 :: ascii "HTTP/1.1")
  have htarget := cut_append (List.cons_ne_nil 32 []) (apart_singleton hspace) (ascii "HTTP/1.1")
  simp only [List.append_assoc, List.cons_append, List.nil_append] at hline hmethod htarget ⊢
  have hread := readAuthority_of hhost hn
  rw [readConnect, hline, Option.bind_some]
  dsimp only
  rw [hmethod, Option.bind_some]
  dsimp only
  rw [htarget, Option.bind_some]
  dsimp only
  rw [hread, Option.bind_some]
  dsimp only
  rw [hfields, Option.bind_some]
  exact if_pos ⟨rfl, rfl, rfl⟩

/-- What is read begins with the host it is read to name. -/
theorem readConnect_eq_some {b : List UInt8} {r : Request} (h : readConnect b = some r) :
  isUriHost r.host = true ∧ ∃ rest, b = ascii "CONNECT" ++ 32 :: (r.host ++ 58 :: rest)
  := by
  obtain ⟨⟨line, rest⟩, hline, h⟩ := Option.bind_eq_some_iff.mp h
  obtain ⟨⟨method, line'⟩, hmethod, h⟩ := Option.bind_eq_some_iff.mp h
  obtain ⟨⟨target, version⟩, htarget, h⟩ := Option.bind_eq_some_iff.mp h
  obtain ⟨⟨host, n⟩, hauthority, h⟩ := Option.bind_eq_some_iff.mp h
  obtain ⟨⟨fields, rest'⟩, hfields, h⟩ := Option.bind_eq_some_iff.mp h
  dsimp only at h hmethod htarget hauthority
  split at h
  · rename_i hcond
    cases h
    obtain ⟨hhost, port, htargetEq⟩ := readAuthority_eq_some hauthority
    refine ⟨hhost, port ++ ([32] ++ (version ++ (CRLF ++ rest))), ?_⟩
    rw [cut_eq_some hline, cut_eq_some hmethod, cut_eq_some htarget, htargetEq, hcond.1]
    simp
  · cases h

/-- Credentials are read back when the name has no colon. -/
theorem readBasic_encode (user password : List UInt8) :
  readBasic (ascii "Basic" ++ 32 :: Base64.encode (user ++ 58 :: password)) = some (user, password)
    ↔ (58 : UInt8) ∉ user
  := by
  have hscheme : cut [32] (ascii "Basic" ++ 32 :: Base64.encode (user ++ 58 :: password))
      = some (ascii "Basic", Base64.encode (user ++ 58 :: password)) := by
    have hcut := cut_append (List.cons_ne_nil 32 []) (apart_singleton (t := ascii "Basic")
      (by decide)) (Base64.encode (user ++ 58 :: password))
    rw [List.append_assoc] at hcut
    exact hcut
  have hread : readBasic (ascii "Basic" ++ 32 :: Base64.encode (user ++ 58 :: password))
      = cut [58] (user ++ 58 :: password) := by
    rw [readBasic, hscheme, Option.bind_some]
    dsimp only
    rw [if_pos (by decide), Base64.decode_encode, Option.bind_some]
  rw [hread]
  constructor
  · exact not_mem_of_cut
  · intro huser
    have hcut := cut_append (List.cons_ne_nil 58 []) (apart_singleton huser) password
    rw [List.append_assoc] at hcut
    exact hcut

/-- Two line ends in a row after a line that has none begin right after it, or later. -/
theorem eq_or_exists_of_line {line body q r : List UInt8} (hcr : (13 : UInt8) ∉ line)
    (h : line ++ (CRLF ++ body) = q ++ (CRLF ++ (CRLF ++ r))) :
  body = CRLF ++ r ∨ ∃ q', body = q' ++ (CRLF ++ (CRLF ++ r))
  := by
  rcases List.append_eq_append_iff.mp h with ⟨a, _, hafter⟩ | ⟨c, rfl, hafter⟩
  · match a, hafter with
    | [], hafter => exact .inl (List.cons.inj (List.cons.inj hafter).2).2
    | [x], hafter => exact absurd (List.cons.inj (List.cons.inj hafter).2).1 (by decide)
    | _ :: _ :: a, hafter => exact .inr ⟨a, (List.cons.inj (List.cons.inj hafter).2).2⟩
  · cases c with
    | nil => exact .inl (List.cons.inj (List.cons.inj hafter).2).2.symm
    | cons x c =>
        have hx : 13 = x := (List.cons.inj hafter).1
        exact absurd (List.mem_append_right q (hx ▸ List.mem_cons_self)) hcr

/-- Two line ends in a row stand at the end of a head only. -/
theorem eq_nil_of_head {first q r : List UInt8} {lines : List (List UInt8)}
    (hfirst : (13 : UInt8) ∉ first) (hlines : ∀ line ∈ lines, (13 : UInt8) ∉ line ∧ line ≠ [])
    (h : head first lines = q ++ (CRLF ++ (CRLF ++ r))) :
  r = []
  := by
  induction lines generalizing first q with
  | nil =>
      obtain hbody | ⟨q', hbody⟩ := eq_or_exists_of_line hfirst h
      · exact (List.cons.inj (List.cons.inj hbody).2).2.symm
      · have hlen : CRLF.length = (q' ++ (CRLF ++ (CRLF ++ r))).length := congrArg List.length hbody
        have htwo : CRLF.length = 2 := rfl
        rw [List.length_append, List.length_append, List.length_append] at hlen
        omega
  | cons line lines ih =>
      obtain ⟨hcr, hne⟩ := hlines line List.mem_cons_self
      have hbody : (line :: lines).flatMap (· ++ CRLF) ++ CRLF = head line lines := by
        rw [List.flatMap_cons, List.append_assoc, List.append_assoc]
        rfl
      rw [head, hbody] at h
      obtain hnow | ⟨q', hlater⟩ := eq_or_exists_of_line hfirst h
      · obtain ⟨x, line', rfl⟩ := List.exists_cons_of_ne_nil hne
        have hx : x = 13 := (List.cons.inj hnow).1
        exact absurd (hx ▸ List.mem_cons_self) hcr
      · exact ih hcr (fun l hl => hlines l (List.mem_cons_of_mem line hl)) hlater

/-- A head ends with an empty line. -/
theorem suffix_head (first : List UInt8) (lines : List (List UInt8)) :
  CRLF ++ CRLF <:+ head first lines
  := by
  induction lines generalizing first with
  | nil => exact ⟨first, rfl⟩
  | cons line lines ih =>
      have heq : head first (line :: lines) = (first ++ CRLF) ++ head line lines := by
        simp [head]
      rw [heq]
      exact (ih line).trans (List.suffix_append _ _)

/-- A field line has something in it, and no line end. -/
theorem of_readField {line : List UInt8} (h : (readField line).isSome = true) :
  (13 : UInt8) ∉ line ∧ line ≠ []
  := by
  obtain ⟨field, hread⟩ := Option.isSome_iff_exists.mp h
  obtain ⟨⟨name, value⟩, hcut, hfield⟩ := Option.bind_eq_some_iff.mp hread
  dsimp only at hfield
  split at hfield
  · rename_i hcond
    rw [Bool.and_eq_true, Bool.and_eq_true] at hcond
    rw [cut_eq_some hcut]
    constructor
    · intro hmem
      rcases List.mem_append.mp hmem with hmem | hmem
      · rcases List.mem_append.mp hmem with hmem | hmem
        · exact absurd (List.all_eq_true.mp hcond.1.2 13 hmem) (by decide)
        · exact absurd hmem (by decide)
      · exact absurd (List.all_eq_true.mp hcond.2 13 hmem) (by decide)
    · exact List.append_ne_nil_of_left_ne_nil (List.append_ne_nil_of_right_ne_nil _
        (List.cons_ne_nil _ _)) _
  · cases hfield

/-- In a positive reply two line ends in a row stand at the end only. -/
theorem IsPositive.eq_nil {reply q r : List UInt8} (h : IsPositive reply)
    (heq : reply = q ++ (CRLF ++ (CRLF ++ r))) :
  r = []
  := by
  obtain ⟨major, minor, b, c, reason, lines, hdigits, hreason, hlines, rfl⟩ := h
  have hfirst : (13 : UInt8) ∉ statusLine major minor 50 b c reason := by
    have hdigit := List.all_eq_true.mp hdigits
    have hcr : ∀ x : UInt8, isDigit x = true → 13 ≠ x := by
      rintro x h rfl
      cases h
    have hmajor := hcr major (hdigit major (by simp))
    have hminor := hcr minor (hdigit minor (by simp))
    have hb := hcr b (hdigit b (by simp))
    have hc := hcr c (hdigit c (by simp))
    have hafter : (13 : UInt8) ∉ reason := by
      intro hmem
      exact absurd (List.all_eq_true.mp hreason 13 hmem) (by decide)
    rw [statusLine, List.mem_append, not_or]
    refine ⟨?_, hafter⟩
    simp only [List.mem_cons, List.not_mem_nil, not_or]
    refine ⟨?_, ?_, ?_, ?_, ?_, hmajor, ?_, hminor, ?_, ?_, hb, hc, ?_, not_false⟩
    all_goals decide
  exact eq_nil_of_head hfirst (fun line hline => of_readField (hlines line hline)) heq

end Http
