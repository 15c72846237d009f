import Termoso.Crypto
import Termoso.Lib.Wired

/-!
# Telnet

A telnet connection carries the bytes of the terminal, with IAC doubled, and between them the
commands that negotiate options.  The parser takes what arrives byte by byte, whichever way the
network cuts it, returns the bytes for the screen and answers the commands.

It keeps no record of the options that are in force: what it answers depends on the command alone.
-/

namespace Termoso.Core.Telnet

def IAC : UInt8 := 255
def DONT : UInt8 := 254
def DO : UInt8 := 253
def WONT : UInt8 := 252
def WILL : UInt8 := 251
def SB : UInt8 := 250
def SE : UInt8 := 240

def OPT_BINARY : UInt8 := 0
def OPT_ECHO : UInt8 := 1
def OPT_SGA : UInt8 := 3
def OPT_TTYPE : UInt8 := 24
def OPT_NAWS : UInt8 := 31

/-- The size of a terminal window. -/
structure TermSize where
  cols : UInt16
  rows : UInt16

/-- Escape `IAC` bytes in user data. -/
def escape (data : Bytes) : Bytes :=
  data.flatMap (fun b => if b = IAC then [IAC, IAC] else [b])

/-- The two bytes of a number, the high one first. -/
def toBeBytes (v : UInt16) : Bytes :=
  [UInt8.ofNat (v.toNat / 256), UInt8.ofNat v.toNat]

/-- The window size as the option NAWS announces it. -/
def nawsPacket (size : TermSize) : Bytes :=
  [IAC, SB, OPT_NAWS] ++
    [size.cols, size.rows].flatMap (fun v =>
      (toBeBytes v).flatMap (fun b => (if b = IAC then [IAC] else []) ++ [b])) ++
    [IAC, SE]

/-- What the next byte is read as. -/
inductive State
  | data
  | iac
  | opt (cmd : UInt8)
  | sub
  | subIac
deriving DecidableEq

/-- The option negotiation parser, with the flag it sets for the terminal: whether the other end
wants to hear of window sizes. -/
structure Parser where
  state : State
  sub : Bytes
  naws : Bool
deriving DecidableEq

/-- The parser of a new connection. -/
def Parser.new : Parser := { state := .data, sub := [], naws := false }

/-- What is shown of a byte. -/
def shows (p : Parser) (b : UInt8) : Bytes :=
  match p.state with
  | .data => if b = IAC then [] else [b]
  | .iac => if b = IAC then [IAC] else []
  | _ => []

/-- The answer to an option command. -/
def answer (size : TermSize) (cmd b : UInt8) : Bytes :=
  if cmd = DO then
    if b = OPT_NAWS then [IAC, WILL, OPT_NAWS] ++ nawsPacket size
    else if b = OPT_TTYPE ∨ b = OPT_SGA ∨ b = OPT_BINARY then [IAC, WILL, b]
    else [IAC, WONT, b]
  else if cmd = WILL then
    if b = OPT_ECHO ∨ b = OPT_SGA ∨ b = OPT_BINARY then [IAC, DO, b]
    else [IAC, DONT, b]
  else []

/-- The name of the terminal as it is announced. -/
def termBytes (term : String) : Bytes := utf8 term.toUpper

/-- The subnegotiation asks for the terminal type. -/
def asksTerm (sub : Bytes) : Prop :=
  sub.head? = some OPT_TTYPE ∧ sub[1]? = some 1

instance (sub : Bytes) : Decidable (asksTerm sub) := inferInstanceAs (Decidable (_ ∧ _))

/-- The answer to the end of a subnegotiation. -/
def termAnswer (term : String) (sub : Bytes) : Bytes :=
  if asksTerm sub then [IAC, SB, OPT_TTYPE, 0] ++ termBytes term ++ [IAC, SE] else []

/-- What is sent back for a byte. -/
def answers (term : String) (size : TermSize) (p : Parser) (b : UInt8) : Bytes :=
  match p.state with
  | .opt cmd => answer size cmd b
  | .subIac => if b = SE then termAnswer term p.sub else []
  | _ => []

/-- The parser after a byte. -/
def next (p : Parser) (b : UInt8) : Parser :=
  match p.state with
  | .data => if b = IAC then { p with state := .iac } else p
  | .iac =>
    if b = IAC then { p with state := .data }
    else if b = DO ∨ b = DONT ∨ b = WILL ∨ b = WONT then { p with state := .opt b }
    else if b = SB then { p with state := .sub, sub := [] }
    else { p with state := .data } -- NOP, GA, etc.
  | .opt cmd =>
    { p with
      state := .data
      naws :=
        if cmd = DO ∧ b = OPT_NAWS then true
        else if cmd = DONT ∧ b = OPT_NAWS then false
        else p.naws }
  | .sub => if b = IAC then { p with state := .subIac } else { p with sub := p.sub ++ [b] }
  | .subIac =>
    if b = IAC then { p with state := .sub, sub := p.sub ++ [IAC] } else { p with state := .data }

/-- The parser of a connection for the terminal `term` with a window of some size. Feeding it a
chunk returns the parser after it, the screen bytes and the replies to send. -/
def parser (term : String) (size : TermSize) : Machine Parser UInt8 UInt8 where
  next := next
  shows := shows
  answers := answers term size

/-! ### What a telnet connection carries -/

section
variable {term : String} {size : TermSize} {p p' : Parser} {b cmd : UInt8} {d : Bytes}

@[simp] theorem next_reader :
  (parser term size).next p b = next p b
  := rfl

@[simp] theorem shows_reader :
  (parser term size).shows p b = shows p b
  := rfl

@[simp] theorem answers_reader :
  (parser term size).answers p b = answers term size p b
  := rfl

theorem escape_cons :
  escape (b :: d) = (if b = IAC then [IAC, IAC] else [b]) ++ escape d
  := rfl

/-- Escaped data comes out as it was, and nothing is answered. -/
theorem feed_escape (h : p.state = .data) :
  (parser term size).feed p (escape d) = (p, d, [])
  := by
  obtain ⟨state, sub, naws⟩ := p
  cases h
  induction d with
  | nil => rfl
  | cons b d ih =>
      rw [escape_cons]
      split
      · rename_i hb
        simp [Machine.feed_cons, next, shows, answers, ih, hb]
      · rename_i hb
        simp [Machine.feed_cons, next, shows, answers, ih, hb]

/-- No byte of a text is 255. -/
theorem ne_iac_of_mem_utf8 {text : String} (h : b ∈ utf8 text) :
  b ≠ IAC
  := by
  have hbytes : utf8 text = text.toList.flatMap String.utf8EncodeChar := by
    conv_lhs => rw [← String.ofList_toList (s := text)]
    rw [utf8, String.toUTF8_eq_toByteArray, String.toByteArray_ofList, List.utf8Encode]
    simp
  rw [hbytes, List.mem_flatMap] at h
  obtain ⟨c, -, hc⟩ := h
  rintro rfl
  have hval : IAC.toNat = 255 := rfl
  have hne : ∀ n : ℕ, n < 255 → IAC ≠ UInt8.ofNat n := by
    intro n hn h
    rw [h, UInt8.toNat_ofNat'] at hval
    omega
  simp only [String.utf8EncodeChar] at hc
  split_ifs at hc
  all_goals simp only [List.mem_cons, List.not_mem_nil, or_false] at hc
  · exact hne _ (by omega) hc
  · rcases hc with hc | hc
    · exact hne _ (by omega) hc
    · exact hne _ (by omega) hc
  · rcases hc with hc | hc | hc
    · exact hne _ (by omega) hc
    · exact hne _ (by omega) hc
    · exact hne _ (by omega) hc
  · rcases hc with hc | hc | hc | hc
    · exact hne _ (by omega) hc
    · exact hne _ (by omega) hc
    · exact hne _ (by omega) hc
    · exact hne _ (by omega) hc

/-- Bytes without IAC are sent as they are. -/
theorem escape_eq_self (h : ∀ b ∈ d, b ≠ IAC) :
  escape d = d
  := by
  induction d with
  | nil => rfl
  | cons b d ih =>
      have hrest := ih (fun c hc => h c (List.mem_cons_of_mem b hc))
      rw [escape_cons, if_neg (h b List.mem_cons_self), hrest]
      rfl

theorem nawsPacket_eq (size : TermSize) :
  nawsPacket size = [IAC, SB, OPT_NAWS] ++ escape (toBeBytes size.cols ++ toBeBytes size.rows) ++
    [IAC, SE]
  := by
  have hbyte : ∀ b : UInt8, (if b = IAC then [IAC] else []) ++ [b] =
      if b = IAC then [IAC, IAC] else [b] := by
    intro b
    split
    · rename_i hb
      rw [hb]
      rfl
    · rfl
  simp only [nawsPacket, hbyte, escape, List.flatMap_cons, List.flatMap_append,
    List.flatMap_nil, List.append_nil]

/-! ### What a negotiation costs -/

/-- A request for an option that is granted, and is answered with a request for the same option:
suppress-go-ahead and binary, which this end both offers and asks for. -/
def Mirrors (p : Parser) (b : UInt8) : Prop :=
  match p.state with
  | .opt cmd => (cmd = DO ∨ cmd = WILL) ∧ (b = OPT_SGA ∨ b = OPT_BINARY)
  | _ => False

instance (p : Parser) (b : UInt8) : Decidable (Mirrors p b) := by
  unfold Mirrors
  split
  · infer_instance
  · infer_instance

/-- The bytes that a reading is answered with, and the refusal that the answer may meet. -/
def price (term : String) (size : TermSize) (p : Parser) (b : UInt8) : ℕ :=
  (answers term size p b).length +
    match p.state with
    | .opt cmd =>
      if cmd = DO ∧ (b = OPT_NAWS ∨ b = OPT_TTYPE) ∨ cmd = WILL ∧ b = OPT_ECHO then 3 else 0
    | _ => 0

/-- The answer that a parser may still owe for the command it is in the middle of. -/
def deposit (term : String) (p : Parser) : ℕ :=
  match p.state with
  | .data => 0
  | .iac => 0
  | .opt _ => 3
  | .sub => (termBytes term).length + 6
  | .subIac => (termBytes term).length + 6

/-- What the readings and the states of a parser cost. -/
def tariff (term : String) (size : TermSize) : Tariff Parser UInt8 where
  price := price term size
  deposit := deposit term

/-- Reading `xs` leads from one parser to another, mirrors no request, and costs `n`. -/
structure Reading (term : String) (size : TermSize) (p : Parser) (xs : Bytes) (p' : Parser)
    (n : ℕ) : Prop where
  after : (parser term size).after p xs = p'
  sum : (tariff term size).sum (parser term size) p xs = n
  reads : (parser term size).Reads (fun p b => ¬Mirrors p b) p xs

theorem Reading.nil :
  Reading term size p [] p 0
  := ⟨rfl, rfl, trivial⟩

theorem Reading.append {p'' : Parser} {xs ys : Bytes} {n k : ℕ} (h : Reading term size p xs p' n)
    (h' : Reading term size p' ys p'' k) :
  Reading term size p (xs ++ ys) p'' (n + k)
  := by
  obtain ⟨rfl, rfl, hreads⟩ := h
  obtain ⟨rfl, rfl, hreads'⟩ := h'
  exact ⟨Machine.after_append _, Tariff.sum_append _, Machine.reads_append.mpr ⟨hreads, hreads'⟩⟩

theorem Reading.cons {xs : Bytes} {n : ℕ} (hb : ¬Mirrors p b)
    (h : Reading term size (next p b) xs p' n) :
  Reading term size p (b :: xs) p' (price term size p b + n)
  := by
  obtain ⟨rfl, rfl, hreads⟩ := h
  exact ⟨rfl, rfl, hb, hreads⟩

/-- A reading pays its bill from the deposit of the state it starts in. -/
def Paid (term : String) (size : TermSize) (p : Parser) (xs : Bytes) (n : ℕ) : Prop :=
  ∃ p' k, Reading term size p xs p' k ∧ k + deposit term p' ≤ n + deposit term p

theorem Paid.append {xs ys : Bytes} {n k : ℕ} (h : ∀ p, Paid term size p xs n)
    (h' : ∀ p, Paid term size p ys k) :
  Paid term size p (xs ++ ys) (n + k)
  := by
  obtain ⟨p', i, hread, hpay⟩ := h p
  obtain ⟨p'', j, hread', hpay'⟩ := h' p'
  exact ⟨p'', i + j, hread.append hread', by omega⟩

/-- What is paid is affordable. -/
theorem Paid.bill {xs : Bytes} {n : ℕ} (h : Paid term size p xs n) :
  (parser term size).Reads (fun p b => ¬Mirrors p b) p xs ∧
    (tariff term size).bill (parser term size) p xs ≤ n + deposit term p
  := by
  obtain ⟨p', k, ⟨rfl, rfl, hreads⟩, hpay⟩ := h
  exact ⟨hreads, hpay⟩

/-- The price of reading a command between two others. -/
def charge (term : String) (size : TermSize) (cmd b : UInt8) : ℕ :=
  price term size { state := .opt cmd, sub := [], naws := false } b

/-- IAC is no option that is granted. -/
theorem charge_iac (cmd : UInt8) :
  charge term size cmd IAC ≤ 3
  := by
  simp only [charge, price, answers, answer, IAC, OPT_NAWS, OPT_TTYPE, OPT_SGA, OPT_BINARY,
    OPT_ECHO]
  split_ifs <;> simp_all

/-- A command is paid for wherever a parser meets it: between commands it is answered, and inside
of one it is lost. -/
theorem paid_command (hcmd : cmd ∈ [DO, DONT, WILL, WONT])
    (hquiet : cmd = DO ∨ cmd = WILL → ¬(b = OPT_SGA ∨ b = OPT_BINARY)) :
  Paid term size p [IAC, cmd, b] (charge term size cmd b)
  := by
  obtain ⟨state, sub, naws⟩ := p
  have hsep : cmd ≠ IAC ∧ cmd ≠ SE ∧ IAC ≠ SE := by
    simp only [List.mem_cons, List.not_mem_nil, or_false] at hcmd
    rcases hcmd with rfl | rfl | rfl | rfl <;> decide
  have hiac : IAC ≠ OPT_SGA ∧ IAC ≠ OPT_BINARY := by decide
  have hcmd' : cmd = DO ∨ cmd = DONT ∨ cmd = WILL ∨ cmd = WONT := by simpa using hcmd
  refine ⟨_, _, .cons ?_ (.cons ?_ (.cons ?_ .nil)), ?_⟩
  · cases state <;> simp [Mirrors, hiac]
  · cases state <;> simp [Mirrors, next]
  · cases state with
    | data => simpa [Mirrors, next, hsep, hcmd'] using hquiet
    | iac => simp [Mirrors, next, hsep]
    | opt _ => simp [Mirrors, next, hsep]
    | sub => simp [Mirrors, next, hsep]
    | subIac => simp [Mirrors, next, hsep]
  · cases state with
    | data => simp [next, hsep, hcmd', price, charge, answers, deposit]
    | iac =>
        by_cases hb : b = IAC
        · simp [next, hsep, price, answers, deposit, hb]
        · simp [next, hsep, price, answers, deposit, hb]
    | opt cmd' =>
        have hlost := @charge_iac term size cmd'
        rw [charge, price] at hlost
        by_cases hb : b = IAC
        · simp [next, hsep, price, answers, deposit, hb] at hlost ⊢
          omega
        · simp [next, hsep, price, answers, deposit, hb] at hlost ⊢
          omega
    | sub =>
        by_cases hb : b = IAC
        · simp [next, hsep, price, answers, deposit, hb]
        · simp [next, hsep, price, answers, deposit, hb]
    | subIac =>
        by_cases hb : b = IAC
        · simp [next, hsep, price, answers, deposit, hb]
        · simp [next, hsep, price, answers, deposit, hb]

/-- A byte that ends no command is free. -/
theorem Reading.free {q : Parser} {xs : Bytes} {n : ℕ}
    (hp : p.state = .data ∨ p.state = .iac ∨ p.state = .sub ∨ p.state = .subIac ∧ b ≠ SE)
    (hnext : next p b = q) (h : Reading term size q xs p' n) :
  Reading term size p (b :: xs) p' n
  := by
  have hprice : price term size p b = 0 := by
    rcases hp with hp | hp | hp | ⟨hp, hb⟩ <;> simp [price, answers, *]
  have hquiet : ¬Mirrors p b := by
    rcases hp with hp | hp | hp | ⟨hp, -⟩ <;> simp [Mirrors, hp]
  have hread := Reading.cons hquiet (hnext.symm ▸ h)
  rwa [hprice, zero_add] at hread

/-- Escaped data is free. -/
theorem reading_escape (h : p.state = .data) :
  Reading term size p (escape d) p 0
  := by
  obtain ⟨state, sub, naws⟩ := p
  cases h
  induction d with
  | nil => exact .nil
  | cons b d ih =>
      rw [escape_cons]
      split
      · apply Reading.free (by simp) rfl
        exact Reading.free (by simp [next]) rfl ih
      · rename_i hb
        exact Reading.free (by simp) (by simp [next, hb]) ih

theorem reading_escape_sub (h : p.state = .sub) :
  Reading term size p (escape d) { p with sub := p.sub ++ d } 0
  := by
  obtain ⟨state, sub, naws⟩ := p
  cases h
  induction d generalizing sub with
  | nil => simpa [escape] using Reading.nil
  | cons b d ih =>
      have hrest := ih (sub ++ [b])
      simp only [List.append_assoc, List.singleton_append] at hrest
      rw [escape_cons]
      split
      · rename_i hb
        cases hb
        apply Reading.free (by simp) rfl
        exact Reading.free (by simp [next, show IAC ≠ SE by decide]) rfl hrest
      · rename_i hb
        exact Reading.free (by simp) (by simp [next, hb]) hrest

/-- The end of a subnegotiation costs its answer. -/
theorem reading_end (h : p.state = .sub) :
  Reading term size p (escape d ++ [IAC, SE]) { p with state := .data, sub := p.sub ++ d }
    (termAnswer term (p.sub ++ d)).length
  := by
  obtain ⟨state, sub, naws⟩ := p
  cases h
  have hend : Reading term size ⟨.sub, sub ++ d, naws⟩ [IAC, SE] ⟨.data, sub ++ d, naws⟩
      (termAnswer term (sub ++ d)).length :=
    .free (by simp) rfl (.cons (by simp [Mirrors, next]) .nil)
  have hread : Reading term size ⟨.sub, sub, naws⟩ (escape d) ⟨.sub, sub ++ d, naws⟩ 0 :=
    reading_escape_sub rfl
  have hboth := hread.append hend
  rwa [zero_add] at hboth

/-- Outside of a subnegotiation what belongs to one is free. -/
theorem reading_lost (h : p.state = .data) :
  Reading term size p (escape d ++ [IAC, SE]) p 0
  := by
  have hend : Reading term size p [IAC, SE] p 0 := by
    obtain ⟨state, sub, naws⟩ := p
    cases h
    exact .free (by simp) rfl (.free (by simp [next]) rfl .nil)
  exact (reading_escape h).append hend

theorem length_termAnswer (sub : Bytes) :
  (termAnswer term sub).length ≤ (termBytes term).length + 6
  := by
  rw [termAnswer]
  split <;> simp

/-- A subnegotiation that asks for nothing is paid for wherever a parser meets it. -/
theorem paid_packet (hasks : ¬asksTerm d) :
  Paid term size p ([IAC, SB] ++ escape d ++ [IAC, SE]) 0
  := by
  obtain ⟨state, sub, naws⟩ := p
  have hsb : ∀ d, SB :: escape d = escape (SB :: d) := fun d => rfl
  rw [List.append_assoc, List.cons_append, List.singleton_append, ← List.cons_append]
  have hsep : SB ≠ IAC ∧ SB ≠ SE ∧ IAC ≠ SE ∧ IAC ≠ OPT_SGA ∧ IAC ≠ OPT_BINARY := by decide
  cases state with
  | data =>
      have hnext : next ⟨.iac, sub, naws⟩ SB = ⟨.sub, [], naws⟩ := rfl
      refine ⟨_, _, .free (by simp) rfl (.free (by simp [next]) hnext (reading_end rfl)), ?_⟩
      simp [deposit, termAnswer, hasks]
  | iac =>
      rw [hsb]
      exact ⟨_, _, .free (by simp) rfl (reading_lost rfl), by simp [deposit, next]⟩
  | opt cmd =>
      have hlost := @charge_iac term size cmd
      rw [charge, price] at hlost
      rw [hsb]
      refine ⟨_, _, .cons (by simp [Mirrors, hsep]) (reading_lost rfl), ?_⟩
      simpa [deposit, next, price, answers] using hlost
  | sub =>
      refine ⟨_, _, .free (by simp) rfl (.free (by simp [next, hsep]) rfl (reading_lost ?_)), ?_⟩
      · simp [next, hsep]
      · simp [deposit, next, hsep]
  | subIac =>
      have hlen := @length_termAnswer term (sub ++ IAC :: SB :: d)
      rw [hsb]
      refine ⟨_, _, .free (by simp [hsep]) rfl (reading_end rfl), ?_⟩
      simpa [deposit, next] using hlen

/-! ### The answers -/

theorem nawsPacket_eq_escape (size : TermSize) :
  nawsPacket size =
    [IAC, SB] ++ escape (OPT_NAWS :: (toBeBytes size.cols ++ toBeBytes size.rows)) ++ [IAC, SE]
  := by
  rw [nawsPacket_eq]
  rfl

theorem termAnswer_eq {sub : Bytes} (h : asksTerm sub) :
  termAnswer term sub = [IAC, SB] ++ escape (OPT_TTYPE :: 0 :: termBytes term) ++ [IAC, SE]
  := by
  have hesc : escape (termBytes term) = termBytes term :=
    escape_eq_self (fun _ hb => ne_iac_of_mem_utf8 hb)
  rw [termAnswer, if_pos h, escape_cons, escape_cons, hesc]
  rfl

/-- The answers that a byte may have. -/
inductive Reply (term : String) (size : TermSize) (p : Parser) (b : UInt8) : Bytes → Prop
  | nothing : Reply term size p b []
  | accept (h : p.state = .opt DO) (hb : b = OPT_TTYPE ∨ b = OPT_SGA ∨ b = OPT_BINARY) :
      Reply term size p b [IAC, WILL, b]
  | acceptSize (h : p.state = .opt DO) (hb : b = OPT_NAWS) :
      Reply term size p b ([IAC, WILL, OPT_NAWS] ++ nawsPacket size)
  | refuse (h : p.state = .opt DO) (hb : b ≠ OPT_SGA ∧ b ≠ OPT_BINARY) :
      Reply term size p b [IAC, WONT, b]
  | agree (h : p.state = .opt WILL) (hb : b = OPT_ECHO ∨ b = OPT_SGA ∨ b = OPT_BINARY) :
      Reply term size p b [IAC, DO, b]
  | disagree (h : p.state = .opt WILL) (hb : b ≠ OPT_SGA ∧ b ≠ OPT_BINARY) :
      Reply term size p b [IAC, DONT, b]
  | name (h : p.state = .subIac) (hb : b = SE) :
      Reply term size p b ([IAC, SB] ++ escape (OPT_TTYPE :: 0 :: termBytes term) ++ [IAC, SE])

theorem reply_answers (term : String) (size : TermSize) (p : Parser) (b : UInt8) :
  Reply term size p b (answers term size p b)
  := by
  cases hstate : p.state with
  | data => simpa [answers, hstate] using Reply.nothing
  | iac => simpa [answers, hstate] using Reply.nothing
  | sub => simpa [answers, hstate] using Reply.nothing
  | opt cmd =>
      simp only [answers, hstate, answer]
      split
      · rename_i hcmd
        cases hcmd
        split
        · rename_i hb
          exact .acceptSize hstate hb
        · split
          · rename_i hb
            exact .accept hstate hb
          · rename_i hb
            exact .refuse hstate (not_or.mp (not_or.mp hb).2)
      · split
        · rename_i hcmd
          cases hcmd
          split
          · rename_i hb
            exact .agree hstate hb
          · rename_i hb
            exact .disagree hstate (not_or.mp (not_or.mp hb).2)
        · exact .nothing
  | subIac =>
      by_cases hask : b = SE ∧ asksTerm p.sub
      · rw [answers, hstate]
        simp only [hask.1, if_true]
        rw [termAnswer_eq hask.2]
        exact .name hstate rfl
      · have hnone : answers term size p b = [] := by
          rw [not_and] at hask
          simp only [answers, hstate]
          split
          · rename_i hb
            rw [termAnswer, if_neg (hask hb)]
          · rfl
        rw [hnone]
        exact .nothing

/-- The subnegotiations that are sent ask for nothing. -/
theorem not_asksTerm_naws (size : TermSize) :
  ¬asksTerm (OPT_NAWS :: (toBeBytes size.cols ++ toBeBytes size.rows))
  := by
  rintro ⟨h, -⟩
  cases h

theorem not_asksTerm_name (term : String) :
  ¬asksTerm (OPT_TTYPE :: 0 :: termBytes term)
  := by
  rintro ⟨-, h⟩
  cases h

/-- The price of a reading that mirrors no request pays for the answer at any other end. -/
theorem paid_answers (term' : String) (size' : TermSize) (q : Parser) (h : ¬Mirrors p b) :
  ∃ n, Paid term' size' q (answers term size p b) n ∧
    (answers term size p b).length + n ≤ price term size p b
  := by
  have hreply := reply_answers term size p b
  rw [price]
  generalize answers term size p b = xs at hreply ⊢
  cases hreply with
  | nothing => exact ⟨0, ⟨q, 0, .nil, Nat.le_refl _⟩, by simp⟩
  | accept hp hb =>
      have hb' : b = OPT_TTYPE := by
        simp only [Mirrors, hp, true_or, true_and] at h
        exact hb.resolve_right h
      cases hb'
      exact ⟨3, paid_command (by simp) (fun _ => by decide), by simp [hp]⟩
  | acceptSize hp hb =>
      rw [nawsPacket_eq_escape]
      refine ⟨3 + 0, .append (fun q => paid_command (by simp) (fun _ => by decide))
        (fun q => paid_packet (not_asksTerm_naws size)), by simp [hp, hb]⟩
  | refuse hp hb =>
      exact ⟨0, paid_command (by simp) (fun h => absurd h (by decide)), by simp [hp]⟩
  | agree hp hb =>
      have hb' : b = OPT_ECHO := by
        simp only [Mirrors, hp, or_true, true_and] at h
        exact hb.resolve_right h
      cases hb'
      exact ⟨3, paid_command (by simp) (fun _ => by decide), by simp [hp]⟩
  | disagree hp hb =>
      exact ⟨0, paid_command (by simp) (fun h => absurd h (by decide)), by simp [hp]⟩
  | name hp hb => exact ⟨0, paid_packet (not_asksTerm_name term), by simp [hp]⟩

end

/-! ### Two parsers wired to each other -/

section
variable {term : Bool → String} {size : Bool → TermSize} {w : Wired Parser UInt8}
  {p q : Parser} {b : UInt8} {xs : Bytes} {i : Bool}

/-- The parsers at the two ends of a connection. -/
def ends (term : Bool → String) (size : Bool → TermSize) (i : Bool) :
    Machine Parser UInt8 UInt8 :=
  parser (term i) (size i)

/-- No request on the wire is mirrored by the end that reads it. -/
def Calm (term : Bool → String) (size : Bool → TermSize) (w : Wired Parser UInt8) : Prop :=
  ∀ i, (ends term size i).Reads (fun p b => ¬Mirrors p b) (w.state i) (w.wire i)

/-- What is on the wires ends between two commands. -/
def Whole (term : Bool → String) (size : Bool → TermSize) (w : Wired Parser UInt8) : Prop :=
  ∀ i, ((ends term size i).after (w.state i) (w.wire i)).state = .data

theorem affordable (term : Bool → String) (size : Bool → TermSize) :
  Wired.Affordable (ends term size) (fun _ p b => ¬Mirrors p b)
    (fun i => tariff (term i) (size i))
  := by
  intro i p b q h
  obtain ⟨n, hpaid, hprice⟩ := @paid_answers _ (size i) _ _ (term (!i)) (size (!i)) q h
  obtain ⟨hreads, hbill⟩ := hpaid.bill
  refine ⟨hreads, ?_⟩
  change (answers (term i) (size i) p b).length + _ ≤
    price (term i) (size i) p b + deposit (term (!i)) q
  exact Nat.le_trans (Nat.add_le_add_left hbill _) (by omega)

/-- Two ends settle when no request on the wire is mirrored. -/
theorem settles_of_calm (h : Calm term size w) :
  Wired.Settles (ends term size) w
  := Wired.settles_of_affordable (affordable term size) h

/-- A command read between two others is read as it is. -/
theorem after_command {t : String} {z : TermSize} {cmd : UInt8} (h : q.state = .data)
    (hcmd : cmd ∈ [DO, DONT, WILL, WONT]) :
  ((parser t z).after q [IAC, cmd, b]).state = .data
  := by
  have hsep : cmd ≠ IAC := by
    rintro rfl
    exact absurd hcmd (by decide)
  have hcmd' : cmd = DO ∨ cmd = DONT ∨ cmd = WILL ∨ cmd = WONT := by simpa using hcmd
  simp [Machine.after, Machine.feed_cons, next, h, hsep, hcmd']

theorem after_packet {t : String} {z : TermSize} {d : Bytes} (h : q.state = .data) :
  ((parser t z).after q ([IAC, SB] ++ escape d ++ [IAC, SE])).state = .data
  := by
  have hnext : (parser t z).after q [IAC, SB] = { q with state := .sub, sub := [] } := by
    simp only [Machine.after, Machine.feed_cons, Machine.feed_nil, next_reader, next, h]
    rfl
  rw [List.append_assoc, Machine.after_append, hnext, (reading_end rfl).after]

/-- An end that is between two commands is so after an answer. -/
theorem after_answers {t : String} {z : TermSize} (h : q.state = .data) (t' : String)
    (z' : TermSize) (p : Parser) (b : UInt8) :
  ((parser t z).after q (answers t' z' p b)).state = .data
  := by
  have hreply := reply_answers t' z' p b
  generalize answers t' z' p b = xs at hreply ⊢
  cases hreply with
  | nothing => exact h
  | accept => exact after_command h (by simp)
  | acceptSize =>
      rw [nawsPacket_eq_escape, Machine.after_append]
      exact after_packet (after_command h (by simp))
  | refuse => exact after_command h (by simp)
  | agree => exact after_command h (by simp)
  | disagree => exact after_command h (by simp)
  | name => exact after_packet h

/-- A request that is mirrored is answered with a request for the same option. -/
theorem answers_of_mirrors {t : String} {z : TermSize} (h : Mirrors p b) :
  (b = OPT_SGA ∨ b = OPT_BINARY) ∧ ∃ cmd, (cmd = WILL ∨ cmd = DO) ∧ answers t z p b = [IAC, cmd, b]
  := by
  have hopt : ∀ b, b = OPT_SGA ∨ b = OPT_BINARY → b ≠ OPT_NAWS := by
    rintro b (rfl | rfl) <;> decide
  cases hstate : p.state with
  | opt cmd =>
      rw [Mirrors, hstate] at h
      obtain ⟨hcmd, hb⟩ := h
      refine ⟨hb, ?_⟩
      rcases hcmd with rfl | rfl
      · use WILL, .inl rfl
        simp [answers, hstate, answer, hb, hopt b hb]
      · use DO, .inr rfl
        simp [answers, hstate, answer, hb, show WILL ≠ DO by decide]
  | data => simp [Mirrors, hstate] at h
  | iac => simp [Mirrors, hstate] at h
  | sub => simp [Mirrors, hstate] at h
  | subIac => simp [Mirrors, hstate] at h

/-- The answer to a request that is mirrored is mirrored. -/
theorem not_reads_answers {t : String} {z : TermSize} (h : q.state = .data) {t' : String}
    {z' : TermSize} (hm : Mirrors p b) :
  ¬(parser t z).Reads (fun p b => ¬Mirrors p b) q (answers t' z' p b)
  := by
  obtain ⟨hb, cmd, hcmd, hanswer⟩ := answers_of_mirrors (t := t') (z := z') hm
  rw [hanswer]
  rintro ⟨-, -, hnot, -⟩
  apply hnot
  rcases hcmd with rfl | rfl
  · have hnext : next (next q IAC) WILL = { q with state := .opt WILL } := by
      simp only [next, h]
      rfl
    simp [Mirrors, hnext, hb]
  · have hnext : next (next q IAC) DO = { q with state := .opt DO } := by
      simp only [next, h]
      rfl
    simp [Mirrors, hnext, hb]

/-- An end that is between two commands is so after all that the other end says, and mirrors a
request in it if the other end has mirrored one. -/
theorem reads_said {t t' : String} {z z' : TermSize} (h : q.state = .data) :
  ((parser t z).after q ((parser t' z').said p xs)).state = .data ∧
    ((parser t z).Reads (fun p b => ¬Mirrors p b) q ((parser t' z').said p xs) →
      (parser t' z').Reads (fun p b => ¬Mirrors p b) p xs)
  := by
  induction xs generalizing p q with
  | nil => exact ⟨h, fun _ => trivial⟩
  | cons b xs ih =>
      have hsaid : (parser t' z').said p (b :: xs) =
          answers t' z' p b ++ (parser t' z').said (next p b) xs := rfl
      obtain ⟨hdata, hreads⟩ := ih (p := next p b) (after_answers (t := t) (z := z) h t' z' p b)
      rw [hsaid, Machine.after_append, Machine.reads_append]
      refine ⟨hdata, fun ⟨hb, hxs⟩ => ⟨fun hm => not_reads_answers h hm hb, hreads hxs⟩⟩

/-- Two ends never settle when a request on a wire is mirrored and the wires end between two
commands. -/
theorem not_settles_of_not_calm (hwhole : Whole term size w) (h : ¬Calm term size w) :
  ¬Wired.Settles (ends term size) w
  := by
  apply Wired.not_settles_of_goesOn
    (I := fun w => Whole term size w ∧ ¬Calm term size w) _ ⟨hwhole, h⟩
  rintro w ⟨hwhole, h⟩
  obtain ⟨i, hi⟩ := not_forall.mp h
  obtain ⟨hdata, hreads⟩ := @reads_said (w.state i) _ (w.wire i) (term (!i)) (term i)
    (size (!i)) (size i) (hwhole (!i))
  refine ⟨i, (w.wire i).length, ?_, Nat.le_refl _, ?_, ?_⟩
  · rw [List.length_pos_iff]
    intro hnil
    rw [hnil] at hi
    exact hi trivial
  · rw [Whole, Bool.forall_bool' i]
    simp only [Wired.state_deliver, Wired.wire_deliver, Wired.state_deliver_not,
      Wired.wire_deliver_not, List.take_length, List.drop_length, Machine.after_append]
    exact ⟨hwhole i, hdata⟩
  · intro hcalm
    have hother := hcalm (!i)
    rw [Wired.state_deliver_not, Wired.wire_deliver_not, List.take_length,
      Machine.reads_append] at hother
    exact hi (hreads hother.2)

/-- Telnet is transparent, and how the stream is cut does not matter. What two ends exchange is
finite when no request on the wires is mirrored, and it is so only then when the wires end between
two commands. -/
theorem carries_and_settles (term : Bool → String) (size : Bool → TermSize) :
  (∀ i p d chunks, p.state = .data → chunks.flatten = escape d →
      (ends term size i).feedAll p chunks = (p, d, [])) ∧
    (∀ i p chunks, (ends term size i).feedAll p chunks = (ends term size i).feed p chunks.flatten) ∧
    (∀ w, Calm term size w → Wired.Settles (ends term size) w) ∧
    (∀ w, Whole term size w → Wired.Settles (ends term size) w → Calm term size w)
  := by
  refine ⟨?_, fun i p chunks => Machine.feedAll_eq _ chunks, fun w => settles_of_calm, ?_⟩
  · intro i p d chunks hp hchunks
    rw [Machine.feedAll_eq, hchunks]
    exact feed_escape hp
  · intro w hwhole hsettles
    by_contra h
    exact not_settles_of_not_calm hwhole h hsettles

/-- A server asks for the type of the terminal and offers to echo, both ends being new. -/
def greeted : Wired Parser UInt8 where
  state _ := .new
  wire i := if i then [IAC, DO, OPT_TTYPE, IAC, WILL, OPT_ECHO] else []

theorem settles_greeted :
  Wired.Settles (ends (fun _ => "xterm") (fun _ => ⟨80, 24⟩)) greeted
  := by
  apply (carries_and_settles _ _).2.2.1
  intro i
  cases i with
  | false => trivial
  | true => exact ⟨by decide, by decide, by decide, by decide, by decide, by decide, trivial⟩

/-- A server asks for suppress-go-ahead, both ends being new. -/
def asked : Wired Parser UInt8 where
  state _ := .new
  wire i := if i then [IAC, DO, OPT_SGA] else []

/-- The two ends acknowledge each other for ever. -/
theorem not_settles_asked :
  ¬∀ (term : Bool → String) (size : Bool → TermSize) (w : Wired Parser UInt8),
    Wired.Settles (ends term size) w
  := by
  intro h
  refine not_settles_of_not_calm (w := asked) ?_ ?_ (h (fun _ => "xterm") (fun _ => ⟨80, 24⟩) asked)
  · intro i
    cases i with
    | false => rfl
    | true => rfl
  · intro hcalm
    obtain ⟨-, -, hnot, -⟩ := hcalm true
    exact hnot (by decide)

end

end Termoso.Core.Telnet
