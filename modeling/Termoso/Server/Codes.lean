import Termoso.Lib.Threads
import Mathlib.Data.List.Nodup
import Mathlib.Data.Finset.Card
import Mathlib.Order.Interval.Finset.Nat

/-!
# One-time codes

A code is kept in the cache under a purpose and a token, as its hash beside a payload, until it
expires.  Any number of calls about one purpose and token run their commands one by one between
those of the others: a code is issued, issued again with the payload it has, or verified, which
counts a guess, reads the code, compares it, and deletes it when it is the right one.

A code is to be accepted once, a token to be good for nothing once a code of it was accepted, and
the guesses at the codes of a token to be bounded.  That is so in runs in which nobody deletes the
code between the read and the write of another call, and in which the guesses made at one token
fall into one window of the rate limit.
-/

namespace Termoso.Server

/-- The hash of tokens and codes. -/
class TokenHash where
  hashToken : String → String

/-- Normalise codes before hashing (case, dashes, spaces). -/
def normalizeCode (code : String) : String :=
  String.ofList ((code.toList.filter Char.isAlphanum).map Char.toLower)

structure Limit where
  name : String
  max : ℕ
  window : ℕ

/-- Guesses of a short code per token. -/
def CODE_GUESS : Limit := ⟨"code", 6, 900⟩

/-! ### The cache -/

/-- A code and its payload, with the time it expires at. Each code written has an id. -/
structure StoredCode (α : Type) where
  codeHash : String
  payload : α
  expiresAt : ℕ
  id : ℕ

/-- A guess that was counted: in which window, and which of the window. -/
abbrev Guess := ℕ × ℕ

/-- What happens to the codes of a token. -/
inductive CodeEvent
  | issued (id : ℕ)
  | reissued (id : ℕ)
  | compared (guess : Guess)
  | accepted (id : ℕ)
deriving DecidableEq

/-- The cache, as far as one purpose and token go: the code, and the counter of guesses with the
time it expires at. Beside them stand the numbers of codes written, of deletions and of windows,
who made each guess, and what happened, the latest first. -/
structure CodeCache (α : Type) where
  now : ℕ
  code : Option (StoredCode α)
  window : Option (ℕ × ℕ)
  written : ℕ
  deletions : ℕ
  windows : ℕ
  guesser : Guess → Option ℕ
  log : List CodeEvent

namespace CodeCache

variable {α : Type} (s : CodeCache α)

/-- Read the code. -/
def get : Option (StoredCode α) := s.code.filter (fun c => decide (s.now < c.expiresAt))

/-- Write a code, which lives for a time. -/
def set (codeHash : String) (payload : α) (ttl : ℕ) (event : ℕ → CodeEvent) : CodeCache α :=
  { s with
    code := some ⟨codeHash, payload, s.now + max ttl 1, s.written⟩
    written := s.written + 1
    log := event s.written :: s.log }

/-- Delete the code, after it was accepted. -/
def del (id : ℕ) : CodeCache α :=
  { s with code := none, deletions := s.deletions + 1, log := .accepted id :: s.log }

/-- Count a guess, in the window that is open or a new one: the count, the time the window is open
for, and the cache. -/
def incrWindow (guesser : ℕ) : ℕ × ℕ × CodeCache α :=
  match s.window.filter (fun w => decide (s.now < w.2)) with
  | some (count, expiresAt) =>
    (count + 1, expiresAt - s.now, { s with
      window := some (count + 1, expiresAt)
      guesser := Function.update s.guesser (s.windows, count + 1) (some guesser) })
  | none =>
    (1, CODE_GUESS.window, { s with
      window := some (1, s.now + CODE_GUESS.window)
      windows := s.windows + 1
      guesser := Function.update s.guesser (s.windows + 1, 1) (some guesser) })

/-- Note that a code was compared. -/
def compared (guess : Guess) : CodeCache α := { s with log := .compared guess :: s.log }

end CodeCache

/-! ### Calls -/

inductive CodeError
  | rateLimited (retryAfter : ℕ)
  | tokenExpired
  | invalidCode
deriving DecidableEq

inductive CodeAnswer (α : Type)
  | issued (code : String)
  | reissued (payload : α) (code : String)
  | verified (payload : α)

/-- How far a call has come. -/
inductive CodeCall (α : Type)
  | done (answer : Option (Except CodeError (CodeAnswer α)))
  /-- About to write a code. -/
  | issueSet (payload : α) (ttl : ℕ)
  /-- About to read the code to issue again. -/
  | reissueGet (ttl : ℕ)
  /-- About to write a new code in the place of one that was read after so many deletions. -/
  | reissueSet (payload : α) (ttl deletions : ℕ)
  /-- About to count a guess. -/
  | verifyIncr (code : String)
  /-- About to read the code and compare it. -/
  | verifyGet (code : String) (guess : Guess)
  /-- About to delete a code that was the right one, read after so many deletions. -/
  | verifyDel (payload : α) (id deletions : ℕ)

/-- A call is made, drops out, or runs its next command, for which a code may be drawn. -/
inductive CodeStep (α : Type)
  | issueFor (payload : α) (ttl : ℕ)
  | reissue (ttl : ℕ)
  | verify (code : String)
  | drop
  | next (drawn : String)

section
variable {α : Type} [TokenHash]

/-- The next command of a call. -/
def CodeCall.next (thread : ℕ) (drawn : String) (s : CodeCache α) :
    CodeCall α → Option (CodeCache α × CodeCall α)
  | .done _ => none
  | .issueSet payload ttl =>
    some (s.set (TokenHash.hashToken drawn) payload ttl .issued, .done (some (.ok (.issued drawn))))
  | .reissueGet ttl =>
    match s.get with
    | none => some (s, .done (some (.error .tokenExpired)))
    | some c => some (s, .reissueSet c.payload ttl s.deletions)
  | .reissueSet payload ttl _ =>
    some (s.set (TokenHash.hashToken drawn) payload ttl .reissued,
      .done (some (.ok (.reissued payload drawn))))
  | .verifyIncr code =>
    let (count, ttl, s) := s.incrWindow thread
    if count > CODE_GUESS.max then some (s, .done (some (.error (.rateLimited (max ttl 1)))))
    else some (s, .verifyGet code (s.windows, count))
  | .verifyGet code guess =>
    match s.get with
    | none => some (s, .done (some (.error .tokenExpired)))
    | some c =>
      if c.codeHash = TokenHash.hashToken (normalizeCode code) then
        some (s.compared guess, .verifyDel c.payload c.id s.deletions)
      else some (s.compared guess, .done (some (.error .invalidCode)))
  | .verifyDel payload id _ => some (s.del id, .done (some (.ok (.verified payload))))

/-- A step of a call. -/
def CodeCall.exec (thread : ℕ) : CodeStep α → CodeCache α → CodeCall α →
    Option (CodeCache α × CodeCall α)
  | .issueFor payload ttl, s, .done _ => some (s, .issueSet payload ttl)
  | .reissue ttl, s, .done _ => some (s, .reissueGet ttl)
  | .verify code, s, .done _ => some (s, .verifyIncr code)
  | .drop, s, _ => some (s, .done none)
  | .next drawn, s, call => call.next thread drawn s
  | _, _, _ => none

/-- The calls about a token, while time passes. At first there is no code. -/
def codeCalls : Threads (CodeCache α) (CodeCall α) (CodeStep α) ℕ where
  init s := s.code = none ∧ s.window = none ∧ s.log = []
  start call := call = .done none
  exec := CodeCall.exec
  env seconds s := some { s with now := s.now + seconds }

end

/-! ### What is to hold -/

/-- What happened since the last code was issued, other than again. -/
def sinceIssue (log : List CodeEvent) : List CodeEvent :=
  log.takeWhile (fun | .issued _ => false | _ => true)

/-- The ids of the codes that were accepted. -/
def accepts (log : List CodeEvent) : List ℕ :=
  log.filterMap (fun | .accepted id => some id | _ => none)

/-- The guesses at which a code was compared. -/
def compares (log : List CodeEvent) : List Guess :=
  log.filterMap (fun | .compared guess => some guess | _ => none)

/-- Each code was accepted once at most, one code was accepted at most since the last one was
issued, and a code was compared no more often since then than the limit says. -/
structure OneTime (log : List CodeEvent) : Prop where
  codes : (accepts log).Nodup
  tokens : (accepts (sinceIssue log)).length ≤ 1
  guesses : (compares (sinceIssue log)).length ≤ CODE_GUESS.max

/-! ### Calls that are not overtaken -/

/-- A call writes the code only when nobody has deleted it since the call read it, and compares it
only in the window of the guesses made since the code was issued. -/
def CodeCall.Untouched {α : Type} (s : CodeCache α) : CodeCall α → Prop
  | .reissueSet _ _ deletions => deletions = s.deletions
  | .verifyDel _ _ deletions => deletions = s.deletions
  | .verifyGet _ guess => s.get.isSome → ∀ g ∈ compares (sinceIssue s.log), g.1 = guess.1
  | _ => True

def untouched {α : Type} (p : Pool (CodeCache α) (CodeCall α)) : PoolStep (CodeStep α) ℕ → Prop
  | .run i (.next _) => (p.threads i).Untouched p.shared
  | _ => True

/-! ### The log -/

section
variable {log : List CodeEvent} {id : ℕ} {guess : Guess}

@[simp] theorem accepts_issued : accepts (.issued id :: log) = accepts log := rfl
@[simp] theorem accepts_reissued : accepts (.reissued id :: log) = accepts log := rfl
@[simp] theorem accepts_compared : accepts (.compared guess :: log) = accepts log := rfl
@[simp] theorem accepts_accepted : accepts (.accepted id :: log) = id :: accepts log := rfl
@[simp] theorem compares_issued : compares (.issued id :: log) = compares log := rfl
@[simp] theorem compares_reissued : compares (.reissued id :: log) = compares log := rfl
@[simp] theorem compares_compared :
    compares (.compared guess :: log) = guess :: compares log := rfl
@[simp] theorem compares_accepted : compares (.accepted id :: log) = compares log := rfl
@[simp] theorem sinceIssue_issued : sinceIssue (.issued id :: log) = [] := rfl
@[simp] theorem sinceIssue_reissued :
    sinceIssue (.reissued id :: log) = .reissued id :: sinceIssue log := rfl
@[simp] theorem sinceIssue_compared :
    sinceIssue (.compared guess :: log) = .compared guess :: sinceIssue log := rfl
@[simp] theorem sinceIssue_accepted :
    sinceIssue (.accepted id :: log) = .accepted id :: sinceIssue log := rfl

theorem compares_sinceIssue_sublist :
  (compares (sinceIssue log)).Sublist (compares log)
  := (List.takeWhile_sublist _).filterMap _

/-- Guesses of one window, each counted within the limit, are no more than the limit. -/
theorem length_guesses_le {gs : List Guess} {k n : ℕ} (hnodup : gs.Nodup)
    (hwindow : ∀ g ∈ gs, g.1 = k) (hcount : ∀ g ∈ gs, 1 ≤ g.2 ∧ g.2 ≤ n) :
  gs.length ≤ n
  := by
  have hsnd : (gs.map Prod.snd).Nodup := by
    apply List.Nodup.map_on _ hnodup
    intro g hg g' hg' heq
    exact Prod.ext ((hwindow g hg).trans (hwindow g' hg').symm) heq
  have hsub : (gs.map Prod.snd).toFinset ⊆ Finset.Icc 1 n := by
    intro c hc
    obtain ⟨g, hg, rfl⟩ := List.mem_map.mp (List.mem_toFinset.mp hc)
    exact Finset.mem_Icc.mpr (hcount g hg)
  have hcard := Finset.card_le_card hsub
  rw [List.toFinset_card_of_nodup hsnd, List.length_map, Nat.card_Icc] at hcard
  omega

end

/-! ### The invariant -/

section
variable {α : Type} {s s' : CodeCache α} {i j : ℕ} {call : CodeCall α} {guess : Guess}

/-- A guess that was counted already. -/
def CodeCache.Counted (s : CodeCache α) (g : Guess) : Prop :=
  g.1 < s.windows ∨ g.1 = s.windows ∧ ∃ w, s.window = some w ∧ g.2 ≤ w.1

/-- What is kept of the cache: a code that is there was not accepted, nor was another one since the
last one was issued. -/
structure CodeCache.Sound (s : CodeCache α) : Prop where
  accepted : ∀ id ∈ accepts s.log, id < s.written
  nodup : (accepts s.log).Nodup
  once : (accepts (sinceIssue s.log)).length ≤ 1
  code : ∀ c, s.code = some c →
    c.id < s.written ∧ c.id ∉ accepts s.log ∧ accepts (sinceIssue s.log) = []
  guesses : (compares s.log).Nodup
  counted : ∀ g ∈ compares s.log, s.Counted g ∧ 1 ≤ g.2 ∧ g.2 ≤ CODE_GUESS.max
  oneWindow : ∀ g ∈ compares (sinceIssue s.log), ∀ g' ∈ compares (sinceIssue s.log), g.1 = g'.1

/-- What is kept of a call: a guess it made is its own, and a code it read is as good as it was
unless there was a deletion since. -/
def CodeCall.Asserts (i : ℕ) (s : CodeCache α) : CodeCall α → Prop
  | .verifyGet _ guess => s.guesser guess = some i ∧ guess ∉ compares s.log ∧ s.Counted guess
      ∧ 1 ≤ guess.2 ∧ guess.2 ≤ CODE_GUESS.max
  | .verifyDel _ id deletions => deletions ≤ s.deletions ∧ id < s.written
      ∧ (deletions = s.deletions → id ∉ accepts s.log ∧ accepts (sinceIssue s.log) = [])
  | .reissueSet _ _ deletions => deletions ≤ s.deletions
      ∧ (deletions = s.deletions → accepts (sinceIssue s.log) = [])
  | _ => True

/-- What the step of a call leaves alone, for the other calls. -/
structure CodeCache.Later (i : ℕ) (s s' : CodeCache α) : Prop where
  written : s.written ≤ s'.written
  deletions : s.deletions ≤ s'.deletions
  accepts : s'.deletions = s.deletions →
    Server.accepts s'.log = Server.accepts s.log
      ∧ (Server.accepts (sinceIssue s.log) = [] → Server.accepts (sinceIssue s'.log) = [])
  counted : ∀ g, s.Counted g → s'.Counted g
  guesser : ∀ g, s.Counted g → s'.guesser g = s.guesser g
  compares : ∀ g ∈ Server.compares s'.log, g ∈ Server.compares s.log ∨ s.guesser g = some i

/-- What is kept of another call stays so. -/
theorem asserts_of_later (h : s.Later i s') (hj : j ≠ i) (hcall : call.Asserts j s) :
  call.Asserts j s'
  := by
  cases call with
  | verifyGet code guess =>
      obtain ⟨hguesser, hnew, hcounted, hle⟩ := hcall
      refine ⟨(h.guesser guess hcounted).trans hguesser, ?_, h.counted guess hcounted, hle⟩
      intro hmem
      rcases h.compares guess hmem with hmem | hi
      · exact hnew hmem
      · exact hj (Option.some.inj (hguesser.symm.trans hi))
  | verifyDel payload id deletions =>
      obtain ⟨hle, hid, hgood⟩ := hcall
      refine ⟨hle.trans h.deletions, lt_of_lt_of_le hid h.written, ?_⟩
      intro heq
      have hsame : s'.deletions = s.deletions := le_antisymm (heq ▸ hle) h.deletions
      obtain ⟨haccepts, hsince⟩ := h.accepts hsame
      obtain ⟨hnot, hnone⟩ := hgood (heq.trans hsame)
      exact ⟨haccepts ▸ hnot, hsince hnone⟩
  | reissueSet payload ttl deletions =>
      obtain ⟨hle, hgood⟩ := hcall
      refine ⟨hle.trans h.deletions, ?_⟩
      intro heq
      have hsame : s'.deletions = s.deletions := le_antisymm (heq ▸ hle) h.deletions
      exact (h.accepts hsame).2 (hgood (heq.trans hsame))
  | done | issueSet | reissueGet | verifyIncr => trivial

theorem later_refl : s.Later i s :=
  ⟨le_rfl, le_rfl, fun _ => ⟨rfl, fun h => h⟩, fun _ h => h, fun _ _ => rfl, fun _ h => .inl h⟩

/-! ### Commands -/

theorem get_eq_some {c : StoredCode α} (h : s.get = some c) :
  s.code = some c
  := (Option.filter_eq_some_iff.mp h).1

/-- Writing a code that may be accepted. -/
theorem sound_set {codeHash : String} {payload : α} {ttl : ℕ} {event : ℕ → CodeEvent}
    (h : s.Sound) (hevent : event = .issued ∨ event = .reissued ∧ accepts (sinceIssue s.log) = []) :
  (s.set codeHash payload ttl event).Sound ∧ s.Later i (s.set codeHash payload ttl event)
  := by
  have hnot : s.written ∉ accepts s.log := fun hmem => lt_irrefl _ (h.accepted _ hmem)
  rcases hevent with rfl | ⟨rfl, hnone⟩
  · refine ⟨⟨fun id hid => (h.accepted id hid).trans (Nat.lt_succ_self _), h.nodup,
      by simp [CodeCache.set, accepts], ?_, h.guesses, h.counted,
      by simp [CodeCache.set, compares]⟩, ?_⟩
    · rintro c ⟨⟩
      exact ⟨Nat.lt_succ_self _, hnot, rfl⟩
    · exact ⟨Nat.le_succ _, le_rfl, fun _ => ⟨rfl, fun _ => rfl⟩, fun _ h => h, fun _ _ => rfl,
        fun _ h => .inl h⟩
  · refine ⟨⟨fun id hid => (h.accepted id hid).trans (Nat.lt_succ_self _), h.nodup, h.once, ?_,
      h.guesses, h.counted, h.oneWindow⟩, ?_⟩
    · rintro c ⟨⟩
      exact ⟨Nat.lt_succ_self _, hnot, hnone⟩
    · exact ⟨Nat.le_succ _, le_rfl, fun _ => ⟨rfl, fun h => h⟩, fun _ h => h, fun _ _ => rfl,
        fun _ h => .inl h⟩

/-- Deleting a code that is accepted for the first time. -/
theorem sound_del {id : ℕ} (h : s.Sound) (hid : id < s.written) (hnot : id ∉ accepts s.log)
    (hnone : accepts (sinceIssue s.log) = []) :
  (s.del id).Sound ∧ s.Later i (s.del id)
  := by
  refine ⟨⟨?_, List.nodup_cons.mpr ⟨hnot, h.nodup⟩, by simp [CodeCache.del, hnone], by simp [CodeCache.del],
    h.guesses, h.counted, h.oneWindow⟩, ?_⟩
  · intro id' hid'
    rcases List.mem_cons.mp hid' with rfl | hid'
    · exact hid
    · exact h.accepted id' hid'
  · exact ⟨le_rfl, Nat.le_succ _, fun heq => absurd heq (Nat.succ_ne_self _), fun _ h => h,
      fun _ _ => rfl, fun _ h => .inl h⟩

/-- Comparing a code at a guess of its own, in the window of the others. -/
theorem sound_compared (h : s.Sound) (hguesser : s.guesser guess = some i)
    (hnew : guess ∉ compares s.log) (hcounted : s.Counted guess) (hle : 1 ≤ guess.2)
    (hmax : guess.2 ≤ CODE_GUESS.max)
    (hwindow : ∀ g ∈ compares (sinceIssue s.log), g.1 = guess.1) :
  (s.compared guess).Sound ∧ s.Later i (s.compared guess)
  := by
  refine ⟨⟨h.accepted, h.nodup, h.once, h.code, List.nodup_cons.mpr ⟨hnew, h.guesses⟩, ?_, ?_⟩, ?_⟩
  · intro g hg
    rcases List.mem_cons.mp hg with rfl | hg
    · exact ⟨hcounted, hle, hmax⟩
    · exact h.counted g hg
  · intro g hg g' hg'
    have hone : ∀ g ∈ compares (sinceIssue (s.compared guess).log), g.1 = guess.1 := by
      intro g hg
      rcases List.mem_cons.mp hg with rfl | hg
      · rfl
      · exact hwindow g hg
    exact (hone g hg).trans (hone g' hg').symm
  · refine ⟨le_rfl, le_rfl, fun _ => ⟨rfl, fun h => h⟩, fun _ h => h, fun _ _ => rfl, ?_⟩
    intro g hg
    rcases List.mem_cons.mp hg with rfl | hg
    · exact .inr hguesser
    · exact .inl hg

/-- Counting a guess makes a guess of its own. -/
theorem sound_incrWindow {n count ttl : ℕ} (h : s.Sound) (hincr : s.incrWindow n = (count, ttl, s')) :
  s'.Sound ∧ s.Later i s' ∧ s'.guesser (s'.windows, count) = some n
    ∧ (s'.windows, count) ∉ compares s'.log ∧ s'.Counted (s'.windows, count) ∧ 1 ≤ count
  := by
  unfold CodeCache.incrWindow at hincr
  cases hopen : s.window.filter (fun w => decide (s.now < w.2)) with
  | some w =>
      obtain ⟨c, e⟩ := w
      have hw : s.window = some (c, e) := (Option.filter_eq_some_iff.mp hopen).1
      rw [hopen] at hincr
      cases hincr
      have hmono : ∀ g, s.Counted g → g.1 < s.windows ∨ g.1 = s.windows ∧ g.2 ≤ c := by
        rintro g (hlt | ⟨heq, w, hw', hle⟩)
        · exact .inl hlt
        · cases hw.symm.trans hw'
          exact .inr ⟨heq, hle⟩
      have hne : ∀ g, s.Counted g → g ≠ (s.windows, c + 1) := by
        rintro g hg rfl
        rcases hmono _ hg with hlt | ⟨-, hle⟩
        · exact lt_irrefl _ hlt
        · exact Nat.not_succ_le_self _ hle
      have hcounted : ∀ g, s.Counted g → CodeCache.Counted { s with
          window := some (c + 1, e)
          guesser := Function.update s.guesser (s.windows, c + 1) (some n) } g := by
        intro g hg
        rcases hmono g hg with hlt | ⟨heq, hle⟩
        · exact .inl hlt
        · exact .inr ⟨heq, _, rfl, hle.trans (Nat.le_succ c)⟩
      refine ⟨⟨h.accepted, h.nodup, h.once, h.code, h.guesses, ?_, h.oneWindow⟩, ?_, ?_, ?_, ?_, ?_⟩
      · intro g hg
        exact ⟨hcounted g (h.counted g hg).1, (h.counted g hg).2⟩
      · refine ⟨le_rfl, le_rfl, fun _ => ⟨rfl, fun h => h⟩, hcounted, ?_, fun _ h => .inl h⟩
        intro g hg
        exact Function.update_of_ne (hne g hg) _ _
      · exact Function.update_self _ _ _
      · intro hmem
        exact hne _ (h.counted _ hmem).1 rfl
      · exact .inr ⟨rfl, _, rfl, le_rfl⟩
      · exact Nat.succ_le_succ (Nat.zero_le c)
  | none =>
      rw [hopen] at hincr
      cases hincr
      have hmono : ∀ g, s.Counted g → g.1 ≤ s.windows := by
        rintro g (hlt | ⟨heq, -⟩)
        · exact hlt.le
        · exact heq.le
      have hne : ∀ g, s.Counted g → g ≠ (s.windows + 1, 1) := by
        rintro g hg rfl
        exact Nat.not_succ_le_self _ (hmono _ hg)
      have hcounted : ∀ g, s.Counted g → CodeCache.Counted { s with
          window := some (1, s.now + CODE_GUESS.window)
          windows := s.windows + 1
          guesser := Function.update s.guesser (s.windows + 1, 1) (some n) } g := by
        intro g hg
        exact .inl (Nat.lt_succ_of_le (hmono g hg))
      refine ⟨⟨h.accepted, h.nodup, h.once, h.code, h.guesses, ?_, h.oneWindow⟩, ?_, ?_, ?_, ?_, ?_⟩
      · intro g hg
        exact ⟨hcounted g (h.counted g hg).1, (h.counted g hg).2⟩
      · refine ⟨le_rfl, le_rfl, fun _ => ⟨rfl, fun h => h⟩, hcounted, ?_, fun _ h => .inl h⟩
        intro g hg
        exact Function.update_of_ne (hne g hg) _ _
      · exact Function.update_self _ _ _
      · intro hmem
        exact hne _ (h.counted _ hmem).1 rfl
      · exact .inr ⟨rfl, _, rfl, le_rfl⟩
      · exact le_rfl

/-! ### Runs -/

variable [TokenHash]

/-- The next command of a call keeps the invariant, what is kept of the call, and what is kept of
the others. -/
theorem sound_next {drawn : String} {call' : CodeCall α} (h : s.Sound) (hcall : call.Asserts i s)
    (hfree : call.Untouched s) (hnext : call.next i drawn s = some (s', call')) :
  s'.Sound ∧ s.Later i s' ∧ call'.Asserts i s'
  := by
  cases call with
  | done answer => cases hnext
  | issueSet payload ttl =>
      cases hnext
      obtain ⟨hsound, hlater⟩ := sound_set (i := i) h (.inl rfl)
      exact ⟨hsound, hlater, trivial⟩
  | reissueGet ttl =>
      simp only [CodeCall.next] at hnext
      split at hnext
      · cases hnext
        exact ⟨h, later_refl, trivial⟩
      · rename_i c hget
        cases hnext
        exact ⟨h, later_refl, le_rfl, fun _ => (h.code c (get_eq_some hget)).2.2⟩
  | reissueSet payload ttl deletions =>
      cases hnext
      obtain ⟨hsound, hlater⟩ := sound_set (i := i) h (.inr ⟨rfl, hcall.2 hfree⟩)
      exact ⟨hsound, hlater, trivial⟩
  | verifyIncr code =>
      rcases hincr : s.incrWindow i with ⟨count, ttl, s₁⟩
      simp only [CodeCall.next, hincr] at hnext
      obtain ⟨hsound, hlater, hguesser, hnew, hcounted, hle⟩ := sound_incrWindow (i := i) h hincr
      split at hnext
      · cases hnext
        exact ⟨hsound, hlater, trivial⟩
      · rename_i hmax
        cases hnext
        exact ⟨hsound, hlater, hguesser, hnew, hcounted, hle, not_lt.mp hmax⟩
  | verifyGet code guess =>
      obtain ⟨hguesser, hnew, hcounted, hle, hmax⟩ := hcall
      simp only [CodeCall.next] at hnext
      split at hnext
      · cases hnext
        exact ⟨h, later_refl, trivial⟩
      · rename_i c hget
        obtain ⟨hsound, hlater⟩ := sound_compared h hguesser hnew hcounted hle hmax
          (hfree (hget ▸ rfl))
        obtain ⟨hid, hnot, hnone⟩ := h.code c (get_eq_some hget)
        split at hnext
        · cases hnext
          exact ⟨hsound, hlater, le_rfl, hid, fun _ => ⟨hnot, hnone⟩⟩
        · cases hnext
          exact ⟨hsound, hlater, trivial⟩
  | verifyDel payload id deletions =>
      obtain ⟨-, hid, hgood⟩ := hcall
      obtain ⟨hnot, hnone⟩ := hgood hfree
      cases hnext
      obtain ⟨hsound, hlater⟩ := sound_del (i := i) h hid hnot hnone
      exact ⟨hsound, hlater, trivial⟩

/-- The codes of a token keep their invariant, and the calls theirs. -/
theorem codes_hold_of_reaches {p : Pool (CodeCache α) (CodeCall α)}
    (h : (codeCalls (α := α)).system.Reaches untouched p) :
  Threads.Holds CodeCache.Sound CodeCall.Asserts p
  := by
  apply Threads.holds_of_reaches _ _ _ h
  · rintro s ⟨hcode, hwindow, hlog⟩
    refine ⟨?_, ?_⟩
    · constructor <;> simp [hcode, hlog, accepts, compares, sinceIssue]
    · rintro i call rfl
      trivial
  · intro p i e s' call' hp hfree hexec
    obtain ⟨hI, hA⟩ := hp
    have hsame : s' = p.shared → call'.Asserts i p.shared →
        s'.Sound ∧ call'.Asserts i s' ∧ ∀ j, j ≠ i → (p.threads j).Asserts j s' := by
      rintro rfl hcall
      exact ⟨hI, hcall, fun j _ => hA j⟩
    cases e with
    | next drawn =>
        obtain ⟨hsound, hlater, hcall⟩ := sound_next hI (hA i) hfree hexec
        exact ⟨hsound, hcall, fun j hj => asserts_of_later hlater hj (hA j)⟩
    | drop =>
        cases hexec
        exact hsame rfl trivial
    | issueFor | reissue | verify =>
        cases hcall : p.threads i with
        | done answer =>
            rw [hcall] at hexec
            cases hexec
            exact hsame rfl trivial
        | issueSet | reissueGet | reissueSet | verifyIncr | verifyGet | verifyDel =>
            rw [hcall] at hexec
            cases hexec
  · intro p seconds s' hp _ henv
    obtain ⟨hI, hA⟩ := hp
    cases henv
    refine ⟨⟨hI.accepted, hI.nodup, hI.once, hI.code, hI.guesses, hI.counted, hI.oneWindow⟩, ?_⟩
    intro j
    have hj := hA j
    cases hcall : p.threads j <;> rw [hcall] at hj <;> exact hj

/-- In runs in which nobody deletes the code between the read and the write of another call, and the
guesses made at one token fall into one window, codes are accepted once, a token is good for one
code, and the guesses are bounded. -/
theorem oneTime_of_reaches {p : Pool (CodeCache α) (CodeCall α)}
    (h : (codeCalls (α := α)).system.Reaches untouched p) :
  OneTime p.shared.log
  := by
  obtain ⟨hsound, -⟩ := codes_hold_of_reaches h
  refine ⟨hsound.nodup, hsound.once, ?_⟩
  cases hgs : compares (sinceIssue p.shared.log) with
  | nil => exact Nat.zero_le _
  | cons g gs =>
      rw [← hgs]
      have hsub : (compares (sinceIssue p.shared.log)).Sublist (compares p.shared.log) :=
        compares_sinceIssue_sublist
      apply length_guesses_le (hsound.guesses.sublist hsub)
      · intro g' hg'
        exact hsound.oneWindow g' hg' g (hgs ▸ List.mem_cons_self)
      · intro g' hg'
        exact (hsound.counted g' (hsub.subset hg')).2

end

/-! ### Two calls to verify -/

instance {α : Type} (s : CodeCache α) : ∀ call : CodeCall α, Decidable (call.Untouched s)
  | .reissueSet _ _ _ | .verifyDel _ _ _ => inferInstanceAs (Decidable (_ = _))
  | .verifyGet _ _ => inferInstanceAs (Decidable (_ → _))
  | .done _ | .issueSet _ _ | .reissueGet _ | .verifyIncr _ => .isTrue trivial

instance {α : Type} (p : Pool (CodeCache α) (CodeCall α)) :
    ∀ l : PoolStep (CodeStep α) ℕ, Decidable (untouched p l)
  | .run i (.next _) => inferInstanceAs (Decidable ((p.threads i).Untouched p.shared))
  | .run _ (.issueFor _ _) | .run _ (.reissue _) | .run _ (.verify _) | .run _ .drop | .env _ =>
    .isTrue trivial

/-- Codes kept as they are. -/
@[reducible]
def plainHash : TokenHash := ⟨fun s => s⟩

/-- A token without a code. -/
def noCode : Pool (CodeCache Unit) (CodeCall Unit) :=
  ⟨⟨0, none, none, 0, 0, 0, fun _ => none, []⟩, fun _ => .done none⟩

theorem init_noCode :
  (@codeCalls Unit plainHash).system.init noCode
  := ⟨⟨rfl, rfl, rfl⟩, fun _ => rfl⟩

/-- A code is issued; a wrong guess, and then the code, are verified. -/
def verifyAgain : List (PoolStep (CodeStep Unit) ℕ) :=
  [.run 0 (.issueFor () 600), .run 0 (.next "123456"),
    .run 1 (.verify "111111"), .run 1 (.next ""), .run 1 (.next ""), .env 5,
    .run 1 (.verify "123 456"), .run 1 (.next ""), .run 1 (.next ""), .run 1 (.next "")]

/-- The code is accepted once, at the second guess. -/
theorem oneTime_verifyAgain :
  ∃ p : Pool (CodeCache Unit) (CodeCall Unit),
    p.shared.log = [.accepted 0, .compared (1, 2), .compared (1, 1), .issued 0]
      ∧ OneTime p.shared.log
  := by
  have hrun : ((@codeCalls Unit plainHash).system.runMeeting untouched noCode verifyAgain).map
      (fun p => p.shared.log) = some [.accepted 0, .compared (1, 2), .compared (1, 1), .issued 0] := by
    decide +kernel
  obtain ⟨p, hp, hlog⟩ := Option.map_eq_some_iff.mp hrun
  exact ⟨p, hlog, @oneTime_of_reaches Unit plainHash p
    (TransitionSystem.reaches_runMeeting init_noCode hp)⟩

/-- A code is issued, and two calls verify it, each reading it before the other has deleted it. -/
def verifyTwice : List (PoolStep (CodeStep Unit) ℕ) :=
  [.run 0 (.issueFor () 600), .run 0 (.next "123456"),
    .run 1 (.verify "123456"), .run 1 (.next ""), .run 1 (.next ""),
    .run 2 (.verify "123456"), .run 2 (.next ""), .run 2 (.next ""),
    .run 1 (.next ""), .run 2 (.next "")]

/-- The code is accepted twice. -/
theorem not_oneTime_verifyTwice :
  ∃ p, (@codeCalls Unit plainHash).system.Reachable p ∧ ¬ OneTime p.shared.log
  := by
  have hrun : ((@codeCalls Unit plainHash).system.run noCode verifyTwice).map
      (fun p => accepts p.shared.log) = some [0, 0] := by
    decide +kernel
  obtain ⟨p, hp, hlog⟩ := Option.map_eq_some_iff.mp hrun
  refine ⟨p, TransitionSystem.Reaches.run (.init init_noCode)
    (TransitionSystem.meets_true noCode verifyTwice) hp, ?_⟩
  intro h
  have hnodup := h.codes
  rw [hlog] at hnodup
  exact absurd hnodup (by decide)

end Termoso.Server
