import Mathlib.Data.List.Infix
import Mathlib.Data.Nat.Notation

/-!
# Programs with faults

A program over a store runs statements, each of which may fail or be the last one before the
program is stopped.  What becomes of each statement is told by a list of fates; after its end
nothing goes wrong.  A write that fails, or is the last, may be done in part.

`Triple F P p Q E X` is a Hoare triple for such programs, when the fates meet `F`: started where
`P` holds, `Q` holds where the program returns a value, `E` where it returns an error, and `X`
where it is stopped.
-/

/-- What becomes of a statement. -/
inductive Fate
  /-- It is done. -/
  | done
  /-- It fails, after some part of it is done. -/
  | fails (part : ℕ)
  /-- It is the last, and some part of it is done. -/
  | stops (part : ℕ)
deriving DecidableEq

/-- How a program ends. -/
inductive Outcome (ε α : Type)
  | ok (a : α)
  | error (e : ε)
  | stopped
deriving DecidableEq

/-- A program over stores of type `σ`, which returns an `α` or an error. -/
def Faulty (σ ε α : Type) := σ → List Fate → Outcome ε α × σ × List Fate

namespace Faulty

variable {σ ε α β : Type}

/-- Return `a`. -/
def ret (a : α) : Faulty σ ε α := fun s fates => (.ok a, s, fates)

/-- Run `p`, then `q` on its value; an error of `p` ends the program. -/
def andThen (p : Faulty σ ε α) (q : α → Faulty σ ε β) : Faulty σ ε β := fun s fates =>
  match p s fates with
  | (.ok a, s, fates) => q a s fates
  | (.error e, s, fates) => (.error e, s, fates)
  | (.stopped, s, fates) => (.stopped, s, fates)

instance : Monad (Faulty σ ε) where
  pure := ret
  bind := andThen

@[simp] theorem pure_eq_ret (a : α) : (pure a : Faulty σ ε α) = ret a := rfl
@[simp] theorem bind_eq_andThen (p : Faulty σ ε α) (q : α → Faulty σ ε β) :
  p >>= q = andThen p q
  := rfl

/-- Read the store. -/
def read : Faulty σ ε σ := fun s fates => (.ok s, s, fates)

/-- Return the value, or fail with the error, of a computation that changes nothing. -/
def lift (x : Except ε α) : Faulty σ ε α := fun s fates =>
  match x with
  | .ok a => (.ok a, s, fates)
  | .error e => (.error e, s, fates)

/-- Run `p`, and return its error as a value. -/
def attempt (p : Faulty σ ε α) : Faulty σ ε (Except ε α) := fun s fates =>
  match p s fates with
  | (.ok a, s, fates) => (.ok (.ok a), s, fates)
  | (.error e, s, fates) => (.ok (.error e), s, fates)
  | (.stopped, s, fates) => (.stopped, s, fates)

/-- A statement that is done at once or not at all, and fails with `e` if it does. -/
def call (e : ε) (f : σ → Except ε (α × σ)) : Faulty σ ε α := fun s fates =>
  let done (fates : List Fate) :=
    match f s with
    | .ok (a, s') => (.ok a, s', fates)
    | .error e => (.error e, s, fates)
  match fates with
  | [] => done []
  | .done :: fates => done fates
  | .fails _ :: fates => (.error e, s, fates)
  | .stops part :: fates => (.stopped, if part = 0 then s else (done fates).2.1, fates)

/-- A write of `len` letters, after `n` of which the store is `f n`. -/
def write (e : ε) (len : ℕ) (f : ℕ → σ → σ) : Faulty σ ε Unit := fun s fates =>
  match fates with
  | [] => (.ok (), f len s, [])
  | .done :: fates => (.ok (), f len s, fates)
  | .fails n :: fates => (.error e, f (min n len) s, fates)
  | .stops n :: fates => (.stopped, f (min n len) s, fates)

theorem read_andThen (q : σ → Faulty σ ε β) (s : σ) (fates : List Fate) :
  andThen read q s fates = q s s fates
  := rfl

theorem lift_ok_andThen (a : α) (q : α → Faulty σ ε β) (s : σ) (fates : List Fate) :
  andThen (lift (.ok a)) q s fates = q a s fates
  := rfl

theorem lift_error_andThen (e : ε) (q : α → Faulty σ ε β) (s : σ) (fates : List Fate) :
  andThen (lift (.error e)) q s fates = (.error e, s, fates)
  := rfl

/-- A program that is not stopped in its first statement goes on after it, or the statement fails. -/
theorem call_andThen_cases {e : ε} {f : σ → Except ε (α × σ)} {q : α → Faulty σ ε β} {s : σ}
    {fates : List Fate} (h : (andThen (call e f) q s fates).1 ≠ .stopped) :
  (∃ a s', f s = .ok (a, s') ∧ (∀ fate ∈ fates[0]?, fate = .done)
      ∧ andThen (call e f) q s fates = q a s' fates.tail)
    ∨ ∃ e', (f s = .error e' ∨ ∃ n, fates[0]? = some (.fails n))
      ∧ andThen (call e f) q s fates = (.error e', s, fates.tail)
  := by
  have hdone : ∀ fates' : List Fate, fates' = fates.tail → (∀ fate ∈ fates[0]?, fate = .done) →
      andThen (call e f) q s fates = (match (match f s with
        | .ok (a, s') => ((.ok a, s', fates') : Outcome ε α × σ × List Fate)
        | .error e => (.error e, s, fates')) with
        | (.ok a, s, fates) => q a s fates
        | (.error e, s, fates) => (.error e, s, fates)
        | (.stopped, s, fates) => (.stopped, s, fates)) →
      (∃ a s', f s = .ok (a, s') ∧ (∀ fate ∈ fates[0]?, fate = .done)
          ∧ andThen (call e f) q s fates = q a s' fates.tail)
        ∨ ∃ e', (f s = .error e' ∨ ∃ n, fates[0]? = some (.fails n))
          ∧ andThen (call e f) q s fates = (.error e', s, fates.tail) := by
    rintro _ rfl hfate heq
    cases hf : f s with
    | ok r =>
        rw [hf] at heq
        exact .inl ⟨r.1, r.2, rfl, hfate, heq⟩
    | error e' =>
        rw [hf] at heq
        exact .inr ⟨e', .inl rfl, heq⟩
  cases fates with
  | nil =>
      apply hdone [] rfl
      · intro fate hfate
        cases hfate
      · rfl
  | cons fate fates =>
      cases fate with
      | done =>
          apply hdone fates rfl
          · intro fate hfate
            cases hfate
            rfl
          · rfl
      | fails n => exact .inr ⟨e, .inr ⟨n, rfl⟩, rfl⟩
      | stops n => exact absurd rfl h

/-- What holds where a program ends. -/
def Ends (Q : α → σ → Prop) (E X : σ → Prop) : Outcome ε α × σ × List Fate → Prop
  | (.ok a, s, _) => Q a s
  | (.error _, s, _) => E s
  | (.stopped, s, _) => X s

/-- A Hoare triple for programs with faults. -/
def Triple (F : Fate → Prop) (P : σ → Prop) (p : Faulty σ ε α) (Q : α → σ → Prop)
    (E X : σ → Prop) : Prop :=
  ∀ s fates, P s → (∀ f ∈ fates, F f) → (p s fates).2.2 <:+ fates ∧ Ends Q E X (p s fates)

namespace Triple

variable {F : Fate → Prop} {P P' : σ → Prop} {p : Faulty σ ε α} {q : α → Faulty σ ε β}
  {Q Q' : α → σ → Prop} {Q₂ : β → σ → Prop} {E E' X X' : σ → Prop} {a : α} {e : ε}

theorem ret (h : ∀ s, P s → Q a s) :
  Triple F P (ret a : Faulty σ ε α) Q E X
  := fun s _ hs _ => ⟨List.suffix_rfl, h s hs⟩

theorem read :
  Triple F P (read : Faulty σ ε σ) (fun a s => a = s ∧ P s) E X
  := fun _ _ hs _ => ⟨List.suffix_rfl, rfl, hs⟩

theorem lift {x : Except ε α} (hok : ∀ s a, P s → x = .ok a → Q a s)
    (herror : ∀ s e, P s → x = .error e → E s) :
  Triple F P (lift x : Faulty σ ε α) Q E X
  := by
  intro s fates hs _
  cases x with
  | ok a => exact ⟨List.suffix_rfl, hok s a hs rfl⟩
  | error e => exact ⟨List.suffix_rfl, herror s e hs rfl⟩

/-- A sequence: what holds after the first program is where the second one starts. -/
theorem andThen {R : α → σ → Prop} (hp : Triple F P p R E X)
    (hq : ∀ a, Triple F (R a) (q a) Q₂ E X) :
  Triple F P (andThen p q) Q₂ E X
  := by
  intro s fates hs hfates
  obtain ⟨hsuffix, hends⟩ := hp s fates hs hfates
  rw [Faulty.andThen]
  split
  · rename_i a s' fates' heq
    rw [heq] at hsuffix hends
    obtain ⟨hsuffix', hends'⟩ := hq a s' fates' hends (fun f hf => hfates f (hsuffix.subset hf))
    exact ⟨hsuffix'.trans hsuffix, hends'⟩
  · rename_i e s' fates' heq
    rw [heq] at hsuffix hends
    exact ⟨hsuffix, hends⟩
  · rename_i s' fates' heq
    rw [heq] at hsuffix hends
    exact ⟨hsuffix, hends⟩

/-- An error that is caught is a value. -/
theorem attempt (hp : Triple F P p Q E X) :
  Triple F P (attempt p) (fun r s => (∀ a, r = .ok a → Q a s) ∧ ∀ e, r = .error e → E s) E' X
  := by
  intro s fates hs hfates
  obtain ⟨hsuffix, hends⟩ := hp s fates hs hfates
  rw [Faulty.attempt]
  split
  · rename_i a s' fates' heq
    rw [heq] at hsuffix hends
    refine ⟨hsuffix, ?_, ?_⟩
    · rintro a ⟨⟩
      exact hends
    · rintro e ⟨⟩
  · rename_i e s' fates' heq
    rw [heq] at hsuffix hends
    refine ⟨hsuffix, ?_, ?_⟩
    · rintro a ⟨⟩
    · rintro e ⟨⟩
      exact hends
  · rename_i s' fates' heq
    rw [heq] at hsuffix hends
    exact ⟨hsuffix, hends⟩

/-- A statement that is done at once or not at all. -/
theorem call {f : σ → Except ε (α × σ)} (hok : ∀ s a s', P s → f s = .ok (a, s') → Q a s')
    (herror : ∀ s e, P s → f s = .error e → E s) (hfails : ∀ n s, F (.fails n) → P s → E s)
    (hstops : ∀ n s, F (.stops n) → P s → X s ∧ ∀ a s', f s = .ok (a, s') → X s') :
  Triple F P (call e f) Q E X
  := by
  intro s fates hs hfates
  have hdone : ∀ fates : List Fate, Ends Q E X (match f s with
      | .ok (a, s') => (Outcome.ok a, s', fates)
      | .error e => (.error e, s, fates)) := by
    intro fates
    split
    · rename_i a s' heq
      exact hok s a s' hs heq
    · rename_i e heq
      exact herror s e hs heq
  have hleft : ∀ fates : List Fate, (match f s with
      | .ok (a, s') => (Outcome.ok a, s', fates)
      | .error e => (.error e, s, fates)).2.2 = fates := by
    intro fates
    split
    · rfl
    · rfl
  cases fates with
  | nil => exact ⟨(hleft []).symm ▸ List.suffix_rfl, hdone []⟩
  | cons fate fates =>
      have hfate := hfates fate List.mem_cons_self
      cases fate with
      | done => exact ⟨(hleft fates).symm ▸ List.suffix_cons _ _, hdone fates⟩
      | fails n => exact ⟨List.suffix_cons _ _, hfails n s hfate hs⟩
      | stops n =>
          refine ⟨List.suffix_cons _ _, ?_⟩
          obtain ⟨hbefore, hafter⟩ := hstops n s hfate hs
          change X (if n = 0 then s else _)
          split
          · exact hbefore
          · cases heq : f s with
            | ok r => exact hafter r.1 r.2 heq
            | error e => exact hbefore

/-- A statement that keeps something, whatever becomes of it. -/
theorem call_keeps {f : σ → Except ε (α × σ)} (h : ∀ s a s', P s → f s = .ok (a, s') → P s') :
  Triple F P (Faulty.call e f) (fun _ => P) P P
  := by
  apply call
  · exact h
  · exact fun _ _ hs _ => hs
  · exact fun _ _ _ hs => hs
  · exact fun _ s _ hs => ⟨hs, fun a s' => h s a s' hs⟩

/-- A write, done in part when it fails or is the last. -/
theorem write {len : ℕ} {f : ℕ → σ → σ} {Q : Unit → σ → Prop} (hdone : ∀ s, P s → Q () (f len s))
    (hfails : ∀ n s, F (.fails n) → P s → E (f (min n len) s))
    (hstops : ∀ n s, F (.stops n) → P s → X (f (min n len) s)) :
  Triple F P (write e len f) Q E X
  := by
  intro s fates hs hfates
  cases fates with
  | nil => exact ⟨List.suffix_rfl, hdone s hs⟩
  | cons fate fates =>
      have hfate := hfates fate List.mem_cons_self
      cases fate with
      | done => exact ⟨List.suffix_cons _ _, hdone s hs⟩
      | fails n => exact ⟨List.suffix_cons _ _, hfails n s hfate hs⟩
      | stops n => exact ⟨List.suffix_cons _ _, hstops n s hfate hs⟩

theorem pre (h : Triple F P p Q E X) (hP : ∀ s, P' s → P s) :
  Triple F P' p Q E X
  := fun s fates hs hfates => h s fates (hP s hs) hfates

theorem post (h : Triple F P p Q E X) (hQ : ∀ a s, Q a s → Q' a s) (hE : ∀ s, E s → E' s)
    (hX : ∀ s, X s → X' s) :
  Triple F P p Q' E' X'
  := by
  intro s fates hs hfates
  obtain ⟨hsuffix, hends⟩ := h s fates hs hfates
  refine ⟨hsuffix, ?_⟩
  revert hends
  rcases p s fates with ⟨_ | _ | _, s', fates'⟩
  · exact hQ _ s'
  · exact hE s'
  · exact hX s'

/-- A program can be verified from one store at a time. -/
theorem of_each (h : ∀ s, P s → Triple F (fun s' => s' = s) p Q E X) :
  Triple F P p Q E X
  := fun s fates hs hfates => h s hs s fates rfl hfates

/-- Read the store, and go on knowing it. -/
theorem read_bind {r : σ → Faulty σ ε β} (h : ∀ s, P s → Triple F (fun s' => s' = s) (r s) Q₂ E X) :
  Triple F P (Faulty.read >>= r) Q₂ E X
  := by
  apply of_each
  intro s hs
  apply andThen read
  rintro s'
  apply of_each
  rintro _ ⟨rfl, rfl⟩
  exact h s' hs

/-- A program whose value does not matter, before another. -/
theorem seq {R : σ → Prop} (hp : Triple F P p (fun _ => R) E X)
    (hq : ∀ a, Triple F R (q a) Q₂ E X) :
  Triple F P (p >>= q) Q₂ E X
  := andThen hp hq

end Triple

end Faulty
