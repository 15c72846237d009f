import Mathlib.Data.List.Chain

/-!
# Interruptible scripts

A script is a program that reads a store and runs statements, each of which changes the
store at once.  Running it from a store gives the trail of stores its statements leave
behind, in order, and its result: a value, or the error that ended it early.  There is no
enclosing transaction: an error, or an interruption between two statements, leaves the
store as the statements run so far made it.

`stops p s` lists every store the script can be stopped at when started from `s`.
`Triple P R p Q` is a Hoare triple for scripts that can be stopped: started where `P` holds,
every statement takes its store to the next one by the relation `R`, and `Q` holds of the
value returned and of the store it is returned in.
-/

universe u v w

/-- A program over stores of type `σ`, failing with `ε` or returning an `α`: the stores
after each of its statements, and its result. -/
def Script (σ : Type u) (ε : Type v) (α : Type w) := σ → List σ × Except ε α

namespace Script

variable {σ ε α β : Type*}

/-- The stores after each statement of `p` started from `s`. -/
def trail (p : Script σ ε α) (s : σ) : List σ := (p s).1

/-- The value or the error of `p` started from `s`. -/
def result (p : Script σ ε α) (s : σ) : Except ε α := (p s).2

/-- The store `p` started from `s` ends with. -/
def final (p : Script σ ε α) (s : σ) : σ := (p.trail s).getLastD s

/-- The stores at which `p` started from `s` can be stopped: before its first statement,
and after each of them. -/
def stops (p : Script σ ε α) (s : σ) : List σ := s :: p.trail s

/-- Return `a`. -/
def ret (a : α) : Script σ ε α := fun _ => ([], .ok a)

/-- Read the store. -/
def read : Script σ ε σ := fun s => ([], .ok s)

/-- Return the value, or fail with the error, of a computation that changes nothing. -/
def lift (x : Except ε α) : Script σ ε α := fun _ => ([], x)

/-- Run one statement. -/
def exec (f : σ → σ) : Script σ ε Unit := fun s => ([f s], .ok ())

/-- Run one statement that can fail. -/
def attempt (f : σ → Except ε σ) : Script σ ε Unit := fun s =>
  match f s with
  | .ok s' => ([s'], .ok ())
  | .error e => ([], .error e)

/-- Run `p`, then `q` on its value; an error of `p` ends the script. -/
def andThen (p : Script σ ε α) (q : α → Script σ ε β) : Script σ ε β := fun s =>
  match p.result s with
  | .ok a => (p.trail s ++ (q a).trail (p.final s), (q a).result (p.final s))
  | .error e => (p.trail s, .error e)

instance : Monad (Script σ ε) where
  pure := ret
  bind := andThen

/-- Run `f` on the elements of a list, in order. -/
def each (f : β → Script σ ε Unit) : List β → Script σ ε Unit
  | [] => ret ()
  | b :: bs => andThen (f b) (fun _ => each f bs)

section
variable (s : σ) (a : α) (x : Except ε α) (f : σ → σ)

@[simp] theorem result_ret : (ret a : Script σ ε α).result s = .ok a := rfl
@[simp] theorem result_read : (read : Script σ ε σ).result s = .ok s := rfl
@[simp] theorem result_lift : (lift x : Script σ ε α).result s = x := rfl
@[simp] theorem result_exec : (exec f : Script σ ε Unit).result s = .ok () := rfl
@[simp] theorem final_ret : (ret a : Script σ ε α).final s = s := rfl
@[simp] theorem final_read : (read : Script σ ε σ).final s = s := rfl
@[simp] theorem final_lift : (lift x : Script σ ε α).final s = s := rfl
@[simp] theorem final_exec : (exec f : Script σ ε Unit).final s = f s := rfl
@[simp] theorem stops_ret : (ret a : Script σ ε α).stops s = [s] := rfl
@[simp] theorem stops_read : (read : Script σ ε σ).stops s = [s] := rfl
@[simp] theorem stops_lift : (lift x : Script σ ε α).stops s = [s] := rfl
@[simp] theorem stops_exec : (exec f : Script σ ε Unit).stops s = [s, f s] := rfl

@[simp] theorem pure_eq_ret : (pure a : Script σ ε α) = ret a := rfl
@[simp] theorem bind_eq_andThen {σ : Type u} {ε : Type v} {α β : Type w} (p : Script σ ε α)
    (q : α → Script σ ε β) :
  p >>= q = andThen p q
  := rfl

end

variable {p : Script σ ε α} {q : α → Script σ ε β} {s : σ} {a : α} {e : ε}

/-- The last store of a script is one it can be stopped at. -/
theorem final_mem_stops :
  p.final s ∈ p.stops s
  := by
  rw [final, stops, List.getLastD_eq_getLast?]
  cases h : (p.trail s).getLast? with
  | none => simp
  | some s' =>
      apply List.mem_cons_of_mem
      exact List.mem_of_getLast? h

theorem result_andThen_ok (h : p.result s = .ok a) :
  (andThen p q).result s = (q a).result (p.final s)
  := by
  simp [andThen, result] at h ⊢
  simp [h]

theorem result_andThen_error (h : p.result s = .error e) :
  (andThen p q).result s = .error e
  := by
  simp [andThen, result] at h ⊢
  simp [h]

theorem trail_andThen_ok (h : p.result s = .ok a) :
  (andThen p q).trail s = p.trail s ++ (q a).trail (p.final s)
  := by
  simp only [trail, andThen, h]

theorem trail_andThen_error (h : p.result s = .error e) :
  (andThen p q).trail s = p.trail s
  := by
  simp only [trail, andThen, h]

theorem final_andThen_ok (h : p.result s = .ok a) :
  (andThen p q).final s = (q a).final (p.final s)
  := by
  rw [final, trail_andThen_ok h]
  simp only [final, List.getLastD_eq_getLast?, List.getLast?_append]
  cases ((q a).trail _).getLast? <;> simp

theorem final_andThen_error (h : p.result s = .error e) :
  (andThen p q).final s = p.final s
  := by
  rw [final, trail_andThen_error h, final]

/-- A script that succeeds ran its parts to completion. -/
theorem andThen_eq_ok {b : β} :
  (andThen p q).result s = .ok b
    ↔ ∃ a, p.result s = .ok a ∧ (q a).result (p.final s) = .ok b
  := by
  cases h : p.result s with
  | error e => simp [result_andThen_error h]
  | ok a => simp [result_andThen_ok h]

theorem getLast?_stops :
  (p.stops s).getLast? = some (p.final s)
  := by
  rw [stops, final, List.getLast?_cons, List.getLastD_eq_getLast?]

theorem stops_andThen_ok (h : p.result s = .ok a) :
  (andThen p q).stops s = p.stops s ++ (q a).trail (p.final s)
  := by
  rw [stops, trail_andThen_ok h, stops, List.cons_append]

theorem stops_andThen_error (h : p.result s = .error e) :
  (andThen p q).stops s = p.stops s
  := by
  rw [stops, trail_andThen_error h, stops]

/-- A script can be stopped where its first part can. -/
theorem mem_stops_andThen_left {s' : σ} (h : s' ∈ p.stops s) :
  s' ∈ (andThen p q).stops s
  := by
  cases hp : p.result s with
  | error e =>
      rw [stops_andThen_error hp]
      exact h
  | ok a =>
      rw [stops_andThen_ok hp]
      exact List.mem_append_left _ h

/-- A script can be stopped where its second part can, started where the first one ends. -/
theorem mem_stops_andThen_right {s' : σ} (hp : p.result s = .ok a)
    (h : s' ∈ (q a).stops (p.final s)) :
  s' ∈ (andThen p q).stops s
  := by
  rw [stops] at h
  obtain rfl | h := List.mem_cons.mp h
  · exact mem_stops_andThen_left final_mem_stops
  · rw [stops_andThen_ok hp]
    exact List.mem_append_right _ h

/-- Returning a value first changes nothing. -/
theorem andThen_ret :
  andThen (ret a) q = q a
  := by
  funext s
  simp [andThen, ret, result, trail, final]

/-- A loop that passes over elements runs on the others. -/
theorem each_ite {c : β → Prop} [DecidablePred c] {f : β → Script σ ε Unit} {bs : List β} :
  each (fun b => if c b then f b else ret ()) bs = each f (bs.filter (fun b => decide (c b)))
  := by
  induction bs with
  | nil => rfl
  | cons b bs ih =>
      rw [each, List.filter_cons]
      by_cases hb : c b
      · simp only [hb, decide_true, ↓reduceIte, each, ih]
      · simp only [hb, decide_false, Bool.false_eq_true, ↓reduceIte, andThen_ret, ih]

theorem result_attempt_ok {f : σ → Except ε σ} {s' : σ} (h : f s = .ok s') :
  (attempt f).result s = .ok () ∧ (attempt f).final s = s'
  := by
  simp [attempt, result, final, trail, h]

theorem result_attempt_error {f : σ → Except ε σ} (h : f s = .error e) :
  (attempt f).result s = .error e ∧ (attempt f).final s = s
  := by
  simp [attempt, result, final, trail, h]

/-! ### Triples -/

/-- Started where `P` holds, every statement of `p` takes its store to the next one by `R`, and
`Q a` holds where `p` returns `a`. -/
def Triple (P : σ → Prop) (R : σ → σ → Prop) (p : Script σ ε α) (Q : α → σ → Prop) : Prop :=
  ∀ s, P s → (p.stops s).IsChain R ∧ ∀ a, p.result s = .ok a → Q a (p.final s)

namespace Triple

variable {P P' : σ → Prop} {R R' : σ → σ → Prop} {Q Q' : α → σ → Prop} {Q₂ : β → σ → Prop}

theorem ret (h : ∀ s, P s → Q a s) :
  Triple P R (ret a : Script σ ε α) Q
  := by
  intro s hs
  refine ⟨List.isChain_singleton s, ?_⟩
  rintro _ ⟨⟩
  exact h s hs

theorem read :
  Triple P R (read : Script σ ε σ) (fun s₀ s => s₀ = s ∧ P s)
  := by
  intro s hs
  refine ⟨List.isChain_singleton s, ?_⟩
  rintro _ ⟨⟩
  exact ⟨rfl, hs⟩

theorem lift {x : Except ε α} :
  Triple P R (lift x : Script σ ε α) (fun a s => x = .ok a ∧ P s)
  := by
  intro s hs
  refine ⟨List.isChain_singleton s, ?_⟩
  intro a ha
  exact ⟨ha, hs⟩

theorem exec {f : σ → σ} {Q : Unit → σ → Prop} (h : ∀ s, P s → R s (f s) ∧ Q () (f s)) :
  Triple P R (exec f : Script σ ε Unit) Q
  := by
  intro s hs
  obtain ⟨hR, hQ⟩ := h s hs
  refine ⟨List.isChain_pair.mpr hR, ?_⟩
  rintro _ ⟨⟩
  exact hQ

theorem attempt {f : σ → Except ε σ} {Q : Unit → σ → Prop}
    (h : ∀ s s', P s → f s = .ok s' → R s s' ∧ Q () s') :
  Triple P R (attempt f : Script σ ε Unit) Q
  := by
  intro s hs
  cases hf : f s with
  | error e =>
      have hstops : (Script.attempt f : Script σ ε Unit).stops s = [s] := by
        simp [stops, trail, Script.attempt, hf]
      have hresult : (Script.attempt f : Script σ ε Unit).result s = .error e := by
        simp [result, Script.attempt, hf]
      rw [hstops, hresult]
      exact ⟨List.isChain_singleton s, by rintro _ ⟨⟩⟩
  | ok s' =>
      have hstops : (Script.attempt f : Script σ ε Unit).stops s = [s, s'] := by
        simp [stops, trail, Script.attempt, hf]
      have hfinal : (Script.attempt f : Script σ ε Unit).final s = s' := by
        simp [final, trail, Script.attempt, hf]
      obtain ⟨hR, hQ⟩ := h s s' hs hf
      rw [hstops, hfinal]
      exact ⟨List.isChain_pair.mpr hR, fun _ _ => hQ⟩

/-- The rule of sequencing. -/
theorem andThen (hp : Triple P R p Q) (hq : ∀ a, Triple (Q a) R (q a) Q₂) :
  Triple P R (andThen p q) Q₂
  := by
  intro s hs
  obtain ⟨hchain, hpost⟩ := hp s hs
  cases h : p.result s with
  | error e =>
      rw [stops_andThen_error h, result_andThen_error h]
      exact ⟨hchain, by rintro _ ⟨⟩⟩
  | ok a =>
      obtain ⟨hchain', hpost'⟩ := hq a _ (hpost a h)
      rw [stops_andThen_ok h, result_andThen_ok h, final_andThen_ok h]
      refine ⟨?_, hpost'⟩
      apply List.isChain_append.mpr
      refine ⟨hchain, hchain'.tail, ?_⟩
      intro x hx y hy
      rw [getLast?_stops] at hx
      cases hx
      exact hchain'.rel_head? hy

/-- The rule of consequence. -/
theorem mono (h : Triple P R p Q) (hP : ∀ s, P' s → P s) (hR : ∀ s s', R s s' → R' s s')
    (hQ : ∀ a s, Q a s → Q' a s) :
  Triple P' R' p Q'
  := by
  intro s hs
  obtain ⟨hchain, hpost⟩ := h s (hP s hs)
  exact ⟨hchain.imp hR, fun a ha => hQ a _ (hpost a ha)⟩

theorem pre (h : Triple P R p Q) (hP : ∀ s, P' s → P s) :
  Triple P' R p Q
  := h.mono hP (fun _ _ h => h) (fun _ _ h => h)

theorem post (h : Triple P R p Q) (hQ : ∀ a s, Q a s → Q' a s) :
  Triple P R p Q'
  := h.mono (fun _ h => h) (fun _ _ h => h) hQ

/-- The rule of a precondition that some value meets. -/
theorem of_exists {ι : Sort*} {P : ι → σ → Prop} (h : ∀ i, Triple (P i) R p Q) :
  Triple (fun s => ∃ i, P i s) R p Q
  := by
  rintro s ⟨i, hs⟩
  exact h i s hs

/-- The rule of loops, with an invariant about the elements still to come. -/
theorem each {I : List β → σ → Prop} {f : β → Script σ ε Unit} {bs : List β}
    (h : ∀ b rest, b :: rest <:+ bs → Triple (I (b :: rest)) R (f b) (fun _ => I rest)) :
  Triple (I bs) R (each f bs) (fun _ => I [])
  := by
  induction bs with
  | nil => exact ret (fun _ hs => hs)
  | cons b bs ih =>
      apply (h b bs List.suffix_rfl).andThen
      intro _
      exact ih (fun b' rest hsuffix => h b' rest (hsuffix.trans (List.suffix_cons b bs)))

/-- What holds at the start, and is kept by every statement, holds wherever the script is stopped.
-/
theorem at_stops {I : σ → Prop} (h : Triple P R p Q) {s s' : σ} (hs : P s) (hI : I s)
    (hR : ∀ s s', I s → R s s' → I s') (hs' : s' ∈ p.stops s) :
  I s'
  := by
  have hchain := (h s hs).1
  rw [stops] at hchain hs'
  generalize p.trail s = l at hchain hs'
  clear h hs
  induction l generalizing s with
  | nil =>
      rw [List.mem_singleton.mp hs']
      exact hI
  | cons t l ih =>
      rw [List.isChain_cons_cons] at hchain
      rcases List.mem_cons.mp hs' with rfl | hs'
      · exact hI
      · exact ih (hR s t hI hchain.1) hchain.2 hs'

end Triple

end Script
