import Termoso.Lib.Transition
import Mathlib.Data.Nat.Notation
import Mathlib.Logic.Function.Basic

/-!
# Threads over a shared state

Any number of threads, each with a local state, take steps on a state they share.  A step of a
thread is labelled by what is not up to the thread; the surroundings may change the shared
state as well.

A proof about all runs gives an invariant of the shared state and an assertion for each thread,
which may speak of the shared state.  A step of a thread keeps the invariant, meets the
assertion of the thread, and does not invalidate the assertions of the others.
-/

universe u v w x

/-- A shared state, and the local states of the threads. -/
structure Pool (σ : Type u) (τ : Type v) where
  shared : σ
  threads : ℕ → τ

/-- A step of a thread, or of the surroundings. -/
inductive PoolStep (ε : Type w) (χ : Type x)
  | run (thread : ℕ) (e : ε)
  | env (x : χ)

/-- How threads start and take steps, and what the surroundings may do. -/
structure Threads (σ : Type u) (τ : Type v) (ε : Type w) (χ : Type x) where
  init : σ → Prop
  start : τ → Prop
  exec : ℕ → ε → σ → τ → Option (σ × τ)
  env : χ → σ → Option σ

namespace Threads

variable {σ : Type u} {τ : Type v} {ε : Type w} {χ : Type x} (P : Threads σ τ ε χ)

/-- The pool after a step, when the step is possible. -/
def step (p : Pool σ τ) : PoolStep ε χ → Option (Pool σ τ)
  | .run i e =>
    (P.exec i e p.shared (p.threads i)).map (fun q => ⟨q.1, Function.update p.threads i q.2⟩)
  | .env x => (P.env x p.shared).map (fun s => ⟨s, p.threads⟩)

/-- The runs of a pool of threads. -/
def system : TransitionSystem (Pool σ τ) (PoolStep ε χ) where
  init p := P.init p.shared ∧ ∀ i, P.start (p.threads i)
  step := P.step

variable {P} {G : Pool σ τ → PoolStep ε χ → Prop} {I : σ → Prop} {A : ℕ → σ → τ → Prop}
  {p p' : Pool σ τ}

/-- The invariant of the shared state holds, and the assertion of each thread. -/
def Holds (I : σ → Prop) (A : ℕ → σ → τ → Prop) (p : Pool σ τ) : Prop :=
  I p.shared ∧ ∀ i, A i p.shared (p.threads i)

/-- A step of a thread keeps what holds of the pool, when it keeps the invariant, meets the
assertion of the thread and leaves those of the others valid. -/
theorem holds_run {i : ℕ} {s' : σ} {t' : τ} (hI : I s') (hA : A i s' t')
    (hothers : ∀ j, j ≠ i → A j s' (p.threads j)) :
  Holds I A ⟨s', Function.update p.threads i t'⟩
  := by
  refine ⟨hI, fun j => ?_⟩
  by_cases hj : j = i
  · subst hj
    simp only [Function.update_self]
    exact hA
  · simp only [Function.update_of_ne hj]
    exact hothers j hj

/-- What the steps keep holds in every state reached. -/
theorem holds_of_reaches (hinit : ∀ s, P.init s → I s ∧ ∀ i t, P.start t → A i s t)
    (hrun : ∀ p i e s' t', Holds I A p → G p (.run i e) →
      P.exec i e p.shared (p.threads i) = some (s', t') →
        I s' ∧ A i s' t' ∧ ∀ j, j ≠ i → A j s' (p.threads j))
    (henv : ∀ p x s', Holds I A p → G p (.env x) → P.env x p.shared = some s' →
      I s' ∧ ∀ j, A j s' (p.threads j))
    (h : P.system.Reaches G p) :
  Holds I A p
  := by
  apply h.invariant
  · rintro p ⟨hp, hstart⟩
    obtain ⟨hI, hA⟩ := hinit _ hp
    exact ⟨hI, fun i => hA i _ (hstart i)⟩
  · intro p l p' hp hG hstep
    cases l with
    | run i e =>
        obtain ⟨⟨s', t'⟩, hexec, rfl⟩ := Option.map_eq_some_iff.mp hstep
        obtain ⟨hI, hA, hothers⟩ := hrun p i e s' t' hp hG hexec
        exact holds_run hI hA hothers
    | env x =>
        obtain ⟨s', henv', rfl⟩ := Option.map_eq_some_iff.mp hstep
        exact henv p x s' hp hG henv'

/-! ### One thread on its own -/

/-- A step of a thread, or of the surroundings. -/
def Of (i : ℕ) : PoolStep ε χ → Prop
  | .run j _ => j = i
  | .env _ => True

instance (i : ℕ) : ∀ l : PoolStep ε χ, Decidable (Of i l)
  | .run j _ => inferInstanceAs (Decidable (j = i))
  | .env _ => .isTrue trivial

/-- A run of one thread meets a guard when its steps meet what the guard asks for while the others are
idle. -/
theorem reaches_alone {i : ℕ} {idle : τ} {G₀ : Pool σ τ → PoolStep ε χ → Prop}
    [∀ p l, Decidable (G₀ p l)]
    (hG : ∀ p l, Of i l → (∀ j, j ≠ i → p.threads j = idle) → G₀ p l → G p l)
    (h : P.system.Reaches G p) (hidle : ∀ j, j ≠ i → p.threads j = idle)
    {ls : List (PoolStep ε χ)} (hls : ∀ l ∈ ls, Of i l)
    (hrun : P.system.runMeeting G₀ p ls = some p') :
  P.system.Reaches G p'
  := by
  induction ls generalizing p with
  | nil =>
      cases hrun
      exact h
  | cons l ls ih =>
      rw [TransitionSystem.runMeeting] at hrun
      split at hrun
      · rename_i hmeets
        obtain ⟨p₁, hstep, hrun⟩ := Option.bind_eq_some_iff.mp hrun
        have hl := hls l List.mem_cons_self
        have hreach := TransitionSystem.Reaches.step h (hG p l hl hidle hmeets) hstep
        refine ih hreach ?_ (fun l' hl' => hls l' (List.mem_cons_of_mem _ hl')) hrun
        intro j hj
        cases l with
        | run k e =>
            obtain ⟨q, -, rfl⟩ := Option.map_eq_some_iff.mp hstep
            have hk : k = i := hl
            subst hk
            simp only [Function.update_of_ne hj]
            exact hidle j hj
        | env x =>
            obtain ⟨s', -, rfl⟩ := Option.map_eq_some_iff.mp hstep
            exact hidle j hj
      · cases hrun

end Threads
