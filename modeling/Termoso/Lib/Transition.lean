import Mathlib.Data.Option.Basic

/-!
# Transition systems

A transition system has a set of initial states and a guarded step function: `step s l` is
the state after the step labelled `l`, or `none` when that step is not enabled at `s`.

`Reaches T G s` says that `s` is reached by a run all of whose steps meet the guard `G`, a
condition on a state and on the label of the step taken from it.  With the guard that
always holds these are the reachable states.  `Reaches.invariant` is the induction
principle: what holds initially and is kept by the guarded steps holds in every state
so reached.
-/

universe u v

/-- A transition system on states `S` with step labels `L`. -/
structure TransitionSystem (S : Type u) (L : Type v) where
  init : S → Prop
  step : S → L → Option S

namespace TransitionSystem

variable {S : Type u} {L : Type v} {T : TransitionSystem S L} {G : S → L → Prop}

/-- The states reached by runs whose steps all meet `G`. -/
inductive Reaches (T : TransitionSystem S L) (G : S → L → Prop) : S → Prop
  | init {s : S} : T.init s → Reaches T G s
  | step {s s' : S} {l : L} : Reaches T G s → G s l → T.step s l = some s' → Reaches T G s'

/-- The states reached by any run. -/
abbrev Reachable (T : TransitionSystem S L) : S → Prop := T.Reaches (fun _ _ => True)

/-- What holds initially and is kept by every step that meets `G` holds in every state
reached by such steps. -/
theorem Reaches.invariant {I : S → Prop} (hinit : ∀ s, T.init s → I s)
    (hstep : ∀ s l s', I s → G s l → T.step s l = some s' → I s') {s : S}
    (h : T.Reaches G s) :
  I s
  := by
  induction h with
  | init h => exact hinit _ h
  | step _ hG hs ih => exact hstep _ _ _ ih hG hs

/-- A run whose steps meet a guard meets every weaker guard. -/
theorem Reaches.mono {G' : S → L → Prop} (hG : ∀ s l, G s l → G' s l) {s : S}
    (h : T.Reaches G s) :
  T.Reaches G' s
  := by
  induction h with
  | init h => exact .init h
  | step _ hs hstep ih => exact .step ih (hG _ _ hs) hstep

/-- Take the steps labelled `ls`, one after the other. -/
def run (T : TransitionSystem S L) : S → List L → Option S
  | s, [] => some s
  | s, l :: ls => (T.step s l).bind (fun s' => run T s' ls)

/-- Every step of the run labelled `ls` meets a guard. -/
def Meets (T : TransitionSystem S L) (G : S → L → Prop) : S → List L → Prop
  | _, [] => True
  | s, l :: ls => G s l ∧ ∀ s', T.step s l = some s' → Meets T G s' ls

/-- The end of a run whose steps meet a guard is reached. -/
theorem Reaches.run {s : S} (h : T.Reaches G s) {ls : List L} (hmeets : T.Meets G s ls) {s' : S}
    (hrun : T.run s ls = some s') :
  T.Reaches G s'
  := by
  induction ls generalizing s with
  | nil =>
      cases hrun
      exact h
  | cons l ls ih =>
      obtain ⟨s₁, hs₁, hrun⟩ := Option.bind_eq_some_iff.mp hrun
      exact ih (.step h hmeets.1 hs₁) (hmeets.2 s₁ hs₁) hrun

theorem meets_true (s : S) (ls : List L) :
  T.Meets (fun _ _ => True) s ls
  := by
  induction ls generalizing s with
  | nil => trivial
  | cons l ls ih => exact ⟨trivial, fun s' _ => ih s'⟩

/-- The end of a run from an initial state, computed, is reachable. -/
theorem reachable_run {s : S} (h : T.init s) {ls : List L} (hrun : (T.run s ls).isSome) :
  T.Reachable ((T.run s ls).get hrun)
  := Reaches.run (.init h) (meets_true s ls) (Option.some_get hrun).symm

section
variable [∀ s l, Decidable (G s l)]

/-- Take the steps labelled `ls`, each of which must meet a guard. -/
def runMeeting (T : TransitionSystem S L) (G : S → L → Prop) [∀ s l, Decidable (G s l)] :
    S → List L → Option S
  | s, [] => some s
  | s, l :: ls => if G s l then (T.step s l).bind (fun s' => runMeeting T G s' ls) else none

/-- A run whose steps meet a guard is a run. -/
theorem run_of_runMeeting {s : S} {ls : List L} {s' : S} (hrun : T.runMeeting G s ls = some s') :
  T.run s ls = some s'
  := by
  induction ls generalizing s with
  | nil => exact hrun
  | cons l ls ih =>
      rw [runMeeting] at hrun
      split at hrun
      · obtain ⟨s₁, hs₁, hrun⟩ := Option.bind_eq_some_iff.mp hrun
        exact Option.bind_eq_some_iff.mpr ⟨s₁, hs₁, ih hrun⟩
      · cases hrun

/-- The steps of a run that was computed under a guard meet it. -/
theorem meets_of_runMeeting {s : S} {ls : List L} {s' : S} (hrun : T.runMeeting G s ls = some s') :
  T.Meets G s ls
  := by
  induction ls generalizing s with
  | nil => trivial
  | cons l ls ih =>
      rw [runMeeting] at hrun
      split at hrun
      · rename_i hG
        obtain ⟨s₁, hs₁, hrun⟩ := Option.bind_eq_some_iff.mp hrun
        refine ⟨hG, fun s₂ hs₂ => ?_⟩
        cases hs₁.symm.trans hs₂
        apply ih hrun
      · cases hrun

/-- The end of a run from an initial state whose steps meet a guard, computed, is reached. -/
theorem reaches_runMeeting {s : S} (h : T.init s) {ls : List L} {s' : S}
    (hrun : T.runMeeting G s ls = some s') :
  T.Reaches G s'
  := by
  have hreach : T.Reaches G s := .init h
  clear h
  induction ls generalizing s with
  | nil =>
      cases hrun
      exact hreach
  | cons l ls ih =>
      rw [runMeeting] at hrun
      split at hrun
      · rename_i hG
        obtain ⟨s₁, hs₁, hrun⟩ := Option.bind_eq_some_iff.mp hrun
        exact ih hrun (.step hreach hG hs₁)
      · cases hrun

end

end TransitionSystem
