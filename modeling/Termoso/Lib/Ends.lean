import Termoso.Lib.Transition
import Mathlib.Order.WellFounded

/-!
# Runs that end

`Ends T G Q s` says that every run from `s` whose steps meet `G` is finite and stays in `Q`.  It
holds when there is an invariant the steps keep and a measure they decrease.
-/

universe u v

namespace TransitionSystem

variable {S : Type u} {L : Type v} {T : TransitionSystem S L} {G : S → L → Prop}

/-- Every run from `s` whose steps meet `G` is finite, and `Q` holds in every state of it. -/
inductive Ends (T : TransitionSystem S L) (G : S → L → Prop) (Q : S → Prop) : S → Prop
  | intro {s : S} : Q s → (∀ l s', G s l → T.step s l = some s' → Ends T G Q s') → Ends T G Q s

/-- Runs end when their steps keep an invariant and decrease a measure. -/
theorem ends_of_measure {α : Type*} [LT α] [WellFoundedLT α] (measure : S → α) {I Q : S → Prop}
    (hQ : ∀ s, I s → Q s)
    (hstep : ∀ s l s', I s → G s l → T.step s l = some s' → I s' ∧ measure s' < measure s)
    {s : S} (h : I s) :
  T.Ends G Q s
  := by
  generalize hm : measure s = m
  induction m using WellFoundedLT.induction generalizing s with
  | ind m ih =>
      subst hm
      apply Ends.intro (hQ s h)
      intro l s' hG hs'
      obtain ⟨hI, hlt⟩ := hstep s l s' h hG hs'
      exact ih _ hlt hI rfl

end TransitionSystem
