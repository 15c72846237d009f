import Mathlib.Data.List.Basic

/-!
# Traces

What a system does is recorded in a trace, the latest event last.  A trace is proper when every
event of it is in order after the events before it.
-/

universe u

namespace Trace

variable {α : Type u} {ok : List α → α → Prop} {tr : List α} {e : α}

/-- Every event is in order after those before it. -/
def Proper (ok : List α → α → Prop) (tr : List α) : Prop :=
  ∀ before e after, tr = before ++ e :: after → ok before e

theorem proper_nil :
  Proper ok []
  := by
  intro before e after h
  exact absurd h.symm (List.append_ne_nil_of_right_ne_nil before (List.cons_ne_nil e after))

/-- A trace stays proper when the next event is in order. -/
theorem proper_snoc :
  Proper ok (tr ++ [e]) ↔ Proper ok tr ∧ ok tr e
  := by
  constructor
  · intro h
    refine ⟨fun before e' after htr => ?_, h tr e [] rfl⟩
    apply h before e' (after ++ [e])
    rw [htr, List.append_assoc, List.cons_append]
  · rintro ⟨htr, he⟩ before e' after heq
    rcases List.eq_nil_or_concat after with rfl | ⟨after, e'', rfl⟩
    · obtain ⟨rfl, hlast⟩ := List.append_inj' heq rfl
      cases hlast
      exact he
    · rw [List.concat_eq_append, ← List.cons_append, ← List.append_assoc] at heq
      obtain ⟨rfl, -⟩ := List.append_inj' heq rfl
      exact htr before e' after rfl

end Trace
