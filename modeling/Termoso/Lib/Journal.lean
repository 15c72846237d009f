import Mathlib.Data.Option.Basic

/-!
# Journals of unsettled changes

A replica edits its records and later settles the edits with a peer.  A journal notes, under
each key, the last edit that is not settled yet.  It is a history variable: no program reads
it.

What a replica would hand over to its peer under each key is a `view`: the edit waiting there,
or nothing.  The journal is `Kept` when every edit it notes is still waiting.  An edit of the
replica is recorded in the journal; an answer of the peer settles the edits it covers.
-/

universe u v

/-- The last unsettled edit under each key. -/
abbrev Journal (K : Type u) (C : Type v) := K → Option C

namespace Journal

variable {K : Type u} {C : Type v}

/-- Every unsettled edit is still waiting. -/
def Kept (view : K → Option C) (j : Journal K C) : Prop :=
  ∀ k c, j k = some c → view k = some c

/-- Note what waits under the keys just edited. -/
def record (edited : K → Prop) [DecidablePred edited] (view : K → Option C) (j : Journal K C) :
    Journal K C :=
  fun k => if edited k then view k else j k

/-- Drop the edit under `k` when an answer covers it. -/
def settle [DecidableEq K] (k : K) (covered : C → Bool) (j : Journal K C) : Journal K C :=
  fun k' => if k' = k then (j k').filter (fun c => !covered c) else j k'

variable {view view' : K → Option C} {j : Journal K C}

/-- Edits keep the journal, when they leave the keys not edited alone. -/
theorem Kept.record {edited : K → Prop} [DecidablePred edited] (h : Kept view j)
    (hrest : ∀ k, ¬ edited k → view' k = view k) :
  Kept view' (j.record edited view')
  := by
  intro k c hc
  rw [Journal.record] at hc
  split at hc
  · exact hc
  · rename_i hk
    rw [hrest k hk]
    exact h k c hc

/-- An answer keeps the journal, when it leaves the edits at other keys, and the edit at its own key
unless it covers that edit. -/
theorem Kept.settle [DecidableEq K] {k : K} {covered : C → Bool} (h : Kept view j)
    (hother : ∀ k' c, k' ≠ k → view k' = some c → view' k' = some c)
    (hown : ∀ c, view k = some c → j k = some c → covered c = false → view' k = some c) :
  Kept view' (j.settle k covered)
  := by
  intro k' c hc
  rw [Journal.settle] at hc
  split at hc
  · rename_i hk
    subst hk
    obtain ⟨hc, hcov⟩ := Option.filter_eq_some_iff.mp hc
    exact hown c (h k' c hc) hc (by simpa using hcov)
  · rename_i hk
    exact hother k' c hk (h k' c hc)

/-- Settling does not note new edits. -/
theorem of_settle [DecidableEq K] {k k' : K} {covered : C → Bool} {c : C}
    (h : j.settle k covered k' = some c) :
  j k' = some c
  := by
  rw [Journal.settle] at h
  split at h
  · exact (Option.filter_eq_some_iff.mp h).1
  · exact h

end Journal
