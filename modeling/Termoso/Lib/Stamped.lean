import Termoso.Lib.Table
import Mathlib.Data.Int.Order.Basic

/-!
# Tables stamped from counters

Every record of a table belongs to a group and carries a stamp, a number drawn from the
counter of its group when the record was last written.  In such a table stamps are bounded
by the counters and distinct within a group, so that a group can be read in the order of its
stamps.
-/

universe u v w

namespace Table

variable {R : Type u} {K : Type v} {G : Type w} [Keyed R K]

/-- Stamps are at most the counter of their group, and distinct within it. -/
structure Stamped (t : Table R) (group : R → G) (stamp : R → ℤ) (counter : G → ℤ) : Prop where
  le : ∀ r ∈ t.rows, stamp r ≤ counter (group r)
  inj : ∀ r ∈ t.rows, ∀ r' ∈ t.rows, group r = group r' → stamp r = stamp r' → r = r'

variable {t t' : Table R} {group : R → G} {stamp : R → ℤ} {counter counter' : G → ℤ}

theorem stamped_empty :
  (empty : Table R).Stamped group stamp counter
  where
    le := by simp [empty]
    inj := by simp [empty]

/-- A record written with the next value of its counter keeps the table stamped. -/
theorem Stamped.put [DecidableEq K] (h : t.Stamped group stamp counter) {r : R}
    (hget : ∀ k, t'.get? k = if k = key r then some r else t.get? k)
    (hcounter : ∀ g, counter g ≤ counter' g) (hstamp : stamp r = counter' (group r))
    (hnext : counter (group r) < counter' (group r)) :
  t'.Stamped group stamp counter'
  := by
  have hmem : ∀ r' ∈ t'.rows, r' = r ∨ r' ∈ t.rows := by
    intro r' hr'
    have hr' := get?_of_mem hr'
    rw [hget] at hr'
    split at hr'
    · cases hr'
      exact .inl rfl
    · exact .inr (mem_of_get? hr')
  have hold : ∀ r' ∈ t.rows, group r' = group r → stamp r' < stamp r := by
    intro r' hr' hg
    have hle := h.le r' hr'
    rw [hg] at hle
    omega
  constructor
  · intro r' hr'
    rcases hmem r' hr' with rfl | hr'
    · omega
    · have := h.le r' hr'
      have := hcounter (group r')
      omega
  · intro r₁ h₁ r₂ h₂ hg hs
    rcases hmem r₁ h₁ with rfl | h₁ <;> rcases hmem r₂ h₂ with rfl | h₂
    · rfl
    · have := hold r₂ h₂ hg.symm
      omega
    · have := hold r₁ h₁ hg
      omega
    · exact h.inj r₁ h₁ r₂ h₂ hg hs

/-- The stamps of one group are distinct. -/
theorem Stamped.nodup_select [DecidableEq G] (h : t.Stamped group stamp counter) (g : G) :
  ((t.select (fun r => decide (group r = g))).map stamp).Nodup
  := by
  apply (List.Nodup.filter _ t.nodup.of_map).map_on
  intro r hr r' hr'
  simp only [List.mem_filter, decide_eq_true_eq] at hr hr'
  exact h.inj r hr.1 r' hr'.1 (hr.2.trans hr'.2.symm)

end Table
