import Mathlib.Data.List.Infix

/-!
# Where a sequence occurs in another

A sequence, the needle, occurs in another at the indices where the rest starts with it.  What is
put before or behind moves the places where it occurs, or leaves them, except where the seam runs
through the needle.
-/

namespace Needle

variable {α : Type*} {needle data more : List α} {i : ℕ}

/-- The needle occurs at an index. -/
def OccursAt (needle data : List α) (i : ℕ) : Prop := needle <+: data.drop i

theorem occursAt_append_left (front : List α) :
  OccursAt needle (front ++ data) (front.length + i) ↔ OccursAt needle data i
  := by
  rw [OccursAt, OccursAt, List.drop_append, List.drop_eq_nil_of_le (Nat.le_add_right _ _),
    List.nil_append, Nat.add_sub_cancel_left]

theorem OccursAt.length_le (h : OccursAt needle data i) (hne : needle ≠ []) :
  i + needle.length ≤ data.length
  := by
  have hle := List.IsPrefix.length_le h
  have hpos := List.length_pos_iff.mpr hne
  rw [List.length_drop] at hle
  omega

theorem OccursAt.append (h : OccursAt needle data i) (more : List α) :
  OccursAt needle (data ++ more) i
  := by
  rw [OccursAt, List.drop_append]
  apply List.IsPrefix.trans h (List.prefix_append _ _)

/-- What occurs in the part before the seam was there before. -/
theorem OccursAt.of_append (h : OccursAt needle (data ++ more) i)
    (hle : i + needle.length ≤ data.length) :
  OccursAt needle data i
  := by
  rw [OccursAt, List.drop_append] at h
  apply List.prefix_of_prefix_length_le h (List.prefix_append _ _)
  rw [List.length_drop]
  omega

/-- Two needles of one length that occur at one index are the same. -/
theorem OccursAt.unique {needle' : List α} (h : OccursAt needle data i)
    (h' : OccursAt needle' data i) (hlen : needle.length = needle'.length) :
  needle = needle'
  := List.IsPrefix.eq_of_length (List.prefix_of_prefix_length_le h h' hlen.le) hlen

section
variable [DecidableEq α]

/-- The first index at which a needle occurs. -/
def firstAt (needle : List α) : List α → Option ℕ
  | [] => none
  | a :: as => if needle.isPrefixOf (a :: as) then some 0 else (firstAt needle as).map (· + 1)

theorem firstAt_eq_none_iff (hne : needle ≠ []) :
  firstAt needle data = none ↔ ∀ i, ¬ OccursAt needle data i
  := by
  induction data with
  | nil =>
      refine iff_of_true rfl (fun i h => ?_)
      rw [OccursAt, List.drop_nil] at h
      exact hne (List.prefix_nil.mp h)
  | cons a as ih =>
      rw [firstAt]
      split
      · rename_i h
        refine iff_of_false (by simp) (fun hall => hall 0 ?_)
        exact List.isPrefixOf_iff_prefix.mp h
      · rename_i h
        rw [Option.map_eq_none_iff, ih]
        constructor
        · rintro hall (_ | i)
          · exact fun hzero => h (List.isPrefixOf_iff_prefix.mpr hzero)
          · exact hall i
        · exact fun hall i => hall (i + 1)

theorem firstAt_eq_some_iff (hne : needle ≠ []) :
  firstAt needle data = some i ↔ OccursAt needle data i ∧ ∀ j < i, ¬ OccursAt needle data j
  := by
  induction data generalizing i with
  | nil =>
      refine iff_of_false (by simp [firstAt]) (fun h => ?_)
      have h := h.1
      rw [OccursAt, List.drop_nil] at h
      exact hne (List.prefix_nil.mp h)
  | cons a as ih =>
      rw [firstAt]
      split
      · rename_i h
        have hzero : OccursAt needle (a :: as) 0 := List.isPrefixOf_iff_prefix.mp h
        constructor
        · rintro ⟨⟩
          exact ⟨hzero, fun j hj => absurd hj (Nat.not_lt_zero j)⟩
        · rintro ⟨-, hfirst⟩
          rw [Nat.eq_zero_of_not_pos (fun hpos => hfirst 0 hpos hzero)]
      · rename_i h
        have hzero : ¬ OccursAt needle (a :: as) 0 := fun hzero =>
          h (List.isPrefixOf_iff_prefix.mpr hzero)
        rw [Option.map_eq_some_iff]
        constructor
        · rintro ⟨j, hj, rfl⟩
          obtain ⟨hhere, hfirst⟩ := ih.mp hj
          refine ⟨hhere, ?_⟩
          rintro (_ | k) hk
          · exact hzero
          · exact hfirst k (Nat.lt_of_succ_lt_succ hk)
        · rintro ⟨hhere, hfirst⟩
          cases i with
          | zero => exact absurd hhere hzero
          | succ i =>
              refine ⟨i, ih.mpr ⟨hhere, fun j hj => ?_⟩, rfl⟩
              exact hfirst (j + 1) (Nat.succ_lt_succ hj)

end

end Needle
