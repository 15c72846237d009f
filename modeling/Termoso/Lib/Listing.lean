import Mathlib.Data.List.Sort
import Termoso.Lib.Result

/-!
# Listings

A listing visits the rows of a table in order, at most a given number of them.  It shows some rows,
leaves others out, and fails at the first row that it can neither show nor leave out.

When rows are removed from a table, the rows left over that a listing visited are visited still.
-/

universe u v

variable {ε : Type u} {α β : Type v}

/-! ### Collecting -/

section
variable {f g : α → Except ε (Option β)} {xs : List α} {ys : List β} {y : β}

/-- The values of the elements of a list, in order. Elements without a value are left out, and the
first error ends the computation. -/
def collect (f : α → Except ε (Option β)) : List α → Except ε (List β)
  | [] => .ok []
  | x :: xs =>
    match f x with
    | .error e => .error e
    | .ok none => collect f xs
    | .ok (some y) => (collect f xs).map (y :: ·)

/-- A list is collected when each of its elements can be. -/
theorem exists_collect_eq_ok :
  (∃ ys, collect f xs = .ok ys) ↔ ∀ x ∈ xs, ∃ o, f x = .ok o
  := by
  induction xs with
  | nil => simp [collect]
  | cons x xs ih =>
      rw [List.forall_mem_cons, ← ih, collect]
      cases hx : f x with
      | error e => simp
      | ok o =>
          cases o with
          | none => simp
          | some y => simp [map_eq_ok]

/-- What is collected are the values of the elements. -/
theorem mem_of_collect_eq_ok (h : collect f xs = .ok ys) :
  y ∈ ys ↔ ∃ x ∈ xs, f x = .ok (some y)
  := by
  induction xs generalizing ys with
  | nil =>
      cases h
      simp
  | cons x xs ih =>
      rw [collect] at h
      cases hx : f x with
      | error e =>
          rw [hx] at h
          cases h
      | ok o =>
          cases o with
          | none =>
              simp only [hx] at h
              simp [ih h, hx]
          | some y' =>
              simp only [hx] at h
              obtain ⟨ys', hys', rfl⟩ := map_eq_ok.mp h
              simp [ih hys', hx, eq_comm]

/-- A list is collected, and what was collected of another is there, up to a relation. -/
def Retains (same : β → β → Prop) (before after : Except ε (List β)) : Prop :=
  ∃ ys, after = .ok ys ∧ ∀ xs, before = .ok xs → ∀ x ∈ xs, ∃ y ∈ ys, same x y

/-- What is collected of a list is retained when the other list is collected, and has an element for
each value. -/
theorem retains_collect {same : β → β → Prop} {zs : List α} (hf : ∀ x ∈ xs, ∃ o, f x = .ok o) :
  Retains same (collect f xs) (collect g zs)
    ↔ (∀ z ∈ zs, ∃ o, g z = .ok o)
      ∧ ∀ x ∈ xs, ∀ y, f x = .ok (some y) → ∃ z ∈ zs, ∃ y', g z = .ok (some y') ∧ same y y'
  := by
  obtain ⟨ys, hys⟩ := exists_collect_eq_ok.mpr hf
  constructor
  · rintro ⟨ys', hys', hretains⟩
    refine ⟨exists_collect_eq_ok.mp ⟨ys', hys'⟩, ?_⟩
    intro x hx y hy
    obtain ⟨y', hy', hsame⟩ := hretains ys hys y ((mem_of_collect_eq_ok hys).mpr ⟨x, hx, hy⟩)
    obtain ⟨z, hz, hgz⟩ := (mem_of_collect_eq_ok hys').mp hy'
    exact ⟨z, hz, y', hgz, hsame⟩
  · rintro ⟨hg, hretains⟩
    obtain ⟨ys', hys'⟩ := exists_collect_eq_ok.mpr hg
    refine ⟨ys', hys', ?_⟩
    intro xs' hxs' y hy
    obtain ⟨x, hx, hfx⟩ := (mem_of_collect_eq_ok hxs').mp hy
    obtain ⟨z, hz, y', hgz, hsame⟩ := hretains x hx y hfx
    exact ⟨y', (mem_of_collect_eq_ok hys').mpr ⟨z, hz, hgz⟩, hsame⟩

end

/-! ### The first elements of a sorted list -/

section
variable {r : α → α → Prop} [DecidableRel r] {p : α → Bool} {l : List α} {x : α} {n : ℕ}

theorem orderedInsert_of_forall {a : α} (h : ∀ b ∈ l, r a b) :
  l.orderedInsert r a = a :: l
  := by
  cases l with
  | nil => rfl
  | cons b l => exact List.orderedInsert_cons_of_le r l (h b List.mem_cons_self)

/-- Inserting into a sorted list and leaving elements out commute. -/
theorem filter_orderedInsert [IsTrans α r] (a : α) (h : l.Pairwise r) :
  (l.orderedInsert r a).filter p
    = if p a then (l.filter p).orderedInsert r a else l.filter p
  := by
  induction l with
  | nil => simp [List.filter_cons]
  | cons b l ih =>
      rw [List.pairwise_cons] at h
      by_cases hab : r a b
      · have hall : ∀ c ∈ (b :: l).filter p, r a c := by
          intro c hc
          rcases List.mem_cons.mp (List.mem_of_mem_filter hc) with rfl | hc
          · exact hab
          · exact IsTrans.trans a b c hab (h.1 c hc)
        rw [List.orderedInsert_cons_of_le r l hab, List.filter_cons, orderedInsert_of_forall hall]
      · rw [List.orderedInsert_of_not_le r l hab, List.filter_cons, List.filter_cons, ih h.2]
        by_cases hpa : p a = true
        · by_cases hpb : p b = true
          · simp [hpa, hpb, hab]
          · simp [hpa, hpb]
        · simp [hpa]

/-- Sorting a list and leaving elements out commute. -/
theorem filter_insertionSort [IsTrans α r] [Std.Total r] :
  (l.insertionSort r).filter p = (l.filter p).insertionSort r
  := by
  induction l with
  | nil => rfl
  | cons a l ih =>
      rw [List.insertionSort_cons, filter_orderedInsert a (List.pairwise_insertionSort r l), ih,
        List.filter_cons]
      split
      · rw [List.insertionSort_cons]
      · rfl

/-- What is among the first of a list stays among them when others are left out. -/
theorem mem_take_filter (hx : x ∈ l.take n) (hp : p x = true) :
  x ∈ (l.filter p).take n
  := by
  induction l generalizing n with
  | nil => simp at hx
  | cons a l ih =>
      cases n with
      | zero => simp at hx
      | succ n =>
          rw [List.take_succ_cons] at hx
          rcases List.mem_cons.mp hx with rfl | hx
          · simp [hp]
          · rw [List.filter_cons]
            split
            · exact List.mem_cons_of_mem _ (ih hx)
            · exact List.take_subset_take_left _ (Nat.le_succ n) (ih hx)

end

/-! ### Sorting by a comparison that refines an order -/

section
variable {r : α → α → Prop} {le : α → α → Bool} {l l' : List α}

/-- Merging keeps an order that the comparison refines. -/
theorem pairwise_merge_of_refines [IsTrans α r] (hle : ∀ a b, le a b = true → r a b)
    (hgt : ∀ a b, le a b = false → r b a) (h : l.Pairwise r) (h' : l'.Pairwise r) :
  (l.merge l' le).Pairwise r
  := by
  induction l generalizing l' with
  | nil => simpa only [List.merge]
  | cons a l ih =>
      induction l' with
      | nil => simpa only [List.merge]
      | cons b l' ih' =>
          have ha : ∀ c ∈ l, r a c := fun c hc => List.rel_of_pairwise_cons h hc
          have hb : ∀ c ∈ l', r b c := fun c hc => List.rel_of_pairwise_cons h' hc
          simp only [List.merge]
          split
          · rename_i hab
            apply List.Pairwise.cons
            · intro c hc
              rw [List.mem_merge, List.mem_cons] at hc
              rcases hc with hc | rfl | hc
              · exact ha c hc
              · exact hle a c hab
              · exact IsTrans.trans _ _ _ (hle a b hab) (hb c hc)
            · exact ih h.tail h'
          · rename_i hab
            have hba := hgt a b (Bool.eq_false_of_not_eq_true hab)
            apply List.Pairwise.cons
            · intro c hc
              rw [List.mem_merge, List.mem_cons] at hc
              rcases hc with (rfl | hc) | hc
              · exact hba
              · exact IsTrans.trans _ _ _ hba (ha c hc)
              · exact hb c hc
            · exact ih' h'.tail

/-- A list sorted by a comparison is sorted in each order that the comparison refines. -/
theorem pairwise_mergeSort_of_refines [IsTrans α r] (hle : ∀ a b, le a b = true → r a b)
    (hgt : ∀ a b, le a b = false → r b a) :
  (l : List α) → (l.mergeSort le).Pairwise r
  | [] => by simp
  | [a] => by simp
  | a :: b :: xs => by
      rw [List.mergeSort]
      apply pairwise_merge_of_refines hle hgt
      · apply pairwise_mergeSort_of_refines hle hgt
      · apply pairwise_mergeSort_of_refines hle hgt
  termination_by l => l.length

end
