import Mathlib.Data.List.Sort
import Mathlib.Data.List.Nodup

/-!
# Keyset pagination

A feed lists the rows of a table by a sequence number `seq`.  A page holds the first `limit`
rows newer than a cursor, the sequence number of its last row, which is the next cursor,
and whether more rows are left.  A reader pulls pages until none is left.

The next cursor skips every row with its sequence number, on this page or not.  So the
reader gets all rows exactly when no page ends between two rows of one sequence number
(`mem_pullAll_iff_unsplit`), in particular when sequence numbers are distinct
(`unsplit_of_strict`).
-/

universe u v

namespace Paging

/-! ### Pulling until nothing is left -/

/-- Pull from the cursor `c`, and from the cursor returned while more is left.  At most
`fuel` pages are pulled; the result is `none` when they do not suffice. -/
def pullAll {R : Type u} {C : Type v} (answer : C → List R × C × Bool) : ℕ → C → Option (List R)
  | 0, _ => none
  | fuel + 1, c =>
    match answer c with
    | (rows, _, false) => some rows
    | (rows, c', true) => (pullAll answer fuel c').map (rows ++ ·)

section
variable {R : Type u} {C : Type v} {answer : C → List R × C × Bool}

theorem pullAll_last {fuel : ℕ} {c : C} (h : (answer c).2.2 = false) :
  pullAll answer (fuel + 1) c = some (answer c).1
  := by
  rw [pullAll]
  split
  · simp_all
  · simp_all

theorem pullAll_next {fuel : ℕ} {c : C} (h : (answer c).2.2 = true) :
  pullAll answer (fuel + 1) c = (pullAll answer fuel (answer c).2.1).map ((answer c).1 ++ ·)
  := by
  rw [pullAll]
  split
  · simp_all
  · simp_all

/-- Pulling from a feed whose rows are presented by `f` presents the rows pulled. -/
theorem pullAll_map {R' : Type*} (f : R → R') {answer' : C → List R' × C × Bool}
    (h : ∀ c, answer' c = ((answer c).1.map f, (answer c).2)) (fuel : ℕ) (c : C) :
  pullAll answer' fuel c = (pullAll answer fuel c).map (List.map f)
  := by
  induction fuel generalizing c with
  | zero => rfl
  | succ fuel ih =>
      have hsnd : (answer' c).2 = (answer c).2 := by rw [h]
      have hfst : (answer' c).1 = (answer c).1.map f := by rw [h]
      cases hmore : (answer c).2.2 with
      | false =>
          rw [pullAll_last hmore, pullAll_last (hsnd ▸ hmore), hfst]
          rfl
      | true =>
          rw [pullAll_next hmore, pullAll_next (hsnd ▸ hmore), hsnd, hfst, ih, Option.map_map,
            Option.map_map]
          congr 1
          funext rows
          simp

end

/-! ### One feed -/

variable {R : Type u} (seq : R → ℤ)

/-- The rows newer than `since`, ordered by their sequence number. -/
def newer (rows : List R) (since : ℤ) : List R :=
  (rows.insertionSort (fun r r' => seq r ≤ seq r')).filter (fun r => decide (since < seq r))

/-- The cursor after the rows of a page: the sequence number of the last one. -/
def cursorAfter (since : ℤ) (rows : List R) : ℤ :=
  (rows.getLast?.map seq).getD since

/-- No page of `limit` rows ends between two rows with the same sequence number. -/
def Unsplit (limit : ℕ) (rows : List R) : Prop :=
  ∀ i, limit ∣ i → 0 < i → (h : i < rows.length) → seq rows[i - 1] ≠ seq rows[i]

variable {seq}

theorem mem_newer {rows : List R} {since : ℤ} {r : R} :
  r ∈ newer seq rows since ↔ r ∈ rows ∧ since < seq r
  := by
  simp [newer]

theorem newer_pairwise (seq : R → ℤ) (rows : List R) (since : ℤ) :
  (newer seq rows since).Pairwise (fun r r' => seq r ≤ seq r')
  := by
  have : Std.Total (fun r r' => seq r ≤ seq r') := ⟨fun r r' => le_total (seq r) (seq r')⟩
  have : IsTrans R (fun r r' => seq r ≤ seq r') := ⟨fun _ _ _ => le_trans⟩
  exact (List.pairwise_insertionSort _ rows).filter _

theorem newer_nodup {rows : List R} (h : rows.Nodup) (since : ℤ) :
  (newer seq rows since).Nodup
  := ((List.perm_insertionSort _ rows).nodup_iff.mpr h).filter _

/-- Distinct sequence numbers in a table are distinct in its feed. -/
theorem newer_strict {rows : List R} (h : (rows.map seq).Nodup) (since : ℤ) :
  (newer seq rows since).Pairwise (fun r r' => seq r < seq r')
  := by
  have hnodup : ((newer seq rows since).map seq).Nodup :=
    (((List.perm_insertionSort _ rows).map seq).nodup_iff.mpr h).sublist
      (List.filter_sublist.map seq)
  have hne := List.pairwise_map.mp hnodup
  apply ((newer_pairwise seq rows since).and hne).imp
  intro r r' hr
  exact lt_of_le_of_ne hr.1 hr.2

theorem newer_newer (rows : List R) {since since' : ℤ} (h : since ≤ since') :
  newer seq rows since' = (newer seq rows since).filter (fun r => decide (since' < seq r))
  := by
  rw [newer, newer, List.filter_filter]
  congr 1
  funext r
  rw [← Bool.decide_and, decide_eq_decide]
  constructor
  · intro hr
    exact ⟨hr, by omega⟩
  · rintro ⟨hr, -⟩
    exact hr

theorem unsplit_of_length_le {limit : ℕ} {rows : List R} (h : rows.length ≤ limit) :
  Unsplit seq limit rows
  := by
  intro i hdvd hpos hi
  have := Nat.le_of_dvd hpos hdvd
  omega

/-- Pages never split a feed whose sequence numbers are distinct. -/
theorem unsplit_of_strict {limit : ℕ} {rows : List R}
    (h : rows.Pairwise (fun r r' => seq r < seq r')) :
  Unsplit seq limit rows
  := by
  intro i _ hpos hi
  have := List.pairwise_iff_getElem.mp h (i - 1) i (by omega) hi (by omega)
  omega

/-- The pages of a feed are unsplit when its first page is and the pages after it are. -/
theorem unsplit_iff_drop {limit : ℕ} (hlimit : 1 ≤ limit) {rows : List R}
    (h : limit < rows.length) :
  Unsplit seq limit rows
    ↔ seq rows[limit - 1] ≠ seq rows[limit] ∧ Unsplit seq limit (rows.drop limit)
  := by
  constructor
  · intro hun
    constructor
    · exact hun limit (Nat.dvd_refl limit) hlimit h
    · intro i hdvd hpos hi
      rw [List.length_drop] at hi
      simp only [List.getElem_drop]
      have := hun (limit + i) (Nat.dvd_add_right (Nat.dvd_refl limit) |>.mpr hdvd) (by omega) (by omega)
      convert this using 3
      have := Nat.le_of_dvd hpos hdvd
      omega
  · rintro ⟨hfirst, hrest⟩ i hdvd hpos hi
    have hle := Nat.le_of_dvd hpos hdvd
    rcases Nat.eq_or_lt_of_le hle with rfl | hlt
    · exact hfirst
    · have := hrest (i - limit) (Nat.dvd_sub hdvd (Nat.dvd_refl limit)) (by omega)
        (by rw [List.length_drop]; omega)
      simp only [List.getElem_drop] at this
      convert this using 3 <;> omega

/-- The cursor after a full page. -/
theorem cursorAfter_take {limit : ℕ} (hlimit : 1 ≤ limit) {rows : List R}
    (h : limit ≤ rows.length) (since : ℤ) :
  cursorAfter seq since (rows.take limit) = seq rows[limit - 1]
  := by
  rw [cursorAfter, List.getLast?_eq_getElem?, List.length_take, Nat.min_eq_left h,
    List.getElem?_take_of_lt (by omega), List.getElem?_eq_getElem (by omega)]
  rfl

/-- A cursor does not go back. -/
theorem le_cursorAfter {rows : List R} {since : ℤ} (h : ∀ r ∈ rows, since ≤ seq r) :
  since ≤ cursorAfter seq since rows
  := by
  rw [cursorAfter]
  cases hlast : rows.getLast? with
  | none => exact le_refl since
  | some last => exact h last (List.mem_of_getLast? hlast)

/-- The cursor after the rows of a page is at least the number of each. -/
theorem seq_le_cursorAfter {rows : List R}
    (hsorted : rows.Pairwise (fun r r' => seq r ≤ seq r')) (since : ℤ) {r : R} (hr : r ∈ rows) :
  seq r ≤ cursorAfter seq since rows
  := by
  induction rows generalizing r with
  | nil => cases hr
  | cons r' rows ih =>
      rw [List.pairwise_cons] at hsorted
      cases rows with
      | nil =>
          rw [List.mem_singleton] at hr
          rw [hr]
          exact le_refl _
      | cons r'' rows =>
          have hlast : cursorAfter seq since (r' :: r'' :: rows)
              = cursorAfter seq since (r'' :: rows) := by
            rw [cursorAfter, cursorAfter, List.getLast?_cons_cons]
          rw [hlast]
          rcases List.mem_cons.mp hr with rfl | hr
          · exact (hsorted.1 r'' List.mem_cons_self).trans (ih hsorted.2 List.mem_cons_self)
          · exact ih hsorted.2 hr

/-- The rows of a full page are numbered up to its last row. -/
theorem le_last_of_mem_take {limit : ℕ} {rows : List R}
    (hsorted : rows.Pairwise (fun r r' => seq r ≤ seq r')) (h : limit - 1 < rows.length) {r : R}
    (hr : r ∈ rows.take limit) :
  seq r ≤ seq rows[limit - 1]
  := by
  obtain ⟨i, hi, rfl⟩ := List.mem_iff_getElem.mp hr
  rw [List.length_take] at hi
  rw [List.getElem_take]
  rcases Nat.lt_or_ge i (limit - 1) with hlt | hge
  · exact List.pairwise_iff_getElem.mp hsorted i (limit - 1) (by omega) h hlt
  · have : i = limit - 1 := by omega
    simp [this]

/-- The rows after a full page are numbered from its last row on. -/
theorem last_le_of_mem_drop {limit : ℕ} (hlimit : 1 ≤ limit) {rows : List R}
    (hsorted : rows.Pairwise (fun r r' => seq r ≤ seq r')) (h : limit - 1 < rows.length) {r : R}
    (hr : r ∈ rows.drop limit) :
  seq rows[limit - 1] ≤ seq r
  := by
  obtain ⟨i, hi, rfl⟩ := List.mem_iff_getElem.mp hr
  rw [List.length_drop] at hi
  rw [List.getElem_drop]
  exact List.pairwise_iff_getElem.mp hsorted (limit - 1) (limit + i) h (by omega) (by omega)

/-- The rows after a full page that splits no sequence number are those it leaves out. -/
theorem filter_after_take {limit : ℕ} (hlimit : 1 ≤ limit) {rows : List R}
    (hsorted : rows.Pairwise (fun r r' => seq r ≤ seq r')) (h : limit < rows.length)
    (hne : seq rows[limit - 1] ≠ seq rows[limit]) {c : ℤ} (hc : c = seq rows[limit - 1]) :
  rows.filter (fun r => decide (c < seq r)) = rows.drop limit
  := by
  have hget := List.pairwise_iff_getElem.mp hsorted
  have htake : (rows.take limit).filter (fun r => decide (c < seq r)) = [] := by
    apply List.filter_eq_nil_iff.mpr
    intro r hr
    rw [decide_eq_true_eq, not_lt, hc]
    exact le_last_of_mem_take hsorted (by omega) hr
  have hdrop : (rows.drop limit).filter (fun r => decide (c < seq r)) = rows.drop limit := by
    apply List.filter_eq_self.mpr
    intro r hr
    obtain ⟨i, hi, rfl⟩ := List.mem_iff_getElem.mp hr
    rw [List.length_drop] at hi
    rw [List.getElem_drop, decide_eq_true_eq, hc]
    have hlt := hget (limit - 1) limit (by omega) h (by omega)
    rcases Nat.eq_zero_or_pos i with rfl | hpos
    · simp only [Nat.add_zero]
      omega
    · have := hget limit (limit + i) h (by omega) (by omega)
      omega
  conv_lhs => rw [← List.take_append_drop limit rows]
  rw [List.filter_append, htake, hdrop, List.nil_append]

/-! ### Reading one feed to its end -/

/-- A page of a feed from a cursor: its rows, the next cursor, and whether more is left. -/
def page (seq : R → ℤ) (rows : List R) (limit : ℕ) (since : ℤ) : List R × ℤ × Bool :=
  ((newer seq rows since).take limit,
    cursorAfter seq since ((newer seq rows since).take limit),
    decide (limit < (newer seq rows since).length))

/-- A page is read off the first `limit + 1` rows newer than the cursor. -/
theorem page_eq (seq : R → ℤ) (rows : List R) (limit : ℕ) (since : ℤ) :
  page seq rows limit since
    = (((newer seq rows since).take (limit + 1)).take limit,
        cursorAfter seq since (((newer seq rows since).take (limit + 1)).take limit),
        decide (((newer seq rows since).take (limit + 1)).length > limit))
  := by
  have htake : ((newer seq rows since).take (limit + 1)).take limit
      = (newer seq rows since).take limit := by
    rw [List.take_take, Nat.min_eq_left (Nat.le_succ _)]
  rw [page, htake, List.length_take]
  congr 2
  rw [decide_eq_decide]
  omega

section
variable {rows : List R} {limit : ℕ} (hlimit : 1 ≤ limit) {since : ℤ}
  (h : limit < (newer seq rows since).length)
include hlimit h

/-- The cursor after a full page is past the cursor of the page. -/
theorem since_lt_cursor :
  since < cursorAfter seq since ((newer seq rows since).take limit)
  := by
  rw [cursorAfter_take hlimit (le_of_lt h)]
  exact (mem_newer.mp (List.getElem_mem _)).2

/-- Fewer rows are newer than the cursor after a full page. -/
theorem length_newer_cursor :
  (newer seq rows (cursorAfter seq since ((newer seq rows since).take limit))).length
    < (newer seq rows since).length
  := by
  have hlt := since_lt_cursor hlimit h
  rw [newer_newer rows (le_of_lt hlt)]
  apply List.length_filter_lt_length_iff_exists.mpr
  use (newer seq rows since)[limit - 1], List.getElem_mem _
  simp [cursorAfter_take hlimit (le_of_lt h)]

/-- The rows newer than the cursor after a page that splits no sequence number are those the
page leaves out. -/
theorem newer_cursor
    (hne : seq (newer seq rows since)[limit - 1] ≠ seq (newer seq rows since)[limit]) :
  newer seq rows (cursorAfter seq since ((newer seq rows since).take limit))
    = (newer seq rows since).drop limit
  := by
  rw [newer_newer rows (le_of_lt (since_lt_cursor hlimit h))]
  apply filter_after_take hlimit (newer_pairwise seq rows since) h hne
  exact cursorAfter_take hlimit (le_of_lt h) since

/-- The first row a page leaves out, when it has the sequence number the page ends with, is
neither on the page nor newer than the next cursor. -/
theorem split_lost (hnodup : rows.Nodup)
    (heq : seq (newer seq rows since)[limit - 1] = seq (newer seq rows since)[limit]) :
  (newer seq rows since)[limit] ∉ (newer seq rows since).take limit
    ∧ ¬ cursorAfter seq since ((newer seq rows since).take limit)
        < seq (newer seq rows since)[limit]
  := by
  constructor
  · intro hmem
    apply List.disjoint_take_drop (newer_nodup hnodup since) (le_refl limit) hmem
    exact List.mem_iff_getElem.mpr ⟨0, by rw [List.length_drop]; omega, by simp⟩
  · rw [cursorAfter_take hlimit (le_of_lt h)]
    omega

end

/-- The rows newer than the cursor after a page of a feed with distinct sequence numbers are
those the page leaves out. -/
theorem newer_after_take {rows : List R} (hnodup : (rows.map seq).Nodup) {limit : ℕ}
    (hlimit : 1 ≤ limit) (since : ℤ) :
  newer seq rows (cursorAfter seq since ((newer seq rows since).take limit))
    = (newer seq rows since).drop limit
  := by
  rcases Nat.lt_or_ge limit (newer seq rows since).length with hlt | hge
  · apply newer_cursor hlimit hlt
    exact unsplit_of_strict (newer_strict hnodup since) limit (Nat.dvd_refl limit) hlimit hlt
  rw [List.take_of_length_le hge, List.drop_eq_nil_of_le hge]
  rcases Nat.eq_zero_or_pos (newer seq rows since).length with hzero | hpos
  · have hnil := List.eq_nil_of_length_eq_zero hzero
    simp [hnil, cursorAfter]
  have hcur : cursorAfter seq since (newer seq rows since)
      = seq (newer seq rows since)[(newer seq rows since).length - 1] := by
    conv_lhs => rw [← List.take_length (l := newer seq rows since)]
    exact cursorAfter_take hpos (le_refl _) since
  apply List.eq_nil_iff_forall_not_mem.mpr
  intro r hr
  obtain ⟨hrow, hseq⟩ := mem_newer.mp hr
  rw [hcur] at hseq
  have hlast : since < seq (newer seq rows since)[(newer seq rows since).length - 1] :=
    (mem_newer.mp (List.getElem_mem _)).2
  obtain ⟨i, hi, rfl⟩ := List.mem_iff_getElem.mp (mem_newer.mpr ⟨hrow, hlast.trans hseq⟩)
  rcases Nat.lt_or_ge i ((newer seq rows since).length - 1) with hlt | hge'
  · have := List.pairwise_iff_getElem.mp (newer_pairwise seq rows since) _ _ hi
      (by omega) hlt
    omega
  · have : i = (newer seq rows since).length - 1 := by omega
    subst this
    omega

/-- Pulling a feed ends.  It gives rows of the feed newer than the cursor, and all of them
exactly when no page splits a sequence number; then it gives them in order. -/
theorem mem_pullAll_iff_unsplit {rows : List R} (hnodup : rows.Nodup) {limit : ℕ}
    (hlimit : 1 ≤ limit) (since : ℤ) {fuel : ℕ} (hfuel : (newer seq rows since).length < fuel) :
  ∃ got, pullAll (page seq rows limit) fuel since = some got
    ∧ (∀ r ∈ got, r ∈ newer seq rows since)
    ∧ ((∀ r ∈ newer seq rows since, r ∈ got) ↔ Unsplit seq limit (newer seq rows since))
    ∧ (Unsplit seq limit (newer seq rows since) → got = newer seq rows since)
  := by
  induction fuel generalizing since with
  | zero => omega
  | succ fuel ih =>
      rcases Nat.lt_or_ge limit (newer seq rows since).length with hlt | hge
      · have hmore : (page seq rows limit since).2.2 = true := by simp [page, hlt]
        have hsince := since_lt_cursor hlimit hlt
        have hless := length_newer_cursor hlimit hlt
        obtain ⟨got, hgot, hsub, hiff, heq⟩ :=
          ih _ (Nat.lt_of_lt_of_le hless (Nat.le_of_lt_succ hfuel))
        have hgotMem : ∀ r ∈ got, r ∈ newer seq rows since := by
          intro r hr
          obtain ⟨hrow, hseq⟩ := mem_newer.mp (hsub r hr)
          exact mem_newer.mpr ⟨hrow, hsince.trans hseq⟩
        have hall : Unsplit seq limit (newer seq rows since) →
            (newer seq rows since).take limit ++ got = newer seq rows since := by
          rw [unsplit_iff_drop hlimit hlt]
          rintro ⟨hne, hun⟩
          have hrest := newer_cursor hlimit hlt hne
          rw [hrest] at heq
          rw [heq hun, List.take_append_drop]
        refine ⟨(newer seq rows since).take limit ++ got, ?_, ?_, ⟨?_, ?_⟩, hall⟩
        · rw [pullAll_next hmore]
          simp only [page, hgot, Option.map_some]
        · intro r hr
          rcases List.mem_append.mp hr with hr | hr
          · exact List.mem_of_mem_take hr
          · exact hgotMem r hr
        · intro hmem
          rw [unsplit_iff_drop hlimit hlt]
          have hne : seq (newer seq rows since)[limit - 1]
              ≠ seq (newer seq rows since)[limit] := by
            intro heq
            obtain ⟨htake, hcur⟩ := split_lost hlimit hlt hnodup heq
            rcases List.mem_append.mp (hmem _ (List.getElem_mem hlt)) with hr | hr
            · exact htake hr
            · exact hcur (mem_newer.mp (hsub _ hr)).2
          have hrest := newer_cursor hlimit hlt hne
          rw [hrest] at hiff
          refine ⟨hne, hiff.mp ?_⟩
          intro r hr
          rcases List.mem_append.mp (hmem r (List.mem_of_mem_drop hr)) with hr' | hr'
          · exact absurd hr
              (List.disjoint_take_drop (newer_nodup hnodup since) (le_refl limit) hr')
          · exact hr'
        · intro hun r hr
          rw [hall hun]
          exact hr
      · have hlast : (page seq rows limit since).2.2 = false := by simp [page, hge]
        refine ⟨newer seq rows since, ?_, fun r hr => hr, ?_, fun _ => rfl⟩
        · rw [pullAll_last hlast]
          simp only [page, List.take_of_length_le hge]
        · exact ⟨fun _ => unsplit_of_length_le hge, fun _ r hr => hr⟩

/-- Readings that end give the same rows. -/
theorem pullAll_unique {C : Type v} {answer : C → List R × C × Bool} {fuel fuel' : ℕ} {c : C}
    {got got' : List R} (h : pullAll answer fuel c = some got)
    (h' : pullAll answer fuel' c = some got') :
  got = got'
  := by
  induction fuel generalizing fuel' c got got' with
  | zero => cases h
  | succ fuel ih =>
      cases fuel' with
      | zero => cases h'
      | succ fuel' =>
          cases hmore : (answer c).2.2 with
          | false =>
              rw [pullAll_last hmore] at h h'
              cases h
              cases h'
              rfl
          | true =>
              rw [pullAll_next hmore, Option.map_eq_some_iff] at h h'
              obtain ⟨rest, hrest, rfl⟩ := h
              obtain ⟨rest', hrest', rfl⟩ := h'
              rw [ih hrest hrest']

/-! ### Rows passed over -/

/-- A row is passed over in a feed read by pages of `limit` rows: some page ends before it, at a
row with its sequence number. -/
inductive Passed (seq : R → ℤ) (limit : ℕ) : List R → R → Prop
  | here {rows : List R} {last r : R} : (rows.take limit).getLast? = some last →
      r ∈ rows.drop limit → seq r = seq last → Passed seq limit rows r
  | later {rows : List R} {last r : R} : (rows.take limit).getLast? = some last →
      limit < rows.length → Passed seq limit (rows.filter (fun r => decide (seq last < seq r))) r →
      Passed seq limit rows r

theorem mem_of_passed {limit : ℕ} {rows : List R} {r : R} (h : Passed seq limit rows r) :
  r ∈ rows
  := by
  induction h with
  | here _ hr _ => exact List.mem_of_mem_drop hr
  | later _ _ _ ih => exact List.mem_of_mem_filter ih

/-- No row is passed over on the last page. -/
theorem not_passed_of_length_le {limit : ℕ} {rows : List R} {r : R} (h : rows.length ≤ limit) :
  ¬ Passed seq limit rows r
  := by
  intro hpassed
  cases hpassed with
  | here _ hr _ =>
      rw [List.drop_eq_nil_of_le h] at hr
      cases hr
  | later _ hlt _ => omega

/-- A row after a page is passed over by the page when it has the number the page ends with, and
by the pages after it otherwise. -/
theorem passed_iff {limit : ℕ} {rows : List R} {last r : R}
    (hlast : (rows.take limit).getLast? = some last) (hr : r ∈ rows.drop limit) :
  Passed seq limit rows r
    ↔ seq r = seq last ∨ Passed seq limit (rows.filter (fun r => decide (seq last < seq r))) r
  := by
  have hlt : limit < rows.length := by
    by_contra hge
    rw [List.drop_eq_nil_of_le (not_lt.mp hge)] at hr
    cases hr
  constructor
  · intro h
    cases h with
    | here hlast' _ heq =>
        rw [hlast] at hlast'
        cases hlast'
        exact .inl heq
    | later hlast' _ h =>
        rw [hlast] at hlast'
        cases hlast'
        exact .inr h
  · rintro (heq | h)
    · exact .here hlast hr heq
    · exact .later hlast hlt h

/-- Pulling a feed gives the rows newer than the cursor that are not passed over. -/
theorem mem_pullAll_iff_not_passed {rows : List R} (hnodup : rows.Nodup) {limit : ℕ}
    (hlimit : 1 ≤ limit) {since : ℤ} {fuel : ℕ} {got : List R}
    (h : pullAll (page seq rows limit) fuel since = some got) (r : R) :
  r ∈ got ↔ r ∈ newer seq rows since ∧ ¬ Passed seq limit (newer seq rows since) r
  := by
  induction fuel generalizing since got with
  | zero => cases h
  | succ fuel ih =>
      rcases Nat.lt_or_ge limit (newer seq rows since).length with hlt | hge
      · have hmore : (page seq rows limit since).2.2 = true := by simp [page, hlt]
        rw [pullAll_next hmore, Option.map_eq_some_iff] at h
        obtain ⟨rest, hrest, rfl⟩ := h
        have hbound : limit - 1 < (newer seq rows since).length := by omega
        have hlast : ((newer seq rows since).take limit).getLast?
            = some (newer seq rows since)[limit - 1] := by
          rw [List.getLast?_eq_getElem?, List.length_take, Nat.min_eq_left (le_of_lt hlt),
            List.getElem?_take_of_lt (by omega), List.getElem?_eq_getElem hbound]
        have hnewer : newer seq rows (page seq rows limit since).2.1
            = (newer seq rows since).filter
                (fun r => decide (seq (newer seq rows since)[limit - 1] < seq r)) := by
          rw [← @cursorAfter_take R seq limit hlimit (newer seq rows since) (le_of_lt hlt) since]
          exact newer_newer rows (le_of_lt (since_lt_cursor hlimit hlt))
        have hmem := ih hrest
        rw [hnewer, List.mem_filter, decide_eq_true_eq] at hmem
        have hsorted := newer_pairwise seq rows since
        have hpage : ∀ r ∈ (newer seq rows since).take limit,
            ¬ Passed seq limit (newer seq rows since) r := by
          intro r htake hpassed
          cases hpassed with
          | here _ hdrop _ =>
              exact List.disjoint_take_drop (newer_nodup hnodup since) (le_refl limit) htake hdrop
          | later hlast' _ hpassed =>
              rw [hlast] at hlast'
              cases hlast'
              have hgt := (List.mem_filter.mp (mem_of_passed hpassed)).2
              have hle := le_last_of_mem_take hsorted hbound htake
              rw [decide_eq_true_eq] at hgt
              omega
        have hsplit : r ∈ newer seq rows since
            ↔ r ∈ (newer seq rows since).take limit ∨ r ∈ (newer seq rows since).drop limit := by
          rw [← List.mem_append, List.take_append_drop]
        change r ∈ (newer seq rows since).take limit ++ rest ↔ _
        rw [List.mem_append, hmem]
        constructor
        · rintro (htake | ⟨⟨hr, hgt⟩, hnot⟩)
          · exact ⟨hsplit.mpr (.inl htake), hpage r htake⟩
          · refine ⟨hr, ?_⟩
            rcases hsplit.mp hr with htake | hdrop
            · exact hpage r htake
            · rw [passed_iff hlast hdrop, not_or]
              exact ⟨by omega, hnot⟩
        · rintro ⟨hr, hnot⟩
          rcases hsplit.mp hr with htake | hdrop
          · exact .inl htake
          · rw [passed_iff hlast hdrop, not_or] at hnot
            have hle := last_le_of_mem_drop hlimit hsorted hbound hdrop
            exact .inr ⟨⟨hr, by omega⟩, hnot.2⟩
      · have hlast : (page seq rows limit since).2.2 = false := by simp [page, hge]
        rw [pullAll_last hlast] at h
        cases h
        simp only [page, List.take_of_length_le hge, not_passed_of_length_le hge,
          not_false_eq_true, and_true]

/-- Pulling a feed with distinct sequence numbers ends, and gives its rows newer than the
cursor, in order. -/
theorem pullAll_page {rows : List R} (hnodup : (rows.map seq).Nodup) {limit : ℕ}
    (hlimit : 1 ≤ limit) (since : ℤ) {fuel : ℕ} (hfuel : (newer seq rows since).length < fuel) :
  pullAll (page seq rows limit) fuel since = some (newer seq rows since)
  := by
  obtain ⟨got, hgot, -, -, heq⟩ := mem_pullAll_iff_unsplit hnodup.of_map hlimit since hfuel
  rw [hgot, heq (unsplit_of_strict (newer_strict hnodup since))]

end Paging
