import Mathlib.Data.List.Basic
import Mathlib.Data.List.Nodup

/-!
# Tables with a primary key

A `Table R` is a list of records no two of which share their key.  The operations are the
statements a relational database runs on such a table: `insert`, `upsert` (insert, or
update the record already there), `update`, `delete`, and the lookup `get?` by key.  Each
operation is characterised by what `get?` returns after it, so that a program over tables
is reasoned about without looking at the list of records.
-/

universe u v

/-- The primary key of a record. -/
class Keyed (R : Type u) (K : outParam (Type v)) where
  key : R → K

export Keyed (key)

/-- A list of records with pairwise distinct keys. -/
structure Table (R : Type u) {K : Type v} [Keyed R K] where
  rows : List R
  nodup : (rows.map key).Nodup

namespace Table

variable {R : Type u} {K : Type v} [Keyed R K]

@[ext]
theorem ext {t t' : Table R} (h : t.rows = t'.rows) :
  t = t'
  := by
  cases t
  cases t'
  simp_all

/-- The table without records. -/
def empty : Table R := ⟨[], List.nodup_nil⟩

/-- The table of one record. -/
def single (r : R) : Table R := ⟨[r], List.nodup_singleton _⟩

@[simp]
theorem rows_single (r : R) :
  (single r : Table R).rows = [r]
  := rfl

/-- The records of `t` that `p` accepts, in the order of the table. -/
def select (t : Table R) (p : R → Bool) : List R := t.rows.filter p

/-- `UPDATE … SET f WHERE p`, for an `f` that keeps keys. -/
def update (t : Table R) (p : R → Bool) (f : R → R) (hf : ∀ r, key (f r) = key r) : Table R where
  rows := t.rows.map (fun r => if p r then f r else r)
  nodup := by
    rw [List.map_map]
    convert t.nodup using 2
    funext r
    simp only [Function.comp_apply]
    split
    · apply hf
    · rfl

/-- `DELETE … WHERE p`. -/
def delete (t : Table R) (p : R → Bool) : Table R where
  rows := t.rows.filter (fun r => !p r)
  nodup := t.nodup.sublist (List.filter_sublist.map key)

/-- Records of a table with the same key are the same. -/
theorem eq_of_mem {t : Table R} {r r' : R} (h : r ∈ t.rows) (h' : r' ∈ t.rows)
    (hk : key r = key r') :
  r = r'
  := List.inj_on_of_nodup_map t.nodup h h' hk

variable [DecidableEq K]

/-- The record with key `k`. -/
def get? (t : Table R) (k : K) : Option R := t.rows.find? (fun r => decide (key r = k))

/-- A record that `get?` returns has the key asked for. -/
theorem key_of_get? {t : Table R} {k : K} {r : R} (h : t.get? k = some r) :
  key r = k
  := by
  have := List.find?_some h
  simpa using this

/-- A record that `get?` returns is a record of the table. -/
theorem mem_of_get? {t : Table R} {k : K} {r : R} (h : t.get? k = some r) :
  r ∈ t.rows
  := List.mem_of_find?_eq_some h

/-- `get?` returns `r` exactly when `r` is a record of the table with that key. -/
theorem get?_eq_some_iff {t : Table R} {k : K} {r : R} :
  t.get? k = some r ↔ r ∈ t.rows ∧ key r = k
  := by
  constructor
  · intro h
    exact ⟨mem_of_get? h, key_of_get? h⟩
  · rintro ⟨hmem, rfl⟩
    cases hfind : t.get? (key r) with
    | none =>
        have hnone := List.find?_eq_none.mp hfind r hmem
        simp at hnone
    | some r' => rw [eq_of_mem (mem_of_get? hfind) hmem (key_of_get? hfind)]

/-- A record of the table is found under its key. -/
theorem get?_of_mem {t : Table R} {r : R} (h : r ∈ t.rows) :
  t.get? (key r) = some r
  := get?_eq_some_iff.mpr ⟨h, rfl⟩

/-- `get?` returns nothing exactly when no record has that key. -/
theorem get?_eq_none_iff {t : Table R} {k : K} :
  t.get? k = none ↔ ∀ r ∈ t.rows, key r ≠ k
  := by
  rw [get?, List.find?_eq_none]
  simp

@[simp]
theorem get?_empty (k : K) :
  (empty : Table R).get? k = none
  := rfl

/-- The record with key `k` after an update is the updated record, when it qualifies. -/
@[simp]
theorem get?_update (t : Table R) (p : R → Bool) (f : R → R) (hf : ∀ r, key (f r) = key r)
    (k : K) :
  (t.update p f hf).get? k = (t.get? k).map (fun r => if p r then f r else r)
  := by
  have hkey : ∀ r, key (if p r then f r else r) = key r := by
    intro r
    split
    · apply hf
    · rfl
  simp only [get?, update, List.find?_map]
  congr 2
  funext r
  simp [hkey]

/-- The record with key `k` after a deletion is the record before it, unless deleted. -/
@[simp]
theorem get?_delete (t : Table R) (p : R → Bool) (k : K) :
  (t.delete p).get? k = (t.get? k).filter (fun r => !p r)
  := by
  cases hget : t.get? k with
  | none =>
      apply get?_eq_none_iff.mpr
      intro r hr
      apply get?_eq_none_iff.mp hget
      exact (List.mem_filter.mp hr).1
  | some r =>
      obtain ⟨hmem, hk⟩ := get?_eq_some_iff.mp hget
      cases hp : p r with
      | true =>
          simp only [Option.filter_some, hp, Bool.not_true, Bool.false_eq_true, if_false]
          apply get?_eq_none_iff.mpr
          intro r' hr' hk'
          obtain ⟨hmem', hp'⟩ := List.mem_filter.mp hr'
          rw [eq_of_mem hmem' hmem (hk'.trans hk.symm), hp] at hp'
          cases hp'
      | false =>
          simp only [Option.filter_some, hp, Bool.not_false, if_true]
          apply get?_eq_some_iff.mpr
          exact ⟨List.mem_filter.mpr ⟨hmem, by simp [hp]⟩, hk⟩

/-- `UPDATE … SET f WHERE key = k`. -/
def set (t : Table R) (k : K) (f : R → R) (hf : ∀ r, key (f r) = key r) : Table R :=
  t.update (fun r => decide (key r = k)) f hf

/-- `DELETE … WHERE key = k`. -/
def erase (t : Table R) (k : K) : Table R :=
  t.delete (fun r => decide (key r = k))

@[simp]
theorem get?_set (t : Table R) (k : K) (f : R → R) (hf : ∀ r, key (f r) = key r) (k' : K) :
  (t.set k f hf).get? k' = if k' = k then (t.get? k).map f else t.get? k'
  := by
  rw [set, get?_update]
  cases hget : t.get? k' with
  | none =>
      split <;> simp_all
  | some r =>
      have hkey := key_of_get? hget
      split
      · rename_i heq
        subst heq
        simp [hget, hkey]
      · rename_i hne
        simp [hkey, hne]

/-- A record is there after an update when it was before. -/
@[simp]
theorem isSome_get?_set (t : Table R) (k : K) (f : R → R) (hf : ∀ r, key (f r) = key r) (k' : K) :
  ((t.set k f hf).get? k').isSome = (t.get? k').isSome
  := by
  rw [set, get?_update, Option.isSome_map]

/-- An update that changes no record does nothing. -/
theorem set_eq_self {t : Table R} {k : K} {f : R → R} (hf : ∀ r, key (f r) = key r)
    (h : ∀ r ∈ t.rows, key r = k → f r = r) :
  t.set k f hf = t
  := by
  apply ext
  rw [set, update]
  dsimp only
  conv_rhs => rw [← List.map_id t.rows]
  apply List.map_congr_left
  intro r hr
  split
  · rename_i hk
    exact h r hr (of_decide_eq_true hk)
  · rfl

@[simp]
theorem get?_erase (t : Table R) (k k' : K) :
  (t.erase k).get? k' = if k' = k then none else t.get? k'
  := by
  rw [erase, get?_delete]
  cases hget : t.get? k' with
  | none => simp
  | some r =>
      rw [Option.filter_some, key_of_get? hget]
      split <;> simp_all

/-- Append a record whose key is not in the table yet. -/
def append (t : Table R) (r : R) (h : t.get? (key r) = none) : Table R where
  rows := t.rows ++ [r]
  nodup := by
    rw [List.map_append, List.nodup_append]
    refine ⟨t.nodup, List.nodup_singleton _, ?_⟩
    intro k hk k' hk' heq
    obtain ⟨r', hr', rfl⟩ := List.mem_map.mp hk
    apply get?_eq_none_iff.mp h r' hr'
    simpa [heq] using hk'

theorem get?_append (t : Table R) (r : R) (h : t.get? (key r) = none) (k : K) :
  (t.append r h).get? k = if k = key r then some r else t.get? k
  := by
  have happend : (t.append r h).get? k
      = (t.get? k).or (if key r = k then some r else none) := by
    simp [get?, append, List.find?_append, List.find?_cons]
    split <;> simp_all
  rw [happend]
  by_cases hk : k = key r
  · subst hk
    rw [h]
    simp
  · simp [hk, Ne.symm hk]

/-- `INSERT …`, which fails when the key is taken. -/
def insert (t : Table R) (r : R) : Option (Table R) :=
  if h : t.get? (key r) = none then some (t.append r h) else none

/-- `INSERT … ON CONFLICT DO UPDATE SET f`, for an `f` that keeps keys. -/
def upsert (t : Table R) (r : R) (f : R → R) (hf : ∀ r, key (f r) = key r) : Table R :=
  if h : t.get? (key r) = none then t.append r h
  else t.update (fun r' => decide (key r' = key r)) f hf

/-- The record with key `k` after an insertion. -/
theorem get?_insert {t t' : Table R} {r : R} (h : t.insert r = some t') (k : K) :
  t'.get? k = if k = key r then some r else t.get? k
  := by
  unfold insert at h
  split at h
  · cases h
    apply get?_append
  · cases h

theorem insert_isSome_iff {t : Table R} {r : R} :
  (t.insert r).isSome ↔ t.get? (key r) = none
  := by
  unfold insert
  split <;> simp_all

/-- The record with key `k` after an upsert: under the key of `r`, the record there updated
by `f`, or `r` when there was none. -/
@[simp]
theorem get?_upsert (t : Table R) (r : R) (f : R → R) (hf : ∀ r, key (f r) = key r) (k : K) :
  (t.upsert r f hf).get? k
    = if k = key r then some (((t.get? k).map f).getD r) else t.get? k
  := by
  unfold upsert
  split
  next h =>
    rw [get?_append]
    split
    · next hk => rw [hk, h]; rfl
    · rfl
  next h =>
    rw [get?_update]
    by_cases hk : k = key r
    · subst hk
      obtain ⟨r', hr'⟩ := Option.ne_none_iff_exists'.mp h
      simp [hr', key_of_get? hr']
    · cases hget : t.get? k with
      | none => simp [hk]
      | some r' => simp [hk, key_of_get? hget]

/-- A record after an upsert is the new one, an updated one or an old one. -/
theorem mem_upsert {t : Table R} {r x : R} {f : R → R} {hf : ∀ r, key (f r) = key r}
    (h : x ∈ (t.upsert r f hf).rows) :
  x = r ∨ (∃ y ∈ t.rows, f y = x) ∨ x ∈ t.rows
  := by
  have hget := get?_of_mem h
  rw [get?_upsert] at hget
  split at hget
  · cases hold : t.get? (key x) with
    | none =>
        rw [hold] at hget
        cases hget
        exact .inl rfl
    | some y =>
        rw [hold] at hget
        cases hget
        exact .inr (.inl ⟨y, mem_of_get? hold, rfl⟩)
  · exact .inr (.inr (mem_of_get? hget))

/-! ### The records after a statement -/

theorem mem_update {t : Table R} {p : R → Bool} {f : R → R} (hf : ∀ r, key (f r) = key r) {r : R}
    (h : r ∈ (t.update p f hf).rows) :
  r ∈ t.rows ∨ ∃ r' ∈ t.rows, p r' = true ∧ r = f r'
  := by
  obtain ⟨r', hr', heq⟩ := List.mem_map.mp h
  split at heq
  · rename_i hp
    exact .inr ⟨r', hr', hp, heq.symm⟩
  · exact .inl (heq ▸ hr')

theorem mem_set {t : Table R} {k : K} {f : R → R} (hf : ∀ r, key (f r) = key r) {r : R}
    (h : r ∈ (t.set k f hf).rows) :
  r ∈ t.rows ∨ ∃ r' ∈ t.rows, key r' = k ∧ r = f r'
  := by
  rcases mem_update hf h with h | ⟨r', hr', hk, heq⟩
  · exact .inl h
  · exact .inr ⟨r', hr', of_decide_eq_true hk, heq⟩

/-- What holds of the records of other keys, and of what the others are set to, holds of the records
afterwards. -/
theorem forall_set {t : Table R} {k : K} {f : R → R} (hf : ∀ r, key (f r) = key r) {P : R → Prop}
    (hother : ∀ r ∈ t.rows, key r ≠ k → P r) (hset : ∀ r ∈ t.rows, key r = k → P (f r)) :
  ∀ r ∈ (t.set k f hf).rows, P r
  := by
  intro r hr
  obtain ⟨r₀, hr₀, rfl⟩ := List.mem_map.mp hr
  split
  · rename_i hk
    exact hset r₀ hr₀ (of_decide_eq_true hk)
  · rename_i hk
    exact hother r₀ hr₀ (fun heq => hk (decide_eq_true heq))

theorem mem_delete {t : Table R} {p : R → Bool} {r : R} :
  r ∈ (t.delete p).rows ↔ r ∈ t.rows ∧ p r = false
  := by
  simp [delete]

theorem mem_insert {t t' : Table R} {r x : R} (h : t.insert r = some t') :
  x ∈ t'.rows ↔ x ∈ t.rows ∨ x = r
  := by
  unfold insert at h
  split at h
  · cases h
    simp [append]
  · cases h

/-- The records of a table, those replaced that another table has under the same key. -/
def overlay (t u : Table R) : Table R :=
  t.update (fun _ => true) (fun r => (u.get? (key r)).getD r) (by
    intro r
    cases hget : u.get? (key r) with
    | none => rfl
    | some r' => exact key_of_get? hget)

@[simp]
theorem get?_overlay (t u : Table R) (k : K) :
  (t.overlay u).get? k = (t.get? k).map (fun r => (u.get? k).getD r)
  := by
  rw [overlay, get?_update]
  cases hget : t.get? k with
  | none => rfl
  | some r => simp [key_of_get? hget]

end Table
