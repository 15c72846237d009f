import Termoso.Lib.Result

/-!
# Sealing under keys

A sealing writes values as texts under a key, and reads them again.  A text that is read under a key
is read under no other.  A text is moved from one key to another by reading it under the first and
writing its value under the second.
-/

universe u v w x y

/-- Writing values under keys, and reading them. -/
structure Sealing (K : Type u) (N : Type v) (T : Type w) (ε : Type x) (α : Type y) where
  read : K → T → Except ε α
  write : K → N → α → T
  read_write : ∀ k n a, read k (write k n a) = .ok a
  key_unique : ∀ k k' t a a', read k t = .ok a → read k' t = .ok a' → k' = k

namespace Sealing

variable {K : Type u} {N : Type v} {T : Type w} {ε : Type x} {α : Type y} {S : Sealing K N T ε α}
  {old new k : K} {t t' : T} {a : α}

/-- A text that was read under one key, and written under another. -/
def Moved (S : Sealing K N T ε α) (old new : K) (t t' : T) : Prop :=
  ∃ n a, S.read old t = .ok a ∧ t' = S.write new n a

/-- A text that was moved, or left. -/
def Resealed (S : Sealing K N T ε α) (old new : K) (t t' : T) : Prop :=
  t' = t ∨ S.Moved old new t t'

/-- A text that was moved is read under the new key as before. -/
theorem Moved.read (h : S.Moved old new t t') :
  ∃ a, S.read old t = .ok a ∧ S.read new t' = .ok a
  := by
  obtain ⟨n, a, hread, rfl⟩ := h
  exact ⟨a, hread, S.read_write new n a⟩

/-- It is read under the new key only. -/
theorem Moved.key (h : S.Moved old new t t') (hread : S.read k t' = .ok a) :
  k = new
  := by
  obtain ⟨b, -, hnew⟩ := h.read
  exact S.key_unique new k t' b a hnew hread

/-- Moving a text from a key to the same key keeps its value. -/
theorem Resealed.read_same (h : S.Resealed old old t t') (hread : S.read old t = .ok a) :
  S.read old t' = .ok a
  := by
  rcases h with rfl | hmoved
  · exact hread
  · obtain ⟨b, hold, hnew⟩ := hmoved.read
    rw [hread] at hold
    cases hold
    exact hnew

end Sealing
