import Mathlib.Data.List.Basic

/-!
# Lexical paths

A path of a file system as its syntax gives it: a prefix, such as a drive, where the platform
has them, whether it starts at the root, and its segments.  Empty segments and `.` are not
there; `..` is a segment like any other, since nothing is looked up.

Joining a path to a directory replaces the directory where the path has a prefix or starts at
the root.  A path lies inside a directory when it spells the directory and goes on without
`..`.
-/

/-- A path, as it is spelled. -/
structure LexicalPath where
  drive : Option String
  rooted : Bool
  segments : List String
deriving DecidableEq

namespace LexicalPath

/-- The path `n` taken from the directory `p`. -/
def join (p n : LexicalPath) : LexicalPath :=
  if n.drive.isSome then n
  else if n.rooted then { n with drive := p.drive }
  else { p with segments := p.segments ++ n.segments }

/-- A path spells a directory and goes on without `..`. -/
def Inside (root p : LexicalPath) : Prop :=
  p.drive = root.drive ∧ p.rooted = root.rooted
    ∧ ∃ rest, p.segments = root.segments ++ rest ∧ ".." ∉ rest

/-- A path to be joined that stays inside: it has no `..`, or spells the directory itself. -/
def Safe (root n : LexicalPath) : Prop :=
  if n.drive.isSome then root.Inside n
  else if n.rooted then root.Inside { n with drive := root.drive }
  else ".." ∉ n.segments

variable {root p n : LexicalPath}

theorem inside_self :
  root.Inside root
  := ⟨rfl, rfl, [], (List.append_nil _).symm, List.not_mem_nil⟩

/-- Joined to a directory inside, exactly the safe paths stay inside. -/
theorem inside_join_iff (h : root.Inside p) :
  root.Inside (p.join n) ↔ root.Safe n
  := by
  obtain ⟨hdrive, hrooted, rest, hsegments, hrest⟩ := h
  rw [join, Safe]
  split
  · exact Iff.rfl
  · split
    · rw [hdrive]
    · constructor
      · rintro ⟨-, -, rest', hsegments', hrest'⟩
        rw [hsegments, List.append_assoc] at hsegments'
        rw [← List.append_cancel_left hsegments'] at hrest'
        exact fun hn => hrest' (List.mem_append_right _ hn)
      · intro hn
        refine ⟨hdrive, hrooted, rest ++ n.segments, ?_, ?_⟩
        · rw [hsegments, List.append_assoc]
        · rw [List.mem_append, not_or]
          exact ⟨hrest, hn⟩

end LexicalPath
