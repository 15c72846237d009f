import Mathlib.Data.List.TakeWhile
import Mathlib.Data.List.Basic

/-!
# The challenges of a server

A server that wants to know who is calling sends challenges: the names of schemes, each with some
parameters, in one header value or in several.  The parser reads the items of a value one by one.
A word is a parameter if an equals sign comes after it, and a scheme otherwise; commas and blanks
between the items are all the same to it.

Schemes and the names of parameters are compared in lower case.
-/

namespace Termoso.Core.WebDav

/-- A text, character by character. -/
abbrev Text := List Char

def lower (s : Text) : Text := s.map Char.toLower

/-- One challenge from a `WWW-Authenticate` header. -/
structure Challenge where
  scheme : Text
  params : List (Text × Text)
deriving DecidableEq

/-- The first parameter with a name. -/
def Challenge.param (c : Challenge) (name : String) : Option Text :=
  (c.params.find? (fun p => lower p.1 == name.toList)).map Prod.snd

/-! ### The parser -/

def isBlank (c : Char) : Bool := c == ' ' || c == '\t'

/-- Between items. -/
def isGap (c : Char) : Bool := isBlank c || c == ','

/-- Inside of a word. -/
def isWord (c : Char) : Bool := !(isGap c || c == '=' || c == '"')

/-- The rest of a quoted text, up to the closing quote, and what comes after it. -/
def readQuoted : Text → Text × Text
  | [] => ([], [])
  | '"' :: rest => ([], rest)
  | '\\' :: c :: rest => (c :: (readQuoted rest).1, (readQuoted rest).2)
  | c :: rest => (c :: (readQuoted rest).1, (readQuoted rest).2)

/-- The value of a parameter, and what comes after it. -/
def readValue : Text → Text × Text
  | '"' :: rest => readQuoted rest
  | s => (s.takeWhile isWord, s.dropWhile isWord)

/-- What a value is made of. -/
inductive Item
  | scheme (name : Text)
  | param (name value : Text)
deriving DecidableEq

theorem length_dropWhile_le (p : Char → Bool) (s : Text) :
  (s.dropWhile p).length ≤ s.length
  := (List.dropWhile_sublist p).length_le

theorem length_readQuoted_le (s : Text) :
  (readQuoted s).2.length ≤ s.length
  := by
  fun_induction readQuoted s with
  | case1 => simp
  | case2 => simp
  | case3 => simp; omega
  | case4 => simp; omega

theorem length_readValue_le (s : Text) :
  (readValue s).2.length ≤ s.length
  := by
  unfold readValue
  split
  · rename_i rest
    exact Nat.le_succ_of_le (length_readQuoted_le rest)
  · exact length_dropWhile_le _ _

/-- The items of a value. A stray quote or equals sign is skipped. -/
def items (s : Text) : List Item :=
  match _here : s.dropWhile isGap with
  | [] => []
  | c :: rest =>
    if isWord c then
      let name := lower ((c :: rest).takeWhile isWord)
      match _next : (rest.dropWhile isWord).dropWhile isBlank with
      | '=' :: more =>
        .param name (readValue (more.dropWhile isBlank)).1 ::
          items (readValue (more.dropWhile isBlank)).2
      | _ => .scheme name :: items (rest.dropWhile isWord)
    else items rest
termination_by s.length
decreasing_by
  all_goals
    have hs := length_dropWhile_le isGap s
    rw [_here, List.length_cons] at hs
    have hword := length_dropWhile_le isWord rest
  · have hmore := length_dropWhile_le isBlank (rest.dropWhile isWord)
    rw [_next, List.length_cons] at hmore
    have hvalue := length_readValue_le (more.dropWhile isBlank)
    have hblank := length_dropWhile_le isBlank more
    omega
  · omega
  · omega

/-- Add an item to the challenges read so far. -/
def push (out : List Challenge) : Item → List Challenge
  | .scheme name => out ++ [{ scheme := name, params := [] }]
  | .param name value =>
    match out.getLast? with
    | some c => out.dropLast ++ [{ c with params := c.params ++ [(name, value)] }]
    | none => [{ scheme := [], params := [(name, value)] }]

/-- Parse every challenge in a `WWW-Authenticate` value. -/
def parseChallenges (value : Text) : List Challenge :=
  ((items value).foldl push []).filter (fun c => decide (c.scheme ≠ []))

/-! ### Rendered challenges -/

/-- A quoted text, with the marks that keep a character from ending it. Any character may be
marked. -/
inductive Quoted : Text → Text → Prop
  | nil : Quoted [] []
  | plain {c : Char} {v t : Text} : c ≠ '"' → c ≠ '\\' → Quoted v t → Quoted (c :: v) (c :: t)
  | marked {c : Char} {v t : Text} : Quoted v t → Quoted (c :: v) ('\\' :: c :: t)

/-- A word is written as it is. -/
def IsWord (t : Text) : Prop := t ≠ [] ∧ ∀ c ∈ t, isWord c = true

inductive ValueText : Text → Text → Prop
  | word {t : Text} : IsWord t → ValueText t t
  | quoted {v t : Text} : Quoted v t → ValueText v ('"' :: (t ++ ['"']))

/-- An item, as it may be written. -/
inductive ItemText : Item → Text → Prop
  | scheme {t : Text} : IsWord t → ItemText (.scheme (lower t)) t
  | param {t before after v text : Text} : IsWord t → (∀ c ∈ before, isBlank c = true) →
    (∀ c ∈ after, isBlank c = true) → ValueText v text →
    ItemText (.param (lower t) v) (t ++ before ++ '=' :: (after ++ text))

/-- Items with gaps between them. -/
inductive Rendered : List Item → Text → Prop
  | nil {gap : Text} : (∀ c ∈ gap, isGap c = true) → Rendered [] gap
  | cons {gap t rest : Text} {i : Item} {is : List Item} : (∀ c ∈ gap, isGap c = true) →
    ItemText i t → Rendered is rest → (rest = [] ∨ ∃ c rest', rest = c :: rest' ∧ isGap c = true) →
    Rendered (i :: is) (gap ++ t ++ rest)

/-- The items of a challenge. -/
def Challenge.toItems (c : Challenge) : List Item :=
  .scheme c.scheme :: c.params.map (fun p => .param p.1 p.2)

section
variable {s t rest gap v text : Text} {c : Char} {i : Item} {is : List Item}

theorem readQuoted_of_quoted (h : Quoted v t) (rest : Text) :
  readQuoted (t ++ '"' :: rest) = (v, rest)
  := by
  induction h with
  | nil => rfl
  | plain hquote hmark _ ih =>
      rw [List.cons_append, readQuoted]
      · rw [ih]
      · exact hquote
      · rintro _ _ rfl
        exact absurd rfl hmark
  | marked _ ih => rw [List.cons_append, List.cons_append, readQuoted, ih]

/-- What comes after an item begins with a gap. -/
def Ends (rest : Text) : Prop := rest = [] ∨ ∃ c rest', rest = c :: rest' ∧ isGap c = true

theorem isWord_of_ends (h : Ends rest) :
  rest.takeWhile isWord = [] ∧ rest.dropWhile isWord = rest
  := by
  rcases h with rfl | ⟨c, rest', rfl, hc⟩
  · exact ⟨rfl, rfl⟩
  · simp [isWord, hc]

theorem readValue_of_valueText (h : ValueText v text) (hrest : Ends rest) :
  readValue (text ++ rest) = (v, rest)
  := by
  cases h with
  | word hv =>
      obtain ⟨hne, hword⟩ := hv
      obtain ⟨c, v, rfl⟩ := List.exists_cons_of_ne_nil hne
      have hc : c ≠ '"' := by
        rintro rfl
        exact absurd (hword '"' List.mem_cons_self) (by decide)
      rw [List.cons_append, readValue]
      · rw [← List.cons_append, List.takeWhile_append_of_pos hword,
          List.dropWhile_append_of_pos hword, (isWord_of_ends hrest).1, (isWord_of_ends hrest).2,
          List.append_nil]
      · intro _ heq
        exact hc (List.cons.inj heq).1
  | quoted hv =>
      rw [List.cons_append, List.append_assoc, List.singleton_append, readValue,
        readQuoted_of_quoted hv]

theorem isGap_of_isWord (h : isWord c = true) :
  isGap c = false ∧ c ≠ '='
  := by
  simp only [isWord, Bool.not_eq_true', Bool.or_eq_false_iff, beq_eq_false_iff_ne] at h
  exact ⟨h.1.1, h.1.2⟩

/-- Past a gap comes a word, or nothing, and no equals sign. -/
theorem ne_eq_of_gap (hgap : ∀ c ∈ gap, isGap c = true) {tail : Text}
    (htail : ∀ c ∈ tail.head?, isWord c = true) (more : Text) :
  (gap ++ tail).dropWhile isBlank ≠ '=' :: more
  := by
  induction gap with
  | nil =>
      cases tail with
      | nil => simp
      | cons c tail =>
          obtain ⟨hc, hne⟩ := isGap_of_isWord (htail c rfl)
          simp only [isGap, Bool.or_eq_false_iff] at hc
          simp [hc.1, hne]
  | cons g gap ih =>
      have hg := hgap g List.mem_cons_self
      rw [List.cons_append, List.dropWhile_cons]
      split
      · exact ih (fun c hc => hgap c (List.mem_cons_of_mem _ hc))
      · rename_i hblank
        rintro h
        cases h
        exact absurd hg (by decide)

theorem head?_of_rendered (h : Rendered is text) :
  ∃ gap tail, text = gap ++ tail ∧ (∀ c ∈ gap, isGap c = true) ∧
    ∀ c ∈ tail.head?, isWord c = true
  := by
  cases h with
  | nil hgap => exact ⟨text, [], (List.append_nil _).symm, hgap, by simp⟩
  | @cons gap t rest i is hgap hitem _ _ =>
      refine ⟨gap, t ++ rest, List.append_assoc _ _ _, hgap, ?_⟩
      have hword : ∀ w : Text, IsWord w → ∀ tail, ∀ c ∈ (w ++ tail).head?, isWord c = true := by
        rintro w ⟨hne, hall⟩ tail c hc
        obtain ⟨d, w, rfl⟩ := List.exists_cons_of_ne_nil hne
        cases hc
        exact hall _ List.mem_cons_self
      cases hitem with
      | scheme ht => exact hword _ ht _
      | param ht =>
          rw [List.append_assoc, List.append_assoc]
          exact hword _ ht _

theorem items_gap (hgap : ∀ c ∈ gap, isGap c = true) :
  items gap = []
  := by
  rw [items]
  split
  · rfl
  · rename_i c rest h
    rw [List.dropWhile_eq_nil_iff.mpr hgap] at h
    cases h

theorem dropWhile_gap (hgap : ∀ c ∈ gap, isGap c = true) (hc : isWord c = true) :
  (gap ++ c :: s).dropWhile isGap = c :: s
  := by
  rw [List.dropWhile_append_of_pos hgap]
  simp [(isGap_of_isWord hc).1]

theorem items_scheme (hgap : ∀ c ∈ gap, isGap c = true) (ht : IsWord t) (hrest : Ends rest)
    (hne : ∀ more, rest.dropWhile isBlank ≠ '=' :: more) :
  items (gap ++ t ++ rest) = .scheme (lower t) :: items rest
  := by
  obtain ⟨hnil, hword⟩ := ht
  obtain ⟨c, t, rfl⟩ := List.exists_cons_of_ne_nil hnil
  have hc := hword c List.mem_cons_self
  have ht : ∀ d ∈ t, isWord d = true := fun d hd => hword d (List.mem_cons_of_mem c hd)
  have hskip : (gap ++ c :: t ++ rest).dropWhile isGap = c :: (t ++ rest) := by
    rw [List.append_assoc, List.cons_append, dropWhile_gap hgap hc]
  have htake : (c :: (t ++ rest)).takeWhile isWord = c :: t := by
    rw [← List.cons_append, List.takeWhile_append_of_pos hword, (isWord_of_ends hrest).1,
      List.append_nil]
  have hdrop : (t ++ rest).dropWhile isWord = rest := by
    rw [List.dropWhile_append_of_pos ht, (isWord_of_ends hrest).2]
  rw [items]
  split
  · rename_i h
    rw [hskip] at h
    cases h
  · rename_i c' rest' h
    rw [hskip] at h
    cases h
    rw [if_pos hc]
    dsimp only
    split
    · rename_i more hmore
      rw [hdrop] at hmore
      exact absurd hmore (hne more)
    · rw [htake, hdrop]

/-- A value does not begin with a blank. -/
theorem dropWhile_valueText (h : ValueText v text) :
  (text ++ rest).dropWhile isBlank = text ++ rest
  := by
  cases h with
  | word hv =>
      obtain ⟨hnil, hword⟩ := hv
      obtain ⟨c, v, rfl⟩ := List.exists_cons_of_ne_nil hnil
      have hc := (isGap_of_isWord (hword c List.mem_cons_self)).1
      simp only [isGap, Bool.or_eq_false_iff] at hc
      simp [hc.1]
  | quoted _ =>
      rw [List.cons_append, List.dropWhile_cons]
      rfl

theorem dropWhile_before {before : Text} (hbefore : ∀ c ∈ before, isBlank c = true) :
  (before ++ '=' :: s).takeWhile isWord = [] ∧
    (before ++ '=' :: s).dropWhile isWord = before ++ '=' :: s
  := by
  cases before with
  | nil =>
      have heq : isWord '=' = false := by decide
      simp [heq]
  | cons b before =>
      have hb : isWord b = false := by simp [isWord, isGap, hbefore b List.mem_cons_self]
      simp [hb]

theorem items_param {before after : Text} (hgap : ∀ c ∈ gap, isGap c = true) (ht : IsWord t)
    (hbefore : ∀ c ∈ before, isBlank c = true) (hafter : ∀ c ∈ after, isBlank c = true)
    (hvalue : ValueText v text) (hrest : Ends rest) :
  items (gap ++ (t ++ before ++ '=' :: (after ++ text)) ++ rest) = .param (lower t) v :: items rest
  := by
  obtain ⟨hnil, hword⟩ := ht
  obtain ⟨c, t, rfl⟩ := List.exists_cons_of_ne_nil hnil
  have hc := hword c List.mem_cons_self
  have ht : ∀ d ∈ t, isWord d = true := fun d hd => hword d (List.mem_cons_of_mem c hd)
  obtain ⟨htakeEnd, hdropEnd⟩ := dropWhile_before (s := after ++ (text ++ rest)) hbefore
  have hskip : (gap ++ (c :: t ++ before ++ '=' :: (after ++ text)) ++ rest).dropWhile isGap =
      c :: (t ++ (before ++ '=' :: (after ++ (text ++ rest)))) := by
    simp only [List.append_assoc, List.cons_append]
    rw [dropWhile_gap hgap hc]
  have htake : (c :: (t ++ (before ++ '=' :: (after ++ (text ++ rest))))).takeWhile isWord =
      c :: t := by
    rw [← List.cons_append, List.takeWhile_append_of_pos hword, htakeEnd, List.append_nil]
  have hdrop : ((t ++ (before ++ '=' :: (after ++ (text ++ rest)))).dropWhile isWord).dropWhile
      isBlank = '=' :: (after ++ (text ++ rest)) := by
    rw [List.dropWhile_append_of_pos ht, hdropEnd, List.dropWhile_append_of_pos hbefore]
    rfl
  have hread : readValue ((after ++ (text ++ rest)).dropWhile isBlank) = (v, rest) := by
    rw [List.dropWhile_append_of_pos hafter, dropWhile_valueText hvalue,
      readValue_of_valueText hvalue hrest]
  rw [items]
  split
  · rename_i h
    rw [hskip] at h
    cases h
  · rename_i c' rest' h
    rw [hskip] at h
    cases h
    rw [if_pos hc]
    dsimp only
    split
    · rename_i more hmore
      rw [hdrop] at hmore
      cases hmore
      rw [htake, hread]
    · rename_i hno
      exact absurd hdrop (hno _)

/-- Items that are rendered are read. -/
theorem items_of_rendered (h : Rendered is text) :
  items text = is
  := by
  induction h with
  | nil hgap => exact items_gap hgap
  | cons hgap hitem hrest hends ih =>
      cases hitem with
      | scheme ht =>
          obtain ⟨gap', tail, rfl, hgap', htail⟩ := head?_of_rendered hrest
          rw [items_scheme hgap ht hends (ne_eq_of_gap hgap' htail), ih]
      | param ht hbefore hafter hvalue =>
          rw [items_param hgap ht hbefore hafter hvalue hends, ih]

/-- A scheme that is rendered has a name. -/
theorem scheme_ne_nil (h : Rendered is text) {name : Text} (hname : Item.scheme name ∈ is) :
  name ≠ []
  := by
  induction h with
  | nil => cases hname
  | cons _ hitem _ _ ih =>
      rcases List.mem_cons.mp hname with rfl | hname
      · cases hitem with
        | scheme ht =>
            rw [lower, ne_eq, List.map_eq_nil_iff]
            exact ht.1
      · exact ih hname

theorem foldl_params (out : List Challenge) (c : Challenge) (params : List (Text × Text)) :
  (params.map (fun p => Item.param p.1 p.2)).foldl push (out ++ [c]) =
    out ++ [{ c with params := c.params ++ params }]
  := by
  induction params generalizing c with
  | nil => simp
  | cons p params ih =>
      have hpush : push (out ++ [c]) (.param p.1 p.2) =
          out ++ [{ c with params := c.params ++ [p] }] := by
        simp [push]
      rw [List.map_cons, List.foldl_cons, hpush, ih]
      simp

theorem foldl_toItems (out cs : List Challenge) :
  (cs.flatMap Challenge.toItems).foldl push out = out ++ cs
  := by
  induction cs generalizing out with
  | nil => simp
  | cons c cs ih =>
      rw [List.flatMap_cons, List.foldl_append, Challenge.toItems, List.foldl_cons, push,
        foldl_params, ih]
      simp

/-- Challenges that are rendered are parsed. -/
theorem parseChallenges_of_rendered {cs : List Challenge}
    (h : Rendered (cs.flatMap Challenge.toItems) text) :
  parseChallenges text = cs
  := by
  rw [parseChallenges, items_of_rendered h, foldl_toItems, List.nil_append, List.filter_eq_self]
  intro c hc
  rw [decide_eq_true_iff]
  apply scheme_ne_nil h
  rw [List.mem_flatMap]
  exact ⟨c, hc, List.mem_cons_self⟩

end

end Termoso.Core.WebDav
