import Termoso.Lib.UrlHost
import Termoso.Lib.Split
import Termoso.Lib.Result

/-!
# URLs of the web

URLs with the schemes `http` and `https` as the URL standard reads them, from a text alone or as a
reference from another; and changes of their path.  URLs of other schemes are read by a parameter,
which gives their path.
-/

namespace WebUrl

open Digits Utf8 Split Percent UrlHost

inductive Scheme
  | http
  | https
deriving DecidableEq

def Scheme.text : Scheme → Text
  | .http => "http".toList
  | .https => "https".toList

def Scheme.ofText (s : Text) : Option Scheme :=
  if s = "http".toList then some .http else if s = "https".toList then some .https else none

def Scheme.defaultPort : Scheme → UInt16
  | .http => 80
  | .https => 443

structure Url where
  scheme : Scheme
  username : Text
  password : Text
  host : Host
  /-- The port, unless it is the default one of the scheme. -/
  port : Option UInt16
  path : Text
  query : Option Text
  fragment : Option Text
deriving DecidableEq

/-- A URL that is read, or the scheme and the path of one with another scheme. -/
inductive Parsed
  | web (u : Url)
  | other (scheme path : Text)
deriving DecidableEq

def Parsed.path : Parsed → Text
  | .web u => u.path
  | .other _ path => path

/-- What reading a URL depends on. -/
structure Library where
  idna : Idna
  /-- The path of a URL of another scheme, from the scheme and what follows the colon. -/
  other : Text → Text → Except ParseError Text

/-! ### Characters that are written as bytes -/

def isC0 (c : Char) : Bool := decide (c.toNat < 0x20) || decide (0x7E < c.toNat)

def fragmentSet (c : Char) : Bool := isC0 c || " \"<>`".toList.contains c

def querySet (c : Char) : Bool := isC0 c || " \"#<>'".toList.contains c

def pathSet (c : Char) : Bool := isC0 c || " \"#<>?^`\x7b\x7d".toList.contains c

def userinfoSet (c : Char) : Bool := pathSet c || "/:;=@[\\]|".toList.contains c

/-- Those of a segment that is added to a path. -/
def segmentSet (c : Char) : Bool := pathSet c || "/%\\".toList.contains c

/-! ### Paths -/

def isTabOrNewline (c : Char) : Bool := c == '\t' || c == '\n' || c == '\r'

def dropTabs (s : Text) : Text := s.filter (fun c => !isTabOrNewline c)

def isSlash (c : Char) : Bool := c == '/' || c == '\\'

def singleDots : List Text := [".".toList, "%2e".toList, "%2E".toList]

def doubleDots : List Text :=
  ["..".toList, ".%2e".toList, ".%2E".toList, "%2e.".toList, "%2E.".toList, "%2e%2e".toList,
    "%2e%2E".toList, "%2E%2e".toList, "%2E%2E".toList]

/-- Segments after others, those of one dot and of two resolved. -/
def resolve (acc : List Text) : List Text → List Text
  | [] => acc
  | s :: ss =>
    if s ∈ doubleDots then resolve (acc.dropLast ++ if ss = [] then [[]] else []) ss
    else if s ∈ singleDots then resolve (acc ++ if ss = [] then [[]] else []) ss
    else resolve (acc ++ [s]) ss

/-- The segments of a path without its first slash. -/
def segments (s : Text) : List Text := (s.map (fun c => if c = '\\' then '/' else c)).splitOn '/'

/-- What follows a slash. -/
def afterSlash : Text → Text
  | c :: s => if isSlash c then s else c :: s
  | [] => []

/-- A path of segments. -/
def joined (segs : List Text) : Text := segs.flatMap (fun s => '/' :: s)

/-- The path that a text is read as, after segments. -/
def parsePath (acc : List Text) (s : Text) : Text :=
  joined (resolve acc ((segments (afterSlash s)).map (encode pathSet)))

/-- The segments of a path that was read. -/
def pathSegments (p : Text) : List Text := (p.drop 1).splitOn '/'

/-! ### Reading -/

def isPathChar (c : Char) : Bool := !(c == '?' || c == '#')

/-- The fragment that a text begins with. -/
def fragmentOf : Text → Option Text
  | '#' :: s => some (encode fragmentSet s)
  | _ => none

/-- A URL with the query and the fragment that a text begins with. -/
def Url.withTail (u : Url) : Text → Url
  | '?' :: s =>
    { u with
      query := some (encode querySet (s.takeWhile (fun c => decide (c ≠ '#'))))
      fragment := fragmentOf (s.dropWhile (fun c => decide (c ≠ '#'))) }
  | s => { u with fragment := fragmentOf s }

/-- A URL with the path, the query and the fragment of a text. -/
def Url.withPath (u : Url) (acc : List Text) (s : Text) : Url :=
  { u with path := parsePath acc (s.takeWhile isPathChar), query := none }.withTail
    (s.dropWhile isPathChar)

/-- What stands before the last at sign, and after it. -/
def cutUserinfo (s : Text) : Text × Text :=
  let back := s.reverse
  ((back.dropWhile (fun c => decide (c ≠ '@'))).drop 1 |>.reverse,
    (back.takeWhile (fun c => decide (c ≠ '@'))).reverse)

/-- What stands before the colon that is not between brackets, and after it. -/
def cutPort : Bool → Text → Text × Option Text
  | _, [] => ([], none)
  | inside, c :: s =>
    if c = ':' ∧ inside = false then ([], some s)
    else
      let r := cutPort (if c = '[' then true else if c = ']' then false else inside) s
      (c :: r.1, r.2)

def parsePort (scheme : Scheme) : Option Text → Except ParseError (Option UInt16)
  | none => .ok none
  | some s =>
    if s.all Char.isDigit && decide (value 10 s ≤ 65535) then
      .ok (if s = [] ∨ UInt16.ofNat (value 10 s) = scheme.defaultPort then none
        else some (.ofNat (value 10 s)))
    else .error .invalidPort

def isAuthorityChar (c : Char) : Bool := !isSlash c && isPathChar c

/-- Read what follows the slashes after a scheme. -/
def parseAuthority (idna : Idna) (scheme : Scheme) (s : Text) : Except ParseError Url :=
  let (userinfo, hostPort) := cutUserinfo (s.takeWhile isAuthorityChar)
  let (username, password) := (cut [':'] userinfo).getD (userinfo, [])
  let (host, port) := cutPort false hostPort
  if host = [] then .error .emptyHost
  else do
    let host ← UrlHost.parse idna host
    let port ← parsePort scheme port
    return Url.withPath
      { scheme, username := encode userinfoSet username, password := encode userinfoSet password,
        host, port, path := [], query := none, fragment := none } []
      (s.dropWhile isAuthorityChar)

def isSchemeChar (c : Char) : Bool := c.isAlphanum || c == '+' || c == '-' || c == '.'

/-- The scheme before a colon, and what follows it. -/
def cutScheme (s : Text) : Option (Text × Text) :=
  match s.takeWhile isSchemeChar, s.dropWhile isSchemeChar with
  | c :: name, ':' :: rest =>
    if c.isAlpha then some ((c :: name).map Char.toLower, rest) else none
  | _, _ => none

/-- A text without the control characters that reading passes over. -/
def clean (s : Text) : Text := dropTabs (trimBy (fun c => decide (c.toNat ≤ 0x20)) s)

variable (lib : Library)

/-- Read a URL. -/
def parse (s : Text) : Except ParseError Parsed :=
  match cutScheme (clean s) with
  | none => .error .relativeUrlWithoutBase
  | some (name, rest) =>
    match Scheme.ofText name with
    | some scheme => (parseAuthority lib.idna scheme (rest.dropWhile isSlash)).map .web
    | none => (lib.other name rest).map (.other name)

/-- Read a reference without a scheme. -/
def relative (base : Url) (s : Text) : Except ParseError Url :=
  if 2 ≤ (s.takeWhile isSlash).length then
    parseAuthority lib.idna base.scheme (s.dropWhile isSlash)
  else if s.head?.any isSlash then .ok (base.withPath [] s)
  else if s.head?.any isPathChar then .ok (base.withPath (pathSegments base.path).dropLast s)
  else .ok (base.withTail s)

/-- Read a reference. -/
def join (base : Url) (s : Text) : Except ParseError Parsed :=
  match cutScheme (clean s) with
  | none => (relative lib base (clean s)).map .web
  | some (name, rest) =>
    match Scheme.ofText name with
    | some scheme =>
      if scheme = base.scheme ∧ rest.take 2 ≠ ['/', '/'] then (relative lib base rest).map .web
      else (parseAuthority lib.idna scheme (rest.dropWhile isSlash)).map .web
    | none => (lib.other name rest).map (.other name)

/-! ### Changing the path -/

def Url.setPath (u : Url) (p : Text) : Url := { u with path := parsePath [] (dropTabs p) }

/-- Take away a last segment that is empty. -/
def popIfEmpty (p : Text) : Text :=
  if 1 < p.length ∧ p.getLast? = some '/' then p.dropLast else p

/-- Add a segment. -/
def pushSegment (p : Text) (s : Text) : Text :=
  if s = ['.'] ∨ s = ['.', '.'] then p
  else
    joined (resolve (if p = ['/'] then [] else pathSegments p) [encode segmentSet (dropTabs s)])

/-! ### Paths that were read -/

/-- A segment of a path that was read. -/
def IsSegment (s : Text) : Prop :=
  (∀ c ∈ s, pathSet c = false ∧ c ≠ '/' ∧ c ≠ '\\') ∧ s ∉ doubleDots ∧ s ∉ singleDots

/-- A path that was read. -/
def IsPath (p : Text) : Prop := ∃ segs, segs ≠ [] ∧ (∀ s ∈ segs, IsSegment s) ∧ p = joined segs

section
variable {acc segs : List Text} {s p : Text}

theorem joined_cons (s : Text) (segs : List Text) :
  joined (s :: segs) = '/' :: s ++ joined segs
  := rfl

theorem joined_append (segs segs' : List Text) :
  joined (segs ++ segs') = joined segs ++ joined segs'
  := List.flatMap_append

theorem joined_eq (h : segs ≠ []) :
  joined segs = '/' :: ['/'].intercalate segs
  := by
  induction segs with
  | nil => exact absurd rfl h
  | cons s segs ih =>
      cases segs with
      | nil =>
          rw [joined_cons, List.intercalate_singleton]
          exact List.append_nil _
      | cons t segs =>
          rw [joined_cons, ih (List.cons_ne_nil _ _), List.intercalate_cons_cons,
            List.append_assoc]
          rfl

/-- The segments of a text are joined to it. -/
theorem joined_splitOn (s : Text) :
  joined (s.splitOn '/') = '/' :: s
  := by
  rw [joined_eq (List.splitOn_ne_nil _ _), List.intercalate_splitOn]

theorem splitOn_joined (hne : segs ≠ []) (h : ∀ s ∈ segs, '/' ∉ s) :
  ((joined segs).drop 1).splitOn '/' = segs
  := by
  rw [joined_eq hne, List.drop_one, List.tail_cons, List.splitOn_intercalate _ h hne]

/-- What is added to a path that was read. -/
theorem joined_pathSegments (h : p.head? = some '/') :
  joined (pathSegments p) = p
  := by
  cases p with
  | nil => cases h
  | cons c p =>
      cases h
      exact joined_splitOn p

theorem mem_resolve (h : s ∈ resolve acc segs) :
  s ∈ acc ∨ s = [] ∨ (s ∈ segs ∧ s ∉ doubleDots ∧ s ∉ singleDots)
  := by
  induction segs generalizing acc with
  | nil => exact .inl h
  | cons t segs ih =>
      have hempty : ∀ acc' : List Text, s ∈ acc' ++ (if segs = [] then [[]] else []) →
          s ∈ acc' ∨ s = [] := by
        intro acc' hmem
        rcases List.mem_append.mp hmem with hmem | hmem
        · exact .inl hmem
        · split at hmem
          · exact .inr (List.mem_singleton.mp hmem)
          · cases hmem
      rw [resolve] at h
      split at h
      · rcases ih h with h | h | h
        · rcases hempty _ h with h | h
          · exact .inl (List.mem_of_mem_dropLast h)
          · exact .inr (.inl h)
        · exact .inr (.inl h)
        · exact .inr (.inr ⟨List.mem_cons_of_mem t h.1, h.2⟩)
      rename_i hdouble
      split at h
      · rcases ih h with h | h | h
        · rcases hempty _ h with h | h
          · exact .inl h
          · exact .inr (.inl h)
        · exact .inr (.inl h)
        · exact .inr (.inr ⟨List.mem_cons_of_mem t h.1, h.2⟩)
      rename_i hsingle
      rcases ih h with h | h | h
      · rcases List.mem_append.mp h with h | h
        · exact .inl h
        · obtain rfl := List.mem_singleton.mp h
          exact .inr (.inr ⟨List.mem_cons_self, hdouble, hsingle⟩)
      · exact .inr (.inl h)
      · exact .inr (.inr ⟨List.mem_cons_of_mem t h.1, h.2⟩)

/-- Segments that are no dots are resolved to themselves. -/
theorem resolve_eq (h : ∀ s ∈ segs, s ∉ doubleDots ∧ s ∉ singleDots) :
  resolve acc segs = acc ++ segs
  := by
  induction segs generalizing acc with
  | nil => exact (List.append_nil acc).symm
  | cons s segs ih =>
      have hs := h s List.mem_cons_self
      rw [resolve, if_neg hs.1, if_neg hs.2, ih (fun t ht => h t (List.mem_cons_of_mem s ht)),
        List.append_assoc, List.singleton_append]

theorem resolve_ne_nil (h : acc ≠ [] ∨ segs ≠ []) :
  resolve acc segs ≠ []
  := by
  induction segs generalizing acc with
  | nil => exact h.resolve_right (fun h => h rfl)
  | cons s segs ih =>
      have hrest : ∀ acc' : List Text,
          acc' ++ (if segs = [] then [[]] else []) ≠ [] ∨ segs ≠ [] := by
        intro acc'
        by_cases hsegs : segs = []
        · rw [if_pos hsegs]
          exact .inl (List.append_ne_nil_of_right_ne_nil _ (List.cons_ne_nil _ _))
        · exact .inr hsegs
      rw [resolve]
      split
      · exact ih (hrest _)
      split
      · exact ih (hrest _)
      · exact ih (.inl (List.append_ne_nil_of_right_ne_nil _ (List.cons_ne_nil _ _)))

/-- An empty last segment stays the last one. -/
theorem resolve_concat (acc segs : List Text) :
  ∃ segs', resolve acc (segs ++ [[]]) = segs' ++ [[]]
  := by
  induction segs generalizing acc with
  | nil =>
      refine ⟨acc, resolve_eq (fun s hs => ?_)⟩
      rw [List.mem_singleton.mp hs]
      decide
  | cons s segs ih =>
      rw [List.cons_append, resolve]
      split
      · exact ih _
      split
      · exact ih _
      · exact ih _

theorem length_joined_resolve (acc segs : List Text) :
  (joined (resolve acc segs)).length ≤ (joined acc).length + (joined segs).length
  := by
  induction segs generalizing acc with
  | nil => exact Nat.le_add_right _ _
  | cons s segs ih =>
      have hempty : ∀ acc' : List Text, (joined (acc' ++ if segs = [] then [[]] else [])).length
          ≤ (joined acc').length + 1 := by
        intro acc'
        rw [joined_append, List.length_append]
        split
        · exact Nat.le_refl _
        · exact Nat.le_add_right _ _
      have hdrop : (joined acc.dropLast).length ≤ (joined acc).length := by
        rcases List.eq_nil_or_concat acc with rfl | ⟨acc', t, rfl⟩
        · exact Nat.le_refl _
        · rw [List.concat_eq_append, List.dropLast_concat, joined_append, List.length_append]
          exact Nat.le_add_right _ _
      have hcons : (joined (s :: segs)).length = s.length + 1 + (joined segs).length := by
        rw [joined_cons, List.length_append, List.length_cons]
      rw [resolve, hcons]
      split
      · have h := ih (acc.dropLast ++ if segs = [] then [[]] else [])
        have h' := hempty acc.dropLast
        omega
      split
      · have h := ih (acc ++ if segs = [] then [[]] else [])
        have h' := hempty acc
        omega
      · have h := ih (acc ++ [s])
        rw [joined_append, List.length_append, joined_cons, List.length_append,
          List.length_cons] at h
        have hnil : (joined []).length = 0 := rfl
        omega

/-! ### Characters of paths -/

theorem pathSet_of_isHex {c : Char} (h : isHex c = true) :
  pathSet c = false ∧ isSlash c = false
  := by
  have hbound := toNat_of_isSome_toDigit h
  have hall : ∀ n : Fin 103, isHex (Char.ofNat n.val) = true →
      pathSet (Char.ofNat n.val) = false ∧ isSlash (Char.ofNat n.val) = false := by
    decide
  have hc := hall ⟨c.toNat, by omega⟩
  rw [Char.ofNat_toNat] at hc
  exact hc h

theorem decode_encode_path (s : Text) :
  decode (encode pathSet s) = decode s
  := decode_encode (by decide) (fun _ h => (pathSet_of_isHex h).1) s

/-- No character of the set is written as dots. -/
theorem encode_of_mem_dots (h : encode pathSet s ∈ singleDots ++ doubleDots) :
  encode pathSet s = s
  := by
  apply encode_eq_self
  intro c hc
  cases hset : pathSet c with
  | false => rfl
  | true =>
      have hdots : ∀ t ∈ singleDots ++ doubleDots, ∀ b ∈ decode t, b = 0x2E := by
        have hall : (singleDots ++ doubleDots).all
            (fun t => (decode t).all (fun b => b == 0x2E)) = true := by
          decide
        intro t ht b hb
        exact eq_of_beq (List.all_eq_true.mp (List.all_eq_true.mp hall t ht) b hb)
      have hhex : isHex c = false := by
        cases hhex : isHex c with
        | false => rfl
        | true =>
            rw [(pathSet_of_isHex hhex).1] at hset
            cases hset
      have hpercent : c ≠ '%' := by
        rintro rfl
        cases hset
      -- the first byte of the character is that of a dot
      obtain ⟨b, bytes, hbytes⟩ :=
        List.exists_cons_of_ne_nil (String.utf8EncodeChar_ne_nil (c := c))
      have hb : b ∈ decode s :=
        mem_decode hc hpercent hhex (by rw [hbytes]; exact List.mem_cons_self)
      rw [← decode_encode_path] at hb
      obtain rfl := hdots _ h b hb
      have hread := lossy_char c []
      rw [hbytes, List.cons_append, lossy_cons (by decide)] at hread
      obtain rfl := (List.cons.inj hread).1
      cases hset

/-- Dots are written as they are. -/
theorem encode_dots {dots : List Text} (hdots : ∀ t ∈ dots, t ∈ singleDots ++ doubleDots) :
  encode pathSet s ∈ dots ↔ s ∈ dots
  := by
  have hall : (singleDots ++ doubleDots).all (fun t => t.all (fun c => !pathSet c)) = true := by
    decide
  constructor
  · intro h
    rw [← encode_of_mem_dots (hdots _ h)]
    exact h
  · intro h
    have hset : ∀ c ∈ s, pathSet c = false := by
      intro c hc
      have hnot := List.all_eq_true.mp (List.all_eq_true.mp hall s (hdots s h)) c hc
      exact (Bool.not_eq_true' _).mp hnot
    rw [encode_eq_self hset]
    exact h

theorem encode_doubleDots :
  encode pathSet s ∈ doubleDots ↔ s ∈ doubleDots
  := encode_dots (fun _ h => List.mem_append_right _ h)

theorem encode_singleDots :
  encode pathSet s ∈ singleDots ↔ s ∈ singleDots
  := encode_dots (fun _ h => List.mem_append_left _ h)

theorem resolve_map (acc segs : List Text) :
  resolve (acc.map (encode pathSet)) (segs.map (encode pathSet))
    = (resolve acc segs).map (encode pathSet)
  := by
  induction segs generalizing acc with
  | nil => rfl
  | cons s segs ih =>
      have hempty : (if segs.map (encode pathSet) = [] then [[]] else [])
          = (if segs = [] then [[]] else []).map (encode pathSet) := by
        cases segs <;> rfl
      rw [List.map_cons, resolve, resolve, hempty]
      by_cases hdouble : s ∈ doubleDots
      · rw [if_pos (encode_doubleDots.mpr hdouble), if_pos hdouble, ← ih, List.map_append,
          List.map_dropLast]
      rw [if_neg (mt encode_doubleDots.mp hdouble), if_neg hdouble]
      by_cases hsingle : s ∈ singleDots
      · rw [if_pos (encode_singleDots.mpr hsingle), if_pos hsingle, ← ih, List.map_append]
      rw [if_neg (mt encode_singleDots.mp hsingle), if_neg hsingle, ← ih, List.map_append]
      rfl

theorem encode_joined (segs : List Text) :
  encode pathSet (joined segs) = joined (segs.map (encode pathSet))
  := by
  induction segs with
  | nil => rfl
  | cons s segs ih =>
      rw [joined_cons, List.map_cons, joined_cons, encode_append, ih,
        encode_cons_of_neg (by decide)]

theorem mem_segments {c : Char} (hs : s ∈ segments p) (hc : c ∈ s) :
  isSlash c = false
  := by
  obtain ⟨hnot, hsub⟩ := mem_splitOn hs
  obtain ⟨d, -, hd⟩ := List.mem_map.mp (hsub hc)
  have hslash : c ≠ '/' := fun h => hnot (h ▸ hc)
  have hback : c ≠ '\\' := by
    rintro rfl
    split at hd
    · cases hd
    · rename_i hne
      exact hne hd
  rw [isSlash, beq_false_of_ne hslash, beq_false_of_ne hback]
  rfl

theorem isSegment_encode (hslash : ∀ c ∈ s, isSlash c = false) (hdouble : s ∉ doubleDots)
    (hsingle : s ∉ singleDots) :
  IsSegment (encode pathSet s)
  := by
  refine ⟨fun c hc => ?_, mt encode_doubleDots.mp hdouble, mt encode_singleDots.mp hsingle⟩
  have hnot : ∀ {c}, isSlash c = false → c ≠ '/' ∧ c ≠ '\\' := by
    rintro c h
    constructor <;> rintro rfl <;> cases h
  rcases of_mem_encode hc with ⟨hmem, hset⟩ | rfl | hhex
  · exact ⟨hset, hnot (hslash c hmem)⟩
  · decide
  · exact ⟨(pathSet_of_isHex hhex).1, hnot (pathSet_of_isHex hhex).2⟩

/-- What a text is read as is a path, after segments of one. -/
theorem isPath_parsePath (hacc : ∀ s ∈ acc, IsSegment s) (s : Text) :
  IsPath (parsePath acc s)
  := by
  have hsegs : (segments (afterSlash s)).map (encode pathSet) ≠ [] := by
    rw [Ne, List.map_eq_nil_iff]
    exact List.splitOn_ne_nil _ _
  refine ⟨_, resolve_ne_nil (.inr hsegs), fun t ht => ?_, rfl⟩
  rcases mem_resolve ht with ht | rfl | ⟨ht, hdouble, hsingle⟩
  · exact hacc t ht
  · exact ⟨fun c hc => (List.not_mem_nil hc).elim, by decide, by decide⟩
  · obtain ⟨u, hu, rfl⟩ := List.mem_map.mp ht
    exact isSegment_encode (fun c hc => mem_segments hu hc) (mt encode_doubleDots.mpr hdouble)
      (mt encode_singleDots.mpr hsingle)

/-- A path that was read is read as itself. -/
theorem parsePath_of_isPath (h : IsPath p) :
  parsePath [] p = p
  := by
  obtain ⟨segs, hne, hsegs, rfl⟩ := h
  have hafter : afterSlash (joined segs) = (joined segs).drop 1 := by
    rw [joined_eq hne]
    rfl
  have hback : '\\' ∉ (joined segs).drop 1 := by
    intro hmem
    obtain ⟨s, hs, hc⟩ := List.mem_flatMap.mp (List.mem_of_mem_drop hmem)
    rcases List.mem_cons.mp hc with hc | hc
    · cases hc
    · exact ((hsegs s hs).1 _ hc).2.2 rfl
  have hsegments : segments (afterSlash (joined segs)) = segs := by
    rw [segments, hafter, List.map_congr_left (g := id), List.map_id, splitOn_joined hne]
    · exact fun s hs hc => ((hsegs s hs).1 _ hc).2.1 rfl
    · intro c hc
      have hne : c ≠ '\\' := by
        rintro rfl
        exact hback hc
      rw [if_neg hne]
      rfl
  have hencode : segs.map (encode pathSet) = segs := by
    rw [List.map_congr_left (g := id), List.map_id]
    exact fun s hs => encode_eq_self (fun c hc => ((hsegs s hs).1 c hc).1)
  rw [parsePath, hsegments, hencode, resolve_eq (fun s hs => (hsegs s hs).2), List.nil_append]

/-- What a text is read as before its characters are written as bytes. -/
def rawPath (s : Text) : Text := joined (resolve [] (segments (afterSlash s)))

theorem parsePath_eq (s : Text) :
  parsePath [] s = encode pathSet (rawPath s)
  := by
  rw [parsePath, rawPath, encode_joined, ← resolve_map]
  rfl

theorem length_segments (s : Text) :
  (joined (segments s)).length = s.length + 1
  := by
  rw [segments, joined_splitOn, List.length_cons, List.length_map]

/-- A path is read as no longer one. -/
theorem length_rawPath_le (h : s.head? = some '/') :
  (rawPath s).length ≤ s.length
  := by
  cases s with
  | nil => cases h
  | cons c s =>
      cases h
      have hafter : afterSlash ('/' :: s) = s := rfl
      have hle := length_joined_resolve [] (segments s)
      have hnil : (joined []).length = 0 := rfl
      rw [length_segments, hnil] at hle
      rw [rawPath, hafter, List.length_cons]
      omega

theorem not_mem_rawPath (s : Text) :
  '\\' ∉ rawPath s
  := by
  intro hmem
  obtain ⟨t, ht, hc⟩ := List.mem_flatMap.mp hmem
  rcases List.mem_cons.mp hc with hc | hc
  · cases hc
  rcases mem_resolve ht with ht | rfl | ⟨ht, -⟩
  · cases ht
  · cases hc
  · have hslash := mem_segments ht hc
    cases hslash

/-- A slash at the end stays there. -/
theorem getLast?_rawPath (h : s.head? = some '/') (hlast : s.getLast? = some '/') :
  (rawPath s).getLast? = some '/'
  := by
  cases s with
  | nil => cases h
  | cons c s =>
      cases h
      have hafter : afterSlash ('/' :: s) = s := rfl
      rcases List.eq_nil_or_concat s with rfl | ⟨s, d, rfl⟩
      · rfl
      rw [List.concat_eq_append] at hlast hafter ⊢
      rw [← List.cons_append, List.getLast?_concat] at hlast
      obtain rfl := Option.some.inj hlast
      have hsegments : segments (s ++ ['/']) = segments s ++ [[]] := by
        rw [segments, segments, List.map_append, List.map_singleton, if_neg (by decide),
          List.splitOn_append_cons_self, List.splitOn_nil]
      obtain ⟨segs, hsegs⟩ := resolve_concat [] (segments s)
      have hnil : joined [[]] = ['/'] := rfl
      rw [rawPath, hafter, hsegments, hsegs, joined_append, hnil, List.getLast?_concat]

/-- A text without backslashes is read as it is when what is written of it was read. -/
theorem parsePath_of_encode (hback : '\\' ∉ s) (h : s.head? = some '/')
    (hp : IsPath (encode pathSet s)) :
  parsePath [] s = encode pathSet s
  := by
  cases s with
  | nil => cases h
  | cons c s =>
      cases h
      have hafter : afterSlash ('/' :: s) = s := rfl
      have hmap : s.map (fun c => if c = '\\' then '/' else c) = s := by
        rw [List.map_congr_left (g := id), List.map_id]
        intro c hc
        have hne : c ≠ '\\' := by
          rintro rfl
          exact hback (List.mem_cons_of_mem _ hc)
        rw [if_neg hne]
        rfl
      have hsplit : segments s = s.splitOn '/' := by rw [segments, hmap]
      have hwritten : encode pathSet ('/' :: s)
          = joined ((s.splitOn '/').map (encode pathSet)) := by
        rw [← encode_joined, joined_splitOn]
      obtain ⟨segs, hne, hsegs, heq⟩ := hp
      have hslash : ∀ t ∈ (s.splitOn '/').map (encode pathSet), '/' ∉ t := by
        intro t ht hmem
        obtain ⟨u, hu, rfl⟩ := List.mem_map.mp ht
        rcases of_mem_encode hmem with ⟨hmem, -⟩ | hpercent | hhex
        · exact (mem_splitOn hu).1 hmem
        · cases hpercent
        · cases hhex
      have hmapped : (s.splitOn '/').map (encode pathSet) = segs := by
        have hmapne : (s.splitOn '/').map (encode pathSet) ≠ [] := by
          rw [Ne, List.map_eq_nil_iff]
          exact List.splitOn_ne_nil _ _
        rw [← splitOn_joined hmapne hslash, ← hwritten, heq, splitOn_joined hne]
        exact fun t ht hc => ((hsegs t ht).1 _ hc).2.1 rfl
      rw [parsePath, hafter, hsplit, hmapped, resolve_eq (fun t ht => (hsegs t ht).2),
        List.nil_append, heq]

/-- What follows a part of a path that was read. -/
theorem IsPath.suffix {y z : Text} (h : IsPath (y ++ '/' :: z)) :
  IsPath ('/' :: z)
  := by
  cases y with
  | nil => exact h
  | cons c y =>
      obtain ⟨segs, hne, hsegs, heq⟩ := h
      have hsplit := splitOn_joined hne (fun s hs hc => ((hsegs s hs).1 _ hc).2.1 rfl)
      rw [← heq, List.cons_append, List.drop_one, List.tail_cons,
        List.splitOn_append_cons_self] at hsplit
      refine ⟨z.splitOn '/', List.splitOn_ne_nil _ _, fun s hs => hsegs s ?_,
        (joined_splitOn z).symm⟩
      rw [← hsplit]
      exact List.mem_append_right _ hs

/-- The characters of a path that was read. -/
theorem IsPath.not_set (h : IsPath p) {c : Char} (hc : c ∈ p) :
  pathSet c = false ∧ c ≠ '\\'
  := by
  obtain ⟨segs, -, hsegs, rfl⟩ := h
  obtain ⟨s, hs, hc⟩ := List.mem_flatMap.mp hc
  rcases List.mem_cons.mp hc with rfl | hc
  · decide
  · exact ⟨((hsegs s hs).1 c hc).1, ((hsegs s hs).1 c hc).2.2⟩

theorem IsPath.head (h : IsPath p) :
  p.head? = some '/'
  := by
  obtain ⟨segs, hne, -, rfl⟩ := h
  rw [joined_eq hne]
  rfl

/-- Segments can be added to a path that was read. -/
theorem IsPath.append (h : IsPath p) (hsegs : ∀ s ∈ segs, IsSegment s) :
  IsPath (p ++ joined segs)
  := by
  obtain ⟨segs', hne, hsegs', rfl⟩ := h
  refine ⟨segs' ++ segs, List.append_ne_nil_of_left_ne_nil hne _, fun s hs => ?_,
    (joined_append segs' segs).symm⟩
  rcases List.mem_append.mp hs with hs | hs
  · exact hsegs' s hs
  · exact hsegs s hs

end

/-! ### Reading what was written -/

/-- A port as it stands in a URL. -/
def portText (port : Option UInt16) : Text := port.elim [] (fun p => ':' :: Nat.toDigits 10 p.toNat)

section
variable {idna : Idna} {scheme : Scheme} {host : Host} {port : Option UInt16} {s t : Text}

theorem cutPort_append {inside : Bool}
    (h : ∀ c ∈ s, c ≠ '[' ∧ c ≠ ']' ∧ (c = ':' → inside = true)) (t : Text) :
  cutPort inside (s ++ t) = (s ++ (cutPort inside t).1, (cutPort inside t).2)
  := by
  induction s with
  | nil => rfl
  | cons c s ih =>
      have hc := h c List.mem_cons_self
      have hport : ¬ (c = ':' ∧ inside = false) := by
        rintro ⟨hcolon, hinside⟩
        rw [hc.2.2 hcolon] at hinside
        cases hinside
      rw [List.cons_append, cutPort, if_neg hport, if_neg hc.1, if_neg hc.2.1,
        ih (fun d hd => h d (List.mem_cons_of_mem c hd))]
      rfl

theorem cutPort_portText (port : Option UInt16) :
  cutPort false (portText port) = ([], port.map (fun p => Nat.toDigits 10 p.toNat))
  := by
  cases port <;> rfl

theorem not_bracket_of_isForbidden {c : Char} (h : isForbidden c = false) :
  c ≠ '[' ∧ c ≠ ']' ∧ c ≠ ':'
  := by
  refine ⟨?_, ?_, ?_⟩
  all_goals
    rintro rfl
    cases h

theorem not_bracket_of_isAddrChar {c : Char} (h : IpAddr.isAddrChar c = true) :
  c ≠ '[' ∧ c ≠ ']'
  := by
  refine ⟨?_, ?_⟩
  all_goals
    rintro rfl
    cases h

/-- The host and the port of a URL come apart again. -/
theorem cutPort_text (h : UrlHost.parse idna s = .ok host) (port : Option UInt16) :
  cutPort false (host.text ++ portText port)
    = (host.text, port.map (fun p => Nat.toDigits 10 p.toNat))
  := by
  have hplain : ∀ s : Text, (∀ c ∈ s, isForbidden c = false) →
      cutPort false (s ++ portText port)
        = (s, port.map (fun p => Nat.toDigits 10 p.toNat)) := by
    intro s hs
    rw [cutPort_append, cutPort_portText, List.append_nil]
    intro c hc
    have hnot := not_bracket_of_isForbidden (hs c hc)
    exact ⟨hnot.1, hnot.2.1, fun hcolon => absurd hcolon hnot.2.2⟩
  cases host with
  | domain d => exact hplain d (of_parse_domain h).2.1
  | ipv4 i => exact hplain i.display (fun c hc => (mem_display_ipv4 hc).2.2)
  | ipv6 i =>
      have hinside : cutPort true (i.display ++ ([']'] ++ portText port))
          = (i.display ++ [']'], port.map (fun p => Nat.toDigits 10 p.toNat)) := by
        rw [cutPort_append]
        · rw [List.singleton_append, cutPort, if_neg (by decide), if_neg (by decide), if_pos rfl,
            cutPort_portText]
        · intro c hc
          have hnot := not_bracket_of_isAddrChar (IpAddr.mem_display (i := .v6 i) hc)
          exact ⟨hnot.1, hnot.2, fun _ => rfl⟩
      rw [Host.text, List.cons_append, List.append_assoc, cutPort, if_neg (by decide), if_pos rfl,
        hinside]

theorem parsePort_portText (hport : port ≠ some scheme.defaultPort) :
  parsePort scheme (port.map (fun p => Nat.toDigits 10 p.toNat)) = .ok port
  := by
  cases port with
  | none => rfl
  | some p =>
      have hall : (Nat.toDigits 10 p.toNat).all Char.isDigit = true :=
        List.all_eq_true.mpr (fun c hc => (digit_of_mem hc).2.2.1)
      have hle : p.toNat ≤ 65535 := Nat.le_of_lt_succ p.toNat_lt
      have hne : ¬ (Nat.toDigits 10 p.toNat = [] ∨ p = scheme.defaultPort) := by
        rintro (hnil | rfl)
        · exact Nat.toDigits_ne_nil hnil
        · exact hport rfl
      rw [Option.map_some, parsePort, value_toDigits (by decide) (by decide), hall,
        decide_eq_true hle, UInt16.ofNat_toNat, if_neg hne]
      rfl

/-- What is written of an authority. -/
theorem mem_authority (h : UrlHost.parse idna s = .ok host) {c : Char}
    (hc : c ∈ host.text ++ portText port) :
  c ≠ '@' ∧ isAuthorityChar c = true ∧ isTabOrNewline c = false
  := by
  have hforbidden : isForbidden c = false →
      c ≠ '@' ∧ isAuthorityChar c = true ∧ isTabOrNewline c = false := by
    intro hc
    have hne : ∀ d, isForbidden d = true → c ≠ d := by
      rintro d hd rfl
      rw [hd] at hc
      cases hc
    refine ⟨hne _ rfl, ?_, ?_⟩
    · rw [isAuthorityChar, isSlash, isPathChar, beq_false_of_ne (hne _ rfl),
        beq_false_of_ne (hne _ rfl), beq_false_of_ne (hne _ rfl), beq_false_of_ne (hne _ rfl)]
      rfl
    · rw [isTabOrNewline, beq_false_of_ne (hne _ rfl), beq_false_of_ne (hne _ rfl),
        beq_false_of_ne (hne _ rfl)]
      rfl
  have haddr : IpAddr.isAddrChar c = true →
      c ≠ '@' ∧ isAuthorityChar c = true ∧ isTabOrNewline c = false := by
    intro hc
    by_cases hhex : (toDigit 16 c).isSome = true
    · have hbound := toNat_of_isSome_toDigit hhex
      have hall : ∀ n : Fin 103, (toDigit 16 (Char.ofNat n.val)).isSome = true →
          Char.ofNat n.val ≠ '@' ∧ isAuthorityChar (Char.ofNat n.val) = true ∧
            isTabOrNewline (Char.ofNat n.val) = false := by
        decide
      have hchar := hall ⟨c.toNat, by omega⟩
      rw [Char.ofNat_toNat] at hchar
      exact hchar hhex
    · rw [IpAddr.isAddrChar, Bool.eq_false_iff.mpr hhex, Bool.or_false, Bool.or_eq_true] at hc
      rcases hc with hc | hc
      · rw [eq_of_beq hc]
        decide
      · rw [eq_of_beq hc]
        decide
  rcases List.mem_append.mp hc with hc | hc
  · cases host with
    | domain d => exact hforbidden ((of_parse_domain h).2.1 c hc)
    | ipv4 i => exact hforbidden (mem_display_ipv4 hc).2.2
    | ipv6 i =>
        simp only [Host.text, List.mem_cons, List.mem_append, List.not_mem_nil, or_false] at hc
        rcases hc with rfl | hc | rfl
        · decide
        · exact haddr (IpAddr.mem_display (i := .v6 i) hc)
        · decide
  · cases port with
    | none => exact (List.not_mem_nil hc).elim
    | some p =>
        rcases List.mem_cons.mp hc with rfl | hc
        · decide
        · exact hforbidden (digit_of_mem hc).2.2.2

theorem cutUserinfo_of_not_mem (h : '@' ∉ s) :
  cutUserinfo s = ([], s)
  := by
  have hall : ∀ c ∈ s.reverse, decide (c ≠ '@') = true := by
    intro c hc
    apply decide_eq_true
    rintro rfl
    exact h (List.mem_reverse.mp hc)
  rw [cutUserinfo, List.takeWhile_eq_self_iff.mpr hall, List.dropWhile_eq_nil_iff.mpr hall,
    List.reverse_reverse]
  rfl

/-- An authority without credentials is read back. -/
theorem parseAuthority_text (h : UrlHost.parse idna s = .ok host)
    (hport : port ≠ some scheme.defaultPort) (ht : t.head? = some '/') :
  parseAuthority idna scheme (host.text ++ portText port ++ t)
    = .ok (Url.withPath ⟨scheme, [], [], host, port, [], none, none⟩ [] t)
  := by
  have hchars : ∀ c ∈ host.text ++ portText port, c ≠ '@' ∧ isAuthorityChar c = true :=
    fun c hc => ⟨(mem_authority h hc).1, (mem_authority h hc).2.1⟩
  obtain ⟨t, rfl⟩ : ∃ t', t = '/' :: t' := by
    cases t with
    | nil => cases ht
    | cons c t =>
        cases ht
        exact ⟨t, rfl⟩
  have htake : (host.text ++ portText port ++ '/' :: t).takeWhile isAuthorityChar
      = host.text ++ portText port := by
    rw [List.takeWhile_append_of_pos (fun c hc => (hchars c hc).2),
      List.takeWhile_cons_of_neg (by decide), List.append_nil]
  have hdrop : (host.text ++ portText port ++ '/' :: t).dropWhile isAuthorityChar = '/' :: t := by
    rw [List.dropWhile_append_of_pos (fun c hc => (hchars c hc).2),
      List.dropWhile_cons_of_neg (by decide)]
  rw [parseAuthority, htake, hdrop, cutUserinfo_of_not_mem (fun hat => (hchars _ hat).1 rfl)]
  dsimp only [cut, Option.getD_none]
  rw [cutPort_text h]
  dsimp only
  rw [if_neg (text_ne_nil h), parse_text h]
  dsimp only [Except.bind, bind]
  rw [parsePort_portText hport]
  rfl

theorem cutScheme_text (scheme : Scheme) (s : Text) :
  cutScheme (scheme.text ++ ':' :: s) = some (scheme.text, s)
  := by
  cases scheme <;> rfl

theorem ofText_text (scheme : Scheme) :
  Scheme.ofText scheme.text = some scheme
  := by
  cases scheme <;> rfl

theorem mem_text_scheme {c : Char} (hc : c ∈ scheme.text) :
  isTabOrNewline c = false
  := by
  have hall : ∀ scheme : Scheme, scheme.text.all (fun c => !isTabOrNewline c) = true := by
    rintro (_ | _) <;> rfl
  exact (Bool.not_eq_true' _).mp (List.all_eq_true.mp (hall scheme) c hc)

/-- A slash at the start stays when control characters are passed over. -/
theorem head?_dropTabs (ht : t.head? = some '/') :
  (dropTabs t).head? = some '/'
  := by
  cases t with
  | nil => cases ht
  | cons c t =>
      cases ht
      rfl

/-- A URL without credentials is read back, up to what stands in its path. -/
theorem parse_written {lib : Library} (h : UrlHost.parse lib.idna s = .ok host)
    (hport : port ≠ some scheme.defaultPort) (ht : t.head? = some '/')
    (hlast : t.getLast? = some '/') :
  parse lib (scheme.text ++ ':' :: '/' :: '/' :: (host.text ++ portText port ++ t))
    = .ok (.web (Url.withPath ⟨scheme, [], [], host, port, [], none, none⟩ [] (dropTabs t)))
  := by
  have htrim : trimBy (fun c => decide (c.toNat ≤ 0x20))
      (scheme.text ++ ':' :: '/' :: '/' :: (host.text ++ portText port ++ t))
        = scheme.text ++ ':' :: '/' :: '/' :: (host.text ++ portText port ++ t) := by
    apply trimBy_eq_self (c := 'h') (d := '/')
    · cases scheme <;> rfl
    · have hne : t ≠ [] := by
        rintro rfl
        cases ht
      rw [← List.cons_append, ← List.cons_append, ← List.cons_append, ← List.append_assoc,
        List.getLast?_append_of_ne_nil _ hne, hlast]
    · rfl
    · rfl
  have hauthority : ∀ c ∈ host.text ++ portText port, isTabOrNewline c = false :=
    fun c hc => (mem_authority h hc).2.2
  have hkept : ∀ {s : Text}, (∀ c ∈ s, isTabOrNewline c = false) →
      s.filter (fun c => !isTabOrNewline c) = s := by
    intro s hs
    apply List.filter_eq_self.mpr
    intro c hc
    rw [hs c hc]
    rfl
  have hclean : clean (scheme.text ++ ':' :: '/' :: '/' :: (host.text ++ portText port ++ t))
      = scheme.text ++ ':' :: '/' :: '/' :: (host.text ++ portText port ++ dropTabs t) := by
    rw [clean, htrim, dropTabs, List.filter_append, hkept (fun c hc => mem_text_scheme hc),
      List.filter_cons_of_pos rfl, List.filter_cons_of_pos rfl, List.filter_cons_of_pos rfl,
      List.filter_append, hkept hauthority]
    rfl
  have hslash : ('/' :: '/' :: (host.text ++ portText port ++ dropTabs t)).dropWhile isSlash
      = host.text ++ portText port ++ dropTabs t := by
    obtain ⟨c, s', hs'⟩ := List.exists_cons_of_ne_nil (text_ne_nil h)
    have hmem : c ∈ host.text ++ portText port := by
      rw [hs']
      exact List.mem_cons_self
    have hc := (mem_authority h hmem).2.1
    rw [isAuthorityChar, Bool.and_eq_true, Bool.not_eq_true'] at hc
    rw [hs', List.dropWhile_cons_of_pos rfl, List.dropWhile_cons_of_pos rfl, List.append_assoc,
      List.cons_append, List.dropWhile_cons_of_neg (by rw [hc.1]; exact Bool.false_ne_true)]
  rw [parse, hclean, cutScheme_text]
  dsimp only
  rw [ofText_text]
  dsimp only
  rw [hslash, parseAuthority_text h hport (head?_dropTabs ht)]
  rfl

end

/-! ### What was read -/

section
variable {u : Url} {acc : List Text} {s : Text}

theorem withTail_eq (u : Url) (s : Text) :
  ∃ query fragment, u.withTail s = { u with query := query, fragment := fragment }
  := by
  fun_cases Url.withTail u s
  · exact ⟨_, _, rfl⟩
  · exact ⟨u.query, _, rfl⟩

/-- Only the path, the query and the fragment of a URL change. -/
theorem withPath_eq (u : Url) (acc : List Text) (s : Text) :
  ∃ query fragment, u.withPath acc s = { u with
    path := parsePath acc (s.takeWhile isPathChar), query := query, fragment := fragment }
  := by
  obtain ⟨query, fragment, h⟩ := withTail_eq
    { u with path := parsePath acc (s.takeWhile isPathChar), query := none }
    (s.dropWhile isPathChar)
  exact ⟨query, fragment, h⟩

theorem path_withPath (u : Url) (acc : List Text) (s : Text) :
  (u.withPath acc s).path = parsePath acc (s.takeWhile isPathChar)
  := by
  obtain ⟨query, fragment, h⟩ := withPath_eq u acc s
  rw [h]

/-- A URL as it is after reading. -/
def Url.Read (idna : Idna) (u : Url) : Prop :=
  (∃ t, UrlHost.parse idna t = .ok u.host) ∧ u.port ≠ some u.scheme.defaultPort ∧ IsPath u.path

theorem parsePort_ne {scheme : Scheme} {p : Option Text} {port : Option UInt16}
    (h : parsePort scheme p = .ok port) :
  port ≠ some scheme.defaultPort
  := by
  unfold parsePort at h
  split at h
  · cases h
    exact Option.some_ne_none _ |>.symm
  split at h
  · cases h
    split
    · exact (Option.some_ne_none _).symm
    · rename_i hne
      rw [not_or] at hne
      exact fun heq => hne.2 (Option.some.inj heq)
  · cases h

theorem read_of_parseAuthority {idna : Idna} {scheme : Scheme}
    (h : parseAuthority idna scheme s = .ok u) :
  u.Read idna
  := by
  rw [parseAuthority] at h
  dsimp only at h
  split at h
  · cases h
  · obtain ⟨host, hhost, h⟩ := bind_eq_ok.mp h
    obtain ⟨port, hport, h⟩ := bind_eq_ok.mp h
    cases h
    obtain ⟨query, fragment, heq⟩ := withPath_eq _ _ _
    rw [heq]
    exact ⟨⟨_, hhost⟩, parsePort_ne hport, isPath_parsePath (fun s hs => by cases hs) _⟩

/-- An authority is not empty, and its host is not a text of slashes written as bytes. -/
theorem of_parseAuthority {idna : Idna} {scheme : Scheme}
    (h : parseAuthority idna scheme s = .ok u) :
  s.takeWhile isAuthorityChar ≠ [] ∧
    u.path = parsePath [] ((s.dropWhile isAuthorityChar).takeWhile isPathChar) ∧
    ¬ ∀ c ∈ lossy (decode (s.takeWhile isAuthorityChar)), c = '/'
  := by
  rw [parseAuthority] at h
  dsimp only at h
  split at h
  · cases h
  rename_i hne
  obtain ⟨host, hhost, h⟩ := bind_eq_ok.mp h
  obtain ⟨port, hport, h⟩ := bind_eq_ok.mp h
  cases h
  rw [path_withPath]
  generalize hauthority : s.takeWhile isAuthorityChar = a at hne hhost
  refine ⟨?_, rfl, fun hslash => ?_⟩
  · rintro rfl
    exact hne rfl
  · -- nothing but written bytes is in the authority, so that all of it is the host
    have hchars : ∀ c, isHex c = false → c ≠ '%' → c ∉ a := by
      intro c hhex hpercent hc
      have hchar : isAuthorityChar c = true := by
        rw [← hauthority] at hc
        have himp := List.mem_takeWhile_imp hc
        exact himp
      obtain ⟨x, y, rfl⟩ := List.append_of_mem hc
      rw [lossy_decode_append hhex hpercent] at hslash
      rw [hslash c (List.mem_append_right _ List.mem_cons_self)] at hchar
      cases hchar
    have hport : cutPort false a = (a, none) := by
      have hnot : ∀ c ∈ a, c ≠ '[' ∧ c ≠ ']' ∧ (c = ':' → false = true) := by
        intro c hc
        refine ⟨?_, ?_, ?_⟩
        · rintro rfl
          exact hchars '[' rfl (by decide) hc
        · rintro rfl
          exact hchars ']' rfl (by decide) hc
        · rintro rfl
          exact absurd hc (hchars ':' rfl (by decide))
      have happend := cutPort_append hnot []
      rw [List.append_nil] at happend
      rw [happend, cutPort, List.append_nil]
    rw [cutUserinfo_of_not_mem (hchars '@' rfl (by decide))] at hhost
    dsimp only at hhost
    rw [hport] at hhost
    refine parse_slashes hslash (fun hhead => ?_) host hhost
    exact hchars '[' rfl (by decide) (List.mem_of_head? hhead)

theorem read_of_parse {lib : Library} (h : parse lib s = .ok (.web u)) :
  u.Read lib.idna
  := by
  unfold parse at h
  split at h
  · cases h
  split at h
  · obtain ⟨u', hu', heq⟩ := map_eq_ok.mp h
    cases heq
    exact read_of_parseAuthority hu'
  · obtain ⟨p, -, heq⟩ := map_eq_ok.mp h
    cases heq

end

end WebUrl
