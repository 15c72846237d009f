import Termoso.Core.ShareUrl
import Termoso.Core.Remote

/-!
# References to resources of a share

A path in a share is written below the base URL for a request, and a reference in an answer is
resolved and brought below the base path.  A path comes back from the URL of its own request when
the base URL has no empty segments but for the one at its end.
-/

namespace Termoso.Core.ShareUrl

open Utf8 Split Percent UrlHost WebUrl

section
variable (lib : Library)

/-- A session whose references are resolved against a URL. -/
def session (requestUrl : Url) (basePath : Text) : WebDav where
  basePath := String.ofList basePath
  resolve _ href :=
    match join lib requestUrl (trimBy isWhitespace href.toList) with
    | .ok u => some (String.ofList u.path)
    | .error _ => none
  percentDecode s := String.ofList (percentDecode s.toList)

/-- The path that a reference names. -/
def hrefToPath (href : Text) (requestUrl : Url) (basePath : Text) : Option String :=
  (session lib requestUrl basePath).hrefToPath "" (String.ofList href)

/-- The URL of a request for a path; one of a directory ends with a slash. -/
def urlFor (base : Url) (path : String) (dir : Bool) : Option Url :=
  (normalizePath path).map (fun norm =>
    let segs := (norm.toList.splitOn '/').filter (fun s => !s.isEmpty)
    let p := segs.foldl pushSegment (popIfEmpty base.path)
    { base with path := if dir || norm == "/" then pushSegment p [] else p })

/-- A path comes back from the URL of its request. -/
def Returns (base : Url) (path : String) (dir : Bool) : Prop :=
  (urlFor base path dir).bind (fun u => hrefToPath lib u.path base (percentDecode base.path))
    = some path

end

/-- The base paths below which a path comes back: those with no empty segment at their start, and
below which only the root does when they end with one after decoding, apart from the one after the
last slash. -/
def IsBaseOf (p : Text) (path : String) : Prop :=
  p = ['/', '/'] ∨ (p[1]? ≠ some '/' ∧ (path = "/" ∨ ¬ ['/', '/'] <:+ percentDecode p))

/-! ### Names -/

/-- The names of a path. -/
def IsNames (names : List Text) : Prop :=
  ∀ s ∈ names, '/' ∉ s ∧ s ≠ [] ∧ s ≠ ['.'] ∧ s ≠ ['.', '.'] ∧ ∀ c ∈ s, isControl c = false

section
variable {names : List Text} {s p stem : Text} {path : String}

/-- A plain path is the root, or its names after slashes. -/
theorem exists_names (h : normalizePath path = some path)
    (hcontrol : ∀ c ∈ path.toList, isControl c = false) :
  ∃ names, IsNames names ∧ path.toList = if names = [] then ['/'] else joined names
  := by
  rw [normalizePath] at h
  split at h
  · cases h
  obtain ⟨norm, hnorm, hpath⟩ := Option.map_eq_some_iff.mp h
  have hlist : path.toList
      = if norm.map String.toList = [] then ['/'] else joined (norm.map String.toList) := by
    rw [← hpath, String.toList_append, String.toList_intercalate]
    split
    · rename_i hnil
      rw [hnil]
      rfl
    · rename_i hne
      rw [joined_eq hne]
      rfl
  refine ⟨norm.map String.toList, fun s hs => ?_, hlist⟩
  have hne := List.ne_nil_of_mem hs
  rw [if_neg hne] at hlist
  have hmem : ∀ c ∈ s, isControl c = false := by
    intro c hc
    apply hcontrol
    rw [hlist]
    exact List.mem_flatMap.mpr ⟨s, hs, List.mem_cons_of_mem _ hc⟩
  obtain ⟨x, hx, rfl⟩ := List.mem_map.mp hs
  rcases mem_normalizeSegments hnorm hx with hx | ⟨hx, hempty, hdot, hdots⟩
  · cases hx
  obtain ⟨t, ht, rfl⟩ := List.mem_map.mp hx
  have hinj : ∀ {t u : Text}, String.ofList t ≠ String.ofList u → t ≠ u :=
    fun hne heq => hne (congrArg String.ofList heq)
  rw [String.toList_ofList] at hmem ⊢
  exact ⟨(mem_splitOn ht).1, hinj hempty, hinj hdot, hinj hdots, hmem⟩

/-- How a name is written as a segment. -/
theorem isSegment_name (hne : s ≠ []) (hdot : s ≠ ['.']) (hdots : s ≠ ['.', '.']) :
  IsSegment (encode segmentSet s) ∧ encode segmentSet s ≠ []
  := by
  have hdecode : decode (encode segmentSet s) = Utf8.encode s := by
    have happend := @decode_encode_append segmentSet (by decide) s []
    rw [List.append_nil] at happend
    rw [happend]
    exact List.append_nil _
  -- what is read as dots is dots
  have hnot : encode segmentSet s ∉ singleDots ++ doubleDots := by
    intro hmem
    have hall : (singleDots ++ doubleDots).all
        (fun t => decode t == [0x2E] || decode t == [0x2E, 0x2E]) = true := by
      decide
    have hread := List.all_eq_true.mp hall _ hmem
    rw [hdecode, Bool.or_eq_true, beq_iff_eq, beq_iff_eq] at hread
    rcases hread with hread | hread
    · apply hdot
      rw [← lossy_encode s, hread, lossy_cons (by decide), lossy_nil]
      rfl
    · apply hdots
      rw [← lossy_encode s, hread, lossy_cons (by decide), lossy_cons (by decide), lossy_nil]
      rfl
  refine ⟨⟨fun c hc => ?_, fun h => hnot (List.mem_append_right _ h),
    fun h => hnot (List.mem_append_left _ h)⟩, fun hnil => ?_⟩
  · have hset : ∀ {c}, segmentSet c = false → pathSet c = false ∧ c ≠ '/' ∧ c ≠ '\\' := by
      intro c h
      rw [segmentSet, Bool.or_eq_false_iff] at h
      refine ⟨h.1, ?_, ?_⟩
      all_goals
        rintro rfl
        cases h.2
    rcases of_mem_encode hc with ⟨-, hset'⟩ | rfl | hhex
    · exact hset hset'
    · decide
    · obtain ⟨hpath, hslash⟩ := pathSet_of_isHex hhex
      refine ⟨hpath, ?_, ?_⟩
      all_goals
        rintro rfl
        cases hslash
  · apply hne
    rw [← lossy_encode s, ← hdecode, hnil]
    exact lossy_nil

theorem dropTabs_name (h : ∀ c ∈ s, isControl c = false) :
  dropTabs s = s
  := by
  apply List.filter_eq_self.mpr
  intro c hc
  have hcontrol := h c hc
  cases htab : isTabOrNewline c with
  | false => rfl
  | true =>
      rw [isTabOrNewline, Bool.or_eq_true, Bool.or_eq_true, beq_iff_eq, beq_iff_eq,
        beq_iff_eq] at htab
      rcases htab with (rfl | rfl) | rfl
      all_goals cases hcontrol

/-- A segment that is no dots is added after a slash. -/
theorem joined_push (hp : p.head? = some '/') (hs : s ∉ doubleDots ∧ s ∉ singleDots) :
  joined (resolve (if p = ['/'] then [] else pathSegments p) [s])
    = (if p = ['/'] then [] else p) ++ joined [s]
  := by
  have hall : ∀ t ∈ [s], t ∉ doubleDots ∧ t ∉ singleDots := by
    intro t ht
    rw [List.mem_singleton.mp ht]
    exact hs
  rw [resolve_eq hall, joined_append]
  split
  · rfl
  · rw [joined_pathSegments hp]

/-- A name is added after a slash. -/
theorem pushSegment_name (hp : p.head? = some '/') (hs : IsNames [s]) :
  pushSegment p s = (if p = ['/'] then [] else p) ++ joined [encode segmentSet s]
  := by
  obtain ⟨-, hne, hdot, hdots, hcontrol⟩ := hs s List.mem_cons_self
  have hsegment := (isSegment_name hne hdot hdots).1
  have hnot : ¬ (s = ['.'] ∨ s = ['.', '.']) := by
    rintro (h | h)
    · exact hdot h
    · exact hdots h
  rw [pushSegment, if_neg hnot, dropTabs_name hcontrol, joined_push hp hsegment.2]

theorem pushSegment_nil (hp : p.head? = some '/') :
  pushSegment p [] = (if p = ['/'] then [] else p) ++ ['/']
  := by
  have hnot : ¬ (([] : Text) = ['.'] ∨ ([] : Text) = ['.', '.']) := by decide
  have hnil : encode segmentSet (dropTabs []) = [] := rfl
  rw [pushSegment, if_neg hnot, hnil, joined_push hp (by decide)]
  rfl

theorem percentDecode_joined (names : List Text) :
  percentDecode (joined (names.map (encode segmentSet))) = joined names
  := by
  induction names with
  | nil => exact lossy_nil
  | cons s names ih =>
      rw [List.map_cons, joined_cons, List.cons_append, percentDecode_cons, percentDecode,
        decode_encode_append (by decide), lossy_encode_append, ← percentDecode, ih, joined_cons]
      rfl

/-! ### URLs of requests -/

/-- What stands before the segments that are added to a path. -/
def stemOf (p : Text) : Text := if p = ['/'] then [] else p

theorem foldl_pushSegment (hp : p.head? = some '/') (hroot : p ≠ ['/']) (hs : IsNames names) :
  names.foldl pushSegment p = p ++ joined (names.map (encode segmentSet))
  := by
  induction names generalizing p with
  | nil => exact (List.append_nil p).symm
  | cons s names ih =>
      have hone : IsNames [s] := by
        intro t ht
        rw [List.mem_singleton.mp ht]
        exact hs s List.mem_cons_self
      have hne : p ≠ [] := by
        rintro rfl
        cases hp
      have hpush := pushSegment_name hp hone
      rw [if_neg hroot] at hpush
      rw [List.foldl_cons, hpush, ih, List.append_assoc, ← joined_append]
      · rfl
      · rw [List.head?_append_of_ne_nil _ hne, hp]
      · intro heq
        have hlen := congrArg List.length heq
        have hpos := List.length_pos_of_ne_nil hne
        rw [List.length_append, joined_cons, List.length_append, List.length_cons,
          List.length_singleton] at hlen
        omega
      · exact fun t ht => hs t (List.mem_cons_of_mem s ht)

/-- The names of a path are added to a path in their order. -/
theorem foldl_pushSegment_eq (hp : p.head? = some '/') (hs : IsNames names) (hne : names ≠ []) :
  names.foldl pushSegment p = stemOf p ++ joined (names.map (encode segmentSet)) ∧
    names.foldl pushSegment p ≠ ['/'] ∧ (names.foldl pushSegment p).head? = some '/'
  := by
  obtain ⟨s, names, rfl⟩ := List.exists_cons_of_ne_nil hne
  have hone : IsNames [s] := by
    intro t ht
    rw [List.mem_singleton.mp ht]
    exact hs s List.mem_cons_self
  obtain ⟨-, hempty, hdot, hdots, -⟩ := hs s List.mem_cons_self
  have hwritten := List.length_pos_of_ne_nil (isSegment_name hempty hdot hdots).2
  have hhead : (stemOf p ++ joined ((s :: names).map (encode segmentSet))).head? = some '/' := by
    rw [stemOf]
    split
    · rfl
    · have hp' : p ≠ [] := by
        rintro rfl
        cases hp
      rw [List.head?_append_of_ne_nil _ hp', hp]
  have hpush := pushSegment_name hp hone
  rw [← stemOf] at hpush
  have hlen : ∀ t : Text, (stemOf p ++ joined [encode segmentSet s] ++ t).length ≠ 1 := by
    intro t
    rw [List.length_append, List.length_append, joined_cons, List.length_append, List.length_cons]
    omega
  have hpushed : (stemOf p ++ joined [encode segmentSet s]).head? = some '/' := by
    rw [stemOf]
    split
    · rfl
    · have hp' : p ≠ [] := by
        rintro rfl
        cases hp
      rw [List.head?_append_of_ne_nil _ hp', hp]
  have heq : (s :: names).foldl pushSegment p
      = stemOf p ++ joined ((s :: names).map (encode segmentSet)) := by
    rw [List.foldl_cons, hpush, foldl_pushSegment hpushed, List.append_assoc, ← joined_append]
    · rfl
    · intro hroot
      exact hlen [] (by rw [List.append_nil, hroot]; rfl)
    · exact fun t ht => hs t (List.mem_cons_of_mem s ht)
  refine ⟨heq, fun hroot => ?_, heq ▸ hhead⟩
  apply hlen (joined (names.map (encode segmentSet)))
  rw [List.append_assoc, ← joined_append]
  rw [heq] at hroot
  exact congrArg List.length hroot

theorem filter_splitOn (hs : IsNames names)
    (hpath : path.toList = if names = [] then ['/'] else joined names) :
  (path.toList.splitOn '/').filter (fun s => !s.isEmpty) = names ∧ (path = "/" ↔ names = [])
  := by
  have hroot : path = "/" ↔ path.toList = ['/'] :=
    ⟨fun h => by rw [h]; rfl, fun h => String.toList_injective h⟩
  rw [hroot, hpath]
  by_cases hne : names = []
  · subst hne
    exact ⟨rfl, by rw [if_pos rfl]; exact iff_of_true rfl rfl⟩
  · rw [if_neg hne, joined_eq hne]
    have hsplit : ('/' :: ['/'].intercalate names).splitOn '/' = [] :: names := by
      have hcons := List.splitOn_append_cons_self (a := '/') [] (['/'].intercalate names)
      rw [List.nil_append, List.splitOn_nil,
        List.splitOn_intercalate _ (fun s hmem => (hs s hmem).1) hne] at hcons
      exact hcons
    rw [hsplit, List.filter_cons_of_neg (by decide), List.filter_eq_self.mpr]
    · refine ⟨rfl, iff_of_false (fun h => ?_) hne⟩
      rw [← joined_eq hne] at h
      obtain ⟨s, rest, rfl⟩ := List.exists_cons_of_ne_nil hne
      have hlen := congrArg List.length h
      have hpos := List.length_pos_of_ne_nil (hs s List.mem_cons_self).2.1
      rw [joined_cons, List.length_append, List.length_cons, List.length_singleton] at hlen
      omega
    · intro s hmem
      rw [List.isEmpty_eq_false_iff.mpr (hs s hmem).2.1]
      rfl

/-- The URL of a request for a path has the names of the path after those of the base. -/
theorem urlFor_eq {base : Url} {dir : Bool} (hbase : (popIfEmpty base.path).head? = some '/')
    (h : normalizePath path = some path) (hs : IsNames names)
    (hpath : path.toList = if names = [] then ['/'] else joined names) :
  urlFor base path dir = some { base with
    path := stemOf (popIfEmpty base.path) ++ joined (names.map (encode segmentSet)
      ++ if dir = true ∨ names = [] then [[]] else []) }
  := by
  obtain ⟨hsegs, hroot⟩ := filter_splitOn hs hpath
  have hcond : (dir || path == "/") = true ↔ dir = true ∨ names = [] := by
    rw [Bool.or_eq_true, beq_iff_eq, hroot]
  rw [urlFor, h, Option.map_some]
  dsimp only
  rw [hsegs]
  by_cases hne : names = []
  · subst hne
    rw [if_pos (hcond.mpr (.inr rfl)), if_pos (.inr rfl), List.foldl_nil, pushSegment_nil hbase,
      ← stemOf]
    rfl
  · obtain ⟨heq, hpushed, hhead⟩ := foldl_pushSegment_eq hbase hs hne
    by_cases hdir : dir = true ∨ names = []
    · rw [if_pos (hcond.mpr hdir), if_pos hdir, pushSegment_nil hhead, if_neg hpushed, heq,
        joined_append, List.append_assoc]
      rfl
    · rw [if_neg (mt hcond.mp hdir), if_neg hdir, heq, List.append_nil]

/-! ### References -/

theorem bounds_of_isPath (hp : IsPath p) {c : Char} (hc : c ∈ p) :
  0x20 < c.toNat ∧ c.toNat < 0x80 ∧ isTabOrNewline c = false ∧ isPathChar c = true
  := by
  have hset := (hp.not_set hc).1
  have hlt : c.toNat < 0x80 := by
    rw [pathSet, isC0, Bool.or_eq_false_iff, Bool.or_eq_false_iff, decide_eq_false_iff_not,
      decide_eq_false_iff_not] at hset
    omega
  have hall : ∀ n : Fin 128, pathSet (Char.ofNat n.val) = false → 0x20 < n.val ∧
      isTabOrNewline (Char.ofNat n.val) = false ∧ isPathChar (Char.ofNat n.val) = true := by
    decide
  have hchar := hall ⟨c.toNat, hlt⟩
  rw [Char.ofNat_toNat] at hchar
  exact ⟨(hchar hset).1, hlt, (hchar hset).2⟩

/-- A path is read as a reference without a scheme. -/
theorem join_of_isPath {lib : Library} {base : Url} (hp : IsPath p) :
  join lib base (trimBy isWhitespace p) = (relative lib base p).map .web
  := by
  have htrim : trimBy isWhitespace p = p := trimBy_eq_self_of_forall
    (fun c hc => not_isWhitespace (bounds_of_isPath hp hc).1 (bounds_of_isPath hp hc).2.1)
  have hclean : clean p = p := by
    rw [clean, trimBy_eq_self_of_forall, dropTabs, List.filter_eq_self.mpr]
    · intro c hc
      rw [(bounds_of_isPath hp hc).2.2.1]
      rfl
    · intro c hc
      exact decide_eq_false (Nat.not_le_of_lt (bounds_of_isPath hp hc).1)
  have hscheme : cutScheme p = none := by
    cases p with
    | nil => cases hp.head
    | cons c t =>
        cases hp.head
        rfl
  rw [htrim, join, hclean, hscheme]

/-- A path is resolved to itself, unless it begins with two slashes. -/
theorem join_path (lib : Library) (base : Url) (hp : IsPath p) (htwo : p[1]? ≠ some '/') :
  ∃ u, join lib base (trimBy isWhitespace p) = .ok (.web u) ∧ u.path = p
  := by
  rw [join_of_isPath hp, relative]
  obtain ⟨t, rfl⟩ : ∃ t, p = '/' :: t := by
    cases p with
    | nil => cases hp.head
    | cons c t =>
        cases hp.head
        exact ⟨t, rfl⟩
  have hone : (('/' :: t).takeWhile isSlash).length = 1 := by
    rw [List.takeWhile_cons_of_pos rfl, List.length_cons]
    cases t with
    | nil => rfl
    | cons c t =>
        have hc := (hp.not_set (List.mem_cons_of_mem _ List.mem_cons_self)).2
        have hslash : ¬ isSlash c = true := by
          rw [isSlash, Bool.or_eq_true, beq_iff_eq, beq_iff_eq]
          rintro (rfl | rfl)
          · exact htwo rfl
          · exact hc rfl
        rw [List.takeWhile_cons_of_neg hslash]
        rfl
  have htake : ('/' :: t).takeWhile isPathChar = '/' :: t :=
    List.takeWhile_eq_self_iff.mpr (fun c hc => (bounds_of_isPath hp hc).2.2.2)
  have hany : ('/' :: t).head?.any isSlash = true := rfl
  rw [hone, if_neg (by decide), if_pos hany]
  refine ⟨_, rfl, ?_⟩
  rw [path_withPath, htake, parsePath_of_isPath hp]

/-- What a reference names, from the decoded path that it is resolved to. -/
theorem hrefToPath_eq {lib : Library} {base : Url} {href : Text} {r : Parsed}
    (h : join lib base (trimBy isWhitespace href) = .ok r) (basePath : Text) :
  hrefToPath lib href base basePath
    = (if basePath = ['/'] then some (percentDecode r.path)
      else Option.filter (fun t => t.isEmpty || decide (t.head? = some '/'))
        (stripPrefix (trimEndSlashes basePath) (percentDecode r.path))).map (fun rel =>
          if (trimEndSlashes rel).isEmpty then "/" else String.ofList (trimEndSlashes rel))
  := by
  have hroot : String.ofList basePath = "/" ↔ basePath = ['/'] := by
    constructor
    · intro heq
      have hlist := congrArg String.toList heq
      rw [String.toList_ofList] at hlist
      exact hlist
    · rintro rfl
      rfl
  rw [hrefToPath, WebDav.hrefToPath]
  dsimp only [session]
  rw [String.toList_ofList, h]
  dsimp only
  rw [Option.bind_eq_bind, Option.bind_some, WebDav.belowBase, String.toList_ofList,
    String.toList_ofList, String.toList_ofList]
  dsimp only
  rw [if_congr hroot rfl rfl, Option.map_eq_bind]
  rfl

theorem percentDecode_ne_nil (hp : IsPath p) :
  percentDecode p ≠ []
  := by
  cases p with
  | nil => cases hp.head
  | cons c t =>
      cases hp.head
      rw [percentDecode_cons]
      exact List.cons_ne_nil _ _

theorem trimEndSlashes_concat (s : Text) :
  trimEndSlashes (s ++ ['/']) = trimEndSlashes s
  := by
  rw [trimEndSlashes, trimEndSlashes, List.reverse_append]
  rfl

theorem trimEndSlashes_eq_self (h : s.getLast? ≠ some '/') :
  trimEndSlashes s = s
  := by
  rw [← List.head?_reverse] at h
  rw [trimEndSlashes]
  cases hs : s.reverse with
  | nil =>
      rw [List.reverse_eq_nil_iff] at hs
      rw [hs]
      rfl
  | cons c t =>
      rw [hs] at h
      rw [List.dropWhile_cons_of_neg, ← hs, List.reverse_reverse]
      intro hc
      rw [of_decide_eq_true hc] at h
      exact h rfl

theorem exists_trimEndSlashes (s : Text) :
  ∃ z, s = trimEndSlashes s ++ z ∧ (∀ c ∈ z, c = '/') ∧ (trimEndSlashes s).getLast? ≠ some '/'
  := by
  refine ⟨(s.reverse.takeWhile (fun c => decide (c = '/'))).reverse, ?_, fun c hc => ?_, ?_⟩
  · rw [trimEndSlashes, ← List.reverse_append, List.takeWhile_append_dropWhile,
      List.reverse_reverse]
  · have hmem := List.mem_takeWhile_imp (List.mem_reverse.mp hc)
    exact of_decide_eq_true hmem
  · rw [trimEndSlashes, List.getLast?_reverse]
    intro hhead
    have hnot := List.head?_dropWhile_not (fun c => decide (c = '/')) s.reverse
    rw [hhead] at hnot
    cases hnot

theorem stripPrefix_append (x t : Text) :
  stripPrefix x (x ++ t) = some t
  := by
  rw [stripPrefix, if_pos, List.drop_left]
  exact List.isPrefixOf_iff_prefix.mpr (List.prefix_append x t)

theorem stripPrefix_eq_some {x t : Text} (h : stripPrefix x s = some t) :
  s = x ++ t
  := by
  rw [stripPrefix] at h
  split at h
  · rename_i hpre
    obtain ⟨t', rfl⟩ := List.isPrefixOf_iff_prefix.mp hpre
    rw [List.drop_left] at h
    cases h
    rfl
  · cases h

theorem getLast?_names (hs : IsNames names) (hne : names ≠ []) :
  (joined names).getLast? ≠ some '/'
  := by
  rcases List.eq_nil_or_concat names with rfl | ⟨front, s, rfl⟩
  · exact absurd rfl hne
  rw [List.concat_eq_append] at hs ⊢
  obtain ⟨hslash, hempty, -⟩ := hs s (List.mem_append_right _ List.mem_cons_self)
  have hone : joined [s] = '/' :: s := List.append_nil _
  rw [joined_append, hone, List.getLast?_append_of_ne_nil _ (List.cons_ne_nil _ _)]
  obtain ⟨c, t, rfl⟩ := List.exists_cons_of_ne_nil hempty
  rw [List.getLast?_cons_cons]
  exact fun h => hslash (List.mem_of_getLast? h)

/-- The names of a path, and a slash that can be after them. -/
theorem exists_joined_tail (names : List Text) {tail : List Text}
    (htail : tail = [[]] ∨ tail = []) :
  ∃ w, joined (names ++ tail) = joined names ++ w ∧ ∀ c ∈ w, c = '/'
  := by
  refine ⟨joined tail, joined_append names tail, fun c hc => ?_⟩
  rcases htail with rfl | rfl
  · exact List.mem_singleton.mp hc
  · cases hc

/-! ### Base paths -/

/-- The stem of a base path: nothing for the root and for one empty segment, and else the path
without the slash at its end. -/
theorem stem_spec (hp : IsPath p) (hlast : p.getLast? = some '/') :
  (popIfEmpty p).head? = some '/' ∧
    ((p = ['/'] ∨ p = ['/', '/']) ∧ stemOf (popIfEmpty p) = [] ∨
      (p = stemOf (popIfEmpty p) ++ ['/'] ∧ IsPath (stemOf (popIfEmpty p)) ∧
        1 < (stemOf (popIfEmpty p)).length ∧ p[1]? = (stemOf (popIfEmpty p))[1]?))
  := by
  obtain ⟨segs, hne, hsegs, rfl⟩ := hp
  rcases List.eq_nil_or_concat segs with rfl | ⟨front, s, rfl⟩
  · exact absurd rfl hne
  rw [List.concat_eq_append] at hsegs hlast ⊢
  have hs : s = [] := by
    by_contra hempty
    have hone : joined [s] = '/' :: s := List.append_nil _
    obtain ⟨c, t, rfl⟩ := List.exists_cons_of_ne_nil hempty
    rw [joined_append, hone, List.getLast?_append_of_ne_nil _ (List.cons_ne_nil _ _),
      List.getLast?_cons_cons] at hlast
    have hsegment := hsegs _ (List.mem_append_right _ List.mem_cons_self)
    exact (hsegment.1 '/' (List.mem_of_getLast? hlast)).2.1 rfl
  subst hs
  have hnil : joined [[]] = ['/'] := rfl
  rw [joined_append, hnil]
  by_cases hfront : front = []
  · subst hfront
    exact ⟨rfl, .inl ⟨.inl rfl, rfl⟩⟩
  · have hpath : IsPath (joined front) :=
      ⟨front, hfront, fun s hs => hsegs s (List.mem_append_left _ hs), rfl⟩
    have hempty : joined front ≠ [] := by
      intro h
      have hhead := hpath.head
      rw [h] at hhead
      cases hhead
    have hpos := List.length_pos_of_ne_nil hempty
    have hpop : popIfEmpty (joined front ++ ['/']) = joined front := by
      rw [popIfEmpty, if_pos, List.dropLast_concat]
      rw [List.length_append, List.length_singleton]
      exact ⟨by omega, List.getLast?_concat⟩
    rw [hpop]
    refine ⟨hpath.head, ?_⟩
    by_cases hroot : joined front = ['/']
    · rw [hroot]
      exact .inl ⟨.inr rfl, rfl⟩
    · right
      have hlen : 1 < (joined front).length := by
        by_contra hshort
        obtain ⟨c, hc⟩ := List.length_eq_one_iff.mp (Nat.le_antisymm (Nat.not_lt.mp hshort) hpos)
        have hhead := hpath.head
        rw [hc] at hhead
        cases hhead
        exact hroot hc
      rw [stemOf, if_neg hroot]
      exact ⟨rfl, hpath, hlen, List.getElem?_append_left hlen⟩

/-- The path of a request is one. -/
theorem isPath_request (hstem : stem = [] ∨ IsPath stem) (hs : IsNames names) {tail : List Text}
    (htail : tail = [[]] ∨ tail = []) (hne : names ++ tail ≠ []) :
  IsPath (stem ++ joined (names.map (encode segmentSet) ++ tail))
  := by
  have hsegs : ∀ s ∈ names.map (encode segmentSet) ++ tail, IsSegment s := by
    intro s hmem
    rcases List.mem_append.mp hmem with hmem | hmem
    · obtain ⟨t, ht, rfl⟩ := List.mem_map.mp hmem
      obtain ⟨-, hempty, hdot, hdots, -⟩ := hs t ht
      exact (isSegment_name hempty hdot hdots).1
    · rcases htail with rfl | rfl
      · rw [List.mem_singleton.mp hmem]
        exact ⟨fun c hc => (List.not_mem_nil hc).elim, by decide, by decide⟩
      · cases hmem
  rcases hstem with rfl | hstem
  · refine ⟨_, fun hnil => hne ?_, hsegs, rfl⟩
    rw [List.append_eq_nil_iff, List.map_eq_nil_iff] at hnil
    rw [hnil.1, hnil.2]
    rfl
  · exact hstem.append hsegs

/-- The decoded path of a request. -/
theorem percentDecode_request (stem : Text) (names : List Text) {tail : List Text}
    (htail : tail = [[]] ∨ tail = []) :
  percentDecode (stem ++ joined (names.map (encode segmentSet) ++ tail))
    = percentDecode stem ++ joined (names ++ tail)
  := by
  have htail' : tail.map (encode segmentSet) = tail := by
    rcases htail with rfl | rfl <;> rfl
  rw [← htail', ← List.map_append]
  have hjoined := percentDecode_joined (names ++ tail)
  rw [htail']
  cases hsegs : names ++ tail with
  | nil =>
      have hnil : joined [] = [] := rfl
      rw [List.map_nil, hnil, List.append_nil, List.append_nil]
  | cons s segs =>
      rw [hsegs, List.map_cons, joined_cons, List.cons_append] at hjoined
      rw [List.map_cons, joined_cons, List.cons_append, percentDecode_slash, ← percentDecode_cons,
        hjoined]

/-! ### Paths that come back -/

theorem trimEndSlashes_append {z : Text} (hz : ∀ c ∈ z, c = '/') (s : Text) :
  trimEndSlashes (s ++ z) = trimEndSlashes s
  := by
  induction z using List.reverseRecOn with
  | nil => rw [List.append_nil]
  | append_singleton z c ih =>
      rw [hz c (List.mem_append_right _ List.mem_cons_self), ← List.append_assoc,
        trimEndSlashes_concat, ih (fun d hd => hz d (List.mem_append_left _ hd))]

/-- Two slashes at the end stay after one is taken. -/
theorem suffix_concat :
  ['/', '/'] <:+ s ++ ['/'] ↔ s.getLast? = some '/'
  := by
  constructor
  · rintro ⟨t, ht⟩
    have heq : s = t ++ ['/'] := by
      apply @List.append_cancel_right _ _ ['/']
      rw [← ht, List.append_assoc]
      rfl
    rw [heq, List.getLast?_concat]
  · intro h
    obtain ⟨t, rfl⟩ := List.getLast?_eq_some_iff.mp h
    exact ⟨t, by rw [List.append_assoc]; rfl⟩

section
variable {lib : Library} {base : Url} {tail : List Text}

/-- What is named by the path of a request that is resolved to itself. -/
theorem result_of_stem {z : Text} (hz : ∀ c ∈ z, c = '/') (hs : IsNames names)
    (hpath : path.toList = if names = [] then ['/'] else joined names)
    (htail : tail = [[]] ∨ tail = []) (hne : names ++ tail ≠ []) :
  (if (trimEndSlashes (z ++ joined (names ++ tail))).isEmpty then "/"
    else String.ofList (trimEndSlashes (z ++ joined (names ++ tail)))) = path
      ↔ names = [] ∨ z = []
  := by
  obtain ⟨w, hw, hslash⟩ := exists_joined_tail names htail
  rw [hw, ← List.append_assoc, trimEndSlashes_append hslash]
  by_cases hnames : names = []
  · subst hnames
    have hnil : joined [] = [] := rfl
    have hempty : trimEndSlashes z = [] := by
      have happend := trimEndSlashes_append hz []
      rw [List.nil_append] at happend
      exact happend
    rw [hnil, List.append_nil, hempty, if_pos List.isEmpty_nil]
    exact iff_of_true (String.toList_injective hpath.symm) (.inl rfl)
  · rw [if_neg hnames] at hpath
    have hne' : joined names ≠ [] := by
      rw [joined_eq hnames]
      exact List.cons_ne_nil _ _
    have hlast : (z ++ joined names).getLast? ≠ some '/' := by
      rw [List.getLast?_append_of_ne_nil _ hne']
      exact getLast?_names hs hnames
    have hempty : ¬ (z ++ joined names).isEmpty = true := by
      rw [List.isEmpty_iff]
      exact List.append_ne_nil_of_right_ne_nil _ hne'
    rw [trimEndSlashes_eq_self hlast, if_neg hempty]
    constructor
    · intro heq
      right
      have hlist := congrArg String.toList heq
      rw [String.toList_ofList, hpath] at hlist
      exact List.append_left_eq_self.mp hlist
    · intro hor
      rw [hor.resolve_left hnames, List.nil_append, ← hpath, String.ofList_toList]

/-- What is added to a stem begins with one slash. -/
theorem getElem?_request (hs : IsNames names) (htail : tail = [[]] ∨ tail = []) :
  (joined (names.map (encode segmentSet) ++ tail))[1]? ≠ some '/'
  := by
  cases names with
  | nil =>
      rcases htail with rfl | rfl
      · exact (Option.some_ne_none _).symm
      · exact (Option.some_ne_none _).symm
  | cons s names =>
      obtain ⟨-, hempty, hdot, hdots, -⟩ := hs s List.mem_cons_self
      obtain ⟨hsegment, hne⟩ := isSegment_name hempty hdot hdots
      obtain ⟨c, t, hc⟩ := List.exists_cons_of_ne_nil hne
      rw [List.map_cons, List.cons_append, joined_cons, hc]
      intro h
      cases h
      exact (hsegment.1 '/' (by rw [hc]; exact List.mem_cons_self)).2.1 rfl

/-- What is added to a stem begins with a slash. -/
theorem head?_joined (hne : names ++ tail ≠ []) :
  (joined (names ++ tail)).head? = some '/'
  := by
  rw [joined_eq hne]
  rfl

/-- A path comes back when the path of its request does not begin with two slashes and nothing is
left of the stem. -/
theorem returns_root (hroot : base.path = ['/'] ∨ base.path = ['/', '/']) (hs : IsNames names)
    (hpath : path.toList = if names = [] then ['/'] else joined names)
    (htail : tail = [[]] ∨ tail = []) (hne : names ++ tail ≠ []) :
  hrefToPath lib (joined (names.map (encode segmentSet) ++ tail)) base (percentDecode base.path)
    = some path
  := by
  have hpath' := @isPath_request names [] (.inl rfl) hs tail htail hne
  have hdecode := percentDecode_request [] names htail
  rw [List.nil_append] at hpath' hdecode
  rw [percentDecode_nil, List.nil_append] at hdecode
  obtain ⟨u, hjoin, hu⟩ := join_path lib base hpath'
    (getElem?_request hs htail)
  have hresult := (result_of_stem (z := []) (by simp) hs hpath htail hne).mpr (.inr rfl)
  rw [List.nil_append] at hresult
  have hbelow : (if percentDecode base.path = ['/'] then some (joined (names ++ tail))
      else Option.filter (fun t => t.isEmpty || decide (t.head? = some '/'))
        (stripPrefix (trimEndSlashes (percentDecode base.path)) (joined (names ++ tail))))
      = some (joined (names ++ tail)) := by
    rcases hroot with hroot | hroot
    · rw [hroot, percentDecode_cons, percentDecode_nil, if_pos rfl]
    · have hstrip := stripPrefix_append [] (joined (names ++ tail))
      have htrim : trimEndSlashes ['/', '/'] = [] := rfl
      rw [List.nil_append] at hstrip
      rw [hroot, percentDecode_cons, percentDecode_cons, percentDecode_nil, if_neg (by decide),
        htrim, hstrip, Option.filter_some_pos]
      rw [head?_joined hne, decide_eq_true rfl, Bool.or_true]
  rw [hrefToPath_eq hjoin, Parsed.path, hu, hdecode, hbelow, Option.map_some, hresult]

/-- Below another base path that does not begin with two slashes. -/
theorem returns_stem (hbase : base.path = stem ++ ['/']) (hstem : IsPath stem)
    (hlen : 1 < stem.length) (htwo : stem[1]? ≠ some '/') (hs : IsNames names)
    (hpath : path.toList = if names = [] then ['/'] else joined names)
    (htail : tail = [[]] ∨ tail = []) (hne : names ++ tail ≠ []) :
  hrefToPath lib (stem ++ joined (names.map (encode segmentSet) ++ tail)) base
      (percentDecode base.path) = some path
    ↔ names = [] ∨ (percentDecode stem).getLast? ≠ some '/'
  := by
  have hpath' := isPath_request (.inr hstem) hs htail hne
  have hsecond : (stem ++ joined (names.map (encode segmentSet) ++ tail))[1]? ≠ some '/' := by
    rw [List.getElem?_append_left hlen]
    exact htwo
  obtain ⟨u, hjoin, hu⟩ := join_path lib base hpath' hsecond
  obtain ⟨z, hz, hslash, hlast⟩ := exists_trimEndSlashes (percentDecode stem)
  have hne' : percentDecode stem ≠ [] := percentDecode_ne_nil hstem
  have hroot : percentDecode stem ++ ['/'] ≠ ['/'] := by
    intro heq
    exact hne' (List.append_left_eq_self.mp heq)
  have hhead : (z ++ joined (names ++ tail)).head? = some '/' := by
    cases z with
    | nil => exact head?_joined hne
    | cons c z =>
        rw [hslash c List.mem_cons_self]
        rfl
  have hdecode := percentDecode_request stem names htail
  have hstrip : stripPrefix (trimEndSlashes (percentDecode stem))
      (percentDecode stem ++ joined (names ++ tail)) = some (z ++ joined (names ++ tail)) := by
    conv_lhs => rw [hz, List.append_assoc]
    rw [trimEndSlashes_append hslash, trimEndSlashes_eq_self hlast]
    exact stripPrefix_append _ _
  rw [hrefToPath_eq hjoin, Parsed.path, hu, hdecode, hbase, percentDecode_concat, if_neg hroot,
    trimEndSlashes_concat, hstrip, Option.filter_some_pos, Option.map_some, Option.some_inj,
    result_of_stem hslash hs hpath htail hne]
  · apply or_congr_right
    constructor
    · rintro rfl
      rw [hz, List.append_nil]
      exact hlast
    · intro hnot
      by_contra hne''
      apply hnot
      rw [hz, List.getLast?_append_of_ne_nil _ hne'',
        List.getLast?_eq_some_getLast hne'', hslash _ (List.getLast_mem hne'')]
  · rw [hhead, decide_eq_true rfl, Bool.or_true]

theorem hrefToPath_error {href : Text} {e : ParseError}
    (h : join lib base (trimBy isWhitespace href) = .error e) (basePath : Text) :
  hrefToPath lib href base basePath = none
  := by
  rw [hrefToPath, WebDav.hrefToPath]
  dsimp only [session]
  rw [String.toList_ofList, h]
  rfl

theorem length_slashes (hhead : p.head? = some '/') (hsecond : p[1]? = some '/') :
  2 ≤ (p.takeWhile isSlash).length
  := by
  cases p with
  | nil => cases hhead
  | cons c t =>
      cases t with
      | nil => cases hsecond
      | cons d t =>
          cases hhead
          cases hsecond
          rw [List.takeWhile_cons_of_pos rfl, List.takeWhile_cons_of_pos rfl]
          exact Nat.le_add_left 2 _

theorem percentDecode_slashes {x : Text} (hx : ∀ c ∈ x, c = '/') (t : Text) :
  percentDecode (x ++ t) = x ++ percentDecode t
  := by
  induction x with
  | nil => rfl
  | cons c x ih =>
      rw [hx c List.mem_cons_self, List.cons_append, percentDecode_cons,
        ih (fun d hd => hx d (List.mem_cons_of_mem c hd))]
      rfl

/-- What is below a base path, when a path is named by it. -/
theorem exists_rel {basePath decoded : Text} (hroot : basePath ≠ ['/'])
    (h : (if basePath = ['/'] then some decoded
      else Option.filter (fun t => t.isEmpty || decide (t.head? = some '/'))
        (stripPrefix (trimEndSlashes basePath) decoded)).map (fun rel =>
          if (trimEndSlashes rel).isEmpty then "/" else String.ofList (trimEndSlashes rel))
      = some path)
    (hs : IsNames names) (hpath : path.toList = if names = [] then ['/'] else joined names) :
  ∃ w, (∀ c ∈ w, c = '/') ∧ decoded = trimEndSlashes basePath ++ (joined names ++ w)
  := by
  rw [if_neg hroot] at h
  obtain ⟨rel, hrel, hresult⟩ := Option.map_eq_some_iff.mp h
  have hstrip := stripPrefix_eq_some (Option.filter_eq_some_iff.mp hrel).1
  obtain ⟨w, hw, hslash, hlast⟩ := exists_trimEndSlashes rel
  refine ⟨w, hslash, ?_⟩
  suffices htrim : trimEndSlashes rel = joined names by
    rw [hstrip, ← htrim, ← hw]
  have hlist := congrArg String.toList hresult
  by_cases hnames : names = []
  · subst hnames
    rw [hpath, if_pos rfl] at hlist
    split at hlist
    · rename_i hempty
      exact List.isEmpty_iff.mp hempty
    · rw [String.toList_ofList] at hlist
      rw [hlist] at hlast
      exact absurd rfl hlast
  · rw [hpath, if_neg hnames] at hlist
    split at hlist
    · exact absurd (congrArg List.getLast? hlist.symm) (getLast?_names hs hnames)
    · rw [String.toList_ofList] at hlist
      exact hlist

/-- A stem is not what is left of it, after what is passed over as slashes and a host, unless all
of it is slashes. -/
theorem slashes_of_stem {x t w w' d : Text} (hs : IsNames names) (hx : x.head? = some '/')
    (hw : ∀ c ∈ w, c = '/') (hw' : ∀ c ∈ w', c = '/') (ht : t = trimEndSlashes d)
    (h : d ++ (joined names ++ w) = x ++ (t ++ (joined names ++ w'))) :
  ∀ c ∈ x, c = '/'
  := by
  have htrim := congrArg trimEndSlashes h
  simp only [← List.append_assoc] at htrim
  rw [trimEndSlashes_append hw, trimEndSlashes_append hw'] at htrim
  have hstem : trimEndSlashes (x ++ t) = t := by
    by_cases hnames : names = []
    · subst hnames
      have hnil : joined [] = [] := rfl
      rw [hnil, List.append_nil, List.append_nil] at htrim
      rw [← htrim, ht]
    · have hlast : ∀ y : Text, (y ++ joined names).getLast? ≠ some '/' := by
        intro y
        rw [List.getLast?_append_of_ne_nil]
        · exact getLast?_names hs hnames
        · rw [joined_eq hnames]
          exact List.cons_ne_nil _ _
      rw [trimEndSlashes_eq_self (hlast d), trimEndSlashes_eq_self (hlast (x ++ t))] at htrim
      rw [← List.append_cancel_right htrim, ht]
  by_cases hempty : t = []
  · obtain ⟨z, hz, hslash, -⟩ := exists_trimEndSlashes x
    rw [hempty, List.append_nil] at hstem
    rw [hstem, List.nil_append] at hz
    rw [hz]
    exact hslash
  · obtain ⟨-, -, -, hlast⟩ := exists_trimEndSlashes d
    rw [← ht] at hlast
    rw [trimEndSlashes_eq_self] at hstem
    · rw [List.append_left_eq_self.mp hstem] at hx
      cases hx
    · rw [List.getLast?_append_of_ne_nil _ hempty]
      exact hlast

/-- Below a base path that begins with two slashes no path comes back: the reference is taken to
begin with a host. -/
theorem not_returns (hbase : base.path = stem ++ ['/']) (hstem : IsPath stem)
    (hlen : 1 < stem.length) (htwo : stem[1]? = some '/') (hs : IsNames names)
    (hpath : path.toList = if names = [] then ['/'] else joined names)
    (htail : tail = [[]] ∨ tail = []) (hne : names ++ tail ≠ []) :
  hrefToPath lib (stem ++ joined (names.map (encode segmentSet) ++ tail)) base
      (percentDecode base.path) ≠ some path
  := by
  intro heq
  have hpath' := isPath_request (.inr hstem) hs htail hne
  have hdecode := percentDecode_request stem names htail
  have hsecond : (stem ++ joined (names.map (encode segmentSet) ++ tail))[1]? = some '/' := by
    rw [List.getElem?_append_left hlen]
    exact htwo
  have hend : names = [] → (stem ++ joined (names.map (encode segmentSet) ++ tail)).getLast?
      = some '/' := by
    rintro rfl
    obtain rfl : tail = [[]] := by
      rcases htail with rfl | rfl
      · rfl
      · exact absurd rfl hne
    exact List.getLast?_concat
  generalize hq : stem ++ joined (names.map (encode segmentSet) ++ tail) = q
    at heq hpath' hdecode hsecond hend
  have hjoin : join lib base (trimBy isWhitespace q)
      = (parseAuthority lib.idna base.scheme (q.dropWhile isSlash)).map .web := by
    rw [join_of_isPath hpath', relative, if_pos (length_slashes hpath'.head hsecond)]
  cases hauthority : parseAuthority lib.idna base.scheme (q.dropWhile isSlash) with
  | error e =>
      rw [hauthority] at hjoin
      rw [hrefToPath_error hjoin] at heq
      cases heq
  | ok u =>
      rw [hauthority] at hjoin
      obtain ⟨hfull, hpathu, hhost⟩ := of_parseAuthority hauthority
      have hroot : percentDecode base.path ≠ ['/'] := by
        rw [hbase, percentDecode_concat]
        exact fun h => percentDecode_ne_nil hstem (List.append_left_eq_self.mp h)
      rw [hrefToPath_eq hjoin] at heq
      obtain ⟨w, hw, hrel⟩ := exists_rel hroot heq hs hpath
      rw [Parsed.path] at hrel
      -- the slashes, the host, and what is left of the path
      have hparts : q = q.takeWhile isSlash ++ ((q.dropWhile isSlash).takeWhile isAuthorityChar
          ++ (q.dropWhile isSlash).dropWhile isAuthorityChar) := by
        rw [List.takeWhile_append_dropWhile, List.takeWhile_append_dropWhile]
      have hslashes : ∀ c ∈ q.takeWhile isSlash, c = '/' := by
        intro c hc
        have hslash : isSlash c = true := List.mem_takeWhile_imp hc
        have hback := (hpath'.not_set ((List.takeWhile_sublist isSlash).subset hc)).2
        rw [isSlash, Bool.or_eq_true, beq_iff_eq, beq_iff_eq] at hslash
        exact hslash.resolve_right hback
      have hfirst := length_slashes hpath'.head hsecond
      have hrest := List.head?_dropWhile_not isAuthorityChar (q.dropWhile isSlash)
      generalize q.takeWhile isSlash = slashes at hparts hslashes hfirst
      generalize ha : (q.dropWhile isSlash).takeWhile isAuthorityChar = a at hparts hfull hhost
      generalize (q.dropWhile isSlash).dropWhile isAuthorityChar = rest at hparts hpathu hrest
      cases rest with
      | nil =>
          have hpathu' : u.path = ['/'] := hpathu
          rw [hpathu', percentDecode_cons, percentDecode_nil] at hrel
          have hlength := congrArg List.length hrel
          by_cases hnames : names = []
          · have hlast := hend hnames
            rw [hparts, List.append_nil, List.getLast?_append_of_ne_nil _ hfull] at hlast
            have hmem := List.mem_of_getLast? hlast
            rw [← ha] at hmem
            have hchar := List.mem_takeWhile_imp hmem
            cases hchar
          · obtain ⟨s, names, rfl⟩ := List.exists_cons_of_ne_nil hnames
            have hpos := List.length_pos_of_ne_nil (hs s List.mem_cons_self).2.1
            rw [joined_cons, List.length_append, List.length_append, List.length_append,
              List.length_cons, List.length_cons, List.length_nil] at hlength
            omega
      | cons c z =>
          have hmem : c ∈ q := by
            rw [hparts]
            exact List.mem_append_right _ (List.mem_append_right _ List.mem_cons_self)
          obtain rfl : c = '/' := by
            have hchar := (bounds_of_isPath hpath' hmem).2.2.2
            have hback := (hpath'.not_set hmem).2
            have hnot : isAuthorityChar c = false := by
              cases hauth : isAuthorityChar c with
              | false => rfl
              | true => exact absurd hauth (by simpa using hrest)
            rw [isAuthorityChar, hchar, Bool.and_true, Bool.not_eq_false', isSlash,
              Bool.or_eq_true, beq_iff_eq, beq_iff_eq] at hnot
            exact hnot.resolve_right hback
          rw [← List.append_assoc] at hparts
          have hsuffix : IsPath ('/' :: z) := by
            apply IsPath.suffix (y := slashes ++ a)
            rw [← hparts]
            exact hpath'
          have htake : ('/' :: z).takeWhile isPathChar = '/' :: z :=
            List.takeWhile_eq_self_iff.mpr
              (fun d hd => (bounds_of_isPath hsuffix hd).2.2.2)
          rw [htake, parsePath_of_isPath hsuffix] at hpathu
          obtain ⟨w', hw', hslash'⟩ := exists_joined_tail names htail
          rw [hparts, percentDecode_slash, ← percentDecode_cons, ← hpathu, hrel, hbase,
            percentDecode_concat, trimEndSlashes_concat, hw', percentDecode_slashes hslashes]
            at hdecode
          have hhead : (slashes ++ percentDecode a).head? = some '/' := by
            cases slashes with
            | nil => cases hfirst
            | cons d slashes =>
                rw [hslashes d List.mem_cons_self]
                rfl
          have hall := slashes_of_stem hs hhead hslash' hw rfl hdecode.symm
          exact hhost (fun c hc => hall c (List.mem_append_right _ hc))

/-- Which paths come back below which base path. -/
theorem returns_iff (hp : IsPath base.path) (hlast : base.path.getLast? = some '/')
    (h : normalizePath path = some path) (hcontrol : ∀ c ∈ path.toList, isControl c = false)
    (dir : Bool) :
  Returns lib base path dir ↔ IsBaseOf base.path path
  := by
  obtain ⟨names, hs, hpath⟩ := exists_names h hcontrol
  obtain ⟨hhead, hstem⟩ := stem_spec hp hlast
  have hroot := (filter_splitOn hs hpath).2
  have hurl := @urlFor_eq names path base dir hhead h hs hpath
  obtain ⟨tail, htail, htailne, htaileq⟩ : ∃ tail : List Text, (tail = [[]] ∨ tail = []) ∧
      names ++ tail ≠ [] ∧ (if dir = true ∨ names = [] then [[]] else []) = tail := by
    refine ⟨_, ?_, ?_, rfl⟩
    · split
      · exact .inl rfl
      · exact .inr rfl
    · split
      · exact List.append_ne_nil_of_right_ne_nil _ (List.cons_ne_nil _ _)
      · rename_i hnot
        rw [not_or] at hnot
        rw [List.append_nil]
        exact hnot.2
  rw [htaileq] at hurl
  rw [Returns, hurl, Option.bind_some, IsBaseOf, hroot]
  rcases hstem with ⟨hbase, hnil⟩ | ⟨hbase, hpath', hlen, hsecond⟩
  · rw [hnil, List.nil_append]
    apply iff_of_true (returns_root hbase hs hpath htail htailne)
    rcases hbase with hbase | hbase
    · right
      have hdecode : percentDecode ['/'] = [] ++ ['/'] := by
        rw [percentDecode_cons, percentDecode_nil]
        rfl
      rw [hbase, hdecode, suffix_concat]
      exact ⟨by decide, .inr (by decide)⟩
    · exact .inl hbase
  · have hnot : base.path ≠ ['/', '/'] := by
      intro heq
      have hlength := congrArg List.length (hbase.symm.trans heq)
      rw [List.length_append, List.length_singleton, List.length_cons,
        List.length_singleton] at hlength
      omega
    have hdecode : percentDecode base.path
        = percentDecode (stemOf (popIfEmpty base.path)) ++ ['/'] := by
      conv_lhs => rw [hbase, percentDecode_concat]
    by_cases htwo : (stemOf (popIfEmpty base.path))[1]? = some '/'
    · apply iff_of_false (not_returns hbase hpath' hlen htwo hs hpath htail htailne)
      rintro (heq | ⟨hne, -⟩)
      · exact hnot heq
      · exact hne (hsecond.trans htwo)
    · rw [returns_stem hbase hpath' hlen htwo hs hpath htail htailne, hdecode, suffix_concat,
        hsecond]
      constructor
      · exact fun hright => .inr ⟨htwo, hright⟩
      · exact fun hor => (hor.resolve_left hnot).2

end

end

/-! ### What comes back -/

/-- The URL of a share comes back from its pieces just when its path is written of one in which
nothing is read for something else; and a path comes back from the URL of its request just when
the base path has no empty segments that stand in its way. -/
theorem comes_back_iff (lib : Library) :
  (∀ url u, normalizeUrl lib url = .ok u → u.username = [] → u.password = [] →
    ((splitShareUrl lib url >>= fun p => p.url lib) = .ok u ↔ IsWritten u.path)) ∧
  ∀ url base, normalizeUrl lib url = .ok base →
    ∀ path dir, normalizePath path = some path → (∀ c ∈ path.toList, isControl c = false) →
      (Returns lib base path dir ↔ IsBaseOf base.path path)
  := by
  constructor
  · intro url u h huser hpassword
    exact url_splitShareUrl h huser hpassword
  · intro url base h path dir hpath hcontrol
    obtain ⟨⟨-, -, hbase⟩, hlast, -⟩ := of_normalizeUrl h
    exact returns_iff hbase hlast hpath hcontrol dir

theorem toLower_spec {c : Char} (h : c.toNat < 128) :
  c.toLower.toNat < 128 ∧ c.toLower.toLower = c.toLower ∧ (c.isAlpha = false → c.toLower = c)
  := by
  have hall : ∀ n : Fin 128, (Char.ofNat n.val).toLower.toNat < 128 ∧
      (Char.ofNat n.val).toLower.toLower = (Char.ofNat n.val).toLower ∧
      ((Char.ofNat n.val).isAlpha = false → (Char.ofNat n.val).toLower = Char.ofNat n.val) := by
    decide
  have hc := hall ⟨c.toNat, h⟩
  rw [Char.ofNat_toNat] at hc
  exact hc

/-- What IDNA makes of domains of ASCII without labels in Punycode. -/
def asciiIdna : Idna where
  toAscii s := if s.all (fun c => decide (c.toNat < 128)) then some (s.map Char.toLower) else none
  isAscii := by
    intro s t h c hc
    split at h
    · rename_i hall
      cases h
      obtain ⟨d, hd, rfl⟩ := List.mem_map.mp hc
      exact (toLower_spec (of_decide_eq_true (List.all_eq_true.mp hall d hd))).1
    · cases h
  again := by
    intro s t h
    split at h
    · rename_i hall
      cases h
      rw [if_pos]
      · rw [List.map_map]
        congr 1
        apply List.map_congr_left
        intro c hc
        exact (toLower_spec (of_decide_eq_true (List.all_eq_true.mp hall c hc))).2.1
      · apply List.all_eq_true.mpr
        intro c hc
        obtain ⟨d, hd, rfl⟩ := List.mem_map.mp hc
        exact decide_eq_true
          (toLower_spec (of_decide_eq_true (List.all_eq_true.mp hall d hd))).1
    · cases h
  unlettered := by
    intro s h
    rw [if_pos (List.all_eq_true.mpr (fun c hc => decide_eq_true (h c hc).1))]
    congr 1
    conv_rhs => rw [← List.map_id s]
    apply List.map_congr_left
    intro c hc
    exact (toLower_spec (h c hc).1).2.2 (h c hc).2

def asciiLibrary : Library := ⟨asciiIdna, fun _ rest => .ok rest⟩

theorem parse_h :
  UrlHost.parse asciiLibrary.idna ['h'] = .ok (.domain ['h'])
  := by
  have hchars : ∀ c ∈ ['h'], isForbidden c = false := by
    intro c hc
    rw [List.mem_singleton.mp hc]
    rfl
  rw [parse_of rfl hchars (List.cons_ne_nil _ _), if_neg (by decide)]

/-- A share at the host `h`. -/
theorem normalizeUrl_h (t : Text) (ht : t.head? = some '/') (hlast : t.getLast? = some '/') :
  normalizeUrl asciiLibrary ("https://h".toList ++ t)
    = .ok ⟨.https, [], [], .domain ['h'], none, writtenPath t, none, none⟩
  := by
  have htext : "https://h".toList
      = Scheme.https.text ++ "://".toList ++ (UrlHost.Host.domain ['h']).text ++ portText none := by
    decide
  rw [htext]
  exact normalizeUrl_written parse_h (Option.some_ne_none _).symm ht hlast

/-- The path is read as ending where a question mark was written. -/
theorem not_comes_back :
  ¬ ∀ lib : Library,
    (∀ url u, normalizeUrl lib url = .ok u → u.username = [] → u.password = [] →
      (splitShareUrl lib url >>= fun p => p.url lib) = .ok u) ∧
    ∀ url base, normalizeUrl lib url = .ok base →
      ∀ path dir, normalizePath path = some path → (∀ c ∈ path.toList, isControl c = false) →
        Returns lib base path dir
  := by
  intro h
  have hurl := normalizeUrl_h "/a%3Fb/".toList rfl rfl
  have hsame := (url_splitShareUrl hurl rfl rfl).mp ((h asciiLibrary).1 _ _ hurl rfl rfl)
  obtain ⟨s, hs, -, hplain, hchars⟩ := hsame
  have hwritten : writtenPath "/a%3Fb/".toList = "/a%3Fb/".toList := by decide
  dsimp only at hs
  rw [hwritten] at hs
  -- the text that the path is written of is its decoded form
  have hread : s = percentDecode "/a%3Fb/".toList := by
    rw [percentDecode, ← hs, decode_encode_path, decode_of_isPlain hplain, lossy_encode]
  have hdecode : decode "/a%3Fb/".toList = Utf8.encode "/a?b/".toList := by decide
  rw [percentDecode, hdecode, lossy_encode] at hread
  have hpath := (hchars '?' (by rw [hread]; decide)).1
  cases hpath

/-- A share and a path below it that come back. -/
theorem comes_back_h :
  (splitShareUrl asciiLibrary "https://h/a%20b/".toList >>= fun p => p.url asciiLibrary)
      = .ok ⟨.https, [], [], .domain ['h'], none, "/a%20b/".toList, none, none⟩ ∧
    Returns asciiLibrary ⟨.https, [], [], .domain ['h'], none, "/a%20b/".toList, none, none⟩
      "/c d" true
  := by
  have hurl := normalizeUrl_h "/a%20b/".toList rfl rfl
  have hwritten : writtenPath "/a%20b/".toList = "/a%20b/".toList := by decide
  rw [hwritten] at hurl
  constructor
  · apply ((comes_back_iff asciiLibrary).1 _ _ hurl rfl rfl).mpr
    refine ⟨"/a b/".toList, by decide, .inr ⟨"a b".toList, by decide⟩, by decide, ?_⟩
    have hall : "/a b/".toList.all (fun c => isPathChar c && !isTabOrNewline c && c != '\\')
        = true := rfl
    intro c hc
    have hchar := List.all_eq_true.mp hall c hc
    rw [Bool.and_eq_true, Bool.and_eq_true, Bool.not_eq_true', bne_iff_ne] at hchar
    exact ⟨hchar.1.1, hchar.1.2, hchar.2⟩
  · apply ((comes_back_iff asciiLibrary).2 _ _ hurl "/c d" true ?_ ?_).mpr
    · have hdecode : decode "/a%20b/".toList = Utf8.encode "/a b/".toList := by decide
      refine .inr ⟨by decide, .inr ?_⟩
      rw [percentDecode, hdecode, lossy_encode]
      decide
    · decide +kernel
    · have hall : "/c d".toList.all (fun c => !isControl c) = true := rfl
      exact fun c hc => (Bool.not_eq_true' _).mp (List.all_eq_true.mp hall c hc)

end Termoso.Core.ShareUrl
