import Termoso.Lib.WebUrl
import Termoso.Core.Store

/-!
# URLs of shares

The URL of a WebDAV share is taken apart into a host, a port and a path, which are kept apart in a
section of the host entry, and put together again.  The path is kept decoded.  So a URL comes back
when its path is what the decoded path is written as, and the decoded path has nothing in it that
reading a URL takes for something else.
-/

namespace Termoso.Core.ShareUrl

open Utf8 Split Percent UrlHost WebUrl

/-- Read the bytes written in a text. -/
def percentDecode (s : Text) : Text := lossy (Percent.decode s)

variable (lib : Library)

/-- Read the URL of a share: without query and fragment, and with a slash at the end. -/
def normalizeUrl (url : Text) : Except CoreError Url :=
  let trimmed := trimBy isWhitespace url
  let withScheme :=
    if (cut "://".toList trimmed).isSome then trimmed else "https://".toList ++ trimmed
  match parse lib withScheme with
  | .error e => .error (.invalid ("bad URL: " ++ e.display))
  | .ok (.other scheme _) =>
    .error (.invalid ("unsupported URL scheme " ++ String.ofList scheme))
  | .ok (.web u) =>
    -- a URL of these schemes has a host
    let u := { u with query := none, fragment := none }
    .ok (if u.path.getLast? = some '/' then u else u.setPath (u.path ++ ['/']))

/-- A path with a slash at both ends. -/
def normalizeSharePath (path : Text) : Text :=
  let p := trimBy (fun c => c == '/') (trimBy isWhitespace path)
  if p = [] then ['/'] else '/' :: p ++ ['/']

/-- The section of a host entry about its share. -/
structure WebDavConfig where
  /-- The URL that older entries stored. -/
  url : Text
  port : Option UInt16
  path : Text
  http : Bool

/-- The URL of the share of a host. -/
def shareUrl (address : Text) (config : WebDavConfig) : Except CoreError Url :=
  if trimBy isWhitespace config.url ≠ [] then normalizeUrl lib config.url
  else
    let address := trimBy isWhitespace address
    if address = [] then .error (.invalid "address is required")
    else
      let host :=
        if ':' ∈ address ∧ address.head? ≠ some '[' then '[' :: (address ++ [']']) else address
      let scheme := if config.http then "http".toList else "https".toList
      let defaultPort := if config.http then 80 else 443
      let port := portText (config.port.filter (fun p => decide (p ≠ defaultPort)))
      normalizeUrl lib
        (scheme ++ "://".toList ++ host ++ port ++ normalizeSharePath config.path)

/-- What the URL of a share is taken apart into. -/
structure SharePieces where
  host : Text
  /-- The port, unless it is the default one of the scheme. -/
  port : Option UInt16
  http : Bool
  path : Text
deriving DecidableEq

/-- A host as a piece: an IPv6 address without brackets. -/
def hostPiece : UrlHost.Host → Text
  | .ipv6 ip => ip.display
  | h => h.text

/-- Take the URL of a share apart. -/
def splitShareUrl (url : Text) : Except CoreError SharePieces := do
  let u ← normalizeUrl lib url
  return ⟨hostPiece u.host, u.port, u.scheme = .http, normalizeSharePath (percentDecode u.path)⟩

/-- The URL of the share that pieces are kept of. -/
def SharePieces.url (p : SharePieces) : Except CoreError Url :=
  shareUrl lib p.host ⟨[], p.port, p.path, p.http⟩

/-! ### Paths -/

/-- A path with a slash at its end. -/
def finish (p : Text) : Text := if p.getLast? = some '/' then p else p ++ ['/']

/-- The path of a URL that is written with a text. -/
def writtenPath (s : Text) : Text := finish (parsePath [] ((dropTabs s).takeWhile isPathChar))

/-- A path with a slash at both ends and none beside them. -/
def IsSharePath (s : Text) : Prop :=
  s = ['/'] ∨ ∃ t, s = '/' :: t ++ ['/'] ∧ t ≠ [] ∧ t.head? ≠ some '/' ∧ t.getLast? ≠ some '/'

/-- The paths that come back: what is written of a path with a slash at both ends, when nothing in
it is passed over, ends it, or looks like a byte that was written. -/
def IsWritten (p : Text) : Prop :=
  ∃ s, encode pathSet s = p ∧ IsSharePath s ∧ Percent.isPlain s = true ∧
    ∀ c ∈ s, isPathChar c = true ∧ isTabOrNewline c = false ∧ c ≠ '\\'

section
variable {s p d : Text}

theorem IsSharePath.ends (h : IsSharePath s) :
  s.head? = some '/' ∧ s.getLast? = some '/'
  := by
  rcases h with rfl | ⟨t, rfl, -⟩
  · exact ⟨rfl, rfl⟩
  · exact ⟨rfl, by rw [List.cons_append, ← List.cons_append, List.getLast?_concat]⟩

/-- White space is not trimmed from a path with slashes at its ends. -/
theorem trim_eq_self (hhead : d.head? = some '/') (hlast : d.getLast? = some '/') :
  trimBy isWhitespace d = d
  := trimBy_eq_self hhead hlast rfl rfl

/-- A path with slashes at its ends loses those beside them. -/
theorem normalizeSharePath_spec (hhead : d.head? = some '/') (hlast : d.getLast? = some '/') :
  IsSharePath (normalizeSharePath d) ∧ (normalizeSharePath d).length ≤ d.length ∧
    ((normalizeSharePath d).length = d.length → normalizeSharePath d = d)
  := by
  obtain ⟨x, y, hd, hx, hy⟩ := exists_eq_trimBy (fun c => c == '/') d
  have hslash : ∀ {z : Text}, (∀ c ∈ z, (c == '/') = true) → z.length = 1 → z = ['/'] := by
    intro z hz hlen
    obtain ⟨c, rfl⟩ := List.length_eq_one_iff.mp hlen
    rw [eq_of_beq (hz c List.mem_cons_self)]
  have hends := @trimBy_ends Char (fun c => c == '/') d '/'
  rw [normalizeSharePath, trim_eq_self hhead hlast]
  generalize trimBy (fun c => c == '/') d = t at hd hends
  have hnone : ∀ {o : Option Char}, (o = some '/' → ('/' == '/') = false) → o ≠ some '/' :=
    fun h ho => absurd (h ho) (by decide)
  split
  · refine ⟨.inl rfl, ?_, fun hlen => ?_⟩
    · apply List.length_pos_of_ne_nil
      rintro rfl
      cases hhead
    · obtain ⟨c, rfl⟩ := List.length_eq_one_iff.mp hlen.symm
      cases hhead
      rfl
  · rename_i ht
    have hxpos : 0 < x.length := by
      apply List.length_pos_of_ne_nil
      rintro rfl
      rw [hd, List.nil_append, List.head?_append_of_ne_nil _ ht] at hhead
      exact hnone hends.1 hhead
    have hypos : 0 < y.length := by
      apply List.length_pos_of_ne_nil
      rintro rfl
      rw [hd, List.append_nil, List.getLast?_append_of_ne_nil _ ht] at hlast
      exact hnone hends.2 hlast
    have hlen : d.length = x.length + t.length + y.length := by
      rw [hd, List.length_append, List.length_append]
    have hlen' : ('/' :: t ++ ['/']).length = t.length + 2 := by
      rw [List.length_append, List.length_cons, List.length_singleton]
    refine ⟨.inr ⟨t, rfl, ht, hnone hends.1, hnone hends.2⟩, by omega, fun heq => ?_⟩
    rw [hd, hslash hx (by omega), hslash hy (by omega)]
    rfl

theorem normalizeSharePath_of_isSharePath (h : IsSharePath s) :
  normalizeSharePath s = s
  := by
  rw [normalizeSharePath, trim_eq_self h.ends.1 h.ends.2]
  rcases h with rfl | ⟨t, rfl, hne, hhead, hlast⟩
  · rfl
  · have hone : ∀ c ∈ ['/'], (c == '/') = true := by
      intro c hc
      rw [List.mem_singleton.mp hc]
      rfl
    have hedge : ∀ {o : Option Char} {c : Char}, o = some c → o ≠ some '/' →
        (c == '/') = false := by
      intro o c ho hne
      apply beq_false_of_ne
      rintro rfl
      exact hne ho
    have htrim : trimBy (fun c => c == '/') ('/' :: t ++ ['/']) = t := by
      have happend := trimBy_append hone hone t
      rw [List.singleton_append] at happend
      rw [happend]
      cases hc : t.head? with
      | none => exact absurd (List.head?_eq_none_iff.mp hc) hne
      | some c =>
          have hd := List.getLast?_eq_some_getLast hne
          exact trimBy_eq_self hc hd (hedge hc hhead) (hedge hd hlast)
    rw [htrim, if_neg hne]

/-- What is read of a path: it is no longer, and shorter when something is passed over. -/
theorem exists_writtenPath (hhead : s.head? = some '/') (hlast : s.getLast? = some '/') :
  ∃ t, writtenPath s = encode pathSet t ∧ '\\' ∉ t ∧ t.length ≤ s.length ∧
    (t.length = s.length → ∀ c ∈ s, isPathChar c = true ∧ isTabOrNewline c = false)
  := by
  have hkept : (dropTabs s).length ≤ s.length := List.length_filter_le _ s
  have hhead' := head?_dropTabs hhead
  have hlast' : (dropTabs s).getLast? = some '/' := by
    obtain ⟨x, rfl⟩ := List.getLast?_eq_some_iff.mp hlast
    rw [dropTabs, List.filter_append, List.filter_cons_of_pos rfl, List.filter_nil,
      List.getLast?_concat]
  have hcut := List.takeWhile_append_dropWhile (p := isPathChar) (l := dropTabs s)
  have hhead'' : ((dropTabs s).takeWhile isPathChar).head? = some '/' := by
    cases hs : dropTabs s with
    | nil =>
        rw [hs] at hhead'
        cases hhead'
    | cons c t =>
        rw [hs] at hhead'
        cases hhead'
        rfl
  have hraw := length_rawPath_le hhead''
  have hback := not_mem_rawPath ((dropTabs s).takeWhile isPathChar)
  rw [writtenPath, parsePath_eq]
  cases hrest : (dropTabs s).dropWhile isPathChar with
  | nil =>
      -- nothing ends the path
      rw [hrest, List.append_nil] at hcut
      rw [hcut] at hraw hback ⊢
      obtain ⟨x, hx⟩ := List.getLast?_eq_some_iff.mp (getLast?_rawPath hhead' hlast')
      refine ⟨rawPath (dropTabs s), ?_, hback, Nat.le_trans hraw hkept, fun hlen c hc => ?_⟩
      · rw [finish, if_pos]
        rw [hx, encode_append, encode_cons_of_neg (by decide)]
        exact List.getLast?_concat
      · have hall : dropTabs s = s :=
          List.filter_eq_self.mpr (List.length_filter_eq_length_iff.mp (by
            rw [← dropTabs]
            omega))
        have htab := List.filter_eq_self.mp hall c hc
        rw [hall] at hcut
        have hpath := List.takeWhile_eq_self_iff.mp hcut c hc
        exact ⟨hpath, (Bool.not_eq_true' _).mp htab⟩
  | cons e rest =>
      -- what ends the path, and the slash at the end
      have hlen := congrArg List.length hcut
      rw [hrest, List.length_append, List.length_cons] at hlen
      have hpos : 0 < rest.length := by
        apply List.length_pos_of_ne_nil
        rintro rfl
        rw [← hcut, hrest, List.getLast?_concat] at hlast'
        have hnot := List.head?_dropWhile_not isPathChar (dropTabs s)
        rw [hrest] at hnot
        cases hlast'
        cases hnot
      rw [finish]
      split
      · exact ⟨_, rfl, hback, by omega, by omega⟩
      · refine ⟨rawPath ((dropTabs s).takeWhile isPathChar) ++ ['/'], ?_, ?_, ?_, ?_⟩
        · rw [encode_append]
          rfl
        · intro hmem
          rcases List.mem_append.mp hmem with hmem | hmem
          · exact hback hmem
          · cases List.mem_singleton.mp hmem
        · rw [List.length_append, List.length_singleton]
          omega
        · rw [List.length_append, List.length_singleton]
          omega

@[simp]
theorem percentDecode_nil :
  percentDecode [] = []
  := lossy_nil

/-- A path is decoded segment by segment. -/
theorem percentDecode_slash (x t : Text) :
  percentDecode (x ++ '/' :: t) = percentDecode x ++ '/' :: percentDecode t
  := lossy_decode_append rfl (by decide) x t

theorem percentDecode_cons (t : Text) :
  percentDecode ('/' :: t) = '/' :: percentDecode t
  := by
  have h := percentDecode_slash [] t
  rw [List.nil_append, percentDecode_nil, List.nil_append] at h
  exact h

theorem percentDecode_concat (x : Text) :
  percentDecode (x ++ ['/']) = percentDecode x ++ ['/']
  := by
  rw [percentDecode_slash, percentDecode_nil]

/-- A decoded path has slashes where the path has. -/
theorem percentDecode_ends (hhead : p.head? = some '/') (hlast : p.getLast? = some '/') :
  (percentDecode p).head? = some '/' ∧ (percentDecode p).getLast? = some '/'
  := by
  constructor
  · cases p with
    | nil => cases hhead
    | cons c t =>
        cases hhead
        rw [percentDecode_cons]
        rfl
  · obtain ⟨x, rfl⟩ := List.getLast?_eq_some_iff.mp hlast
    rw [percentDecode_concat, List.getLast?_concat]

/-- Which paths come back when they are decoded and written. -/
theorem writtenPath_iff (hp : IsPath p) (hlast : p.getLast? = some '/') :
  writtenPath (normalizeSharePath (percentDecode p)) = p ↔ IsWritten p
  := by
  obtain ⟨hhead', hlast'⟩ := percentDecode_ends hp.head hlast
  constructor
  · -- no step makes the path longer, so that none can make it shorter
    intro h
    obtain ⟨hshape, hle, hself⟩ := normalizeSharePath_spec hhead' hlast'
    obtain ⟨t, ht, hback, hle', hchars⟩ := exists_writtenPath hshape.ends.1 hshape.ends.2
    rw [h] at ht
    have hdecode : percentDecode p = percentDecode t := by
      rw [percentDecode, percentDecode, ht, decode_encode_path]
    obtain ⟨hle'', hplain⟩ := length_lossy_decode_le t
    rw [← percentDecode] at hle'' hplain
    rw [hdecode] at hle hself hle' hchars hshape
    have hplain := hplain (by omega)
    have hself := hself (by omega)
    have hchars := hchars (by omega)
    rw [hself, hplain.2] at hshape hchars
    refine ⟨t, ht.symm, hshape, hplain.1, fun c hc => ⟨(hchars c hc).1, (hchars c hc).2, ?_⟩⟩
    rintro rfl
    exact hback hc
  · rintro ⟨s, rfl, hshape, hplain, hchars⟩
    have hdecode : percentDecode (encode pathSet s) = s := by
      rw [percentDecode, decode_encode_path, decode_of_isPlain hplain, lossy_encode]
    have htabs : dropTabs s = s := by
      apply List.filter_eq_self.mpr
      intro c hc
      rw [(hchars c hc).2.1]
      rfl
    have htake : s.takeWhile isPathChar = s :=
      List.takeWhile_eq_self_iff.mpr (fun c hc => (hchars c hc).1)
    rw [hdecode, normalizeSharePath_of_isSharePath hshape, writtenPath, htabs, htake,
      parsePath_of_encode (fun hmem => (hchars _ hmem).2.2 rfl) hshape.ends.1 hp, finish,
      if_pos hlast]

/-- A slash is added to a path that was read. -/
theorem path_finish (hp : IsPath p) :
  IsPath (finish p) ∧ (finish p).getLast? = some '/' ∧
    parsePath [] (dropTabs (p ++ ['/'])) = p ++ ['/']
  := by
  have hslash : IsPath (p ++ ['/']) := by
    apply @IsPath.append [[]] p hp
    intro s hs
    rw [List.mem_singleton.mp hs]
    exact ⟨fun c hc => (List.not_mem_nil hc).elim, by decide, by decide⟩
  have htabs : dropTabs (p ++ ['/']) = p ++ ['/'] := by
    apply List.filter_eq_self.mpr
    intro c hc
    have hset := (hslash.not_set hc).1
    cases htab : isTabOrNewline c with
    | false => rfl
    | true =>
        rw [isTabOrNewline, Bool.or_eq_true, Bool.or_eq_true, beq_iff_eq, beq_iff_eq,
          beq_iff_eq] at htab
        rcases htab with (rfl | rfl) | rfl
        all_goals cases hset
  rw [htabs, parsePath_of_isPath hslash]
  refine ⟨?_, ?_, rfl⟩
  · rw [finish]
    split
    · exact hp
    · exact hslash
  · rw [finish]
    split
    · assumption
    · exact List.getLast?_concat

end

/-! ### URLs -/

section
variable {lib : Library} {url s t : Text} {u : Url} {scheme : Scheme} {host : UrlHost.Host}
  {port : Option UInt16}

/-- What the URL of a share is normalized to. -/
theorem of_normalizeUrl (h : normalizeUrl lib url = .ok u) :
  u.Read lib.idna ∧ u.path.getLast? = some '/' ∧ u.query = none ∧ u.fragment = none
  := by
  rw [normalizeUrl] at h
  dsimp only at h
  split at h
  · cases h
  · cases h
  · rename_i v hv
    obtain ⟨hhost, hport, hpath⟩ := read_of_parse hv
    have hfinish := path_finish hpath
    injection h with h
    subst h
    split
    · rename_i hlast
      exact ⟨⟨hhost, hport, hpath⟩, hlast, rfl, rfl⟩
    · rename_i hlast
      rw [finish, if_neg hlast] at hfinish
      refine ⟨⟨hhost, hport, ?_⟩, ?_, rfl, rfl⟩
      · rw [Url.setPath, hfinish.2.2]
        exact hfinish.1
      · rw [Url.setPath, hfinish.2.2]
        exact hfinish.2.1

theorem head?_text (scheme : Scheme) (t : Text) :
  (scheme.text ++ t).head? = some 'h'
  := by
  cases scheme <;> rfl

/-- A URL without credentials is normalized up to its path. -/
theorem normalizeUrl_written (h : UrlHost.parse lib.idna s = .ok host)
    (hport : port ≠ some scheme.defaultPort) (ht : t.head? = some '/')
    (hlast : t.getLast? = some '/') :
  normalizeUrl lib (scheme.text ++ "://".toList ++ host.text ++ portText port ++ t)
    = .ok ⟨scheme, [], [], host, port, writtenPath t, none, none⟩
  := by
  have htext : scheme.text ++ "://".toList ++ host.text ++ portText port ++ t
      = scheme.text ++ ':' :: '/' :: '/' :: (host.text ++ portText port ++ t) := by
    simp only [List.append_assoc]
    rfl
  have htrim : trimBy isWhitespace
      (scheme.text ++ "://".toList ++ host.text ++ portText port ++ t)
        = scheme.text ++ "://".toList ++ host.text ++ portText port ++ t := by
    have hne : t ≠ [] := by
      rintro rfl
      cases ht
    apply trimBy_eq_self (c := 'h') (d := '/')
    · rw [htext, head?_text]
    · rw [List.getLast?_append_of_ne_nil _ hne, hlast]
    · rfl
    · rfl
  have hcut : (cut "://".toList
      (scheme.text ++ "://".toList ++ host.text ++ portText port ++ t)).isSome = true := by
    have hapart : Apart "://".toList scheme.text := by
      apply apart_of_head
      cases scheme <;> decide
    rw [List.append_assoc, List.append_assoc, cut_append (by decide) hapart]
    rfl
  rw [normalizeUrl, htrim]
  dsimp only
  rw [if_pos hcut, htext, parse_written h hport ht hlast]
  dsimp only
  obtain ⟨query, fragment, heq⟩ :=
    withPath_eq ⟨scheme, [], [], host, port, [], none, none⟩ [] (dropTabs t)
  have hpath : IsPath (parsePath [] ((dropTabs t).takeWhile isPathChar)) :=
    isPath_parsePath (fun s hs => by cases hs) _
  rw [heq, writtenPath, finish]
  split
  · rfl
  · rw [Url.setPath, (path_finish hpath).2.2]

theorem not_isWhitespace {c : Char} (hlow : 0x20 < c.toNat) (hhigh : c.toNat < 0x80) :
  isWhitespace c = false
  := by
  simp only [isWhitespace, Bool.or_eq_false_iff, Bool.and_eq_false_iff, decide_eq_false_iff_not,
    List.contains_eq_mem, List.mem_cons, List.not_mem_nil, or_false]
  omega

/-- A host that was read as it is written in a URL, from the piece it is kept as. -/
theorem hostPiece_spec (h : UrlHost.parse lib.idna s = .ok host) :
  trimBy isWhitespace (hostPiece host) = hostPiece host ∧ hostPiece host ≠ [] ∧
    (if ':' ∈ hostPiece host ∧ (hostPiece host).head? ≠ some '[' then
      '[' :: (hostPiece host ++ [']']) else hostPiece host) = host.text
  := by
  have hascii : ∀ c : Char, c.toNat < 128 → isForbidden c = false → isWhitespace c = false := by
    intro c hc hforbidden
    rw [isForbidden, Bool.or_eq_false_iff, Bool.or_eq_false_iff,
      decide_eq_false_iff_not] at hforbidden
    exact not_isWhitespace (Nat.lt_of_not_le hforbidden.1.1) hc
  have hcolon : ∀ d : Text, (∀ c ∈ d, isForbidden c = false) →
      ¬ (':' ∈ d ∧ d.head? ≠ some '[') := by
    rintro d hd ⟨hmem, -⟩
    cases hd ':' hmem
  cases host with
  | domain d =>
      obtain ⟨hidna, hchars, hne, -⟩ := of_parse_domain h
      refine ⟨trimBy_eq_self_of_forall (fun c hc => ?_), hne, if_neg (hcolon d hchars)⟩
      exact hascii c (lib.idna.isAscii hidna c hc) (hchars c hc)
  | ipv4 i =>
      have hchars := fun c (hc : c ∈ i.display) => mem_display_ipv4 hc
      refine ⟨trimBy_eq_self_of_forall (fun c hc => ?_), IpAddr.display_ne_nil (.v4 i),
        if_neg (hcolon i.display (fun c hc => (hchars c hc).2.2))⟩
      exact hascii c (hchars c hc).1 (hchars c hc).2.2
  | ipv6 i =>
      have hchars : ∀ c ∈ i.display, IpAddr.isAddrChar c = true :=
        fun c hc => IpAddr.mem_display (i := .v6 i) hc
      refine ⟨trimBy_eq_self_of_forall (fun c hc => ?_), IpAddr.display_ne_nil (.v6 i), if_pos ?_⟩
      · have haddr := hchars c hc
        rw [IpAddr.isAddrChar, Bool.or_eq_true, Bool.or_eq_true, beq_iff_eq, beq_iff_eq] at haddr
        rcases haddr with (rfl | rfl) | hhex
        · rfl
        · rfl
        · have hbound := Digits.toNat_of_isSome_toDigit hhex
          exact not_isWhitespace (by omega) (by omega)
      · refine ⟨IpAddr.colon_mem_display i, fun hhead => ?_⟩
        cases hchars '[' (List.mem_of_head? hhead)

/-- The URL that is made of the pieces of one. -/
theorem shareUrl_text (h : UrlHost.parse lib.idna s = .ok host)
    (hport : port ≠ some scheme.defaultPort) (path : Text) :
  shareUrl lib (hostPiece host) ⟨[], port, path, decide (scheme = .http)⟩
    = normalizeUrl lib (scheme.text ++ "://".toList ++ host.text ++ portText port
        ++ normalizeSharePath path)
  := by
  obtain ⟨htrim, hne, hhost⟩ := hostPiece_spec h
  have hport' : port.filter (fun p => decide
      (p ≠ if decide (scheme = .http) = true then 80 else 443)) = port := by
    cases port with
    | none => rfl
    | some p =>
        apply Option.filter_some_pos
        apply decide_eq_true
        rintro rfl
        apply hport
        cases scheme <;> rfl
  have hscheme : (if decide (scheme = .http) = true then "http".toList else "https".toList)
      = scheme.text := by
    cases scheme <;> rfl
  have hurl : trimBy isWhitespace [] = [] := rfl
  rw [shareUrl]
  dsimp only
  rw [hurl, if_neg (fun hnil => hnil rfl), htrim, if_neg hne, hhost, hport', hscheme]

/-- A URL of a share comes back just when its path does. -/
theorem url_splitShareUrl (h : normalizeUrl lib url = .ok u) (huser : u.username = [])
    (hpassword : u.password = []) :
  (splitShareUrl lib url >>= fun p => p.url lib) = .ok u ↔ IsWritten u.path
  := by
  obtain ⟨⟨⟨s, hhost⟩, hport, hpath⟩, hlast, hquery, hfragment⟩ := of_normalizeUrl h
  obtain ⟨hhead', hlast'⟩ := percentDecode_ends hpath.head hlast
  have hshape := (normalizeSharePath_spec hhead' hlast').1
  have hsplit : (splitShareUrl lib url >>= fun p => p.url lib)
      = .ok ⟨u.scheme, [], [], u.host, u.port,
          writtenPath (normalizeSharePath (percentDecode u.path)), none, none⟩ := by
    have hpieces : splitShareUrl lib url = .ok ⟨hostPiece u.host, u.port,
        decide (u.scheme = .http), normalizeSharePath (percentDecode u.path)⟩ := by
      rw [splitShareUrl, h]
      rfl
    rw [hpieces]
    change SharePieces.url lib _ = _
    rw [SharePieces.url, shareUrl_text hhost hport,
      normalizeSharePath_of_isSharePath hshape,
      normalizeUrl_written hhost hport hshape.ends.1 hshape.ends.2]
  rw [hsplit, ← writtenPath_iff hpath hlast]
  constructor
  · intro heq
    have hsame := congrArg Url.path (Except.ok.inj heq)
    dsimp only at hsame
    exact hsame
  · intro heq
    have hu : ⟨u.scheme, [], [], u.host, u.port, u.path, none, none⟩ = u := by
      cases u
      dsimp only at huser hpassword hquery hfragment
      rw [huser, hpassword, hquery, hfragment]
    rw [heq, hu]

end

end Termoso.Core.ShareUrl
