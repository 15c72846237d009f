import Termoso.Core.ProxyRequests

/-!
# What a proxy answers

After a positive reply the connection is open, and what follows the reply is left for the tunnel.
With what is known of the requests this says when a connection through a proxy is exactly the one
that was asked for.
-/

namespace Termoso.Core.Proxy

open Duplex IpAddr Utf8
open Http (CRLF chars)

/-! ### Heads -/

section
variable {buf h t : Bytes}

/-- A head up to the limit is read, and nothing after it. -/
theorem readHead_append (hend : CRLF ++ CRLF <:+ buf ++ h)
    (hfirst : ∀ h₁ h₂, h = h₁ ++ h₂ → h₂ ≠ [] → ¬ CRLF ++ CRLF <:+ buf ++ h₁)
    (hlen : (buf ++ h).length ≤ 16 * 1024 + 1) :
  readHead buf (h ++ t) = ⟨.ok (buf ++ h), [], t⟩
  := by
  induction h generalizing buf with
  | nil =>
      rw [List.append_nil] at hend ⊢
      unfold readHead
      rw [if_pos (List.isSuffixOf_iff_suffix.mpr hend), List.nil_append]
  | cons b h ih =>
      have hnot := hfirst [] (b :: h) rfl (List.cons_ne_nil _ _)
      rw [List.append_nil] at hnot
      have hshort : ¬ buf.length > 16 * 1024 := by
        rw [List.length_append, List.length_cons] at hlen
        omega
      have hcons : buf ++ b :: h = buf ++ [b] ++ h := by simp
      rw [hcons] at hend hlen
      rw [List.cons_append, readHead,
        if_neg (fun hsuffix => hnot (List.isSuffixOf_iff_suffix.mp hsuffix)), if_neg hshort, hcons]
      apply ih hend _ hlen
      intro h₁ h₂ heq hne
      have hlater := hfirst (b :: h₁) h₂ (congrArg (b :: ·) heq) hne
      rwa [List.append_cons] at hlater

/-- A head that is longer is refused. -/
theorem readHead_long (hne : h ≠ [])
    (hfirst : ∀ h₁ h₂, h = h₁ ++ h₂ → h₂ ≠ [] → ¬ CRLF ++ CRLF <:+ buf ++ h₁)
    (hlen : 16 * 1024 + 1 < (buf ++ h).length) :
  ∃ e, (readHead buf (h ++ t)).result = .error e
  := by
  induction h generalizing buf with
  | nil => exact absurd rfl hne
  | cons b h ih =>
      have hnot := hfirst [] (b :: h) rfl (List.cons_ne_nil _ _)
      rw [List.append_nil] at hnot
      rw [List.cons_append, readHead,
        if_neg (fun hsuffix => hnot (List.isSuffixOf_iff_suffix.mp hsuffix))]
      by_cases hlong : buf.length > 16 * 1024
      · rw [if_pos hlong]
        exact ⟨_, rfl⟩
      · rw [if_neg hlong]
        have hcons : buf ++ b :: h = buf ++ [b] ++ h := by simp
        rw [hcons] at hlen
        apply ih _ _ hlen
        · rintro rfl
          rw [List.append_nil, List.length_append, List.length_singleton] at hlen
          omega
        · intro h₁ h₂ heq hne'
          have hlater := hfirst (b :: h₁) h₂ (congrArg (b :: ·) heq) hne'
          rwa [List.append_cons] at hlater

end

theorem silent_readHead (buf : Bytes) :
  Silent (readHead buf)
  := by
  intro s
  induction s generalizing buf with
  | nil =>
      rw [readHead]
      split
      · rfl
      · split <;> rfl
  | cons b s ih =>
      rw [readHead]
      split
      · rfl
      · split
        · rfl
        · exact ih (buf ++ [b])

theorem sent_httpConnect (proxy : ProxyConfig) (host : Bytes) (port : UInt16) (s : Bytes) :
  (httpConnect proxy host port s).sent = httpRequest proxy host port
  := by
  rw [httpConnect, send_andThen]
  suffices hsilent : Silent _ from
    (congrArg (httpRequest proxy host port ++ ·) (hsilent s)).trans (List.append_nil _)
  apply silent_andThen (silent_readHead [])
  intro head
  split
  · exact silent_fail _
  · split
    · exact silent_ret _
    · exact silent_fail _

/-- In a positive reply the empty line is its end. -/
theorem not_suffix_of_isPositive {reply : Bytes} (h : Http.IsPositive reply) :
  ∀ h₁ h₂, reply = h₁ ++ h₂ → h₂ ≠ [] → ¬ CRLF ++ CRLF <:+ [] ++ h₁
  := by
  rintro h₁ h₂ heq hne ⟨q, hq⟩
  apply hne
  apply h.eq_nil (q := q)
  rw [heq, ← List.nil_append h₁, ← hq]
  simp only [List.append_assoc]

theorem suffix_of_isPositive {reply : Bytes} (h : Http.IsPositive reply) :
  CRLF ++ CRLF <:+ [] ++ reply
  := by
  obtain ⟨major, minor, b, c, reason, lines, _, _, _, rfl⟩ := h
  exact Http.suffix_head _ lines

/-! ### Statuses -/

/-- What stands at the start of a text up to a blank is in its first line. -/
theorem firstLine_append {p : List Char} (hp : '\n' ∉ p) (w : List Char) :
  ∃ w', firstLine (p ++ ' ' :: w) = p ++ ' ' :: w'
  := by
  have hall : ∀ c ∈ p ++ [' '], (c != '\n') = true := by
    intro c hc
    rw [bne_iff_ne]
    rintro rfl
    rcases List.mem_append.mp hc with hc | hc
    · exact hp hc
    · exact absurd hc (by decide)
  have hline : (p ++ ' ' :: w).takeWhile (· != '\n')
      = p ++ ' ' :: w.takeWhile (· != '\n') := by
    rw [List.append_cons, List.takeWhile_append_of_pos hall, ← List.append_cons]
  rw [firstLine, hline]
  split
  · rename_i hcr
    cases hw : w.takeWhile (· != '\n') with
    | nil =>
        rw [hw, List.getLast?_append_of_ne_nil _ (List.cons_ne_nil _ _)] at hcr
        cases hcr.2
    | cons c w' =>
        refine ⟨(c :: w').dropLast, ?_⟩
        rw [List.dropLast_append_of_ne_nil (List.cons_ne_nil _ _)]
        rfl
  · exact ⟨_, rfl⟩

theorem splitWhitespace_second {x y w : List Char} (hx : ∀ c ∈ x, isWhitespace c = false)
    (hy : ∀ c ∈ y, isWhitespace c = false) (hxne : x ≠ []) (hyne : y ≠ []) :
  (splitWhitespace (x ++ ' ' :: (y ++ ' ' :: w)))[1]? = some y
  := by
  rw [splitWhitespace, List.splitOnP_append_cons_of_forall_mem hx ' ' rfl,
    List.splitOnP_append_cons_of_forall_mem hy ' ' rfl,
    List.filter_cons_of_pos (by simpa using hxne), List.filter_cons_of_pos (by simpa using hyne)]
  rfl

theorem parse_status :
  ∀ b c : UInt8, Http.isDigit b = true → Http.isDigit c = true →
    ∃ n, Digits.parseUnsigned 65535 ['2', Char.ofNat b.toNat, Char.ofNat c.toNat] = some n
      ∧ 200 ≤ n ∧ n < 300
  := by
  have hdigit : ∀ b : UInt8, Http.isDigit b = true → ∃ i : Fin 10, b = .ofNat (48 + i.val) :=
    Http.forall_byte (by decide +kernel)
  have hall : ∀ i j : Fin 10, Digits.parseUnsigned 65535
      ['2', Char.ofNat (UInt8.ofNat (48 + i.val)).toNat,
        Char.ofNat (UInt8.ofNat (48 + j.val)).toNat]
      = some (200 + 10 * i.val + j.val) := by
    decide
  intro b c hb hc
  obtain ⟨i, rfl⟩ := hdigit b hb
  obtain ⟨j, rfl⟩ := hdigit c hc
  exact ⟨_, hall i j, by omega, by omega⟩

/-- The status of a positive reply is one. -/
theorem readStatus_of_isPositive {reply : Bytes} (h : Http.IsPositive reply) :
  ∃ n, readStatus reply = some n ∧ 200 ≤ n ∧ n < 300
  := by
  obtain ⟨major, minor, b, c, reason, lines, hdigits, _, _, rfl⟩ := h
  have hdigit := List.all_eq_true.mp hdigits
  have hmajor := hdigit major (by simp)
  have hminor := hdigit minor (by simp)
  have hb := hdigit b (by simp)
  have hc := hdigit c (by simp)
  have hclass : ∀ x : UInt8, Http.isDigit x = true → x < 0x80
      ∧ isWhitespace (Char.ofNat x.toNat) = false ∧ '\n' ≠ Char.ofNat x.toNat :=
    Http.forall_byte (by decide +kernel)
  obtain ⟨n, hparse, hrange⟩ := parse_status b c hb hc
  refine ⟨n, ?_, hrange⟩
  generalize hrest : reason ++ (CRLF ++ (lines.flatMap (· ++ CRLF) ++ CRLF)) = rest
  have hreply : Http.head (Http.statusLine major minor 50 b c reason) lines
      = [72, 84, 84, 80, 47, major, 46, minor, 32, 50, b, c, 32] ++ rest := by
    rw [Http.head, Http.statusLine, List.append_assoc, hrest]
  have hascii : ∀ x ∈ [72, 84, 84, 80, 47, major, 46, minor, 32, 50, b, c, 32],
      x < (0x80 : UInt8) := by
    simp only [List.forall_mem_cons]
    refine ⟨by decide, by decide, by decide, by decide, by decide, (hclass major hmajor).1,
      by decide, (hclass minor hminor).1, by decide, by decide, (hclass b hb).1, (hclass c hc).1,
      by decide, fun x hx => absurd hx List.not_mem_nil⟩
  let version := ['H', 'T', 'T', 'P', '/', Char.ofNat major.toNat, '.', Char.ofNat minor.toNat]
  let code := ['2', Char.ofNat b.toNat, Char.ofNat c.toNat]
  have htext : lossy ([72, 84, 84, 80, 47, major, 46, minor, 32, 50, b, c, 32] ++ rest)
      = (version ++ ' ' :: code) ++ ' ' :: lossy rest := by
    rw [lossy_append_of_ascii hascii]
    rfl
  have hversion : ∀ x ∈ version, isWhitespace x = false := by
    simp only [version, List.forall_mem_cons]
    exact ⟨rfl, rfl, rfl, rfl, rfl, (hclass major hmajor).2.1, rfl, (hclass minor hminor).2.1,
      fun x hx => absurd hx List.not_mem_nil⟩
  have hcode : ∀ x ∈ code, isWhitespace x = false := by
    simp only [code, List.forall_mem_cons]
    exact ⟨rfl, (hclass b hb).2.1, (hclass c hc).2.1, fun x hx => absurd hx List.not_mem_nil⟩
  have hline : '\n' ∉ version ++ ' ' :: code := by
    intro hmem
    rcases List.mem_append.mp hmem with hmem | hmem
    · exact absurd (hversion _ hmem) (by decide)
    rcases List.mem_cons.mp hmem with hmem | hmem
    · cases hmem
    · exact absurd (hcode _ hmem) (by decide)
  obtain ⟨w, hw⟩ := firstLine_append hline (lossy rest)
  have hwords := splitWhitespace_second (w := w) hversion hcode (List.cons_ne_nil _ _)
    (List.cons_ne_nil _ _)
  have hsplit : version ++ ' ' :: code ++ ' ' :: w = version ++ ' ' :: (code ++ ' ' :: w) :=
    List.append_assoc version (' ' :: code) (' ' :: w)
  rw [readStatus, hreply, htext, hw, hsplit, hwords, Option.bind_some]
  exact hparse

/-- After a positive reply within the limit the tunnel begins right behind it. -/
theorem tunnel_http_iff (proxy : ProxyConfig) (host : Bytes) (port : UInt16) {reply : Bytes}
    (h : Http.IsPositive reply) (t : Bytes) :
  (httpConnect proxy host port (reply ++ t)).result = .ok ⟨⟩
      ∧ (httpConnect proxy host port (reply ++ t)).unread = t
    ↔ reply.length ≤ 16 * 1024 + 1
  := by
  rw [httpConnect, send_andThen]
  by_cases hlen : reply.length ≤ 16 * 1024 + 1
  · have hread := readHead_append (t := t) (suffix_of_isPositive h)
      (not_suffix_of_isPositive h) hlen
    obtain ⟨n, hstatus, hrange⟩ := readStatus_of_isPositive h
    rw [andThen_eq (m := readHead []) hread, List.nil_append, hstatus]
    dsimp only
    rw [if_pos hrange]
    exact iff_of_true ⟨rfl, rfl⟩ hlen
  · have hne : reply ≠ [] := by
      rintro rfl
      exact hlen (Nat.zero_le _)
    obtain ⟨e, he⟩ := readHead_long (t := t) hne (not_suffix_of_isPositive h)
      (Nat.lt_of_not_ge hlen)
    rw [andThen_error (m := readHead []) he]
    exact iff_of_false (fun h => nomatch h.1) hlen

/-! ### SOCKS4 -/

theorem tunnel_socks4_iff (proxy : ProxyConfig) (host : Bytes) (port : UInt16) {rest : Bytes}
    (hrest : rest.length = 6) (t : Bytes) :
  (socks4Connect proxy host port (0 :: 0x5a :: rest ++ t)).result = .ok ⟨⟩
      ∧ (socks4Connect proxy host port (0 :: 0x5a :: rest ++ t)).unread = t
    ↔ 0 ∉ proxy.user ∧ (parseIpv4Addr host = none → 0 ∉ host)
  := by
  rw [socks4Connect, ← ProxyConfig.user]
  by_cases huser : 0 ∈ proxy.user
  · rw [if_pos huser]
    apply iff_of_false
    · rintro ⟨hok, -⟩
      cases hok
    · exact fun h => h.1 huser
  by_cases hhost : parseIpv4Addr host = none ∧ 0 ∈ host
  · rw [if_neg huser, if_pos hhost]
    apply iff_of_false
    · rintro ⟨hok, -⟩
      cases hok
    · exact fun h => h.2 hhost.1 hhost.2
  · rw [if_neg huser, if_neg hhost, send_andThen]
    have hread : (readExact .io 8 : Talk Bytes) (0 :: 0x5a :: rest ++ t)
        = ⟨.ok (0 :: 0x5a :: rest), [], t⟩ := by
      have hlen : (0 :: 0x5a :: rest : Bytes).length = 8 := by
        rw [List.length_cons, List.length_cons, hrest]
      rw [← hlen]
      exact readExact_append ProxyError.io _ t
    rw [socks4Reply, andThen_eq hread]
    exact iff_of_true ⟨rfl, rfl⟩ ⟨huser, fun hnone hmem => hhost ⟨hnone, hmem⟩⟩

/-! ### SOCKS5 -/

/-- A reply is read to the end of the address that was bound. -/
theorem socks5Reply_append {bound : Bytes} (h : IsBound bound) (t : Bytes) :
  socks5Reply (5 :: 0 :: 0 :: bound ++ t) = ⟨.ok ⟨⟩, [], t⟩
  := by
  obtain ⟨address, port, hport, rfl, h⟩ := h
  have hread : ∀ k rest, (readExact .io 4 : Talk Bytes) (5 :: 0 :: 0 :: k :: rest)
      = ⟨.ok [5, 0, 0, k], [], rest⟩ :=
    fun k rest => readExact_append ProxyError.io [5, 0, 0, k] rest
  have hskip : ∀ a : Bytes, (readExact .io (a.length + 2) : Talk Bytes) (a ++ port ++ t)
      = ⟨.ok (a ++ port), [], t⟩ := by
    intro a
    rw [← hport, ← List.length_append]
    exact readExact_append ProxyError.io _ t
  rw [socks5Reply]
  obtain ⟨a, hlen, rfl⟩ | ⟨a, hlen, rfl⟩ | ⟨n, a, hlen, rfl⟩ := h
  · have ha := hskip a
    rw [hlen] at ha
    exact (andThen_eq (hread 1 _)).trans ((andThen_eq (m := socks5AddrLen 1) rfl).trans
      (andThen_eq ha))
  · have ha := hskip a
    rw [hlen] at ha
    exact (andThen_eq (hread 4 _)).trans ((andThen_eq (m := socks5AddrLen 4) rfl).trans
      (andThen_eq ha))
  · have ha := hskip a
    rw [hlen] at ha
    have hkind : socks5AddrLen 3 (n :: a ++ port ++ t) = ⟨.ok n.toNat, [], a ++ port ++ t⟩ :=
      andThen_eq (readExact_append ProxyError.io [n] (a ++ port ++ t))
    exact (andThen_eq (hread 3 _)).trans ((andThen_eq hkind).trans (andThen_eq ha))

/-- Credentials that are short are given, and what follows the answer is left. -/
theorem socks5Login_append (proxy : ProxyConfig) (h : proxy.Short) (s : Bytes) :
  socks5Login proxy (1 :: 0 :: s) = ⟨.ok ⟨⟩, socks5Credentials proxy.user proxy.pw, s⟩
  := by
  have hlong : ¬ (proxy.user.length > 255 ∨ proxy.pw.length > 255) := by
    rw [not_or]
    exact ⟨Nat.not_lt.mpr h.1, Nat.not_lt.mpr h.2⟩
  have hread : (readExact .io 2 : Talk Bytes) (1 :: 0 :: s) = ⟨.ok [1, 0], [], s⟩ :=
    readExact_append ProxyError.io [1, 0] s
  rw [socks5Login, ← ProxyConfig.user, ← ProxyConfig.pw, if_neg hlong, send_andThen,
    andThen_eq hread]
  exact congrArg (fun sent => (⟨.ok ⟨⟩, sent, s⟩ : Outcome UInt8 ProxyError PUnit))
    (List.append_nil _)

/-- A request is sent unless the host is a name that is too long. -/
theorem socks5Address_eq_none {host : Bytes} :
  socks5Address host = none ↔ parseIpAddr host = none ∧ 255 < host.length
  := by
  rw [socks5Address]
  split
  · rename_i hhost
    simp [hhost]
  · rename_i hhost
    simp [hhost]
  · rename_i hhost
    simp [hhost]

/-- What is left after the request and a positive reply to it. -/
theorem socks5Request_append (host : Bytes) (port : UInt16) {bound : Bytes} (h : IsBound bound)
    (t : Bytes) :
  (socks5Request host port (5 :: 0 :: 0 :: bound ++ t)).result = .ok ⟨⟩
      ∧ (socks5Request host port (5 :: 0 :: 0 :: bound ++ t)).unread = t
    ↔ (parseIpAddr host = none → host.length ≤ 255)
  := by
  rw [socks5Request]
  cases haddress : socks5Address host with
  | none =>
      obtain ⟨hhost, hlen⟩ := socks5Address_eq_none.mp haddress
      apply iff_of_false
      · rintro ⟨hok, -⟩
        cases hok
      · exact fun h => Nat.not_le.mpr hlen (h hhost)
  | some address =>
      dsimp only
      rw [send_andThen, socks5Reply_append h]
      refine iff_of_true ⟨rfl, rfl⟩ (fun hhost => Nat.not_lt.mp (fun hlen => ?_))
      rw [socks5Address_eq_none.mpr ⟨hhost, hlen⟩] at haddress
      cases haddress

theorem tunnel_socks5_iff (proxy : ProxyConfig) (host : Bytes) (port : UInt16)
    {method : UInt8} {auth bound : Bytes}
    (hauth : method = 0 ∧ auth = [] ∨ method = 2 ∧ proxy.username.isSome = true ∧ auth = [1, 0])
    (hbound : IsBound bound) (t : Bytes) :
  (socks5Connect proxy host port (5 :: method :: (auth ++ 5 :: 0 :: 0 :: bound) ++ t)).result
        = .ok ⟨⟩
      ∧ (socks5Connect proxy host port (5 :: method :: (auth ++ 5 :: 0 :: 0 :: bound) ++ t)).unread
        = t
    ↔ (parseIpAddr host = none → host.length ≤ 255)
      ∧ (Chosen (5 :: method :: (auth ++ 5 :: 0 :: 0 :: bound)) → proxy.Short)
  := by
  have hread : (readExact .io 2 : Talk Bytes) (5 :: method :: (auth ++ 5 :: 0 :: 0 :: bound) ++ t)
      = ⟨.ok [5, method], [], auth ++ (5 :: 0 :: 0 :: bound ++ t)⟩ := by
    have h := readExact_append (ω := UInt8) ProxyError.io [5, method]
      (auth ++ (5 :: 0 :: 0 :: bound ++ t))
    simpa using h
  have hchosen : Chosen (5 :: method :: (auth ++ 5 :: 0 :: 0 :: bound)) ↔ method = 2 := by
    rw [Chosen]
    simp
  have hrequest := socks5Request_append host port hbound t
  rw [socks5Connect, send_andThen, andThen_eq hread, hchosen]
  change ((socks5Authenticate proxy method >>= fun _ => socks5Request host port) _).result = _
    ∧ ((socks5Authenticate proxy method >>= fun _ => socks5Request host port) _).unread = _ ↔ _
  obtain ⟨rfl, rfl⟩ | ⟨rfl, _, rfl⟩ := hauth
  · rw [andThen_eq (m := socks5Authenticate proxy 0) rfl, List.nil_append, hrequest]
    exact ⟨fun h => ⟨h, fun h => absurd h (by decide)⟩, fun h => h.1⟩
  · by_cases hshort : proxy.Short
    · have hlogin : socks5Authenticate proxy 2 (1 :: 0 :: (5 :: 0 :: 0 :: bound ++ t))
          = ⟨.ok ⟨⟩, socks5Credentials proxy.user proxy.pw, 5 :: 0 :: 0 :: bound ++ t⟩ :=
        socks5Login_append proxy hshort _
      rw [List.cons_append, List.cons_append, List.nil_append,
        andThen_ok (a := ⟨⟩) (by rw [hlogin]), hlogin]
      dsimp only
      rw [hrequest]
      exact ⟨fun h => ⟨h, fun _ => hshort⟩, fun h => h.1⟩
    · refine iff_of_false ?_ (fun h => hshort (h.2 rfl))
      rintro ⟨hok, _⟩
      obtain ⟨u, hlogin, _⟩ := andThen_eq_ok hok
      exact hshort ((socks5Login_spec proxy _).2 hlogin)

/-! ### The three of them -/

/-- What is sent says exactly what was asked for when the protocol can say it; and after a positive
reply the tunnel begins right behind it when the reply is not too long, or the request was sent. -/
theorem connect_iff (proxy : ProxyConfig) (host : Bytes) (port : UInt16) :
  (∀ stream, Says proxy host port stream (connect proxy host port stream).sent
      ↔ Sayable proxy host stream)
    ∧ ∀ reply t, Positive proxy reply →
      ((connect proxy host port (reply ++ t)).result = .ok ⟨⟩
          ∧ (connect proxy host port (reply ++ t)).unread = t
        ↔ Fits proxy host reply)
  := by
  unfold Says Sayable Positive Fits connect
  cases proxy.kind with
  | http =>
      refine ⟨fun stream => ?_, fun reply t h => tunnel_http_iff proxy host port h t⟩
      dsimp only
      rw [sent_httpConnect]
      exact says_http_iff
  | socks4 =>
      refine ⟨says_socks4_iff proxy host port, ?_⟩
      rintro reply t ⟨rest, hrest, rfl⟩
      exact tunnel_socks4_iff proxy host port hrest t
  | socks5 =>
      refine ⟨says_socks5_iff proxy host port, ?_⟩
      rintro reply t ⟨method, auth, bound, rfl, hauth, hbound⟩
      exact tunnel_socks5_iff proxy host port hauth hbound t

/-- An address that tells a SOCKS4 proxy that a name follows is asked for as it is. -/
theorem not_says :
  ¬ Says ⟨.socks4, none, none⟩ (ascii "0.0.0.1") 22 []
    (connect ⟨.socks4, none, none⟩ (ascii "0.0.0.1") 22 []).sent
  := by
  have hsent : (connect ⟨.socks4, none, none⟩ (ascii "0.0.0.1") 22 []).sent
      = [4, 1, 0, 22, 0, 0, 0, 1, 0] := by
    rfl
  rw [hsent]
  intro h
  obtain ⟨r, hr, _⟩ := h (List.cons_ne_nil _ _)
  cases hr

end Termoso.Core.Proxy
