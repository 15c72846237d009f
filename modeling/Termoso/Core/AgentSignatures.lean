import Termoso.Core.AgentServer
import Termoso.Lib.Trace

/-!
# What the SSH agent signs

A signature is to be over the data of its request, by a key that is offered when it is made, and
that the policy let through for this request; and once the server is dropped nothing is signed
and no key is listed.  This holds in runs in which the policy lets a request through only for a
key still offered, in which keys are not replaced and the server not dropped between that answer
and the signature, and in which nobody asks for the keys after the server was dropped.
-/

namespace Termoso.Core

section
variable {K : Type}

/-! ### What is to hold -/

/-- The keys offered after some events. -/
def offered (tr : List (AgentEvent K)) : List (ServedKey K) :=
  tr.foldl (fun keys e =>
    match e with
    | .keysSet keys' => keys'
    | _ => keys) []

variable [PrivateKeys K]

/-- A reply lists the keys offered, when asked for, and no key once the server was dropped. -/
structure Lists (before : List (AgentEvent K)) (msg reply : Bytes) : Prop where
  asked : msg.head? = some REQUEST_IDENTITIES
  keys : identities (offered before) = .ok reply
  running : AgentEvent.dropped ∈ before → offered before = []

/-- A reply is a signature of what a message asks for, by a key that is offered and was let through,
on a server that was not dropped. -/
structure Signs (before : List (AgentEvent K)) (n : ℕ) (msg reply : Bytes) (key : ServedKey K)
    (r : SignRequest) : Prop where
  asked : ∃ body, msg = SIGN_REQUEST :: body ∧ readSignRequest body = .ok r
  blob : key.hasBlob r.blob = true
  offered : key ∈ offered before
  allowed : ∃ peer, AgentEvent.answered n key peer true ∈ before
  signed : signature key r = .ok reply
  running : AgentEvent.dropped ∉ before

/-- An event is in order: a message has a number of its own, and a reply is a failure, lists the
keys or signs, as the message with its number asks. -/
def InOrder (before : List (AgentEvent K)) : AgentEvent K → Prop
  | .received n _ _ => ∀ i msg, AgentEvent.received n i msg ∉ before
  | .replied n reply => ∃ i msg, AgentEvent.received n i msg ∈ before
      ∧ (reply = [FAILURE] ∨ Lists before msg reply ∨ ∃ key r, Signs before n msg reply key r)
  | _ => True

/-- Everything that happened was in order, and the keys are those that were set. -/
structure Faithful (s : Agent K) : Prop where
  trace : Trace.Proper InOrder s.trace
  keys : s.keys = offered s.trace

/-! ### The condition -/

/-- A pool of connections. -/
abbrev AgentPool (K : Type) := Pool (Agent K) (Connection K)

abbrev AgentStep (K : Type) := PoolStep ConnectionEvent (ServerEvent K)

variable [DecidableEq K]

/-- Whether a task would sign with a key that is not in a list. -/
def Connection.signsOutside (keys : List (ServedKey K)) : Connection K → Bool
  | .signing _ _ key _ => decide (key ∉ keys)
  | _ => false

/-- Whether a task is about to sign, or to list the keys. -/
def Connection.isAnswering : Connection K → Bool
  | .signing _ _ _ _ => true
  | .handling _ _ msg => decide (msg.head? = some REQUEST_IDENTITIES)
  | _ => false

/-- A step that does not come in the way of a signature: the policy lets a request through only for
a key still offered by a server not dropped, keys are not replaced and the server is not dropped
between that and the signature, and nobody asks for the keys once the server was dropped. -/
def unhurried (p : AgentPool K) : AgentStep K → Bool
  | .run i (.answered true) =>
    match p.threads i with
    | .asking _ _ key _ => p.shared.running && decide (key ∈ p.shared.keys)
    | _ => true
  | .run _ (.body msg) =>
    p.shared.running || p.shared.keys.isEmpty || decide (msg.head? ≠ some REQUEST_IDENTITIES)
  | .env (.setKeys keys) =>
    (List.range p.shared.connections).all (fun i => !(p.threads i).signsOutside keys)
  | .env .drop =>
    (List.range p.shared.connections).all (fun i => !(p.threads i).isAnswering)
  | _ => true

end

/-! ### The invariant -/

section
variable {K : Type} [PrivateKeys K]

/-- What is known of the server. -/
structure Agent.Sound (s : Agent K) : Prop where
  faithful : Faithful s
  numbers : ∀ n i msg, AgentEvent.received n i msg ∈ s.trace → n < s.requests
  running : s.running = true → AgentEvent.dropped ∉ s.trace

/-- A task knows a message that it received, and that it asks for a signature by a key. -/
def Asks (i : ℕ) (s : Agent K) (n : ℕ) (key : ServedKey K) (r : SignRequest) : Prop :=
  (∃ body, AgentEvent.received n i (SIGN_REQUEST :: body) ∈ s.trace
    ∧ readSignRequest body = .ok r) ∧ key.hasBlob r.blob = true

/-- What the task of a connection relies on. -/
def Connection.Relies (i : ℕ) (s : Agent K) : Connection K → Prop
  | .closed => True
  | .header _ => i < s.connections
  | .body _ _ => i < s.connections
  | .handling _ n msg => i < s.connections ∧ AgentEvent.received n i msg ∈ s.trace
      ∧ (msg.head? = some REQUEST_IDENTITIES → s.running = true ∨ s.keys = [])
  | .asking _ n key r => i < s.connections ∧ Asks i s n key r
  | .signing _ n key r => i < s.connections ∧ Asks i s n key r
      ∧ (∃ peer, AgentEvent.answered n key peer true ∈ s.trace)
      ∧ s.running = true ∧ key ∈ s.keys
  | .writing _ _ => i < s.connections

variable {i : ℕ} {s s' : Agent K} {t : Connection K}

/-- What a task knows of what happened stays so. -/
theorem Asks.mono {n : ℕ} {key : ServedKey K} {r : SignRequest} (htrace : s.trace ⊆ s'.trace)
    (h : Asks i s n key r) :
  Asks i s' n key r
  := by
  obtain ⟨⟨body, hreceived, hread⟩, hblob⟩ := h
  exact ⟨⟨body, htrace hreceived, hread⟩, hblob⟩

/-- What a task relies on stays so, while its key is offered and the server runs if it has to. -/
theorem Connection.Relies.mono (hconnections : s.connections ≤ s'.connections)
    (htrace : s.trace ⊆ s'.trace)
    (hlists : ∀ peer n msg, t = .handling peer n msg → msg.head? = some REQUEST_IDENTITIES →
      (s.running = true ∨ s.keys = []) → s'.running = true ∨ s'.keys = [])
    (hsigns : ∀ peer n key r, t = .signing peer n key r →
      (s.running = true ∧ key ∈ s.keys) → s'.running = true ∧ key ∈ s'.keys)
    (h : t.Relies i s) :
  t.Relies i s'
  := by
  cases t with
  | closed => trivial
  | header peer => exact Nat.lt_of_lt_of_le h hconnections
  | body peer len => exact Nat.lt_of_lt_of_le h hconnections
  | handling peer n msg =>
      obtain ⟨hi, hreceived, hrunning⟩ := h
      refine ⟨Nat.lt_of_lt_of_le hi hconnections, htrace hreceived, fun hmsg => ?_⟩
      exact hlists peer n msg rfl hmsg (hrunning hmsg)
  | asking peer n key r => exact ⟨Nat.lt_of_lt_of_le h.1 hconnections, h.2.mono htrace⟩
  | signing peer n key r =>
      obtain ⟨hi, hasks, ⟨peer', hallowed⟩, hsigning⟩ := h
      exact ⟨Nat.lt_of_lt_of_le hi hconnections, hasks.mono htrace, ⟨peer', htrace hallowed⟩,
        hsigns peer n key r rfl hsigning⟩
  | writing peer reply => exact Nat.lt_of_lt_of_le h hconnections

/-- A step of a task leaves to the others what they rely on. -/
structure Leaves (s s' : Agent K) : Prop where
  keys : s'.keys = s.keys
  running : s'.running = s.running
  connections : s.connections ≤ s'.connections
  trace : s.trace ⊆ s'.trace

theorem Leaves.relies (h : Leaves s s') (ht : t.Relies i s) :
  t.Relies i s'
  := by
  apply ht.mono h.connections h.trace
  · intro _ _ _ _ _ hrunning
    rw [h.running, h.keys]
    exact hrunning
  · intro _ _ _ _ _ hsigning
    rw [h.running, h.keys]
    exact hsigning

omit [PrivateKeys K] in
theorem leaves_log (e : AgentEvent K) :
  Leaves s (s.log e)
  := ⟨rfl, rfl, Nat.le_refl _, List.subset_append_left _ _⟩

omit [PrivateKeys K] in
/-- Only setting keys changes what is offered. -/
theorem offered_append {tr : List (AgentEvent K)} {e : AgentEvent K}
    (he : ∀ keys, e ≠ .keysSet keys) :
  offered (tr ++ [e]) = offered tr
  := by
  rw [offered, List.foldl_append]
  cases e with
  | keysSet keys => exact absurd rfl (he keys)
  | _ => rfl

/-- Recording an event that is in order, and sets no keys, keeps the server sound. -/
theorem sound_log {e : AgentEvent K} (hs : s.Sound) (he : InOrder s.trace e)
    (hkeys : ∀ keys, e ≠ .keysSet keys) (hreceived : ∀ n i msg, e ≠ .received n i msg)
    (hdropped : e ≠ .dropped) :
  (s.log e).Sound
  := by
  refine ⟨⟨Trace.proper_snoc.mpr ⟨hs.faithful.trace, he⟩, ?_⟩, ?_, ?_⟩
  · change s.keys = offered (s.trace ++ [e])
    rw [offered_append hkeys]
    exact hs.faithful.keys
  · intro n i msg hmem
    rcases List.mem_append.mp hmem with hmem | hmem
    · exact hs.numbers n i msg hmem
    · exact absurd (List.mem_singleton.mp hmem).symm (hreceived n i msg)
  · intro hrunning hmem
    rcases List.mem_append.mp hmem with hmem | hmem
    · exact hs.running hrunning hmem
    · exact hdropped (List.mem_singleton.mp hmem).symm

/-! ### Steps of a connection -/

/-- What a step of a task brings about. -/
def Serves (i : ℕ) (s : Agent K) (q : Agent K × Connection K) : Prop :=
  q.1.Sound ∧ q.2.Relies i q.1 ∧ Leaves s q.1

/-- A reply that is in order. -/
theorem serves_reply {peer : Peer} {n : ℕ} {out : Except String Bytes} (hs : s.Sound)
    (hi : i < s.connections) (hreply : InOrder s.trace (.replied n (replyOf out))) :
  Serves i s (s.reply peer n out)
  := by
  refine ⟨sound_log hs hreply ?_ ?_ ?_, hi, leaves_log _⟩
  · rintro keys ⟨⟩
  · rintro n i msg ⟨⟩
  · rintro ⟨⟩

/-- A step that records nothing. -/
theorem serves_silent (hs : s.Sound) (ht : t.Relies i s) :
  Serves i s (s, t)
  := ⟨hs, ht, ⟨rfl, rfl, Nat.le_refl _, fun _ h => h⟩⟩

/-- An error is in order as the reply to any message. -/
theorem inOrder_failure {n : ℕ} {msg : Bytes} {e : String}
    (hreceived : AgentEvent.received n i msg ∈ s.trace) :
  InOrder s.trace (.replied n (replyOf (.error e)))
  := ⟨i, msg, hreceived, .inl rfl⟩

/-- What a message is handled as. -/
theorem handle_eq_ok {keys : List (ServedKey K)} {msg : Bytes} {a : Handled K}
    (h : handle keys msg = .ok a) :
  (msg.head? = some REQUEST_IDENTITIES ∧ ∃ out, identities keys = .ok out ∧ a = .reply out)
    ∨ ∃ body r key, msg = SIGN_REQUEST :: body ∧ readSignRequest body = .ok r
      ∧ key.hasBlob r.blob = true ∧ a = .ask key r
  := by
  cases msg with
  | nil => cases h
  | cons kind body =>
      rw [handle] at h
      split at h
      · rename_i hkind
        obtain ⟨out, hout, rfl⟩ := map_eq_ok.mp h
        exact .inl ⟨congrArg some hkind, out, hout, rfl⟩
      · split at h
        · rename_i hkind
          obtain ⟨r, hread, h⟩ := bind_eq_ok.mp h
          split at h
          · cases h
          · rename_i key hfind
            cases h
            have hblob : key.hasBlob r.blob = true :=
              List.find?_some (p := fun k : ServedKey K => k.hasBlob r.blob) hfind
            exact .inr ⟨body, r, key, by rw [hkind], hread, hblob, rfl⟩
        · cases h

/-- A message is handled: it is replied to with a failure or the keys, or the policy is asked. -/
theorem serves_handling {peer : Peer} {n : ℕ} {msg : Bytes} (hs : s.Sound)
    (ht : (Connection.handling peer n msg : Connection K).Relies i s) {q : Agent K × Connection K}
    (h : serveConnection i .next s (.handling peer n msg) = some q) :
  Serves i s q
  := by
  obtain ⟨hi, hreceived, hlists⟩ := ht
  rw [serveConnection] at h
  split at h
  · rename_i out hhandle
    cases h
    apply serves_reply hs hi
    rcases handle_eq_ok hhandle with ⟨hasked, out', hout, heq⟩ | ⟨_, _, _, _, _, _, heq⟩
    · cases heq
      refine ⟨i, msg, hreceived, .inr (.inl ⟨hasked, ?_, fun hdropped => ?_⟩)⟩
      · rw [← hs.faithful.keys]
        exact hout
      · rw [← hs.faithful.keys]
        rcases hlists hasked with hrunning | hnone
        · exact absurd hdropped (hs.running hrunning)
        · exact hnone
    · cases heq
  · rename_i key r hhandle
    cases h
    rcases handle_eq_ok hhandle with ⟨_, _, _, heq⟩ | ⟨body, r', key', rfl, hread, hblob, heq⟩
    · cases heq
    · cases heq
      exact serves_silent hs ⟨hi, ⟨body, hreceived, hread⟩, hblob⟩
  · cases h
    exact serves_reply hs hi (inOrder_failure hreceived)

/-- A signature by a key that is still offered. -/
theorem serves_signing {peer : Peer} {n : ℕ} {key : ServedKey K} {r : SignRequest} (hs : s.Sound)
    (ht : (Connection.signing peer n key r).Relies i s) :
  Serves i s (s.reply peer n (signature key r))
  := by
  obtain ⟨hi, ⟨⟨body, hreceived, hread⟩, hblob⟩, hallowed, hrunning, hkey⟩ := ht
  apply serves_reply hs hi
  cases hsignature : signature key r with
  | error e => exact inOrder_failure hreceived
  | ok reply =>
      refine ⟨i, SIGN_REQUEST :: body, hreceived, .inr (.inr ⟨key, r, ?_⟩)⟩
      refine ⟨⟨body, rfl, hread⟩, hblob, ?_, hallowed, hsignature, hs.running hrunning⟩
      rw [← hs.faithful.keys]
      exact hkey

/-- A message that is received gets a number of its own. -/
theorem serves_body {msg : Bytes} {peer : Peer} (hs : s.Sound) (hi : i < s.connections)
    (hlists : msg.head? = some REQUEST_IDENTITIES → s.running = true ∨ s.keys = []) :
  Serves i s ({ s with requests := s.requests + 1 }.log (.received s.requests i msg),
    .handling peer s.requests msg)
  := by
  refine ⟨⟨⟨Trace.proper_snoc.mpr ⟨hs.faithful.trace, ?_⟩, ?_⟩, ?_, ?_⟩, ⟨hi, ?_, hlists⟩, ?_⟩
  · intro j msg' hmem
    exact absurd (hs.numbers _ j msg' hmem) (Nat.lt_irrefl _)
  · change s.keys = offered (s.trace ++ [_])
    rw [offered_append (by rintro keys ⟨⟩)]
    exact hs.faithful.keys
  · intro n j msg' hmem
    rcases List.mem_append.mp hmem with hmem | hmem
    · exact Nat.lt_succ_of_lt (hs.numbers n j msg' hmem)
    · cases List.mem_singleton.mp hmem
      exact Nat.lt_succ_self _
  · intro hrunning hmem
    rcases List.mem_append.mp hmem with hmem | hmem
    · exact hs.running hrunning hmem
    · cases List.mem_singleton.mp hmem
  · exact List.mem_append_right _ (List.mem_singleton_self _)
  · exact ⟨rfl, rfl, Nat.le_refl _, List.subset_append_left _ _⟩

/-- The policy answers. -/
theorem serves_answered {peer : Peer} {n : ℕ} {key : ServedKey K} {r : SignRequest} {allowed : Bool}
    (hs : s.Sound) (ht : (Connection.asking peer n key r).Relies i s)
    (hkey : allowed = true → s.running = true ∧ key ∈ s.keys) {q : Agent K × Connection K}
    (h : serveConnection i (.answered allowed) s (.asking peer n key r) = some q) :
  Serves i s q
  := by
  obtain ⟨hi, hasks⟩ := ht
  have hsound : (s.log (.answered n key peer allowed)).Sound := by
    apply sound_log hs
    · trivial
    · rintro keys ⟨⟩
    · rintro n i msg ⟨⟩
    · rintro ⟨⟩
  have hasks' := hasks.mono (leaves_log (.answered n key peer allowed)).trace
  cases allowed with
  | false =>
      cases h
      obtain ⟨⟨body, hreceived, -⟩, -⟩ := hasks'
      obtain ⟨hsound', hrelies, hleaves⟩ :=
        serves_reply hsound hi (inOrder_failure hreceived)
      refine ⟨hsound', hrelies, ⟨hleaves.keys, hleaves.running, hleaves.connections, ?_⟩⟩
      exact List.Subset.trans (leaves_log _).trace hleaves.trace
  | true =>
      cases h
      refine ⟨hsound, ⟨hi, hasks', ⟨peer, ?_⟩, hkey rfl⟩, leaves_log _⟩
      exact List.mem_append_right _ (List.mem_singleton_self _)

/-! ### Runs -/

variable [DecidableEq K]

/-- A step of a task, in a run that does not come in the way of a signature. -/
theorem serves_serveConnection {p : AgentPool K} {e : ConnectionEvent} {q : Agent K × Connection K}
    (hs : p.shared.Sound) (ht : (p.threads i).Relies i p.shared)
    (hG : unhurried p (.run i e) = true)
    (h : serveConnection i e p.shared (p.threads i) = some q) :
  Serves i p.shared q
  := by
  cases hat : p.threads i with
  | closed =>
      rw [hat] at h
      cases e with
      | connect peer =>
          rw [serveConnection] at h
          split at h
          · rename_i hcan
            cases h
            simp only [Bool.and_eq_true, decide_eq_true_eq] at hcan
            refine ⟨⟨⟨hs.faithful.trace, hs.faithful.keys⟩, hs.numbers, hs.running⟩, ?_, ?_⟩
            · change i < p.shared.connections + 1
              rw [hcan.2]
              exact Nat.lt_succ_self _
            · exact ⟨rfl, rfl, Nat.le_succ _, fun _ h => h⟩
          · cases h
      | _ => cases h
  | header peer =>
      rw [hat] at h ht
      cases e with
      | header len =>
          rw [serveConnection] at h
          split at h
          · cases h
            exact serves_silent hs trivial
          · cases h
            exact serves_silent hs ht
      | hangUp =>
          cases h
          exact serves_silent hs trivial
      | _ => cases h
  | body peer len =>
      rw [hat] at h ht
      cases e with
      | body msg =>
          rw [serveConnection] at h
          split at h
          · cases h
            apply serves_body hs ht
            intro hmsg
            simp only [unhurried, Bool.or_eq_true, decide_eq_true_eq, List.isEmpty_iff] at hG
            rcases hG with hG | hother
            · exact hG
            · exact absurd hmsg hother
          · cases h
      | hangUp =>
          cases h
          exact serves_silent hs trivial
      | _ => cases h
  | handling peer n msg =>
      rw [hat] at h ht
      cases e with
      | next => exact serves_handling hs ht h
      | hangUp =>
          cases h
          exact serves_silent hs trivial
      | _ => cases h
  | asking peer n key r =>
      rw [hat] at h ht
      cases e with
      | answered allowed =>
          apply serves_answered hs ht _ h
          rintro rfl
          simp only [unhurried, hat, Bool.and_eq_true, decide_eq_true_eq] at hG
          exact hG
      | hangUp =>
          cases h
          exact serves_silent hs trivial
      | _ => cases h
  | signing peer n key r =>
      rw [hat] at h ht
      cases e with
      | next =>
          cases h
          exact serves_signing hs ht
      | hangUp =>
          cases h
          exact serves_silent hs trivial
      | _ => cases h
  | writing peer reply =>
      rw [hat] at h ht
      cases e with
      | next =>
          cases h
          exact serves_silent hs ht
      | hangUp =>
          cases h
          exact serves_silent hs trivial
      | _ => cases h

omit [DecidableEq K] in
/-- The task of a connection that is not closed was accepted. -/
theorem Connection.Relies.lt (h : t.Relies i s) (hopen : t ≠ .closed) :
  i < s.connections
  := by
  cases t with
  | closed => exact absurd rfl hopen
  | header peer => exact h
  | body peer len => exact h
  | handling peer n msg => exact h.1
  | asking peer n key r => exact h.1
  | signing peer n key r => exact h.1
  | writing peer reply => exact h

/-- Keys are replaced while nobody is about to sign with one that goes. -/
theorem sound_setKeys {p : AgentPool K} {keys : List (ServedKey K)} (hs : p.shared.Sound)
    (hrelies : ∀ i, (p.threads i).Relies i p.shared) (hrunning : p.shared.running = true)
    (hG : unhurried p (.env (.setKeys keys)) = true) :
  ({ p.shared with keys }.log (.keysSet keys)).Sound
    ∧ ∀ i, (p.threads i).Relies i ({ p.shared with keys }.log (.keysSet keys))
  := by
  refine ⟨⟨⟨Trace.proper_snoc.mpr ⟨hs.faithful.trace, trivial⟩, ?_⟩, ?_, ?_⟩, fun i => ?_⟩
  · change keys = offered (p.shared.trace ++ [_])
    rw [offered, List.foldl_append]
    rfl
  · intro n i msg hmem
    rcases List.mem_append.mp hmem with hmem | hmem
    · exact hs.numbers n i msg hmem
    · cases List.mem_singleton.mp hmem
  · intro _ hmem
    rcases List.mem_append.mp hmem with hmem | hmem
    · exact hs.running hrunning hmem
    · cases List.mem_singleton.mp hmem
  · refine Connection.Relies.mono ?_ ?_ ?_ ?_ (hrelies i)
    · exact Nat.le_refl _
    · exact List.subset_append_left _ _
    · exact fun _ _ _ _ _ _ => .inl hrunning
    · intro peer n key r hat _
      have hi : i < p.shared.connections := (hrelies i).lt (by rw [hat]; rintro ⟨⟩)
      have hstays := List.all_eq_true.mp hG i (List.mem_range.mpr hi)
      simp only [hat, Connection.signsOutside, Bool.not_eq_true', decide_eq_false_iff_not,
        not_not] at hstays
      exact ⟨hrunning, hstays⟩

/-- The server is dropped while nobody is about to sign, or to list the keys. -/
theorem sound_drop {p : AgentPool K} (hs : p.shared.Sound)
    (hrelies : ∀ i, (p.threads i).Relies i p.shared) (hG : unhurried p (.env .drop) = true) :
  ({ p.shared with running := false }.log .dropped).Sound
    ∧ ∀ i, (p.threads i).Relies i ({ p.shared with running := false }.log .dropped)
  := by
  have hquiet : ∀ i, p.threads i ≠ .closed → (p.threads i).isAnswering = false := by
    intro i hopen
    have hnot := List.all_eq_true.mp hG i (List.mem_range.mpr ((hrelies i).lt hopen))
    rw [Bool.not_eq_true'] at hnot
    exact hnot
  refine ⟨⟨⟨Trace.proper_snoc.mpr ⟨hs.faithful.trace, trivial⟩, ?_⟩, ?_, ?_⟩, fun i => ?_⟩
  · change p.shared.keys = offered (p.shared.trace ++ [_])
    rw [offered_append (by rintro keys ⟨⟩)]
    exact hs.faithful.keys
  · intro n i msg hmem
    rcases List.mem_append.mp hmem with hmem | hmem
    · exact hs.numbers n i msg hmem
    · cases List.mem_singleton.mp hmem
  · rintro ⟨⟩
  · refine Connection.Relies.mono ?_ ?_ ?_ ?_ (hrelies i)
    · exact Nat.le_refl _
    · exact List.subset_append_left _ _
    · intro peer n msg hat hmsg _
      have hnot := hquiet i (by rw [hat]; rintro ⟨⟩)
      simp [hat, Connection.isAnswering, hmsg] at hnot
    · intro peer n key r hat _
      have hnot := hquiet i (by rw [hat]; rintro ⟨⟩)
      simp [hat, Connection.isAnswering] at hnot

/-- In runs that do not come in the way of a signature the server is faithful. -/
theorem faithful_of_unhurried {p : AgentPool K}
    (h : (agentServer K).system.Reaches (fun p l => unhurried p l = true) p) :
  Faithful p.shared
  := by
  have hholds : Threads.Holds Agent.Sound (fun i s t => Connection.Relies i s t) p := by
    apply Threads.holds_of_reaches _ _ _ h
    · rintro s rfl
      refine ⟨⟨⟨Trace.proper_nil, rfl⟩, ?_, ?_⟩, ?_⟩
      · rintro n i msg ⟨⟩
      · rintro - ⟨⟩
      · rintro i t rfl
        trivial
    · intro p i e s' t' ⟨hs, hrelies⟩ hG hexec
      obtain ⟨hsound, hrelies', hleaves⟩ := serves_serveConnection hs (hrelies i) hG hexec
      exact ⟨hsound, hrelies', fun j _ => hleaves.relies (hrelies j)⟩
    · intro p x s' ⟨hs, hrelies⟩ hG henv
      dsimp only [agentServer] at henv
      split at henv
      · rename_i hrunning
        cases x with
        | setKeys keys =>
            cases henv
            exact sound_setKeys hs hrelies hrunning hG
        | drop =>
            cases henv
            exact sound_drop hs hrelies hG
      · cases henv
  exact hholds.1.faithful

end

/-! ### Runs of one client -/

/-- Keys that are bytes: a signature is the data after the key. -/
instance byteKeys : PrivateKeys UInt8 where
  Signature := Bytes
  toBytes k := .ok [k]
  isRsa _ := false
  trySignRsa k _ data := .ok (k :: data)
  trySign k data := .ok (k :: data)
  encodeVec sig := .ok sig

/-- A server without clients. -/
def idleAgent : AgentPool UInt8 where
  shared := ⟨[], true, 0, 0, []⟩
  threads _ := .closed

theorem init_idleAgent :
  (agentServer UInt8).system.init idleAgent
  := ⟨rfl, fun _ => rfl⟩

/-- A key is set, and a client asks for a signature by it. -/
def askSignature : List (AgentStep UInt8) :=
  [.env (.setKeys [⟨"work", 3⟩]), .run 0 (.connect ⟨some 42, none⟩), .run 0 (.header 16),
    .run 0 (.body (SIGN_REQUEST :: (putString [3] ++ putString [7, 8] ++ toBeBytes 0))),
    .run 0 .next]

/-- The request is let through, and signed. -/
def letThrough : List (AgentStep UInt8) := [.run 0 (.answered true), .run 0 .next]

/-- A client that gets its signature. -/
theorem faithful_signed :
  ∃ p, (agentServer UInt8).system.run idleAgent (askSignature ++ letThrough) = some p
    ∧ Faithful p.shared
  := by
  have hsome : ((agentServer UInt8).system.runMeeting (fun p l => unhurried p l = true) idleAgent
      (askSignature ++ letThrough)).isSome := by decide +kernel
  obtain ⟨p, hrun⟩ := Option.isSome_iff_exists.mp hsome
  refine ⟨p, TransitionSystem.run_of_runMeeting hrun, ?_⟩
  exact faithful_of_unhurried (TransitionSystem.reaches_runMeeting init_idleAgent hrun)

/-- The pool after a request that was open when the server was dropped. -/
def signedAfterDrop : AgentPool UInt8 :=
  ((agentServer UInt8).system.run idleAgent (askSignature ++ .env .drop :: letThrough)).get
    (by decide +kernel)

/-- What happened before the request was signed. -/
def beforeSignature : List (AgentEvent UInt8) :=
  [.keysSet [⟨"work", 3⟩],
    .received 0 0 (SIGN_REQUEST :: (putString [3] ++ putString [7, 8] ++ toBeBytes 0)), .dropped,
    .answered 0 ⟨"work", 3⟩ ⟨some 42, none⟩ true]

/-- A request that is let through after the server was dropped is signed. -/
theorem signedAfterDrop_not_faithful :
  ¬ ∀ p, (agentServer UInt8).system.Reachable p → Faithful p.shared
  := by
  intro h
  have hreach : (agentServer UInt8).system.Reachable signedAfterDrop :=
    TransitionSystem.reachable_run init_idleAgent _
  obtain ⟨i, msg, hreceived, hreply⟩ := (h _ hreach).trace beforeSignature
    (.replied 0 (SIGN_RESPONSE :: putString [3, 7, 8])) [] rfl
  have hmsg : msg = SIGN_REQUEST :: (putString [3] ++ putString [7, 8] ++ toBeBytes 0) := by
    simp only [beforeSignature, List.mem_cons, AgentEvent.received.injEq, reduceCtorEq,
      List.not_mem_nil, or_false, false_or] at hreceived
    exact hreceived.2.2
  rcases hreply with hfailure | hlists | ⟨key, r, hsigns⟩
  · cases hfailure
  · have hasked := hlists.asked
    rw [hmsg] at hasked
    cases hasked
  · exact hsigns.running (by simp [beforeSignature])

end Termoso.Core
