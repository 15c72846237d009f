import Termoso.Server.Codes
import Termoso.Server.Db

/-!
# Bearer sessions

A session is a row that names the hash of its token.  A call that validates a token looks for a
copy of the session in the cache, then for the row, and puts a copy of the row it read in the
cache.  A call that revokes sessions marks their rows, and deletes their copies one by one.  A
call that issues a session marks the rows of the device, and adds one.  Any number of calls run
these statements one by one between those of the others.

Once a call that revokes a session has returned its token is to be refused, and so are the earlier
tokens of a device once a session was issued for it.
-/

namespace Termoso.Server

/-- How long a copy of a session lives in the cache, in seconds. -/
def CACHE_TTL : ℕ := 60

/-! ### State -/

structure SessionRow where
  id : Uuid
  userId : Uuid
  deviceId : Uuid
  tokenHash : String
  expiresAt : ℕ
  bridgeId : Option Uuid
  reauthAt : Option ℕ
  revoked : Bool
deriving DecidableEq

instance : Keyed SessionRow Uuid := ⟨SessionRow.id⟩

structure DeviceRow where
  id : Uuid
  userId : Uuid
  approved : Bool
deriving DecidableEq

instance : Keyed DeviceRow Uuid := ⟨DeviceRow.id⟩

/-- What a call that validated a token is told. -/
structure SessionInfo where
  sessionId : Uuid
  userId : Uuid
  deviceId : Uuid
  expiresAt : ℕ
  reauthAt : Option ℕ
  bridgeId : Option Uuid
deriving DecidableEq

/-- The sessions, the devices, and the cache of copies with the time they expire at.  Beside them
stand the hashes of the tokens that are to be refused by now, those whose copy a call that revoked
the session has still to delete, the devices a session was issued for, and what calls that validated
a token were told, with whether its token was to be refused when the call began. -/
structure SessionStore where
  now : ℕ
  sessions : Table SessionRow
  devices : Table DeviceRow
  cache : String → Option (SessionInfo × ℕ)
  refused : List String
  pending : List String
  issued : List Uuid
  validated : List (SessionInfo × Bool)

namespace SessionStore

variable (s : SessionStore)

/-- A device is one of a user. -/
def owns (userId deviceId : Uuid) : Bool :=
  (s.devices.get? deviceId).any (fun d => decide (d.userId = userId))

/-- Mark the sessions that a call revokes; it has to delete their copies. -/
def revoke (p : SessionRow → Bool) : SessionStore :=
  { s with
    sessions := s.sessions.update p (fun r => { r with revoked := true }) (fun _ => rfl) }

/-- The hashes of the tokens of some sessions that are not revoked. -/
def live (p : SessionRow → Bool) : List String :=
  (s.sessions.select (fun r => p r && !r.revoked)).map SessionRow.tokenHash

/-- Add a session, when its token is a new one and its device is there. -/
def insert (r : SessionRow) : Option SessionStore :=
  if s.sessions.rows.any (fun r' => decide (r'.tokenHash = r.tokenHash))
      || (s.devices.get? r.deviceId).isNone then none
  else (s.sessions.insert r).map (fun sessions => { s with sessions := sessions })

/-- Approve a device. -/
def approve (deviceId : Uuid) : SessionStore :=
  { s with
    devices := s.devices.set deviceId (fun d => { d with approved := true }) (fun _ => rfl) }

/-- Delete the copy of a session. -/
def del (tokenHash : String) : SessionStore :=
  { s with
    cache := Function.update s.cache tokenHash none
    pending := s.pending.filter (fun h => decide (h ≠ tokenHash)) }

end SessionStore

/-! ### Calls -/

/-- The sessions a call revokes. -/
inductive Revocation
  | session (id : Uuid)
  | device (userId deviceId : Uuid)
  | all (userId : Uuid) (keep : Option Uuid)
deriving DecidableEq

def Revocation.covers : Revocation → SessionRow → Bool
  | .session id, r => decide (r.id = id)
  | .device userId deviceId, r => decide (r.deviceId = deviceId) && decide (r.userId = userId)
  | .all userId keep, r => decide (r.userId = userId) && r.bridgeId.isNone && decide (keep ≠ some r.id)

/-- A session to issue: for whom, and how long it lives. -/
structure Issue where
  userId : Uuid
  deviceId : Uuid
  ttl : ℕ
deriving DecidableEq

/-- How far a call has come. A call that revokes sessions may go on to issue one. -/
inductive SessionCall
  | done
  | issueRevoke (i : Issue)
  | issueInsert (i : Issue)
  /-- About to approve the device, for which there were sessions of some tokens before. -/
  | issueApprove (deviceId : Uuid) (earlier : List String)
  | bridgeInsert (userId deviceId bridgeId : Uuid)
  | bridgeApprove (deviceId : Uuid)
  /-- About to look in the cache; `late` says that the token was to be refused already. -/
  | validateGet (tokenHash : String) (late : Bool)
  | validateSelect (tokenHash : String) (late : Bool)
  | validateSet (info : SessionInfo) (tokenHash : String) (late : Bool)
  | stepUpdate (sessionId : Uuid)
  | stepDel (tokenHash : String)
  | revokeUpdate (r : Revocation) (andThen : Option Issue)
  /-- About to delete the copies left, of those of the sessions revoked. -/
  | revokeDel (left revoked : List String) (andThen : Option Issue)
deriving DecidableEq

/-- A call is made, drops out, or runs its next statement, for which a token and an id may be
drawn. -/
inductive SessionStep
  | issue (userId deviceId : Uuid) (ttl : ℕ)
  | issueBridge (userId deviceId bridgeId : Uuid)
  | validate (token : String)
  | markStepUp (sessionId : Uuid)
  | revokeSession (sessionId : Uuid)
  | revokeDevice (userId deviceId : Uuid)
  | revokeAll (userId : Uuid) (keep : Option Uuid)
  /-- Finish a password change, signed in or not, with a recovery token of a user or without. -/
  | passwordFinish (auth : Option SessionInfo) (recovery : Option Uuid) (deviceId : Uuid) (ttl : ℕ)
  | drop
  | next (token : String) (id : Uuid)

/-- Time passes, or a device is added for a user. -/
inductive SessionEvent
  | pass (seconds : ℕ)
  | addDevice (userId deviceId : Uuid)

/-- The user whose password is set: that of the recovery token, or else the one signed in. -/
def passwordSubject (auth : Option SessionInfo) (recovery : Option Uuid) : Option Uuid :=
  recovery.or (auth.map SessionInfo.userId)

section
variable [TokenHash]

/-- What a call begins with. Devices are passed by the callers, who have found them among those of
the user. -/
def SessionStep.start (s : SessionStore) : SessionStep → Option SessionCall
  | .issue userId deviceId ttl =>
    if s.owns userId deviceId then some (.issueRevoke ⟨userId, deviceId, ttl⟩) else none
  | .issueBridge userId deviceId bridgeId =>
    if s.owns userId deviceId then some (.bridgeInsert userId deviceId bridgeId) else none
  | .validate token =>
    let h := TokenHash.hashToken token
    some (.validateGet h (decide (h ∈ s.refused)))
  | .markStepUp sessionId => some (.stepUpdate sessionId)
  | .revokeSession sessionId => some (.revokeUpdate (.session sessionId) none)
  | .revokeDevice userId deviceId => some (.revokeUpdate (.device userId deviceId) none)
  | .revokeAll userId keep => some (.revokeUpdate (.all userId keep) none)
  | .passwordFinish auth recovery deviceId ttl =>
    match passwordSubject auth recovery with
    | none => none
    | some userId =>
      let begin (deviceId : Uuid) : SessionCall :=
        .revokeUpdate (.all userId none) (some ⟨userId, deviceId, ttl⟩)
      match auth with
      | some info => if info ∈ s.validated.map Prod.fst then some (begin info.deviceId) else none
      | none => if s.owns userId deviceId then some (begin deviceId) else none
  | .drop | .next _ _ => none

/-- The next statement of a call. -/
def SessionCall.next (token : String) (id : Uuid) (s : SessionStore) :
    SessionCall → Option (SessionStore × SessionCall)
  | .done => none
  | .issueRevoke i =>
    some (s.revoke (fun r => decide (r.deviceId = i.deviceId) && !r.revoked), .issueInsert i)
  | .issueInsert i =>
    let earlier := (s.sessions.select (fun r =>
      decide (r.deviceId = i.deviceId) && r.bridgeId.isNone)).map SessionRow.tokenHash
    match s.insert ⟨id, i.userId, i.deviceId, TokenHash.hashToken token, s.now + i.ttl, none,
      some s.now, false⟩ with
    | none => some (s, .done)
    | some s => some (s, .issueApprove i.deviceId earlier)
  | .issueApprove deviceId earlier =>
    let s := s.approve deviceId
    some ({ s with refused := earlier ++ s.refused, issued := deviceId :: s.issued }, .done)
  | .bridgeInsert userId deviceId bridgeId =>
    match s.insert ⟨id, userId, deviceId, TokenHash.hashToken token, s.now + 20 * 365 * 86400,
      some bridgeId, none, false⟩ with
    | none => some (s, .done)
    | some s => some (s, .bridgeApprove deviceId)
  | .bridgeApprove deviceId => some (s.approve deviceId, .done)
  | .validateGet h late =>
    match (s.cache h).filter (fun c => decide (s.now < c.2 ∧ s.now < c.1.expiresAt)) with
    | some c => some ({ s with validated := (c.1, late) :: s.validated }, .done)
    | none => some (s, .validateSelect h late)
  | .validateSelect h late =>
    match s.sessions.rows.find? (fun r =>
      decide (r.tokenHash = h) && !r.revoked && decide (s.now < r.expiresAt)) with
    | none => some (s, .done)
    | some r =>
      some (s, .validateSet ⟨r.id, r.userId, r.deviceId, r.expiresAt, r.reauthAt, r.bridgeId⟩ h late)
  | .validateSet info h late =>
    some ({ s with
      cache := Function.update s.cache h (some (info, s.now + CACHE_TTL))
      validated := (info, late) :: s.validated }, .done)
  | .stepUpdate sessionId =>
    match (s.sessions.get? sessionId).filter (fun r => !r.revoked && decide (s.now < r.expiresAt)) with
    | none => some (s, .done)
    | some r =>
      some ({ s with
        sessions := s.sessions.set sessionId (fun r => { r with reauthAt := some s.now })
          (fun _ => rfl) }, .stepDel r.tokenHash)
  | .stepDel h => some ({ s with cache := Function.update s.cache h none }, .done)
  | .revokeUpdate r andThen =>
    let hashes := s.live r.covers
    some ({ s.revoke (fun x => r.covers x && !x.revoked) with pending := hashes ++ s.pending },
      .revokeDel hashes hashes andThen)
  | .revokeDel (h :: left) revoked andThen => some (s.del h, .revokeDel left revoked andThen)
  | .revokeDel [] revoked andThen =>
    some ({ s with refused := revoked ++ s.refused }, andThen.elim .done .issueRevoke)

/-- A step of a call. -/
def SessionCall.exec : SessionStep → SessionStore → SessionCall →
    Option (SessionStore × SessionCall)
  | .next token id, s, call => call.next token id s
  | .drop, s, _ => some (s, .done)
  | step, s, .done => (step.start s).map (fun call => (s, call))
  | _, _, _ => none

/-- The calls about sessions. At first there are none, and no devices. -/
def sessionCalls : Threads SessionStore SessionCall SessionStep SessionEvent where
  init s := s.sessions = .empty ∧ s.devices = .empty ∧ (∀ h, s.cache h = none) ∧ s.refused = []
    ∧ s.pending = [] ∧ s.issued = [] ∧ s.validated = []
  start call := call = .done
  exec _ := SessionCall.exec
  env
    | .pass seconds, s => some { s with now := s.now + seconds }
    | .addDevice userId deviceId, s =>
      (s.devices.insert ⟨deviceId, userId, false⟩).map (fun devices => { s with devices := devices })

end

/-! ### What is to hold -/

/-- A token that was to be refused when a call that validated it began was refused, a device for
which a session was issued has one session at most that is not revoked, and the device of a
session is one of its user. -/
structure RevokedForGood (s : SessionStore) : Prop where
  final : ∀ v ∈ s.validated, v.2 = false
  one : ∀ deviceId ∈ s.issued,
    (s.sessions.select (fun r => decide (r.deviceId = deviceId) && !r.revoked)).length ≤ 1
  owned : ∀ r ∈ s.sessions.rows, s.owns r.userId r.deviceId = true

/-! ### Calls that are not overtaken -/

/-- A copy of a session that is revoked is put in the cache only while the call that revoked it has
still to delete it; a session is issued when no session of the device has a copy, none was issued in
between, and at the end no call has still to delete a copy of an earlier one. -/
def SessionCall.Untouched (s : SessionStore) : SessionCall → Prop
  | .validateSet _ h _ => ∀ r ∈ s.sessions.rows, r.tokenHash = h → r.revoked = true → h ∈ s.pending
  | .issueRevoke i => ∀ r ∈ s.sessions.rows, r.deviceId = i.deviceId → r.revoked = false →
      ∀ c ∈ s.cache r.tokenHash, c.2 ≤ s.now
  | .issueInsert i => ∀ r ∈ s.sessions.rows, r.deviceId = i.deviceId → r.revoked = true
  | .issueApprove _ earlier => ∀ h ∈ earlier, h ∉ s.pending
  | .bridgeInsert _ deviceId _ => ∀ r ∈ s.sessions.rows, r.deviceId = deviceId → r.revoked = true
  | _ => True

/-- The steps of calls that are not overtaken; a recovery token is used by its own user, or signed
out. -/
def sessionsUntouched (p : Pool SessionStore SessionCall) : PoolStep SessionStep SessionEvent → Prop
  | .run i (.next _ _) => (p.threads i).Untouched p.shared
  | .run _ (.passwordFinish (some info) (some userId) _ _) => info.userId = userId
  | _ => True

/-! ### The invariant -/

namespace SessionStore

/-- The session of a token is revoked. -/
def RevokedRow (s : SessionStore) (h : String) : Prop :=
  ∃ r ∈ s.sessions.rows, r.tokenHash = h ∧ r.revoked = true

/-- A copy of a session is that of a row; when the row is revoked the copy has expired, or the call
that revoked the row has still to delete it. -/
def CopyOf (s : SessionStore) (h : String) (c : SessionInfo × ℕ) : Prop :=
  ∃ r ∈ s.sessions.rows, r.tokenHash = h ∧ r.userId = c.1.userId ∧ r.deviceId = c.1.deviceId
    ∧ (r.revoked = true → h ∈ s.pending ∨ c.2 ≤ s.now)

/-- What is kept of the sessions and the cache. -/
structure Sound (s : SessionStore) : Prop where
  owned : ∀ r ∈ s.sessions.rows, s.owns r.userId r.deviceId = true
  one : ∀ r ∈ s.sessions.rows, ∀ r' ∈ s.sessions.rows, r.deviceId = r'.deviceId →
    r.revoked = false → r'.revoked = false → r = r'
  tokens : ∀ r ∈ s.sessions.rows, ∀ r' ∈ s.sessions.rows, r.tokenHash = r'.tokenHash → r = r'
  refused : ∀ h ∈ s.refused, s.RevokedRow h ∧ h ∉ s.pending
  copies : ∀ h c, s.cache h = some c → s.CopyOf h c
  validated : ∀ v ∈ s.validated, v.2 = false ∧ s.owns v.1.userId v.1.deviceId = true

/-- What no step takes back: devices keep their user, sessions their token, user and device, a
session that is revoked stays so, and so does a token that is refused; only a call that revokes a
session is about to delete its copy. -/
structure Later (s s' : SessionStore) : Prop where
  owns : ∀ userId deviceId, s.owns userId deviceId = true → s'.owns userId deviceId = true
  rows : ∀ r ∈ s.sessions.rows, ∃ r' ∈ s'.sessions.rows, r'.tokenHash = r.tokenHash
    ∧ r'.userId = r.userId ∧ r'.deviceId = r.deviceId ∧ (r.revoked = true → r'.revoked = true)
  refused : ∀ h ∈ s.refused, h ∈ s'.refused
  pending : ∀ h, s.RevokedRow h → h ∈ s'.pending → h ∈ s.pending

variable {s s' : SessionStore} {h : String}

theorem Later.rfl :
  s.Later s
  := ⟨fun _ _ h => h, fun r hr => ⟨r, hr, Eq.refl _, Eq.refl _, Eq.refl _, fun h => h⟩, fun _ h => h,
    fun _ _ h => h⟩

/-- Nothing is taken back when only the time, the cache and the tokens validated differ. -/
theorem Later.of_eq (hsessions : s'.sessions = s.sessions) (hdevices : s'.devices = s.devices)
    (hrefused : s'.refused = s.refused) (hpending : s'.pending = s.pending) :
  s.Later s'
  := by
  refine ⟨?_, ?_, ?_, ?_⟩
  · intro userId deviceId h
    unfold SessionStore.owns at h ⊢
    rw [hdevices]
    exact h
  · rw [hsessions]
    exact Later.rfl.rows
  · rw [hrefused]
    exact fun _ h => h
  · rw [hpending]
    exact fun _ _ h => h

theorem Later.revokedRow (hlater : s.Later s') (hrow : s.RevokedRow h) :
  s'.RevokedRow h
  := by
  obtain ⟨r, hr, htoken, hrevoked⟩ := hrow
  obtain ⟨r', hr', htoken', -, -, hrevoked'⟩ := hlater.rows r hr
  exact ⟨r', hr', htoken'.trans htoken, hrevoked' hrevoked⟩

/-- The session of a token is revoked when any session of that token is. -/
theorem Sound.revoked_of_mem (hs : s.Sound) (hrow : s.RevokedRow h) {r : SessionRow}
    (hr : r ∈ s.sessions.rows) (htoken : r.tokenHash = h) :
  r.revoked = true
  := by
  obtain ⟨r', hr', htoken', hrevoked⟩ := hrow
  have heq : r = r' := hs.tokens r hr r' hr' (htoken.trans htoken'.symm)
  rw [heq]
  exact hrevoked

/-- A device has one session at most that is not revoked. -/
theorem Sound.length_select_le (hs : s.Sound) (deviceId : Uuid) :
  (s.sessions.select (fun r => decide (r.deviceId = deviceId) && !r.revoked)).length ≤ 1
  := by
  have hmem : ∀ r ∈ s.sessions.select (fun r => decide (r.deviceId = deviceId) && !r.revoked),
      r ∈ s.sessions.rows ∧ r.deviceId = deviceId ∧ r.revoked = false := by
    intro r hr
    obtain ⟨hr, hp⟩ := List.mem_filter.mp hr
    simp only [Bool.and_eq_true, decide_eq_true_eq, Bool.not_eq_true'] at hp
    exact ⟨hr, hp⟩
  have hnodup : (s.sessions.select (fun r => decide (r.deviceId = deviceId) && !r.revoked)).Nodup :=
    (List.Nodup.of_map _ s.sessions.nodup).filter _
  match hrows : s.sessions.select (fun r => decide (r.deviceId = deviceId) && !r.revoked) with
  | [] => exact Nat.zero_le 1
  | [_] => exact le_rfl
  | r :: r' :: rs =>
      rw [hrows] at hmem hnodup
      obtain ⟨hr, hdevice, hlive⟩ := hmem r List.mem_cons_self
      obtain ⟨hr', hdevice', hlive'⟩ := hmem r' (List.mem_cons_of_mem _ List.mem_cons_self)
      have heq : r = r' := hs.one r hr r' hr' (hdevice.trans hdevice'.symm) hlive hlive'
      subst heq
      exact absurd List.mem_cons_self (List.nodup_cons.mp hnodup).1

/-- Updating sessions keeps the invariant when each keeps its token, user and device, and a session
that is revoked now has no copy that lives, or one that is to be deleted. -/
theorem Sound.update (hs : s.Sound) (p : SessionRow → Bool) (f : SessionRow → SessionRow)
    (hf : ∀ r, key (f r) = key r) {hashes : List String}
    (hkeep : ∀ r, (f r).tokenHash = r.tokenHash ∧ (f r).userId = r.userId
      ∧ (f r).deviceId = r.deviceId ∧ (r.revoked = true → (f r).revoked = true))
    (hhashes : ∀ h ∈ hashes, ∃ r ∈ s.sessions.rows, r.tokenHash = h ∧ r.revoked = false)
    (hcopy : ∀ r ∈ s.sessions.rows, p r = true → r.revoked = false → (f r).revoked = true →
      r.tokenHash ∈ hashes ∨ ∀ c, s.cache r.tokenHash = some c → c.2 ≤ s.now) :
  { s with
    sessions := s.sessions.update p f hf
    pending := hashes ++ s.pending }.Sound
  ∧ s.Later { s with
    sessions := s.sessions.update p f hf
    pending := hashes ++ s.pending }
  := by
  have himage : ∀ r ∈ (s.sessions.update p f hf).rows, ∃ r₀ ∈ s.sessions.rows,
      r = (if p r₀ then f r₀ else r₀) ∧ r.tokenHash = r₀.tokenHash ∧ r.userId = r₀.userId
        ∧ r.deviceId = r₀.deviceId ∧ (r₀.revoked = true → r.revoked = true) := by
    intro r hr
    obtain ⟨r₀, hr₀, rfl⟩ := List.mem_map.mp hr
    refine ⟨r₀, hr₀, rfl, ?_⟩
    split
    · exact hkeep r₀
    · exact ⟨rfl, rfl, rfl, fun h => h⟩
  have hrows : ∀ r₀ ∈ s.sessions.rows, ∃ r ∈ (s.sessions.update p f hf).rows,
      r = (if p r₀ then f r₀ else r₀) ∧ r.tokenHash = r₀.tokenHash ∧ r.userId = r₀.userId
        ∧ r.deviceId = r₀.deviceId ∧ (r₀.revoked = true → r.revoked = true) := by
    intro r₀ hr₀
    refine ⟨_, List.mem_map_of_mem hr₀, rfl, ?_⟩
    split
    · exact hkeep r₀
    · exact ⟨rfl, rfl, rfl, fun h => h⟩
  have hlater : s.Later { s with
      sessions := s.sessions.update p f hf
      pending := hashes ++ s.pending } := by
    refine ⟨fun _ _ h => h, ?_, fun _ h => h, ?_⟩
    · intro r hr
      obtain ⟨r', hr', -, hsame⟩ := hrows r hr
      exact ⟨r', hr', hsame⟩
    · intro h hrow hh
      rcases List.mem_append.mp hh with hh | hh
      · obtain ⟨r, hr, htoken, hlive⟩ := hhashes h hh
        rw [hs.revoked_of_mem hrow hr htoken] at hlive
        cases hlive
      · exact hh
  refine ⟨⟨?_, ?_, ?_, ?_, ?_, hs.validated⟩, hlater⟩
  · intro r hr
    obtain ⟨r₀, hr₀, -, -, huser, hdevice, -⟩ := himage r hr
    rw [huser, hdevice]
    exact hs.owned r₀ hr₀
  · intro r hr r' hr' hdevice hlive hlive'
    obtain ⟨r₀, hr₀, heq, -, -, hdevice₀, hrevoked⟩ := himage r hr
    obtain ⟨r₁, hr₁, heq', -, -, hdevice₁, hrevoked'⟩ := himage r' hr'
    have hlive₀ : r₀.revoked = false := by
      by_contra hne
      rw [hrevoked (eq_true_of_ne_false hne)] at hlive
      cases hlive
    have hlive₁ : r₁.revoked = false := by
      by_contra hne
      rw [hrevoked' (eq_true_of_ne_false hne)] at hlive'
      cases hlive'
    have hsame : r₀ = r₁ := by
      apply hs.one r₀ hr₀ r₁ hr₁ _ hlive₀ hlive₁
      rw [← hdevice₀, ← hdevice₁, hdevice]
    rw [heq, heq', hsame]
  · intro r hr r' hr' htoken
    obtain ⟨r₀, hr₀, heq, htoken₀, -⟩ := himage r hr
    obtain ⟨r₁, hr₁, heq', htoken₁, -⟩ := himage r' hr'
    have hsame : r₀ = r₁ := by
      apply hs.tokens r₀ hr₀ r₁ hr₁
      rw [← htoken₀, ← htoken₁, htoken]
    rw [heq, heq', hsame]
  · intro h hh
    obtain ⟨hrow, hnot⟩ := hs.refused h hh
    exact ⟨hlater.revokedRow hrow, fun hmem => hnot (hlater.pending h hrow hmem)⟩
  · intro h c hc
    obtain ⟨r₀, hr₀, htoken, huser, hdevice, hold⟩ := hs.copies h c hc
    obtain ⟨r, hr, heq, htoken', huser', hdevice', -⟩ := hrows r₀ hr₀
    refine ⟨r, hr, htoken'.trans htoken, huser'.trans huser, hdevice'.trans hdevice, ?_⟩
    intro hrevoked
    cases hrevoked₀ : r₀.revoked with
    | true =>
        rcases hold hrevoked₀ with hmem | hle
        · exact .inl (List.mem_append_right _ hmem)
        · exact .inr hle
    | false =>
        rw [heq] at hrevoked
        split at hrevoked
        · rename_i hp
          rcases hcopy r₀ hr₀ hp hrevoked₀ hrevoked with hmem | hle
          · exact .inl (List.mem_append_left _ (htoken ▸ hmem))
          · exact .inr (hle c (htoken ▸ hc))
        · rw [hrevoked₀] at hrevoked
          cases hrevoked

/-- Revoking sessions keeps the invariant when they have no copy that lives, or one that is to be
deleted. -/
theorem Sound.revoke (hs : s.Sound) (p : SessionRow → Bool) {hashes : List String}
    (hhashes : ∀ h ∈ hashes, ∃ r ∈ s.sessions.rows, r.tokenHash = h ∧ r.revoked = false)
    (hcopy : ∀ r ∈ s.sessions.rows, p r = true → r.revoked = false →
      r.tokenHash ∈ hashes ∨ ∀ c, s.cache r.tokenHash = some c → c.2 ≤ s.now) :
  { s.revoke p with pending := hashes ++ s.pending }.Sound
  ∧ s.Later { s.revoke p with pending := hashes ++ s.pending }
  := hs.update p (fun r => { r with revoked := true }) (fun _ => rfl)
    (fun _ => ⟨rfl, rfl, rfl, fun _ => rfl⟩) hhashes (fun r hr hp hlive _ => hcopy r hr hp hlive)

/-- Adding a session of a user's device keeps the invariant when no session of the device is live.
-/
theorem Sound.insert (hs : s.Sound) {r : SessionRow} (hinsert : s.insert r = some s')
    (howned : s.owns r.userId r.deviceId = true)
    (hfree : ∀ r' ∈ s.sessions.rows, r'.deviceId = r.deviceId → r'.revoked = true) :
  s'.Sound ∧ s.Later s'
  := by
  unfold SessionStore.insert at hinsert
  split at hinsert
  · cases hinsert
  · rename_i hnew
    obtain ⟨sessions, htable, rfl⟩ := Option.map_eq_some_iff.mp hinsert
    have hrows : ∀ x, x ∈ sessions.rows ↔ x ∈ s.sessions.rows ∨ x = r := fun x =>
      Table.mem_insert htable
    have htoken : ∀ r' ∈ s.sessions.rows, r'.tokenHash ≠ r.tokenHash := by
      intro r' hr' heq
      apply hnew
      rw [Bool.or_eq_true, List.any_eq_true]
      exact .inl ⟨r', hr', decide_eq_true heq⟩
    have hlater : s.Later { s with sessions := sessions } := by
      refine ⟨fun _ _ h => h, ?_, fun _ h => h, fun _ _ h => h⟩
      intro r' hr'
      exact ⟨r', (hrows r').mpr (.inl hr'), rfl, rfl, rfl, fun h => h⟩
    refine ⟨⟨?_, ?_, ?_, ?_, ?_, hs.validated⟩, hlater⟩
    · intro r' hr'
      rcases (hrows r').mp hr' with hr' | rfl
      · exact hs.owned r' hr'
      · exact howned
    · intro r₁ hr₁ r₂ hr₂ hdevice hlive₁ hlive₂
      rcases (hrows r₁).mp hr₁ with hr₁ | rfl <;> rcases (hrows r₂).mp hr₂ with hr₂ | rfl
      · exact hs.one r₁ hr₁ r₂ hr₂ hdevice hlive₁ hlive₂
      · rw [hfree r₁ hr₁ hdevice] at hlive₁
        cases hlive₁
      · rw [hfree r₂ hr₂ hdevice.symm] at hlive₂
        cases hlive₂
      · rfl
    · intro r₁ hr₁ r₂ hr₂ heq
      rcases (hrows r₁).mp hr₁ with hr₁ | rfl <;> rcases (hrows r₂).mp hr₂ with hr₂ | rfl
      · exact hs.tokens r₁ hr₁ r₂ hr₂ heq
      · exact absurd heq (htoken r₁ hr₁)
      · exact absurd heq.symm (htoken r₂ hr₂)
      · rfl
    · intro h hh
      obtain ⟨hrow, hnot⟩ := hs.refused h hh
      exact ⟨hlater.revokedRow hrow, hnot⟩
    · intro h c hc
      obtain ⟨r', hr', hcopy⟩ := hs.copies h c hc
      exact ⟨r', (hrows r').mpr (.inl hr'), hcopy⟩

/-- Approving a device keeps its user. -/
theorem owns_approve {deviceId userId deviceId' : Uuid} :
  (s.approve deviceId).owns userId deviceId' = s.owns userId deviceId'
  := by
  simp only [owns, approve, Table.get?_set]
  split
  · rename_i heq
    rw [heq]
    cases s.devices.get? deviceId <;> rfl
  · rfl

/-- Approving a device, and refusing tokens whose sessions are revoked and have no copy left. -/
theorem Sound.approve (hs : s.Sound) (deviceId : Uuid) (issued : List Uuid) {tokens : List String}
    (htokens : ∀ h ∈ tokens, s.RevokedRow h ∧ h ∉ s.pending) :
  { s.approve deviceId with refused := tokens ++ s.refused, issued := issued }.Sound
  ∧ s.Later { s.approve deviceId with refused := tokens ++ s.refused, issued := issued }
  := by
  have howns : ∀ userId deviceId', { s.approve deviceId with
      refused := tokens ++ s.refused
      issued := issued }.owns userId deviceId' = s.owns userId deviceId' := fun _ _ => owns_approve
  refine ⟨⟨?_, hs.one, hs.tokens, ?_, hs.copies, ?_⟩, ⟨?_, Later.rfl.rows, ?_, fun _ _ h => h⟩⟩
  · intro r hr
    rw [howns]
    exact hs.owned r hr
  · intro h hh
    rcases List.mem_append.mp hh with hh | hh
    · exact htokens h hh
    · exact hs.refused h hh
  · intro v hv
    rw [howns]
    exact hs.validated v hv
  · intro userId deviceId' h
    rw [howns]
    exact h
  · exact fun h hh => List.mem_append_right _ hh

/-- Refusing tokens whose sessions are revoked and have no copy left. -/
theorem Sound.refuse (hs : s.Sound) {tokens : List String}
    (htokens : ∀ h ∈ tokens, s.RevokedRow h ∧ h ∉ s.pending) :
  { s with refused := tokens ++ s.refused }.Sound
  ∧ s.Later { s with refused := tokens ++ s.refused }
  := by
  refine ⟨⟨hs.owned, hs.one, hs.tokens, ?_, hs.copies, hs.validated⟩,
    ⟨fun _ _ h => h, Later.rfl.rows, fun _ hh => List.mem_append_right _ hh, fun _ _ h => h⟩⟩
  intro h hh
  rcases List.mem_append.mp hh with hh | hh
  · exact htokens h hh
  · exact hs.refused h hh

/-- Putting a copy of a session in the cache, or taking one out. -/
theorem Sound.cache (hs : s.Sound) (h : String) (c : Option (SessionInfo × ℕ))
    (hc : ∀ c', c = some c' → s.CopyOf h c') :
  { s with cache := Function.update s.cache h c }.Sound
  := by
  refine ⟨hs.owned, hs.one, hs.tokens, hs.refused, ?_, hs.validated⟩
  intro h' c' hc'
  by_cases heq : h' = h
  · subst heq
    exact hc c' (by simpa only [Function.update_self] using hc')
  · exact hs.copies h' c' (by simpa only [Function.update_of_ne heq] using hc')

/-- Deleting the copy of a session that was to be deleted. -/
theorem Sound.del (hs : s.Sound) (h : String) :
  (s.del h).Sound ∧ s.Later (s.del h)
  := by
  have hcache : { s with cache := Function.update s.cache h none }.Sound := hs.cache h none (by simp)
  refine ⟨⟨hs.owned, hs.one, hs.tokens, ?_, ?_, hs.validated⟩,
    ⟨fun _ _ h => h, Later.rfl.rows, fun _ h => h, fun _ _ hh => List.mem_of_mem_filter hh⟩⟩
  · intro h' hh'
    obtain ⟨hrow, hnot⟩ := hs.refused h' hh'
    exact ⟨hrow, fun hmem => hnot (List.mem_of_mem_filter hmem)⟩
  · intro h' c hc
    obtain ⟨r, hr, htoken, huser, hdevice, hold⟩ := hcache.copies h' c hc
    refine ⟨r, hr, htoken, huser, hdevice, ?_⟩
    intro hrevoked
    rcases hold hrevoked with hmem | hle
    · refine .inl (List.mem_filter.mpr ⟨hmem, decide_eq_true ?_⟩)
      rintro rfl
      have hnone : (s.del h').cache h' = none := Function.update_self _ _ _
      rw [hnone] at hc
      cases hc
    · exact .inr hle

/-- Telling a call that a token is good, when it was not to be refused. -/
theorem Sound.validate (hs : s.Sound) {info : SessionInfo}
    (howned : s.owns info.userId info.deviceId = true) :
  { s with validated := (info, false) :: s.validated }.Sound
  := by
  refine ⟨hs.owned, hs.one, hs.tokens, hs.refused, hs.copies, ?_⟩
  intro v hv
  rcases List.mem_cons.mp hv with rfl | hv
  · exact ⟨rfl, howned⟩
  · exact hs.validated v hv

end SessionStore

/-! ### What is kept of a call -/

section
variable {s s' : SessionStore} {call call' : SessionCall}

/-- The device a session is to be issued for is one of the user. -/
def Issue.Owned (s : SessionStore) (i : Issue) : Prop := s.owns i.userId i.deviceId = true

/-- What is kept of a call: that a token was to be refused when it was looked for stays true, the
copy about to be made is that of a session, the copies to delete are those of revoked sessions,
and a session is issued for a device of its user. -/
def SessionCall.Asserts (s : SessionStore) : SessionCall → Prop
  | .validateGet h late | .validateSelect h late => late = true → h ∈ s.refused
  | .validateSet info h late => late = false ∧ s.owns info.userId info.deviceId = true
      ∧ ∃ r ∈ s.sessions.rows, r.tokenHash = h ∧ r.userId = info.userId ∧ r.deviceId = info.deviceId
  | .revokeUpdate _ andThen => ∀ i ∈ andThen, i.Owned s
  | .revokeDel left revoked andThen => (∀ i ∈ andThen, i.Owned s)
      ∧ ∀ h ∈ revoked, s.RevokedRow h ∧ (h ∈ left ∨ h ∉ s.pending)
  | .issueRevoke i | .issueInsert i => i.Owned s
  | .issueApprove _ earlier => ∀ h ∈ earlier, s.RevokedRow h
  | .bridgeInsert userId deviceId _ => s.owns userId deviceId = true
  | .done | .bridgeApprove _ | .stepUpdate _ | .stepDel _ => True

/-- What is kept of a call stays so. -/
theorem SessionCall.asserts_of_later (hlater : s.Later s') (hcall : call.Asserts s) :
  call.Asserts s'
  := by
  cases call with
  | validateGet h late | validateSelect h late => exact fun hl => hlater.refused h (hcall hl)
  | validateSet info h late =>
      obtain ⟨hlate, howned, r, hr, htoken, huser, hdevice⟩ := hcall
      obtain ⟨r', hr', htoken', huser', hdevice', -⟩ := hlater.rows r hr
      exact ⟨hlate, hlater.owns _ _ howned, r', hr', htoken'.trans htoken, huser'.trans huser,
        hdevice'.trans hdevice⟩
  | revokeUpdate r andThen => exact fun i hi => hlater.owns _ _ (hcall i hi)
  | revokeDel left revoked andThen =>
      obtain ⟨howned, hrevoked⟩ := hcall
      refine ⟨fun i hi => hlater.owns _ _ (howned i hi), ?_⟩
      intro h hh
      obtain ⟨hrow, hleft⟩ := hrevoked h hh
      exact ⟨hlater.revokedRow hrow, hleft.imp_right (fun hnot hmem => hnot (hlater.pending h hrow hmem))⟩
  | issueRevoke i | issueInsert i => exact hlater.owns _ _ hcall
  | issueApprove deviceId earlier => exact fun h hh => hlater.revokedRow (hcall h hh)
  | bridgeInsert userId deviceId bridgeId => exact hlater.owns _ _ hcall
  | done | bridgeApprove | stepUpdate | stepDel => trivial

variable [TokenHash]

/-- The next statement of a call that is not overtaken keeps the invariant, what is kept of the
call, and what no step takes back. -/
theorem SessionCall.sound_next {token : String} {id : Uuid} (hs : s.Sound) (hcall : call.Asserts s)
    (hfree : call.Untouched s) (hnext : call.next token id s = some (s', call')) :
  s'.Sound ∧ s.Later s' ∧ call'.Asserts s'
  := by
  cases call with
  | done => cases hnext
  | issueRevoke i =>
      cases hnext
      have hnone : ∀ h ∈ ([] : List String), ∃ r ∈ s.sessions.rows, r.tokenHash = h ∧ r.revoked = false :=
        by simp
      obtain ⟨hsound, hlater⟩ := hs.revoke
        (fun r => decide (r.deviceId = i.deviceId) && !r.revoked) hnone (by
          intro r hr hp hlive
          simp only [Bool.and_eq_true, decide_eq_true_eq] at hp
          exact .inr (hfree r hr hp.1 hlive))
      exact ⟨hsound, hlater, hcall⟩
  | issueInsert i =>
      simp only [SessionCall.next] at hnext
      split at hnext
      · cases hnext
        exact ⟨hs, .rfl, trivial⟩
      · rename_i s₁ hinsert
        cases hnext
        obtain ⟨hsound, hlater⟩ := hs.insert hinsert hcall hfree
        refine ⟨hsound, hlater, ?_⟩
        intro h hh
        obtain ⟨r, hr, rfl⟩ := List.mem_map.mp hh
        obtain ⟨hr, hp⟩ := List.mem_filter.mp hr
        simp only [Bool.and_eq_true, decide_eq_true_eq] at hp
        exact hlater.revokedRow ⟨r, hr, rfl, hfree r hr hp.1⟩
  | issueApprove deviceId earlier =>
      cases hnext
      obtain ⟨hsound, hlater⟩ := hs.approve deviceId (deviceId :: s.issued) (fun h hh => ⟨hcall h hh, hfree h hh⟩)
      exact ⟨hsound, hlater, trivial⟩
  | bridgeInsert userId deviceId bridgeId =>
      simp only [SessionCall.next] at hnext
      split at hnext
      · cases hnext
        exact ⟨hs, .rfl, trivial⟩
      · rename_i s₁ hinsert
        cases hnext
        obtain ⟨hsound, hlater⟩ := hs.insert hinsert hcall hfree
        exact ⟨hsound, hlater, trivial⟩
  | bridgeApprove deviceId =>
      cases hnext
      have hnone : ∀ h ∈ ([] : List String), s.RevokedRow h ∧ h ∉ s.pending := by simp
      obtain ⟨hsound, hlater⟩ := hs.approve deviceId s.issued hnone
      exact ⟨hsound, hlater, trivial⟩
  | validateGet h late =>
      simp only [SessionCall.next] at hnext
      split at hnext
      · rename_i c hget
        cases hnext
        obtain ⟨hcache, hfresh⟩ := Option.filter_eq_some_iff.mp hget
        obtain ⟨r, hr, htoken, huser, hdevice, hold⟩ := hs.copies h c hcache
        have howned : s.owns c.1.userId c.1.deviceId = true := by
          rw [← huser, ← hdevice]
          exact hs.owned r hr
        -- a copy of a session that is to be refused has expired
        have hlate : late = false := by
          by_contra hne
          obtain ⟨hrow, hnot⟩ := hs.refused h (hcall (eq_true_of_ne_false hne))
          rcases hold (hs.revoked_of_mem hrow hr htoken) with hmem | hle
          · exact hnot hmem
          · exact absurd (of_decide_eq_true hfresh).1 (not_lt.mpr hle)
        subst hlate
        exact ⟨hs.validate howned, .of_eq rfl rfl rfl rfl, trivial⟩
      · cases hnext
        exact ⟨hs, .rfl, hcall⟩
  | validateSelect h late =>
      simp only [SessionCall.next] at hnext
      split at hnext
      · cases hnext
        exact ⟨hs, .rfl, trivial⟩
      · rename_i r hfind
        cases hnext
        have hr := List.mem_of_find?_eq_some hfind
        have hp := List.find?_some hfind
        simp only [Bool.and_eq_true, decide_eq_true_eq, Bool.not_eq_true'] at hp
        refine ⟨hs, .rfl, ?_, hs.owned r hr, r, hr, hp.1.1, rfl, rfl⟩
        by_contra hne
        obtain ⟨hrow, -⟩ := hs.refused h (hcall (eq_true_of_ne_false hne))
        rw [hs.revoked_of_mem hrow hr hp.1.1] at hp
        cases hp.1.2
  | validateSet info h late =>
      obtain ⟨rfl, howned, r, hr, htoken, huser, hdevice⟩ := hcall
      cases hnext
      have hcache := hs.cache h (some (info, s.now + CACHE_TTL)) (by
        rintro c ⟨⟩
        exact ⟨r, hr, htoken, huser, hdevice, fun hrevoked => .inl (hfree r hr htoken hrevoked)⟩)
      exact ⟨hcache.validate howned, .of_eq rfl rfl rfl rfl, trivial⟩
  | stepUpdate sessionId =>
      simp only [SessionCall.next] at hnext
      split at hnext
      · cases hnext
        exact ⟨hs, .rfl, trivial⟩
      · cases hnext
        have hnone : ∀ h ∈ ([] : List String), ∃ r ∈ s.sessions.rows, r.tokenHash = h ∧ r.revoked = false :=
          by simp
        obtain ⟨hsound, hlater⟩ := hs.update (fun r => decide (r.id = sessionId))
          (fun r => { r with reauthAt := some s.now }) (fun _ => rfl)
          (fun r => ⟨rfl, rfl, rfl, fun h => h⟩) hnone (by
            intro r _ _ hlive hrevoked
            rw [hlive] at hrevoked
            cases hrevoked)
        exact ⟨hsound, hlater, trivial⟩
  | stepDel h =>
      cases hnext
      exact ⟨hs.cache h none (by simp), .of_eq rfl rfl rfl rfl, trivial⟩
  | revokeUpdate r andThen =>
      cases hnext
      have hlive : ∀ h ∈ s.live r.covers, ∃ x ∈ s.sessions.rows, x.tokenHash = h
          ∧ r.covers x = true ∧ x.revoked = false := by
        intro h hh
        obtain ⟨x, hx, rfl⟩ := List.mem_map.mp hh
        obtain ⟨hx, hp⟩ := List.mem_filter.mp hx
        simp only [Bool.and_eq_true, Bool.not_eq_true'] at hp
        exact ⟨x, hx, rfl, hp⟩
      have hhashes : ∀ h ∈ s.live r.covers, ∃ x ∈ s.sessions.rows, x.tokenHash = h ∧ x.revoked = false := by
        intro h hh
        obtain ⟨x, hx, htoken, -, hx'⟩ := hlive h hh
        exact ⟨x, hx, htoken, hx'⟩
      obtain ⟨hsound, hlater⟩ := hs.revoke (fun x => r.covers x && !x.revoked) hhashes
        (fun x hx hp _ => .inl (List.mem_map_of_mem (List.mem_filter.mpr ⟨hx, hp⟩)))
      refine ⟨hsound, hlater, fun i hi => hlater.owns _ _ (hcall i hi), ?_⟩
      intro h hh
      obtain ⟨x, hx, htoken, hcovers, hx'⟩ := hlive h hh
      refine ⟨⟨_, List.mem_map_of_mem hx, ?_⟩, .inl hh⟩
      simp [hcovers, hx', htoken]
  | revokeDel left revoked andThen =>
      obtain ⟨howned, hrevoked⟩ := hcall
      cases left with
      | cons h left =>
          cases hnext
          obtain ⟨hsound, hlater⟩ := hs.del h
          refine ⟨hsound, hlater, howned, ?_⟩
          intro h' hh'
          obtain ⟨hrow, hleft⟩ := hrevoked h' hh'
          refine ⟨hrow, ?_⟩
          rcases hleft with hmem | hnot
          · rcases List.mem_cons.mp hmem with rfl | hmem
            · exact .inr (fun hmem => of_decide_eq_true (List.mem_filter.mp hmem).2 rfl)
            · exact .inl hmem
          · exact .inr (fun hmem => hnot (List.mem_of_mem_filter hmem))
      | nil =>
          cases hnext
          obtain ⟨hsound, hlater⟩ := hs.refuse (fun h hh =>
            ⟨(hrevoked h hh).1, (hrevoked h hh).2.resolve_left List.not_mem_nil⟩)
          refine ⟨hsound, hlater, ?_⟩
          cases andThen with
          | none => trivial
          | some i => exact howned i rfl

/-- What a call begins with is kept of it; a recovery token is used by its own user, or signed
out. -/
theorem SessionStep.asserts_start {step : SessionStep} (hs : s.Sound)
    (huser : ∀ info userId deviceId ttl, step = .passwordFinish (some info) (some userId) deviceId ttl →
      info.userId = userId) (hstart : step.start s = some call) :
  call.Asserts s
  := by
  cases step with
  | issue userId deviceId ttl | issueBridge userId deviceId bridgeId =>
      simp only [SessionStep.start] at hstart
      split at hstart
      · rename_i howned
        cases hstart
        exact howned
      · cases hstart
  | validate token =>
      cases hstart
      exact of_decide_eq_true
  | markStepUp sessionId =>
      cases hstart
      trivial
  | revokeSession sessionId | revokeDevice userId deviceId | revokeAll userId keep =>
      cases hstart
      simp [SessionCall.Asserts]
  | passwordFinish auth recovery deviceId ttl =>
      simp only [SessionStep.start] at hstart
      split at hstart
      · cases hstart
      · rename_i userId hsubject
        split at hstart
        · rename_i info
          split at hstart
          · rename_i hmem
            cases hstart
            obtain ⟨v, hv, rfl⟩ := List.mem_map.mp hmem
            have hsame : v.1.userId = userId := by
              cases recovery with
              | none => exact Option.some.inj hsubject
              | some userId' =>
                  cases hsubject
                  exact huser v.1 userId deviceId ttl rfl
            rintro i ⟨⟩
            have howned := (hs.validated v hv).2
            rw [hsame] at howned
            exact howned
          · cases hstart
        · split at hstart
          · rename_i howned
            cases hstart
            rintro i ⟨⟩
            exact howned
          · cases hstart
  | drop | next => cases hstart

end

/-! ### Runs -/

section
variable [TokenHash]

/-- In runs of calls that are not overtaken the sessions keep their invariant, and the calls
theirs. -/
theorem sessions_hold_of_reaches {p : Pool SessionStore SessionCall}
    (h : sessionCalls.system.Reaches sessionsUntouched p) :
  Threads.Holds SessionStore.Sound (fun _ => SessionCall.Asserts) p
  := by
  apply Threads.holds_of_reaches _ _ _ h
  · rintro s ⟨hsessions, -, hcache, hrefused, hpending, -, hvalidated⟩
    refine ⟨?_, ?_⟩
    · constructor <;> simp [hsessions, hcache, hrefused, hvalidated, Table.empty]
    · rintro i call rfl
      trivial
  · intro p i e s' call' hp hfree hexec
    obtain ⟨hI, hA⟩ := hp
    have hothers : p.shared.Later s' → ∀ j, j ≠ i → (p.threads j).Asserts s' :=
      fun hlater j _ => (p.threads j).asserts_of_later hlater (hA j)
    have hstart : (∀ info userId deviceId ttl, e = .passwordFinish (some info) (some userId) deviceId ttl →
        info.userId = userId) → (e.start p.shared).map (fun call => (p.shared, call)) = some (s', call') →
        s'.Sound ∧ call'.Asserts s' ∧ ∀ j, j ≠ i → (p.threads j).Asserts s' := by
      intro huser hmap
      obtain ⟨call, hstart, heq⟩ := Option.map_eq_some_iff.mp hmap
      cases heq
      exact ⟨hI, SessionStep.asserts_start hI huser hstart, fun j _ => hA j⟩
    cases e with
    | next token id =>
        obtain ⟨hsound, hlater, hcall⟩ := SessionCall.sound_next hI (hA i) hfree hexec
        exact ⟨hsound, hcall, hothers hlater⟩
    | drop =>
        cases hexec
        exact ⟨hI, trivial, fun j _ => hA j⟩
    | passwordFinish auth recovery deviceId ttl =>
        cases hcall : p.threads i with
        | done =>
            rw [hcall] at hexec
            apply hstart _ hexec
            rintro info userId deviceId' ttl' ⟨⟩
            exact hfree
        | _ =>
            rw [hcall] at hexec
            cases hexec
    | issue | issueBridge | validate | markStepUp | revokeSession | revokeDevice | revokeAll =>
        cases hcall : p.threads i with
        | done =>
            rw [hcall] at hexec
            exact hstart (by intros; contradiction) hexec
        | _ =>
            rw [hcall] at hexec
            cases hexec
  · intro p x s' hp _ henv
    obtain ⟨hI, hA⟩ := hp
    have hlater : p.shared.Later s' ∧ s'.Sound := by
      cases x with
      | pass seconds =>
          cases henv
          refine ⟨.of_eq rfl rfl rfl rfl,
            ⟨hI.owned, hI.one, hI.tokens, hI.refused, ?_, hI.validated⟩⟩
          intro h c hc
          obtain ⟨r, hr, htoken, huser, hdevice, hold⟩ := hI.copies h c hc
          exact ⟨r, hr, htoken, huser, hdevice, fun hrevoked =>
            (hold hrevoked).imp_right (fun hle => hle.trans (Nat.le_add_right _ _))⟩
      | addDevice userId deviceId =>
          obtain ⟨devices, hinsert, rfl⟩ := Option.map_eq_some_iff.mp henv
          have howns : ∀ userId' deviceId', p.shared.owns userId' deviceId' = true →
              ({ p.shared with devices := devices } : SessionStore).owns userId' deviceId' = true := by
            intro userId' deviceId' howned
            obtain ⟨d, hd, huser⟩ := (Option.any_eq_true _ _).mp howned
            obtain ⟨hmem, hkey⟩ := Table.get?_eq_some_iff.mp hd
            have hd' : devices.get? deviceId' = some d :=
              Table.get?_eq_some_iff.mpr ⟨(Table.mem_insert hinsert).mpr (.inl hmem), hkey⟩
            exact (Option.any_eq_true _ _).mpr ⟨d, hd', huser⟩
          refine ⟨⟨howns, SessionStore.Later.rfl.rows, fun _ h => h, fun _ _ h => h⟩,
            ⟨fun r hr => howns _ _ (hI.owned r hr), hI.one, hI.tokens, hI.refused, hI.copies, ?_⟩⟩
          intro v hv
          exact ⟨(hI.validated v hv).1, howns _ _ (hI.validated v hv).2⟩
    exact ⟨hlater.2, fun j => (p.threads j).asserts_of_later hlater.1 (hA j)⟩

end

/-! ### A token that is revoked, and one that is replaced -/

instance (s : SessionStore) : ∀ call : SessionCall, Decidable (call.Untouched s)
  | .validateSet _ _ _ | .issueRevoke _ | .issueInsert _ | .issueApprove _ _ | .bridgeInsert _ _ _ => by
    unfold SessionCall.Untouched
    infer_instance
  | .done | .bridgeApprove _ | .validateGet _ _ | .validateSelect _ _ | .stepUpdate _ | .stepDel _
  | .revokeUpdate _ _ | .revokeDel _ _ _ => .isTrue trivial

instance (p : Pool SessionStore SessionCall) :
    ∀ l : PoolStep SessionStep SessionEvent, Decidable (sessionsUntouched p l)
  | .run i (.next _ _) => inferInstanceAs (Decidable ((p.threads i).Untouched p.shared))
  | .run _ (.passwordFinish (some info) (some userId) _ _) =>
    inferInstanceAs (Decidable (info.userId = userId))
  | .run _ (.passwordFinish none _ _ _) | .run _ (.passwordFinish (some _) none _ _)
  | .run _ (.issue _ _ _) | .run _ (.issueBridge _ _ _) | .run _ (.validate _) | .run _ (.markStepUp _)
  | .run _ (.revokeSession _) | .run _ (.revokeDevice _ _) | .run _ (.revokeAll _ _) | .run _ .drop
  | .env _ => .isTrue trivial

/-- No sessions yet. -/
def noSessions : Pool SessionStore SessionCall :=
  ⟨⟨0, .empty, .empty, fun _ => none, [], [], [], []⟩, fun _ => .done⟩

theorem init_noSessions :
  (@sessionCalls plainHash).system.init noSessions
  := ⟨⟨rfl, rfl, fun _ => rfl, rfl, rfl, rfl, rfl⟩, fun _ => rfl⟩

/-- Sign in on a device, and use the token. -/
def signIn : List (PoolStep SessionStep SessionEvent) :=
  [.env (.addDevice 1 10), .run 0 (.issue 1 10 3600), .run 0 (.next "" 0), .run 0 (.next "first" 100),
    .run 0 (.next "" 0), .run 1 (.validate "first"), .run 1 (.next "" 0), .run 1 (.next "" 0),
    .run 1 (.next "" 0)]

/-- Revoke the session, and use the token again. -/
def revokeAndTry : List (PoolStep SessionStep SessionEvent) :=
  [.run 0 (.revokeSession 100), .run 0 (.next "" 0), .run 0 (.next "" 0), .run 0 (.next "" 0),
    .run 1 (.validate "first"), .run 1 (.next "" 0), .run 1 (.next "" 0)]

/-- Sign in again on the device, and use the token from before. -/
def signInAgainAndTry : List (PoolStep SessionStep SessionEvent) :=
  [.run 0 (.issue 1 10 3600), .run 0 (.next "" 0), .run 0 (.next "second" 101), .run 0 (.next "" 0),
    .run 1 (.validate "first"), .run 1 (.next "" 0)]

end Termoso.Server
