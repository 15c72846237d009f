import Termoso.Lib.Locks
import Termoso.Lib.Threads
import Termoso.Crypto
import Termoso.Server.SignIn

/-!
# Starting over

An account whose password and recovery phrase are lost can be reset: the reset is scheduled by a code
sent by mail, and after a delay the holder of the finish token may replace the keys of the account,
and destroy what they opened.  The holder of the cancel token, or of a session, may call it off until
then.

Any number of these calls run their statements one by one between those of the others.  The clock
shows what it will, and an account may be disabled and enabled at any time.
-/

namespace Termoso.Server

/-- How long the links stay valid after the delay has passed, in seconds. -/
def LINK_GRACE : ℤ := 7 * 86400

/-! ### Accounts, and what belongs to them -/

/-- The keys of an account that a reset replaces, with their version. -/
structure AccountKeys where
  opaqueRecord : Option String
  publicKey : String
  wrappedPrivateKey : String
  recoveryWrappedPrivateKey : String
  recoveryVerifierHash : String
  keyVersion : ℤ
deriving DecidableEq

structure ResetRow extends AccountRow where
  keyVersion : ℤ
  resetScheduledFor : Option DateTime
  resetFinishHash : Option String
  resetCancelHash : Option String
deriving DecidableEq

instance : Keyed ResetRow Uuid := ⟨fun r => r.id⟩

def ResetRow.keys (r : ResetRow) : AccountKeys :=
  ⟨r.opaqueRecord, r.publicKey, r.wrappedPrivateKey, r.recoveryWrappedPrivateKey,
    r.recoveryVerifierHash, r.keyVersion⟩

/-- The tables of what belongs to an account, in the order in which a reset deletes from them. The
sealed keys are those of vault memberships, which are kept without their key. -/
inductive OwnedTable
  | personalVaults
  | historyEntries
  | sessionLogs
  | userSettings
  | liveSessions
  | sshIdKeys
  | devices
  | sealedKeys
deriving DecidableEq

def OwnedTable.all : List OwnedTable :=
  [.personalVaults, .historyEntries, .sessionLogs, .userSettings, .liveSessions, .sshIdKeys, .devices,
    .sealedKeys]

structure OwnedRow where
  table : OwnedTable
  id : Uuid
  userId : Uuid
  content : String
deriving DecidableEq

/-- The keys of the accounts, the sessions, and what belongs to the accounts. -/
structure Assets where
  keys : List (Uuid × AccountKeys)
  sessions : List SessionRow
  owned : List OwnedRow
deriving DecidableEq

/-! ### The store -/

/-- What happens to the reset of an account. -/
inductive ResetEvent
  | scheduled (finishHash : String) (scheduledFor : DateTime)
  | cancelled
  | finished
deriving DecidableEq

/-- The keys and data of an account were replaced: with which finish token, what the clock showed,
whether the account was disabled, what had happened to its reset, the latest first, the keys it has
since, and the rows that were deleted. -/
structure Replacement where
  userId : Uuid
  tokenHash : String
  clock : DateTime
  disabled : Bool
  log : List ResetEvent
  keys : AccountKeys
  gone : List OwnedRow
deriving DecidableEq

/-- The database, the cache, and the rows of users that are locked. Beside them stand the hashes
of the finish tokens drawn, what happened to the resets, the replacements, the keys at the
beginning, and every row that was ever there. -/
structure ResetStore where
  now : DateTime
  users : Table ResetRow
  sessions : Table SessionRow
  owned : List OwnedRow
  /-- The flows of requests, by token; that of an unknown email names nobody. -/
  flows : String → Option (Option Uuid)
  codes : String → CodeCache Uuid
  locks : HeldLocks Uuid
  drawn : List String
  log : Uuid → List ResetEvent
  replaced : List Replacement
  firstKeys : List (Uuid × AccountKeys)
  stored : List OwnedRow

instance : Lockable Uuid := ⟨fun l l' => decide (l = l')⟩

namespace ResetStore

variable (s : ResetStore)

def assets : Assets where
  keys := s.users.rows.map (fun u => (u.id, u.keys))
  sessions := s.sessions.rows
  owned := s.owned

/-- Schedule a reset. -/
def schedule (userId : Uuid) (scheduledFor : DateTime) (finishHash cancelHash : String) :
    ResetStore :=
  { s with
    users := s.users.set userId (fun u =>
      { u with
        resetScheduledFor := some scheduledFor, resetFinishHash := some finishHash
        resetCancelHash := some cancelHash }) (fun _ => rfl)
    drawn := finishHash :: s.drawn
    log := Function.update s.log userId (.scheduled finishHash scheduledFor :: s.log userId) }

/-- Clear the reset of an account. -/
def clearReset (userId : Uuid) : ResetStore :=
  { s with
    users := s.users.set userId (fun u =>
      { u with resetScheduledFor := none, resetFinishHash := none, resetCancelHash := none })
      (fun _ => rfl)
    log := Function.update s.log userId (.cancelled :: s.log userId) }

theorem key_revoked (r : SessionRow) : key { r with revoked := true } = key r := rfl

/-- Mark the sessions of a user as revoked. -/
def revokeAll (userId : Uuid) : ResetStore :=
  { s with
    sessions := s.sessions.update
      (fun r => (Revocation.all userId none).covers r && !r.revoked)
      (fun r => { r with revoked := true }) key_revoked }

/-- Put a row beside those there are. -/
def putOwned (row : OwnedRow) : ResetStore :=
  { s with owned := s.owned ++ [row], stored := row :: s.stored }

end ResetStore

/-! ### Requests -/

inductive Platform
  | windows
  | linux
  | macos
  | android
  | ios
  | web
deriving DecidableEq

structure ResetDevice extends DeviceInfo where
  name : String
  platform : Platform
  appVersion : String
deriving DecidableEq

structure AccountKeysUpload where
  publicKey : String
  wrappedPrivateKey : String
  recoveryWrappedPrivateKey : String
  recoveryVerifier : String
  personalVaultSealedKey : String
deriving DecidableEq

structure StartOverConfirmRequest where
  requestToken : String
  code : String
  mfaCode : Option String
deriving DecidableEq

structure StartOverFinishRequest where
  token : String
  opaqueUpload : String
  keys : AccountKeysUpload
  device : ResetDevice
deriving DecidableEq

inductive ResetError
  | tokenExpired
  /-- The reset can be completed only later. -/
  | notYet (scheduledFor : DateTime)
  | accountDisabled
  | code (e : CodeError)
  | mfaRequired
  | invalidMfa
  | notFound
  | badRequest (message : String)
  | clientUpdateRequired
  | internal
deriving DecidableEq

inductive ResetAnswer
  | noContent
  | scheduled (scheduledFor : DateTime)
  | started (opaqueResponse : String)
  | authenticated (token : String) (deviceId : Uuid)
deriving DecidableEq

/-- How long a reset is delayed, how long a session lives, and the oldest client let in. -/
structure ResetConfig where
  delay : ℤ
  sessionTtl : ℕ
  minClientVersion : String

/-- The bytes of a base64 text of 32 bytes. -/
def isArray32 [Primitives] (s : String) : Bool := (Primitives.unb64 s).any (fun b => b.length = 32)

def validateWrapped [Primitives] (name v : String) : Except ResetError Unit :=
  match Primitives.unb64 v with
  | none => .error (.badRequest (name ++ " is not valid base64"))
  | some bytes =>
    if bytes.length < 32 ∨ bytes.length > 4096 then
      .error (.badRequest (name ++ " has an unexpected length"))
    else .ok ()

def validateKeys [Primitives] (k : AccountKeysUpload) : Except ResetError Unit := do
  if !isArray32 k.publicKey then throw (.badRequest "public_key must be 32 bytes")
  if !isArray32 k.recoveryVerifier then throw (.badRequest "recovery_verifier must be 32 bytes")
  validateWrapped "wrapped_private_key" k.wrappedPrivateKey
  validateWrapped "recovery_wrapped_private_key" k.recoveryWrappedPrivateKey
  validateWrapped "personal_vault_sealed_key" k.personalVaultSealedKey

def validateDevice (d : ResetDevice) : Except ResetError Unit := do
  if d.name.toList.all Char.isWhitespace ∨ d.name.length > 120 then
    throw (.badRequest "Invalid device name")
  if d.appVersion.length > 64 then throw (.badRequest "Invalid app version")

/-- The numbers of a version; anything else, and `0.0.0`, is none. -/
def semverTuple (v : String) : Option (ℕ × ℕ × ℕ) :=
  let trimmed := ((v.toList.dropWhile Char.isWhitespace).reverse.dropWhile Char.isWhitespace).reverse
  let core := (trimmed.dropWhile (fun c => c = 'v')).takeWhile (fun c => c ≠ '-' ∧ c ≠ '+')
  match (core.splitOn '.').map (fun part =>
      (String.ofList part).toNat?.filter (fun n => decide (n < 2 ^ 64))) with
  | some a :: some b :: some c :: _ => if (a, b, c) = (0, 0, 0) then none else some (a, b, c)
  | _ => none

def olderThan (v w : ℕ × ℕ × ℕ) : Bool :=
  decide (v.1 < w.1 ∨ v.1 = w.1 ∧ (v.2.1 < w.2.1 ∨ v.2.1 = w.2.1 ∧ v.2.2 < w.2.2))

/-- Refuse clients that are too old. -/
def checkClientVersion (cfg : ResetConfig) (d : ResetDevice) : Except ResetError Unit :=
  if d.platform = .web then .ok ()
  else
    match semverTuple d.appVersion, semverTuple cfg.minClientVersion with
    | some client, some min =>
      if olderThan client min then .error .clientUpdateRequired else .ok ()
    | _, _ => .ok ()

/-- Check a request to finish: the record of the new password. -/
def StartOverFinishRequest.validate [Primitives] [Opaque] (cfg : ResetConfig)
    (req : StartOverFinishRequest) : Except ResetError String := do
  validateKeys req.keys
  validateDevice req.device
  checkClientVersion cfg req.device
  match Opaque.registrationFinish req.opaqueUpload with
  | none => throw (.badRequest "Invalid registration")
  | some record => pure record

/-! ### Calls -/

/-- A request to finish a reset, with the user and the record it was found to be for. -/
structure Finishing where
  req : StartOverFinishRequest
  user : ResetRow
  record : String
  /-- What the clock showed when the reset was found to be ready. -/
  ready : DateTime

/-- What the holder of a finish token asks for. -/
inductive Readied
  | passwordStart (opaqueRequest : String)
  | finish (req : StartOverFinishRequest)
deriving DecidableEq

/-- How far a call has come. -/
inductive ResetCall
  | idle
  | done (answer : Except ResetError ResetAnswer)
  | confirmFlow (req : StartOverConfirmRequest)
  | confirmUser (req : StartOverConfirmRequest) (userId : Uuid)
  | confirmVerify (req : StartOverConfirmRequest) (user : ResetRow) (call : CodeCall Uuid)
  | confirmDel (req : StartOverConfirmRequest) (user : ResetRow)
  | confirmMfa (req : StartOverConfirmRequest) (user : ResetRow)
  | confirmCheck (userId : Uuid)
  /-- About to read the clock. -/
  | confirmNow (userId : Uuid)
  | confirmUpdate (userId : Uuid) (scheduledFor : DateTime)
  | cancelSelect (token : String)
  | cancelUser (userId : Uuid)
  | accountUser (userId : Uuid)
  | clearUpdate (userId : Uuid)
  | readySelect (token : String) (what : Readied)
  | readyUser (token : String) (userId : Uuid) (what : Readied)
  /-- About to read the clock a second time. -/
  | readyNow (token : String) (user : ResetRow) (what : Readied)
  | finishRevoke (f : Finishing)
  | finishUpdate (f : Finishing)
  /-- About to delete from some tables, after the deletion of rows from others. -/
  | finishDelete (f : Finishing) (left : List OwnedTable) (gone : List OwnedRow)
  | finishCommit (f : Finishing) (gone : List OwnedRow)
  | finishUser (userId : Uuid) (device : ResetDevice)
  | finishDevice (user : ResetRow) (device : ResetDevice)
  /-- About to write a device, which is a new one or not. -/
  | finishWrite (userId deviceId : Uuid) (fresh : Bool)
  | finishSignOut (userId deviceId : Uuid)
  | finishInsert (userId deviceId : Uuid)
  /-- Copies are dropped, and the event is written, published and mailed. -/
  | rest (answer : ResetAnswer)

/-- What a statement draws, and how a second factor turns out. -/
structure Drawn where
  finish : String
  cancel : String
  id : Uuid
  id' : Uuid
  ok : Bool

/-- A call is made, runs its next statement, or fails at it. -/
inductive ResetStep
  | confirm (req : StartOverConfirmRequest)
  | cancel (token : String)
  | cancelAuthenticated (userId : Uuid)
  | passwordStart (token opaqueRequest : String)
  | finish (req : StartOverFinishRequest)
  | next (d : Drawn)
  | fail

/-- What the surroundings may do. -/
inductive ResetEnv
  | clock (now : DateTime)
  | disable (userId : Uuid) (disabled : Bool)
  /-- A reset of an account is requested; the code is sent by mail. -/
  | request (token : String) (userId : Option Uuid) (codes : CodeCache Uuid)
  | signIn (r : SessionRow)
  | store (row : OwnedRow)

/-- What a call begins with. -/
def ResetStep.start : ResetStep → Option ResetCall
  | .confirm req => some (.confirmFlow req)
  | .cancel token => some (.cancelSelect token)
  | .cancelAuthenticated userId => some (.accountUser userId)
  | .passwordStart token opaqueRequest => some (.readySelect token (.passwordStart opaqueRequest))
  | .finish req => some (.readySelect req.token (.finish req))
  | .next _ | .fail => none

/-- A call, and whether one of its statements has changed keys, sessions or data. -/
structure ResetThread where
  call : ResetCall
  touched : Bool

section
variable [TokenHash] [Primitives] [Opaque] (cfg : ResetConfig)

/-- The row of a user whose keys are replaced. -/
def Finishing.newRow (f : Finishing) (u : ResetRow) : ResetRow :=
  { u with
    opaqueRecord := some f.record, publicKey := f.req.keys.publicKey
    wrappedPrivateKey := f.req.keys.wrappedPrivateKey
    recoveryWrappedPrivateKey := f.req.keys.recoveryWrappedPrivateKey
    recoveryVerifierHash := TokenHash.hashToken f.req.keys.recoveryVerifier
    keyVersion := u.keyVersion + 1
    resetScheduledFor := none, resetFinishHash := none, resetCancelHash := none }

/-- The personal vault that is created, and its sealed key. -/
def Finishing.newVault (f : Finishing) (vaultId : Uuid) : List OwnedRow :=
  [⟨.personalVaults, vaultId, f.user.id, "Personal"⟩,
    ⟨.sealedKeys, vaultId, f.user.id, f.req.keys.personalVaultSealedKey⟩]

/-- Replace the keys of an account, delete what was deleted, and create a personal vault. -/
def ResetStore.commitFinish (s : ResetStore) (thread : ℕ) (f : Finishing) (gone : List OwnedRow)
    (vaultId : Uuid) (user : ResetRow) : ResetStore :=
  { s with
    users := s.users.set user.id f.newRow (fun _ => rfl)
    sessions := s.sessions.delete (fun r =>
      gone.any (fun row => decide (row.table = .devices ∧ row.id = r.deviceId)))
    owned := s.owned.filter (fun row => decide (row ∉ gone)) ++ f.newVault vaultId
    locks := s.locks.release thread
    log := Function.update s.log user.id (.finished :: s.log user.id)
    replaced := ⟨user.id, TokenHash.hashToken f.req.token, s.now, user.disabled, s.log user.id,
      (f.newRow user).keys, gone⟩ :: s.replaced
    stored := f.newVault vaultId ++ s.stored }

/-- What a call goes on with when a code was verified or not. -/
def ResetCall.afterVerify (req : StartOverConfirmRequest) (user : ResetRow) (call : CodeCall Uuid) :
    ResetCall :=
  match call with
  | .done (some (.ok _)) => .confirmDel req user
  | .done (some (.error e)) => .done (.error (.code e))
  | .done none => .done (.error .internal)
  | call => .confirmVerify req user call

/-- What a call goes on with when the reset was found to be ready. -/
def ResetCall.afterReady (user : ResetRow) (ready : DateTime) : Readied → ResetCall
  | .passwordStart request =>
    match Opaque.registrationStart user.email request with
    | none => .done (.error (.badRequest "Invalid registration"))
    | some response => .done (.ok (.started response))
  | .finish req =>
    match req.validate cfg with
    | .error e => .done (.error e)
    | .ok record => .finishRevoke ⟨req, user, record, ready⟩

/-- The next statement of a call. -/
def ResetCall.next (thread : ℕ) (d : Drawn) (s : ResetStore) :
    ResetCall → Option (ResetStore × ResetCall)
  | .idle | .done _ => none
  | .confirmFlow req =>
    match s.flows req.requestToken with
    | none => some (s, .done (.error .tokenExpired))
    | some none => some (s, .done (.error (.code .invalidCode)))
    | some (some userId) => some (s, .confirmUser req userId)
  | .confirmUser req userId =>
    match s.users.get? userId with
    | none => some (s, .done (.error .notFound))
    | some user =>
      if user.disabled then some (s, .done (.error .accountDisabled))
      else some (s, .confirmVerify req user (.verifyIncr req.code))
  | .confirmVerify req user call =>
    (call.next thread "" (s.codes req.requestToken)).map (fun r =>
      ({ s with codes := Function.update s.codes req.requestToken r.1 },
        ResetCall.afterVerify req user r.2))
  | .confirmDel req user =>
    some ({ s with flows := Function.update s.flows req.requestToken none }, .confirmMfa req user)
  | .confirmMfa req user =>
    if user.totpEnabled ∨ (s.users.get? user.id).any (fun u => u.passkeys > 0) then
      match req.mfaCode with
      | none => some (s, .done (.error .mfaRequired))
      | some _ => some (s, .confirmCheck user.id)
    else some (s, .confirmNow user.id)
  | .confirmCheck userId =>
    if d.ok then some (s, .confirmNow userId) else some (s, .done (.error .invalidMfa))
  | .confirmNow userId => some (s, .confirmUpdate userId (s.now + cfg.delay))
  | .confirmUpdate userId scheduledFor =>
    let finishHash := TokenHash.hashToken d.finish
    if s.locks.waits thread userId ∨ finishHash ∈ s.drawn then none
    else if (s.users.get? userId).isNone then some (s, .done (.error .internal))
    else
      some (s.schedule userId scheduledFor finishHash (TokenHash.hashToken d.cancel),
        .rest (.scheduled scheduledFor))
  | .cancelSelect token =>
    match s.users.rows.find? (fun u =>
      decide (u.resetCancelHash = some (TokenHash.hashToken token))) with
    | none => some (s, .done (.error .tokenExpired))
    | some user => some (s, .cancelUser user.id)
  | .cancelUser userId =>
    match s.users.get? userId with
    | none => some (s, .done (.error .notFound))
    | some user =>
      if user.resetScheduledFor.any (fun scheduledFor => s.now < scheduledFor + LINK_GRACE) then
        some (s, .clearUpdate userId)
      else some (s, .done (.error .tokenExpired))
  | .accountUser userId =>
    match s.users.get? userId with
    | none => some (s, .done (.error .notFound))
    | some user =>
      if user.resetScheduledFor.isNone then some (s, .done (.ok .noContent))
      else some (s, .clearUpdate userId)
  | .clearUpdate userId =>
    if s.locks.waits thread userId then none else some (s.clearReset userId, .rest .noContent)
  | .readySelect token what =>
    match s.users.rows.find? (fun u =>
      decide (u.resetFinishHash = some (TokenHash.hashToken token))) with
    | none => some (s, .done (.error .tokenExpired))
    | some user => some (s, .readyUser token user.id what)
  | .readyUser token userId what =>
    match s.users.get? userId with
    | none => some (s, .done (.error .notFound))
    | some user =>
      if user.resetScheduledFor.any (fun scheduledFor => s.now < scheduledFor + LINK_GRACE) then
        some (s, .readyNow token user what)
      else some (s, .done (.error .tokenExpired))
  | .readyNow _ user what =>
    match user.resetScheduledFor with
    | none => some (s, .done (.error .tokenExpired))
    | some scheduledFor =>
      if s.now ≥ scheduledFor then some (s, ResetCall.afterReady cfg user s.now what)
      else some (s, .done (.error (.notYet scheduledFor)))
  | .finishRevoke f => some (s.revokeAll f.user.id, .finishUpdate f)
  | .finishUpdate f =>
    if s.locks.waits thread f.user.id then none
    else if (s.users.get? f.user.id).bind ResetRow.resetFinishHash
        = some (TokenHash.hashToken f.req.token) then
      some ({ s with locks := s.locks.take thread [f.user.id] }, .finishDelete f OwnedTable.all [])
    else some (s, .done (.error .tokenExpired))
  | .finishDelete f (table :: left) gone =>
    some (s, .finishDelete f left
      (s.owned.filter (fun row => decide (row.table = table ∧ row.userId = f.user.id)) ++ gone))
  | .finishDelete f [] gone => some (s, .finishCommit f gone)
  | .finishCommit f gone =>
    (s.users.get? f.user.id).map (fun user =>
      (s.commitFinish thread f gone d.id user, .finishUser f.user.id f.req.device))
  | .finishUser userId device =>
    match s.users.get? userId with
    | none => some (s, .done (.error .notFound))
    | some user => some (s, .finishDevice user device)
  | .finishDevice user device =>
    match device.clientDeviceId with
    | none => some (s, .finishWrite user.id d.id true)
    | some cid =>
      match s.owned.find? (fun row => decide (row.table = .devices ∧ row.id = cid)) with
      | none => some (s, .finishWrite user.id cid true)
      | some row =>
        if row.userId = user.id then some (s, .finishWrite user.id cid false)
        else some (s, .finishWrite user.id d.id true)
  | .finishWrite userId deviceId fresh =>
    if fresh then
      if s.owned.any (fun row => decide (row.table = .devices ∧ row.id = deviceId)) then
        some (s, .done (.error .internal))
      else some (s.putOwned ⟨.devices, deviceId, userId, ""⟩, .finishSignOut userId deviceId)
    else some (s, .finishSignOut userId deviceId)
  | .finishSignOut userId deviceId =>
    some ({ s with
      sessions := s.sessions.update (fun r => decide (r.deviceId = deviceId) && !r.revoked)
        (fun r => { r with revoked := true }) ResetStore.key_revoked },
      .finishInsert userId deviceId)
  | .finishInsert userId deviceId =>
    match s.sessions.insert ⟨d.id, userId, deviceId, TokenHash.hashToken d.finish,
      s.now.toNat + cfg.sessionTtl, none, some s.now.toNat, false⟩ with
    | none => some (s, .done (.error .internal))
    | some sessions =>
      some ({ s with sessions := sessions }, .rest (.authenticated d.finish deviceId))
  | .rest answer => some (s, .done (.ok answer))

/-- A step of a call. One that fails gives back its locks. -/
def ResetThread.exec (thread : ℕ) (step : ResetStep) (s : ResetStore) (t : ResetThread) :
    Option (ResetStore × ResetThread) :=
  match step, t.call with
  | .next d, call =>
    (call.next cfg thread d s).map (fun r =>
      (r.1, ⟨r.2, t.touched || decide (r.1.assets ≠ s.assets)⟩))
  | step, .idle => step.start.map (fun call => (s, ⟨call, t.touched⟩))
  | .fail, .done _ => none
  | .fail, _ =>
    some ({ s with locks := s.locks.release thread }, ⟨.done (.error .internal), t.touched⟩)
  | _, _ => none

/-- The calls about resets. At first no reset is scheduled. -/
def resetCalls : Threads ResetStore ResetThread ResetStep ResetEnv where
  init s := (∀ u ∈ s.users.rows, u.resetScheduledFor = none ∧ u.resetFinishHash = none)
    ∧ s.locks = [] ∧ s.drawn = [] ∧ (∀ id, s.log id = []) ∧ s.replaced = []
    ∧ s.firstKeys = s.assets.keys ∧ s.stored = s.owned
  start t := t = ⟨.idle, false⟩
  exec := ResetThread.exec cfg
  env
    | .clock now, s => some { s with now := now }
    | .disable userId disabled, s =>
      if s.locks.blocks userId then none
      else
        some { s with
          users := s.users.set userId (fun u => { u with disabled := disabled }) (fun _ => rfl) }
    | .request token userId codes, s =>
      some { s with
        flows := Function.update s.flows token (some userId)
        codes := Function.update s.codes token codes }
    | .signIn r, s => (s.sessions.insert r).map (fun sessions => { s with sessions := sessions })
    | .store row, s => some (s.putOwned row)

end

end Termoso.Server
