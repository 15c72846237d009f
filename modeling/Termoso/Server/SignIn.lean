import Termoso.Server.Roles
import Termoso.Server.Sessions

/-!
# Signing in, and changing the password

Signing in takes several requests.  What one request leaves for the next is a flow in the cache,
under a token and with a time it expires at: a login whose password is to be checked, a sign-in that
waits for a second factor, one that waits for the approval of its device, and a recovery whose phrase
was right.  A password change replaces the credentials of the user in one transaction, signs out every
session, and issues one.  It leaves the flows that are under way where they are.

Any number of calls run these statements one by one between those of the others.  In runs in which no
flow of the user is under way when a password change returns, and each recovery token is used by one
call at a time, no session is issued by what began before the change.
-/

namespace Termoso.Server

def LOGIN_TTL : ℕ := 120
def MFA_TTL : ℕ := 600
def APPROVAL_TTL : ℕ := 900
def RECOVERY_TTL : ℕ := 900

/-! ### Credentials -/

/-- The password protocol, on the side of the server. -/
class Opaque where
  /-- The response to a request, and the state to check the answer against. -/
  loginStart : String → Option String → String → Option (String × String)
  loginFinish : String → String → String → Bool
  registrationStart : String → String → Option String
  registrationFinish : String → Option String

structure AccountRow where
  id : Uuid
  email : String
  opaqueRecord : Option String
  wrappedPrivateKey : String
  publicKey : String
  recoveryVerifierHash : String
  recoveryWrappedPrivateKey : String
  totpEnabled : Bool
  passkeys : ℕ
  emailVerified : Bool
  disabled : Bool
deriving DecidableEq

instance : Keyed AccountRow Uuid := ⟨AccountRow.id⟩

/-- New recovery material. -/
structure RecoveryRotate where
  recoveryVerifier : String
  recoveryWrappedPrivateKey : String
deriving DecidableEq

/-- A device that signs in; it may have an id of its own. -/
structure DeviceInfo where
  clientDeviceId : Option Uuid
deriving DecidableEq

structure PasswordSetupFinishRequest where
  recoveryToken : Option String
  opaqueUpload : String
  wrappedPrivateKey : String
  newRecovery : Option RecoveryRotate
  device : Option DeviceInfo
deriving DecidableEq

/-! ### Flows -/

structure LoginFlow where
  email : String
  userId : Option Uuid
  serverState : String
  device : DeviceInfo
  ssoVerified : Bool
deriving DecidableEq

structure MfaFlow where
  userId : Uuid
  device : Option DeviceInfo
  ssoVerified : Bool
  reauthSession : Option Uuid
deriving DecidableEq

/-- A device that waits for a code. -/
structure ApprovalFlow where
  userId : Uuid
  deviceId : Uuid
  codeHash : String
deriving DecidableEq

structure RecoveryFlow where
  userId : Uuid
deriving DecidableEq

/-- Whom completing a flow signs in. -/
def MfaFlow.subject (f : MfaFlow) : Option Uuid :=
  if f.reauthSession.isNone then some f.userId else none

def ApprovalFlow.subject (f : ApprovalFlow) : Option Uuid := some f.userId

def RecoveryFlow.subject (f : RecoveryFlow) : Option Uuid := some f.userId

/-- When a flow was begun: after how many password changes of the user had returned, and with which
version of the credentials. -/
structure Stamp where
  changes : ℕ
  version : ℕ
deriving DecidableEq

structure FlowRow (α : Type) where
  token : String
  flow : α
  expiresAt : ℕ
  stamp : Stamp
deriving DecidableEq

instance {α : Type} : Keyed (FlowRow α) String := ⟨FlowRow.token⟩

@[simp] theorem key_account (u : AccountRow) : key u = u.id := rfl
@[simp] theorem key_flow {α : Type} (f : FlowRow α) : key f = f.token := rfl

/-- A session that is not revoked, of a device that is no bridge. -/
structure LiveSession where
  userId : Uuid
  deviceId : Uuid
deriving DecidableEq

/-- A session that was issued by completing a flow: when the flow was begun, and how many password
changes of the user had returned when it was issued, with the version the last one left. -/
structure Issued where
  userId : Uuid
  stamp : Stamp
  changes : ℕ
  retired : ℕ
deriving DecidableEq

structure SignInSettings where
  newDeviceEmailApproval : Bool
  mailer : Bool
  /-- The users whose policy asks for the approval of devices. -/
  forced : List Uuid
deriving DecidableEq

/-- The accounts, devices and sessions, and the cache of flows. Beside them stand the tokens that
were drawn, how many password changes of a user have returned, the version of the credentials and
the one the last of these changes left, the sessions issued by completing a flow, and the recovery
tokens of the password changes that have returned. -/
structure SignInStore where
  now : ℕ
  users : Table AccountRow
  devices : Table DeviceRow
  sessions : List LiveSession
  settings : SignInSettings
  logins : Table (FlowRow LoginFlow)
  mfas : Table (FlowRow MfaFlow)
  approvals : Table (FlowRow ApprovalFlow)
  recoveries : Table (FlowRow RecoveryFlow)
  drawn : List String
  changes : Uuid → ℕ
  version : Uuid → ℕ
  retired : Uuid → ℕ
  issued : List Issued
  completed : List String

/-- Write a flow, in the place of the one under the token. -/
def setFlow {α : Type} (t : Table (FlowRow α)) (row : FlowRow α) : Table (FlowRow α) :=
  t.upsert row (fun r => { row with token := r.token }) (fun _ => rfl)

namespace SignInStore

variable (s : SignInStore)

/-- Read a flow that has not expired. -/
def getFlow {α : Type} (t : Table (FlowRow α)) (token : String) : Option (FlowRow α) :=
  (t.get? token).filter (fun f => decide (s.now < f.expiresAt))

/-- What a flow is stamped with that begins now. -/
def stamp (userId : Uuid) : Stamp := ⟨s.changes userId, s.version userId⟩

theorem key_approved (d : DeviceRow) : key { d with approved := true } = key d := rfl

/-- Issue a session for a device, in the place of its earlier ones. -/
def issue (userId deviceId : Uuid) : SignInStore :=
  { s with
    sessions := ⟨userId, deviceId⟩ :: s.sessions.filter (fun x => decide (x.deviceId ≠ deviceId))
    devices := s.devices.set deviceId (fun d => { d with approved := true }) key_approved }

/-- Note a session that was issued by completing a flow. -/
def noteIssued (userId : Uuid) (stamp : Stamp) : SignInStore :=
  { s with issued := ⟨userId, stamp, s.changes userId, s.retired userId⟩ :: s.issued }

/-- Find or add the device that signs in; a new one may get the id drawn. -/
def upsertDevice (userId : Uuid) (info : DeviceInfo) (drawn : Uuid) :
    Option (Uuid × Bool × SignInStore) :=
  let add (id : Uuid) : Option (Uuid × Bool × SignInStore) :=
    (s.devices.insert ⟨id, userId, false⟩).map (fun devices => (id, true, { s with devices := devices }))
  match info.clientDeviceId with
  | none => add drawn
  | some cid =>
    match s.devices.get? cid with
    | some d => if d.userId = userId then some (cid, false, s) else add drawn
    | none => add cid

/-- Replace the credentials of a user. -/
def setCredentials (userId : Uuid) (record wrappedPrivateKey : String)
    (newRecovery : Option (String × String)) : SignInStore :=
  { s with
    users := s.users.set userId (fun u =>
      { u with
        opaqueRecord := some record
        wrappedPrivateKey := wrappedPrivateKey
        recoveryVerifierHash := (newRecovery.map Prod.fst).getD u.recoveryVerifierHash
        recoveryWrappedPrivateKey := (newRecovery.map Prod.snd).getD u.recoveryWrappedPrivateKey })
      (fun _ => rfl)
    version := Function.update s.version userId (s.version userId + 1) }

/-- Note that a password change has returned, which left a version of the credentials. -/
def noteChanged (userId : Uuid) (version : ℕ) (token : Option String) : SignInStore :=
  { s with
    changes := Function.update s.changes userId (s.changes userId + 1)
    retired := Function.update s.retired userId (max (s.retired userId) version)
    completed := token.toList ++ s.completed }

end SignInStore

/-! ### Calls -/

inductive SignInError
  | badRequest (msg : String)
  | invalidCredentials
  | accountDisabled
  | tokenExpired
  | invalidCode
  | invalidMfa
  | unauthorized
  | notFound (what : String)
deriving DecidableEq

inductive SignInAnswer
  | loginStarted (loginId opaqueResponse : String)
  | mfaRequired (mfaToken : String)
  | deviceApprovalRequired (approvalToken : String)
  | reauthenticated (sessionId : Uuid)
  | authenticated (userId deviceId : Uuid)
  | codeSent (code : String)
  | recoveryStarted (recoveryToken recoveryWrappedPrivateKey publicKey : String)
  | passwordStarted (opaqueResponse : String)
deriving DecidableEq

/-- A sign-in whose password was right, from when its flow was begun. -/
structure SignIn where
  user : AccountRow
  device : DeviceInfo
  ssoVerified : Bool
  mfaDone : Bool
  stamp : Stamp

/-- A password change: who is signed in on which device, the request, the user it is about, with the
stamp of the recovery flow when there is one, and the version it left. -/
structure PasswordChange where
  auth : Option (Uuid × Uuid)
  req : PasswordSetupFinishRequest
  userId : Uuid
  stamp : Option Stamp
  version : ℕ

/-- How far a call has come. -/
inductive SignInCall
  | done (answer : Option (Except SignInError SignInAnswer))
  | loginUser (email request : String) (device : DeviceInfo) (ssoVerified : Bool)
  | loginPut (flow : LoginFlow) (response : String) (stamp : Stamp)
  | loginTake (loginId finalization : String)
  | loginLoad (flow : LoginFlow) (userId : Uuid) (stamp : Stamp)
  | mfaCount (c : SignIn)
  | mfaPut (c : SignIn)
  | deviceUpsert (c : SignIn)
  | deviceApproved (c : SignIn) (deviceId : Uuid) (isNew : Bool)
  | approvalPut (c : SignIn) (deviceId : Uuid)
  | build (userId deviceId : Uuid) (stamp : Stamp)
  | mfaGet (token : String)
  | mfaLoad (token : String) (flow : MfaFlow) (stamp : Stamp)
  | mfaCheck (token : String) (flow : MfaFlow) (user : AccountRow) (stamp : Stamp)
  | mfaDel (token : String) (flow : MfaFlow) (user : AccountRow) (stamp : Stamp)
  | approveGet (token code : String)
  | approveDel (token : String) (flow : ApprovalFlow) (stamp : Stamp)
  | approveLoad (flow : ApprovalFlow) (stamp : Stamp)
  | resendGet (token : String)
  | resendSet (token : String) (flow : ApprovalFlow) (stamp : Stamp)
  | recoveryUser (email verifier : String)
  | recoveryPut (user : AccountRow) (stamp : Stamp)
  | startGet (token request : String)
  | startLoad (userId : Uuid) (request : String)
  | finishSubject (req : PasswordSetupFinishRequest) (auth : Option (Uuid × Uuid))
  | finishLoad (c : PasswordChange)
  | finishCommit (c : PasswordChange) (record : String)
  | finishDel (c : PasswordChange)
  | finishDevice (c : PasswordChange)
  | finishRevoke (c : PasswordChange) (deviceId : Uuid)
  | finishReload (c : PasswordChange) (deviceId : Uuid)
  | finishBuild (c : PasswordChange) (deviceId : Uuid)
  | finishReturn (c : PasswordChange) (deviceId : Uuid)

/-- A call is made, drops out, or runs its next statement. A call that another check refuses drops
out. For a statement a token, a code and the id of a device may be drawn, and the second factor
may check out. -/
inductive SignInStep
  | loginStart (email request : String) (device : DeviceInfo) (ssoVerified : Bool)
  | loginFinish (loginId finalization : String)
  | mfaVerify (token : String)
  | deviceApprove (token code : String)
  | deviceApproveResend (token : String)
  | recoveryStart (email verifier : String)
  | passwordStart (auth : Option Uuid) (token : Option String) (request : String)
  | passwordFinish (auth : Option (Uuid × Uuid)) (req : PasswordSetupFinishRequest)
  | drop
  | next (token code : String) (deviceId : Uuid) (ok : Bool)

/-- What else happens: time passes, somebody registers, a second factor is asked for to confirm a
session, or the settings change. -/
inductive SignInEvent
  | pass (seconds : ℕ)
  | register (user : AccountRow)
  | reauth (token : String) (flow : MfaFlow) (sessionId : Uuid)
  | configure (settings : SignInSettings)

section
variable [Names] [TokenHash] [Opaque]

/-- End with an error. -/
def SignInCall.fail (e : SignInError) : SignInCall := .done (some (.error e))

/-- What a call begins with. -/
def SignInStep.start : SignInStep → Option SignInCall
  | .loginStart email request device ssoVerified =>
    match normalizeEmail email with
    | none => some (.fail (.badRequest "Invalid email"))
    | some email => some (.loginUser email request device ssoVerified)
  | .loginFinish loginId finalization => some (.loginTake loginId finalization)
  | .mfaVerify token => some (.mfaGet token)
  | .deviceApprove token code => some (.approveGet token code)
  | .deviceApproveResend token => some (.resendGet token)
  | .recoveryStart email verifier =>
    match normalizeEmail email with
    | none => some (.fail (.badRequest "Invalid email"))
    | some email => some (.recoveryUser email verifier)
  | .passwordStart auth token request =>
    match auth, token with
    | _, some token => some (.startGet token request)
    | some userId, none => some (.startLoad userId request)
    | none, none => some (.fail .unauthorized)
  | .passwordFinish auth req => some (.finishSubject req auth)
  | .drop | .next _ _ _ _ => none

/-- The account with an email. -/
def SignInStore.byEmail (s : SignInStore) (email : String) : Option AccountRow :=
  s.users.rows.find? (fun u => decide (Names.toLowercase u.email = Names.toLowercase email))

/-- Write a flow under a new token. -/
def SignInStore.put (s : SignInStore) (token : String) (f : SignInStore → SignInStore)
    (call : SignInCall) : Option (SignInStore × SignInCall) :=
  if token ∈ s.drawn then none else some (f { s with drawn := token :: s.drawn }, call)

/-- Whether the device of a sign-in waits for a code. -/
def SignInStore.needsApproval (s : SignInStore) (c : SignIn) (isNew approved : Bool) : Bool :=
  (isNew || !approved)
    && (s.settings.newDeviceEmailApproval || decide (c.user.id ∈ s.settings.forced))
    && s.settings.mailer && c.user.emailVerified && !c.ssoVerified

/-- The next statement of a call that signs in, once the password was checked. -/
def SignInCall.continueLogin (token code : String) (deviceId : Uuid) (s : SignInStore) :
    SignInCall → Option (SignInStore × SignInCall)
  | .mfaCount c =>
    if !c.mfaDone && (c.user.totpEnabled
        || (s.users.get? c.user.id).any (fun u => decide (0 < u.passkeys))) then
      some (s, .mfaPut c)
    else some (s, .deviceUpsert c)
  | .mfaPut c =>
    s.put token (fun s => { s with
      mfas := setFlow s.mfas ⟨token, ⟨c.user.id, some c.device, c.ssoVerified, none⟩,
        s.now + MFA_TTL, c.stamp⟩ }) (.done (some (.ok (.mfaRequired token))))
  | .deviceUpsert c =>
    match s.upsertDevice c.user.id c.device deviceId with
    | none => none
    | some (id, isNew, s) => some (s, .deviceApproved c id isNew)
  | .deviceApproved c id isNew =>
    match s.devices.get? id with
    | none => none
    | some d =>
      if s.needsApproval c isNew d.approved then some (s, .approvalPut c id)
      else some (s, .build c.user.id id c.stamp)
  | .approvalPut c id =>
    s.put token (fun s => { s with
      approvals := setFlow s.approvals ⟨token, ⟨c.user.id, id, TokenHash.hashToken code⟩,
        s.now + APPROVAL_TTL, c.stamp⟩ }) (.done (some (.ok (.deviceApprovalRequired token))))
  | .build userId id stamp =>
    some ((s.issue userId id).noteIssued userId stamp,
      .done (some (.ok (.authenticated userId id))))
  | _ => none

/-- The next statement of a password change. -/
def SignInCall.finishPassword (deviceId : Uuid) (s : SignInStore) :
    SignInCall → Option (SignInStore × SignInCall)
  | .finishSubject req auth =>
    match auth, req.recoveryToken with
    | _, some token =>
      match s.getFlow s.recoveries token with
      | none => some (s, .fail .tokenExpired)
      | some f => some (s, .finishLoad ⟨auth, req, f.flow.userId, some f.stamp, 0⟩)
    | some (userId, _), none => some (s, .finishLoad ⟨auth, req, userId, none, 0⟩)
    | none, none => some (s, .fail .unauthorized)
  | .finishLoad c =>
    match s.users.get? c.userId with
    | none => some (s, .fail (.notFound "User"))
    | some _ =>
      match Opaque.registrationFinish c.req.opaqueUpload with
      | none => some (s, .fail (.badRequest "Invalid OPAQUE message"))
      | some record =>
        if c.auth.isNone && c.req.device.isNone then
          some (s, .fail (.badRequest "device is required for recovery"))
        else some (s, .finishCommit c record)
  | .finishCommit c record =>
    let s := s.setCredentials c.userId record c.req.wrappedPrivateKey
      (c.req.newRecovery.map (fun r =>
        (TokenHash.hashToken r.recoveryVerifier, r.recoveryWrappedPrivateKey)))
    some (s, .finishDel { c with version := s.version c.userId })
  | .finishDel c =>
    match c.req.recoveryToken with
    | some token => some ({ s with recoveries := s.recoveries.erase token }, .finishDevice c)
    | none => some (s, .finishDevice c)
  | .finishDevice c =>
    match c.auth, c.req.device with
    | some (_, id), _ => some (s, .finishRevoke c id)
    | none, some info =>
      match s.upsertDevice c.userId info deviceId with
      | none => none
      | some (id, _, s) => some (s, .finishRevoke c id)
    | none, none => some (s, .fail (.badRequest "device is required"))
  | .finishRevoke c id =>
    some ({ s with sessions := s.sessions.filter (fun x => decide (x.userId ≠ c.userId)) },
      .finishReload c id)
  | .finishReload c id =>
    match s.users.get? c.userId with
    | none => some (s, .fail (.notFound "User"))
    | some _ => some (s, .finishBuild c id)
  | .finishBuild c id =>
    let s := s.issue c.userId id
    some ((match c.stamp with
      | some stamp => s.noteIssued c.userId stamp
      | none => s), .finishReturn c id)
  | .finishReturn c id =>
    some (s.noteChanged c.userId c.version c.req.recoveryToken,
      .done (some (.ok (.authenticated c.userId id))))
  | _ => none

/-- The next statement of a call. -/
def SignInCall.next (token code : String) (deviceId : Uuid) (ok : Bool) (s : SignInStore) :
    SignInCall → Option (SignInStore × SignInCall)
  | .done _ => none
  | .loginUser email request device ssoVerified =>
    let user := s.byEmail email
    match Opaque.loginStart email (user.bind AccountRow.opaqueRecord) request with
    | none => some (s, .fail (.badRequest "Invalid OPAQUE message"))
    | some (response, state) =>
      some (s, .loginPut ⟨email, user.map AccountRow.id, state, device, ssoVerified⟩ response
        (s.stamp ((user.map AccountRow.id).getD 0)))
  | .loginPut flow response stamp =>
    s.put token (fun s => { s with
      logins := setFlow s.logins ⟨token, flow, s.now + LOGIN_TTL, stamp⟩ })
      (.done (some (.ok (.loginStarted token response))))
  | .loginTake loginId finalization =>
    match s.getFlow s.logins loginId with
    | none => some (s, .fail .tokenExpired)
    | some f =>
      let s := { s with logins := s.logins.erase loginId }
      match f.flow.userId with
      | none => some (s, .fail .invalidCredentials)
      | some userId =>
        if Opaque.loginFinish f.flow.email f.flow.serverState finalization then
          some (s, .loginLoad f.flow userId f.stamp)
        else some (s, .fail .invalidCredentials)
  | .loginLoad flow userId stamp =>
    match s.users.get? userId with
    | none => some (s, .fail (.notFound "User"))
    | some user =>
      if user.disabled then some (s, .fail .accountDisabled)
      else some (s, .mfaCount ⟨user, flow.device, flow.ssoVerified, false, stamp⟩)
  | .mfaGet token =>
    match s.getFlow s.mfas token with
    | none => some (s, .fail .tokenExpired)
    | some f => some (s, .mfaLoad token f.flow f.stamp)
  | .mfaLoad token flow stamp =>
    match s.users.get? flow.userId with
    | none => some (s, .fail (.notFound "User"))
    | some user =>
      if user.disabled then some (s, .fail .accountDisabled)
      else some (s, .mfaCheck token flow user stamp)
  | .mfaCheck token flow user stamp =>
    if ok then some (s, .mfaDel token flow user stamp) else some (s, .fail .invalidMfa)
  | .mfaDel token flow user stamp =>
    let s := { s with mfas := s.mfas.erase token }
    match flow.reauthSession, flow.device with
    | some sessionId, _ => some (s, .done (some (.ok (.reauthenticated sessionId))))
    | none, some device => some (s, .mfaCount ⟨user, device, flow.ssoVerified, true, stamp⟩)
    | none, none => some (s, .fail (.badRequest "Invalid MFA flow"))
  | .approveGet token code =>
    match s.getFlow s.approvals token with
    | none => some (s, .fail .tokenExpired)
    | some f =>
      if f.flow.codeHash = TokenHash.hashToken (normalizeCode code) then
        some (s, .approveDel token f.flow f.stamp)
      else some (s, .fail .invalidCode)
  | .approveDel token flow stamp =>
    some ({ s with approvals := s.approvals.erase token }, .approveLoad flow stamp)
  | .approveLoad flow stamp =>
    match s.users.get? flow.userId with
    | none => some (s, .fail (.notFound "User"))
    | some user =>
      if user.disabled then some (s, .fail .accountDisabled)
      else some (s, .build user.id flow.deviceId stamp)
  | .resendGet token =>
    match s.getFlow s.approvals token with
    | none => some (s, .fail .tokenExpired)
    | some f => some (s, .resendSet token f.flow f.stamp)
  | .resendSet token flow stamp =>
    some ({ s with
      approvals := setFlow s.approvals ⟨token, { flow with codeHash := TokenHash.hashToken code },
        s.now + APPROVAL_TTL, stamp⟩ }, .done (some (.ok (.codeSent code))))
  | .recoveryUser email verifier =>
    match s.byEmail email with
    | none => some (s, .fail .invalidCredentials)
    | some user =>
      if user.recoveryVerifierHash ≠ TokenHash.hashToken verifier then
        some (s, .fail .invalidCredentials)
      else if user.disabled then some (s, .fail .accountDisabled)
      else some (s, .recoveryPut user (s.stamp user.id))
  | .recoveryPut user stamp =>
    s.put token (fun s => { s with
      recoveries := setFlow s.recoveries ⟨token, ⟨user.id⟩, s.now + RECOVERY_TTL, stamp⟩ })
      (.done (some (.ok (.recoveryStarted token user.recoveryWrappedPrivateKey user.publicKey))))
  | .startGet token request =>
    match s.getFlow s.recoveries token with
    | none => some (s, .fail .tokenExpired)
    | some f => some (s, .startLoad f.flow.userId request)
  | .startLoad userId request =>
    match s.users.get? userId with
    | none => some (s, .fail (.notFound "User"))
    | some user =>
      match Opaque.registrationStart user.email request with
      | none => some (s, .fail (.badRequest "Invalid OPAQUE message"))
      | some response => some (s, .done (some (.ok (.passwordStarted response))))
  | .mfaCount c => (SignInCall.mfaCount c).continueLogin token code deviceId s
  | .mfaPut c => (SignInCall.mfaPut c).continueLogin token code deviceId s
  | .deviceUpsert c => (SignInCall.deviceUpsert c).continueLogin token code deviceId s
  | .deviceApproved c id isNew =>
    (SignInCall.deviceApproved c id isNew).continueLogin token code deviceId s
  | .approvalPut c id => (SignInCall.approvalPut c id).continueLogin token code deviceId s
  | .build userId id stamp => (SignInCall.build userId id stamp).continueLogin token code deviceId s
  | call => call.finishPassword deviceId s

/-- A step of a call. -/
def SignInCall.exec : SignInStep → SignInStore → SignInCall → Option (SignInStore × SignInCall)
  | .next token code deviceId ok, s, call => call.next token code deviceId ok s
  | .drop, s, _ => some (s, .done none)
  | step, s, .done _ => step.start.map (fun call => (s, call))
  | _, _, _ => none

def SignInEvent.apply (s : SignInStore) : SignInEvent → Option SignInStore
  | .pass seconds => some { s with now := s.now + seconds }
  | .register user => (s.users.insert user).map (fun users => { s with users := users })
  | .reauth token flow sessionId =>
    if token ∈ s.drawn then none
    else some { s with
      drawn := token :: s.drawn
      mfas := setFlow s.mfas ⟨token, { flow with device := none, reauthSession := some sessionId },
        s.now + MFA_TTL, ⟨0, 0⟩⟩ }
  | .configure settings => some { s with settings := settings }

/-- The calls that sign in and change passwords. At first there are no flows. -/
def signInCalls : Threads SignInStore SignInCall SignInStep SignInEvent where
  init s := s.logins = .empty ∧ s.mfas = .empty ∧ s.approvals = .empty ∧ s.recoveries = .empty
    ∧ (∀ u, s.changes u = 0 ∧ s.retired u = 0) ∧ s.drawn = [] ∧ s.issued = [] ∧ s.completed = []
  start call := call = .done none
  exec _ := SignInCall.exec
  env e s := e.apply s

end

/-! ### What is to hold -/

/-- No session was issued by completing a flow that was begun before a password change of its user
returned, or with credentials older than the ones such a change left; and each recovery token
completed one password change at most. -/
structure OldCredentialsDead (s : SignInStore) : Prop where
  fresh : ∀ x ∈ s.issued, x.stamp.changes = x.changes ∧ x.retired ≤ x.stamp.version
  once : s.completed.Nodup

/-! ### Flows that are under way -/

/-- The user whom a call is about to sign in, with the stamp of the flow. -/
def SignInCall.underWay : SignInCall → Option (Uuid × Stamp)
  | .loginPut flow _ stamp => flow.userId.map (fun u => (u, stamp))
  | .loginLoad _ userId stamp | .build userId _ stamp => some (userId, stamp)
  | .mfaCount c | .mfaPut c | .deviceUpsert c | .deviceApproved c _ _ | .approvalPut c _ =>
    some (c.user.id, c.stamp)
  | .mfaLoad _ flow stamp => flow.subject.map (fun u => (u, stamp))
  | .mfaCheck _ flow user stamp | .mfaDel _ flow user stamp =>
    flow.subject.map (fun _ => (user.id, stamp))
  | .approveDel _ flow stamp | .approveLoad flow stamp | .resendSet _ flow stamp =>
    some (flow.userId, stamp)
  | .recoveryPut user stamp => some (user.id, stamp)
  | .finishLoad c | .finishCommit c _ | .finishDel c | .finishDevice c | .finishRevoke c _
  | .finishReload c _ | .finishBuild c _ | .finishReturn c _ => c.stamp.map (fun st => (c.userId, st))
  | _ => none

/-- The recovery token that a password change has read. -/
def SignInCall.recoveryToken : SignInCall → Option String
  | .finishLoad c | .finishCommit c _ | .finishDel c | .finishDevice c | .finishRevoke c _
  | .finishReload c _ | .finishBuild c _ | .finishReturn c _ => c.req.recoveryToken
  | _ => none

/-- No flow in a table signs a user in. -/
def SignInStore.NoFlow {α : Type} (s : SignInStore) (subject : α → Option Uuid)
    (t : Table (FlowRow α)) (userId : Uuid) : Prop :=
  ∀ f ∈ t.rows, s.now < f.expiresAt → subject f.flow ≠ some userId

/-- No flow of a user is in the cache. -/
def SignInStore.Settled (s : SignInStore) (userId : Uuid) : Prop :=
  s.NoFlow LoginFlow.userId s.logins userId ∧ s.NoFlow MfaFlow.subject s.mfas userId
    ∧ s.NoFlow ApprovalFlow.subject s.approvals userId
    ∧ s.NoFlow RecoveryFlow.subject s.recoveries userId

/-- When a password change returns, no flow of the user is in the cache or under way in another
call; and a recovery token is read while no other password change uses it. -/
def flowsSettled (p : Pool SignInStore SignInCall) : PoolStep SignInStep SignInEvent → Prop
  | .run i (.next _ _ _ _) =>
    match p.threads i with
    | .finishReturn c _ => p.shared.Settled c.userId
        ∧ ∀ j, j ≠ i → (p.threads j).underWay.map Prod.fst ≠ some c.userId
    | .finishSubject req _ => ∀ t, req.recoveryToken = some t →
        ∀ j, j ≠ i → (p.threads j).recoveryToken ≠ some t
    | _ => True
  | _ => True

/-! ### The invariant -/

/-- A stamp is of the time since the last password change of the user returned. -/
def SignInStore.Fresh (s : SignInStore) (userId : Uuid) (stamp : Stamp) : Prop :=
  stamp.changes = s.changes userId ∧ s.retired userId ≤ stamp.version

/-- The flows of a table were begun since then. -/
def SignInStore.FlowsFresh {α : Type} (s : SignInStore) (subject : α → Option Uuid)
    (t : Table (FlowRow α)) : Prop :=
  ∀ f ∈ t.rows, s.now < f.expiresAt → ∀ u, subject f.flow = some u → s.Fresh u f.stamp

/-- What is kept of the store. -/
structure SignInStore.Sound (s : SignInStore) : Prop where
  logins : s.FlowsFresh LoginFlow.userId s.logins
  mfas : s.FlowsFresh MfaFlow.subject s.mfas
  approvals : s.FlowsFresh ApprovalFlow.subject s.approvals
  recoveries : s.FlowsFresh RecoveryFlow.subject s.recoveries
  retired : ∀ u, s.retired u ≤ s.version u
  known : ∀ f ∈ s.recoveries.rows, f.token ∈ s.drawn
  used : ∀ t ∈ s.completed, t ∈ s.drawn ∧ s.recoveries.get? t = none
  issued : ∀ x ∈ s.issued, x.stamp.changes = x.changes ∧ x.retired ≤ x.stamp.version
  once : s.completed.Nodup

/-- The password change that a call carries out, once its credentials were replaced. -/
def SignInCall.change : SignInCall → Option PasswordChange
  | .finishDel c | .finishDevice c | .finishRevoke c _ | .finishReload c _ | .finishBuild c _
  | .finishReturn c _ => some c
  | _ => none

/-- The recovery token that a password change has deleted. -/
def SignInCall.deleted : SignInCall → Option String
  | .finishDevice c | .finishRevoke c _ | .finishReload c _ | .finishBuild c _
  | .finishReturn c _ => c.req.recoveryToken
  | _ => none

/-- What is kept of a call. -/
structure SignInCall.Asserts (s : SignInStore) (call : SignInCall) : Prop where
  fresh : ∀ u st, call.underWay = some (u, st) → s.Fresh u st
  token : ∀ t, call.recoveryToken = some t → t ∈ s.drawn ∧ t ∉ s.completed
  deleted : ∀ t, call.deleted = some t → s.recoveries.get? t = none
  version : ∀ c, call.change = some c → c.version ≤ s.version c.userId

/-- What the step of a call leaves alone, unless it is the last one of a password change. -/
structure SignInStore.Later (s s' : SignInStore) : Prop where
  changes : s'.changes = s.changes
  retired : s'.retired = s.retired
  version : ∀ u, s.version u ≤ s'.version u
  drawn : ∀ t ∈ s.drawn, t ∈ s'.drawn
  completed : s'.completed = s.completed
  gone : ∀ t ∈ s.drawn, s.recoveries.get? t = none → s'.recoveries.get? t = none

section
variable {s s' : SignInStore} {call call' : SignInCall} {α : Type} {subject : α → Option Uuid}
  {t : Table (FlowRow α)} {token : String} {f : FlowRow α} {u : Uuid}

theorem SignInStore.later_rfl :
  s.Later s
  := ⟨rfl, rfl, fun _ => le_rfl, fun _ h => h, rfl, fun _ _ h => h⟩

/-- What is kept of another call stays so. -/
theorem SignInCall.asserts_of_later (h : s.Later s') (hcall : call.Asserts s) :
  call.Asserts s'
  := by
  -- the tokens of a call that has deleted its flow are among those it has read
  have hread : ∀ t, call.deleted = some t → call.recoveryToken = some t := by
    intro t ht
    cases call with
    | finishDevice c => exact ht
    | finishRevoke c id => exact ht
    | finishReload c id => exact ht
    | finishBuild c id => exact ht
    | finishReturn c id => exact ht
    | _ => cases ht
  constructor
  · intro u st hu
    unfold SignInStore.Fresh
    rw [h.changes, h.retired]
    exact hcall.fresh u st hu
  · intro t ht
    obtain ⟨hdrawn, hnew⟩ := hcall.token t ht
    exact ⟨h.drawn t hdrawn, h.completed ▸ hnew⟩
  · intro t ht
    exact h.gone t (hcall.token t (hread t ht)).1 (hcall.deleted t ht)
  · intro c hc
    exact (hcall.version c hc).trans (h.version c.userId)

/-- A call that has nothing under way. -/
theorem SignInCall.asserts_of_none (hunderWay : call.underWay = none)
    (htoken : call.recoveryToken = none) (hdeleted : call.deleted = none)
    (hchange : call.change = none) :
  call.Asserts s
  := by
  constructor
  · intro u st h
    rw [hunderWay] at h
    cases h
  · intro t h
    rw [htoken] at h
    cases h
  · intro t h
    rw [hdeleted] at h
    cases h
  · intro c h
    rw [hchange] at h
    cases h

/-- A call that signs somebody in, and is no password change. -/
theorem SignInCall.asserts_of_underWay
    (hfresh : ∀ u st, call.underWay = some (u, st) → s.Fresh u st)
    (htoken : call.recoveryToken = none) (hdeleted : call.deleted = none)
    (hchange : call.change = none) :
  call.Asserts s
  := by
  constructor
  · exact hfresh
  · intro t h
    rw [htoken] at h
    cases h
  · intro t h
    rw [hdeleted] at h
    cases h
  · intro c h
    rw [hchange] at h
    cases h

/-! ### Tables of flows -/

theorem mem_setFlow {row : FlowRow α} (h : f ∈ (setFlow t row).rows) :
  f ∈ t.rows ∨ f = row
  := by
  have hget := Table.get?_of_mem h
  simp only [setFlow, Table.get?_upsert, key_flow] at hget
  split at hget
  · rename_i hkey
    right
    cases hrow : t.get? f.token with
    | none =>
        rw [hrow] at hget
        exact (Option.some.inj hget).symm
    | some r =>
        rw [hrow] at hget
        have htoken : r.token = row.token := (Table.key_of_get? hrow).trans hkey
        rw [← Option.some.inj hget]
        simp [htoken]
  · exact .inl (Table.mem_of_get? hget)

theorem get?_setFlow_of_ne {row : FlowRow α} (h : token ≠ row.token) :
  (setFlow t row).get? token = t.get? token
  := by simp [setFlow, h]

theorem SignInStore.FlowsFresh.erase (h : s.FlowsFresh subject t) :
  s.FlowsFresh subject (t.erase token)
  := fun f hf => h f (Table.mem_delete.mp hf).1

theorem SignInStore.FlowsFresh.set (h : s.FlowsFresh subject t) {row : FlowRow α}
    (hrow : ∀ u, subject row.flow = some u → s.Fresh u row.stamp) :
  s.FlowsFresh subject (setFlow t row)
  := by
  intro f hf hnow
  rcases mem_setFlow hf with hf | rfl
  · exact h f hf hnow
  · exact hrow

/-- A flow that was read. -/
theorem SignInStore.FlowsFresh.get (h : s.FlowsFresh subject t) (hget : s.getFlow t token = some f)
    (hu : subject f.flow = some u) :
  s.Fresh u f.stamp
  := by
  obtain ⟨hf, hnow⟩ := Option.filter_eq_some_iff.mp hget
  exact h f (Table.mem_of_get? hf) (of_decide_eq_true hnow) u hu

theorem SignInStore.FlowsFresh.pass (h : s.FlowsFresh subject t) (seconds : ℕ) :
  { s with now := s.now + seconds }.FlowsFresh subject t
  := fun f hf hnow => h f hf (lt_of_le_of_lt (Nat.le_add_right _ _) hnow)

/-- A password change returns while no flow of the user is there. -/
theorem SignInStore.FlowsFresh.changed (h : s.FlowsFresh subject t) (hnone : s.NoFlow subject t u)
    (version : ℕ) (token : Option String) :
  (s.noteChanged u version token).FlowsFresh subject t
  := by
  intro f hf hnow u' hu'
  have hne : u' ≠ u := by
    rintro rfl
    exact hnone f hf hnow hu'
  unfold Fresh
  simp only [noteChanged, Function.update_of_ne hne]
  exact h f hf hnow u' hu'

end

/-! ### Steps -/

section
variable {s s' : SignInStore} {call call' : SignInCall} {token code : String} {deviceId id u : Uuid}
  {ok : Bool} {stamp : Stamp}

theorem SignInCall.asserts_done {answer : Option (Except SignInError SignInAnswer)} :
  (SignInCall.done answer).Asserts s
  := SignInCall.asserts_of_none rfl rfl rfl rfl

/-- Devices, sessions, accounts and settings do not matter. -/
theorem SignInStore.Sound.of_eq (hs : s.Sound) (hnow : s'.now = s.now)
    (hlogins : s'.logins = s.logins) (hmfas : s'.mfas = s.mfas)
    (happrovals : s'.approvals = s.approvals) (hrecoveries : s'.recoveries = s.recoveries)
    (hlater : s.Later s') (hdrawn : s'.drawn = s.drawn)
    (hissued : ∀ x ∈ s'.issued, x ∈ s.issued
      ∨ (x.stamp.changes = x.changes ∧ x.retired ≤ x.stamp.version)) :
  s'.Sound
  := by
  have hflows : ∀ {α : Type} {subject : α → Option Uuid} {t : Table (FlowRow α)},
      s.FlowsFresh subject t → s'.FlowsFresh subject t := by
    intro α subject t h f hf hlt u hu
    unfold Fresh
    rw [hlater.changes, hlater.retired]
    exact h f hf (hnow ▸ hlt) u hu
  constructor
  · rw [hlogins]
    exact hflows hs.logins
  · rw [hmfas]
    exact hflows hs.mfas
  · rw [happrovals]
    exact hflows hs.approvals
  · rw [hrecoveries]
    exact hflows hs.recoveries
  · intro u
    rw [hlater.retired]
    exact (hs.retired u).trans (hlater.version u)
  · rw [hrecoveries, hdrawn]
    exact hs.known
  · rw [hlater.completed, hdrawn, hrecoveries]
    exact hs.used
  · intro x hx
    exact (hissued x hx).elim (hs.issued x) fun h => h
  · rw [hlater.completed]
    exact hs.once

/-- Issuing a session for a flow that was begun since the last password change. -/
theorem SignInStore.Sound.noteIssued (hs : s.Sound) (hfresh : s.Fresh u stamp) :
  (s.noteIssued u stamp).Sound
  := by
  refine hs.of_eq rfl rfl rfl rfl rfl ⟨rfl, rfl, fun _ => le_rfl, fun _ h => h, rfl, fun _ _ h => h⟩
    rfl ?_
  intro x hx
  rcases List.mem_cons.mp hx with rfl | hx
  · exact .inr hfresh
  · exact .inl hx

theorem SignInStore.Sound.issue (hs : s.Sound) :
  (s.issue u id).Sound
  := hs.of_eq rfl rfl rfl rfl rfl ⟨rfl, rfl, fun _ => le_rfl, fun _ h => h, rfl, fun _ _ h => h⟩ rfl
    fun _ h => .inl h

theorem SignInStore.later_issue :
  s.Later (s.issue u id)
  := ⟨rfl, rfl, fun _ => le_rfl, fun _ h => h, rfl, fun _ _ h => h⟩

/-- A device is found or added. -/
theorem SignInStore.upsertDevice_eq {info : DeviceInfo} {isNew : Bool}
    (h : s.upsertDevice u info deviceId = some (id, isNew, s')) :
  ∃ devices, s' = { s with devices := devices }
  := by
  have hadd : ∀ {d : DeviceRow} {id₀ : Uuid}, (s.devices.insert d).map (fun devices =>
      (id₀, true, { s with devices := devices })) = some (id, isNew, s') →
      ∃ devices, s' = { s with devices := devices } := by
    intro d id₀ h
    obtain ⟨devices, -, heq⟩ := Option.map_eq_some_iff.mp h
    cases heq
    exact ⟨devices, rfl⟩
  unfold upsertDevice at h
  split at h
  · exact hadd h
  · split at h
    · split at h
      · cases h
        exact ⟨s.devices, rfl⟩
      · exact hadd h
    · exact hadd h

theorem SignInStore.Sound.devices (hs : s.Sound) (devices : Table DeviceRow) :
  { s with devices := devices }.Sound
  := hs.of_eq rfl rfl rfl rfl rfl ⟨rfl, rfl, fun _ => le_rfl, fun _ h => h, rfl, fun _ _ h => h⟩ rfl
    fun _ h => .inl h

theorem SignInStore.later_devices (devices : Table DeviceRow) :
  s.Later { s with devices := devices }
  := ⟨rfl, rfl, fun _ => le_rfl, fun _ h => h, rfl, fun _ _ h => h⟩

/-- New credentials. -/
theorem SignInStore.later_setCredentials (record key : String)
    (newRecovery : Option (String × String)) :
  s.Later (s.setCredentials u record key newRecovery)
  := by
  refine ⟨rfl, rfl, ?_, fun _ h => h, rfl, fun _ _ h => h⟩
  intro u'
  by_cases hu : u' = u
  · subst hu
    simp [setCredentials]
  · simp [setCredentials, Function.update_of_ne hu]

theorem SignInStore.Sound.setCredentials (hs : s.Sound) (record key : String)
    (newRecovery : Option (String × String)) :
  (s.setCredentials u record key newRecovery).Sound
  := hs.of_eq rfl rfl rfl rfl rfl (later_setCredentials record key newRecovery) rfl fun _ h => .inl h

/-- A flow is written under a token that is new, and is none of a recovery. -/
theorem SignInStore.put_eq {f : SignInStore → SignInStore}
    (h : s.put token f call = some (s', call')) :
  token ∉ s.drawn ∧ s' = f { s with drawn := token :: s.drawn } ∧ call' = call
  := by
  unfold put at h
  split at h
  · cases h
  · rename_i hnew
    cases h
    exact ⟨hnew, rfl, rfl⟩

variable [TokenHash]

/-- A call that signs in, once the password was checked. -/
theorem SignInCall.sound_continueLogin (hs : s.Sound) (hcall : call.Asserts s)
    (hnext : call.continueLogin token code deviceId s = some (s', call')) :
  s'.Sound ∧ s.Later s' ∧ call'.Asserts s'
  := by
  have hfresh := hcall.fresh
  cases call with
  | mfaCount c =>
      have hc := hfresh _ _ rfl
      simp only [continueLogin] at hnext
      split at hnext
      · cases hnext
        exact ⟨hs, SignInStore.later_rfl,
          asserts_of_underWay (fun _ _ h => by cases h; exact hc) rfl rfl rfl⟩
      · cases hnext
        exact ⟨hs, SignInStore.later_rfl,
          asserts_of_underWay (fun _ _ h => by cases h; exact hc) rfl rfl rfl⟩
  | mfaPut c =>
      have hc := hfresh _ _ rfl
      simp only [continueLogin] at hnext
      obtain ⟨-, rfl, rfl⟩ := SignInStore.put_eq hnext
      refine ⟨{ hs with mfas := hs.mfas.set ?_, known := ?_, used := ?_ },
        ⟨rfl, rfl, fun _ => le_rfl, fun _ h => List.mem_cons_of_mem _ h, rfl, fun _ _ h => h⟩,
        asserts_done⟩
      · intro u hu
        cases hu
        exact hc
      · exact fun f hf => List.mem_cons_of_mem _ (hs.known f hf)
      · exact fun t ht => ⟨List.mem_cons_of_mem _ (hs.used t ht).1, (hs.used t ht).2⟩
  | deviceUpsert c =>
      have hc := hfresh _ _ rfl
      simp only [continueLogin] at hnext
      split at hnext
      · cases hnext
      · rename_i id isNew s₁ hdevice
        cases hnext
        obtain ⟨devices, rfl⟩ := SignInStore.upsertDevice_eq hdevice
        exact ⟨hs.devices devices, SignInStore.later_devices devices,
          asserts_of_underWay (fun _ _ h => by cases h; exact hc) rfl rfl rfl⟩
  | deviceApproved c id isNew =>
      have hc := hfresh _ _ rfl
      simp only [continueLogin] at hnext
      split at hnext
      · cases hnext
      · split at hnext
        · cases hnext
          exact ⟨hs, SignInStore.later_rfl,
            asserts_of_underWay (fun _ _ h => by cases h; exact hc) rfl rfl rfl⟩
        · cases hnext
          exact ⟨hs, SignInStore.later_rfl,
            asserts_of_underWay (fun _ _ h => by cases h; exact hc) rfl rfl rfl⟩
  | approvalPut c id =>
      have hc := hfresh _ _ rfl
      simp only [continueLogin] at hnext
      obtain ⟨-, rfl, rfl⟩ := SignInStore.put_eq hnext
      refine ⟨{ hs with approvals := hs.approvals.set ?_, known := ?_, used := ?_ },
        ⟨rfl, rfl, fun _ => le_rfl, fun _ h => List.mem_cons_of_mem _ h, rfl, fun _ _ h => h⟩,
        asserts_done⟩
      · intro u hu
        cases hu
        exact hc
      · exact fun f hf => List.mem_cons_of_mem _ (hs.known f hf)
      · exact fun t ht => ⟨List.mem_cons_of_mem _ (hs.used t ht).1, (hs.used t ht).2⟩
  | build userId id stamp =>
      have hc := hfresh _ _ rfl
      cases hnext
      exact ⟨hs.issue.noteIssued hc,
        ⟨rfl, rfl, fun _ => le_rfl, fun _ h => h, rfl, fun _ _ h => h⟩, asserts_done⟩
  | _ => cases hnext

end

section
variable {s s' : SignInStore} {call call' : SignInCall} {token code : String} {deviceId id u : Uuid}
  {ok : Bool} {stamp : Stamp} {c : PasswordChange}

/-- A call that goes on with what it has. -/
theorem SignInCall.Asserts.congr (hcall : call.Asserts s) (hunderWay : call'.underWay = call.underWay)
    (htoken : call'.recoveryToken = call.recoveryToken) (hdeleted : call'.deleted = call.deleted)
    (hchange : call'.change = call.change) :
  call'.Asserts s
  := by
  constructor
  · rw [hunderWay]
    exact hcall.fresh
  · rw [htoken]
    exact hcall.token
  · rw [hdeleted]
    exact hcall.deleted
  · rw [hchange]
    exact hcall.version

/-- A password change that has read a recovery flow. -/
theorem SignInCall.asserts_finishLoad (hs : s.Sound) {req : PasswordSetupFinishRequest}
    {auth : Option (Uuid × Uuid)} {f : FlowRow RecoveryFlow} (htoken : req.recoveryToken = some token)
    (hget : s.getFlow s.recoveries token = some f) :
  (SignInCall.finishLoad ⟨auth, req, f.flow.userId, some f.stamp, 0⟩).Asserts s
  := by
  have hrow := (Option.filter_eq_some_iff.mp hget).1
  constructor
  · intro u st h
    cases h
    exact hs.recoveries.get hget rfl
  · intro t ht
    cases htoken.symm.trans ht
    have hkey : f.token = token := Table.key_of_get? hrow
    refine ⟨hkey ▸ hs.known f (Table.mem_of_get? hrow), ?_⟩
    intro hused
    rw [(hs.used token hused).2] at hrow
    cases hrow
  · intro t ht
    cases ht
  · intro c hc
    cases hc

variable [Names] [TokenHash] [Opaque]

omit [Names] in
/-- A password change, up to its last step. -/
theorem SignInCall.sound_finishPassword (hs : s.Sound) (hcall : call.Asserts s)
    (hlast : ∀ c id, call ≠ .finishReturn c id)
    (hnext : call.finishPassword deviceId s = some (s', call')) :
  s'.Sound ∧ s.Later s' ∧ call'.Asserts s'
  := by
  cases call with
  | finishSubject req auth =>
      simp only [finishPassword] at hnext
      split at hnext
      · rename_i token htoken
        split at hnext
        · cases hnext
          exact ⟨hs, SignInStore.later_rfl, asserts_done⟩
        · rename_i f hget
          cases hnext
          exact ⟨hs, SignInStore.later_rfl, asserts_finishLoad hs htoken hget⟩
      · rename_i htoken
        cases hnext
        refine ⟨hs, SignInStore.later_rfl, asserts_of_none rfl ?_ rfl rfl⟩
        exact htoken
      · cases hnext
        exact ⟨hs, SignInStore.later_rfl, asserts_done⟩
  | finishLoad c =>
      simp only [finishPassword] at hnext
      split at hnext
      · cases hnext
        exact ⟨hs, SignInStore.later_rfl, asserts_done⟩
      · split at hnext
        · cases hnext
          exact ⟨hs, SignInStore.later_rfl, asserts_done⟩
        · split at hnext
          · cases hnext
            exact ⟨hs, SignInStore.later_rfl, asserts_done⟩
          · cases hnext
            exact ⟨hs, SignInStore.later_rfl, hcall.congr rfl rfl rfl rfl⟩
  | finishCommit c record =>
      cases hnext
      have hlater := SignInStore.later_setCredentials (s := s) (u := c.userId) record
        c.req.wrappedPrivateKey (c.req.newRecovery.map (fun r =>
          (TokenHash.hashToken r.recoveryVerifier, r.recoveryWrappedPrivateKey)))
      have hcall' := asserts_of_later hlater hcall
      refine ⟨hs.setCredentials _ _ _, hlater, hcall'.fresh, hcall'.token, ?_, ?_⟩
      · intro t ht
        cases ht
      · intro c' hc'
        cases hc'
        exact le_rfl
  | finishDel c =>
      simp only [finishPassword] at hnext
      split at hnext
      · rename_i token htoken
        cases hnext
        have herase : ∀ t, (s.recoveries.erase token).get? t
            = if t = token then none else s.recoveries.get? t := fun t => Table.get?_erase _ _ _
        refine ⟨{ hs with recoveries := hs.recoveries.erase, known := ?_, used := ?_ },
          ⟨rfl, rfl, fun _ => le_rfl, fun _ h => h, rfl, ?_⟩, hcall.fresh, hcall.token, ?_,
          hcall.version⟩
        · exact fun f hf => hs.known f (Table.mem_delete.mp hf).1
        · intro t ht
          refine ⟨(hs.used t ht).1, ?_⟩
          rw [herase, (hs.used t ht).2, ite_self]
        · intro t _ hnone
          rw [herase, hnone, ite_self]
        · intro t ht
          cases htoken.symm.trans ht
          rw [herase, if_pos rfl]
      · rename_i htoken
        cases hnext
        refine ⟨hs, SignInStore.later_rfl, hcall.fresh, hcall.token, ?_, hcall.version⟩
        intro t ht
        cases htoken.symm.trans ht
  | finishDevice c =>
      simp only [finishPassword] at hnext
      split at hnext
      · cases hnext
        exact ⟨hs, SignInStore.later_rfl, hcall.congr rfl rfl rfl rfl⟩
      · split at hnext
        · cases hnext
        · rename_i id isNew s₁ hdevice
          cases hnext
          obtain ⟨devices, rfl⟩ := SignInStore.upsertDevice_eq hdevice
          refine ⟨hs.devices devices, SignInStore.later_devices devices, ?_⟩
          exact (asserts_of_later (SignInStore.later_devices devices) hcall).congr rfl rfl rfl rfl
      · cases hnext
        exact ⟨hs, SignInStore.later_rfl, asserts_done⟩
  | finishRevoke c id =>
      cases hnext
      have hlater : s.Later { s with
          sessions := s.sessions.filter (fun x => decide (x.userId ≠ c.userId)) } :=
        ⟨rfl, rfl, fun _ => le_rfl, fun _ h => h, rfl, fun _ _ h => h⟩
      exact ⟨hs.of_eq rfl rfl rfl rfl rfl hlater rfl fun _ h => .inl h, hlater,
        (asserts_of_later hlater hcall).congr rfl rfl rfl rfl⟩
  | finishReload c id =>
      simp only [finishPassword] at hnext
      split at hnext
      · cases hnext
        exact ⟨hs, SignInStore.later_rfl, asserts_done⟩
      · cases hnext
        exact ⟨hs, SignInStore.later_rfl, hcall.congr rfl rfl rfl rfl⟩
  | finishBuild c id =>
      simp only [finishPassword] at hnext
      cases hstamp : c.stamp with
      | some stamp =>
          rw [hstamp] at hnext
          cases hnext
          have hfresh : s.Fresh c.userId stamp := by
            apply hcall.fresh
            simp only [underWay, hstamp]
            rfl
          have hlater : s.Later ((s.issue c.userId id).noteIssued c.userId stamp) :=
            ⟨rfl, rfl, fun _ => le_rfl, fun _ h => h, rfl, fun _ _ h => h⟩
          exact ⟨hs.issue.noteIssued hfresh, hlater,
            (asserts_of_later hlater hcall).congr rfl rfl rfl rfl⟩
      | none =>
          rw [hstamp] at hnext
          cases hnext
          exact ⟨hs.issue, SignInStore.later_issue,
            (asserts_of_later SignInStore.later_issue hcall).congr rfl rfl rfl rfl⟩
  | finishReturn c id => exact absurd rfl (hlast c id)
  | _ => cases hnext

/-- The next statement of a call, up to the last step of a password change. -/
theorem SignInCall.sound_next (hs : s.Sound) (hcall : call.Asserts s)
    (hlast : ∀ c id, call ≠ .finishReturn c id)
    (hnext : call.next token code deviceId ok s = some (s', call')) :
  s'.Sound ∧ s.Later s' ∧ call'.Asserts s'
  := by
  have hfresh := hcall.fresh
  have hread : ∀ {call' : SignInCall}, call'.Asserts s → s.Sound ∧ s.Later s ∧ call'.Asserts s :=
    fun h => ⟨hs, SignInStore.later_rfl, h⟩
  cases call with
  | done answer => cases hnext
  | loginUser email request device ssoVerified =>
      simp only [next] at hnext
      split at hnext
      · cases hnext
        exact hread asserts_done
      · rename_i response state hopaque
        cases hnext
        apply hread
        cases huser : s.byEmail email with
        | none => exact asserts_of_none rfl rfl rfl rfl
        | some user =>
            refine asserts_of_underWay ?_ rfl rfl rfl
            intro u st h
            cases h
            exact ⟨rfl, hs.retired user.id⟩
  | loginPut flow response stamp =>
      simp only [next] at hnext
      obtain ⟨-, rfl, rfl⟩ := SignInStore.put_eq hnext
      refine ⟨{ hs with logins := hs.logins.set ?_, known := ?_, used := ?_ },
        ⟨rfl, rfl, fun _ => le_rfl, fun _ h => List.mem_cons_of_mem _ h, rfl, fun _ _ h => h⟩,
        asserts_done⟩
      · intro u hu
        apply hfresh
        rw [underWay, hu]
        rfl
      · exact fun f hf => List.mem_cons_of_mem _ (hs.known f hf)
      · exact fun t ht => ⟨List.mem_cons_of_mem _ (hs.used t ht).1, (hs.used t ht).2⟩
  | loginTake loginId finalization =>
      simp only [next] at hnext
      split at hnext
      · cases hnext
        exact hread asserts_done
      · rename_i f hget
        have hs' : { s with logins := s.logins.erase loginId }.Sound :=
          { hs with logins := hs.logins.erase }
        have hlater : s.Later { s with logins := s.logins.erase loginId } :=
          ⟨rfl, rfl, fun _ => le_rfl, fun _ h => h, rfl, fun _ _ h => h⟩
        split at hnext
        · cases hnext
          exact ⟨hs', hlater, asserts_done⟩
        · rename_i userId huser
          split at hnext
          · cases hnext
            refine ⟨hs', hlater, asserts_of_underWay ?_ rfl rfl rfl⟩
            intro u st h
            cases h
            exact hs.logins.get hget huser
          · cases hnext
            exact ⟨hs', hlater, asserts_done⟩
  | loginLoad flow userId stamp =>
      simp only [next] at hnext
      split at hnext
      · cases hnext
        exact hread asserts_done
      · rename_i user huser
        have hid : user.id = userId := Table.key_of_get? huser
        split at hnext
        · cases hnext
          exact hread asserts_done
        · cases hnext
          apply hread
          refine asserts_of_underWay ?_ rfl rfl rfl
          intro u st h
          cases h
          rw [hid]
          exact hfresh _ _ rfl
  | mfaGet token =>
      simp only [next] at hnext
      split at hnext
      · cases hnext
        exact hread asserts_done
      · rename_i f hget
        cases hnext
        apply hread
        refine asserts_of_underWay ?_ rfl rfl rfl
        intro u st h
        obtain ⟨u', hu', heq⟩ := Option.map_eq_some_iff.mp h
        cases heq
        exact hs.mfas.get hget hu'
  | mfaLoad token flow stamp =>
      simp only [next] at hnext
      split at hnext
      · cases hnext
        exact hread asserts_done
      · rename_i user huser
        have hid : user.id = flow.userId := Table.key_of_get? huser
        split at hnext
        · cases hnext
          exact hread asserts_done
        · cases hnext
          apply hread
          refine asserts_of_underWay ?_ rfl rfl rfl
          intro u st h
          obtain ⟨u', hu', heq⟩ := Option.map_eq_some_iff.mp h
          cases heq
          apply hfresh
          have hsubject : flow.subject = some flow.userId := by
            unfold MfaFlow.subject at hu' ⊢
            split at hu'
            · rename_i hnone
              rw [if_pos hnone]
            · cases hu'
          rw [underWay, hsubject, hid]
          rfl
  | mfaCheck token flow user stamp =>
      simp only [next] at hnext
      split at hnext
      · cases hnext
        exact hread (hcall.congr rfl rfl rfl rfl)
      · cases hnext
        exact hread asserts_done
  | mfaDel token flow user stamp =>
      have hs' : { s with mfas := s.mfas.erase token }.Sound := { hs with mfas := hs.mfas.erase }
      have hlater : s.Later { s with mfas := s.mfas.erase token } :=
        ⟨rfl, rfl, fun _ => le_rfl, fun _ h => h, rfl, fun _ _ h => h⟩
      simp only [next] at hnext
      split at hnext
      · cases hnext
        exact ⟨hs', hlater, asserts_done⟩
      · rename_i device hreauth hdevice
        cases hnext
        refine ⟨hs', hlater, asserts_of_underWay ?_ rfl rfl rfl⟩
        intro u st h
        cases h
        apply hfresh
        simp [underWay, MfaFlow.subject, hreauth]
      · cases hnext
        exact ⟨hs', hlater, asserts_done⟩
  | approveGet token code =>
      simp only [next] at hnext
      split at hnext
      · cases hnext
        exact hread asserts_done
      · rename_i f hget
        split at hnext
        · cases hnext
          apply hread
          refine asserts_of_underWay ?_ rfl rfl rfl
          intro u st h
          cases h
          exact hs.approvals.get hget rfl
        · cases hnext
          exact hread asserts_done
  | approveDel token flow stamp =>
      cases hnext
      have hlater : s.Later { s with approvals := s.approvals.erase token } :=
        ⟨rfl, rfl, fun _ => le_rfl, fun _ h => h, rfl, fun _ _ h => h⟩
      exact ⟨{ hs with approvals := hs.approvals.erase }, hlater,
        (asserts_of_later hlater hcall).congr rfl rfl rfl rfl⟩
  | approveLoad flow stamp =>
      simp only [next] at hnext
      split at hnext
      · cases hnext
        exact hread asserts_done
      · rename_i user huser
        have hid : user.id = flow.userId := Table.key_of_get? huser
        split at hnext
        · cases hnext
          exact hread asserts_done
        · cases hnext
          apply hread
          refine asserts_of_underWay ?_ rfl rfl rfl
          intro u st h
          cases h
          rw [hid]
          exact hfresh _ _ rfl
  | resendGet token =>
      simp only [next] at hnext
      split at hnext
      · cases hnext
        exact hread asserts_done
      · rename_i f hget
        cases hnext
        apply hread
        refine asserts_of_underWay ?_ rfl rfl rfl
        intro u st h
        cases h
        exact hs.approvals.get hget rfl
  | resendSet token flow stamp =>
      cases hnext
      refine ⟨{ hs with approvals := hs.approvals.set ?_ },
        ⟨rfl, rfl, fun _ => le_rfl, fun _ h => h, rfl, fun _ _ h => h⟩, asserts_done⟩
      intro u hu
      cases hu
      exact hfresh _ _ rfl
  | recoveryUser email verifier =>
      simp only [next] at hnext
      split at hnext
      · cases hnext
        exact hread asserts_done
      · rename_i user huser
        split at hnext
        · cases hnext
          exact hread asserts_done
        · split at hnext
          · cases hnext
            exact hread asserts_done
          · cases hnext
            apply hread
            refine asserts_of_underWay ?_ rfl rfl rfl
            intro u st h
            cases h
            exact ⟨rfl, hs.retired user.id⟩
  | recoveryPut user stamp =>
      simp only [next] at hnext
      obtain ⟨hnew, rfl, rfl⟩ := SignInStore.put_eq hnext
      have hstays : ∀ t ∈ s.drawn, (setFlow s.recoveries ⟨token, ⟨user.id⟩, s.now + RECOVERY_TTL,
          stamp⟩).get? t = s.recoveries.get? t := by
        intro t ht
        apply get?_setFlow_of_ne
        rintro rfl
        exact hnew ht
      refine ⟨{ hs with recoveries := hs.recoveries.set ?_, known := ?_, used := ?_ },
        ⟨rfl, rfl, fun _ => le_rfl, fun _ h => List.mem_cons_of_mem _ h, rfl, ?_⟩, asserts_done⟩
      · intro u hu
        cases hu
        exact hfresh _ _ rfl
      · intro f hf
        rcases mem_setFlow hf with hf | rfl
        · exact List.mem_cons_of_mem _ (hs.known f hf)
        · exact List.mem_cons_self
      · intro t ht
        obtain ⟨hdrawn, hnone⟩ := hs.used t ht
        exact ⟨List.mem_cons_of_mem _ hdrawn, (hstays t hdrawn).trans hnone⟩
      · intro t ht hnone
        exact (hstays t ht).trans hnone
  | startGet token request =>
      simp only [next] at hnext
      split at hnext
      · cases hnext
        exact hread asserts_done
      · cases hnext
        exact hread (asserts_of_none rfl rfl rfl rfl)
  | startLoad userId request =>
      simp only [next] at hnext
      split at hnext
      · cases hnext
        exact hread asserts_done
      · split at hnext
        · cases hnext
          exact hread asserts_done
        · cases hnext
          exact hread asserts_done
  | mfaCount c =>
      simp only [next] at hnext
      exact sound_continueLogin hs hcall hnext
  | mfaPut c =>
      simp only [next] at hnext
      exact sound_continueLogin hs hcall hnext
  | deviceUpsert c =>
      simp only [next] at hnext
      exact sound_continueLogin hs hcall hnext
  | deviceApproved c id isNew =>
      simp only [next] at hnext
      exact sound_continueLogin hs hcall hnext
  | approvalPut c id =>
      simp only [next] at hnext
      exact sound_continueLogin hs hcall hnext
  | build userId id stamp =>
      simp only [next] at hnext
      exact sound_continueLogin hs hcall hnext
  | _ =>
      simp only [next] at hnext
      exact sound_finishPassword hs hcall hlast hnext

end

/-! ### Runs -/

section
variable {s s' : SignInStore} {call call' : SignInCall} {token code : String} {deviceId id : Uuid}
  {ok : Bool} {c : PasswordChange}

/-- The last step of a password change, while no flow of the user is in the cache. -/
theorem SignInStore.Sound.noteChanged (hs : s.Sound)
    (hcall : (SignInCall.finishReturn c id).Asserts s) (hsettled : s.Settled c.userId) :
  (s.noteChanged c.userId c.version c.req.recoveryToken).Sound
  := by
  obtain ⟨hlogins, hmfas, happrovals, hrecoveries⟩ := hsettled
  refine ⟨hs.logins.changed hlogins _ _, hs.mfas.changed hmfas _ _,
    hs.approvals.changed happrovals _ _, hs.recoveries.changed hrecoveries _ _, ?_, hs.known, ?_,
    hs.issued, ?_⟩
  · intro u
    by_cases hu : u = c.userId
    · subst hu
      simp only [SignInStore.noteChanged, Function.update_self]
      exact max_le (hs.retired _) (hcall.version c rfl)
    · simp only [SignInStore.noteChanged, Function.update_of_ne hu]
      exact hs.retired u
  · intro t ht
    rcases List.mem_append.mp ht with ht | ht
    · rw [Option.mem_toList] at ht
      exact ⟨(hcall.token t ht).1, hcall.deleted t ht⟩
    · exact hs.used t ht
  · simp only [SignInStore.noteChanged]
    cases htoken : c.req.recoveryToken with
    | none => exact hs.once
    | some t => exact List.nodup_cons.mpr ⟨(hcall.token t htoken).2, hs.once⟩

/-- What is kept of the calls for other users, and of other tokens. -/
theorem SignInCall.asserts_noteChanged (hcall : call.Asserts s)
    (hother : call.underWay.map Prod.fst ≠ some c.userId)
    (htoken : ∀ t, c.req.recoveryToken = some t → call.recoveryToken ≠ some t) :
  call.Asserts (s.noteChanged c.userId c.version c.req.recoveryToken)
  := by
  refine ⟨?_, ?_, hcall.deleted, hcall.version⟩
  · intro u st hu
    have hne : u ≠ c.userId := by
      rintro rfl
      exact hother (by rw [hu]; rfl)
    unfold SignInStore.Fresh
    simp only [SignInStore.noteChanged, Function.update_of_ne hne]
    exact hcall.fresh u st hu
  · intro t ht
    obtain ⟨hdrawn, hnew⟩ := hcall.token t ht
    refine ⟨hdrawn, ?_⟩
    intro hmem
    rcases List.mem_append.mp hmem with hmem | hmem
    · exact htoken t (Option.mem_toList.mp hmem) ht
    · exact hnew hmem

variable [Names] [TokenHash] [Opaque]

/-- A call gets a recovery token only when it finds the user of a password change. -/
theorem SignInCall.recoveryToken_next {t : String}
    (hnext : call.next token code deviceId ok s = some (s', call'))
    (ht : call'.recoveryToken = some t) :
  call.recoveryToken = some t
    ∨ ∃ req auth, call = .finishSubject req auth ∧ req.recoveryToken = some t
  := by
  cases call with
  | finishSubject req auth =>
      right
      refine ⟨req, auth, rfl, ?_⟩
      simp only [next, finishPassword] at hnext
      split at hnext
      · split at hnext
        · cases hnext
          cases ht
        · cases hnext
          exact ht
      · cases hnext
        exact ht
      · cases hnext
        cases ht
  | finishBuild c id =>
      cases hnext
      exact .inl ht
  | finishReturn c id =>
      cases hnext
      cases ht
  | finishCommit c record =>
      cases hnext
      exact .inl ht
  | finishRevoke c id =>
      cases hnext
      exact .inl ht
  | finishLoad c =>
      simp only [next, finishPassword] at hnext
      split at hnext
      · cases hnext
        cases ht
      · split at hnext
        · cases hnext
          cases ht
        · split at hnext
          · cases hnext
            cases ht
          · cases hnext
            exact .inl ht
  | finishDel c =>
      simp only [next, finishPassword] at hnext
      split at hnext
      · cases hnext
        exact .inl ht
      · cases hnext
        exact .inl ht
  | finishDevice c =>
      simp only [next, finishPassword] at hnext
      split at hnext
      · cases hnext
        exact .inl ht
      · split at hnext
        · cases hnext
        · cases hnext
          exact .inl ht
      · cases hnext
        cases ht
  | finishReload c id =>
      simp only [next, finishPassword] at hnext
      split at hnext
      · cases hnext
        cases ht
      · cases hnext
        exact .inl ht
  | _ =>
      -- the other calls have no token before the statement, and none after it
      simp only [next, continueLogin, SignInStore.put] at hnext
      repeat' split at hnext
      all_goals
        cases hnext
      all_goals
        cases ht

end

section
variable {p : Pool SignInStore SignInCall}

/-- What is kept of all calls: no two have read the same recovery token. -/
structure SignInSound (p : Pool SignInStore SignInCall) : Prop where
  shared : p.shared.Sound
  calls : ∀ j, (p.threads j).Asserts p.shared
  tokens : ∀ i j, i ≠ j → ∀ t, (p.threads i).recoveryToken = some t →
    (p.threads j).recoveryToken ≠ some t

/-- One call takes a step that leaves what is kept of the others. -/
theorem SignInSound.run (h : SignInSound p) {i : ℕ} {s' : SignInStore} {call' : SignInCall}
    (hs' : s'.Sound) (hcall' : call'.Asserts s')
    (hothers : ∀ j, j ≠ i → (p.threads j).Asserts s')
    (htoken : ∀ t, call'.recoveryToken = some t → ∀ j, j ≠ i → (p.threads j).recoveryToken ≠ some t) :
  SignInSound ⟨s', Function.update p.threads i call'⟩
  := by
  refine ⟨hs', ?_, ?_⟩
  · intro j
    by_cases hj : j = i
    · subst hj
      simp only [Function.update_self]
      exact hcall'
    · simp only [Function.update_of_ne hj]
      exact hothers j hj
  · intro j k hne t hj
    simp only at hj ⊢
    by_cases hji : j = i
    · subst hji
      rw [Function.update_self] at hj
      rw [Function.update_of_ne (Ne.symm hne)]
      exact htoken t hj k (Ne.symm hne)
    · rw [Function.update_of_ne hji] at hj
      by_cases hki : k = i
      · subst hki
        rw [Function.update_self]
        intro hk
        exact htoken t hk j hji hj
      · rw [Function.update_of_ne hki]
        exact h.tokens j k hne t hj

/-- What happens outside the calls. -/
theorem SignInEvent.sound_apply {s s' : SignInStore} (hs : s.Sound) {e : SignInEvent}
    (h : e.apply s = some s') :
  s'.Sound ∧ s.Later s'
  := by
  cases e with
  | pass seconds =>
      cases h
      exact ⟨{ hs with
        logins := hs.logins.pass seconds
        mfas := hs.mfas.pass seconds
        approvals := hs.approvals.pass seconds
        recoveries := hs.recoveries.pass seconds },
        ⟨rfl, rfl, fun _ => le_rfl, fun _ h => h, rfl, fun _ _ h => h⟩⟩
  | register user =>
      obtain ⟨users, -, rfl⟩ := Option.map_eq_some_iff.mp h
      have hlater : s.Later { s with users := users } :=
        ⟨rfl, rfl, fun _ => le_rfl, fun _ h => h, rfl, fun _ _ h => h⟩
      exact ⟨hs.of_eq rfl rfl rfl rfl rfl hlater rfl fun _ h => .inl h, hlater⟩
  | reauth token flow sessionId =>
      simp only [SignInEvent.apply] at h
      split at h
      · cases h
      · cases h
        refine ⟨{ hs with mfas := hs.mfas.set ?_, known := ?_, used := ?_ },
          ⟨rfl, rfl, fun _ => le_rfl, fun _ h => List.mem_cons_of_mem _ h, rfl, fun _ _ h => h⟩⟩
        · intro u hu
          cases hu
        · exact fun f hf => List.mem_cons_of_mem _ (hs.known f hf)
        · exact fun t ht => ⟨List.mem_cons_of_mem _ (hs.used t ht).1, (hs.used t ht).2⟩
  | configure settings =>
      cases h
      have hlater : s.Later { s with settings := settings } :=
        ⟨rfl, rfl, fun _ => le_rfl, fun _ h => h, rfl, fun _ _ h => h⟩
      exact ⟨hs.of_eq rfl rfl rfl rfl rfl hlater rfl fun _ h => .inl h, hlater⟩

variable [Names] [TokenHash] [Opaque]

/-- A step of a call, while nothing of its user is under way when a password change returns. -/
theorem SignInSound.exec (h : SignInSound p) {i : ℕ} {e : SignInStep} {s' : SignInStore}
    {call' : SignInCall} (hG : flowsSettled p (.run i e))
    (hexec : (p.threads i).exec e p.shared = some (s', call')) :
  SignInSound ⟨s', Function.update p.threads i call'⟩
  := by
  have hcall := h.calls i
  have hquiet : ∀ {call' : SignInCall}, call'.underWay = none → call'.recoveryToken = none →
      call'.deleted = none → call'.change = none →
      SignInSound ⟨p.shared, Function.update p.threads i call'⟩ := by
    intro call' hunderWay htoken hdeleted hchange
    apply h.run h.shared (SignInCall.asserts_of_none hunderWay htoken hdeleted hchange)
      (fun j _ => h.calls j)
    intro t ht
    rw [htoken] at ht
    cases ht
  have hstart : ∀ {e : SignInStep} {call' : SignInCall}, e.start = some call' →
      SignInSound ⟨p.shared, Function.update p.threads i call'⟩ := by
    intro e call' hstart
    cases e with
    | loginStart email request device ssoVerified =>
        simp only [SignInStep.start] at hstart
        split at hstart <;> cases hstart <;> exact hquiet rfl rfl rfl rfl
    | recoveryStart email verifier =>
        simp only [SignInStep.start] at hstart
        split at hstart <;> cases hstart <;> exact hquiet rfl rfl rfl rfl
    | passwordStart auth token request =>
        simp only [SignInStep.start] at hstart
        split at hstart <;> cases hstart <;> exact hquiet rfl rfl rfl rfl
    | drop => cases hstart
    | next token code deviceId ok => cases hstart
    | _ =>
        cases hstart
        exact hquiet rfl rfl rfl rfl
  cases e with
  | drop =>
      cases hexec
      exact hquiet rfl rfl rfl rfl
  | next token code deviceId ok =>
      have hnext : (p.threads i).next token code deviceId ok p.shared = some (s', call') := hexec
      by_cases hlast : ∃ c id, p.threads i = .finishReturn c id
      · obtain ⟨c, id, hthread⟩ := hlast
        rw [hthread] at hnext hcall
        simp only [flowsSettled, hthread] at hG
        cases hnext
        refine h.run (h.shared.noteChanged hcall hG.1) SignInCall.asserts_done ?_ ?_
        · intro j hj
          apply SignInCall.asserts_noteChanged (h.calls j) (hG.2 j hj)
          intro t ht
          exact h.tokens i j (Ne.symm hj) t (by rw [hthread]; exact ht)
        · intro t ht
          cases ht
      · have hlast' : ∀ c id, p.threads i ≠ .finishReturn c id :=
          fun c id heq => hlast ⟨c, id, heq⟩
        obtain ⟨hs', hlater, hcall'⟩ := SignInCall.sound_next h.shared hcall hlast' hnext
        refine h.run hs' hcall' (fun j _ => SignInCall.asserts_of_later hlater (h.calls j)) ?_
        intro t ht j hj
        rcases SignInCall.recoveryToken_next hnext ht with hold | ⟨req, auth, hthread, hreq⟩
        · exact h.tokens i j (Ne.symm hj) t hold
        · simp only [flowsSettled, hthread] at hG
          exact hG t hreq j hj
  | _ =>
      cases hthread : p.threads i with
      | done answer =>
          rw [hthread] at hexec
          simp only [SignInCall.exec, Option.map_eq_some_iff, Prod.mk.injEq] at hexec
          obtain ⟨call₀, hcall₀, rfl, rfl⟩ := hexec
          exact hstart hcall₀
      | _ =>
          rw [hthread] at hexec
          cases hexec

end

/-! ### A recovery, and a sign-in that outlives it -/

/-- A password protocol in which the password is what is kept of it. -/
@[reducible]
def plainOpaque : Opaque where
  loginStart _ record _ := some ("", record.getD "")
  loginFinish _ state finalization := decide (state ≠ "") && decide (finalization = state)
  registrationStart _ request := some request
  registrationFinish upload := some upload

/-- No account, and no flow. -/
def noAccounts : SignInStore where
  now := 0
  users := .empty
  devices := .empty
  sessions := []
  settings := ⟨false, false, []⟩
  logins := .empty
  mfas := .empty
  approvals := .empty
  recoveries := .empty
  drawn := []
  changes _ := 0
  version _ := 0
  retired _ := 0
  issued := []
  completed := []

def noSignIns : Pool SignInStore SignInCall := ⟨noAccounts, fun _ => .done none⟩

theorem init_noSignIns :
  (@signInCalls plainNames plainHash plainOpaque).system.init noSignIns
  := ⟨⟨rfl, rfl, rfl, rfl, fun _ => ⟨rfl, rfl⟩, rfl, rfl, rfl⟩, fun _ => rfl⟩

/-- User 5 registers with a password and a recovery phrase. -/
def registerUser : PoolStep SignInStep SignInEvent :=
  .env (.register ⟨5, "user@example.org", some "old", "", "", "phrase", "", false, 0, true, false⟩)

/-- The next statements of a thread, for which ids of devices are drawn. -/
def signInSteps (thread n : ℕ) (token : String) (deviceId : Uuid) :
    List (PoolStep SignInStep SignInEvent) :=
  List.replicate n (.run thread (.next token "" deviceId true))

/-- Start to sign in. -/
def startLogin (thread : ℕ) (token : String) : List (PoolStep SignInStep SignInEvent) :=
  .run thread (.loginStart "user@example.org" "" ⟨none⟩ false) :: signInSteps thread 2 token 0

/-- Sign in on a new device. -/
def finishLogin (thread : ℕ) (token password : String) (deviceId : Uuid) :
    List (PoolStep SignInStep SignInEvent) :=
  .run thread (.loginFinish token password) :: signInSteps thread 6 "" deviceId

/-- Recover the account with the phrase, and set a new password. -/
def recover (thread : ℕ) : List (PoolStep SignInStep SignInEvent) :=
  .run thread (.recoveryStart "user@example.org" "phrase") :: signInSteps thread 2 "recovery" 0
    ++ .run thread (.passwordFinish none ⟨some "recovery", "new", "", none, some ⟨none⟩⟩)
      :: signInSteps thread 9 "" 70

/-- What a password change that is on its own has to find when it returns. -/
def settledAlone (p : Pool SignInStore SignInCall) : PoolStep SignInStep SignInEvent → Prop
  | .run _ (.next _ _ _ _) =>
    match p.threads 0 with
    | .finishReturn c _ => p.shared.Settled c.userId
    | _ => True
  | _ => True

instance {α : Type} (s : SignInStore) (subject : α → Option Uuid) (t : Table (FlowRow α))
    (userId : Uuid) : Decidable (s.NoFlow subject t userId) :=
  inferInstanceAs (Decidable (∀ f ∈ t.rows, s.now < f.expiresAt → subject f.flow ≠ some userId))

instance (s : SignInStore) (userId : Uuid) : Decidable (s.Settled userId) :=
  inferInstanceAs (Decidable (_ ∧ _ ∧ _ ∧ _))

instance (p : Pool SignInStore SignInCall) (l : PoolStep SignInStep SignInEvent) :
    Decidable (settledAlone p l) := by
  unfold settledAlone
  split
  · split <;> infer_instance
  · infer_instance

/-- When the other threads are idle, nothing else is asked for. -/
theorem flowsSettled_of_alone {p : Pool SignInStore SignInCall}
    {l : PoolStep SignInStep SignInEvent} (hl : Threads.Of 0 l)
    (hidle : ∀ j, j ≠ 0 → p.threads j = .done none) (h : settledAlone p l) :
  flowsSettled p l
  := by
  cases l with
  | env x => trivial
  | run i e =>
      have hi : i = 0 := hl
      subst hi
      cases e with
      | next token code deviceId ok =>
          simp only [settledAlone, flowsSettled] at h ⊢
          split
          · rename_i c id hthread
            rw [hthread] at h
            refine ⟨h, ?_⟩
            intro j hj
            rw [hidle j hj]
            exact fun hnone => nomatch hnone
          · intro t _ j hj
            rw [hidle j hj]
            exact fun hnone => nomatch hnone
          · trivial
      | _ => trivial

end Termoso.Server
