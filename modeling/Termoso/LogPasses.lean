import Termoso.Core.LogSync
import Termoso.Server.Uploads
import Termoso.Lib.Transition

/-!
# Passes over session logs

A device records sessions, and passes over its logs from time to time: it uploads its finished
recordings one by one, pushes its deletions, and pulls the metadata of its own logs and of those
of the team vaults it holds a key for.  Each request may be lost on its way, its answer may be
lost, and it may be refused; the device may also stop while a request is out, which is the same
as not getting the answer.
-/

namespace Termoso

open Core (Store LogRow LogMeta LocalVault Serde)
open Server (LogServer)

/-! ### Requests -/

/-- Which listing is pulled: that of one's own logs, or that of a vault. -/
inductive LogFeed
  | own
  | vault (id : Uuid)
deriving DecidableEq

/-- The request a pass has out, and what comes after it. -/
inductive LogRequest
  | create (row : LogRow) (body : Bytes) (rest : List LogRow)
  | put (row : LogRow) (body : Bytes) (rest : List LogRow)
  | update (row : LogRow) (size : ℤ) (rest : List LogRow)
  | delete (row : LogRow) (rest : List LogRow)
  | pull (feed : LogFeed) (since : ℤ) (rest : List LocalVault)

namespace LogRequest

/-- What the request is answered with when it is not refused. -/
abbrev Answer : LogRequest → Type
  | create _ _ _ => Unit
  | put _ _ _ => Unit
  | update _ _ _ => ℤ
  | delete _ _ => Unit
  | pull _ _ _ => LogListResponse

/-- The log that is being uploaded. -/
def uploads : LogRequest → Option Uuid
  | create row _ _ => some row.id
  | put row _ _ => some row.id
  | update row _ _ => some row.id
  | delete _ _ => none
  | pull _ _ _ => none

end LogRequest

/-- Who the device is to the server, where it keeps its recordings, and how the server is set up. -/
structure LogSite where
  settings : Server.Settings
  auth : Server.Auth
  dir : String
  batch : ℕ

/-- The registration of a recording. -/
def registration (row : LogRow) (size : ℤ) : CreateLogRequest where
  id := row.id
  vaultId := row.vaultId
  metadata := row.metadata
  keyVersion := row.keyVersion
  sizeBytes := size

section
variable [Primitives]

/-- What the server does with a request. -/
def LogSite.serve (site : LogSite) (now : DateTime) (recordingRequired mayDelete : Bool)
    (s : LogServer) : (request : LogRequest) → Except Server.Error request.Answer × LogServer
  | .create row body _ => s.create site.settings site.auth now (registration row body.length)
  | .put row body _ => (.ok (), s.setObject site.auth.userId row.id (some body))
  | .update row size _ => s.complete site.settings site.auth row.id size
  | .delete row _ => s.delete site.auth recordingRequired mayDelete row.id
  | .pull .own since _ => (.ok (s.db.logList site.auth (clampLimit (some site.batch)) since), s)
  | .pull (.vault id) since _ =>
    (s.db.logListVault site.auth id (clampLimit (some site.batch)) since, s)

end

/-! ### The device -/

/-- What a pass did: logs uploaded, metadata rows pulled, and the logs that were refused. -/
structure LogReport where
  uploaded : ℕ
  pulled : ℕ
  errors : List (Uuid × String)
deriving DecidableEq

/-- What a pass has read when it starts: the cursor of the account, and the vaults. -/
structure LogPlan where
  cursor : ℤ
  vaults : List LocalVault

/-- A device and the server. `recorded` has the logs that were recorded on the device. -/
structure LogWorld where
  store : Store
  server : LogServer
  recorded : List Uuid
  pass : Option (LogPlan × LogRequest)
  report : LogReport

namespace LogWorld

/-- The pass ends. -/
def stop (w : LogWorld) : LogWorld := { w with pass := none }

/-- The pass sends a request. -/
def ask (w : LogWorld) (plan : LogPlan) (request : LogRequest) : LogWorld :=
  { w with pass := some (plan, request) }

/-- Pull the logs of the team vaults with a key, from here on. -/
def pullNext (w : LogWorld) (plan : LogPlan) : List LocalVault → LogWorld
  | [] => w.stop
  | v :: rest =>
    if v.kind = .team ∧ v.unlocked = true then
      w.ask plan (.pull (.vault v.id) v.logsCursor rest)
    else w.pullNext plan rest

/-- Push the deletions from here on, then pull. -/
def deleteNext (w : LogWorld) (plan : LogPlan) : List LogRow → LogWorld
  | [] => w.ask plan (.pull .own plan.cursor plan.vaults)
  | row :: rest => w.ask plan (.delete row rest)

/-- Upload the recordings from here on, then push the deletions. -/
def uploadNext (w : LogWorld) (plan : LogPlan) : List LogRow → LogWorld
  | [] => w.deleteNext plan w.store.logsToDeleteRemote
  | row :: rest =>
    match w.store.logBodyCiphertext row.id with
    | some body => w.ask plan (.create row body rest)
    | none => w.stop

/-- Note that a log was refused. -/
def note (w : LogWorld) (id : Uuid) (code : String) : LogWorld :=
  { w with report := { w.report with errors := w.report.errors ++ [(id, code)] } }

/-- An upload is refused. Storage-side refusals are per log and do not stall the rest of the
pass. -/
def refused (w : LogWorld) (plan : LogPlan) (row : LogRow) (rest : List LogRow) (status : ℕ)
    (code : String) : LogWorld :=
  if Server.perLog status then (w.note row.id code).uploadNext plan rest else w.stop

/-- The cursor after a page. -/
def nextSince (since : ℤ) (resp : LogListResponse) : ℤ :=
  max (((resp.logs.map SessionLog.seq).max?).getD since) resp.since

/-- Save the cursor of a listing. -/
def saveCursor (s : Store) (next : ℤ) : LogFeed → Store
  | .own => s.setAccountCursors none (some next)
  | .vault id => s.setVaultLogsCursor id next

/-- Mirror a page, and save the cursor behind it. -/
def mirrored (w : LogWorld) (feed : LogFeed) (since : ℤ) (resp : LogListResponse) : LogWorld :=
  let next := nextSince since resp
  let store := w.store.applyRemoteLogs resp.logs
  { w with
    store := if next > since then saveCursor store next feed else store
    report := { w.report with pulled := w.report.pulled + resp.logs.length } }

/-- Mirror a page, and go on behind it or to the next listing. -/
def pulled (w : LogWorld) (plan : LogPlan) (feed : LogFeed) (since : ℤ) (rest : List LocalVault)
    (resp : LogListResponse) : LogWorld :=
  let w := w.mirrored feed since resp
  if !resp.hasMore || resp.logs.isEmpty then w.pullNext plan rest
  else w.ask plan (.pull feed (max since (nextSince since resp)) rest)

/-- What the pass does with an answer, or with the status and the code of a refusal. -/
def receive (w : LogWorld) (plan : LogPlan) :
    (request : LogRequest) → Except (ℕ × String) request.Answer → LogWorld
  | .create row body rest, .ok _ => w.ask plan (.put row body rest)
  | .create row body rest, .error (status, code) =>
    -- Registered on an earlier pass: the object may already be there, so just try to complete it.
    if code = "conflict" then w.ask plan (.update row body.length rest)
    else w.refused plan row rest status code
  | .put row body rest, .ok _ => w.ask plan (.update row body.length rest)
  | .put row _ rest, .error (status, code) => w.refused plan row rest status code
  | .update row _ rest, .ok seq =>
    uploadNext
      { w with
        store := w.store.markLogUploaded row.id seq
        report := { w.report with uploaded := w.report.uploaded + 1 } } plan rest
  | .update row _ rest, .error (status, code) => w.refused plan row rest status code
  | .delete row rest, .ok _ =>
    deleteNext { w with store := w.store.forgetLog row.id } plan rest
  | .delete row rest, .error (_, code) =>
    if code = "not_found" then deleteNext { w with store := w.store.forgetLog row.id } plan rest
    else if code = "forbidden" then
      -- A recording we may only read: the row comes back and the deletion is dropped.
      deleteNext (note { w with store := w.store.restoreLog row.id } row.id code) plan rest
    else w.stop
  | .pull feed since rest, .ok resp => w.pulled plan feed since rest resp
  | .pull .own _ _, .error _ => w.stop
  | .pull (.vault _) _ rest, .error (_, code) =>
    -- Lost the vault between the list and the pull.
    if code = "not_found" ∨ code = "forbidden" then w.pullNext plan rest else w.stop

/-- Start a pass: the finished recordings are uploaded, those in other vaults than the team vaults
with session logging only if the device uploads its logs. -/
def start (w : LogWorld) (account : Core.StoredAccount) (uploadLogs : Bool) : LogWorld :=
  let vaults := w.store.listVaults
  let shared := (vaults.filter (fun v => decide (v.kind = .team) && v.sessionLogging)).map
    LocalVault.id
  uploadNext { w with report := ⟨0, 0, []⟩ } ⟨account.logsCursor, vaults⟩
    (w.store.logsToUpload.filter (fun row => uploadLogs || shared.contains row.vaultId))

end LogWorld

/-! ### Steps -/

/-- A step: one of the user, one of the device, or what becomes of the request that is out. -/
inductive LogEvent
  /-- A recording is finished. -/
  | record (vaultId : Uuid) (begun ended : LogMeta) (body : Bytes) (id : Uuid) (now : DateTime)
      (nonce nonce' bodyNonce : Nonce)
  /-- A recording is deleted. -/
  | delete (id : Uuid)
  /-- A file goes away. -/
  | discard (path : String)
  | start (uploadLogs : Bool)
  /-- The request is carried out, and answered. -/
  | answered (now : DateTime) (recordingRequired mayDelete : Bool)
  /-- The request is carried out, and the answer is lost. -/
  | unanswered (now : DateTime) (recordingRequired mayDelete : Bool)
  /-- The request is lost. -/
  | lost
  /-- The request is refused without being looked at. -/
  | refused (status : ℕ) (code : String)

namespace LogWorld

/-- An identifier that nothing is named by, and whose file is nobody's. -/
def fresh (w : LogWorld) (dir : String) (id : Uuid) : Bool :=
  (w.store.logRow id).isNone && (w.server.log id).isNone && !w.recorded.contains id
    && decide ((w.pass.bind (fun p => p.2.uploads)) ≠ some id)
    && w.store.sessionLogs.rows.all (fun r => decide (r.localPath ≠ some s!"{dir}/{id}.tlog"))

section
variable [Primitives] [Serde LogMeta]

/-- The world after a step, when the step is possible. -/
def step (site : LogSite) (w : LogWorld) : LogEvent → Option LogWorld
  | .record vaultId begun ended body id now nonce nonce' bodyNonce =>
    if w.fresh site.dir id then
      (do
        let s ← w.store.beginLog vaultId begun id now nonce
        s.finishLog id ended body site.dir nonce' bodyNonce).toOption.map
          (fun store => { w with store, recorded := id :: w.recorded })
    else none
  | .delete id => (w.store.deleteLog id).toOption.map (fun store => { w with store })
  | .discard path => some { w with store := w.store.removeFile (some path) }
  | .start uploadLogs =>
    match w.pass, w.store.account with
    | none, some account => some (w.start account uploadLogs)
    | _, _ => none
  | .answered now recordingRequired mayDelete =>
    w.pass.map (fun (plan, request) =>
      let (answer, server) := site.serve now recordingRequired mayDelete w.server request
      receive { w with server } plan request (answer.mapError (fun e => (e.status, e.code))))
  | .unanswered now recordingRequired mayDelete =>
    w.pass.map (fun (_, request) =>
      stop { w with server := (site.serve now recordingRequired mayDelete w.server request).2 })
  | .lost => w.pass.map (fun _ => w.stop)
  | .refused status code =>
    w.pass.map (fun (plan, request) => w.receive plan request (.error (status, code)))

/-- A device that has recorded nothing yet, and a server that knows its user. -/
def system (site : LogSite) : TransitionSystem LogWorld LogEvent where
  init w := w.pass = none ∧ w.recorded = [] ∧ Server.Referenced w.server.db
    ∧ (w.server.db.users.get? site.auth.userId).isSome
  step := step site

end

end LogWorld

end Termoso
