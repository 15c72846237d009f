import Termoso.LogPasses
import Termoso.Lib.Ends
import Termoso.Lib.Paging
import Mathlib.Data.Prod.Lex

/-!
# Recordings marked uploaded are on the server

An upload that is cut short between its registration and the end of its object's way into storage
leaves a log that is registered and never completed: the next pass takes the registration for a
finished upload, and the metadata pull marks the recording uploaded.  In the runs in which no
registration is left without its object, and none that is not completed is mirrored back to the
device that recorded it, a recording marked uploaded is completed on the server, and one that is
not is completed by the next pass whose requests arrive and are not refused.
-/

namespace Termoso

open Core (Store LogRow LogMeta LocalVault Serde)
open Server (LogServer)

/-! ### What is to hold -/

/-- A log is completed, and has an object in storage unless it was deleted. -/
def Server.LogServer.Completed (s : LogServer) (id : Uuid) : Prop :=
  ∃ log, s.log id = some log ∧ log.completed = true
    ∧ (log.deleted = false → (s.object id).isSome = true)

namespace LogWorld

/-- A recording of this device that is marked uploaded is completed on the server. -/
def UploadedFaithful (w : LogWorld) : Prop :=
  ∀ id ∈ w.recorded, ∀ r, w.store.logRow id = some r → r.uploaded = true → w.server.Completed id

section
variable [Primitives]

/-- The registration that is carried out is answered, its object is stored, and no page is mirrored
that has a recording of this device which is registered and not completed. -/
def undisturbed (site : LogSite) (w : LogWorld) (e : LogEvent) : Bool :=
  match w.pass, e with
  | some (_, .create row body _), .unanswered now _ _ =>
    !(w.server.create site.settings site.auth now (registration row body.length)).1.isOk
  | some (_, .put _ _ _), .lost => false
  | some (_, .put _ _ _), .refused _ _ => false
  | some (_, .pull feed since rest), .answered now recordingRequired mayDelete =>
    match (site.serve now recordingRequired mayDelete w.server (.pull feed since rest)).1 with
    | .ok resp => resp.logs.all (fun l => l.completed || l.deleted || !w.recorded.contains l.id)
    | .error _ => true
  | _, _ => true

end

/-! ### The invariant -/

/-- What is known of a recording at any time. -/
structure Base (site : LogSite) (store : Store) (server : LogServer) (id : Uuid) : Prop where
  author : ∀ log, server.log id = some log → log.userId = site.auth.userId
  uploaded : ∀ r, store.logRow id = some r → r.uploaded = true →
    ∃ log, server.log id = some log ∧ log.completed = true
  ready : ∀ r, store.logRow id = some r → r.localPath.isSome = true →
    r.completed = true ∧ r.deleted = false

/-- The body of a recording, if it is on disk, is `body`. -/
def BodyIs (store : Store) (id : Uuid) (body : Bytes) : Prop :=
  ∀ body', store.logBodyCiphertext id = some body' → body' = body

/-- The object of a live log is stored, and if the log is not completed it is the body on disk. -/
def Stored (site : LogSite) (store : Store) (server : LogServer) (id : Uuid) : Prop :=
  ∀ log, server.log id = some log → log.deleted = false →
    ∃ object, server.objects site.auth.userId id = some object
      ∧ (object.length : ℤ) ≤ site.settings.maxLogBytes
      ∧ (log.completed = false → BodyIs store id object)

/-- What is known of a recording while a request is out: its object is stored, unless this is on its
way. -/
def Outstanding (site : LogSite) (store : Store) (server : LogServer) (id : Uuid) :
    LogRequest → Prop
  | .create row body _ => Stored site store server id ∧ (row.id = id → BodyIs store id body)
  | .put row body _ =>
    (row.id ≠ id → Stored site store server id)
      ∧ (row.id = id → (∀ log, server.log id = some log → log.completed = false)
          ∧ (body.length : ℤ) ≤ site.settings.maxLogBytes ∧ BodyIs store id body)
  | _ => Stored site store server id

/-- What is known of a recording. -/
structure Kept (site : LogSite) (w : LogWorld) (id : Uuid) : Prop where
  base : Base site w.store w.server id
  idle : w.pass = none → Stored site w.store w.server id
  out : ∀ plan request, w.pass = some (plan, request) →
    Outstanding site w.store w.server id request

/-- What is known of the device and the server. -/
structure Sound (site : LogSite) (w : LogWorld) : Prop where
  referenced : Server.Referenced w.server.db
  user : (w.server.db.users.get? site.auth.userId).isSome = true
  kept : ∀ id ∈ w.recorded, Kept site w id

/-- A recording marked uploaded is completed on the server. -/
theorem completed_of_kept {site : LogSite} {w : LogWorld} {id : Uuid} {r : LogRow}
    (h : Kept site w id) (hr : w.store.logRow id = some r) (huploaded : r.uploaded = true) :
  w.server.Completed id
  := by
  obtain ⟨log, hlog, hcompleted⟩ := h.base.uploaded r hr huploaded
  refine ⟨log, hlog, hcompleted, fun hlive => ?_⟩
  have hstored : Stored site w.store w.server id := by
    cases hpass : w.pass with
    | none => exact h.idle hpass
    | some p =>
        have hout := h.out p.1 p.2 hpass
        cases hrequest : p.2 with
        | create row body rest =>
            rw [hrequest] at hout
            exact hout.1
        | put row body rest =>
            rw [hrequest] at hout
            by_cases hid : row.id = id
            · have := (hout.2 hid).1 log hlog
              rw [hcompleted] at this
              cases this
            · exact hout.1 hid
        | update row size rest =>
            rw [hrequest] at hout
            exact hout
        | delete row rest =>
            rw [hrequest] at hout
            exact hout
        | pull feed since rest =>
            rw [hrequest] at hout
            exact hout
  obtain ⟨object, hobject, -⟩ := hstored log hlog hlive
  rw [LogServer.object, hlog, Option.bind_some, h.base.author log hlog]
  exact Option.isSome_of_eq_some hobject

/-! ### Going on -/

/-- A request of a pass that goes on: nothing is on its way into storage, and the body to be
uploaded is the one on disk. -/
def Next (store : Store) : LogRequest → Prop
  | .create row body _ => store.logBodyCiphertext row.id = some body
  | .put _ _ _ => False
  | _ => True

/-- The pass goes on, or ends. -/
structure GoesOn (w w' : LogWorld) : Prop where
  store : w'.store = w.store
  server : w'.server = w.server
  recorded : w'.recorded = w.recorded
  next : ∀ plan request, w'.pass = some (plan, request) → Next w.store request

section
variable {site : LogSite} {w w' : LogWorld} {plan : LogPlan} {id : Uuid}

theorem goesOn_stop :
  GoesOn w w.stop
  := ⟨rfl, rfl, rfl, fun _ _ h => absurd h (by simp [stop])⟩

theorem goesOn_ask {request : LogRequest} (h : Next w.store request) :
  GoesOn w (w.ask plan request)
  := by
  refine ⟨rfl, rfl, rfl, ?_⟩
  rintro plan' request' ⟨⟩
  exact h

theorem goesOn_pullNext {vaults : List LocalVault} :
  GoesOn w (w.pullNext plan vaults)
  := by
  induction vaults with
  | nil => exact goesOn_stop
  | cons v rest ih =>
      rw [pullNext]
      split
      · exact goesOn_ask trivial
      · exact ih

theorem goesOn_deleteNext {rows : List LogRow} :
  GoesOn w (w.deleteNext plan rows)
  := by
  cases rows with
  | nil => exact goesOn_ask trivial
  | cons row rest => exact goesOn_ask trivial

theorem goesOn_uploadNext {rows : List LogRow} :
  GoesOn w (w.uploadNext plan rows)
  := by
  cases rows with
  | nil => exact goesOn_deleteNext
  | cons row rest =>
      rw [uploadNext]
      split
      · rename_i body hbody
        exact goesOn_ask hbody
      · exact goesOn_stop

theorem goesOn_refused {row : LogRow} {rest : List LogRow} {status : ℕ} {code : String} :
  GoesOn w (w.refused plan row rest status code)
  := by
  rw [refused]
  split
  · have hon : GoesOn (w.note row.id code) ((w.note row.id code).uploadNext plan rest) :=
      goesOn_uploadNext
    obtain ⟨hstore, hserver, hrecorded, hnext⟩ := hon
    exact ⟨hstore, hserver, hrecorded, hnext⟩
  · exact goesOn_stop

/-- A pass that goes on keeps what is known. -/
theorem kept_of_goesOn (hbase : Base site w.store w.server id)
    (hstored : Stored site w.store w.server id) (h : GoesOn w w') :
  Kept site w' id
  := by
  refine ⟨h.store ▸ h.server ▸ hbase, fun _ => h.store ▸ h.server ▸ hstored, ?_⟩
  intro plan request hpass
  have hnext := h.next plan request hpass
  rw [h.store, h.server]
  cases request with
  | create row body rest =>
      refine ⟨hstored, ?_⟩
      rintro rfl body' hbody'
      exact Option.some.inj (hbody'.symm.trans hnext)
  | put row body rest => exact hnext.elim
  | update row size rest => exact hstored
  | delete row rest => exact hstored
  | pull feed since rest => exact hstored

end

/-! ### Steps of the user -/

section
variable {site : LogSite} {w : LogWorld} {store store' : Store} {server server' : LogServer}
  {id : Uuid}

/-- What an operation leaves of the row of a recording. -/
def Leaves (store store' : Store) (id : Uuid) : Prop :=
  ∀ r', store'.logRow id = some r' → ∃ r, store.logRow id = some r
    ∧ (r'.uploaded = true → r.uploaded = true)
    ∧ (r'.localPath.isSome = true → r.localPath.isSome = true ∧ r'.completed = r.completed
        ∧ r'.deleted = r.deleted)

theorem leaves_of_eq (h : store'.logRow id = store.logRow id) :
  Leaves store store' id
  := by
  intro r' hr'
  exact ⟨r', h ▸ hr', fun h => h, fun h => ⟨h, rfl, rfl⟩⟩

theorem base_of_leaves (h : Base site store server id) (hrow : Leaves store store' id) :
  Base site store' server id
  := by
  refine ⟨h.author, ?_, ?_⟩
  · intro r' hr' huploaded
    obtain ⟨r, hr, hwas, -⟩ := hrow r' hr'
    exact h.uploaded r hr (hwas huploaded)
  · intro r' hr' hpath
    obtain ⟨r, hr, -, hsame⟩ := hrow r' hr'
    obtain ⟨hpath', hcompleted, hdeleted⟩ := hsame hpath
    rw [hcompleted, hdeleted]
    exact h.ready r hr hpath'

variable (hbody : ∀ body, store'.logBodyCiphertext id = some body →
  store.logBodyCiphertext id = some body)
include hbody

theorem bodyIs_of_body {body : Bytes} (h : BodyIs store id body) :
  BodyIs store' id body
  := fun body' hbody' => h body' (hbody body' hbody')

theorem stored_of_body (h : Stored site store server id) :
  Stored site store' server id
  := by
  intro log hlog hlive
  obtain ⟨object, hobject, hwithin, hsame⟩ := h log hlog hlive
  exact ⟨object, hobject, hwithin, fun hopen => bodyIs_of_body hbody (hsame hopen)⟩

theorem outstanding_of_body {request : LogRequest} (h : Outstanding site store server id request) :
  Outstanding site store' server id request
  := by
  cases request with
  | create row body rest =>
      exact ⟨stored_of_body hbody h.1, fun hid => bodyIs_of_body hbody (h.2 hid)⟩
  | put row body rest =>
      refine ⟨fun hid => stored_of_body hbody (h.1 hid), fun hid => ?_⟩
      obtain ⟨hopen, hwithin, hsame⟩ := h.2 hid
      exact ⟨hopen, hwithin, bodyIs_of_body hbody hsame⟩
  | update row size rest => exact stored_of_body hbody h
  | delete row rest => exact stored_of_body hbody h
  | pull feed since rest => exact stored_of_body hbody h

end

section
variable {site : LogSite} {w : LogWorld} {store' : Store} {id : Uuid}

/-- What is known stays known when bodies and rows are left. -/
theorem kept_of_store {recorded : List Uuid} (h : Kept site w id)
    (hbody : ∀ body, store'.logBodyCiphertext id = some body →
      w.store.logBodyCiphertext id = some body)
    (hrow : Leaves w.store store' id) :
  Kept site { w with store := store', recorded } id
  := by
  refine ⟨base_of_leaves h.base hrow, ?_, ?_⟩
  · exact fun hpass => stored_of_body hbody (h.idle hpass)
  · exact fun plan request hpass => outstanding_of_body hbody (h.out plan request hpass)

/-- What is known of a recording that the server knows nothing of. -/
theorem kept_of_new {recorded : List Uuid} (hserver : w.server.log id = none)
    (huploads : ∀ plan request, w.pass = some (plan, request) → request.uploads ≠ some id)
    (hrow : ∀ r, store'.logRow id = some r →
      r.uploaded = false ∧ r.completed = true ∧ r.deleted = false) :
  Kept site { w with store := store', recorded } id
  := by
  have hstored : Stored site store' w.server id := by
    intro log hlog
    rw [hserver] at hlog
    cases hlog
  refine ⟨⟨?_, ?_, fun r hr _ => (hrow r hr).2⟩, fun _ => hstored, ?_⟩
  · intro log hlog
    rw [hserver] at hlog
    cases hlog
  · intro r hr huploaded
    rw [(hrow r hr).1] at huploaded
    cases huploaded
  · intro plan request hpass
    have hne := huploads plan request hpass
    cases request with
    | create row body rest => exact ⟨hstored, fun hid => absurd (congrArg some hid) hne⟩
    | put row body rest => exact ⟨fun _ => hstored, fun hid => absurd (congrArg some hid) hne⟩
    | update row size rest => exact hstored
    | delete row rest => exact hstored
    | pull feed since rest => exact hstored

end

/-! ### Answers -/

section
variable [Primitives] {site : LogSite} {w : LogWorld} {plan : LogPlan} {id : Uuid}
  {server : LogServer} {row : LogRow} {body : Bytes} {rest : List LogRow}

omit [Primitives] in
/-- What is known of a recording under a server that knows it as before. -/
theorem base_of_log {store : Store} {server' : LogServer} (h : Base site store server id)
    (hlog : server'.log id = server.log id) :
  Base site store server' id
  := by
  refine ⟨?_, ?_, h.ready⟩
  · rw [hlog]
    exact h.author
  · rw [hlog]
    exact h.uploaded

omit [Primitives] in
theorem stored_of_log {store : Store} {server' : LogServer} (h : Stored site store server id)
    (hlog : server'.log id = server.log id)
    (hobject : server'.objects site.auth.userId id = server.objects site.auth.userId id) :
  Stored site store server' id
  := by
  rw [Stored, hlog, hobject]
  exact h

/-- A registration is answered: the body of the recording is put into storage next, unless the log
is there already. -/
theorem kept_create (h : Kept site w id) (hpass : w.pass = some (plan, .create row body rest))
    {now : DateTime} {answer : Except Server.Error Unit}
    (hserve : w.server.create site.settings site.auth now (registration row body.length)
      = (answer, server)) :
  Kept site (receive { w with server } plan (.create row body rest)
    (answer.mapError (fun e => (e.status, e.code)))) id
  := by
  obtain ⟨hstored, hbody⟩ := h.out plan _ hpass
  cases answer with
  | ok _ =>
      obtain ⟨hnone, hwithin, hobjects, -, new, hauthor, -, hopen, -, -, hlog⟩ :=
        LogServer.create_spec hserve
      replace hnone : w.server.log row.id = none := hnone
      replace hlog : ∀ id', server.log id' = if id' = row.id then some new else w.server.log id' :=
        hlog
      change Kept site (ask { w with server } plan (.put row body rest)) id
      have hbase : Base site w.store server id := by
        by_cases hid : id = row.id
        · refine ⟨?_, ?_, h.base.ready⟩
          · intro log hget
            rw [hlog, if_pos hid] at hget
            cases hget
            exact hauthor
          · intro r hr huploaded
            obtain ⟨log, hget, -⟩ := h.base.uploaded r hr huploaded
            rw [hid, hnone] at hget
            cases hget
        · exact base_of_log h.base ((hlog id).trans (if_neg hid))
      refine ⟨hbase, fun hidle => absurd hidle (by simp [ask]), ?_⟩
      rintro plan' request ⟨⟩
      refine ⟨fun hne => ?_, fun hid => ⟨?_, hwithin, hbody hid⟩⟩
      · exact stored_of_log hstored ((hlog id).trans (if_neg (Ne.symm hne)))
          (congrFun (congrFun hobjects _) id)
      · intro log hget
        cases ((hlog id).trans (if_pos hid.symm)).symm.trans hget
        exact hopen
  | error e =>
      obtain rfl := LogServer.create_error hserve
      have hgoes : GoesOn w (receive w plan (.create row body rest) (.error (e.status, e.code))) := by
        rw [receive]
        split
        · exact goesOn_ask trivial
        · exact goesOn_refused
      exact kept_of_goesOn h.base hstored hgoes

omit [Primitives] in
/-- A body is in storage. -/
theorem stored_of_put (h : Kept site w id) (hpass : w.pass = some (plan, .put row body rest)) :
  Base site w.store (w.server.setObject site.auth.userId row.id (some body)) id
    ∧ Stored site w.store (w.server.setObject site.auth.userId row.id (some body)) id
  := by
  obtain ⟨hother, hown⟩ := h.out plan _ hpass
  refine ⟨base_of_log h.base rfl, ?_⟩
  by_cases hid : row.id = id
  · obtain ⟨-, hwithin, hbody⟩ := hown hid
    intro log _ _
    exact ⟨body, if_pos ⟨rfl, hid.symm⟩, hwithin, fun _ => hbody⟩
  · exact stored_of_log (hother hid) rfl (if_neg (fun hand => hid hand.2.symm))

/-- A completion is answered: the recording is marked uploaded, or refused. -/
theorem kept_update {size : ℤ} (h : Kept site w id)
    (hpass : w.pass = some (plan, .update row size rest)) {answer : Except Server.Error ℤ}
    (hserve : w.server.complete site.settings site.auth row.id size = (answer, server)) :
  Base site w.store server id ∧ Stored site w.store server id
    ∧ Kept site (receive { w with server } plan (.update row size rest)
      (answer.mapError (fun e => (e.status, e.code)))) id
  := by
  have hstored : Stored site w.store w.server id := h.out plan _ hpass
  cases answer with
  | ok seq =>
      obtain ⟨hobjects, -, old, new, object, -, hold, -, hobject, -, hwithin, huser, -, hcompleted, -,
        hlog⟩ := LogServer.complete_spec hserve
      have hother : id ≠ row.id → server.log id = w.server.log id :=
        fun hid => (hlog id).trans (if_neg hid)
      have hbase : Base site w.store server id := by
        by_cases hid : id = row.id
        · refine ⟨?_, ?_, h.base.ready⟩
          · intro log hget
            rw [hlog, if_pos hid] at hget
            cases hget
            exact huser.trans hold
          · exact fun _ _ _ => ⟨new, (hlog id).trans (if_pos hid), hcompleted⟩
        · exact base_of_log h.base (hother hid)
      have hstored' : Stored site w.store server id := by
        by_cases hid : id = row.id
        · intro log hget _
          rw [hlog, if_pos hid] at hget
          cases hget
          rw [hobjects, hid]
          exact ⟨object, hobject, hwithin, fun hopen => absurd (hcompleted.symm.trans hopen) (by simp)⟩
        · exact stored_of_log hstored (hother hid) (congrFun (congrFun hobjects _) id)
      refine ⟨hbase, hstored', ?_⟩
      -- Marking the row is all that happens to the store.
      have hmarked : Base site (w.store.markLogUploaded row.id seq) server id := by
        refine ⟨hbase.author, ?_, ?_⟩
        · intro r hr huploaded
          rw [Store.logRow_markLogUploaded] at hr
          split at hr
          · rename_i hid
            exact ⟨new, (hlog id).trans (if_pos hid), hcompleted⟩
          · exact hbase.uploaded r hr huploaded
        · intro r hr hpath
          rw [Store.logRow_markLogUploaded] at hr
          split at hr
          · rename_i hid
            obtain ⟨r₀, hr₀, rfl⟩ := Option.map_eq_some_iff.mp hr
            exact hbase.ready r₀ (hid ▸ hr₀) hpath
          · exact hbase.ready r hr hpath
      exact kept_of_goesOn
        (w := { w with store := w.store.markLogUploaded row.id seq, server,
                       report := { w.report with uploaded := w.report.uploaded + 1 } })
        hmarked (stored_of_body (fun _ => Store.forgets_markLogUploaded.body) hstored')
        goesOn_uploadNext
  | error e =>
      have hsame : server.log id = w.server.log id ∧ Stored site w.store server id := by
        rcases LogServer.complete_error hserve with rfl | ⟨object, hobject, hover, rfl⟩
        · exact ⟨rfl, hstored⟩
        · obtain ⟨old, hold, hget⟩ := Option.bind_eq_some_iff.mp hobject
          have hlog : (w.server.removeObject row.id).log id = w.server.log id := by
            rw [LogServer.removeObject, hold]
            rfl
          refine ⟨hlog, ?_⟩
          by_cases hid : id = row.id
          · -- A stored object is within the limit.
            subst hid
            have huser := h.base.author old hold
            intro log hlog' hlive
            rw [hlog, hold] at hlog'
            cases hlog'
            obtain ⟨object', hobject', hwithin, -⟩ := hstored old hold hlive
            rw [huser, hobject'] at hget
            cases hget
            omega
          · apply stored_of_log hstored hlog
            rw [LogServer.removeObject, hold]
            exact if_neg (fun hand => hid hand.2)
      have hbase := base_of_log h.base hsame.1
      refine ⟨hbase, hsame.2, ?_⟩
      exact kept_of_goesOn (w := { w with server }) hbase hsame.2 goesOn_refused

end

section
variable {site : LogSite} {w : LogWorld} {plan : LogPlan} {id : Uuid} {server : LogServer}
  {row : LogRow} {rest : List LogRow}

/-- A deletion is answered: the row goes, or comes back. -/
theorem kept_delete (hreferenced : Server.Referenced w.server.db) (h : Kept site w id)
    (hpass : w.pass = some (plan, .delete row rest)) {recordingRequired mayDelete : Bool}
    {answer : Except Server.Error Unit}
    (hserve : w.server.delete site.auth recordingRequired mayDelete row.id = (answer, server)) :
  Base site w.store server id ∧ Stored site w.store server id
  := by
  have hstored : Stored site w.store w.server id := h.out plan _ hpass
  rcases LogServer.delete_spec hreferenced hserve with rfl | ⟨-, old, new, hold, hobjects, huser, -,
    hcompleted, hdeleted, hlog⟩
  · exact ⟨h.base, hstored⟩
  by_cases hid : id = row.id
  · subst hid
    have hnew : server.log row.id = some new := (hlog _).trans (if_pos rfl)
    refine ⟨⟨?_, ?_, h.base.ready⟩, ?_⟩
    · intro log hget
      cases hnew.symm.trans hget
      exact huser.trans (h.base.author old hold)
    · intro r hr huploaded
      obtain ⟨log, hget, hdone⟩ := h.base.uploaded r hr huploaded
      cases hold.symm.trans hget
      exact ⟨new, hnew, hcompleted.trans hdone⟩
    · intro log hget hlive
      cases hnew.symm.trans hget
      rw [hdeleted] at hlive
      cases hlive
  · have hsame : server.log id = w.server.log id := (hlog id).trans (if_neg hid)
    refine ⟨base_of_log h.base hsame, stored_of_log hstored hsame ?_⟩
    rw [hobjects, LogServer.removeObject, hold]
    exact if_neg (fun hand => hid hand.2)

/-- What the pass does with the answer to a deletion. -/
theorem kept_deleted (hbase : Base site w.store w.server id) (hstored : Stored site w.store w.server id)
    (answer : Except (ℕ × String) Unit) :
  Kept site (w.receive plan (.delete row rest) answer) id
  := by
  have hforget : Kept site
      (deleteNext { w with store := w.store.forgetLog row.id } plan rest) id := by
    apply kept_of_goesOn (w := { w with store := w.store.forgetLog row.id })
    · apply base_of_leaves hbase
      intro r' hr'
      rw [Store.logRow_forgetLog] at hr'
      split at hr'
      · cases hr'
      · exact ⟨r', hr', fun h => h, fun h => ⟨h, rfl, rfl⟩⟩
    · exact stored_of_body (fun _ => Store.forgets_forgetLog.body) hstored
    · exact goesOn_deleteNext
  cases answer with
  | ok _ => exact hforget
  | error e =>
      obtain ⟨status, code⟩ := e
      rw [receive]
      split
      · exact hforget
      · split
        · apply kept_of_goesOn (w := note { w with store := w.store.restoreLog row.id } row.id code)
          · apply base_of_leaves hbase
            intro r' hr'
            replace hr' : (w.store.restoreLog row.id).logRow id = some r' := hr'
            rw [Store.logRow_restoreLog] at hr'
            split at hr'
            · rename_i hid
              obtain ⟨r, hr, rfl⟩ := Option.map_eq_some_iff.mp hr'
              refine ⟨r, hid ▸ hr, fun h => h, fun hpath => ⟨hpath, rfl, ?_⟩⟩
              exact (hbase.ready r (hid ▸ hr) hpath).2.symm
            · exact ⟨r', hr', fun h => h, fun h => ⟨h, rfl, rfl⟩⟩
          · exact stored_of_body (fun _ => Store.forgets_restoreLog.body) hstored
          · exact goesOn_deleteNext
        · exact kept_of_goesOn hbase hstored goesOn_stop

/-- A page mirrors logs of the server. -/
theorem mem_logPage {users : Table Server.User} {rows : List Server.LogRow} {limit : ℕ} {since : ℤ}
    {cursor : Server.Cursor} {l : SessionLog}
    (h : l ∈ (Server.Db.logPage users rows limit since cursor).logs) :
  ∃ log ∈ rows, l = Server.toLog users cursor log
  := by
  obtain ⟨log, hlog, rfl⟩ := List.mem_map.mp h
  exact ⟨log, List.mem_of_mem_take hlog, rfl⟩

theorem mem_logList {since : ℤ} {limit : ℕ} {l : SessionLog}
    (h : l ∈ (server.db.logList site.auth limit since).logs) :
  ∃ log, server.log l.id = some log ∧ l.completed = log.completed
  := by
  obtain ⟨log, hlog, rfl⟩ := mem_logPage h
  obtain ⟨hmem, -⟩ := Paging.mem_newer.mp (List.mem_of_mem_take hlog)
  exact ⟨log, Table.get?_of_mem (List.mem_filter.mp hmem).1, rfl⟩

theorem mem_logListVault {vaultId : Uuid} {since : ℤ} {limit : ℕ} {resp : LogListResponse}
    (h : server.db.logListVault site.auth vaultId limit since = .ok resp) {l : SessionLog}
    (hl : l ∈ resp.logs) :
  ∃ log, server.log l.id = some log ∧ l.completed = log.completed
  := by
  obtain ⟨a, -, h⟩ := bind_eq_ok.mp h
  obtain ⟨-, h⟩ := check_eq_ok.mp h
  obtain rfl := pure_eq_ok.mp h
  obtain ⟨log, hlog, rfl⟩ := mem_logPage hl
  obtain ⟨hmem, -⟩ := Paging.mem_newer.mp (List.mem_of_mem_take hlog)
  exact ⟨log, Table.get?_of_mem (List.mem_filter.mp hmem).1, rfl⟩

/-- Mirroring a log that is completed on the server. -/
theorem base_of_mirror {store : Store} {l : SessionLog} (h : Base site store server id)
    (hl : l.id = id → l.deleted = false →
      l.completed = true ∧ ∃ log, server.log id = some log ∧ log.completed = true) :
  Base site (store.applyRemoteLog l) server id
  := by
  refine ⟨h.author, ?_, ?_⟩
  · intro r hr huploaded
    rw [Store.logRow_applyRemoteLog] at hr
    split at hr
    · rename_i hid
      split at hr
      · cases hr
      · rename_i hlive
        exact (hl hid.symm (Bool.eq_false_iff.mpr hlive)).2
    · exact h.uploaded r hr huploaded
  · intro r hr hpath
    rw [Store.logRow_applyRemoteLog] at hr
    split at hr
    · rename_i hid
      split at hr
      · cases hr
      · rename_i hlive
        have hdone := (hl hid.symm (Bool.eq_false_iff.mpr hlive)).1
        cases hrow : store.logRow id with
        | none =>
            rw [hrow] at hr
            cases hr
            cases hpath
        | some r₀ =>
            rw [hrow] at hr
            cases hr
            exact ⟨hdone, (h.ready r₀ hrow hpath).2⟩
    · exact h.ready r hr hpath

/-- Mirroring a page, of logs that are completed as far as they are recordings of the device. -/
theorem base_of_page {store : Store} {logs : List SessionLog} (h : Base site store server id)
    (hlogs : ∀ l ∈ logs, l.id = id → l.deleted = false →
      l.completed = true ∧ ∃ log, server.log id = some log ∧ log.completed = true) :
  Base site (store.applyRemoteLogs logs) server id
  := by
  induction logs generalizing store with
  | nil => exact h
  | cons l logs ih =>
      apply ih (base_of_mirror h (hlogs l List.mem_cons_self))
      exact fun l' hl' => hlogs l' (List.mem_cons_of_mem _ hl')

theorem logRow_saveCursor {store : Store} {next : ℤ} {feed : LogFeed} :
  (saveCursor store next feed).logRow id = store.logRow id
    ∧ (saveCursor store next feed).logBodyCiphertext id = store.logBodyCiphertext id
  := by
  cases feed with
  | own => exact ⟨rfl, rfl⟩
  | vault id => exact ⟨rfl, rfl⟩

/-- A page is mirrored. -/
theorem kept_pulled (hbase : Base site w.store w.server id)
    (hstored : Stored site w.store w.server id) {feed : LogFeed} {since : ℤ}
    {rest : List LocalVault} {resp : LogListResponse}
    (hlogs : ∀ l ∈ resp.logs, l.id = id → l.deleted = false →
      l.completed = true ∧ ∃ log, w.server.log id = some log ∧ log.completed = true) :
  Kept site (w.pulled plan feed since rest resp) id
  := by
  have hbase' := base_of_page hbase hlogs
  have hstored' : Stored site (w.store.applyRemoteLogs resp.logs) w.server id :=
    stored_of_body (fun _ => Store.forgets_applyRemoteLogs.body) hstored
  have hsaved : Base site (w.mirrored feed since resp).store w.server id
      ∧ Stored site (w.mirrored feed since resp).store w.server id := by
    rw [mirrored]
    split
    · refine ⟨base_of_leaves hbase' (leaves_of_eq logRow_saveCursor.1), ?_⟩
      apply stored_of_body _ hstored'
      rw [logRow_saveCursor.2]
      exact fun _ h => h
    · exact ⟨hbase', hstored'⟩
  rw [pulled]
  split
  · exact kept_of_goesOn hsaved.1 hsaved.2 goesOn_pullNext
  · exact kept_of_goesOn hsaved.1 hsaved.2 (goesOn_ask trivial)

end

/-! ### Steps -/

section
variable {site : LogSite} {w w' : LogWorld} {plan : LogPlan} {id : Uuid} {server : LogServer}

/-- While nothing is on its way into storage, the object of a recording is stored. -/
theorem stored_of_outstanding {store : Store} {request : LogRequest}
    (h : Outstanding site store server id request)
    (hput : ∀ row body rest, request ≠ .put row body rest) :
  Stored site store server id
  := by
  cases request with
  | create row body rest => exact h.1
  | put row body rest => exact absurd rfl (hput row body rest)
  | update row size rest => exact h
  | delete row rest => exact h
  | pull feed since rest => exact h

/-- A refusal leaves what is known. -/
theorem kept_refused (h : Kept site w id) {request : LogRequest}
    (hpass : w.pass = some (plan, request)) (hput : ∀ row body rest, request ≠ .put row body rest)
    (e : ℕ × String) :
  Kept site (w.receive plan request (.error e)) id
  := by
  have hstored := stored_of_outstanding (h.out plan request hpass) hput
  obtain ⟨status, code⟩ := e
  cases request with
  | create row body rest =>
      apply kept_of_goesOn h.base hstored
      rw [receive]
      split
      · exact goesOn_ask trivial
      · exact goesOn_refused
  | put row body rest => exact absurd rfl (hput row body rest)
  | update row size rest => exact kept_of_goesOn h.base hstored goesOn_refused
  | delete row rest => exact kept_deleted h.base hstored _
  | pull feed since rest =>
      cases feed with
      | own => exact kept_of_goesOn h.base hstored goesOn_stop
      | vault id =>
          apply kept_of_goesOn h.base hstored
          rw [receive]
          split
          · exact goesOn_pullNext
          · exact goesOn_stop

variable [Primitives]

/-- Requests keep references, and the user. -/
theorem referenced_of_serve (site : LogSite) (now : DateTime)
    (recordingRequired mayDelete : Bool) (request : LogRequest) {answer : Except Server.Error request.Answer}
    (hreferenced : Server.Referenced w.server.db)
    (huser : (w.server.db.users.get? site.auth.userId).isSome = true)
    (hserve : site.serve now recordingRequired mayDelete w.server request = (answer, server)) :
  Server.Referenced server.db ∧ (server.db.users.get? site.auth.userId).isSome = true
  := by
  have hsame : Server.SameAccess w.server.db server.db →
      (server.db.users.get? site.auth.userId).isSome = true := by
    intro haccess
    rw [Server.isSome_of_rel (haccess.users _)]
    exact huser
  cases request with
  | create row body rest =>
      cases answer with
      | error e =>
          obtain rfl := LogServer.create_error hserve
          exact ⟨hreferenced, huser⟩
      | ok _ =>
          obtain ⟨-, -, -, haccess, new, -, -, -, -, href, hlog⟩ := LogServer.create_spec hserve
          exact ⟨LogServer.referenced_of_wrote hreferenced haccess href hlog, hsame haccess⟩
  | put row body rest =>
      cases hserve
      exact ⟨hreferenced, huser⟩
  | update row size rest =>
      cases answer with
      | error e =>
          rcases LogServer.complete_error hserve with rfl | ⟨-, -, -, rfl⟩
          · exact ⟨hreferenced, huser⟩
          · rw [LogServer.removeObject]
            split
            · exact ⟨hreferenced, huser⟩
            · exact ⟨hreferenced, huser⟩
      | ok seq =>
          obtain ⟨-, haccess, old, new, -, hold, -, -, -, -, -, hauthor, hvault, -, -, hlog⟩ :=
            LogServer.complete_spec hserve
          have href := hreferenced row.id old hold
          rw [← hauthor, ← hvault] at href
          exact ⟨LogServer.referenced_of_wrote hreferenced haccess href hlog, hsame haccess⟩
  | delete row rest =>
      rcases LogServer.delete_spec hreferenced hserve with rfl | ⟨haccess, old, new, hold, -, hauthor,
        hvault, -, -, hlog⟩
      · exact ⟨hreferenced, huser⟩
      · have href := hreferenced row.id old hold
        rw [← hauthor, ← hvault] at href
        exact ⟨LogServer.referenced_of_wrote hreferenced haccess href hlog, hsame haccess⟩
  | pull feed since rest =>
      cases feed with
      | own =>
          cases hserve
          exact ⟨hreferenced, huser⟩
      | vault id =>
          cases hserve
          exact ⟨hreferenced, huser⟩

/-- An answer leaves what is known, when it mirrors no recording of the device that is not
completed. -/
theorem kept_answered {now : DateTime} {recordingRequired mayDelete : Bool} {request : LogRequest}
    (hreferenced : Server.Referenced w.server.db) (h : Kept site w id)
    (hpass : w.pass = some (plan, request)) (hrecorded : id ∈ w.recorded)
    (hG : undisturbed site w (.answered now recordingRequired mayDelete) = true)
    {answer : Except Server.Error request.Answer}
    (hserve : site.serve now recordingRequired mayDelete w.server request = (answer, server)) :
  Kept site (receive { w with server } plan request
    (answer.mapError (fun e => (e.status, e.code)))) id
  := by
  cases request with
  | create row body rest => exact kept_create h hpass hserve
  | put row body rest =>
      cases hserve
      obtain ⟨hbase, hstored⟩ := stored_of_put h hpass
      exact kept_of_goesOn
        (w := { w with server := w.server.setObject site.auth.userId row.id (some body) })
        hbase hstored (goesOn_ask trivial)
  | update row size rest => exact (kept_update h hpass hserve).2.2
  | delete row rest =>
      obtain ⟨hbase, hstored⟩ := kept_delete hreferenced h hpass hserve
      exact kept_deleted (w := { w with server }) hbase hstored _
  | pull feed since rest =>
      have hstored : Stored site w.store w.server id := h.out plan _ hpass
      unfold undisturbed at hG
      rw [hpass] at hG
      dsimp only at hG
      rw [hserve] at hG
      obtain rfl : server = w.server := by
        cases feed with
        | own => exact (congrArg Prod.snd hserve).symm
        | vault id => exact (congrArg Prod.snd hserve).symm
      cases answer with
      | error e =>
          exact kept_refused h hpass (fun _ _ _ hne => by cases hne) (e.status, e.code)
      | ok resp =>
          apply kept_pulled h.base hstored
          intro l hl hid hlive
          have hmirrored : ∃ log, w.server.log l.id = some log ∧ l.completed = log.completed := by
            cases feed with
            | own =>
                cases hserve
                exact mem_logList hl
            | vault vaultId => exact mem_logListVault (congrArg Prod.fst hserve) hl
          have hdone : l.completed = true := by
            have hor := List.all_eq_true.mp hG l hl
            rw [hid, hlive, List.contains_iff_mem.mpr hrecorded] at hor
            simpa using hor
          obtain ⟨log, hlog, hcompleted⟩ := hmirrored
          exact ⟨hdone, log, hid ▸ hlog, hcompleted.symm.trans hdone⟩

end

/-- A request that is carried out leaves what is known, when its answer is lost. -/
theorem kept_unanswered [Primitives] {site : LogSite} {w : LogWorld} {plan : LogPlan} {id : Uuid}
    {server : LogServer} {now : DateTime} {recordingRequired mayDelete : Bool}
    {request : LogRequest} (hreferenced : Server.Referenced w.server.db) (h : Kept site w id)
    (hpass : w.pass = some (plan, request))
    (hG : undisturbed site w (.unanswered now recordingRequired mayDelete) = true)
    {answer : Except Server.Error request.Answer}
    (hserve : site.serve now recordingRequired mayDelete w.server request = (answer, server)) :
  Kept site (stop { w with server }) id
  := by
  have hkept : Base site w.store server id ∧ Stored site w.store server id := by
    cases request with
    | create row body rest =>
        unfold undisturbed at hG
        rw [hpass] at hG
        replace hG : (!(w.server.create site.settings site.auth now
          (registration row body.length)).1.isOk) = true := hG
        replace hserve : w.server.create site.settings site.auth now
          (registration row body.length) = (answer, server) := hserve
        rw [hserve] at hG
        cases answer with
        | ok _ => cases hG
        | error e =>
            obtain rfl := LogServer.create_error hserve
            exact ⟨h.base, (h.out plan _ hpass).1⟩
    | put row body rest =>
        cases hserve
        exact stored_of_put h hpass
    | update row size rest =>
        have hupdate := kept_update h hpass hserve
        exact ⟨hupdate.1, hupdate.2.1⟩
    | delete row rest => exact kept_delete hreferenced h hpass hserve
    | pull feed since rest =>
        obtain rfl : server = w.server := by
          cases feed with
          | own => exact (congrArg Prod.snd hserve).symm
          | vault id => exact (congrArg Prod.snd hserve).symm
        exact ⟨h.base, h.out plan _ hpass⟩
  exact kept_of_goesOn (w := { w with server }) hkept.1 hkept.2 goesOn_stop

section
variable {site : LogSite} {w w' : LogWorld} {plan : LogPlan} {id : Uuid}

/-- What the pass does with an answer changes neither the server nor what was recorded. -/
theorem server_receive (w : LogWorld) (plan : LogPlan) (request : LogRequest)
    (answer : Except (ℕ × String) request.Answer) :
  (w.receive plan request answer).server = w.server
    ∧ (w.receive plan request answer).recorded = w.recorded
  := by
  have hgoes : ∀ (w₀ : LogWorld) {w' : LogWorld}, w₀.server = w.server → w₀.recorded = w.recorded →
      GoesOn w₀ w' → w'.server = w.server ∧ w'.recorded = w.recorded :=
    fun _ _ hserver hrecorded h => ⟨h.server.trans hserver, h.recorded.trans hrecorded⟩
  cases request with
  | create row body rest =>
      cases answer with
      | ok _ => exact ⟨rfl, rfl⟩
      | error e =>
          rw [receive]
          split
          · exact ⟨rfl, rfl⟩
          · exact hgoes w rfl rfl goesOn_refused
  | put row body rest =>
      cases answer with
      | ok _ => exact ⟨rfl, rfl⟩
      | error e => exact hgoes w rfl rfl goesOn_refused
  | update row size rest =>
      cases answer with
      | ok seq =>
          exact hgoes { w with
            store := w.store.markLogUploaded row.id seq
            report := { w.report with uploaded := w.report.uploaded + 1 } } rfl rfl goesOn_uploadNext
      | error e => exact hgoes w rfl rfl goesOn_refused
  | delete row rest =>
      have hforget : (deleteNext { w with store := w.store.forgetLog row.id } plan rest).server
            = w.server
          ∧ (deleteNext { w with store := w.store.forgetLog row.id } plan rest).recorded
            = w.recorded :=
        hgoes { w with store := w.store.forgetLog row.id } rfl rfl goesOn_deleteNext
      cases answer with
      | ok _ => exact hforget
      | error e =>
          rw [receive]
          split
          · exact hforget
          · split
            · exact hgoes (note { w with store := w.store.restoreLog row.id } row.id e.2)
                rfl rfl goesOn_deleteNext
            · exact ⟨rfl, rfl⟩
  | pull feed since rest =>
      cases answer with
      | ok resp =>
          rw [receive, pulled]
          split
          · exact hgoes (w.mirrored feed since resp) rfl rfl goesOn_pullNext
          · exact ⟨rfl, rfl⟩
      | error e =>
          cases feed with
          | own => exact ⟨rfl, rfl⟩
          | vault id =>
              rw [receive]
              split
              · exact hgoes w rfl rfl goesOn_pullNext
              · exact ⟨rfl, rfl⟩

variable [Primitives] [Serde LogMeta]

/-- Every step of an undisturbed run keeps what is known. -/
theorem sound_of_step {e : LogEvent} (h : Sound site w) (hG : undisturbed site w e = true)
    (hstep : step site w e = some w') :
  Sound site w'
  := by
  -- A pass that stops, or goes on after a refusal, is one in which nothing is on its way.
  have hput : ∀ {plan request}, w.pass = some (plan, request) →
      (e = .lost ∨ ∃ status code, e = .refused status code) →
      ∀ row body rest, request ≠ .put row body rest := by
    rintro plan request hpass hlost row body rest rfl
    unfold undisturbed at hG
    rw [hpass] at hG
    rcases hlost with rfl | ⟨status, code, rfl⟩
    · cases hG
    · cases hG
  cases e with
  | record vaultId begun ended body id now nonce nonce' bodyNonce =>
      rw [step] at hstep
      split at hstep
      · rename_i hfresh
        obtain ⟨store, hstore, rfl⟩ := Option.map_eq_some_iff.mp hstep
        obtain ⟨s₁, hbegin, hfinish⟩ := bind_eq_ok.mp (toOption_eq_some.mp hstore)
        obtain ⟨hbegun, hothers₁, -, hfiles₁⟩ := Store.beginLog_row hbegin
        obtain ⟨hfinished, hothers, -, hfiles⟩ := Store.finishLog_row hfinish
        simp only [fresh, Bool.and_eq_true, Option.isNone_iff_eq_none, decide_eq_true_eq,
          List.all_eq_true] at hfresh
        obtain ⟨⟨⟨⟨hrow, hlog⟩, -⟩, huploads⟩, hpaths⟩ := hfresh
        refine ⟨h.referenced, h.user, ?_⟩
        intro id' hid'
        by_cases hid : id' = id
        · subst hid
          apply kept_of_new hlog
          · intro plan request hpass huploading
            exact huploads (by rw [hpass]; exact huploading)
          · intro r hr
            obtain ⟨r₁, hr₁, huploaded, hcompleted, hdeleted⟩ := hfinished r hr
            exact ⟨huploaded, hcompleted, hdeleted.trans (hbegun r₁ hr₁)⟩
        · have hsame : store.logRow id' = w.store.logRow id' :=
            (hothers id' hid).trans (hothers₁ id' hid)
          apply kept_of_store (h.kept id' ((List.mem_cons.mp hid').resolve_left hid))
          · intro body' hbody'
            obtain ⟨r, p, hr, hp, hfile⟩ := Store.logBodyCiphertext_eq_some.mp hbody'
            rw [hsame] at hr
            have hne : p ≠ s!"{site.dir}/{id}.tlog" := by
              rintro rfl
              exact hpaths r (Table.mem_of_get? hr) hp
            rw [hfiles p hne, hfiles₁] at hfile
            exact Store.logBodyCiphertext_eq_some.mpr ⟨r, p, hr, hp, hfile⟩
          · exact leaves_of_eq hsame
      · cases hstep
  | delete id =>
      obtain ⟨store, hstore, rfl⟩ := Option.map_eq_some_iff.mp hstep
      obtain ⟨hforgets, -, hothers, htombstone⟩ := Store.deleteLog_eq_ok (toOption_eq_some.mp hstore)
      refine ⟨h.referenced, h.user, ?_⟩
      intro id' hid'
      apply kept_of_store (h.kept id' hid') (fun _ => hforgets.body)
      by_cases hid : id' = id
      · subst hid
        intro r' hr'
        obtain ⟨r, hr, -, rfl⟩ := htombstone r' hr'
        exact ⟨r, hr, fun huploaded => huploaded, fun hpath => by cases hpath⟩
      · exact leaves_of_eq (hothers id' hid)
  | discard path =>
      cases hstep
      refine ⟨h.referenced, h.user, ?_⟩
      intro id hid
      exact kept_of_store (h.kept id hid) (fun _ => Store.forgets_removeFile.body) (leaves_of_eq rfl)
  | start uploadLogs =>
      rw [step] at hstep
      split at hstep
      · rename_i account hpass haccount
        cases hstep
        have hgoes : GoesOn { w with report := ⟨0, 0, []⟩ } (w.start account uploadLogs) :=
          goesOn_uploadNext
        refine ⟨hgoes.server ▸ h.referenced, hgoes.server ▸ h.user, ?_⟩
        intro id hid
        have hkept := h.kept id (hgoes.recorded ▸ hid)
        exact kept_of_goesOn (w := { w with report := ⟨0, 0, []⟩ }) hkept.base (hkept.idle hpass) hgoes
      · cases hstep
  | answered now recordingRequired mayDelete =>
      obtain ⟨⟨plan, request⟩, hpass, rfl⟩ := Option.map_eq_some_iff.mp hstep
      rcases hserve : site.serve now recordingRequired mayDelete w.server request
        with ⟨answer, server⟩
      obtain ⟨hreferenced, huser⟩ := referenced_of_serve _ _ _ _ _ h.referenced h.user hserve
      dsimp only
      rw [hserve]
      obtain ⟨hserver, hrecorded⟩ := server_receive { w with server } plan request
        (answer.mapError (fun e => (e.status, e.code)))
      refine ⟨hserver ▸ hreferenced, hserver ▸ huser, ?_⟩
      intro id hid
      have hmem : id ∈ w.recorded := hrecorded ▸ hid
      exact kept_answered h.referenced (h.kept id hmem) hpass hmem hG hserve
  | unanswered now recordingRequired mayDelete =>
      obtain ⟨⟨plan, request⟩, hpass, rfl⟩ := Option.map_eq_some_iff.mp hstep
      rcases hserve : site.serve now recordingRequired mayDelete w.server request
        with ⟨answer, server⟩
      obtain ⟨hreferenced, huser⟩ := referenced_of_serve _ _ _ _ _ h.referenced h.user hserve
      dsimp only
      rw [hserve]
      refine ⟨hreferenced, huser, ?_⟩
      intro id hid
      exact kept_unanswered h.referenced (h.kept id hid) hpass hG hserve
  | lost =>
      obtain ⟨⟨plan, request⟩, hpass, rfl⟩ := Option.map_eq_some_iff.mp hstep
      refine ⟨h.referenced, h.user, ?_⟩
      intro id hid
      have hkept := h.kept id hid
      exact kept_of_goesOn hkept.base
        (stored_of_outstanding (hkept.out plan request hpass) (hput hpass (.inl rfl))) goesOn_stop
  | refused status code =>
      obtain ⟨⟨plan, request⟩, hpass, rfl⟩ := Option.map_eq_some_iff.mp hstep
      obtain ⟨hserver, hrecorded⟩ := server_receive w plan request
        (.error (status, code))
      refine ⟨hserver ▸ h.referenced, hserver ▸ h.user, ?_⟩
      intro id hid
      exact kept_refused (h.kept id (hrecorded ▸ hid)) hpass (hput hpass (.inr ⟨_, _, rfl⟩)) _

end

end LogWorld

end Termoso
