import Termoso.UploadedLogs

/-!
# Uploads that were interrupted are retried

A pass whose requests are all answered ends, and every recording of the device that it selects
and the server accepts is completed when it does, whether the recording is new to the server or
was registered by an earlier pass.
-/

namespace Termoso

open Core (Store LogRow LogMeta LocalVault Serde)
open Server (LogServer Admits)

namespace LogWorld

/-! ### What is to hold -/

section
variable [Primitives]

/-- The request is answered, and the server accepts the registration of a recording. -/
def Accepts (site : LogSite) (id : Uuid) (w : LogWorld) (e : LogEvent) : Prop :=
  (∃ now recordingRequired mayDelete, e = .answered now recordingRequired mayDelete)
    ∧ ∀ plan row body rest, w.pass = some (plan, .create row body rest) → row.id = id →
        Admits site.settings site.auth w.server.db (registration row body.length)

/-- Whether the pass uploads recordings of a vault. -/
def uploadsVault (w : LogWorld) (uploadLogs : Bool) (vaultId : Uuid) : Bool :=
  uploadLogs || ((w.store.listVaults.filter (fun v => decide (v.kind = .team)
    && v.sessionLogging)).map LocalVault.id).contains vaultId

/-- A pass over recordings whose bodies are on disk ends, when its requests are answered, and a
recording of a synced vault that it uploads is then completed, if the server accepts it. -/
def Retried [Serde LogMeta] (site : LogSite) (w : LogWorld) : Prop :=
  ∀ id ∈ w.recorded, ∀ r, w.store.logRow id = some r →
    (w.store.logBodyCiphertext id).isSome = true → ¬ w.server.Completed id →
    w.store.syncedVault r.vaultId = true →
    ∀ uploadLogs, w.uploadsVault uploadLogs r.vaultId = true →
      (∀ row ∈ w.store.logsToUpload, (w.store.logBodyCiphertext row.id).isSome = true) →
      ∀ w', step site w (.start uploadLogs) = some w' →
        (system site).Ends (Accepts site id) (fun w => w.pass = none → w.server.Completed id) w'

end

/-! ### A pass ends -/

/-- How many rows a listing has left. -/
def left (site : LogSite) (server : LogServer) (since : ℤ) : LogFeed → ℕ
  | .own => (Paging.newer Server.LogRow.seq (server.db.authorLogs site.auth.userId) since).length
  | .vault id => (Paging.newer Server.LogRow.vaultSeq (server.db.vaultLogs id) since).length

/-- What a pass has left: uploads, deletions, listings and their rows. -/
def remaining (site : LogSite) (w : LogWorld) : ℕ ×ₗ ℕ ×ₗ ℕ :=
  match w.pass with
  | none => toLex (0, toLex (0, 0))
  | some (_, .create _ _ rest) => toLex (2, toLex (3 * rest.length + 3, 0))
  | some (_, .put _ _ rest) => toLex (2, toLex (3 * rest.length + 2, 0))
  | some (_, .update _ _ rest) => toLex (2, toLex (3 * rest.length + 1, 0))
  | some (_, .delete _ rest) => toLex (1, toLex (rest.length, 0))
  | some (_, .pull feed since rest) =>
    toLex (0, toLex (rest.length + 1, left site w.server since feed))

section
variable {site : LogSite} {w : LogWorld} {plan : LogPlan}

theorem lt_of_stage {a b : ℕ} {x y : ℕ ×ₗ ℕ} (h : a < b) :
  toLex (a, x) < toLex (b, y)
  := Prod.Lex.toLex_lt_toLex.mpr (.inl h)

theorem lt_of_count {a b c m n : ℕ} (h : b < c) :
  toLex (a, toLex (b, m)) < toLex (a, toLex (c, n))
  := Prod.Lex.toLex_lt_toLex.mpr (.inr ⟨rfl, Prod.Lex.toLex_lt_toLex.mpr (.inl h)⟩)

theorem lt_of_rows {a b m n : ℕ} (h : m < n) :
  toLex (a, toLex (b, m)) < toLex (a, toLex (b, n))
  := Prod.Lex.toLex_lt_toLex.mpr (.inr ⟨rfl, Prod.Lex.toLex_lt_toLex.mpr (.inr ⟨rfl, h⟩)⟩)

theorem remaining_pullNext {vaults : List LocalVault} {n : ℕ} :
  remaining site (w.pullNext plan vaults) < toLex (0, toLex (vaults.length + 1, n))
  := by
  induction vaults with
  | nil => exact lt_of_count (Nat.succ_pos _)
  | cons v rest ih =>
      rw [pullNext]
      split
      · exact lt_of_count (Nat.lt_succ_self _)
      · exact ih.trans (lt_of_count (Nat.lt_succ_self _))

theorem remaining_deleteNext {rows : List LogRow} :
  remaining site (w.deleteNext plan rows) < toLex (1, toLex (rows.length, 0))
  := by
  cases rows with
  | nil => exact lt_of_stage Nat.zero_lt_one
  | cons row rest => exact lt_of_count (Nat.lt_succ_self _)

theorem remaining_uploadNext {rows : List LogRow} :
  remaining site (w.uploadNext plan rows) < toLex (2, toLex (3 * rows.length + 1, 0))
  := by
  cases rows with
  | nil => exact remaining_deleteNext.trans (lt_of_stage (Nat.lt_succ_self _))
  | cons row rest =>
      rw [uploadNext]
      split
      · apply lt_of_count
        rw [List.length_cons]
        omega
      · exact lt_of_stage Nat.zero_lt_two

theorem remaining_refused {row : LogRow} {rest : List LogRow} {status : ℕ} {code : String} :
  remaining site (w.refused plan row rest status code) < toLex (2, toLex (3 * rest.length + 1, 0))
  := by
  rw [refused]
  split
  · exact remaining_uploadNext
  · exact lt_of_stage Nat.zero_lt_two

/-- A page that leaves more behind moves the cursor past rows of the listing. -/
theorem left_of_page {R : Type} {seq : R → ℤ} {rows : List R} {limit : ℕ} (hlimit : 1 ≤ limit)
    {since since' : ℤ}
    (hmore : limit < (Paging.newer seq rows since).length)
    (hle : Paging.cursorAfter seq since ((Paging.newer seq rows since).take limit) ≤ since') :
  (Paging.newer seq rows since').length < (Paging.newer seq rows since).length
  := by
  apply lt_of_le_of_lt _ (Paging.length_newer_cursor hlimit hmore)
  rw [Paging.newer_newer rows hle]
  exact List.length_filter_le _ _

/-- The cursor of a page of logs, and whether it leaves more behind. -/
theorem logPage_eq {users : Table Server.User} {seq : Server.LogRow → ℤ} {cursor : Server.Cursor}
    (hseq : ∀ r, r.cursorSeq cursor = seq r) {rows : List Server.LogRow} {limit : ℕ} {since : ℤ}
    {resp : LogListResponse}
    (hresp : Server.Db.logPage users ((Paging.newer seq rows since).take (limit + 1)) limit since
      cursor = resp) :
  resp.since = Paging.cursorAfter seq since ((Paging.newer seq rows since).take limit)
    ∧ (resp.hasMore = true → limit < (Paging.newer seq rows since).length)
  := by
  subst hresp
  have hpage := Paging.page_eq seq rows limit since
  rw [Paging.page, Prod.mk.injEq, Prod.mk.injEq] at hpage
  obtain ⟨-, hcursor, hmore⟩ := hpage
  constructor
  · have hsame : SessionLog.seq ∘ Server.toLog users cursor = seq := funext hseq
    rw [hcursor, Server.Db.logPage, Paging.cursorAfter, List.getLast?_map, Option.map_map, hsame]
  · intro h
    exact of_decide_eq_true (hmore.trans h)

theorem remaining_pulled {feed : LogFeed} {since : ℤ} {rest : List LocalVault}
    {resp : LogListResponse} (hpass : w.pass = some (plan, .pull feed since rest))
    (hleft : resp.hasMore = true → ∀ since', resp.since ≤ since' →
      left site w.server since' feed < left site w.server since feed) :
  remaining site (w.pulled plan feed since rest resp) < remaining site w
  := by
  have hnow : remaining site w
      = toLex (0, toLex (rest.length + 1, left site w.server since feed)) := by
    rw [remaining, hpass]
  rw [hnow, pulled]
  split
  · exact remaining_pullNext
  · rename_i hlast
    apply lt_of_rows
    have hmore : resp.hasMore = true := by
      simp only [Bool.or_eq_true, Bool.not_eq_true', not_or] at hlast
      exact Bool.of_not_eq_false hlast.1
    apply hleft hmore
    exact (le_max_right _ resp.since).trans (le_max_right _ _)

end

section
variable [Primitives] {site : LogSite} {w : LogWorld} {plan : LogPlan} {server : LogServer}

/-- An answer leaves less to do. -/
theorem remaining_answered {now : DateTime} {recordingRequired mayDelete : Bool}
    {request : LogRequest} (hpass : w.pass = some (plan, request))
    {answer : Except Server.Error request.Answer}
    (hserve : site.serve now recordingRequired mayDelete w.server request = (answer, server)) :
  remaining site (receive { w with server } plan request
    (answer.mapError (fun e => (e.status, e.code)))) < remaining site w
  := by
  cases request with
  | create row body rest =>
      have hnow : remaining site w = toLex (2, toLex (3 * rest.length + 3, 0)) := by
        rw [remaining, hpass]
      rw [hnow]
      cases answer with
      | ok _ => exact lt_of_count (Nat.lt_succ_self _)
      | error e =>
          change remaining site (receive { w with server } plan (.create row body rest)
            (.error (e.status, e.code))) < _
          rw [receive]
          split
          · exact lt_of_count (Nat.lt_add_of_pos_right Nat.zero_lt_two)
          · exact remaining_refused.trans (lt_of_count (Nat.lt_add_of_pos_right Nat.zero_lt_two))
  | put row body rest =>
      have hnow : remaining site w = toLex (2, toLex (3 * rest.length + 2, 0)) := by
        rw [remaining, hpass]
      rw [hnow]
      cases answer with
      | ok _ => exact lt_of_count (Nat.lt_succ_self _)
      | error e => exact remaining_refused.trans (lt_of_count (Nat.lt_succ_self _))
  | update row size rest =>
      have hnow : remaining site w = toLex (2, toLex (3 * rest.length + 1, 0)) := by
        rw [remaining, hpass]
      rw [hnow]
      cases answer with
      | ok seq => exact remaining_uploadNext
      | error e => exact remaining_refused
  | delete row rest =>
      have hnow : remaining site w = toLex (1, toLex (rest.length, 0)) := by
        rw [remaining, hpass]
      rw [hnow]
      cases answer with
      | ok _ => exact remaining_deleteNext
      | error e =>
          change remaining site (receive { w with server } plan (.delete row rest)
            (.error (e.status, e.code))) < _
          rw [receive]
          split
          · exact remaining_deleteNext
          · split
            · exact remaining_deleteNext
            · exact lt_of_stage Nat.zero_lt_one
  | pull feed since rest =>
      obtain rfl : server = w.server := by
        cases feed with
        | own => exact (congrArg Prod.snd hserve).symm
        | vault id => exact (congrArg Prod.snd hserve).symm
      have hlimit := one_le_clampLimit (some site.batch)
      cases answer with
      | ok resp =>
          apply remaining_pulled hpass
          intro hmore since' hle
          cases feed with
          | own =>
              have hresp : Server.Db.logPage w.server.db.users ((Paging.newer Server.LogRow.seq
                  (w.server.db.authorLogs site.auth.userId) since).take
                    (clampLimit (some site.batch) + 1)) (clampLimit (some site.batch)) since .author
                  = resp := by
                cases hserve
                rfl
              obtain ⟨hcursor, hlonger⟩ := logPage_eq (fun _ => rfl) hresp
              exact left_of_page hlimit (hlonger hmore) (hcursor ▸ hle)
          | vault id =>
              have hlist : w.server.db.logListVault site.auth id (clampLimit (some site.batch)) since
                  = .ok resp := congrArg Prod.fst hserve
              obtain ⟨a, -, hlist⟩ := bind_eq_ok.mp hlist
              obtain ⟨-, hlist⟩ := check_eq_ok.mp hlist
              obtain ⟨hcursor, hlonger⟩ := logPage_eq (fun _ => rfl) (pure_eq_ok.mp hlist)
              exact left_of_page hlimit (hlonger hmore) (hcursor ▸ hle)
      | error e =>
          have hnow : remaining site w
              = toLex (0, toLex (rest.length + 1, left site w.server since feed)) := by
            rw [remaining, hpass]
          rw [hnow]
          cases feed with
          | own => exact lt_of_count (Nat.succ_pos _)
          | vault id =>
              change remaining site (receive w plan (.pull (.vault id) since rest)
                (.error (e.status, e.code))) < _
              rw [receive]
              split
              · exact remaining_pullNext
              · exact lt_of_count (Nat.succ_pos _)

end

/-! ### A recording on its way -/

/-- The log is completed for good. -/
def Done (site : LogSite) (server : LogServer) (id : Uuid) : Prop :=
  ∃ log, server.log id = some log ∧ log.userId = site.auth.userId ∧ log.completed = true
    ∧ (log.deleted = false → ∃ object, server.objects site.auth.userId id = some object
        ∧ (object.length : ℤ) ≤ site.settings.maxLogBytes)

/-- The body of the recording is on disk, and the server has nothing else for it. -/
structure Ready (site : LogSite) (store : Store) (server : LogServer) (id : Uuid) : Prop where
  body : (store.logBodyCiphertext id).isSome = true
  author : ∀ log, server.log id = some log → log.userId = site.auth.userId
  stored : Stored site store server id

/-- The log is registered, and within the author's reach. -/
def Registered (site : LogSite) (server : LogServer) (id : Uuid) : Prop :=
  ∃ log, server.log id = some log ∧ log.userId = site.auth.userId ∧ log.deleted = false
    ∧ (server.db.logGrant site.auth id).isOk = true

/-- The recording is completed, or is among the rows to be uploaded. -/
def Todo (site : LogSite) (store : Store) (server : LogServer) (id : Uuid) (rows : List LogRow) :
    Prop :=
  Done site server id ∨ (Ready site store server id ∧ ∃ row ∈ rows, row.id = id)

/-- The bodies of the rows are on disk. -/
def OnDisk (store : Store) (rows : List LogRow) : Prop :=
  ∀ row ∈ rows, (store.logBodyCiphertext row.id).isSome = true

/-- How far the upload of a recording is, while a request is out. -/
def Reached (site : LogSite) (store : Store) (server : LogServer) (id : Uuid) : LogRequest → Prop
  | .create row body rest =>
    OnDisk store rest ∧ store.logBodyCiphertext row.id = some body
      ∧ Todo site store server id (row :: rest)
  | .put row body rest =>
    OnDisk store rest ∧ (row.id ≠ id → Todo site store server id rest)
      ∧ (row.id = id → Registered site server id
          ∧ (body.length : ℤ) ≤ site.settings.maxLogBytes)
  | .update row size rest =>
    OnDisk store rest ∧ (Todo site store server id rest
      ∨ row.id = id ∧ Registered site server id
          ∧ ∃ object, server.objects site.auth.userId id = some object
              ∧ (object.length : ℤ) = size ∧ (object.length : ℤ) ≤ site.settings.maxLogBytes)
  | .delete _ _ => Done site server id
  | .pull _ _ _ => Done site server id

/-- How far the upload of a recording is in a pass whose requests are answered. -/
structure Underway (site : LogSite) (id : Uuid) (w : LogWorld) : Prop where
  referenced : Server.Referenced w.server.db
  user : (w.server.db.users.get? site.auth.userId).isSome = true
  idle : w.pass = none → Done site w.server id
  out : ∀ plan request, w.pass = some (plan, request) → Reached site w.store w.server id request

section
variable {site : LogSite} {w : LogWorld} {plan : LogPlan} {id : Uuid} {store store' : Store}
  {server server' : LogServer} {rows : List LogRow}

theorem completed_of_done (h : Done site server id) :
  server.Completed id
  := by
  obtain ⟨log, hlog, hauthor, hcompleted, hobject⟩ := h
  refine ⟨log, hlog, hcompleted, fun hlive => ?_⟩
  obtain ⟨object, hobject, -⟩ := hobject hlive
  rw [LogServer.object, hlog, Option.bind_some, hauthor, hobject]
  rfl

theorem done_of_log (h : Done site server id) (hlog : server'.log id = server.log id)
    (hobject : server'.objects site.auth.userId id = server.objects site.auth.userId id) :
  Done site server' id
  := by
  rw [Done, hlog, hobject]
  exact h

theorem todo_of_log (h : Todo site store server id rows)
    (hbody : ∀ id, store'.logBodyCiphertext id = store.logBodyCiphertext id)
    (hlog : server'.log id = server.log id)
    (hobject : server'.objects site.auth.userId id = server.objects site.auth.userId id) :
  Todo site store' server' id rows
  := by
  rcases h with hdone | ⟨hready, hmem⟩
  · exact .inl (done_of_log hdone hlog hobject)
  · refine .inr ⟨⟨hbody id ▸ hready.body, hlog ▸ hready.author, ?_⟩, hmem⟩
    exact stored_of_log (stored_of_body (fun _ h => hbody id ▸ h) hready.stored) hlog hobject

theorem todo_of_cons {row : LogRow} (h : Todo site store server id (row :: rows))
    (hid : row.id ≠ id) :
  Todo site store server id rows
  := by
  rcases h with hdone | ⟨hready, row', hmem, hid'⟩
  · exact .inl hdone
  · refine .inr ⟨hready, row', (List.mem_cons.mp hmem).resolve_left ?_, hid'⟩
    rintro rfl
    exact hid hid'

theorem onDisk_of_body (h : OnDisk store rows)
    (hbody : ∀ id, store'.logBodyCiphertext id = store.logBodyCiphertext id) :
  OnDisk store' rows
  := by
  intro row hrow
  rw [hbody]
  exact h row hrow

theorem logBodyCiphertext_markLogUploaded {id' : Uuid} {seq : ℤ} :
  (store.markLogUploaded id seq).logBodyCiphertext id' = store.logBodyCiphertext id'
  := by
  have hrow : ((store.markLogUploaded id seq).logRow id').bind LogRow.localPath
      = (store.logRow id').bind LogRow.localPath := by
    rw [Store.logRow_markLogUploaded]
    split
    · rename_i heq
      subst heq
      cases store.logRow id' <;> rfl
    · rfl
  rw [Store.logBodyCiphertext, hrow]
  rfl

/-! ### Going on with the rest -/

theorem underway_done (hreferenced : Server.Referenced w.server.db)
    (huser : (w.server.db.users.get? site.auth.userId).isSome = true)
    (hdone : Done site w.server id) {w' : LogWorld} (hserver : w'.server = w.server)
    (hrequest : ∀ plan request, w'.pass = some (plan, request) →
      (∃ row rest, request = .delete row rest) ∨ ∃ feed since rest, request = .pull feed since rest) :
  Underway site id w'
  := by
  refine ⟨hserver ▸ hreferenced, hserver ▸ huser, fun _ => hserver ▸ hdone, ?_⟩
  intro plan request hpass
  rw [hserver]
  rcases hrequest plan request hpass with ⟨row, rest, rfl⟩ | ⟨feed, since, rest, rfl⟩
  · exact hdone
  · exact hdone

theorem request_pullNext {vaults : List LocalVault} {plan' : LogPlan} {request : LogRequest}
    (h : (w.pullNext plan vaults).pass = some (plan', request)) :
  ∃ feed since rest, request = .pull feed since rest
  := by
  induction vaults with
  | nil => cases h
  | cons v rest ih =>
      rw [pullNext] at h
      split at h
      · cases h
        exact ⟨_, _, _, rfl⟩
      · exact ih h

theorem request_deleteNext {plan' : LogPlan} {request : LogRequest}
    (h : (w.deleteNext plan rows).pass = some (plan', request)) :
  (∃ row rest, request = .delete row rest) ∨ ∃ feed since rest, request = .pull feed since rest
  := by
  cases rows with
  | nil =>
      cases h
      exact .inr ⟨_, _, _, rfl⟩
  | cons row rest =>
      cases h
      exact .inl ⟨_, _, rfl⟩

theorem underway_ask {request : LogRequest} (hreferenced : Server.Referenced w.server.db)
    (huser : (w.server.db.users.get? site.auth.userId).isSome = true)
    (h : Reached site w.store w.server id request) :
  Underway site id (w.ask plan request)
  := by
  refine ⟨hreferenced, huser, fun hidle => (by cases hidle), ?_⟩
  rintro plan' request' ⟨⟩
  exact h

theorem underway_uploadNext (hreferenced : Server.Referenced w.server.db)
    (huser : (w.server.db.users.get? site.auth.userId).isSome = true)
    (hdisk : OnDisk w.store rows) (htodo : Todo site w.store w.server id rows) :
  Underway site id (w.uploadNext plan rows)
  := by
  cases rows with
  | nil =>
      have hdone : Done site w.server id := by
        rcases htodo with hdone | ⟨-, row, hrow, -⟩
        · exact hdone
        · cases hrow
      exact underway_done hreferenced huser hdone goesOn_deleteNext.server
        (fun _ _ => request_deleteNext)
  | cons row rest =>
      obtain ⟨body, hbody⟩ := Option.isSome_iff_exists.mp (hdisk row List.mem_cons_self)
      rw [uploadNext, hbody]
      apply underway_ask hreferenced huser
      exact ⟨fun r hr => hdisk r (List.mem_cons_of_mem _ hr), hbody, htodo⟩

/-- A refusal that concerns one log leaves the others their turn. -/
theorem underway_refused {row : LogRow} {status : ℕ} {code : String}
    (hstatus : Server.perLog status = true) (hreferenced : Server.Referenced w.server.db)
    (huser : (w.server.db.users.get? site.auth.userId).isSome = true)
    (hdisk : OnDisk w.store rows) (htodo : Todo site w.store w.server id rows) :
  Underway site id (w.refused plan row rows status code)
  := by
  rw [refused, if_pos hstatus]
  exact underway_uploadNext (w := w.note row.id code) hreferenced huser hdisk htodo

end

section
variable [Primitives] {site : LogSite} {w : LogWorld} {plan : LogPlan} {id : Uuid}
  {server : LogServer} {row : LogRow} {body : Bytes} {rest : List LogRow}

omit [Primitives] in
/-- An author with access to the vault of a log has a grant for it. -/
theorem logGrant_of_access {db : Server.Db} {auth : Server.Auth} {log : Server.LogRow}
    {a : Server.Access} (hlog : db.sessionLogs.get? id = some log)
    (hauthor : log.userId = auth.userId) (haccess : db.access log.vaultId auth.userId = .ok a) :
  (db.logGrant auth id).isOk = true
  := by
  rw [Server.Db.logGrant, hlog]
  dsimp only
  rw [haccess, decide_eq_true hauthor]
  rfl

/-- A registration is answered. -/
theorem underway_create {now : DateTime} (h : Underway site id w)
    (hpass : w.pass = some (plan, .create row body rest))
    (hadmits : row.id = id →
      Admits site.settings site.auth w.server.db (registration row body.length))
    {answer : Except Server.Error Unit}
    (hserve : w.server.create site.settings site.auth now (registration row body.length)
      = (answer, server)) :
  Underway site id (receive { w with server } plan (.create row body rest)
    (answer.mapError (fun e => (e.status, e.code))))
  := by
  obtain ⟨hdisk, hbody, htodo⟩ := h.out plan _ hpass
  obtain ⟨hreferenced, huser⟩ := referenced_of_serve site now false false
    (.create row body rest) h.referenced h.user hserve
  cases answer with
  | ok _ =>
      obtain ⟨hnone, hwithin, hobjects, haccess, new, hauthor, hvault, -, hlive, -, hlog⟩ :=
        LogServer.create_spec hserve
      replace hnone : w.server.log row.id = none := hnone
      replace hlog : ∀ id', server.log id' = if id' = row.id then some new else w.server.log id' :=
        hlog
      apply underway_ask (w := { w with server }) hreferenced huser
      refine ⟨hdisk, fun hne => ?_, fun hid => ⟨?_, hwithin⟩⟩
      · exact todo_of_log (todo_of_cons htodo hne) (fun _ => rfl)
          ((hlog id).trans (if_neg (Ne.symm hne))) (congrFun (congrFun hobjects _) id)
      · have hnew : server.log id = some new := (hlog id).trans (if_pos hid.symm)
        refine ⟨new, hnew, hauthor, hlive, ?_⟩
        obtain ⟨a, hwrite, -⟩ := (hadmits hid).write
        apply logGrant_of_access hnew hauthor (a := a)
        rw [haccess.access, hvault]
        exact LogServer.access_of_requireWrite hwrite
  | error e =>
      obtain rfl := LogServer.create_error hserve
      have hstatus := Server.perLog_of_ne_internal (LogServer.create_ne_internal h.user hserve)
      change Underway site id (receive w plan (.create row body rest) (.error (e.status, e.code)))
      by_cases hid : row.id = id
      · rcases htodo with hdone | ⟨hready, -⟩
        · rw [receive]
          split
          · exact underway_ask hreferenced huser ⟨hdisk, .inl (.inl hdone)⟩
          · exact underway_refused hstatus hreferenced huser hdisk (.inl hdone)
        · -- A recording that is admitted and not registered now was registered before.
          rcases LogServer.create_of_admits now (hadmits hid) h.user with ⟨s', hs'⟩ |
            ⟨⟨msg, hconflict⟩, hlog⟩
          · rw [hserve] at hs'
            cases hs'
          · rw [hserve] at hconflict
            cases hconflict
            obtain ⟨log, hlog⟩ := Option.isSome_iff_exists.mp hlog
            replace hlog : w.server.log row.id = some log := hlog
            obtain ⟨hlive, hreach⟩ := (hadmits hid).reach log hlog
            replace hreach : (w.server.db.logGrant site.auth row.id).isOk = true := hreach
            rw [hid] at hlog hreach hbody
            have hauthor := hready.author log hlog
            obtain ⟨object, hobject, hwithin, hsame⟩ := hready.stored log hlog hlive
            apply underway_ask hreferenced huser
            refine ⟨hdisk, ?_⟩
            cases hcompleted : log.completed with
            | true =>
                refine .inl (.inl ⟨log, hlog, hauthor, hcompleted, fun _ => ?_⟩)
                exact ⟨object, hobject, hwithin⟩
            | false =>
                obtain rfl := hsame hcompleted body hbody
                exact .inr ⟨hid, ⟨log, hlog, hauthor, hlive, hreach⟩, body, hobject, rfl, hwithin⟩
      · have htodo' := todo_of_cons htodo hid
        rw [receive]
        split
        · exact underway_ask hreferenced huser ⟨hdisk, .inl htodo'⟩
        · exact underway_refused hstatus hreferenced huser hdisk htodo'

end

section
variable [Primitives] {site : LogSite} {w : LogWorld} {plan : LogPlan} {id : Uuid}
  {server : LogServer} {row : LogRow} {rest : List LogRow}

/-- A completion is answered. -/
theorem underway_update {size : ℤ} (h : Underway site id w)
    (hpass : w.pass = some (plan, .update row size rest)) {answer : Except Server.Error ℤ}
    (hserve : w.server.complete site.settings site.auth row.id size = (answer, server)) :
  Underway site id (receive { w with server } plan (.update row size rest)
    (answer.mapError (fun e => (e.status, e.code))))
  := by
  obtain ⟨hdisk, htodo⟩ := h.out plan _ hpass
  obtain ⟨hreferenced, huser⟩ := referenced_of_serve site 0 false false
    (.update row size rest) h.referenced h.user hserve
  cases answer with
  | ok seq =>
      obtain ⟨hobjects, -, old, new, object, hold, hauthor, -, hobject, -, hwithin, hkept, -,
        hcompleted, -, hlog⟩ := LogServer.complete_spec hserve
      have hrest : Todo site (w.store.markLogUploaded row.id seq) server id rest := by
        by_cases hid : id = row.id
        · refine .inl ⟨new, (hlog id).trans (if_pos hid), hkept.trans hauthor, hcompleted, fun _ => ?_⟩
          rw [hobjects, hid]
          exact ⟨object, hobject, hwithin⟩
        · have htodo' := htodo.resolve_right (fun hown => hid hown.1.symm)
          exact todo_of_log htodo' (fun _ => logBodyCiphertext_markLogUploaded)
            ((hlog id).trans (if_neg hid)) (congrFun (congrFun hobjects _) id)
      exact underway_uploadNext
        (w := { w with
          store := w.store.markLogUploaded row.id seq, server
          report := { w.report with uploaded := w.report.uploaded + 1 } })
        hreferenced huser (onDisk_of_body hdisk (fun _ => logBodyCiphertext_markLogUploaded)) hrest
  | error e =>
      have hstatus := Server.perLog_of_ne_internal
        (LogServer.complete_ne_internal h.referenced hserve)
      apply underway_refused (w := { w with server }) hstatus hreferenced huser hdisk
      rcases htodo with htodo | ⟨hid, ⟨log, hlog, hauthor, hlive, hreach⟩, object, hobject, rfl, hwithin⟩
      · rcases LogServer.complete_error hserve with rfl | ⟨object, hobject, hover, rfl⟩
        · exact htodo
        · obtain ⟨old, hold, hget⟩ := Option.bind_eq_some_iff.mp hobject
          have hremoved : (w.server.removeObject row.id).log id = w.server.log id := by
            rw [LogServer.removeObject, hold]
            rfl
          by_cases hid : id = row.id
          · -- What is over the limit is not the object of a live log.
            subst hid
            have hwithin : ∀ {object' : Bytes}, old.userId = site.auth.userId →
                w.server.objects site.auth.userId row.id = some object' →
                ¬ (object'.length : ℤ) ≤ site.settings.maxLogBytes := by
              intro object' hold' hobject' hle
              rw [hold', hobject'] at hget
              cases hget
              omega
            rcases htodo with ⟨log, hlog, hauthor, hcompleted, hstored⟩ | ⟨hready, hmem⟩
            · cases hold.symm.trans hlog
              refine .inl ⟨old, hremoved.trans hold, hauthor, hcompleted, fun hlive => ?_⟩
              obtain ⟨object', hobject', hle⟩ := hstored hlive
              exact absurd hle (hwithin hauthor hobject')
            · have hauthor := hready.author old hold
              refine .inr ⟨⟨hready.body, hremoved ▸ hready.author, ?_⟩, hmem⟩
              intro log hlog hlive
              cases hold.symm.trans (hremoved.symm.trans hlog)
              obtain ⟨object', hobject', hle, -⟩ := hready.stored old hold hlive
              exact absurd hle (hwithin hauthor hobject')
          · apply todo_of_log htodo (fun _ => rfl) hremoved
            rw [LogServer.removeObject, hold]
            exact if_neg (fun hand => hid hand.2)
      · -- The recording itself is not refused.
        subst hid
        obtain ⟨seq, s', hs'⟩ := LogServer.complete_of_stored h.referenced hlog hauthor hlive hreach
          hobject hwithin
        rw [hserve] at hs'
        cases hs'

/-- A deletion is answered. -/
theorem underway_delete {recordingRequired mayDelete : Bool} (h : Underway site id w)
    (hpass : w.pass = some (plan, .delete row rest)) {answer : Except Server.Error Unit}
    (hserve : w.server.delete site.auth recordingRequired mayDelete row.id = (answer, server)) :
  Underway site id (receive { w with server } plan (.delete row rest)
    (answer.mapError (fun e => (e.status, e.code))))
  := by
  have hdone : Done site w.server id := h.out plan _ hpass
  obtain ⟨hreferenced, huser⟩ := referenced_of_serve site 0 recordingRequired mayDelete
    (.delete row rest) h.referenced h.user hserve
  have hdone' : Done site server id := by
    rcases LogServer.delete_spec h.referenced hserve with rfl | ⟨-, old, new, hold, hobjects, hauthor,
      -, hcompleted, hdeleted, hlog⟩
    · exact hdone
    by_cases hid : id = row.id
    · subst hid
      obtain ⟨log, hget, huser', hcompleted', -⟩ := hdone
      cases hold.symm.trans hget
      refine ⟨new, (hlog _).trans (if_pos rfl), hauthor.trans huser', hcompleted.trans hcompleted', ?_⟩
      intro hlive
      rw [hdeleted] at hlive
      cases hlive
    · apply done_of_log hdone ((hlog id).trans (if_neg hid))
      rw [hobjects, LogServer.removeObject, hold]
      exact if_neg (fun hand => hid hand.2)
  have hnext : ∀ w' : LogWorld, w'.server = server → Underway site id (w'.deleteNext plan rest) := by
    intro w' hserver
    subst hserver
    exact underway_done hreferenced huser hdone' goesOn_deleteNext.server
      (fun _ _ => request_deleteNext)
  cases answer with
  | ok _ => exact hnext { w with store := w.store.forgetLog row.id, server } rfl
  | error e =>
      change Underway site id (receive { w with server } plan (.delete row rest)
        (.error (e.status, e.code)))
      rw [receive]
      split
      · exact hnext { w with store := w.store.forgetLog row.id, server } rfl
      · split
        · exact hnext (note { w with store := w.store.restoreLog row.id, server } row.id e.code) rfl
        · exact underway_done (w := { w with server }) hreferenced huser hdone' rfl
            (fun _ _ hnone => by cases hnone)

omit [Primitives] in
/-- A page is answered. -/
theorem underway_pull {feed : LogFeed} {since : ℤ} {vaults : List LocalVault}
    (h : Underway site id w) (hpass : w.pass = some (plan, .pull feed since vaults))
    (answer : Except (ℕ × String) LogListResponse) :
  Underway site id (w.receive plan (.pull feed since vaults) answer)
  := by
  have hdone : Done site w.server id := h.out plan _ hpass
  have hnext : ∀ w' : LogWorld, w'.server = w.server → Underway site id (w'.pullNext plan vaults) := by
    intro w' hserver
    exact underway_done h.referenced h.user hdone (goesOn_pullNext.server.trans hserver)
      (fun _ _ hrequest => .inr (request_pullNext hrequest))
  have hstop : Underway site id w.stop :=
    underway_done h.referenced h.user hdone rfl (fun _ _ hnone => by cases hnone)
  cases answer with
  | ok resp =>
      rw [receive, pulled]
      split
      · exact hnext _ rfl
      · exact underway_ask (w := w.mirrored feed since resp) h.referenced h.user hdone
  | error e =>
      cases feed with
      | own => exact hstop
      | vault vaultId =>
          rw [receive]
          split
          · exact hnext w rfl
          · exact hstop

variable [Serde LogMeta]

/-- An answered step of a pass leaves a recording on its way, and less to do. -/
theorem underway_of_step {w' : LogWorld} {e : LogEvent} (h : Underway site id w)
    (hG : Accepts site id w e) (hstep : (system site).step w e = some w') :
  Underway site id w' ∧ remaining site w' < remaining site w
  := by
  obtain ⟨⟨now, recordingRequired, mayDelete, rfl⟩, hadmits⟩ := hG
  obtain ⟨⟨plan, request⟩, hpass, rfl⟩ := Option.map_eq_some_iff.mp hstep
  rcases hserve : site.serve now recordingRequired mayDelete w.server request with ⟨answer, server⟩
  dsimp only
  rw [hserve]
  refine ⟨?_, remaining_answered hpass hserve⟩
  cases request with
  | create row body rest =>
      exact underway_create h hpass (hadmits plan row body rest hpass) hserve
  | put row body rest =>
      cases hserve
      obtain ⟨hdisk, hother, hown⟩ := h.out plan _ hpass
      apply underway_ask
        (w := { w with server := w.server.setObject site.auth.userId row.id (some body) })
        h.referenced h.user
      refine ⟨hdisk, ?_⟩
      by_cases hid : row.id = id
      · obtain ⟨hregistered, hwithin⟩ := hown hid
        exact .inr ⟨hid, hregistered, body, if_pos ⟨rfl, hid.symm⟩, rfl, hwithin⟩
      · exact .inl (todo_of_log (hother hid) (fun _ => rfl) rfl
          (if_neg (fun hand => hid hand.2.symm)))
  | update row size rest => exact underway_update h hpass hserve
  | delete row rest => exact underway_delete h hpass hserve
  | pull feed since rest =>
      obtain rfl : server = w.server := by
        cases feed with
        | own => exact (congrArg Prod.snd hserve).symm
        | vault id => exact (congrArg Prod.snd hserve).symm
      exact underway_pull h hpass _

/-! ### Every run -/

/-- What is known holds in every undisturbed run. -/
theorem sound_of_reaches (h : (system site).Reaches (fun w e => undisturbed site w e = true) w) :
  Sound site w
  := by
  apply TransitionSystem.Reaches.invariant _ _ h
  · rintro w ⟨-, hrecorded, hreferenced, huser⟩
    refine ⟨hreferenced, huser, fun id hid => ?_⟩
    rw [hrecorded] at hid
    cases hid
  · exact fun w e w' hsound hG hstep => sound_of_step hsound hG hstep

/-- A pass that starts has the recordings it selects to do. -/
theorem underway_of_start (h : Sound site w) (hid : id ∈ w.recorded) {r : LogRow}
    (hr : w.store.logRow id = some r) (hbody : (w.store.logBodyCiphertext id).isSome = true)
    (hopen : ¬ w.server.Completed id) (hsynced : w.store.syncedVault r.vaultId = true)
    {uploadLogs : Bool} (huploads : w.uploadsVault uploadLogs r.vaultId = true)
    (hdisk : OnDisk w.store w.store.logsToUpload) {w' : LogWorld}
    (hstep : step site w (.start uploadLogs) = some w') :
  Underway site id w'
  := by
  rw [step] at hstep
  split at hstep
  · rename_i account hpass haccount
    cases hstep
    have hkept := h.kept id hid
    have hpath : r.localPath.isSome = true := by
      obtain ⟨body, hbody⟩ := Option.isSome_iff_exists.mp hbody
      obtain ⟨r', p, hr', hp, -⟩ := Store.logBodyCiphertext_eq_some.mp hbody
      cases hr.symm.trans hr'
      exact Option.isSome_of_eq_some hp
    have huploaded : r.uploaded = false := by
      cases huploaded : r.uploaded with
      | false => rfl
      | true => exact absurd (completed_of_kept hkept hr huploaded) hopen
    obtain ⟨hcompleted, hdeleted⟩ := hkept.base.ready r hr hpath
    have hrid : r.id = id := Store.id_of_logRow hr
    have hselected : r ∈ w.store.logsToUpload := by
      apply Store.mem_logRows.mpr
      rw [hrid, hcompleted, huploaded, hdeleted, hpath, hsynced]
      exact ⟨hr, rfl⟩
    apply underway_uploadNext (w := { w with report := ⟨0, 0, []⟩ }) h.referenced h.user
    · exact fun row hrow => hdisk row (List.mem_filter.mp hrow).1
    · right
      refine ⟨⟨hbody, hkept.base.author, hkept.idle hpass⟩, r, ?_, hrid⟩
      exact List.mem_filter.mpr ⟨hselected, huploads⟩
  · cases hstep

/-- In every run in which a registration is followed by its object and no recording of the device is
mirrored back that is not completed: a recording marked uploaded is completed on the server, with
its object stored, and one that is not is completed by the next pass over its vault that is answered
and accepted, and that pass ends. -/
theorem uploadsKept_of_reaches
    (h : (system site).Reaches (fun w e => undisturbed site w e = true) w) :
  UploadedFaithful w ∧ Retried site w
  := by
  have hsound := sound_of_reaches h
  constructor
  · exact fun id hid r hr huploaded => completed_of_kept (hsound.kept id hid) hr huploaded
  · intro id hid r hr hbody hopen hsynced uploadLogs huploads hdisk w' hstep
    apply TransitionSystem.ends_of_measure (remaining site) (I := Underway site id)
    · exact fun w hw hidle => completed_of_done (hw.idle hidle)
    · exact fun w e w' hw hG hstep => underway_of_step hw hG hstep
    · exact underway_of_start hsound hid hr hbody hopen hsynced huploads hdisk hstep

end

/-! ### An upload cut short -/

open scoped Symbolic

/-- A device signed in to an account with a personal vault. -/
def device : LogSite := ⟨⟨1000, 1000, 0⟩, ⟨1, 1, none⟩, "logs", 50⟩

/-- The device and the server, before anything is recorded. -/
def unrecorded : LogWorld where
  store :=
    { Store.empty with
      vaults := ⟨[⟨7, .personal, "Personal", none, .manager, some (Symbolic.vaultKey 5), 1, 0, false, 0,
        true⟩], by decide⟩
      account := some ⟨1, "ann", none, none, 0, 0⟩ }
  server :=
    { db :=
        { users := ⟨[⟨1, "ann", none, none, false, false, 0, 0⟩], by decide⟩
          vaults := ⟨[⟨7, .personal, none, "Personal", 1, 0, 0, false, true, false⟩], by decide⟩
          vaultMembers := ⟨[⟨7, 1, .manager, some "k", 1⟩], by decide⟩
          teamMembers := .empty
          teamPolicies := .empty
          entities := .empty
          historyEntries := .empty
          sessionLogs := .empty
          bridgeScope _ _ := false
          directModes _ _ _ := none }
      objects _ _ := none }
  recorded := []
  pass := none
  report := ⟨0, 0, []⟩

/-- A session is recorded. -/
def recordSession : LogEvent :=
  .record 7 ⟨none, "box", "", "ssh", 0, none, 80, 24⟩ ⟨none, "box", "", "ssh", 0, some 9, 80, 24⟩
    [1, 2, 3] 31 5 Symbolic.nonce Symbolic.nonce Symbolic.nonce

/-- The request is answered. -/
def answered : LogEvent := .answered 6 false false

theorem init_unrecorded :
  (system device).init unrecorded
  := by
  refine ⟨rfl, rfl, ?_, by decide⟩
  intro id log hlog
  cases hlog

/-- A recording that is uploaded without interruption. -/
theorem uploadsKept_uploaded :
  ∃ w, (system device).run unrecorded
      [recordSession, .start true, answered, answered, answered, answered] = some w
    ∧ w.server.Completed 31
  := by
  have hsome : ((system device).runMeeting (fun w e => undisturbed device w e = true) unrecorded
      [recordSession, .start true, answered, answered, answered, answered]).any (fun w =>
        decide (31 ∈ w.recorded) && (w.store.logRow 31).any LogRow.uploaded) = true := by
    decide +kernel
  obtain ⟨w, hrun, hw⟩ := (Option.any_eq_true _ _).mp hsome
  obtain ⟨hid, hrow⟩ := Bool.and_eq_true_iff.mp hw
  obtain ⟨r, hr, huploaded⟩ := (Option.any_eq_true _ _).mp hrow
  refine ⟨w, TransitionSystem.run_of_runMeeting hrun, ?_⟩
  exact (uploadsKept_of_reaches (TransitionSystem.reaches_runMeeting init_unrecorded hrun)).1 31
    (of_decide_eq_true hid) r hr huploaded

/-- A recording whose upload is cut short is on disk and registered when the next pass starts. All
its requests are answered, and it ends with the recording marked uploaded and the log not
completed. -/
theorem cutShort_not_kept :
  (¬ ∀ w, (system device).Reachable w → UploadedFaithful w)
    ∧ ∃ w w', (system device).Reachable w ∧ w.pass = none ∧ 31 ∈ w.recorded
      ∧ (w.store.logBodyCiphertext 31).isSome = true
      ∧ (system device).run w [.start true, answered, answered, answered] = some w'
      ∧ w'.pass = none ∧ ¬ w'.server.Completed 31
  := by
  have hcut : ((system device).run unrecorded [recordSession, .start true, answered, .lost]).any
      (fun w => w.pass.isNone && w.recorded.contains 31 && (w.store.logBodyCiphertext 31).isSome
        && ((system device).run w [.start true, answered, answered, answered]).any (fun w' =>
          w'.pass.isNone && w'.recorded.contains 31 && (w'.store.logRow 31).any LogRow.uploaded
            && (w'.server.log 31).all (fun log => !log.completed))) = true := by
    decide +kernel
  obtain ⟨w, hw, hcut⟩ := (Option.any_eq_true _ _).mp hcut
  simp only [Bool.and_eq_true, List.contains_iff_mem, Option.isNone_iff_eq_none,
    Option.any_eq_true] at hcut
  obtain ⟨⟨⟨hidle, hrecorded⟩, hbody⟩, w', hw', ⟨⟨hidle', hrecorded'⟩, r, hr, huploaded⟩, hopen⟩ := hcut
  have hreach : (system device).Reachable w :=
    TransitionSystem.Reaches.run (.init init_unrecorded) (TransitionSystem.meets_true _ _) hw
  have hnot : ¬ w'.server.Completed 31 := by
    rintro ⟨log, hlog, hcompleted, -⟩
    rw [hlog, Option.all_some, hcompleted] at hopen
    cases hopen
  refine ⟨fun h => ?_, w, w', hreach, hidle, hrecorded, hbody, hw', hidle', hnot⟩
  have hreach' : (system device).Reachable w' :=
    TransitionSystem.Reaches.run hreach (TransitionSystem.meets_true _ _) hw'
  exact hnot (h w' hreach' 31 hrecorded' r hr huploaded)

end LogWorld

end Termoso
