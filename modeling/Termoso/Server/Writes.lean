import Termoso.Server.Sync
import Termoso.Server.History
import Termoso.Server.Logs
import Termoso.Lib.Stamped
import Termoso.Lib.Transition

/-!
# The databases the write handlers make

The write handlers of the three feeds as a transition system, started from a database whose
feeds are empty.  In every database they make, entities are numbered distinctly within their
vault, and logs within their author and within their vault.
-/

namespace Termoso.Server

/-- A request to a write handler, or a retention pass. -/
inductive Write
  | push (settings : Settings) (auth : Auth) (now : DateTime) (req : PushRequest)
  | historyPush (settings : Settings) (userId : Uuid) (entries : List HistoryEntry)
  | historyClear (userId : Uuid) (kind : Option HistoryKind) (now : DateTime)
  | logCreate (settings : Settings) (auth : Auth) (now : DateTime) (req : CreateLogRequest)
  | logUpdate (settings : Settings) (auth : Auth) (actual : Option ℤ) (id : Uuid)
      (req : UpdateLogRequest)
  | logDelete (auth : Auth) (recordingRequired mayDelete : Bool) (id : Uuid)
  | retention (now : DateTime)

/-- The database a handler leaves, when it does not fail. -/
def Db.write [Primitives] (db : Db) : Write → Except Error Db
  | .push settings auth now req => (db.push settings auth now req).map Prod.snd
  | .historyPush settings userId entries => (db.historyPush settings userId entries).map Prod.snd
  | .historyClear userId kind now => db.historyClear userId kind now
  | .logCreate settings auth now req => db.logCreate settings auth now req
  | .logUpdate settings auth actual id req => db.logUpdate settings auth actual id req
  | .logDelete auth recordingRequired mayDelete id =>
    db.logDelete auth recordingRequired mayDelete id
  | .retention now => db.retentionPass now

/-- The write handlers, from a database with empty feeds. -/
def feedSystem [Primitives] : TransitionSystem Db Write where
  init db := db.entities = .empty ∧ db.historyEntries = .empty ∧ db.sessionLogs = .empty
  step db w := (db.write w).toOption

/-- Entities and logs are numbered distinctly in their feeds, up to the counters. -/
structure Numbered (db : Db) : Prop where
  entities : db.entities.Stamped SyncEntity.vaultId SyncEntity.seq db.vaultSeq
  authorLogs : db.sessionLogs.Stamped LogRow.userId LogRow.seq db.userLogsSeq
  vaultLogs : db.sessionLogs.Stamped LogRow.vaultId LogRow.vaultSeq db.vaultLogsSeq

namespace Db

variable {db db' : Db}

/-! ### Entities -/

theorem numbered_of_wrote {e : SyncEntity} (h : Numbered db) (hw : Wrote db db' e) :
  Numbered db'
  := by
  have hlogs : db'.sessionLogs = db.sessionLogs := by rw [hw.rest]
  have husers : db'.users = db.users := by rw [hw.rest]
  constructor
  · apply h.entities.put hw.entities
    · intro v
      rw [hw.vaultSeq]
      split
      · rename_i heq
        rw [hw.seq, heq]
        omega
      · rfl
    · rw [hw.vaultSeq, if_pos rfl]
    · rw [hw.vaultSeq, if_pos rfl, hw.seq]
      omega
  · have hseq : db'.userLogsSeq = db.userLogsSeq := by
      funext u
      rw [userLogsSeq, husers, userLogsSeq]
    rw [hlogs, hseq]
    exact h.authorLogs
  · rw [hlogs, funext hw.vaultLogsSeq]
    exact h.vaultLogs

/-! ### History -/

/-- What a history handler leaves alone. -/
structure HistoryOnly (db db' : Db) : Prop where
  userLogsSeq : ∀ u, db'.userLogsSeq u = db.userLogsSeq u
  rest : db' = { db with users := db'.users, historyEntries := db'.historyEntries }

theorem HistoryOnly.trans {db'' : Db} (h : HistoryOnly db db') (h' : HistoryOnly db' db'') :
  HistoryOnly db db''
  where
    userLogsSeq u := (h'.userLogsSeq u).trans (h.userLogsSeq u)
    rest := by
      rw [h'.rest, h.rest]

theorem numbered_of_historyOnly (h : Numbered db) (hh : HistoryOnly db db') :
  Numbered db'
  := by
  have hvaults : db'.vaults = db.vaults := by rw [hh.rest]
  have hentities : db'.entities = db.entities := by rw [hh.rest]
  have hlogs : db'.sessionLogs = db.sessionLogs := by rw [hh.rest]
  have hvaultSeq : db'.vaultSeq = db.vaultSeq := by
    funext v
    rw [vaultSeq, hvaults, vaultSeq]
  have hvaultLogsSeq : db'.vaultLogsSeq = db.vaultLogsSeq := by
    funext v
    rw [vaultLogsSeq, hvaults, vaultLogsSeq]
  constructor
  · rw [hentities, hvaultSeq]
    exact h.entities
  · rw [hlogs, funext hh.userLogsSeq]
    exact h.authorLogs
  · rw [hlogs, hvaultLogsSeq]
    exact h.vaultLogs

theorem pushEntries_historyOnly {userId : Uuid} {entries out : List HistoryEntry}
    (h : pushEntries userId db entries = .ok (out, db')) :
  HistoryOnly db db'
  := by
  induction entries generalizing db out with
  | nil =>
      cases h
      exact ⟨fun _ => rfl, rfl⟩
  | cons e entries ih =>
      simp only [pushEntries, bind_eq_ok, pure_eq_ok, Prod.exists, Prod.mk.injEq] at h
      obtain ⟨e', db₁, he, out', db₂, hes, -, rfl⟩ := h
      apply HistoryOnly.trans _ (ih hes)
      simp only [pushEntry, bind_eq_ok, pure_eq_ok, Prod.exists, Prod.mk.injEq] at he
      obtain ⟨seq, db₃, hseq, -, rfl⟩ := he
      obtain ⟨-, -, hlogs, hrest⟩ := nextHistorySeq_eq_ok hseq
      exact ⟨hlogs, by rw [hrest]⟩

theorem historyClear_historyOnly {userId : Uuid} {kind : Option HistoryKind} {now : DateTime}
    (h : db.historyClear userId kind now = .ok db') :
  HistoryOnly db db'
  := by
  simp only [historyClear, bind_eq_ok, pure_eq_ok, Prod.exists] at h
  obtain ⟨seq, db₁, hseq, rfl⟩ := h
  obtain ⟨-, -, hlogs, hrest⟩ := nextHistorySeq_eq_ok hseq
  exact ⟨hlogs, by rw [hrest]⟩

/-! ### Logs -/

/-- `db'` is `db` with the log `r` written. -/
structure WroteLog (db db' : Db) (r : LogRow) : Prop where
  seq : r.seq = db.userLogsSeq r.userId + 1
  vaultSeq : r.vaultSeq = db.vaultLogsSeq r.vaultId + 1
  logs : ∀ id, db'.sessionLogs.get? id = if id = r.id then some r else db.sessionLogs.get? id
  userLogsSeq : ∀ u, db'.userLogsSeq u = if u = r.userId then r.seq else db.userLogsSeq u
  vaultLogsSeq : ∀ v, db'.vaultLogsSeq v = if v = r.vaultId then r.vaultSeq else db.vaultLogsSeq v
  entities : db'.entities = db.entities
  entitySeq : ∀ v, db'.vaultSeq v = db.vaultSeq v

theorem numbered_of_wroteLog {r : LogRow} (h : Numbered db) (hw : WroteLog db db' r) :
  Numbered db'
  := by
  constructor
  · rw [hw.entities, funext hw.entitySeq]
    exact h.entities
  · apply h.authorLogs.put hw.logs
    · intro u
      rw [hw.userLogsSeq]
      split
      · rename_i heq
        rw [hw.seq, heq]
        omega
      · rfl
    · rw [hw.userLogsSeq, if_pos rfl]
    · rw [hw.userLogsSeq, if_pos rfl, hw.seq]
      omega
  · apply h.vaultLogs.put hw.logs
    · intro v
      rw [hw.vaultLogsSeq]
      split
      · rename_i heq
        rw [hw.vaultSeq, heq]
        omega
      · rfl
    · rw [hw.vaultLogsSeq, if_pos rfl]
    · rw [hw.vaultLogsSeq, if_pos rfl, hw.vaultSeq]
      omega

/-- Writing a log under the numbers just drawn for its author and vault. -/
theorem wroteLog_of_nextSeqs {db₁ : Db} {r : LogRow} {logs : Table LogRow}
    (h : db.nextSeqs r.userId r.vaultId = .ok (r.seq, r.vaultSeq, db₁))
    (hlogs : ∀ id, logs.get? id = if id = r.id then some r else db.sessionLogs.get? id) :
  WroteLog db { db₁ with sessionLogs := logs } r
  := by
  obtain ⟨hseq, hvseq, hu, hv, he, hrest⟩ := nextSeqs_eq_ok h
  refine ⟨hseq, hvseq, hlogs, hu, hv, ?_, he⟩
  rw [hrest]

section
variable [Primitives] {settings : Settings} {auth : Auth}

theorem logCreate_eq_ok {now : DateTime} {req : CreateLogRequest}
    (h : db.logCreate settings auth now req = .ok db') :
  ∃ r, WroteLog db db' r
  := by
  simp only [logCreate, bind_eq_ok, check_eq_ok, Prod.exists] at h
  obtain ⟨_, -, -, a, -, -, -, seq, vaultSeq, db₁, hseqs, h⟩ := h
  split at h
  · rename_i logs hins
    obtain rfl := pure_eq_ok.mp h
    obtain ⟨-, -, -, -, -, hrest⟩ := nextSeqs_eq_ok hseqs
    have hlogs : db₁.sessionLogs = db.sessionLogs := by rw [hrest]
    rw [hlogs] at hins
    exact ⟨_, wroteLog_of_nextSeqs hseqs (Table.get?_insert hins)⟩
  · exact absurd h (by simp)

omit [Primitives] in
/-- What the grant for a log shows is the log. -/
theorem logGrant_eq_ok {id : Uuid} {grant : Grant} (h : db.logGrant auth id = .ok grant) :
  db.sessionLogs.get? id = some grant.log
  := by
  rw [logGrant] at h
  split at h
  · cases h
  rename_i log hget
  dsimp only at h
  split at h
  · split at h
    · cases h
      exact hget
    · cases h
  · split at h
    · split at h
      · cases h
        exact hget
      · cases h
    · cases h
  · cases h

omit [Primitives] in
/-- Setting a log under the numbers just drawn for its author and vault. -/
theorem wroteLog_of_set {db₁ : Db} {id : Uuid} {log : LogRow} {f : LogRow → LogRow}
    {hf : ∀ r, key (f r) = key r} (hget : db.sessionLogs.get? id = some log)
    (hseqs : db.nextSeqs log.userId log.vaultId = .ok ((f log).seq, (f log).vaultSeq, db₁))
    (huser : (f log).userId = log.userId) (hvault : (f log).vaultId = log.vaultId) :
  WroteLog db { db₁ with sessionLogs := db₁.sessionLogs.set id f hf } (f log)
  := by
  obtain ⟨-, -, -, -, -, hrest⟩ := nextSeqs_eq_ok hseqs
  have hlogs : db₁.sessionLogs = db.sessionLogs := by rw [hrest]
  rw [hlogs]
  rw [← huser, ← hvault] at hseqs
  apply wroteLog_of_nextSeqs hseqs
  intro id'
  have hid : (f log).id = id := (hf log).trans (Table.key_of_get? hget)
  rw [Table.get?_set, hget, hid]
  rfl

theorem logUpdate_eq_ok {actual : Option ℤ} {id : Uuid} {req : UpdateLogRequest}
    (h : db.logUpdate settings auth actual id req = .ok db') :
  ∃ r, WroteLog db db' r
  := by
  simp only [logUpdate, bind_eq_ok, check_eq_ok, pure_eq_ok, Prod.exists] at h
  obtain ⟨grant, hgrant, -, -, -, _, -, note, -, size, -, seq, vaultSeq, db₁, hseqs, rfl⟩ := h
  exact ⟨_, wroteLog_of_set (logGrant_eq_ok hgrant) hseqs rfl rfl⟩

omit [Primitives] in
theorem logDelete_eq_ok {recordingRequired mayDelete : Bool} {id : Uuid}
    (h : db.logDelete auth recordingRequired mayDelete id = .ok db') :
  db' = db ∨ ∃ r, WroteLog db db' r
  := by
  simp only [logDelete, bind_eq_ok] at h
  obtain ⟨grant, hgrant, h⟩ := h
  split at h
  · exact .inl (pure_eq_ok.mp h).symm
  · simp only [check_eq_ok, bind_eq_ok, pure_eq_ok, Prod.exists] at h
    obtain ⟨-, -, seq, vaultSeq, db₁, hseqs, rfl⟩ := h
    exact .inr ⟨_, wroteLog_of_set (logGrant_eq_ok hgrant) hseqs rfl rfl⟩

omit [Primitives] in
/-- A retention pass tombstones logs one by one. -/
theorem numbered_of_retire {rows : List LogRow} (h : Numbered db)
    (howner : ∀ r ∈ rows, ∃ r', db.sessionLogs.get? r.id = some r' ∧ r'.userId = r.userId
      ∧ r'.vaultId = r.vaultId)
    (hdb : rows.foldlM retireLog db = .ok db') :
  Numbered db'
  := by
  induction rows generalizing db with
  | nil =>
      obtain rfl := pure_eq_ok.mp hdb
      exact h
  | cons r rows ih =>
      simp only [List.foldlM_cons, bind_eq_ok] at hdb
      obtain ⟨db₁, hr, hdb⟩ := hdb
      obtain ⟨r', hget, huser, hvault⟩ := howner r List.mem_cons_self
      simp only [retireLog, bind_eq_ok, pure_eq_ok, Prod.exists] at hr
      obtain ⟨seq, vaultSeq, db₂, hseqs, rfl⟩ := hr
      rw [← huser, ← hvault] at hseqs
      have hw : WroteLog db { db₂ with
          sessionLogs := db₂.sessionLogs.set r.id (tombstone seq vaultSeq true) (fun _ => rfl) }
          (tombstone seq vaultSeq true r') :=
        wroteLog_of_set hget hseqs rfl rfl
      apply ih (numbered_of_wroteLog h hw) _ hdb
      intro r₁ hr₁
      obtain ⟨r₁', hget₁, huser₁, hvault₁⟩ := howner r₁ (List.mem_cons_of_mem _ hr₁)
      rw [hw.logs]
      split
      · rename_i heq
        have hid : r'.id = r.id := Table.key_of_get? hget
        have heq : r₁.id = r.id := heq.trans hid
        rw [heq, hget] at hget₁
        cases hget₁
        exact ⟨_, rfl, huser₁, hvault₁⟩
      · exact ⟨r₁', hget₁, huser₁, hvault₁⟩

/-! ### Every database the handlers make -/

/-- Every write handler keeps the feeds numbered. -/
theorem numbered_of_write {w : Write} (h : Numbered db) (hw : db.write w = .ok db') :
  Numbered db'
  := by
  cases w with
  | push settings auth now req =>
      obtain ⟨⟨results, db₁⟩, hpush, rfl⟩ := map_eq_ok.mp hw
      rw [push] at hpush
      split at hpush
      · cases hpush
      · exact pushTx_induction (fun _ _ _ h hw => numbered_of_wrote h hw) h hpush
  | historyPush settings userId entries =>
      obtain ⟨⟨out, db₁⟩, hpush, rfl⟩ := map_eq_ok.mp hw
      simp only [historyPush, bind_eq_ok, check_eq_ok, pure_eq_ok, Prod.exists, Prod.mk.injEq]
        at hpush
      obtain ⟨-, -, out, db₂, hpush, -, rfl⟩ := hpush
      exact numbered_of_historyOnly h (pushEntries_historyOnly hpush)
  | historyClear userId kind now => exact numbered_of_historyOnly h (historyClear_historyOnly hw)
  | logCreate settings auth now req =>
      obtain ⟨r, hr⟩ := logCreate_eq_ok hw
      exact numbered_of_wroteLog h hr
  | logUpdate settings auth actual id req =>
      obtain ⟨r, hr⟩ := logUpdate_eq_ok hw
      exact numbered_of_wroteLog h hr
  | logDelete auth recordingRequired mayDelete id =>
      rcases logDelete_eq_ok hw with rfl | ⟨r, hr⟩
      · exact h
      · exact numbered_of_wroteLog h hr
  | retention now =>
      apply numbered_of_retire h _ hw
      intro r hr
      rw [List.mem_insertionSort, expiredLogs, Table.select, List.mem_filter] at hr
      exact ⟨r, Table.get?_of_mem hr.1, rfl, rfl⟩

/-- Every database the handlers make has numbered feeds. -/
theorem numbered_of_reachable (h : feedSystem.Reachable db) :
  Numbered db
  := by
  apply h.invariant
  · rintro db ⟨hent, -, hlogs⟩
    constructor
    · rw [hent]
      exact Table.stamped_empty
    · rw [hlogs]
      exact Table.stamped_empty
    · rw [hlogs]
      exact Table.stamped_empty
  · intro db w db' h _ hw
    exact numbered_of_write h (toOption_eq_some.mp hw)

end

end Db

end Termoso.Server
