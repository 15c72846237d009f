import Termoso.Server.Db
import Termoso.Crypto
import Termoso.Lib.Paging

/-!
# History on the server

Encrypted history entries of a user, numbered from the user's history counter.  A pushed
entry gets a number of its own; a clear gives one number to all entries it tombstones, and
purges old tombstones.
-/

namespace Termoso.Server

/-- The wire entry of a row. -/
def HistoryRow.toEntry (r : HistoryRow) : HistoryEntry :=
  ⟨r.id, r.kind, r.data, r.keyVersion, r.createdAt, r.seq, r.deleted⟩

namespace Db

/-- Store one pushed entry under the next number. An identifier taken by another user keeps its
row. -/
def pushEntry (userId : Uuid) (db : Db) (e : HistoryEntry) : Except Error (HistoryEntry × Db) := do
  let (seq, db) ← db.nextHistorySeq userId
  let data := if e.deleted then "" else e.data
  return ({ e with seq }, { db with
    historyEntries := db.historyEntries.upsert
      ⟨e.id, userId, e.kind, data, e.keyVersion, e.createdAt, seq, e.deleted⟩
      (fun r =>
        if r.userId = userId then { r with data, keyVersion := e.keyVersion, seq, deleted := e.deleted }
        else r)
      (fun r => by split <;> rfl) })

/-- Store pushed entries, in order. -/
def pushEntries (userId : Uuid) : Db → List HistoryEntry → Except Error (List HistoryEntry × Db)
  | db, [] => .ok ([], db)
  | db, e :: es => do
    let (e', db) ← pushEntry userId db e
    let (es', db) ← pushEntries userId db es
    return (e' :: es', db)

def historyPush [Primitives] (settings : Settings) (userId : Uuid) (db : Db)
    (entries : List HistoryEntry) : Except Error (HistoryPullResponse × Db) := do
  if entries.length > MAX_BATCH then
    throw (.tooLarge s!"At most {MAX_BATCH} entries per push")
  if entries.any (fun e => decide (e.data.utf8ByteSize > settings.maxEntityBytes)
      || (!e.deleted && (Primitives.unb64 e.data).isNone)) then
    throw (.tooLarge "History entry too large")
  let (out, db) ← pushEntries userId db entries
  return (⟨out, (out.getLast?.map HistoryEntry.seq).getD 0, false⟩, db)

/-- The rows of a user. -/
def userHistory (db : Db) (userId : Uuid) : List HistoryRow :=
  db.historyEntries.select (fun r => decide (r.userId = userId))

/-- A page of at most `limit` entries. -/
def historyPage (db : Db) (userId : Uuid) (limit : ℕ) (since : ℤ) : HistoryPullResponse :=
  let rows := (Paging.newer HistoryRow.seq (db.userHistory userId) since).take (limit + 1)
  let entries := (rows.take limit).map HistoryRow.toEntry
  ⟨entries, (entries.getLast?.map HistoryEntry.seq).getD since, decide (rows.length > limit)⟩

def historyPull (db : Db) (userId : Uuid) (since : ℤ) (limit : Option ℕ) : HistoryPullResponse :=
  db.historyPage userId (clampLimit limit) since

/-- Tombstone every live entry of a user, or those of one kind, under one number; then purge
the tombstones of entries made more than thirty days ago. -/
def historyClear (userId : Uuid) (kind : Option HistoryKind) (now : DateTime) (db : Db) :
    Except Error Db := do
  let (seq, db) ← db.nextHistorySeq userId
  return { db with
    historyEntries := (db.historyEntries.update
        (fun r => decide (r.userId = userId) && !r.deleted && kind.all (fun k => decide (r.kind = k)))
        (fun r => { r with deleted := true, data := "", seq }) (fun _ => rfl)).delete
      (fun r => decide (r.userId = userId) && r.deleted && decide (r.createdAt < now - 30 * day)) }

end Db

end Termoso.Server
