import Termoso.Core.Logs

/-!
# Session logs between a device and the server

What a pass reads of the local store and what it writes there: the finished recordings the
server does not have yet, the deletions it has not heard of, and the mirrored metadata.
-/

namespace Termoso.Core

/-- The nil identifier. -/
def nilUuid : Uuid := 0

namespace Store

/-- The rows that qualify: pinned first, then newest first. -/
def logRows (s : Store) (p : LogRow → Bool) : List LogRow :=
  (s.sessionLogs.select p).insertionSort
    (fun r r' => (r.pinned = true ∧ r'.pinned = false)
      ∨ (r.pinned = r'.pinned ∧ r'.createdAt ≤ r.createdAt))

/-- Whether a vault is not the device-local one. -/
def syncedVault (s : Store) (vaultId : Uuid) : Bool :=
  (s.vaults.get? vaultId).any (fun v => v.kind.isSynced)

/-- Completed recordings in synced vaults the server does not have yet. -/
def logsToUpload (s : Store) : List LogRow :=
  s.logRows (fun r =>
    r.completed && !r.uploaded && !r.deleted && r.localPath.isSome && s.syncedVault r.vaultId)

/-- Tombstones the server still has to hear about. -/
def logsToDeleteRemote (s : Store) : List LogRow :=
  s.logRows (fun r => r.deleted && decide (r.seq > 0))

/-- A file is removed. -/
def removeFile (s : Store) (path : Option String) : Store :=
  { s with files := fun p => if path = some p then none else s.files p }

/-- Encrypted body bytes for upload, when the row has a body and its file can be read. -/
def logBodyCiphertext (s : Store) (id : Uuid) : Option Bytes :=
  ((s.logRow id).bind LogRow.localPath).bind s.files

/-- Server accepted the upload. -/
def markLogUploaded (s : Store) (id : Uuid) (seq : ℤ) : Store :=
  { s with
    sessionLogs := s.sessionLogs.set id (fun r => { r with uploaded := true, seq })
      (fun _ => rfl) }

/-- Undo a local tombstone the server refused. The body stays gone. -/
def restoreLog (s : Store) (id : Uuid) : Store :=
  { s with
    sessionLogs := s.sessionLogs.set id (fun r => { r with deleted := false })
      (fun _ => rfl) }

/-- Forget a row entirely. -/
def forgetLog (s : Store) (id : Uuid) : Store :=
  { s.removeFile ((s.logRow id).bind LogRow.localPath) with
    sessionLogs := s.sessionLogs.erase id }

/-- Delete a recording: its body, and its row, which stays as a tombstone when the server has a
number for it. -/
def deleteLog (s : Store) (id : Uuid) : Except CoreError Store :=
  match s.logRow id with
  | none => .error (.notFound s!"log {id}")
  | some row =>
    .ok { s.removeFile row.localPath with
      sessionLogs :=
        if row.seq = 0 then s.sessionLogs.erase id
        else s.sessionLogs.set id (fun r => { r with deleted := true, localPath := none })
          (fun _ => rfl) }

/-- The row a log of the server becomes when there is none. -/
def mirroredLog (l : SessionLog) : LogRow where
  id := l.id
  vaultId := l.vaultId
  metadata := l.metadata
  keyVersion := l.keyVersion
  sizeBytes := l.sizeBytes
  localPath := none
  uploaded := true
  completed := l.completed
  createdAt := l.createdAt
  seq := l.seq
  deleted := false
  authorId := if l.userId = nilUuid then none else some l.userId
  author := l.author
  pinned := l.pinned
  note := l.note
  noteBy := l.noteBy

/-- A row under the metadata of a log of the server. Local tombstones win over remote rows. -/
def remirroredLog (l : SessionLog) (r : LogRow) : LogRow :=
  { r with
    metadata := if r.deleted then r.metadata else l.metadata
    keyVersion := l.keyVersion, sizeBytes := l.sizeBytes, uploaded := true
    completed := l.completed, seq := l.seq
    authorId := if l.userId = nilUuid then none else some l.userId
    author := l.author, pinned := l.pinned, note := l.note, noteBy := l.noteBy }

theorem key_remirroredLog (l : SessionLog) (r : LogRow) :
  key (remirroredLog l r) = key r
  := rfl

/-- Mirror one log of the server. -/
def applyRemoteLog (s : Store) (l : SessionLog) : Store :=
  if l.deleted then s.forgetLog l.id
  else
    { s with
      sessionLogs := s.sessionLogs.upsert (mirroredLog l) (remirroredLog l) (key_remirroredLog l) }

/-- Mirror server metadata. -/
def applyRemoteLogs (s : Store) (logs : List SessionLog) : Store := logs.foldl applyRemoteLog s

/-- Update the log cursor of a vault. -/
def setVaultLogsCursor (s : Store) (id : Uuid) (logsCursor : ℤ) : Store :=
  { s with
    vaults := s.vaults.set id (fun v => { v with logsCursor })
      (fun _ => rfl) }

/-! ### Bodies on disk -/

section
variable {s s' : Store} {id id' : Uuid} {b b' : Bytes}

theorem mem_logRows {p : LogRow → Bool} {r : LogRow} :
  r ∈ s.logRows p ↔ s.logRow r.id = some r ∧ p r = true
  := by
  rw [logRows, List.mem_insertionSort, mem_log_select]

theorem logBodyCiphertext_eq_some :
  s.logBodyCiphertext id = some b
    ↔ ∃ r p, s.logRow id = some r ∧ r.localPath = some p ∧ s.files p = some b
  := by
  rw [logBodyCiphertext]
  cases hrow : s.logRow id with
  | none => simp
  | some r => cases hpath : r.localPath <;> simp [hpath]

/-- Rows change in `s'` at most in what does not bear on their bodies, and files only disappear. -/
structure Forgets (s s' : Store) : Prop where
  rows : ∀ id r, s'.logRow id = some r → r.localPath = none
    ∨ ∃ r₀, s.logRow id = some r₀ ∧ r₀.localPath = r.localPath
  files : ∀ p b, s'.files p = some b → s.files p = some b

theorem Forgets.refl :
  Forgets s s
  := ⟨fun _ r h => .inr ⟨r, h, rfl⟩, fun _ _ h => h⟩

theorem Forgets.trans {s'' : Store} (h : Forgets s s') (h' : Forgets s' s'') :
  Forgets s s''
  := by
  constructor
  · intro id r hr
    rcases h'.rows id r hr with hnone | ⟨r₁, hr₁, hpath⟩
    · exact .inl hnone
    · rcases h.rows id r₁ hr₁ with hnone | ⟨r₀, hr₀, hpath₀⟩
      · exact .inl (hpath ▸ hnone)
      · exact .inr ⟨r₀, hr₀, hpath₀.trans hpath⟩
  · exact fun p b hb => h.files p b (h'.files p b hb)

/-- A body found in `s'` is the one of `s`. -/
theorem Forgets.body (h : Forgets s s') (hb : s'.logBodyCiphertext id = some b) :
  s.logBodyCiphertext id = some b
  := by
  obtain ⟨r, p, hr, hp, hfile⟩ := logBodyCiphertext_eq_some.mp hb
  rcases h.rows id r hr with hnone | ⟨r₀, hr₀, hpath⟩
  · rw [hnone] at hp
    cases hp
  · exact logBodyCiphertext_eq_some.mpr ⟨r₀, p, hr₀, hpath.trans hp, h.files p b hfile⟩

theorem files_removeFile {path : Option String} {p : String}
    (h : (s.removeFile path).files p = some b) :
  s.files p = some b
  := by
  rw [removeFile] at h
  dsimp only at h
  split at h
  · cases h
  · exact h

theorem forgets_removeFile {path : Option String} :
  Forgets s (s.removeFile path)
  := ⟨fun _ r h => .inr ⟨r, h, rfl⟩, fun _ _ h => files_removeFile h⟩

/-! ### The row an operation leaves -/

section
variable [Primitives] [Serde LogMeta] {vaultId : Uuid} {metadata : LogMeta} {now : DateTime}
  {nonce bodyNonce : Nonce} {dir : String}

/-- A recording that is begun is a new row. -/
theorem beginLog_row (h : s.beginLog vaultId metadata id now nonce = .ok s') :
  (∀ r, s'.logRow id = some r → r.deleted = false)
    ∧ (∀ id', id' ≠ id → s'.logRow id' = s.logRow id') ∧ s'.vaults = s.vaults
    ∧ s'.files = s.files
  := by
  rw [beginLog] at h
  obtain ⟨k, -, h⟩ := bind_eq_ok.mp h
  obtain ⟨v, -, h⟩ := bind_eq_ok.mp h
  dsimp only at h
  split at h
  · rename_i sessionLogs hins
    obtain rfl := pure_eq_ok.mp h
    have hget := Table.get?_insert hins
    refine ⟨?_, ?_, rfl, rfl⟩
    · intro r hr
      rw [logRow, hget, key_log, if_pos rfl] at hr
      cases hr
      rfl
    · intro id' hne
      rw [logRow, hget, key_log, if_neg hne]
      rfl
  · exact absurd h (by simp)

/-- A recording that is finished is to be uploaded, and has a file. -/
theorem finishLog_row {body : Bytes} (h : s.finishLog id metadata body dir nonce bodyNonce = .ok s') :
  (∀ r', s'.logRow id = some r' → ∃ r, s.logRow id = some r ∧ r'.uploaded = false
      ∧ r'.completed = true ∧ r'.deleted = r.deleted)
    ∧ (∀ id', id' ≠ id → s'.logRow id' = s.logRow id') ∧ s'.vaults = s.vaults
    ∧ ∀ p, p ≠ s!"{dir}/{id}.tlog" → s'.files p = s.files p
  := by
  rw [finishLog] at h
  cases hrow : s.logRow id with
  | none => simp [hrow] at h
  | some r =>
      simp only [hrow] at h
      obtain ⟨k, -, h⟩ := bind_eq_ok.mp h
      obtain rfl := pure_eq_ok.mp h
      refine ⟨?_, ?_, rfl, fun p hp => if_neg hp⟩
      · intro r' hr'
        rw [logRow, Table.get?_set, if_pos rfl, ← logRow, hrow] at hr'
        cases hr'
        exact ⟨r, rfl, rfl, rfl, rfl⟩
      · intro id' hne
        rw [logRow, Table.get?_set, if_neg hne]
        rfl

end

theorem logRow_markLogUploaded {seq : ℤ} :
  (s.markLogUploaded id seq).logRow id'
    = if id' = id then (s.logRow id).map (fun r => { r with uploaded := true, seq })
      else s.logRow id'
  := by
  rw [markLogUploaded, logRow, Table.get?_set]
  rfl

theorem logRow_restoreLog :
  (s.restoreLog id).logRow id'
    = if id' = id then (s.logRow id).map (fun r => { r with deleted := false }) else s.logRow id'
  := by
  rw [restoreLog, logRow, Table.get?_set]
  rfl

theorem logRow_forgetLog :
  (s.forgetLog id).logRow id' = if id' = id then none else s.logRow id'
  := by
  rw [forgetLog, logRow, Table.get?_erase]
  rfl

theorem logRow_applyRemoteLog {l : SessionLog} :
  (s.applyRemoteLog l).logRow id'
    = if id' = l.id then
        if l.deleted then none
        else some (((s.logRow id').map (remirroredLog l)).getD (mirroredLog l))
      else s.logRow id'
  := by
  rw [applyRemoteLog]
  split
  · exact logRow_forgetLog
  · rw [logRow, Table.get?_upsert]
    rfl

/-- What a deletion leaves: nothing of the row, or a tombstone. -/
theorem deleteLog_eq_ok (h : s.deleteLog id = .ok s') :
  Forgets s s' ∧ s'.vaults = s.vaults ∧ (∀ id', id' ≠ id → s'.logRow id' = s.logRow id')
    ∧ ∀ r', s'.logRow id = some r' → ∃ r, s.logRow id = some r ∧ r.seq ≠ 0
        ∧ r' = { r with deleted := true, localPath := none }
  := by
  rw [deleteLog] at h
  cases hrow : s.logRow id with
  | none =>
      rw [hrow] at h
      cases h
  | some r =>
      rw [hrow] at h
      cases h
      have hleft : ∀ id', (logRow { s.removeFile r.localPath with
          sessionLogs :=
            if r.seq = 0 then s.sessionLogs.erase id
            else s.sessionLogs.set id (fun r => { r with deleted := true, localPath := none })
              (fun _ => rfl) } id')
          = if id' = id then
              if r.seq = 0 then none else some { r with deleted := true, localPath := none }
            else s.logRow id' := by
        intro id'
        rw [logRow]
        split
        · rw [Table.get?_erase]
          rfl
        · rw [Table.get?_set, ← logRow, hrow]
          rfl
      refine ⟨⟨?_, fun _ _ => files_removeFile⟩, rfl, ?_, ?_⟩
      · intro id' r' hr'
        rw [hleft] at hr'
        split at hr'
        · split at hr'
          · cases hr'
          · cases hr'
            exact .inl rfl
        · exact .inr ⟨r', hr', rfl⟩
      · intro id' hne
        rw [hleft, if_neg hne]
      · intro r' hr'
        rw [hleft, if_pos rfl] at hr'
        split at hr'
        · cases hr'
        · rename_i hseq
          cases hr'
          exact ⟨r, rfl, hseq, rfl⟩

theorem forgets_markLogUploaded {seq : ℤ} :
  Forgets s (s.markLogUploaded id seq)
  := by
  refine ⟨?_, fun _ _ h => h⟩
  intro id' r hr
  rw [logRow_markLogUploaded] at hr
  split at hr
  · rename_i heq
    obtain ⟨r₀, hr₀, rfl⟩ := Option.map_eq_some_iff.mp hr
    exact .inr ⟨r₀, heq ▸ hr₀, rfl⟩
  · exact .inr ⟨r, hr, rfl⟩

theorem forgets_restoreLog :
  Forgets s (s.restoreLog id)
  := by
  refine ⟨?_, fun _ _ h => h⟩
  intro id' r hr
  rw [logRow_restoreLog] at hr
  split at hr
  · rename_i heq
    obtain ⟨r₀, hr₀, rfl⟩ := Option.map_eq_some_iff.mp hr
    exact .inr ⟨r₀, heq ▸ hr₀, rfl⟩
  · exact .inr ⟨r, hr, rfl⟩

theorem forgets_forgetLog :
  Forgets s (s.forgetLog id)
  := by
  refine ⟨?_, fun _ _ h => files_removeFile h⟩
  intro id' r hr
  rw [logRow_forgetLog] at hr
  split at hr
  · cases hr
  · exact .inr ⟨r, hr, rfl⟩

theorem forgets_applyRemoteLog {l : SessionLog} :
  Forgets s (s.applyRemoteLog l)
  := by
  constructor
  · intro id' r hr
    rw [logRow_applyRemoteLog] at hr
    split at hr
    · split at hr
      · cases hr
      · cases hrow : s.logRow id' with
        | none =>
            rw [hrow] at hr
            cases hr
            exact .inl rfl
        | some r₀ =>
            rw [hrow] at hr
            cases hr
            exact .inr ⟨r₀, rfl, rfl⟩
    · exact .inr ⟨r, hr, rfl⟩
  · intro p b hb
    rw [applyRemoteLog] at hb
    split at hb
    · exact files_removeFile hb
    · exact hb

theorem forgets_applyRemoteLogs {logs : List SessionLog} :
  Forgets s (s.applyRemoteLogs logs)
  := by
  induction logs generalizing s with
  | nil => exact Forgets.refl
  | cons l logs ih => exact forgets_applyRemoteLog.trans ih

end

end Store

end Termoso.Core
