import Termoso.Core.Entities

/-!
# Session logs of the local store

The metadata of a recording is an encrypted envelope in the database, its body an encrypted
file next to it, both under the key of the vault.
-/

namespace Termoso.Core

/-- Plaintext metadata of a recording. -/
structure LogMeta where
  hostId : Option Uuid
  label : String
  target : String
  protocol : String
  startedAt : DateTime
  endedAt : Option DateTime
  cols : ℕ
  rows : ℕ
deriving DecidableEq

/-- A recording as listed locally. -/
structure LogItem where
  id : Uuid
  vaultId : Uuid
  metadata : LogMeta
  sizeBytes : ℤ
  cached : Bool
  uploaded : Bool
  completed : Bool
  createdAt : DateTime
  mine : Bool
  author : Option LogAuthor
  pinned : Bool
  note : String
  noteBy : Option Uuid
deriving DecidableEq

/-- Associated data of the metadata of a log. -/
def metaAad (id : Uuid) : Aad := Aad.label ["log", toString id]

/-- Associated data of the body of a log. -/
def bodyAad (id : Uuid) : Aad := Aad.label ["log", toString id, "body"]

namespace Store

/-- Log row by id. -/
def logRow (s : Store) (id : Uuid) : Option LogRow := s.sessionLogs.get? id

section
variable [Primitives] [Serde LogMeta]

/-- Start a recording: registers the metadata under a fresh identifier. -/
def beginLog (s : Store) (vaultId : Uuid) (metadata : LogMeta) (id : Uuid) (now : DateTime)
    (nonce : Nonce) : Except CoreError Store := do
  let key ← s.vaultKey vaultId
  let vault ← s.vault vaultId
  let row : LogRow :=
    { id, vaultId, metadata := encryptStr key (metaAad id) nonce (Serde.toJson metadata),
      keyVersion := vault.keyVersion, sizeBytes := 0, localPath := none, uploaded := false,
      completed := false, createdAt := now, seq := 0, deleted := false, authorId := none,
      author := none, pinned := false, note := "", noteBy := none }
  match s.sessionLogs.insert row with
  | some sessionLogs => return { s with sessionLogs }
  | none => throw .db

/-- Store the finished recording: its encrypted body, and its metadata. The row keeps its key
version. -/
def finishLog (s : Store) (id : Uuid) (metadata : LogMeta) (body : Bytes) (dir : String)
    (nonce bodyNonce : Nonce) : Except CoreError Store := do
  let some row := s.logRow id | throw (.notFound s!"log {id}")
  let key ← s.vaultKey row.vaultId
  let ct := encrypt key (bodyAad id) bodyNonce body
  let path := s!"{dir}/{id}.tlog"
  let metaCt := encryptStr key (metaAad id) nonce (Serde.toJson metadata)
  return { s with
    files := fun p => if p = path then some ct else s.files p
    sessionLogs := s.sessionLogs.set id
      (fun r => { r with
        metadata := metaCt, sizeBytes := ct.length, localPath := some path, completed := true
        uploaded := false })
      (fun _ => rfl) }

/-! ### Listings -/

/-- The rows of the listing: pinned first, then newest first. -/
def liveLogs (s : Store) : List LogRow :=
  (s.sessionLogs.select (fun r => !r.deleted)).insertionSort
    (fun r r' => (r.pinned = true ∧ r'.pinned = false)
      ∨ (r.pinned = r'.pinned ∧ r'.createdAt ≤ r.createdAt))

/-- The list item of a row with decrypted metadata. -/
def logItem (account : Option StoredAccount) (row : LogRow) (metadata : LogMeta) : LogItem :=
  let selfAuthor := account.map (fun a => LogAuthor.mk a.userId a.email a.displayName a.avatar)
  let mine := row.authorId.all (fun a => decide (some a = account.map StoredAccount.userId))
  { id := row.id, vaultId := row.vaultId, metadata, sizeBytes := row.sizeBytes,
    cached := row.localPath.isSome, uploaded := row.uploaded, completed := row.completed,
    createdAt := row.createdAt, mine, author := row.author.or (if mine then selfAuthor else none),
    pinned := row.pinned, note := row.note, noteBy := row.noteBy }

/-- Decrypt rows. Rows in locked vaults are skipped, and so are rows of a known author that do
not open. -/
def decryptLogRows (s : Store) : List LogRow → Except CoreError (List LogItem)
  | [] => .ok []
  | row :: rows =>
    match s.vaultKey row.vaultId with
    | .error _ => s.decryptLogRows rows
    | .ok key =>
      match decryptStr key (metaAad row.id) row.metadata with
      | .error e => if row.authorId.isSome then s.decryptLogRows rows else .error (.crypto e)
      | .ok plaintext =>
        match Serde.fromJson plaintext with
        | none => .error .json
        | some metadata => (s.decryptLogRows rows).map (logItem s.account row metadata :: ·)

/-- Recordings visible on this device. -/
def logs (s : Store) : Except CoreError (List LogItem) := s.decryptLogRows s.liveLogs

end

/-! ### The row an operation leaves -/

section
variable {s s' : Store} {id id' vaultId : Uuid} {now : DateTime} {nonce bodyNonce : Nonce}
  {metadata : LogMeta} {body : Bytes} {dir : String}

theorem mem_log_select {p : LogRow → Bool} {r : LogRow} :
  r ∈ s.sessionLogs.select p ↔ s.logRow r.id = some r ∧ p r = true
  := by
  rw [Table.select, List.mem_filter, logRow, Table.get?_eq_some_iff]
  simp

theorem mem_liveLogs {r : LogRow} :
  r ∈ s.liveLogs ↔ s.logRow r.id = some r ∧ r.deleted = false
  := by
  simp [liveLogs, mem_log_select]

theorem id_of_logRow {r : LogRow} (h : s.logRow id = some r) :
  r.id = id
  := Table.key_of_get? h

/-- A new recording is sealed with the key of its vault and labelled with its version. -/
theorem beginLog_eq_ok [Primitives] [Serde LogMeta]
    (h : s.beginLog vaultId metadata id now nonce = .ok s') :
  ∃ v k r, s.vaults.get? vaultId = some v ∧ v.wrappedKey = some k ∧ s.logRow id = none
    ∧ r.id = id ∧ r.vaultId = vaultId ∧ r.keyVersion = v.keyVersion
    ∧ r.metadata = encryptStr k (metaAad id) nonce (Serde.toJson metadata)
    ∧ s'.vaults = s.vaults ∧ s'.entities = s.entities ∧ s'.history = s.history
    ∧ s'.account = s.account
    ∧ ∀ id', s'.logRow id' = if id' = id then some r else s.logRow id'
  := by
  rw [beginLog] at h
  obtain ⟨k, hk, h⟩ := bind_eq_ok.mp h
  obtain ⟨v, hv, h⟩ := bind_eq_ok.mp h
  rw [vault_eq_ok] at hv
  obtain ⟨v', hv', hwrapped⟩ := vaultKey_eq_ok.mp hk
  obtain rfl : v' = v := by rw [hv] at hv'; cases hv'; rfl
  dsimp only at h
  split at h
  · rename_i sessionLogs hins
    obtain rfl := pure_eq_ok.mp h
    refine ⟨v', k,
      { id, vaultId, metadata := encryptStr k (metaAad id) nonce (Serde.toJson metadata),
        keyVersion := v'.keyVersion, sizeBytes := 0, localPath := none, uploaded := false,
        completed := false, createdAt := now, seq := 0, deleted := false, authorId := none,
        author := none, pinned := false, note := "", noteBy := none },
      hv, hwrapped, ?_, rfl, rfl, rfl, rfl, rfl, rfl, rfl, rfl, ?_⟩
    · exact Table.insert_isSome_iff.mp (Option.isSome_iff_exists.mpr ⟨_, hins⟩)
    · intro id'
      exact Table.get?_insert hins id'
  · exact absurd h (by simp)

/-- A finished recording keeps its vault and its key version; its envelope is sealed with the
key the vault has now. -/
theorem finishLog_eq_ok [Primitives] [Serde LogMeta]
    (h : s.finishLog id metadata body dir nonce bodyNonce = .ok s') :
  ∃ r v k r', s.logRow id = some r ∧ s.vaults.get? r.vaultId = some v ∧ v.wrappedKey = some k
    ∧ r'.id = r.id ∧ r'.vaultId = r.vaultId ∧ r'.keyVersion = r.keyVersion
    ∧ r'.metadata = encryptStr k (metaAad id) nonce (Serde.toJson metadata)
    ∧ s'.vaults = s.vaults ∧ s'.entities = s.entities ∧ s'.history = s.history
    ∧ s'.account = s.account
    ∧ ∀ id', s'.logRow id' = if id' = id then some r' else s.logRow id'
  := by
  rw [finishLog] at h
  cases hrow : s.logRow id with
  | none => simp [hrow] at h
  | some r =>
      simp only [hrow] at h
      obtain ⟨k, hk, h⟩ := bind_eq_ok.mp h
      obtain rfl := pure_eq_ok.mp h
      obtain ⟨v, hv, hwrapped⟩ := vaultKey_eq_ok.mp hk
      refine ⟨r, v, k,
        { r with
          metadata := encryptStr k (metaAad id) nonce (Serde.toJson metadata)
          sizeBytes := (encrypt k (bodyAad id) bodyNonce body).length
          localPath := some s!"{dir}/{id}.tlog", completed := true, uploaded := false },
        rfl, hv, hwrapped, rfl, rfl, rfl, rfl, rfl, rfl, rfl, rfl, ?_⟩
      intro id'
      rw [logRow, Table.get?_set, ← logRow, hrow]
      rfl

end

end Store

end Termoso.Core

/-! ### A symbolic instance -/

namespace Termoso.Symbolic

open Core

/-- The metadata of a recording is spelled by its label. -/
scoped instance : Serde LogMeta :=
  ⟨LogMeta.label, fun text => some ⟨none, text, "", "", 0, none, 0, 0⟩⟩

end Termoso.Symbolic
