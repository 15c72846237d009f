import Termoso.Core.Store
import Termoso.Lib.Script

/-!
# Entities of the local store

Local edits, listings, and the raw rows the sync engine works with.  Every operation is
characterised by the row it leaves under each identifier.
-/

namespace Termoso.Core

/-- Values with a JSON form. -/
class Serde (T : Type) where
  toJson : T → String
  fromJson : String → Option T

/-- Payloads of a kind of entity. -/
class Payload (T : Type) extends Serde T where
  KIND : String

/-- Decrypted entity. -/
structure Entity (T : Type) where
  id : Uuid
  vaultId : Uuid
  version : ℤ
  updatedAt : DateTime
  dirty : Bool
  data : T
deriving DecidableEq

/-- Listing filter. -/
structure EntityFilter where
  vaultId : Option Uuid
  kind : Option String
  includeDeleted : Bool

/-- Whether a row passes a filter. -/
def EntityFilter.accepts (f : EntityFilter) (r : EntityRow) : Bool :=
  (f.vaultId.all (fun v => r.vaultId = v)) && (f.kind.all (fun k => r.kind = k))
    && (f.includeDeleted || !r.deleted)

namespace EntityRow

/-- Build the push item for this row. -/
def toChange (r : EntityRow) : EntityChange where
  secretRotatedAt := none
  id := r.id
  kind := r.kind
  vaultId := r.vaultId
  baseVersion := if r.version > 0 then some r.version else none
  keyVersion := r.keyVersion
  data := r.data
  updatedAt := r.updatedAt

/-- Build the delete item for this row. -/
def toDelete (r : EntityRow) : EntityDelete := ⟨r.id, r.version⟩

/-- The clean row mirroring a server copy. -/
def ofRemote (e : SyncEntity) : EntityRow where
  id := e.id
  kind := e.kind
  vaultId := e.vaultId
  version := e.version
  seq := e.seq
  deleted := false
  keyVersion := e.keyVersion
  data := e.data
  updatedAt := e.updatedAt
  dirty := false

end EntityRow

namespace Store

/-! ### Raw rows -/

/-- Raw row by id. -/
def row (s : Store) (id : Uuid) : Option EntityRow := s.entities.get? id

/-- Raw rows matching a filter, newest first. -/
def rows (s : Store) (filter : EntityFilter) : List EntityRow :=
  (s.entities.select filter.accepts).insertionSort (fun r r' => r'.updatedAt ≤ r.updatedAt)

/-- Rows with local changes to push, oldest first. -/
def dirtyRows (s : Store) (vaultId : Uuid) : List EntityRow :=
  (s.entities.select (fun r => decide (r.vaultId = vaultId) && r.dirty)).insertionSort
    (fun r r' => r.updatedAt ≤ r'.updatedAt)

/-- Record a successful push: a tombstone goes, another row adopts the server's version and
sequence number and is clean. -/
def markPushed (s : Store) (id : Uuid) (version seq : ℤ) : Store :=
  if s.entities.select (fun r => decide (r.id = id) && r.deleted) ≠ [] then
    { s with entities := s.entities.delete (fun r => decide (r.id = id) && r.deleted) }
  else
    { s with
      entities := s.entities.set id
        (fun r => { r with version, seq, dirty := false }) (fun _ => rfl) }

/-- Overwrite the local row with the server copy. Tombstones are removed outright. The vault
must exist. -/
def applyRemote (s : Store) (e : SyncEntity) : Except CoreError Store :=
  if e.deleted then
    .ok { s with entities := s.entities.erase e.id }
  else if (s.vaults.get? e.vaultId).isNone then .error .db
  else
    .ok { s with
      entities := s.entities.upsert (.ofRemote e)
        (fun r => { EntityRow.ofRemote e with id := r.id }) (fun _ => rfl) }

/-- Keep the local payload but rebase it on the server version. -/
def rebaseLocal (s : Store) (id : Uuid) (serverVersion serverSeq : ℤ) : Store :=
  { s with
    entities := s.entities.set id
      (fun r => { r with version := serverVersion, seq := serverSeq, dirty := true })
      (fun _ => rfl) }

section
variable {s s' : Store} {id id' : Uuid} {version seq : ℤ} {e : SyncEntity}

theorem mem_select {p : EntityRow → Bool} {r : EntityRow} :
  r ∈ s.entities.select p ↔ s.row r.id = some r ∧ p r = true
  := by
  rw [Table.select, List.mem_filter, row, Table.get?_eq_some_iff]
  simp

theorem mem_dirtyRows {vaultId : Uuid} {r : EntityRow} :
  r ∈ s.dirtyRows vaultId ↔ s.row r.id = some r ∧ r.vaultId = vaultId ∧ r.dirty = true
  := by
  simp [dirtyRows, mem_select]

theorem mem_rows {filter : EntityFilter} {r : EntityRow} :
  r ∈ s.rows filter ↔ s.row r.id = some r ∧ filter.accepts r = true
  := by
  simp [rows, mem_select]

theorem id_of_row {r : EntityRow} (h : s.row id = some r) :
  r.id = id
  := Table.key_of_get? h

/-- A push is recorded by removing the row exactly when the row is a tombstone. -/
theorem select_tombstone_ne_nil :
  s.entities.select (fun r => decide (r.id = id) && r.deleted) ≠ []
    ↔ ∃ r, s.row id = some r ∧ r.deleted = true
  := by
  constructor
  · intro h
    obtain ⟨r, hr⟩ := List.exists_mem_of_ne_nil _ h
    obtain ⟨hrow, hp⟩ := mem_select.mp hr
    simp only [Bool.and_eq_true, decide_eq_true_eq] at hp
    obtain ⟨rfl, hdel⟩ := hp
    exact ⟨r, hrow, hdel⟩
  · rintro ⟨r, hrow, hdel⟩
    obtain rfl := id_of_row hrow
    exact List.ne_nil_of_mem (mem_select.mpr ⟨hrow, by simp [hdel]⟩)

/-- The row under an identifier after a push was recorded. -/
theorem row_markPushed :
  (s.markPushed id version seq).row id'
    = if id' = id then
        (s.row id).bind (fun r =>
          if r.deleted then none else some { r with version, seq, dirty := false })
      else s.row id'
  := by
  rw [markPushed]
  split
  · rename_i hsome
    obtain ⟨r, hrow, hdel⟩ := select_tombstone_ne_nil.mp hsome
    rw [hrow, row, Table.get?_delete, ← row]
    split
    · rename_i heq
      rw [heq, hrow]
      simp [hdel, id_of_row hrow]
    · rename_i hne
      cases hrow' : s.row id' with
      | none => rfl
      | some r' => simp [id_of_row hrow', hne]
  · rename_i hnone
    rw [row, Table.get?_set, ← row, ← row]
    split
    · cases hrow : s.row id with
      | none => rfl
      | some r =>
          have hdel : r.deleted = false := by
            by_contra hdel
            exact hnone (select_tombstone_ne_nil.mpr ⟨r, hrow, by simpa using hdel⟩)
          simp [hdel]
    · rfl

@[simp]
theorem vaults_markPushed :
  (s.markPushed id version seq).vaults = s.vaults
  := by
  rw [markPushed]
  split <;> rfl

/-- The row under an identifier after a server copy was taken. -/
theorem row_applyRemote (h : s.applyRemote e = .ok s') :
  s'.row id' = if id' = e.id then (if e.deleted then none else some (.ofRemote e)) else s.row id'
  := by
  rw [applyRemote] at h
  split at h
  · rename_i hdel
    cases h
    rw [row, Table.get?_erase, ← row, hdel]
    rfl
  · rename_i hdel
    split at h
    · cases h
    · cases h
      rw [row, Table.get?_upsert]
      split
      · rename_i heq
        obtain rfl : id' = e.id := heq
        cases hget : s.entities.get? e.id with
        | none => simp [EntityRow.ofRemote]
        | some r =>
            have hid := Table.key_of_get? hget
            rw [key_entity] at hid
            simp [EntityRow.ofRemote, hid]
      · rename_i hne
        have : id' ≠ e.id := hne
        simp [this, row]

theorem vaults_applyRemote (h : s.applyRemote e = .ok s') :
  s'.vaults = s.vaults
  := by
  rw [applyRemote] at h
  split at h
  · cases h
    rfl
  · split at h
    · cases h
    · cases h
      rfl

/-- The row under an identifier after a rebase. -/
theorem row_rebaseLocal :
  (s.rebaseLocal id version seq).row id'
    = if id' = id then (s.row id).map (fun r => { r with version, seq, dirty := true })
      else s.row id'
  := by
  rw [rebaseLocal, row, Table.get?_set]
  rfl

@[simp]
theorem vaults_rebaseLocal :
  (s.rebaseLocal id version seq).vaults = s.vaults
  := rfl

end

/-! ### Local edits -/

/-- The vault, provided our role there allows local edits. -/
def writableVault (s : Store) (vaultId : Uuid) : Except CoreError LocalVault := do
  let vault ← s.vault vaultId
  if vault.kind.isSynced ∧ vault.role = .viewer then throw (.vaultReadOnly vaultId)
  return vault

section
variable [Primitives]

/-- Encrypt a payload under the key of its vault. -/
def encryptPayload (s : Store) (vaultId : Uuid) (kind : String) (id : Uuid) (nonce : Nonce)
    (json : String) : Except CoreError (String × ℤ) := do
  let key ← s.vaultKey vaultId
  let vault ← s.vault vaultId
  return (encryptStr key (Aad.entity kind id) nonce json, vault.keyVersion)

/-- Insert or update an entity whose payload is arbitrary JSON. -/
def putRaw (s : Store) (vaultId : Uuid) (kind : String) (id : Uuid) (json : String)
    (now : DateTime) (nonce : Nonce) : Except CoreError Store := do
  if ¬ isKnownKind kind then throw (.invalid s!"unknown entity kind {kind}")
  let (data, keyVersion) ← s.encryptPayload vaultId kind id nonce json
  let vault ← s.writableVault vaultId
  let dirty := vault.kind.isSynced
  return { s with
    entities := s.entities.upsert
      { id, kind, vaultId, version := 0, seq := 0, deleted := false, keyVersion, data,
        updatedAt := now, dirty }
      (fun r => { r with kind, vaultId, deleted := false, keyVersion, data, updatedAt := now, dirty })
      (fun _ => rfl) }

/-- Update an existing entity's payload. -/
def update {T : Type} [Payload T] (s : Store) (id : Uuid) (data : T) (now : DateTime)
    (nonce : Nonce) : Except CoreError Store := do
  let some row := s.row id | throw (.notFound s!"entity {id}")
  if row.kind ≠ Payload.KIND T then
    throw (.invalid s!"entity {id} is a {row.kind}, not {Payload.KIND T}")
  s.putRaw row.vaultId (Payload.KIND T) id (Serde.toJson data) now nonce

end

/-- Delete an entity. Synced entities become dirty tombstones until pushed; local and
never-pushed ones are removed. -/
def delete (s : Store) (id : Uuid) (now : DateTime) : Except CoreError Store := do
  let some row := s.row id | return s
  let vault ← s.writableVault row.vaultId
  if vault.kind.isSynced ∧ row.version > 0 then
    return { s with
      entities := s.entities.set id
        (fun r => { r with deleted := true, dirty := true, data := "", updatedAt := now })
        (fun _ => rfl) }
  else
    return { s with entities := s.entities.erase id }

section
variable {s s' : Store} {vaultId id id' : Uuid} {kind json : String} {now : DateTime}
  {nonce : Nonce}

theorem writableVault_eq_ok {v : LocalVault} :
  s.writableVault vaultId = .ok v
    ↔ s.vaults.get? vaultId = some v ∧ ¬ (v.kind.isSynced = true ∧ v.role = .viewer)
  := by
  simp only [writableVault, bind_eq_ok, vault_eq_ok]
  constructor
  · rintro ⟨w, hget, h⟩
    split at h
    · simp [bind, Except.bind, throw, throwThe, MonadExceptOf.throw] at h
    · obtain rfl := pure_eq_ok.mp h
      exact ⟨hget, ‹_›⟩
  · rintro ⟨hget, hrw⟩
    use v, hget
    rw [if_neg hrw]
    rfl

/-- What a local edit stores: an envelope under the key of the vault, in a row that is dirty
when the vault is synced and keeps the version the server knows. -/
theorem putRaw_eq_ok [Primitives] (h : s.putRaw vaultId kind id json now nonce = .ok s') :
  ∃ v k, s.vaults.get? vaultId = some v ∧ v.wrappedKey = some k
    ∧ ¬ (v.kind.isSynced = true ∧ v.role = .viewer)
    ∧ isKnownKind kind = true
    ∧ s'.vaults = s.vaults ∧ s'.history = s.history ∧ s'.sessionLogs = s.sessionLogs
    ∧ s'.account = s.account
    ∧ ∀ id', s'.row id' = if id' = id then
          some { id, kind, vaultId
                 version := ((s.row id).map EntityRow.version).getD 0
                 seq := ((s.row id).map EntityRow.seq).getD 0
                 deleted := false, keyVersion := v.keyVersion
                 data := encryptStr k (Aad.entity kind id) nonce json
                 updatedAt := now, dirty := v.kind.isSynced }
        else s.row id'
  := by
  rw [putRaw] at h
  split at h
  · simp [bind, Except.bind, throw, throwThe, MonadExceptOf.throw] at h
  rename_i hkind
  obtain ⟨⟨data, keyVersion⟩, henc, h⟩ := bind_eq_ok.mp h
  obtain ⟨v, hv, h⟩ := bind_eq_ok.mp h
  obtain rfl := pure_eq_ok.mp h
  obtain ⟨k, hk, henc⟩ := bind_eq_ok.mp henc
  obtain ⟨w, hw, henc⟩ := bind_eq_ok.mp henc
  simp only [pure_eq_ok, Prod.mk.injEq] at henc
  obtain ⟨rfl, rfl⟩ := henc
  obtain ⟨hget, hrw⟩ := writableVault_eq_ok.mp hv
  obtain ⟨v', hget', hk⟩ := vaultKey_eq_ok.mp hk
  rw [vault_eq_ok] at hw
  obtain rfl : w = v := by rw [hget] at hw; cases hw; rfl
  obtain rfl : v' = w := by rw [hget] at hget'; cases hget'; rfl
  refine ⟨v', k, hget, hk, hrw, by simpa using hkind, rfl, rfl, rfl, rfl, ?_⟩
  intro id'
  rw [row, Table.get?_upsert]
  split
  · rename_i heq
    obtain rfl : id' = id := heq
    rw [row, if_pos rfl]
    cases hrow : s.entities.get? id' with
    | none => rfl
    | some r =>
        have hid := Table.key_of_get? hrow
        rw [key_entity] at hid
        simp [hid]
  · rename_i hne
    have hne : id' ≠ id := hne
    rw [if_neg hne, row]

/-- A typed update is an edit of the row's own vault and kind. -/
theorem update_eq_ok [Primitives] {T : Type} [Payload T] {data : T}
    (h : s.update id data now nonce = .ok s') :
  ∃ r, s.row id = some r ∧ r.kind = Payload.KIND T
    ∧ s.putRaw r.vaultId r.kind id (Serde.toJson data) now nonce = .ok s'
  := by
  rw [update] at h
  cases hrow : s.row id with
  | none => simp [hrow] at h
  | some r =>
      simp only [hrow] at h
      split at h
      · simp [bind, Except.bind, throw, throwThe, MonadExceptOf.throw] at h
      · rename_i hkind
        rw [not_not] at hkind
        rw [← hkind] at h
        exact ⟨r, rfl, hkind, h⟩

/-- A deletion leaves a dirty tombstone where the server knows the entity, and no row
otherwise. -/
theorem delete_eq_ok (h : s.delete id now = .ok s') :
  (s.row id = none ∧ s' = s)
    ∨ ∃ r v, s.row id = some r ∧ s.vaults.get? r.vaultId = some v
      ∧ ¬ (v.kind.isSynced = true ∧ v.role = .viewer)
      ∧ s'.vaults = s.vaults ∧ s'.history = s.history ∧ s'.sessionLogs = s.sessionLogs
      ∧ s'.account = s.account
      ∧ ∀ id', s'.row id' = if id' = id then
            (if v.kind.isSynced = true ∧ r.version > 0 then
              some { r with deleted := true, dirty := true, data := "", updatedAt := now }
            else none)
          else s.row id'
  := by
  rw [delete] at h
  cases hrow : s.row id with
  | none =>
      simp only [hrow, pure_eq_ok] at h
      exact .inl ⟨rfl, h.symm⟩
  | some r =>
      simp only [hrow] at h
      obtain ⟨v, hv, h⟩ := bind_eq_ok.mp h
      obtain ⟨hget, hrw⟩ := writableVault_eq_ok.mp hv
      refine .inr ⟨r, v, rfl, hget, hrw, ?_⟩
      split at h
      · rename_i hsynced
        obtain rfl := pure_eq_ok.mp h
        refine ⟨rfl, rfl, rfl, rfl, ?_⟩
        intro id'
        rw [row, Table.get?_set, ← row, hrow, if_pos hsynced]
        rfl
      · rename_i hlocal
        obtain rfl := pure_eq_ok.mp h
        refine ⟨rfl, rfl, rfl, rfl, ?_⟩
        intro id'
        rw [row, Table.get?_erase, if_neg hlocal]
        rfl

end

/-! ### Listings -/

section
variable [Primitives]

/-- Decrypt a row under the key of its vault. -/
def decryptRow (T : Type) [Payload T] (s : Store) (row : EntityRow) :
    Except CoreError (Entity T) := do
  let key ← s.vaultKey row.vaultId
  let plaintext ← CoreError.lift (decryptStr key (Aad.entity row.kind row.id) row.data)
  match Serde.fromJson plaintext with
  | some data => return ⟨row.id, row.vaultId, row.version, row.updatedAt, row.dirty, data⟩
  | none => throw .json

/-- Decrypt rows, skipping those in locked vaults. -/
def decryptRows (T : Type) [Payload T] (s : Store) :
    List EntityRow → Except CoreError (List (Entity T))
  | [] => .ok []
  | row :: rows =>
    match s.decryptRow T row with
    | .ok e => (s.decryptRows T rows).map (e :: ·)
    | .error (.vaultLocked _) => s.decryptRows T rows
    | .error e => .error e

/-- List entities of a kind, in one vault or across all unlocked ones. -/
def list (T : Type) [Payload T] (s : Store) (vaultId : Option Uuid) :
    Except CoreError (List (Entity T)) :=
  s.decryptRows T (s.rows ⟨vaultId, some (Payload.KIND T), false⟩)

/-! ### Re-encryption after a key rotation -/

/-- Store a row's payload under a new key. -/
def setData (s : Store) (id : Uuid) (data : String) (keyVersion : ℤ) : Store :=
  { s with
    entities := s.entities.set id
      (fun r => { r with data, keyVersion, dirty := true }) (fun _ => rfl) }

/-- Re-encrypt rows from `oldKey` to `newKey`. Rows that do not open with `oldKey` are left
untouched; a row that is not base64 ends the script. -/
def reencryptRows (oldKey newKey : SymmetricKey) (keyVersion : ℤ) (nonce : Uuid → Nonce) :
    List EntityRow → Script Store CoreError ℕ
  | [] => return 0
  | row :: rows => do
    let aad := Aad.entity row.kind row.id
    let bytes ← .lift (CoreError.lift (unb64 row.data))
    match decrypt oldKey aad bytes with
    | .error _ => reencryptRows oldKey newKey keyVersion nonce rows
    | .ok plaintext => do
      let data := encryptB64 newKey aad (nonce row.id) plaintext
      .exec (fun s => s.setData row.id data keyVersion)
      let done ← reencryptRows oldKey newKey keyVersion nonce rows
      return done + 1

/-- Re-encrypt every entity of a vault under its current key and mark them dirty. -/
def reencryptVault (vaultId : Uuid) (oldKey : SymmetricKey) (nonce : Uuid → Nonce) :
    Script Store CoreError ℕ := do
  let s ← .read
  let newKey ← .lift (s.vaultKey vaultId)
  let vault ← .lift (s.vault vaultId)
  let rows := s.rows ⟨some vaultId, none, false⟩
  reencryptRows oldKey newKey vault.keyVersion nonce
    (rows.filter (fun r => r.keyVersion ≠ vault.keyVersion))

end

end Store

end Termoso.Core
