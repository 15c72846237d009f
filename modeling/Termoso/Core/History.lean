import Termoso.Core.Entities

/-!
# Command and connection history

History entries are stored encrypted like entities, under the key of the personal vault when
signed in and of the local vault otherwise.  A row with sequence number zero was never
pushed.
-/

namespace Termoso.Core

/-- A shell command the user typed. -/
structure CommandHistory where
  hostId : Option Uuid
  command : String
deriving DecidableEq

/-- A connection that was made. -/
structure ConnectionHistory where
  hostId : Option Uuid
  label : String
  target : String
  protocol : String
  durationSecs : Option ℕ
  error : Option String
deriving DecidableEq

/-- Decrypted history record. -/
structure HistoryItem (T : Type) where
  id : Uuid
  createdAt : DateTime
  data : T
deriving DecidableEq

def kindStr : HistoryKind → String
  | .command => "command"
  | .connection => "connection"

/-- Associated data of a history entry. -/
def historyAad (kind : HistoryKind) (id : Uuid) : Aad :=
  Aad.label ["history", kindStr kind, toString id]

/-- The wire entry of a row. -/
def HistoryRow.toEntry (r : HistoryRow) : HistoryEntry :=
  ⟨r.id, r.kind, r.data, r.keyVersion, r.createdAt, r.seq, r.deleted⟩

namespace Store

/-- History row by id. -/
def historyRow (s : Store) (id : Uuid) : Option HistoryRow := s.history.get? id

/-- Vault whose key protects history: the personal vault when signed in, otherwise the local
vault. -/
def historyVault (s : Store) : Except CoreError Uuid :=
  match s.personalVault with
  | some p => if p.unlocked then .ok p.id else s.localVault.map LocalVault.id
  | none => s.localVault.map LocalVault.id

section
variable [Primitives]

/-- Record an entry under a fresh identifier. -/
def recordHistory {T : Type} [Serde T] (s : Store) (kind : HistoryKind) (data : T) (id : Uuid)
    (now : DateTime) (nonce : Nonce) : Except CoreError Store := do
  let vaultId ← s.historyVault
  let key ← s.vaultKey vaultId
  let vault ← s.vault vaultId
  let row : HistoryRow :=
    { id, kind, vaultId, data := encryptStr key (historyAad kind id) nonce (Serde.toJson data),
      keyVersion := vault.keyVersion, createdAt := now, seq := 0, deleted := false,
      dirty := vault.kind.isSynced }
  match s.history.insert row with
  | some history => return { s with history }
  | none => throw .db

/-- Record a command. -/
def recordCommand [Serde CommandHistory] (s : Store) (data : CommandHistory) (id : Uuid)
    (now : DateTime) (nonce : Nonce) : Except CoreError Store :=
  if (trim data.command).isEmpty then .error (.invalid "empty command")
  else s.recordHistory .command data id now nonce

/-- Record a connection. -/
def recordConnection [Serde ConnectionHistory] (s : Store) (data : ConnectionHistory) (id : Uuid)
    (now : DateTime) (nonce : Nonce) : Except CoreError Store :=
  s.recordHistory .connection data id now nonce

/-- Replace a connection record. The row keeps its key version. -/
def updateConnection [Serde ConnectionHistory] (s : Store) (id : Uuid) (data : ConnectionHistory)
    (nonce : Nonce) : Except CoreError Store := do
  let some row := (s.historyRow id).filter (fun r => decide (r.kind = .connection) && !r.deleted)
    | throw (.notFound s!"connection {id}")
  let key ← s.vaultKey row.vaultId
  let vault ← s.vault row.vaultId
  let text := encryptStr key (historyAad .connection id) nonce (Serde.toJson data)
  return { s with
    history := s.history.set id
      (fun r => { r with data := text, keyVersion := row.keyVersion, dirty := vault.kind.isSynced })
      (fun _ => rfl) }

/-! ### Listings -/

/-- The most recent rows of a kind. -/
def historyRows (s : Store) (kind : HistoryKind) (limit : ℕ) : List HistoryRow :=
  ((s.history.select (fun r => decide (r.kind = kind) && !r.deleted)).insertionSort
    (fun r r' => r'.createdAt ≤ r.createdAt)).take limit

/-- Decrypt one row. -/
def decryptHistoryRow (T : Type) [Serde T] (key : SymmetricKey) (row : HistoryRow) :
    Except CoreError (HistoryItem T) := do
  let plaintext ← CoreError.lift (decryptStr key (historyAad row.kind row.id) row.data)
  match Serde.fromJson plaintext with
  | some data => return ⟨row.id, row.createdAt, data⟩
  | none => throw .json

/-- Decrypt rows, skipping those in locked vaults. -/
def decryptHistoryRows (T : Type) [Serde T] (s : Store) :
    List HistoryRow → Except CoreError (List (HistoryItem T))
  | [] => .ok []
  | row :: rows =>
    match s.vaultKey row.vaultId with
    | .error _ => s.decryptHistoryRows T rows
    | .ok key => do
      let item ← decryptHistoryRow T key row
      let items ← s.decryptHistoryRows T rows
      return item :: items

def listHistory (T : Type) [Serde T] (s : Store) (kind : HistoryKind) (limit : ℕ) :
    Except CoreError (List (HistoryItem T)) :=
  s.decryptHistoryRows T (s.historyRows kind limit)

/-- Most recent commands. -/
def commands [Serde CommandHistory] (s : Store) (limit : ℕ) :
    Except CoreError (List (HistoryItem CommandHistory)) :=
  s.listHistory CommandHistory .command limit

/-- Most recent connections. -/
def connections [Serde ConnectionHistory] (s : Store) (limit : ℕ) :
    Except CoreError (List (HistoryItem ConnectionHistory)) :=
  s.listHistory ConnectionHistory .connection limit

end

/-! ### Deletions -/

/-- Turn the rows that `p` accepts into tombstones where the server knows them, and remove
them otherwise. -/
def dropHistory (s : Store) (p : HistoryRow → Bool) : Store :=
  { s with
    history := (s.history.update (fun r => decide (r.seq > 0) && p r)
        (fun r => { r with deleted := true, dirty := true, data := "" }) (fun _ => rfl)).delete
      (fun r => decide (r.seq = 0) && p r) }

/-- Delete one history row. A synced row becomes a tombstone. -/
def deleteHistory (s : Store) (id : Uuid) : Store :=
  s.dropHistory (fun r => decide (r.id = id))

/-- Delete all history of a kind, or all. Synced rows become tombstones. -/
def clearHistory (s : Store) (kind : Option HistoryKind) : Store :=
  s.dropHistory (fun r => kind.all (fun k => decide (r.kind = k)))

/-! ### Sync -/

/-- Rows to push as wire entries. -/
def dirtyHistory (s : Store) : List HistoryEntry :=
  (s.history.select HistoryRow.dirty).map HistoryRow.toEntry

/-- Mark pushed history rows clean, and forget the clean tombstones. -/
def markHistoryPushed (s : Store) (ids : List Uuid) (seq : ℤ) : Store :=
  { s with
    history := (ids.foldl (fun h id =>
        h.set id (fun r => { r with dirty := false, seq := if r.seq = 0 then seq else r.seq })
          (fun _ => rfl)) s.history).delete
      (fun r => r.deleted && !r.dirty) }

/-- The clean row mirroring an entry of the server. -/
def mirrorRow (personal : Uuid) (e : HistoryEntry) : HistoryRow :=
  { id := e.id, kind := e.kind, vaultId := personal, data := e.data, keyVersion := e.keyVersion,
    createdAt := e.createdAt, seq := e.seq, deleted := false, dirty := false }

/-- Apply one entry pulled from the server. Echoes of clean rows at the same sequence number
are skipped. -/
def applyRemoteEntry (personal : Uuid) (s : Store) (e : HistoryEntry) : Store :=
  let known := ((s.historyRow e.id).filter (fun r => !r.dirty)).map HistoryRow.seq
  if e.deleted then { s with history := s.history.erase e.id }
  else if known = some e.seq then s
  else
    { s with
      history := s.history.upsert (mirrorRow personal e)
        (fun r => { r with
          data := e.data, keyVersion := e.keyVersion, seq := e.seq, deleted := false
          dirty := false })
        (fun _ => rfl) }

/-- Apply entries pulled from the server. -/
def applyRemoteHistory (s : Store) (entries : List HistoryEntry) : Store :=
  match s.personalVault with
  | none => s
  | some personal => entries.foldl (applyRemoteEntry personal.id) s

section
variable [Primitives]

/-- Move rows to the personal vault, one by one. -/
def adoptRows (localKey personalKey : SymmetricKey) (personal : LocalVault) (nonce : Uuid → Nonce) :
    List HistoryRow → Script Store CoreError Unit
  | [] => return ()
  | row :: rows => do
    let aad := historyAad row.kind row.id
    let plaintext ← .lift (CoreError.lift (decryptStr localKey aad row.data))
    let data := encryptStr personalKey aad (nonce row.id) plaintext
    .exec (fun s => { s with
      history := s.history.set row.id
        (fun r => { r with
          vaultId := personal.id, data, keyVersion := personal.keyVersion, dirty := true })
        (fun _ => rfl) })
    adoptRows localKey personalKey personal nonce rows

/-- Move local-vault history into the personal vault after sign-in. -/
def adoptLocalHistory (nonce : Uuid → Nonce) : Script Store CoreError ℕ := do
  let s ← .read
  match s.personalVault with
  | none => return 0
  | some personal => do
    let loc ← .lift s.localVault
    let localKey ← .lift (s.vaultKey loc.id)
    let personalKey ← .lift (s.vaultKey personal.id)
    let rows := s.history.select (fun r => decide (r.vaultId = loc.id) && !r.deleted)
    adoptRows localKey personalKey personal nonce rows
    return rows.length

end

/-! ### The row an operation leaves -/

section
variable {s s' : Store} {id id' : Uuid} {kind : HistoryKind} {now : DateTime} {nonce : Nonce}

theorem mem_history_select {p : HistoryRow → Bool} {r : HistoryRow} :
  r ∈ s.history.select p ↔ s.historyRow r.id = some r ∧ p r = true
  := by
  rw [Table.select, List.mem_filter, historyRow, Table.get?_eq_some_iff]
  simp

/-- A recorded entry is sealed with the key of the history vault and labelled with its
version. -/
theorem recordHistory_eq_ok [Primitives] {T : Type} [Serde T] {data : T}
    (h : s.recordHistory kind data id now nonce = .ok s') :
  ∃ v k, s.vaults.get? v.id = some v ∧ v.wrappedKey = some k
    ∧ s.historyVault = .ok v.id ∧ s.historyRow id = none
    ∧ s'.vaults = s.vaults ∧ s'.entities = s.entities ∧ s'.sessionLogs = s.sessionLogs
    ∧ s'.account = s.account
    ∧ ∀ id', s'.historyRow id' = if id' = id then
          some { id, kind, vaultId := v.id
                 data := encryptStr k (historyAad kind id) nonce (Serde.toJson data)
                 keyVersion := v.keyVersion, createdAt := now, seq := 0, deleted := false
                 dirty := v.kind.isSynced }
        else s.historyRow id'
  := by
  rw [recordHistory] at h
  obtain ⟨vaultId, hvault, h⟩ := bind_eq_ok.mp h
  obtain ⟨k, hk, h⟩ := bind_eq_ok.mp h
  obtain ⟨v, hv, h⟩ := bind_eq_ok.mp h
  rw [vault_eq_ok] at hv
  obtain ⟨v', hv', hwrapped⟩ := vaultKey_eq_ok.mp hk
  obtain rfl : v' = v := by rw [hv] at hv'; cases hv'; rfl
  obtain rfl : v'.id = vaultId := Table.key_of_get? hv
  dsimp only at h
  split at h
  · rename_i history hins
    obtain rfl := pure_eq_ok.mp h
    refine ⟨v', k, hv, hwrapped, hvault, ?_, rfl, rfl, rfl, rfl, ?_⟩
    · exact Table.insert_isSome_iff.mp (Option.isSome_iff_exists.mpr ⟨_, hins⟩)
    · intro id'
      exact Table.get?_insert hins id'
  · exact absurd h (by simp)

/-- An updated connection keeps its vault and its key version; its envelope is sealed with
the key the vault has now. -/
theorem updateConnection_eq_ok [Primitives] [Serde ConnectionHistory] {data : ConnectionHistory}
    (h : s.updateConnection id data nonce = .ok s') :
  ∃ r v k, s.historyRow id = some r ∧ r.kind = .connection ∧ r.deleted = false
    ∧ s.vaults.get? r.vaultId = some v ∧ v.wrappedKey = some k
    ∧ s'.vaults = s.vaults ∧ s'.entities = s.entities ∧ s'.sessionLogs = s.sessionLogs
    ∧ s'.account = s.account
    ∧ ∀ id', s'.historyRow id' = if id' = id then
          some { r with
            data := encryptStr k (historyAad .connection id) nonce (Serde.toJson data)
            dirty := v.kind.isSynced }
        else s.historyRow id'
  := by
  rw [updateConnection] at h
  cases hrow : (s.historyRow id).filter (fun r => decide (r.kind = .connection) && !r.deleted) with
  | none => simp [hrow] at h
  | some r =>
      simp only [hrow] at h
      obtain ⟨k, hk, h⟩ := bind_eq_ok.mp h
      obtain ⟨v, hv, h⟩ := bind_eq_ok.mp h
      obtain rfl := pure_eq_ok.mp h
      obtain ⟨hget, hp⟩ := Option.filter_eq_some_iff.mp hrow
      simp only [Bool.and_eq_true, decide_eq_true_eq, Bool.not_eq_true'] at hp
      rw [vault_eq_ok] at hv
      obtain ⟨v', hv', hk⟩ := vaultKey_eq_ok.mp hk
      obtain rfl : v' = v := by rw [hv] at hv'; cases hv'; rfl
      refine ⟨r, v', k, hget, hp.1, hp.2, hv, hk, rfl, rfl, rfl, rfl, ?_⟩
      intro id'
      rw [historyRow, Table.get?_set, ← historyRow, hget]
      rfl

/-- The row under an identifier after the push of one entry was recorded. -/
theorem historyRow_markHistoryPushed {seq : ℤ} :
  (s.markHistoryPushed [id] seq).historyRow id'
    = (if id' = id then
          (s.historyRow id).map (fun r =>
            { r with dirty := false, seq := if r.seq = 0 then seq else r.seq })
        else s.historyRow id').filter (fun r => !(r.deleted && !r.dirty))
  := by
  rw [historyRow, markHistoryPushed, Table.get?_delete]
  simp only [List.foldl_cons, List.foldl_nil, Table.get?_set]
  rfl

/-- The row under an identifier after an entry was applied. -/
theorem historyRow_applyRemoteEntry {personal : Uuid} {e : HistoryEntry} :
  (applyRemoteEntry personal s e).historyRow id
    = if id = e.id then
        if e.deleted then none
        else if ∃ r, s.historyRow e.id = some r ∧ r.dirty = false ∧ r.seq = e.seq then
          s.historyRow e.id
        else some (((s.historyRow e.id).map (fun r => { r with
            data := e.data, keyVersion := e.keyVersion, seq := e.seq, deleted := false
            dirty := false })).getD (mirrorRow personal e))
      else s.historyRow id
  := by
  have hknown : ((s.historyRow e.id).filter (fun r => !r.dirty)).map HistoryRow.seq = some e.seq
      ↔ ∃ r, s.historyRow e.id = some r ∧ r.dirty = false ∧ r.seq = e.seq := by
    cases s.historyRow e.id with
    | none => simp
    | some r => cases hd : r.dirty <;> simp [Option.filter_some, hd]
  rw [applyRemoteEntry]
  by_cases hdel : e.deleted = true
  · simp only [hdel, if_true, historyRow, Table.get?_erase]
  · simp only [hdel, Bool.false_eq_true, if_false]
    by_cases hk : ∃ r, s.historyRow e.id = some r ∧ r.dirty = false ∧ r.seq = e.seq
    · rw [if_pos (hknown.mpr hk)]
      split
      · rename_i heq
        rw [heq]
      · rfl
    · rw [if_neg (fun h => hk (hknown.mp h)), historyRow, Table.get?_upsert]
      split
      · rename_i heq
        have heq : id = e.id := heq
        rw [if_pos heq, heq]
        rfl
      · rename_i hne
        have hne : id ≠ e.id := hne
        rw [if_neg hne, historyRow]

@[simp]
theorem vaults_applyRemoteEntry {personal : Uuid} {e : HistoryEntry} :
  (applyRemoteEntry personal s e).vaults = s.vaults
  := by
  rw [applyRemoteEntry]
  split
  · rfl
  · split <;> rfl

end

end Store

end Termoso.Core

/-! ### A symbolic instance -/

namespace Termoso.Symbolic

open Core

/-- A command is spelled out. -/
scoped instance : Serde CommandHistory := ⟨CommandHistory.command, fun text => some ⟨none, text⟩⟩

/-- A connection is spelled by its label. -/
scoped instance : Serde ConnectionHistory :=
  ⟨ConnectionHistory.label, fun text => some ⟨none, text, "", "", none, none⟩⟩

end Termoso.Symbolic
