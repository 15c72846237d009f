import Termoso.Core.Mirror

/-!
# The sync engine

A pass pushes the rows of the synced vaults that have local changes, chunk by chunk, and then
pulls what the server has beyond the cursors.  A purge takes the credentials of the personal
vault off the server.

The engine talks to the store and to the server one step at a time, and the user edits the
store between any two of its steps.
-/

namespace Termoso.Core

/-! ### Options and reports -/

/-- How to resolve an entity that changed both here and on the server. -/
inductive ConflictPolicy
  /-- Keep whichever side was edited later; on a tie, the server. -/
  | newestWins
  /-- Keep the local payload and overwrite the server. -/
  | localWins
  /-- Take the server copy and drop the local edit. -/
  | serverWins
deriving DecidableEq

/-- Whether the local side of a conflict is kept. -/
def ConflictPolicy.keepsLocal (policy : ConflictPolicy) (loc : EntityRow) (server : SyncEntity) :
    Bool :=
  match policy with
  | localWins => true
  | serverWins => false
  | newestWins => decide (loc.updatedAt > server.updatedAt)

/-- Engine knobs. -/
structure SyncOptions where
  conflict : ConflictPolicy
  batch : ℕ
  syncCredentials : Bool
deriving DecidableEq

/-- What a pass did: entities accepted by the server, entities applied from it, conflicts, and the
items the server refused. -/
structure SyncReport where
  pushed : ℕ
  pulled : ℕ
  conflicts : ℕ
  errors : List (Uuid × String)
deriving DecidableEq

/-- Items per request. -/
def SyncOptions.size (opts : SyncOptions) : ℕ := clampLimit (some opts.batch)

/-- The vault whose credentials stay on this device, if any. -/
def SyncOptions.localCredentialsVault (opts : SyncOptions) (s : Store) : Option Uuid :=
  if opts.syncCredentials then none else s.personalVault.map LocalVault.id

/-- Whether a row is a credential kept off the server. Tombstones still go up. -/
def EntityRow.keepsLocal (r : EntityRow) (localVault : Option Uuid) : Bool :=
  decide (localVault = some r.vaultId) && !r.deleted && isCredentialKind r.kind

/-! ### Results of a push -/

/-- One push of a vault: the chunk that is out, those to come, and whether rows should be pushed
again or the key of the vault is stale. It may be repeated `again` times. -/
structure Pushing where
  vaultId : Uuid
  again : ℕ
  chunk : List EntityRow
  rest : List (List EntityRow)
  retry : Bool
  staleKey : Bool
deriving DecidableEq

/-- The row a result is about, as it was pushed. -/
def Pushing.pushed (push : Pushing) (id : Uuid) : Option EntityRow :=
  push.chunk.find? (fun r => decide (r.id = id))

namespace Store

/-- Apply the policy to a conflict. Reports whether the local copy should be pushed again. -/
def resolveConflict (policy : ConflictPolicy) (s : Store) (loc : EntityRow) (server : SyncEntity) :
    Except CoreError (Store × Bool) :=
  if policy.keepsLocal loc server then
    .ok (s.rebaseLocal loc.id server.version server.seq, true)
  else (s.applyRemote server).map (fun s => (s, false))

/-- Apply one result of a push. -/
def applyResult (policy : ConflictPolicy) (s : Store) (push : Pushing) (report : SyncReport) :
    PushResult → Except CoreError (Store × Pushing × SyncReport)
  | .ok id version seq =>
    .ok (s.markPushed id version seq, push, { report with pushed := report.pushed + 1 })
  | .conflict id server =>
    let report := { report with conflicts := report.conflicts + 1 }
    match push.pushed id with
    | none => .ok (s, push, report)
    | some loc =>
      (s.resolveConflict policy loc server).map (fun (s, again) =>
        (s, { push with retry := push.retry || again }, report))
  | .error id code =>
    if code = "not_found" then
      -- The server never had it, or purged the tombstone.
      match push.pushed id with
      | some r =>
        if r.deleted then .ok (s.markPushed id 0 0, push, report)
        else .ok (s.rebaseLocal id 0 0, { push with retry := true }, report)
      | none => .ok (s, push, report)
    else
      .ok (s, { push with staleKey := push.staleKey || decide (code = "stale_key_version") },
        { report with errors := report.errors ++ [(id, code)] })

/-- Apply one pulled entity, protecting unpushed local edits. Reports whether the row changed. -/
def applyPulled (policy : ConflictPolicy) (s : Store) (e : SyncEntity) :
    Except CoreError (Store × Bool) :=
  match s.row e.id with
  | none => if e.deleted then .ok (s, false) else (s.applyRemote e).map (fun s => (s, true))
  | some loc =>
    if !loc.dirty then
      if loc.version ≥ e.version ∧ ¬ e.deleted then .ok (s, false)
      else (s.applyRemote e).map (fun s => (s, true))
    else if loc.version ≥ e.version then .ok (s, false)
    else (s.resolveConflict policy loc e).map (fun (s, again) => (s, !again))

/-! ### Cursors -/

/-- Read the cursors of vaults, beside the cursors `c`. -/
def readCursors (s : Store) (c : Cursors) : List Uuid → Except CoreError Cursors
  | [] => .ok c
  | id :: ids => do
    let v ← s.vault id
    s.readCursors (c.put id v.cursor) ids

/-- Move the cursors `c` of the vaults pulled, and those stored, to those of an answer that are
ahead. -/
def saveCursors (s : Store) (c : Cursors) : List (Uuid × ℤ) → Store × Cursors
  | [] => (s, c)
  | (id, cursor) :: rest =>
    if (c.get? id).any (fun loc => decide (loc.2 < cursor)) then
      (s.setVaultCursor id cursor).saveCursors (c.put id cursor) rest
    else s.saveCursors c rest

end Store

/-! ### Passes -/

/-- A part of a pass: a push of a vault, that may be repeated `again` times, or a pull. -/
inductive SyncTask
  | push (vaultId : Uuid) (again : ℕ)
  | pull (vaultIds : List Uuid)
deriving DecidableEq

/-- What the engine is asked to do. -/
inductive SyncCommand
  /-- Push every synced vault, then pull them all. -/
  | syncOnce
  /-- Push then pull one vault. -/
  | syncVault (vaultId : Uuid)
  /-- Pull vaults. -/
  | pullEntities (vaultIds : List Uuid)
  /-- Push the personal vault, and pull it from the start. -/
  | resyncCredentials
  /-- Take the credentials of the personal vault off the server. -/
  | purgeCredentials

/-- A pull: the cursors to pull from, and the vault whose credentials are not taken. -/
structure Pulling where
  cursors : Cursors
  localVault : Option Uuid

/-- A purge: the chunks still to go, the rows to try again, and how often that may happen. -/
structure Purging where
  rounds : ℕ
  rest : List (List EntityRow)
  retry : List EntityRow
deriving DecidableEq

/-- Where the engine stands. -/
inductive SyncPhase
  | idle
  /-- The request for a chunk is put together row by row. -/
  | preparing (push : Pushing) (todo : List EntityRow) (req : PushRequest)
  /-- A chunk is with the server. -/
  | pushing (push : Pushing) (req : PushRequest)
  /-- The results for a chunk are applied one by one. -/
  | applying (push : Pushing) (results : List PushResult)
  /-- The vault list is asked for. -/
  | refreshing (push : Pushing)
  /-- A page is asked for. -/
  | pulling (pull : Pulling)
  /-- The entities of a page are applied one by one. -/
  | pulled (pull : Pulling) (entities : List SyncEntity) (resp : PullResponse)
  /-- Deletions are with the server. -/
  | purging (purge : Purging) (req : PushRequest)
  /-- The results of deletions are applied one by one. -/
  | purged (purge : Purging) (results : List PushResult)

/-- A device and its engine. The tasks are what the pass does after the current one. -/
structure SyncDevice where
  store : Store
  phase : SyncPhase
  tasks : List SyncTask
  report : SyncReport

/-- A local edit. -/
inductive EntityEdit : Type 1
  | putRaw (vaultId : Uuid) (kind : String) (id : Uuid) (json : String) (now : DateTime)
      (nonce : Nonce)
  | update (T : Type) [Payload T] (id : Uuid) (data : T) (now : DateTime) (nonce : Nonce)
  | delete (id : Uuid) (now : DateTime)

/-- A step: a local edit, a command, a step of the engine, an answer of the server, or the end of
the pass for any other reason. -/
inductive SyncStep : Type 1
  | edit (op : EntityEdit)
  | start (command : SyncCommand)
  | next
  | answered (results : List PushResult)
  | listed (privateKey : KeyPair) (remote : List Vault) (nonce : ℕ → Uuid → Nonce)
  | page (resp : PullResponse)
  | abort

namespace SyncDevice

/-- The pass ends. -/
def stop (d : SyncDevice) : SyncDevice := { d with phase := .idle, tasks := [] }

/-- Go on after a push: again, when rows were left to be pushed again, or to the next task. -/
def afterPush (d : SyncDevice) (push : Pushing) : SyncDevice :=
  { d with
    phase := .idle
    tasks := if push.retry ∧ push.again > 0 then .push push.vaultId (push.again - 1) :: d.tasks
      else d.tasks }

/-- Go on to the next chunk of a push. -/
def nextChunk (d : SyncDevice) (push : Pushing) : SyncDevice :=
  match push.rest with
  | chunk :: rest =>
    { d with phase := .preparing { push with chunk, rest } chunk ⟨[], []⟩ }
  | [] => if push.staleKey then { d with phase := .refreshing push } else d.afterPush push

/-- Start a push: take a snapshot of the rows to go up. -/
def startPush (opts : SyncOptions) (d : SyncDevice) (vaultId : Uuid) (again : ℕ) : SyncDevice :=
  let localVault := opts.localCredentialsVault d.store
  let rows := (d.store.dirtyRows vaultId).filter (fun r => !r.keepsLocal localVault)
  d.nextChunk ⟨vaultId, again, [], rows.toChunks opts.size, false, false⟩

/-- Start a pull. -/
def startPull (opts : SyncOptions) (d : SyncDevice) (vaultIds : List Uuid) : SyncDevice :=
  if vaultIds = [] then { d with phase := .idle }
  else
    match d.store.readCursors .empty vaultIds with
    | .ok cursors =>
      { d with phase := .pulling ⟨cursors, opts.localCredentialsVault d.store⟩ }
    | .error _ => d.stop

/-- Put a row of a chunk into its request. -/
def prepare (d : SyncDevice) (push : Pushing) (todo : List EntityRow) (req : PushRequest)
    (r : EntityRow) : SyncDevice :=
  if r.deleted then
    if r.version > 0 then
      { d with phase := .preparing push todo { req with deletes := req.deletes ++ [r.toDelete] } }
    else
      -- Created and deleted before the server saw it.
      { d with
        store := d.store.markPushed r.id 0 0
        phase := .preparing push todo req }
  else
    { d with phase := .preparing push todo { req with changes := req.changes ++ [r.toChange] } }

/-- Apply one result of a push, or end the pass. -/
def apply (opts : SyncOptions) (d : SyncDevice) (push : Pushing) (results : List PushResult)
    (result : PushResult) : SyncDevice :=
  match d.store.applyResult opts.conflict push d.report result with
  | .ok (store, push, report) => { d with store, report, phase := .applying push results }
  | .error _ => d.stop

/-- Apply one entity of a page, or end the pass. The credentials of the local vault are skipped. -/
def mirror (opts : SyncOptions) (d : SyncDevice) (pull : Pulling) (entities : List SyncEntity)
    (resp : PullResponse) (e : SyncEntity) : SyncDevice :=
  if pull.localVault = some e.vaultId ∧ isCredentialKind e.kind = true then
    { d with phase := .pulled pull entities resp }
  else
    match d.store.applyPulled opts.conflict e with
    | .ok (store, changed) =>
      { d with
        store
        phase := .pulled pull entities resp
        report := { d.report with pulled := d.report.pulled + if changed then 1 else 0 } }
    | .error _ => d.stop

/-- Save the cursors of a page, and go on behind it. -/
def finishPage (d : SyncDevice) (pull : Pulling) (resp : PullResponse) : SyncDevice :=
  let (store, cursors) := d.store.saveCursors pull.cursors resp.cursors.rows
  { d with
    store
    phase := if resp.hasMore then .pulling { pull with cursors } else .idle }

/-! ### Purging credentials -/

/-- Ask for the deletion of the next chunk, or try again what kept changing. -/
def nextPurge (opts : SyncOptions) (d : SyncDevice) (purge : Purging) : SyncDevice :=
  match purge.rest with
  | chunk :: rest =>
    { d with phase := .purging { purge with rest } ⟨[], chunk.map EntityRow.toDelete⟩ }
  | [] =>
    match purge.retry.toChunks opts.size, purge.rounds with
    | chunk :: rest, rounds + 1 =>
      { d with phase := .purging ⟨rounds, rest, []⟩ ⟨[], chunk.map EntityRow.toDelete⟩ }
    | _, _ => { d with phase := .idle }

/-- The credentials of a vault that the server has. -/
def purgeable (s : Store) (vaultId : Uuid) : List EntityRow :=
  (s.rows ⟨some vaultId, none, false⟩).filter
    (fun r => isCredentialKind r.kind && decide (r.version > 0))

/-- Apply one result of a purge, or end it. -/
def unpublish (d : SyncDevice) (purge : Purging) (results : List PushResult) :
    PushResult → SyncDevice
  | .ok id version seq =>
    { d with store := d.store.rebaseLocal id version seq, phase := .purged purge results }
  | .conflict id server =>
    let store := d.store.rebaseLocal id server.version server.seq
    { d with
      store
      phase := .purged { purge with retry := purge.retry ++ (store.row id).toList } results }
  | .error id code =>
    if code = "not_found" then
      { d with store := d.store.rebaseLocal id 0 0, phase := .purged purge results }
    else d.stop

/-! ### Steps -/

/-- The synced vaults whose key is held. -/
def syncedVaultIds (s : Store) : List Uuid :=
  (s.listVaults.filter (fun v => v.kind.isSynced && v.unlocked)).map LocalVault.id

/-- Carry out a command. -/
def begin (opts : SyncOptions) (d : SyncDevice) : SyncCommand → SyncDevice
  | .syncOnce =>
    let vaults := syncedVaultIds d.store
    { d with
      tasks := vaults.map (fun id => .push id 2) ++ [.pull vaults]
      report := ⟨0, 0, 0, []⟩ }
  | .syncVault id => { d with tasks := [.push id 2, .pull [id]], report := ⟨0, 0, 0, []⟩ }
  | .pullEntities ids => { d with tasks := [.pull ids], report := ⟨0, 0, 0, []⟩ }
  | .resyncCredentials =>
    match d.store.personalVault.filter LocalVault.unlocked with
    | none => { d with report := ⟨0, 0, 0, []⟩ }
    | some v =>
      { d with
        store := d.store.setVaultCursor v.id 0
        tasks := [.push v.id 2, .pull [v.id]]
        report := ⟨0, 0, 0, []⟩ }
  | .purgeCredentials =>
    match d.store.personalVault.filter LocalVault.unlocked with
    | none => d
    | some v => d.nextPurge opts ⟨2, (purgeable d.store v.id).toChunks opts.size, []⟩

/-- The next step the engine takes by itself. -/
def advance (opts : SyncOptions) (d : SyncDevice) : Option SyncDevice :=
  match d.phase with
  | .idle =>
    match d.tasks with
    | [] => none
    | .push vaultId again :: tasks => some ({ d with tasks }.startPush opts vaultId again)
    | .pull vaultIds :: tasks => some ({ d with tasks }.startPull opts vaultIds)
  | .preparing push (r :: todo) req => some (d.prepare push todo req r)
  | .preparing push [] req =>
    if req.changes = [] ∧ req.deletes = [] then some (d.nextChunk push)
    else some { d with phase := .pushing push req }
  | .applying push (result :: results) => some (d.apply opts push results result)
  | .applying push [] => some (d.nextChunk push)
  | .pulled pull (e :: entities) resp => some (d.mirror opts pull entities resp e)
  | .pulled pull [] resp => some (d.finishPage pull resp)
  | .purged purge (result :: results) => some (d.unpublish purge results result)
  | .purged purge [] => some (d.nextPurge opts purge)
  | .pushing _ _ => none
  | .refreshing _ => none
  | .pulling _ => none
  | .purging _ _ => none

end SyncDevice

section
variable [Boxes]

/-- The store after a local edit. -/
def Store.edit (s : Store) : EntityEdit → Except CoreError Store
  | .putRaw vaultId kind id json now nonce => s.putRaw vaultId kind id json now nonce
  | @EntityEdit.update _ _ id data now nonce => s.update id data now nonce
  | .delete id now => s.delete id now

/-- Mirror the vault list, and go on after the push. -/
def SyncDevice.refreshed (d : SyncDevice) (push : Pushing) (privateKey : KeyPair)
    (remote : List Vault) (nonce : ℕ → Uuid → Nonce) : SyncDevice :=
  let script := applyVaultList privateKey remote nonce
  let d' := { d with store := script.final d.store }
  match script.result d.store with
  | .ok _ => d'.afterPush push
  | .error _ => d'.stop

/-- The device after a step, when the step is possible. -/
def SyncDevice.step (opts : SyncOptions) (d : SyncDevice) : SyncStep → Option SyncDevice
  | .edit op => (d.store.edit op).toOption.map (fun store => { d with store })
  | .start command =>
    match d.phase, d.tasks with
    | .idle, [] => some (d.begin opts command)
    | _, _ => none
  | .next => d.advance opts
  | .answered results =>
    match d.phase with
    | .pushing push _ => some { d with phase := .applying push results }
    | .purging purge _ => some { d with phase := .purged purge results }
    | _ => none
  | .listed privateKey remote nonce =>
    match d.phase with
    | .refreshing push => some (d.refreshed push privateKey remote nonce)
    | _ => none
  | .page resp =>
    match d.phase with
    | .pulling pull => some { d with phase := .pulled pull resp.entities resp }
    | _ => none
  | .abort => some d.stop

end

/-! ### What the engine does to the store -/

theorem flatten_toChunks {α : Type} (n : ℕ) (rows : List α) :
  (rows.toChunks n).flatten = rows
  := by
  have hgo : ∀ (n : ℕ) (xs : List α) (chunk : Array α) (chunks : Array (List α)),
      (List.toChunks.go n xs chunk chunks).flatten
        = chunks.toList.flatten ++ chunk.toList ++ xs := by
    intro n xs
    induction xs with
    | nil =>
        intro chunk chunks
        simp [List.toChunks.go]
    | cons y xs ih =>
        intro chunk chunks
        rw [List.toChunks.go]
        split
        · rw [ih]
          simp
        · rw [ih]
          simp
  match n, rows with
  | _, [] => rfl
  | 0, x :: xs => simp [List.toChunks]
  | n + 1, x :: xs => exact hgo (n + 1) xs #[x] #[]

theorem mem_of_mem_toChunks {α : Type} {n : ℕ} {rows chunk : List α} {r : α}
    (hchunk : chunk ∈ rows.toChunks n) (hr : r ∈ chunk) :
  r ∈ rows
  := by
  rw [← flatten_toChunks n rows]
  exact List.mem_flatten.mpr ⟨chunk, hchunk, hr⟩

theorem Pushing.pushed_eq_some {push : Pushing} {id : Uuid} {r : EntityRow}
    (h : push.pushed id = some r) :
  r ∈ push.chunk ∧ r.id = id
  := by
  have hid := List.find?_some h
  simp only [decide_eq_true_eq] at hid
  exact ⟨List.mem_of_find?_eq_some h, hid⟩

namespace Store

/-- What a result of a push does to the store. -/
inductive Applied (policy : ConflictPolicy) (push : Pushing) (s : Store) : PushResult → Store → Prop
  /-- The server has what was pushed. -/
  | marked {id : Uuid} {version seq : ℤ} :
    Applied policy push s (.ok id version seq) (s.markPushed id version seq)
  /-- The local side of a conflict is kept. -/
  | kept {id : Uuid} {loc : EntityRow} {server : SyncEntity} : push.pushed id = some loc →
    policy.keepsLocal loc server = true →
    Applied policy push s (.conflict id server) (s.rebaseLocal id server.version server.seq)
  /-- The server copy of a conflict is taken. -/
  | taken {id : Uuid} {loc : EntityRow} {server : SyncEntity} {s' : Store} :
    push.pushed id = some loc → policy.keepsLocal loc server = false →
    s.applyRemote server = .ok s' → Applied policy push s (.conflict id server) s'
  /-- There is nothing to delete. -/
  | gone {id : Uuid} {loc : EntityRow} : push.pushed id = some loc → loc.deleted = true →
    Applied policy push s (.error id "not_found") (s.markPushed id 0 0)
  /-- There is nothing to update. -/
  | missing {id : Uuid} {loc : EntityRow} : push.pushed id = some loc → loc.deleted = false →
    Applied policy push s (.error id "not_found") (s.rebaseLocal id 0 0)
  /-- A conflict about a row that was not pushed. -/
  | strange {id : Uuid} {server : SyncEntity} : push.pushed id = none →
    Applied policy push s (.conflict id server) s
  /-- The item is refused, or not found though it was not pushed. -/
  | refused {id : Uuid} {code : String} : (code = "not_found" → push.pushed id = none) →
    Applied policy push s (.error id code) s

section
variable {policy : ConflictPolicy} {push push' : Pushing} {report report' : SyncReport}
  {s s' : Store} {id : Uuid} {loc : EntityRow} {e : SyncEntity}

/-- A conflict is resolved by a rebase or by taking the server copy. -/
theorem resolveConflict_eq_ok {again : Bool}
    (h : s.resolveConflict policy loc e = .ok (s', again)) :
  again = policy.keepsLocal loc e
    ∧ ((policy.keepsLocal loc e = true ∧ s' = s.rebaseLocal loc.id e.version e.seq)
      ∨ (policy.keepsLocal loc e = false ∧ s.applyRemote e = .ok s'))
  := by
  rw [resolveConflict] at h
  split at h
  · rename_i hkeep
    cases h
    exact ⟨hkeep.symm, .inl ⟨hkeep, rfl⟩⟩
  · rename_i hkeep
    rw [Bool.not_eq_true] at hkeep
    obtain ⟨s₁, hs₁, heq⟩ := map_eq_ok.mp h
    cases heq
    exact ⟨hkeep.symm, .inr ⟨hkeep, hs₁⟩⟩

/-- What a result does to the store and to the push. -/
theorem applyResult_eq_ok {result : PushResult}
    (h : s.applyResult policy push report result = .ok (s', push', report')) :
  Applied policy push s result s'
    ∧ push' = { push with retry := push'.retry, staleKey := push'.staleKey }
  := by
  cases result with
  | ok id version seq =>
      cases h
      exact ⟨.marked, rfl⟩
  | conflict id server =>
      rw [applyResult] at h
      cases hloc : push.pushed id with
      | none =>
          rw [hloc] at h
          cases h
          exact ⟨.strange hloc, rfl⟩
      | some loc =>
          rw [hloc] at h
          obtain ⟨⟨s₁, again⟩, hres, heq⟩ := map_eq_ok.mp h
          cases heq
          refine ⟨?_, rfl⟩
          obtain rfl := (Pushing.pushed_eq_some hloc).2
          obtain ⟨-, ⟨hkeep, rfl⟩ | ⟨hkeep, hs'⟩⟩ := resolveConflict_eq_ok hres
          · exact .kept hloc hkeep
          · exact .taken hloc hkeep hs'
  | error id code =>
      rw [applyResult] at h
      split at h
      · rename_i hcode
        subst hcode
        cases hloc : push.pushed id with
        | none =>
            rw [hloc] at h
            cases h
            exact ⟨.refused (fun _ => hloc), rfl⟩
        | some loc =>
            rw [hloc] at h
            dsimp only at h
            split at h
            · rename_i hdel
              cases h
              exact ⟨.gone hloc hdel, rfl⟩
            · rename_i hdel
              cases h
              exact ⟨.missing hloc (by simpa using hdel), rfl⟩
      · rename_i hcode
        cases h
        exact ⟨.refused (fun h => absurd h hcode), rfl⟩

/-- What a pulled entity does to the store: nothing, when it is a tombstone of no row or no newer
than the row; a rebase of a dirty row; or it is taken. -/
theorem applyPulled_eq_ok {changed : Bool} (h : s.applyPulled policy e = .ok (s', changed)) :
  (changed = false ∧ s' = s ∧ ((s.row e.id = none ∧ e.deleted = true)
      ∨ ∃ loc, s.row e.id = some loc ∧ loc.version ≥ e.version
        ∧ (loc.dirty = false → e.deleted = false)))
    ∨ (changed = false ∧ s' = s.rebaseLocal e.id e.version e.seq
      ∧ ∃ loc, s.row e.id = some loc ∧ loc.dirty = true ∧ loc.version < e.version
        ∧ policy.keepsLocal loc e = true)
    ∨ (changed = true ∧ s.applyRemote e = .ok s'
      ∧ ∀ loc, s.row e.id = some loc → loc.dirty = true → policy.keepsLocal loc e = false)
  := by
  rw [applyPulled] at h
  cases hrow : s.row e.id with
  | none =>
      rw [hrow] at h
      dsimp only at h
      split at h
      · rename_i hdel
        cases h
        exact .inl ⟨rfl, rfl, .inl ⟨rfl, hdel⟩⟩
      · obtain ⟨s₁, hs₁, heq⟩ := map_eq_ok.mp h
        cases heq
        exact .inr (.inr ⟨rfl, hs₁, fun loc hloc => by cases hloc⟩)
  | some loc =>
      have hid : loc.id = e.id := id_of_row hrow
      rw [hrow] at h
      dsimp only at h
      split at h
      · rename_i hclean
        split at h
        · rename_i hle
          cases h
          exact .inl ⟨rfl, rfl, .inr ⟨loc, rfl, hle.1, fun _ => by simpa using hle.2⟩⟩
        · obtain ⟨s₁, hs₁, heq⟩ := map_eq_ok.mp h
          cases heq
          refine .inr (.inr ⟨rfl, hs₁, ?_⟩)
          intro loc' hloc hdirty
          cases hloc
          simp [hdirty] at hclean
      · rename_i hdirty
        simp only [Bool.not_eq_true', Bool.not_eq_false] at hdirty
        split at h
        · rename_i hle
          cases h
          exact .inl ⟨rfl, rfl, .inr ⟨loc, rfl, hle, fun h => by simp [hdirty] at h⟩⟩
        · rename_i hlt
          obtain ⟨⟨s₁, again⟩, hres, heq⟩ := map_eq_ok.mp h
          cases heq
          obtain ⟨hagain, ⟨hkeep, rfl⟩ | ⟨hkeep, hs'⟩⟩ := resolveConflict_eq_ok hres
          · refine .inr (.inl ⟨by simp [hagain, hkeep], ?_, loc, rfl, hdirty, by omega, hkeep⟩)
            rw [hid]
          · refine .inr (.inr ⟨by simp [hagain, hkeep], hs', ?_⟩)
            intro loc' hloc _
            cases hloc
            exact hkeep

/-- Cursors read are those of vaults of the store. -/
theorem readCursors_eq_ok {c c' : Cursors} {ids : List Uuid} (h : s.readCursors c ids = .ok c') :
  ∀ v, c'.get? v = if v ∈ ids then (s.vaults.get? v).map (fun l => (v, l.cursor)) else c.get? v
  := by
  induction ids generalizing c with
  | nil =>
      cases h
      simp
  | cons id ids ih =>
      obtain ⟨l, hl, h⟩ := bind_eq_ok.mp h
      have hget := vault_eq_ok.mp hl
      intro v
      rw [ih h v, Cursors.get?_put]
      by_cases hmem : v ∈ ids
      · simp [hmem]
      · by_cases hid : v = id
        · subst hid
          simp [hmem, hget]
        · simp [hmem, hid]

@[simp]
theorem row_setVaultCursor {cursor : ℤ} {id' : Uuid} :
  (s.setVaultCursor id cursor).row id' = s.row id'
  := rfl

theorem vaults_setVaultCursor {cursor : ℤ} {id' : Uuid} :
  (s.setVaultCursor id cursor).vaults.get? id'
    = if id' = id then (s.vaults.get? id).map (fun v => { v with cursor })
      else s.vaults.get? id'
  := by
  rw [setVaultCursor, Table.get?_set]

/-- Saving cursors changes nothing but the cursors of vaults. -/
theorem saveCursors_induction {I : Store → Prop}
    (hI : ∀ s id cursor, I s → I (s.setVaultCursor id cursor)) {c : Cursors}
    {l : List (Uuid × ℤ)} (h : I s) :
  I (s.saveCursors c l).1
  := by
  induction l generalizing s c with
  | nil => exact h
  | cons w l ih =>
      rw [saveCursors]
      split
      · exact ih (hI _ _ _ h)
      · exact ih h

@[simp]
theorem row_saveCursors {c : Cursors} {l : List (Uuid × ℤ)} :
  (s.saveCursors c l).1.row id = s.row id
  := saveCursors_induction (I := fun s' => s'.row id = s.row id) (fun _ _ _ h => h) rfl

end

end Store

/-! ### What the engine keeps -/

/-- Every statement of the engine keeps `I`. -/
structure Store.Keeps (I : Store → Prop) : Prop where
  marked : ∀ {s : Store} (id : Uuid) (version seq : ℤ), I s → I (s.markPushed id version seq)
  rebased : ∀ {s : Store} (id : Uuid) (version seq : ℤ), I s → I (s.rebaseLocal id version seq)
  taken : ∀ {s s' : Store} (e : SyncEntity), I s → s.applyRemote e = .ok s' → I s'
  cursor : ∀ {s : Store} (id : Uuid) (cursor : ℤ), I s → I (s.setVaultCursor id cursor)

namespace SyncDevice

section
variable {opts : SyncOptions} {d d' : SyncDevice} {push : Pushing} {purge : Purging}

@[simp]
theorem store_stop :
  d.stop.store = d.store
  := rfl

@[simp]
theorem store_afterPush :
  (d.afterPush push).store = d.store
  := rfl

@[simp]
theorem store_nextChunk :
  (d.nextChunk push).store = d.store
  := by
  rw [nextChunk]
  split
  · rfl
  · split <;> rfl

@[simp]
theorem store_startPush {vaultId : Uuid} {again : ℕ} :
  (d.startPush opts vaultId again).store = d.store
  := store_nextChunk

@[simp]
theorem store_startPull {vaultIds : List Uuid} :
  (d.startPull opts vaultIds).store = d.store
  := by
  rw [startPull]
  split
  · rfl
  · split <;> rfl

@[simp]
theorem store_nextPurge :
  (d.nextPurge opts purge).store = d.store
  := by
  rw [nextPurge]
  split
  · rfl
  · split <;> rfl

variable {I : Store → Prop} (hI : Store.Keeps I)
include hI

theorem keeps_applied {policy : ConflictPolicy} {s s' : Store} {result : PushResult} (hs : I s)
    (h : Store.Applied policy push s result s') :
  I s'
  := by
  cases h with
  | marked => exact hI.marked _ _ _ hs
  | kept => exact hI.rebased _ _ _ hs
  | taken _ _ h => exact hI.taken _ hs h
  | gone => exact hI.marked _ _ _ hs
  | missing => exact hI.rebased _ _ _ hs
  | strange => exact hs
  | refused => exact hs

/-- The engine keeps what each of its statements keeps. -/
theorem keeps_advance (hs : I d.store) (h : d.advance opts = some d') :
  I d'.store
  := by
  rw [advance] at h
  split at h
  · split at h
    · cases h
    · cases h
      rw [store_startPush]
      exact hs
    · cases h
      rw [store_startPull]
      exact hs
  · cases h
    rw [prepare]
    split
    · split
      · exact hs
      · exact hI.marked _ _ _ hs
    · exact hs
  · split at h
    · cases h
      rw [store_nextChunk]
      exact hs
    · cases h
      exact hs
  · rename_i push result results hphase
    cases h
    rw [apply]
    split
    · rename_i store push' report hres
      exact keeps_applied hI hs (Store.applyResult_eq_ok hres).1
    · exact hs
  · cases h
    rw [store_nextChunk]
    exact hs
  · rename_i pull e entities resp hphase
    cases h
    rw [mirror]
    split
    · exact hs
    split
    · rename_i store changed hres
      rcases Store.applyPulled_eq_ok hres with ⟨-, rfl, -⟩ | ⟨-, rfl, -⟩ | ⟨-, h, -⟩
      · exact hs
      · exact hI.rebased _ _ _ hs
      · exact hI.taken _ hs h
    · exact hs
  · cases h
    exact Store.saveCursors_induction (fun _ _ _ => hI.cursor _ _) hs
  · rename_i purge result results hphase
    cases h
    cases result with
    | ok id version seq => exact hI.rebased _ _ _ hs
    | conflict id server => exact hI.rebased _ _ _ hs
    | error id code =>
        rw [unpublish]
        split
        · exact hI.rebased _ _ _ hs
        · exact hs
  · cases h
    rw [store_nextPurge]
    exact hs
  all_goals cases h

/-- A command keeps what each statement of the engine keeps. -/
theorem keeps_begin {command : SyncCommand} (hs : I d.store) :
  I (d.begin opts command).store
  := by
  cases command with
  | syncOnce => exact hs
  | syncVault id => exact hs
  | pullEntities ids => exact hs
  | resyncCredentials =>
      rw [begin]
      split
      · exact hs
      · exact hI.cursor _ _ hs
  | purgeCredentials =>
      rw [begin]
      split
      · exact hs
      · rw [store_nextPurge]
        exact hs

end

end SyncDevice

end Termoso.Core
