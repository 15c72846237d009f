import Termoso.CredentialOptOut
import Termoso.Lib.Journal

/-!
# Edits while a push is in flight

The user edits the store while a push is on its way.  A journal notes, for each row edited since
the snapshot that is pushed, what the edit left: a payload, a tombstone, or no row.  The result
for a row is applied once, and the journal drops the row.

A result says which version the server has, not of what.  The row it is about is marked as
pushed even when it was edited meanwhile, so that the edit is never pushed.  Runs in which the
results meet only rows as they were pushed, and conflicts are decided by the time of the edit,
keep every edit.
-/

namespace Termoso

open Core

/-! ### Changes -/

/-- What an edit leaves under an identifier. -/
inductive RowChange
  | saved (vaultId : Uuid) (kind : String) (data : String) (keyVersion : ℤ)
  | tombstone
  | removed
deriving DecidableEq

/-- An edit that deletes. -/
def RowChange.Deletes (c : RowChange) : Prop := c = .tombstone ∨ c = .removed

/-- What a row says. -/
def Core.EntityRow.content (r : EntityRow) : RowChange :=
  if r.deleted then .tombstone else .saved r.vaultId r.kind r.data r.keyVersion

namespace Core.Store

/-- Whether a vault stays on the device. -/
def isLocal (s : Store) (vaultId : Uuid) : Bool :=
  (s.vaults.get? vaultId).any (fun v => !v.kind.isSynced)

/-- The change waiting under an identifier: that of a dirty row, or of a row that is not to be
pushed at all, and a removal where there is no row. -/
def rowChange (s : Store) (id : Uuid) : Option RowChange :=
  match s.row id with
  | some r => if r.dirty || s.isLocal r.vaultId then some r.content else none
  | none => some .removed

/-- A live row that is not to be pushed. -/
def KeepsHere (s : Store) (id : Uuid) : Prop :=
  ∃ r, s.row id = some r ∧ r.deleted = false ∧ s.isLocal r.vaultId = true

section
variable {s s' : Store} {id : Uuid} {c : RowChange}

theorem rowChange_congr (hvaults : s'.vaults = s.vaults) (h : s'.row id = s.row id) :
  s'.rowChange id = s.rowChange id
  := by
  have hlocal : s'.isLocal = s.isLocal := by
    funext v
    rw [isLocal, isLocal, hvaults]
  rw [rowChange, rowChange, h, hlocal]

theorem content_ne_removed (r : EntityRow) :
  r.content ≠ .removed
  := by
  rw [EntityRow.content]
  split <;> simp

theorem rowChange_removed :
  s.rowChange id = some .removed ↔ s.row id = none
  := by
  rw [rowChange]
  cases s.row id with
  | none => simp
  | some r =>
      simp only [reduceCtorEq, iff_false]
      split
      · simpa using content_ne_removed r
      · simp

/-- A change other than a removal waits in a row. -/
theorem rowChange_eq_some (h : s.rowChange id = some c) (hc : c ≠ .removed) :
  ∃ r, s.row id = some r ∧ r.content = c
  := by
  rw [rowChange] at h
  cases hrow : s.row id with
  | none =>
      rw [hrow] at h
      cases h
      exact absurd rfl hc
  | some r =>
      rw [hrow] at h
      dsimp only at h
      split at h
      · exact ⟨r, rfl, by simpa using h⟩
      · cases h

theorem rowChange_tombstone (h : s.rowChange id = some .tombstone) :
  ∃ r, s.row id = some r ∧ r.deleted = true
  := by
  obtain ⟨r, hrow, hr⟩ := rowChange_eq_some h (by simp)
  use r, hrow
  rw [EntityRow.content] at hr
  split at hr
  · assumption
  · cases hr

/-- Marking a deletion as pushed leaves no row. -/
theorem row_markPushed_of_deletes {version seq : ℤ} (h : s.rowChange id = some c)
    (hc : c.Deletes) :
  (s.markPushed id version seq).row id = none
  := by
  rw [row_markPushed, if_pos rfl]
  rcases hc with rfl | rfl
  · obtain ⟨r, hrow, hdel⟩ := rowChange_tombstone h
    rw [hrow, Option.bind_some, if_pos hdel]
  · rw [rowChange_removed.mp h]
    rfl

/-- Marking a row that is not to be pushed leaves its change. -/
theorem rowChange_markPushed_of_keepsHere {version seq : ℤ} (h : s.KeepsHere id) :
  (s.markPushed id version seq).rowChange id = s.rowChange id ∧ s.rowChange id ≠ some .removed
  := by
  obtain ⟨r, hrow, hlive, hlocal⟩ := h
  have hlocal' : (s.markPushed id version seq).isLocal r.vaultId = true := by
    rw [isLocal, vaults_markPushed]
    exact hlocal
  constructor
  · rw [rowChange, row_markPushed, if_pos rfl, hrow, Option.bind_some, if_neg (by simp [hlive])]
    simp [rowChange, hrow, hlocal, hlocal', EntityRow.content, hlive]
  · rw [ne_eq, rowChange_removed, hrow]
    simp

/-- A rebase leaves the change of the row. -/
theorem rowChange_rebaseLocal {version seq : ℤ} (h : s.rowChange id = some c) :
  (s.rebaseLocal id version seq).rowChange id = some c
  := by
  rw [rowChange, row_rebaseLocal, if_pos rfl]
  cases hrow : s.row id with
  | none =>
      rw [rowChange, hrow] at h
      exact h
  | some r =>
      rw [rowChange, hrow] at h
      dsimp only at h
      split at h
      · simpa [EntityRow.content] using h
      · cases h

theorem vaults_edit [Boxes] {op : EntityEdit} (h : s.edit op = .ok s') :
  s'.vaults = s.vaults
  := by
  have hput : ∀ {vaultId kind id json now nonce},
      s.putRaw vaultId kind id json now nonce = .ok s' → s'.vaults = s.vaults := by
    intro vaultId kind id json now nonce hput
    obtain ⟨v, k, -, -, -, -, hvaults, -⟩ := putRaw_eq_ok hput
    exact hvaults
  cases op with
  | putRaw vaultId kind id json now nonce => exact hput h
  | update T id data now nonce =>
      obtain ⟨r, -, -, h⟩ := update_eq_ok h
      exact hput h
  | delete id now =>
      rcases delete_eq_ok h with ⟨-, rfl⟩ | ⟨r, v, -, -, -, hvaults, -⟩
      · rfl
      · exact hvaults

/-- A local edit of a row leaves a change that waits. -/
theorem isSome_rowChange_edit [Boxes] {op : EntityEdit} (h : s.edit op = .ok s')
    (hedited : s'.row id ≠ s.row id) :
  (s'.rowChange id).isSome
  := by
  have hput : ∀ {vaultId kind id' json now nonce},
      s.putRaw vaultId kind id' json now nonce = .ok s' → (s'.rowChange id).isSome := by
    intro vaultId kind id' json now nonce hput
    obtain ⟨v, k, hget, -, -, -, hvaults, -, -, -, hrow⟩ := putRaw_eq_ok hput
    rw [hrow] at hedited
    split at hedited
    · rename_i hid
      rw [rowChange, hrow, if_pos hid]
      cases hsynced : v.kind.isSynced with
      | true => simp
      | false => simp [isLocal, hvaults, hget, hsynced]
    · exact absurd rfl hedited
  cases op with
  | putRaw vaultId kind id' json now nonce => exact hput h
  | update T id' data now nonce =>
      obtain ⟨r, -, -, h⟩ := update_eq_ok h
      exact hput h
  | delete id' now =>
      rcases delete_eq_ok h with ⟨-, rfl⟩ | ⟨r, v, -, -, -, -, -, -, -, hrow⟩
      · exact absurd rfl hedited
      rw [hrow] at hedited
      rw [rowChange, hrow]
      split at hedited
      · rename_i hid
        rw [if_pos hid]
        split
        · rename_i r' hr'
          split at hr'
          · cases hr'
            simp
          · cases hr'
        · rfl
      · exact absurd rfl hedited

end

end Core.Store

/-! ### Journaled runs -/

/-- When an edit is made. -/
def Core.EntityEdit.now : EntityEdit → DateTime
  | .putRaw _ _ _ _ now _ => now
  | @EntityEdit.update _ _ _ _ now _ => now
  | .delete _ now => now

namespace Core.SyncPhase

/-- Whether a push is under way. -/
def inPush : SyncPhase → Bool
  | .preparing _ _ _ => true
  | .pushing _ _ => true
  | .applying _ _ => true
  | _ => false

/-- The rows of the snapshot that is pushed, from the current chunk on. -/
def snapshot : SyncPhase → List EntityRow
  | .preparing push _ _ => push.chunk ++ push.rest.flatten
  | .pushing push _ => push.chunk ++ push.rest.flatten
  | .applying push _ => push.chunk ++ push.rest.flatten
  | _ => []

/-- The row that the next step is done with: one whose result is applied, or a tombstone that the
server never saw. -/
def settles : SyncPhase → Option Uuid
  | .preparing _ (r :: _) _ => if r.deleted ∧ ¬ r.version > 0 then some r.id else none
  | .applying _ (result :: _) => some result.id
  | _ => none

end Core.SyncPhase

/-- A device with the edits made since the snapshot that is pushed, the times of the last edits, and
the rows of the snapshot that are done with. -/
structure EditedDevice where
  device : SyncDevice
  journal : Journal Uuid RowChange
  editedAt : Uuid → DateTime
  settled : List Uuid

/-- Note what a step does to the edits. -/
def EditedDevice.after (d : EditedDevice) (device : SyncDevice) : SyncStep → EditedDevice
  | .edit op =>
    { d with
      device
      journal := d.journal.record (fun id => device.store.row id ≠ d.device.store.row id)
        device.store.rowChange
      editedAt id := if device.store.row id ≠ d.device.store.row id then op.now else d.editedAt id }
  | .next =>
    match d.device.phase with
    | .idle => { d with device, journal := fun _ => none, settled := [] }
    | phase =>
      match phase.settles with
      | some id =>
        { d with
          device
          journal := d.journal.settle id (fun _ => true)
          settled := id :: d.settled }
      | none => { d with device }
  | _ => { d with device }

/-- The runs of a device, from any store. -/
def editSystem [Boxes] (opts : SyncOptions) : TransitionSystem EditedDevice SyncStep where
  init d := d.device.phase = .idle ∧ d.device.tasks = []
  step d l := (d.device.step opts l).map (fun device => d.after device l)

/-! ### What becomes of an edit -/

/-- The server does not have what was pushed: it confirms a deletion, or refuses the item. -/
def Told (push : Pushing) : PushResult → Prop
  | .ok id _ _ => ∃ r, push.pushed id = some r ∧ r.deleted = true
  | .conflict _ server => server.deleted = true
  | .error _ _ => True

/-- What becomes of an edit of the row that a result is about, when the result is applied. -/
inductive Outcome (policy : ConflictPolicy) (push : Pushing) (s s' : Store) (time : DateTime)
    (c : RowChange) : PushResult → Prop
  /-- It still waits to be pushed. -/
  | waits {result : PushResult} : c ≠ .removed → s'.rowChange result.id = some c →
    Outcome policy push s s' time c result
  /-- It deletes the row, and the server does not have it. -/
  | gone {result : PushResult} : c.Deletes → s'.row result.id = none → Told push result →
    Outcome policy push s s' time c result
  /-- It is what the server acknowledges. -/
  | acknowledged {id : Uuid} {version seq : ℤ} {r : EntityRow} : push.pushed id = some r →
    r.content = c → Outcome policy push s s' time c (.ok id version seq)
  /-- The policy takes a server copy that is newer. -/
  | overruled {id : Uuid} {server : SyncEntity} {loc : EntityRow} : push.pushed id = some loc →
    policy.keepsLocal loc server = false → time < server.updatedAt →
    s.applyRemote server = .ok s' → Outcome policy push s s' time c (.conflict id server)

/-- The next step of the engine loses no edit made since the snapshot, and marks no row as pushed
that is not as it was pushed. -/
structure EditsSurvive (opts : SyncOptions) (d : EditedDevice) (d' : SyncDevice) : Prop where
  result : ∀ push result results c, d.device.phase = .applying push (result :: results) →
    d'.phase ≠ .idle → d.journal result.id = some c →
    Outcome opts.conflict push d.device.store d'.store (d.editedAt result.id) c result
  marked : ∀ push id version seq results r,
    d.device.phase = .applying push (.ok id version seq :: results) → push.pushed id = some r →
    id ∉ d.settled → d.journal id = none → d.device.store.row id = some r
  prepared : ∀ push r todo req c, d.device.phase = .preparing push (r :: todo) req →
    d.journal r.id = some c →
    d'.store.rowChange r.id = some c ∨ c.Deletes ∧ d'.store.row r.id = none

/-! ### When no edit is lost -/

/-- A result does not lose the edit `c` made at `time`. -/
def SparesEdit (policy : ConflictPolicy) (push : Pushing) (s : Store) (time : DateTime)
    (c : RowChange) : PushResult → Prop
  | .ok id _ _ => (∃ r, push.pushed id = some r
      ∧ (r.content = c ∨ r.deleted = true ∧ c.Deletes)) ∨ s.KeepsHere id
  | .conflict id server =>
    match push.pushed id with
    | some loc =>
      if policy.keepsLocal loc server then c ≠ .removed
      else time < server.updatedAt ∨ server.deleted = true ∧ c.Deletes
    | none => c ≠ .removed
  | .error id code => code = "not_found" → ∀ r, push.pushed id = some r → r.deleted = true →
      c.Deletes ∨ s.KeepsHere id

/-- The next step loses no edit: the result it applies spares that of its row, and a tombstone that
the server never saw is still one. -/
def SparesEdits (opts : SyncOptions) (d : EditedDevice) : SyncStep → Prop
  | .next =>
    (∀ push result results c, d.device.phase = .applying push (result :: results) →
      d.journal result.id = some c →
      SparesEdit opts.conflict push d.device.store (d.editedAt result.id) c result)
    ∧ ∀ push r todo req c, d.device.phase = .preparing push (r :: todo) req →
      r.deleted = true → ¬ r.version > 0 → d.journal r.id = some c →
      c.Deletes ∨ d.device.store.KeepsHere r.id
  | _ => True

/-! ### One step -/

section
variable {policy : ConflictPolicy} {push : Pushing} {s s' : Store} {result : PushResult}
  {c : RowChange} {time : DateTime}

/-- A result changes the row it is about and no other. -/
theorem row_applied (h : Store.Applied policy push s result s')
    (hid : ∀ id e, result = .conflict id e → e.id = id) {id : Uuid} (hne : id ≠ result.id) :
  s'.row id = s.row id
  := by
  cases h with
  | marked =>
      rw [Store.row_markPushed]
      exact if_neg hne
  | kept =>
      rw [Store.row_rebaseLocal]
      exact if_neg hne
  | taken _ _ h =>
      rw [Store.row_applyRemote h, hid _ _ rfl]
      exact if_neg hne
  | gone =>
      rw [Store.row_markPushed]
      exact if_neg hne
  | missing =>
      rw [Store.row_rebaseLocal]
      exact if_neg hne
  | strange => rfl
  | refused => rfl

theorem vaults_applied (h : Store.Applied policy push s result s') :
  s'.vaults = s.vaults
  := by
  cases h with
  | marked => exact Store.vaults_markPushed
  | kept => exact Store.vaults_rebaseLocal
  | taken _ _ h => exact Store.vaults_applyRemote h
  | gone => exact Store.vaults_markPushed
  | missing => exact Store.vaults_rebaseLocal
  | strange => rfl
  | refused => rfl

/-- A result that leaves the change of its row as it was. -/
theorem outcome_of_rowChange (h : s'.rowChange result.id = some c) (htold : Told push result) :
  Outcome policy push s s' time c result
  := by
  by_cases hc : c = .removed
  · subst hc
    exact .gone (.inr rfl) (Store.rowChange_removed.mp h) htold
  · exact .waits hc h

/-- A result that spares the edit of its row does not lose it. -/
theorem outcome_of_spares (h : Store.Applied policy push s result s')
    (hid : ∀ id e, result = .conflict id e → e.id = id) (hwaits : s.rowChange result.id = some c)
    (hspares : SparesEdit policy push s time c result) :
  Outcome policy push s s' time c result
  := by
  cases h with
  | @marked id version seq =>
      rcases hspares with ⟨r, hr, hcontent | ⟨hdel, hc⟩⟩ | hhere
      · exact .acknowledged hr hcontent
      · exact .gone hc (Store.row_markPushed_of_deletes hwaits hc) ⟨r, hr, hdel⟩
      · obtain ⟨hsame, hne⟩ := Store.rowChange_markPushed_of_keepsHere hhere
        apply Outcome.waits
        · rintro rfl
          exact hne hwaits
        · exact hsame.trans hwaits
  | @kept id loc server hloc hkeep =>
      rw [SparesEdit, hloc] at hspares
      dsimp only at hspares
      rw [if_pos hkeep] at hspares
      exact .waits hspares (Store.rowChange_rebaseLocal hwaits)
  | @taken id loc server s' hloc hkeep htake =>
      rw [SparesEdit, hloc] at hspares
      dsimp only at hspares
      rw [if_neg (by simp [hkeep])] at hspares
      rcases hspares with hnewer | ⟨hdel, hc⟩
      · exact .overruled hloc hkeep hnewer htake
      · have htold : Told push (.conflict id server) := hdel
        apply Outcome.gone hc _ htold
        rw [Store.row_applyRemote htake, hid _ _ rfl]
        simp [PushResult.id, hdel]
  | @gone id loc hloc hdel =>
      rcases hspares rfl loc hloc hdel with hc | hhere
      · exact .gone hc (Store.row_markPushed_of_deletes hwaits hc) trivial
      · obtain ⟨hsame, -⟩ := Store.rowChange_markPushed_of_keepsHere hhere
        exact outcome_of_rowChange (hsame.trans hwaits) trivial
  | missing => exact outcome_of_rowChange (Store.rowChange_rebaseLocal hwaits) trivial
  | strange hnone =>
      rw [SparesEdit, hnone] at hspares
      exact .waits hspares hwaits
  | refused => exact outcome_of_rowChange hwaits trivial

end

/-! ### Every run -/

/-- The edits are noted as they are, and the other rows of the snapshot are as they were. -/
structure Noted (d : EditedDevice) : Prop where
  kept : d.device.phase.inPush = true → d.journal.Kept d.device.store.rowChange
  fresh : ∀ r ∈ d.device.phase.snapshot, r.id ∉ d.settled → d.journal r.id = none →
    d.device.store.row r.id = some r
  conflicts : ∀ push results, d.device.phase = .applying push results →
    ∀ id e, .conflict id e ∈ results → e.id = id

section
variable [Boxes] {opts : SyncOptions} {p : Uuid} {d : EditedDevice}

omit [Boxes] in
@[simp]
theorem device_after {device : SyncDevice} {l : SyncStep} :
  (d.after device l).device = device
  := by
  cases l with
  | next =>
      rw [EditedDevice.after]
      split
      · rfl
      · split <;> rfl
  | _ => rfl

omit [Boxes] in
theorem after_next (hpush : d.device.phase.inPush = true) {device : SyncDevice} :
  d.after device .next
    = match d.device.phase.settles with
      | some id =>
        { d with
          device
          journal := d.journal.settle id (fun _ => true)
          settled := id :: d.settled }
      | none => { d with device }
  := by
  rw [EditedDevice.after]
  split
  · rename_i hphase
    rw [hphase] at hpush
    cases hpush
  · rfl

omit [Boxes] in
/-- A device that is not in a push has nothing to note. -/
theorem noted_of_idle {device : SyncDevice} {l : SyncStep} (hpush : device.phase.inPush = false) :
  Noted (d.after device l)
  := by
  constructor
  · intro h
    rw [device_after, hpush] at h
    cases h
  · intro r hr
    have hnil : device.phase.snapshot = [] := by
      cases hphase : device.phase <;> rw [hphase] at hpush <;> first | rfl | cases hpush
    rw [device_after, hnil] at hr
    cases hr
  · intro push results hphase
    rw [device_after] at hphase
    rw [hphase] at hpush
    cases hpush

omit [Boxes] in
/-- A step of a push that leaves the store alone keeps the notes, when it brings no new rows. -/
theorem Noted.of_store (h : Noted d) {device : SyncDevice}
    (hpush : d.device.phase.inPush = true) (hstore : device.store = d.device.store)
    (hsnapshot : ∀ r ∈ device.phase.snapshot, r ∈ d.device.phase.snapshot)
    (hconflicts : ∀ push results, device.phase = .applying push results →
      ∀ id e, .conflict id e ∈ results → e.id = id) :
  Noted { d with device }
  := by
  constructor
  · intro _
    dsimp only
    rw [hstore]
    exact h.kept hpush
  · intro r hr hsettled hnone
    dsimp only at hr hsettled hnone ⊢
    rw [hstore]
    exact h.fresh r (hsnapshot r hr) hsettled hnone
  · exact hconflicts

omit [Boxes] in
/-- A step of a push that is done with a row keeps the notes of the others. -/
theorem Noted.settle (h : Noted d) {device : SyncDevice} {id : Uuid}
    (hpush : d.device.phase.inPush = true) (hvaults : device.store.vaults = d.device.store.vaults)
    (hrow : ∀ id', id' ≠ id → device.store.row id' = d.device.store.row id')
    (hsnapshot : ∀ r ∈ device.phase.snapshot, r ∈ d.device.phase.snapshot)
    (hconflicts : ∀ push results, device.phase = .applying push results →
      ∀ id e, .conflict id e ∈ results → e.id = id) :
  Noted
    { d with
      device
      journal := d.journal.settle id (fun _ => true)
      settled := id :: d.settled }
  := by
  constructor
  · intro _
    apply (h.kept hpush).settle
    · intro id' c hne hc
      rw [← hc]
      exact Store.rowChange_congr hvaults (hrow id' hne)
    · intro c _ _ hcov
      cases hcov
  · intro r hr hsettled hnone
    dsimp only at hr hsettled hnone ⊢
    rw [List.mem_cons, not_or] at hsettled
    rw [hrow r.id hsettled.1]
    apply h.fresh r (hsnapshot r hr) hsettled.2
    rw [Journal.settle, if_neg hsettled.1] at hnone
    exact hnone
  · exact hconflicts

omit [Boxes] in
/-- Going on to the next chunk keeps the notes. -/
theorem Noted.nextChunk (h : Noted d) {push : Pushing} (hpush : d.device.phase.inPush = true)
    (hsnapshot : ∀ r ∈ push.rest.flatten, r ∈ d.device.phase.snapshot) :
  Noted { d with device := d.device.nextChunk push }
  := by
  apply h.of_store hpush SyncDevice.store_nextChunk
  · intro r hr
    rw [SyncDevice.nextChunk] at hr
    split at hr
    · rename_i chunk rest hrest
      apply hsnapshot
      rw [hrest, List.flatten_cons]
      exact hr
    · split at hr <;> cases hr
  · intro push' results hphase
    rw [SyncDevice.nextChunk] at hphase
    split at hphase
    · cases hphase
    · split at hphase <;> cases hphase

omit [Boxes] in
/-- A snapshot notes nothing. -/
theorem noted_startPush {tasks : List SyncTask} {vaultId : Uuid} {again : ℕ} :
  Noted
    { d with
      device := { d.device with tasks }.startPush opts vaultId again
      journal := fun _ => none
      settled := [] }
  := by
  constructor
  · intro _ id c hc
    cases hc
  · intro r hr _ _
    rw [SyncDevice.store_startPush]
    have hmem : r ∈ d.device.store.dirtyRows vaultId := by
      rw [SyncDevice.startPush, SyncDevice.nextChunk] at hr
      dsimp only at hr
      split at hr
      · rename_i chunk rest hrest
        dsimp only [SyncPhase.snapshot] at hr
        rw [← List.flatten_cons, ← hrest, flatten_toChunks] at hr
        exact (List.mem_filter.mp hr).1
      · cases hr
    exact (Store.mem_dirtyRows.mp hmem).1
  · intro push results hphase
    rw [SyncDevice.startPush, SyncDevice.nextChunk] at hphase
    dsimp only at hphase
    split at hphase <;> cases hphase

omit [Boxes] in
/-- The engine keeps the notes. -/
theorem noted_advance (h : Noted d) {device : SyncDevice}
    (hstep : d.device.advance opts = some device) :
  Noted (d.after device .next)
  := by
  rw [SyncDevice.advance] at hstep
  split at hstep
  · rename_i hphase
    split at hstep
    · cases hstep
    · cases hstep
      rw [EditedDevice.after, hphase]
      exact noted_startPush
    · cases hstep
      apply noted_of_idle
      rw [SyncDevice.startPull]
      split
      · rfl
      · split <;> rfl
  · rename_i push r todo req hphase
    cases hstep
    have hpush : d.device.phase.inPush = true := by rw [hphase]; rfl
    rw [after_next hpush, hphase, SyncPhase.settles, SyncDevice.prepare]
    by_cases hdel : r.deleted = true
    · by_cases hversion : r.version > 0
      · have hsent : ¬ (r.deleted = true ∧ ¬ r.version > 0) := fun h => h.2 hversion
        rw [if_neg hsent, if_pos hdel, if_pos hversion]
        dsimp only
        apply h.of_store hpush
        · rfl
        · intro r' hr'
          rw [hphase]
          exact hr'
        · intro push' results hphase'
          cases hphase'
      · have hunseen : r.deleted = true ∧ ¬ r.version > 0 := ⟨hdel, hversion⟩
        rw [if_pos hunseen, if_pos hdel, if_neg hversion]
        dsimp only
        apply h.settle hpush Store.vaults_markPushed
        · intro id' hne
          rw [Store.row_markPushed, if_neg hne]
        · intro r' hr'
          rw [hphase]
          exact hr'
        · intro push' results hphase'
          cases hphase'
    · have hsent : ¬ (r.deleted = true ∧ ¬ r.version > 0) := fun h => hdel h.1
      rw [if_neg hsent, if_neg hdel]
      dsimp only
      apply h.of_store hpush
      · rfl
      · intro r' hr'
        rw [hphase]
        exact hr'
      · intro push' results hphase'
        cases hphase'
  · rename_i push req hphase
    have hpush : d.device.phase.inPush = true := by rw [hphase]; rfl
    have hsettles : d.device.phase.settles = none := by rw [hphase]; rfl
    rw [after_next hpush, hsettles]
    split at hstep
    · cases hstep
      apply h.nextChunk hpush
      intro r hr
      rw [hphase]
      exact List.mem_append_right _ hr
    · cases hstep
      apply h.of_store hpush
      · rfl
      · intro r hr
        rw [hphase]
        exact hr
      · intro push' results hphase'
        cases hphase'
  · rename_i push result results hphase
    cases hstep
    have hpush : d.device.phase.inPush = true := by rw [hphase]; rfl
    cases hres : d.device.store.applyResult opts.conflict push d.device.report result with
    | error e =>
        apply noted_of_idle
        rw [SyncDevice.apply, hres]
        rfl
    | ok res =>
        obtain ⟨store, push', report⟩ := res
        obtain ⟨happlied, hpush'⟩ := Store.applyResult_eq_ok hres
        have hconflicts := h.conflicts push _ hphase
        rw [after_next hpush, hphase, SyncPhase.settles, SyncDevice.apply, hres]
        apply h.settle hpush (vaults_applied happlied)
        · intro id' hne
          apply row_applied happlied _ hne
          intro id e heq
          exact hconflicts id e (heq ▸ List.mem_cons_self)
        · intro r hr
          rw [hphase]
          rw [hpush'] at hr
          exact hr
        · intro push'' results' hphase' id e hmem
          cases hphase'
          exact hconflicts id e (List.mem_cons_of_mem _ hmem)
  · rename_i push hphase
    cases hstep
    have hpush : d.device.phase.inPush = true := by rw [hphase]; rfl
    have hsettles : d.device.phase.settles = none := by rw [hphase]; rfl
    rw [after_next hpush, hsettles]
    apply h.nextChunk hpush
    intro r hr
    rw [hphase]
    exact List.mem_append_right _ hr
  · rename_i pull e entities resp hphase
    cases hstep
    apply noted_of_idle
    rw [SyncDevice.mirror]
    split
    · rfl
    · split <;> rfl
  · rename_i pull resp hphase
    cases hstep
    apply noted_of_idle
    rw [SyncDevice.finishPage]
    dsimp only
    split <;> rfl
  · rename_i purge result results hphase
    cases hstep
    apply noted_of_idle
    cases result with
    | ok id version seq => rfl
    | conflict id server => rfl
    | error id code =>
        rw [SyncDevice.unpublish]
        split <;> rfl
  · cases hstep
    apply noted_of_idle
    rw [SyncDevice.nextPurge]
    split
    · rfl
    · split <;> rfl
  all_goals cases hstep

/-- Every step of a device with an honest server keeps the notes. -/
theorem noted_step (h : Noted d) {l : SyncStep} (hhonest : Honest opts p d.device l)
    {d' : EditedDevice} (hstep : (editSystem opts).step d l = some d') :
  Noted d'
  := by
  obtain ⟨device, hdevice, rfl⟩ := Option.map_eq_some_iff.mp hstep
  cases l with
  | edit op =>
      obtain ⟨s, hs, rfl⟩ := Option.map_eq_some_iff.mp hdevice
      rw [toOption_eq_some] at hs
      constructor
      · intro hpush
        apply (h.kept hpush).record
        intro id hid
        apply Store.rowChange_congr (Store.vaults_edit hs)
        exact not_not.mp hid
      · intro r hr hsettled hnone
        dsimp only [EditedDevice.after, Journal.record] at hsettled hnone ⊢
        split at hnone
        · rename_i hedited
          have hsome := Store.isSome_rowChange_edit hs hedited
          rw [hnone] at hsome
          cases hsome
        · rename_i hsame
          rw [not_not.mp hsame]
          exact h.fresh r hr hsettled hnone
      · exact h.conflicts
  | start command =>
      rw [SyncDevice.step] at hdevice
      split at hdevice
      · rename_i hphase htasks
        cases hdevice
        apply noted_of_idle
        cases command with
        | resyncCredentials =>
            rw [SyncDevice.begin]
            split
            · rw [hphase]
              rfl
            · dsimp only
              rw [hphase]
              rfl
        | purgeCredentials =>
            rw [SyncDevice.begin]
            split
            · rw [hphase]
              rfl
            · rw [SyncDevice.nextPurge]
              split
              · rfl
              · split <;> rfl
        | _ =>
            rw [SyncDevice.begin, hphase]
            rfl
      · cases hdevice
  | next => exact noted_advance h hdevice
  | answered results =>
      obtain ⟨settings, auth, now, db, db', req, hreq, hpushed⟩ := hhonest
      rw [SyncDevice.step] at hdevice
      split at hdevice
      · rename_i push req' hphase
        cases hdevice
        apply h.of_store (by rw [hphase]; rfl)
        · rfl
        · intro r hr
          rw [hphase]
          exact hr
        · intro push' results' hphase' id e hmem
          cases hphase'
          exact Server.Db.id_of_conflict hpushed hmem
      · cases hdevice
        exact noted_of_idle rfl
      · cases hdevice
  | listed privateKey remote nonce =>
      rw [SyncDevice.step] at hdevice
      split at hdevice
      · cases hdevice
        apply noted_of_idle
        rw [SyncDevice.refreshed]
        split <;> rfl
      · cases hdevice
  | page resp =>
      rw [SyncDevice.step] at hdevice
      split at hdevice
      · cases hdevice
        exact noted_of_idle rfl
      · cases hdevice
  | abort =>
      cases hdevice
      exact noted_of_idle rfl

/-- In every run of a device with an honest server whose steps spare the edits made since the
snapshot that is pushed, no step of the engine loses one, or marks a row as pushed that is not as it
was pushed. -/
theorem editsSurvive_of_reaches
    (h : (editSystem opts).Reaches
      (fun d l => Honest opts p d.device l ∧ SparesEdits opts d l) d)
    (hspares : SparesEdits opts d .next) {device : SyncDevice}
    (hstep : d.device.step opts .next = some device) :
  EditsSurvive opts d device
  := by
  have hnoted : Noted d := by
    apply h.invariant
    · rintro d ⟨hphase, -⟩
      constructor
      · intro hpush
        rw [hphase] at hpush
        cases hpush
      · intro r hr
        rw [hphase] at hr
        cases hr
      · intro push results hphase'
        rw [hphase] at hphase'
        cases hphase'
    · intro d l d' hd hl hstep
      exact noted_step hd hl.1 hstep
  constructor
  · intro push result results c hphase hgoes hc
    rw [SyncDevice.step, SyncDevice.advance, hphase] at hstep
    cases hstep
    have hwaits := hnoted.kept (by rw [hphase]; rfl) _ _ hc
    have hconflicts := hnoted.conflicts push _ hphase
    cases hres : d.device.store.applyResult opts.conflict push d.device.report result with
    | error e =>
        rw [SyncDevice.apply, hres] at hgoes
        exact absurd rfl hgoes
    | ok res =>
        obtain ⟨store, push', report⟩ := res
        rw [SyncDevice.apply, hres]
        apply outcome_of_spares (Store.applyResult_eq_ok hres).1 _ hwaits
        · exact hspares.1 push result results c hphase hc
        · intro id e heq
          exact hconflicts id e (heq ▸ List.mem_cons_self)
  · intro push id version seq results r hphase hr hsettled hnone
    obtain ⟨hmem, rfl⟩ := Pushing.pushed_eq_some hr
    apply hnoted.fresh r _ hsettled hnone
    rw [hphase]
    exact List.mem_append_left _ hmem
  · intro push r todo req c hphase hc
    rw [SyncDevice.step, SyncDevice.advance, hphase] at hstep
    cases hstep
    have hwaits := hnoted.kept (by rw [hphase]; rfl) _ _ hc
    rw [SyncDevice.prepare]
    split
    · rename_i hdel
      split
      · exact .inl hwaits
      · rename_i hversion
        rcases hspares.2 push r todo req c hphase hdel hversion hc with hdeletes | hhere
        · exact .inr ⟨hdeletes, Store.row_markPushed_of_deletes hwaits hdeletes⟩
        · exact .inl ((Store.rowChange_markPushed_of_keepsHere hhere).1.trans hwaits)
    · exact .inl hwaits

end

/-! ### Deleting a host while it is pushed -/

open Symbolic

/-- The options of a device that resolves conflicts by a policy. -/
def resolving (conflict : ConflictPolicy) : SyncOptions := ⟨conflict, 500, true⟩

/-- A device with an edited host, known to the server under version one. -/
def editedHost : EditedDevice where
  device :=
    { store :=
        { vaults := .single ⟨1, .personal, "Personal", none, .manager, some (Vector.replicate 32 0), 1, 1,
            false, 0, false⟩
          entities := .single ⟨7, "host", 1, 1, 1, false, 1, "", 0, true⟩
          history := .empty, sessionLogs := .empty, account := none, files _ := none }
      phase := .idle, tasks := [], report := ⟨0, 0, 0, []⟩ }
  journal _ := none
  editedAt _ := 0
  settled := []

/-- The host on the server, under a version. -/
def remoteHost (version : ℤ) : SyncEntity :=
  ⟨none, 7, "host", 1, version, version, false, 1, "AAAA", 0, some 9⟩

/-- A server that has the host under a version. -/
def hostServer (version : ℤ) : Server.Db where
  users := .single ⟨1, "user", none, none, false, false, 0, 0⟩
  vaults := .single ⟨1, .personal, none, "Personal", 1, 2, 0, false, true, false⟩
  vaultMembers := .single ⟨1, 1, .manager, some "AAAA", 1⟩
  teamMembers := .empty
  teamPolicies := .empty
  entities := ⟨[remoteHost version], List.nodup_singleton _⟩
  historyEntries := .empty
  sessionLogs := .empty
  bridgeScope _ _ := false
  directModes _ _ _ := none

/-- The device pushes the host, the user deletes it meanwhile, and the answer arrives. -/
def deleteInFlight (result : PushResult) : List SyncStep :=
  [.start (.syncVault 1), .next, .next, .next, .edit (.delete 7 5), .answered [result]]

/-- The server answers the push of the host. -/
theorem push_hostServer :
  (∃ db, Server.Db.push ⟨1000, 0, 0⟩ ⟨1, 2, none⟩ 5 (hostServer 1)
      ⟨[⟨none, 7, "host", 1, some 1, 1, "", 0⟩], []⟩ = .ok ([.ok 7 2 3], db))
    ∧ ∃ db, Server.Db.push ⟨1000, 0, 0⟩ ⟨1, 2, none⟩ 5 (hostServer 2)
      ⟨[⟨none, 7, "host", 1, some 1, 1, "", 0⟩], []⟩ = .ok ([.conflict 7 (remoteHost 2)], db)
  := ⟨⟨_, rfl⟩, ⟨_, rfl⟩⟩

/-- The steps up to the answer lose no edit. -/
theorem meets_deleteInFlight (policy : ConflictPolicy) {version : ℤ} {result : PushResult}
    (h : ∃ db, Server.Db.push ⟨1000, 0, 0⟩ ⟨1, 2, none⟩ 5 (hostServer version)
      ⟨[⟨none, 7, "host", 1, some 1, 1, "", 0⟩], []⟩ = .ok ([result], db)) :
  (editSystem (resolving policy)).Meets
    (fun d l => Honest (resolving policy) 1 d.device l ∧ SparesEdits (resolving policy) d l)
    editedHost (deleteInFlight result)
  := by
  obtain ⟨db, hdb⟩ := h
  refine ⟨⟨trivial, trivial⟩, fun d₁ h₁ => ?_⟩
  obtain rfl := Option.some.inj h₁
  refine ⟨⟨trivial, fun _ _ _ _ h => (by cases h), fun _ _ _ _ _ h => (by cases h)⟩,
    fun d₂ h₂ => ?_⟩
  obtain rfl := Option.some.inj h₂
  refine ⟨⟨trivial, fun _ _ _ _ h => (by cases h), fun _ _ _ _ _ _ _ _ h => (by cases h)⟩,
    fun d₃ h₃ => ?_⟩
  obtain rfl := Option.some.inj h₃
  refine ⟨⟨trivial, fun _ _ _ _ h => (by cases h), fun _ _ _ _ _ h => (by cases h)⟩,
    fun d₄ h₄ => ?_⟩
  obtain rfl := Option.some.inj h₄
  refine ⟨⟨trivial, trivial⟩, fun d₅ h₅ => ?_⟩
  obtain rfl := Option.some.inj h₅
  exact ⟨⟨⟨_, _, _, _, _, _, rfl, hdb⟩, trivial⟩, fun _ _ => trivial⟩

/-- The device once the answer has arrived. -/
def answeredDeletion (policy : ConflictPolicy) (result : PushResult) : EditedDevice :=
  ((editSystem (resolving policy)).run editedHost (deleteInFlight result)).get rfl

theorem reaches_answeredDeletion (policy : ConflictPolicy) {version : ℤ} {result : PushResult}
    (h : ∃ db, Server.Db.push ⟨1000, 0, 0⟩ ⟨1, 2, none⟩ 5 (hostServer version)
      ⟨[⟨none, 7, "host", 1, some 1, 1, "", 0⟩], []⟩ = .ok ([result], db)) :
  (editSystem (resolving policy)).Reaches
    (fun d l => Honest (resolving policy) 1 d.device l ∧ SparesEdits (resolving policy) d l)
    (answeredDeletion policy result)
  := by
  have hinit : (editSystem (resolving policy)).init editedHost := ⟨rfl, rfl⟩
  apply TransitionSystem.Reaches.run (.init hinit) (meets_deleteInFlight policy h)
  exact (Option.some_get _).symm

/-- The deletion survives a conflict that is resolved for the local row. -/
theorem editsSurvive_keptDeletion :
  ∃ device, (answeredDeletion .localWins (.conflict 7 (remoteHost 2))).device.step
      (resolving .localWins) .next = some device
    ∧ EditsSurvive (resolving .localWins)
        (answeredDeletion .localWins (.conflict 7 (remoteHost 2))) device
  := by
  obtain ⟨device, hdevice⟩ : ∃ device, (answeredDeletion .localWins
      (.conflict 7 (remoteHost 2))).device.step (resolving .localWins) .next = some device := ⟨_, rfl⟩
  use device, hdevice
  apply editsSurvive_of_reaches (reaches_answeredDeletion .localWins push_hostServer.2) _ hdevice
  constructor
  · intro push result results c hphase hc
    cases hphase
    obtain rfl : RowChange.tombstone = c := Option.some.inj hc
    change RowChange.tombstone ≠ .removed
    simp
  · intro push r todo req c hphase
    cases hphase

/-- The acknowledgement of the host erases the tombstone that the server has not received. -/
theorem not_editsSurvive_lostDeletion :
  ¬ ∀ opts p d, (editSystem opts).Reaches (fun d l => Honest opts p d.device l) d →
    ∀ device, d.device.step opts .next = some device → EditsSurvive opts d device
  := by
  intro h
  obtain ⟨device, hdevice, hphase, hrow⟩ : ∃ device,
      (answeredDeletion .newestWins (.ok 7 2 3)).device.step (resolving .newestWins) .next
        = some device
      ∧ device.phase ≠ .idle ∧ device.store.row 7 = none := ⟨_, rfl, nofun, rfl⟩
  have hreach := (reaches_answeredDeletion .newestWins push_hostServer.1).mono (fun _ _ hG => hG.1)
  have hsurvive := h (resolving .newestWins) 1 _ hreach device hdevice
  have houtcome := hsurvive.result _ _ _ .tombstone rfl hphase rfl
  cases houtcome with
  | waits _ hwaits =>
      have hremoved := Store.rowChange_removed.mpr hrow
      exact absurd (hremoved.symm.trans hwaits) (by simp)
  | gone _ _ htold =>
      obtain ⟨r, hr, hdel⟩ := htold
      cases hr
      cases hdel
  | acknowledged hr hcontent =>
      cases hr
      cases hcontent

end Termoso
