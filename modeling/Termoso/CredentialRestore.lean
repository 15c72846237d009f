import Termoso.InFlightEdits

/-!
# Taking credentials off the server, and bringing them back

A purge asks the server to delete the credentials of the personal vault and keeps the rows, ready to
be pushed again; a later pass over the vault pushes them and pulls the vault from the start.  Here
both run against one server, from the request to the answer, while other devices may write to the
server between two requests of the purge.

The purge leaves out the rows that the server never acknowledged.  The server may have them all the
same, when the answer to their push was lost.
-/

namespace Termoso

open Core

/-! ### A device and its server -/

/-- What is around a device: the server's settings, who the device is, the time of each request, and
what other devices write before it. -/
structure Net where
  settings : Server.Settings
  auth : Server.Auth
  now : ℕ → DateTime
  others : ℕ → Server.Db → Server.Db
  privateKey : KeyPair
  nonce : ℕ → Uuid → Nonce

/-- The store of a device, the database of the server, and the number of requests so far. -/
structure Online where
  store : Store
  db : Server.Db
  asked : ℕ

/-- Errors of a pass. -/
inductive SyncError
  | core (e : CoreError)
  | api (e : Server.Error)
  /-- The server has not come to the end of its pages. -/
  | unfinished

def SyncError.ofCore {α : Type} (x : Except CoreError α) : Except SyncError α := x.mapError .core

/-- What a purge has to try again, and how many rows the server had. -/
structure Purged where
  retry : List EntityRow
  purged : ℕ

namespace Online

section
variable [Boxes] (net : Net)

/-- The database when the next request arrives. -/
def dbNow (o : Online) : Server.Db := net.others o.asked o.db

/-- Send a push. -/
def syncPush (o : Online) (req : PushRequest) : Except SyncError (List PushResult × Online) :=
  match Server.Db.push net.settings net.auth (net.now o.asked) (o.dbNow net) req with
  | .ok (results, db) => .ok (results, { o with db, asked := o.asked + 1 })
  | .error e => .error (.api e)

/-- Ask for a page. -/
def syncPull (o : Online) (req : PullRequest) : PullResponse × Online :=
  (Server.Db.pull (o.dbNow net) net.auth req, { o with db := o.dbNow net, asked := o.asked + 1 })

/-! ### Purging -/

/-- Apply one result of a purge. -/
def purgeResult (st : Store × Purged) : PushResult → Except CoreError (Store × Purged)
  | .ok id version seq =>
    .ok (st.1.rebaseLocal id version seq, { st.2 with purged := st.2.purged + 1 })
  | .conflict id server =>
    let store := st.1.rebaseLocal id server.version server.seq
    .ok (store, { st.2 with retry := st.2.retry ++ (store.row id).toList })
  | .error id code =>
    if code = "not_found" then .ok (st.1.rebaseLocal id 0 0, st.2)
    else .error (.invalid s!"purge {id}: {code}")

/-- Delete the rows of a chunk on the server. -/
def purgeChunk (st : Online × Purged) (chunk : List EntityRow) :
    Except SyncError (Online × Purged) := do
  let (results, o) ← st.1.syncPush net ⟨[], chunk.map EntityRow.toDelete⟩
  let (store, purged) ← SyncError.ofCore (results.foldlM purgeResult (o.store, st.2))
  return ({ o with store }, purged)

/-- Delete rows on the server, and try again those that changed there, some times. -/
def purgeRounds (opts : SyncOptions) : ℕ → Online → List EntityRow → ℕ →
    Except SyncError (ℕ × Online)
  | 0, o, pending, purged =>
    if pending = [] then .ok (purged, o)
    else .error (.core (.invalid "credentials kept changing on the server while purging"))
  | rounds + 1, o, pending, purged =>
    if pending = [] then .ok (purged, o)
    else do
      let (o, st) ← (pending.toChunks opts.size).foldlM (purgeChunk net) (o, ⟨[], purged⟩)
      o.purgeRounds opts rounds st.retry st.purged

/-- Take the credentials of the personal vault off the server, while keeping the local rows. -/
def purgeCredentials (opts : SyncOptions) (o : Online) : Except SyncError (ℕ × Online) :=
  match o.store.personalVault.filter LocalVault.unlocked with
  | none => .ok (0, o)
  | some v => o.purgeRounds net opts 3 (SyncDevice.purgeable o.store v.id) 0

/-! ### Pushing -/

/-- Put a row into a request. A tombstone that the server never saw goes at once. -/
def prepareRow (st : Store × PushRequest) (r : EntityRow) : Store × PushRequest :=
  if r.deleted then
    if r.version > 0 then (st.1, { st.2 with deletes := st.2.deletes ++ [r.toDelete] })
    else (st.1.markPushed r.id 0 0, st.2)
  else (st.1, { st.2 with changes := st.2.changes ++ [r.toChange] })

/-- Apply one result of a push. -/
def pushResult (policy : ConflictPolicy) (st : Store × Pushing × SyncReport) (result : PushResult) :
    Except CoreError (Store × Pushing × SyncReport) :=
  st.1.applyResult policy st.2.1 st.2.2 result

/-- Push the rows of a chunk. -/
def pushChunk (opts : SyncOptions) (st : Online × Pushing × SyncReport) (chunk : List EntityRow) :
    Except SyncError (Online × Pushing × SyncReport) := do
  let (store, req) := chunk.foldl prepareRow (st.1.store, ⟨[], []⟩)
  let o := { st.1 with store }
  if req.changes = [] ∧ req.deletes = [] then return (o, st.2)
  let (results, o) ← o.syncPush net req
  let (store, push, report) ←
    SyncError.ofCore (results.foldlM (pushResult opts.conflict)
      (o.store, { st.2.1 with chunk }, st.2.2))
  return ({ o with store }, push, report)

/-- Mirror the vault list of the server. -/
def refreshVaults (o : Online) : Except SyncError Online :=
  let remote := Server.Db.vaultList (o.dbNow net) net.auth.userId
  let script := applyVaultList net.privateKey remote net.nonce
  (SyncError.ofCore (script.result o.store)).map (fun _ =>
    { store := script.final o.store, db := o.dbNow net, asked := o.asked + 1 })

/-- Push the rows of a vault that have local changes. Reports whether rows should be pushed again.
-/
def pushEntities (opts : SyncOptions) (o : Online) (vaultId : Uuid) (report : SyncReport) :
    Except SyncError (Bool × Online × SyncReport) := do
  let localVault := opts.localCredentialsVault o.store
  let rows := (o.store.dirtyRows vaultId).filter (fun r => !r.keepsLocal localVault)
  let (o, push, report) ← (rows.toChunks opts.size).foldlM (pushChunk net opts)
    (o, ⟨vaultId, 0, [], [], false, false⟩, report)
  let o ← if push.staleKey then o.refreshVaults net else .ok o
  return (push.retry, o, report)

/-- Push a vault, again while conflicts were resolved for the local side, some times. -/
def syncVault (opts : SyncOptions) (vaultId : Uuid) : ℕ → Online → SyncReport →
    Except SyncError (Online × SyncReport)
  | 0, o, report => .ok (o, report)
  | rounds + 1, o, report => do
    let (again, o, report) ← o.pushEntities net opts vaultId report
    if again then o.syncVault opts vaultId rounds report else return (o, report)

/-! ### Pulling -/

/-- Apply one entity of a page. The credentials of the local vault are skipped. -/
def pullResult (opts : SyncOptions) (localVault : Option Uuid) (st : Store × SyncReport)
    (e : SyncEntity) : Except CoreError (Store × SyncReport) :=
  if localVault = some e.vaultId ∧ isCredentialKind e.kind = true then .ok st
  else (st.1.applyPulled opts.conflict e).map (fun (store, changed) =>
    (store, { st.2 with pulled := st.2.pulled + if changed then 1 else 0 }))

/-- Pull from cursors until the server has nothing more, in some pages at most. -/
def pullPages (opts : SyncOptions) (localVault : Option Uuid) : ℕ → Online → Cursors → SyncReport →
    Except SyncError (Online × SyncReport)
  | 0, _, _, _ => .error .unfinished
  | fuel + 1, o, cursors, report => do
    let (resp, o) := o.syncPull net ⟨cursors, some opts.size⟩
    let (store, report) ←
      SyncError.ofCore (resp.entities.foldlM (pullResult opts localVault) (o.store, report))
    let (store, cursors) := store.saveCursors cursors resp.cursors.rows
    let o := { o with store }
    if resp.hasMore then o.pullPages opts localVault fuel cursors report else return (o, report)

/-- Pull a vault. -/
def pullEntities (opts : SyncOptions) (fuel : ℕ) (o : Online) (vaultId : Uuid)
    (report : SyncReport) : Except SyncError (Online × SyncReport) := do
  let cursors ← SyncError.ofCore (o.store.readCursors .empty [vaultId])
  o.pullPages net opts (opts.localCredentialsVault o.store) fuel cursors report

/-- Push the personal vault, and pull it from the start. -/
def resyncCredentials (opts : SyncOptions) (fuel : ℕ) (o : Online) :
    Except SyncError (Online × SyncReport) :=
  match o.store.personalVault.filter LocalVault.unlocked with
  | none => .ok (o, ⟨0, 0, 0, []⟩)
  | some v => do
    let o := { o with store := o.store.setVaultCursor v.id 0 }
    let (o, report) ← o.syncVault net opts v.id 3 ⟨0, 0, 0, []⟩
    o.pullEntities net opts fuel v.id report

end

end Online

/-! ### What other devices may do -/

/-- The server numbers the versions of its rows from one on. -/
def Numbered (db : Server.Db) : Prop := ∀ id e, db.entities.get? id = some e → 1 ≤ e.version

/-- The other devices bring back no row that is deleted, and make none under an identifier of this
device. -/
structure Net.Respects (net : Net) (held : Uuid → Prop) : Prop where
  deleted : ∀ n db id e, db.entities.get? id = some e → e.deleted = true →
    (net.others n db).entities.get? id = some e
  absent : ∀ n db id, held id → db.entities.get? id = none →
    (net.others n db).entities.get? id = none
  present : ∀ n db id, (db.entities.get? id).isSome → ((net.others n db).entities.get? id).isSome
  numbered : ∀ n db, Numbered db → Numbered (net.others n db)

/-- A database after another one in which deleted rows stay deleted, and the identifiers `held` stay
unused. -/
structure Follows (held : Uuid → Prop) (db db' : Server.Db) : Prop where
  deleted : ∀ id e, db.entities.get? id = some e → e.deleted = true →
    db'.entities.get? id = some e
  absent : ∀ id, held id → db.entities.get? id = none → db'.entities.get? id = none
  present : ∀ id, (db.entities.get? id).isSome → (db'.entities.get? id).isSome
  numbered : Numbered db → Numbered db'

section
variable {held : Uuid → Prop} {db db' db'' : Server.Db}

theorem Follows.refl : Follows held db db := ⟨fun _ _ h _ => h, fun _ _ h => h, fun _ h => h, id⟩

theorem Follows.trans (h : Follows held db db') (h' : Follows held db' db'') :
  Follows held db db''
  := ⟨fun id e he hdel => h'.deleted id e (h.deleted id e he hdel) hdel,
    fun id hid hnone => h'.absent id hid (h.absent id hid hnone),
    fun id hsome => h'.present id (h.present id hsome), fun hnum => h'.numbered (h.numbered hnum)⟩

theorem Net.Respects.follows {net : Net} (h : net.Respects held) (o : Online) :
  Follows held o.db (o.dbNow net)
  := ⟨h.deleted _ _, h.absent _ _, h.present _ _, h.numbered _ _⟩

/-- A delete brings nothing back. -/
theorem follows_pushDelete (held : Uuid → Prop) {access : Uuid → Option Server.Access}
    {acl : Uuid → Uuid → Option String} {deviceId : Uuid} {now : DateTime} {d : EntityDelete}
    {r : PushResult} (h : Server.Db.pushDelete access acl deviceId now db d = .ok (r, db')) :
  Follows held db db'
  := by
  rcases Server.Db.pushDelete_eq_ok h with ⟨rfl, -⟩ | ⟨rfl, -⟩ | ⟨rfl, -⟩ |
    ⟨e, e₀, -, hwrote, hget, hid, -, -, hlive, -, hversion⟩
  · exact .refl
  · exact .refl
  · exact .refl
  · constructor
    · intro id e' he' hdel
      rw [hwrote.entities, if_neg ?_]
      · exact he'
      · rintro rfl
        rw [hid, hget] at he'
        cases he'
        rw [hlive] at hdel
        cases hdel
    · intro id _ hnone
      rw [hwrote.entities, if_neg ?_]
      · exact hnone
      · rintro rfl
        rw [hid, hget] at hnone
        cases hnone
    · intro id hsome
      rw [hwrote.entities]
      split
      · rfl
      · exact hsome
    · intro hnum id e' he'
      rw [hwrote.entities] at he'
      split at he'
      · cases he'
        have := hnum _ _ hget
        omega
      · exact hnum id e' he'

end

/-! ### Rows taken off the server -/

/-- A row with another version, and local changes. -/
def Core.EntityRow.rebased (version seq : ℤ) (r : EntityRow) : EntityRow :=
  { r with version, seq, dirty := true }

/-- A row is there, as it was but for its version. -/
def Kept (s : Store) (r : EntityRow) : Prop :=
  ∃ version seq dirty, s.row r.id = some { r with version, seq, dirty }

/-- The server has no live copy of a row, and the version is that of its copy. -/
def Withdrawn (db : Server.Db) (id : Uuid) (version : ℤ) : Prop :=
  (db.entities.get? id).elim (version = 0) (fun e => version = e.version ∧ e.deleted = true)

/-- A row is off the server, and ready to be pushed again. -/
def Off (o : Online) (r : EntityRow) : Prop :=
  ∃ version seq, o.store.row r.id = some (r.rebased version seq) ∧ Withdrawn o.db r.id version

theorem Withdrawn.follows {held : Uuid → Prop} {db db' : Server.Db} {id : Uuid} {version : ℤ}
    (h : Withdrawn db id version) (hheld : held id) (hfollows : Follows held db db') :
  Withdrawn db' id version
  := by
  rw [Withdrawn] at h ⊢
  cases hget : db.entities.get? id with
  | none =>
      rw [hget] at h
      rw [hfollows.absent id hheld hget]
      exact h
  | some e =>
      rw [hget] at h
      rw [hfollows.deleted id e hget h.2]
      exact h

theorem Off.kept {o : Online} {r : EntityRow} (h : Off o r) :
  Kept o.store r
  := by
  obtain ⟨version, seq, hrow, -⟩ := h
  exact ⟨version, seq, true, hrow⟩

theorem Kept.of_rebased {s s' : Store} {r : EntityRow} {version seq : ℤ} (h : Kept s r)
    (hrow : s'.row r.id = (s.row r.id).map (EntityRow.rebased version seq)) :
  s'.row r.id = some (r.rebased version seq)
  := by
  obtain ⟨v, q, dirty, hr⟩ := h
  rw [hrow, hr]
  rfl

/-! ### One purge -/

namespace Online

/-- What a result of a purge has done to the store. -/
def Rebases (s s' : Store) (retry : List EntityRow) : PushResult → Prop
  | .ok id version seq => s'.row id = (s.row id).map (EntityRow.rebased version seq)
  | .conflict id server =>
    s'.row id = (s.row id).map (EntityRow.rebased server.version server.seq)
      ∧ ((s.row id).isSome → id ∈ retry.map EntityRow.id)
  | .error id code => code = "not_found" ∧ s'.row id = (s.row id).map (EntityRow.rebased 0 0)

theorem row_rebased {s : Store} {id id' : Uuid} {version seq : ℤ} :
  (s.rebaseLocal id version seq).row id'
    = if id' = id then (s.row id).map (EntityRow.rebased version seq) else s.row id'
  := Store.row_rebaseLocal

/-- A result of a purge rebases its row, and perhaps has it tried again. -/
theorem purgeResult_eq_ok {st st' : Store × Purged} {result : PushResult}
    (h : purgeResult st result = .ok st') :
  st'.1.vaults = st.1.vaults ∧ (∀ id, id ≠ result.id → st'.1.row id = st.1.row id)
    ∧ Rebases st.1 st'.1 st'.2.retry result
    ∧ ∃ more, st'.2.retry = st.2.retry ++ more
      ∧ (more.map EntityRow.id).Sublist [result.id]
  := by
  cases result with
  | ok id version seq =>
      cases h
      refine ⟨rfl, fun id' hne => ?_, ?_, [], by simp, by simp⟩
      · exact row_rebased.trans (if_neg hne)
      · exact row_rebased.trans (if_pos rfl)
  | conflict id server =>
      cases h
      have hrow : (st.1.rebaseLocal id server.version server.seq).row id
          = (st.1.row id).map (EntityRow.rebased server.version server.seq) :=
        row_rebased.trans (if_pos rfl)
      refine ⟨rfl, fun id' hne => ?_, ⟨hrow, ?_⟩, _, rfl, ?_⟩
      · exact row_rebased.trans (if_neg hne)
      · intro hsome
        obtain ⟨r, hr⟩ := Option.isSome_iff_exists.mp hsome
        dsimp only
        rw [hrow, hr, List.map_append, List.mem_append]
        exact .inr (List.mem_singleton.mpr (Store.id_of_row hr).symm)
      · rw [hrow]
        cases hr : st.1.row id with
        | none => simp
        | some r =>
            have hid : r.id = id := Store.id_of_row hr
            simp [EntityRow.rebased, hid, PushResult.id]
  | error id code =>
      rw [purgeResult] at h
      split at h
      · rename_i hcode
        cases h
        refine ⟨rfl, fun id' hne => ?_, ⟨hcode, ?_⟩, [], by simp, by simp⟩
        · exact row_rebased.trans (if_neg hne)
        · exact row_rebased.trans (if_pos rfl)
      · cases h

/-- What a result has done stays, when the results after it are about other rows. -/
theorem Rebases.frame {s s' s'' : Store} {retry more : List EntityRow} {result : PushResult}
    (h : Rebases s s' retry result) (hrow : s''.row result.id = s'.row result.id) :
  Rebases s s'' (retry ++ more) result
  := by
  cases result with
  | ok id version seq => exact hrow.trans h
  | conflict id server =>
      refine ⟨hrow.trans h.1, fun hsome => ?_⟩
      rw [List.map_append, List.mem_append]
      exact .inl (h.2 hsome)
  | error id code => exact ⟨h.1, hrow.trans h.2⟩

/-- A result does the same to stores with the same row. -/
theorem Rebases.congr {s₀ s s' : Store} {retry : List EntityRow} {result : PushResult}
    (h : Rebases s s' retry result) (hrow : s.row result.id = s₀.row result.id) :
  Rebases s₀ s' retry result
  := by
  have hsame : ∀ id, id = result.id → s.row id = s₀.row id := by
    rintro id rfl
    exact hrow
  cases result with
  | ok id version seq =>
      rw [Rebases, hsame id rfl] at h
      exact h
  | conflict id server =>
      rw [Rebases, hsame id rfl] at h
      exact h
  | error id code =>
      rw [Rebases, hsame id rfl] at h
      exact h

/-- The results of a purge about different rows do what each of them does. -/
theorem purgeResults_eq_ok {results : List PushResult} {st st' : Store × Purged}
    (hnodup : (results.map PushResult.id).Nodup) (h : results.foldlM purgeResult st = .ok st') :
  st'.1.vaults = st.1.vaults
    ∧ (∀ id, id ∉ results.map PushResult.id → st'.1.row id = st.1.row id)
    ∧ (∀ result ∈ results, Rebases st.1 st'.1 st'.2.retry result)
    ∧ ∃ more, st'.2.retry = st.2.retry ++ more
      ∧ (more.map EntityRow.id).Sublist (results.map PushResult.id)
  := by
  induction results generalizing st with
  | nil =>
      cases h
      exact ⟨rfl, fun _ _ => rfl, by simp, [], by simp, by simp⟩
  | cons result results ih =>
      rw [List.foldlM_cons] at h
      obtain ⟨st₁, hresult, h⟩ := bind_eq_ok.mp h
      rw [List.map_cons, List.nodup_cons] at hnodup
      obtain ⟨hvaults₁, hframe₁, hdone, more₁, hmore₁, hsub₁⟩ := purgeResult_eq_ok hresult
      obtain ⟨hvaults, hframe, heach, more, hmore, hsub⟩ := ih hnodup.2 h
      refine ⟨hvaults.trans hvaults₁, ?_, ?_, more₁ ++ more, ?_, ?_⟩
      · intro id hid
        rw [List.map_cons, List.mem_cons, not_or] at hid
        rw [hframe id hid.2, hframe₁ id hid.1]
      · intro result' hmem
        rcases List.mem_cons.mp hmem with rfl | hmem
        · rw [hmore]
          exact hdone.frame (hframe _ hnodup.1)
        · apply (heach result' hmem).congr
          apply hframe₁
          intro heq
          exact hnodup.1 (heq ▸ List.mem_map_of_mem hmem)
      · rw [hmore, hmore₁, List.append_assoc]
      · rw [List.map_append, List.map_cons]
        exact hsub₁.append hsub

end Online

/-! ### Purging a chunk -/

namespace Online

/-- What a result of a purge says about the server. -/
def Deletes (db db' : Server.Db) : PushResult → Prop
  | .ok id version _ => ∃ e, db'.entities.get? id = some e ∧ e.deleted = true ∧ e.version = version
  | .conflict id _ => ∃ e, db.entities.get? id = some e ∧ e.deleted = false
  | .error id code => code = "not_found" → db'.entities.get? id = none

section
variable [Boxes] {net : Net} {held : Uuid → Prop}

/-- The server answers each delete of a request, and brings nothing back. -/
theorem syncPush_deletes (held : Uuid → Prop) {o o' : Online} {chunk : List EntityRow} {results : List PushResult}
    (hnodup : (chunk.map EntityRow.id).Nodup)
    (h : o.syncPush net ⟨[], chunk.map EntityRow.toDelete⟩ = .ok (results, o')) :
  o'.store = o.store ∧ Follows held (o.dbNow net) o'.db
    ∧ results.map PushResult.id = chunk.map EntityRow.id
    ∧ ∀ r ∈ chunk, ∃ result ∈ results, result.id = r.id ∧ Deletes (o.dbNow net) o'.db result
  := by
  rw [syncPush] at h
  split at h
  · rename_i results' db hpush
    cases h
    rw [Server.Db.push] at hpush
    split at hpush
    · cases hpush
    rw [Server.Db.pushTx] at hpush
    simp only [bind_eq_ok, pure_eq_ok, Prod.exists, Prod.mk.injEq] at hpush
    obtain ⟨changed, db₁, hchanged, deleted, db₂, hdeleted, rfl, rfl⟩ := hpush
    cases hchanged
    have hids : (chunk.map EntityRow.toDelete).map EntityDelete.id = chunk.map EntityRow.id := by
      rw [List.map_map]
      rfl
    obtain ⟨hanswers, -, heach⟩ :=
      Server.Db.confined_pushDelete.pushItems (by rw [hids]; exact hnodup) hdeleted
    refine ⟨rfl, ?_, by rw [List.nil_append, hanswers, hids], ?_⟩
    · exact Server.Db.pushItems_induction (I := Follows held (o.dbNow net))
        (fun _ _ _ _ hI hd => hI.trans (follows_pushDelete held hd)) .refl hdeleted
    · intro r hr
      obtain ⟨result, hmem, db₃, db₄, hd, hbefore, hafter⟩ := heach _ (List.mem_map_of_mem hr)
      refine ⟨result, hmem, (Server.Db.confined_pushDelete _ _ _ _ hd).1, ?_⟩
      rcases Server.Db.pushDelete_eq_ok hd with ⟨rfl, code, rfl, hcode⟩ |
        ⟨rfl, e, rfl, hget, hdel⟩ | ⟨rfl, e, rfl, hget, hlive, -⟩ |
        ⟨e, e₀, rfl, hwrote, -, hid, -, hdel, -⟩
      · intro hnot
        exact hafter.trans (hcode hnot)
      · exact ⟨e, hafter.trans hget, hdel, rfl⟩
      · exact ⟨e, hbefore.symm.trans hget, hlive⟩
      · refine ⟨e, ?_, hdel, rfl⟩
        exact hafter.trans ((hwrote.entities _).trans (if_pos hid.symm))
  · cases h

/-- A chunk takes its rows off the server, but for those to be tried again. -/
theorem purgeChunk_eq_ok (hnet : net.Respects held) {st st' : Online × Purged}
    {chunk : List EntityRow} (hnodup : (chunk.map EntityRow.id).Nodup)
    (h : purgeChunk net st chunk = .ok st') :
  st'.1.store.vaults = st.1.store.vaults ∧ Follows held st.1.db st'.1.db
    ∧ (∀ id, id ∉ chunk.map EntityRow.id → st'.1.store.row id = st.1.store.row id)
    ∧ (∀ r, r.id ∈ chunk.map EntityRow.id → Kept st.1.store r → Kept st'.1.store r
      ∧ (Off st'.1 r ∨ r.id ∈ st'.2.retry.map EntityRow.id
        ∧ ∃ e, (st.1.dbNow net).entities.get? r.id = some e ∧ e.deleted = false))
    ∧ ∃ more, st'.2.retry = st.2.retry ++ more
      ∧ (more.map EntityRow.id).Sublist (chunk.map EntityRow.id)
  := by
  rw [purgeChunk] at h
  obtain ⟨⟨results, o⟩, hpush, h⟩ := bind_eq_ok.mp h
  obtain ⟨⟨store, purged⟩, hresults, h⟩ := bind_eq_ok.mp h
  cases h
  rw [SyncError.ofCore, mapError_eq_ok] at hresults
  obtain ⟨hstore, hfollows, hids, hanswers⟩ := syncPush_deletes held hnodup hpush
  rw [hstore] at hresults
  obtain ⟨hvaults, hframe, heach, hmore⟩ := purgeResults_eq_ok (hids ▸ hnodup) hresults
  rw [hids] at hframe hmore
  refine ⟨hvaults, (hnet.follows st.1).trans hfollows, hframe, ?_, hmore⟩
  intro r hr hkept
  obtain ⟨r', hr', hid'⟩ := List.mem_map.mp hr
  obtain ⟨result, hmem, hid, hdeletes⟩ := hanswers r' hr'
  have hrebases := heach result hmem
  rw [hid'] at hid
  cases result with
  | ok id version seq =>
      obtain rfl : id = r.id := hid
      have hrow := hkept.of_rebased hrebases
      obtain ⟨e, hget, hdel, hversion⟩ := hdeletes
      refine ⟨⟨_, _, _, hrow⟩, .inl ⟨_, _, hrow, ?_⟩⟩
      simp only [Withdrawn, hget, Option.elim_some]
      exact ⟨hversion.symm, hdel⟩
  | conflict id server =>
      obtain rfl : id = r.id := hid
      have hrow := hkept.of_rebased hrebases.1
      refine ⟨⟨_, _, _, hrow⟩, .inr ⟨hrebases.2 ?_, hdeletes⟩⟩
      obtain ⟨v, q, dirty, hr⟩ := hkept
      rw [hr]
      rfl
  | error id code =>
      obtain rfl : id = r.id := hid
      have hrow := hkept.of_rebased hrebases.2
      refine ⟨⟨_, _, _, hrow⟩, .inl ⟨_, _, hrow, ?_⟩⟩
      simp only [Withdrawn, hdeletes hrebases.1, Option.elim_none]

/-- A row that is off the server stays so when a chunk is purged. -/
theorem off_purgeChunk (hnet : net.Respects held) {st st' : Online × Purged}
    {chunk : List EntityRow} (hnodup : (chunk.map EntityRow.id).Nodup) {r : EntityRow}
    (hheld : held r.id) (hoff : Off st.1 r) (h : purgeChunk net st chunk = .ok st') :
  Off st'.1 r
  := by
  obtain ⟨-, hfollows, hframe, heach, -⟩ := purgeChunk_eq_ok hnet hnodup h
  by_cases hmem : r.id ∈ chunk.map EntityRow.id
  · rcases (heach r hmem hoff.kept).2 with hoff' | ⟨-, e, hget, hlive⟩
    · exact hoff'
    · obtain ⟨version, seq, -, hwithdrawn⟩ := hoff
      have hnow := hwithdrawn.follows hheld (hnet.follows st.1)
      rw [Withdrawn, hget] at hnow
      exact absurd hnow.2 (by simp [hlive])
  · obtain ⟨version, seq, hrow, hwithdrawn⟩ := hoff
    exact ⟨version, seq, (hframe _ hmem).trans hrow, hwithdrawn.follows hheld hfollows⟩

/-- The chunks of a round take their rows off the server, but for those to be tried again. -/
theorem purgeChunks_eq_ok (hnet : net.Respects held) {st st' : Online × Purged}
    {chunks : List (List EntityRow)} (hnodup : (chunks.flatten.map EntityRow.id).Nodup)
    (h : chunks.foldlM (purgeChunk net) st = .ok st') :
  st'.1.store.vaults = st.1.store.vaults ∧ Follows held st.1.db st'.1.db
    ∧ (∀ id, id ∉ chunks.flatten.map EntityRow.id → st'.1.store.row id = st.1.store.row id)
    ∧ (∀ r, held r.id → Off st.1 r → Off st'.1 r)
    ∧ (∀ r, held r.id → r.id ∈ chunks.flatten.map EntityRow.id → Kept st.1.store r →
      Kept st'.1.store r ∧ (Off st'.1 r ∨ r.id ∈ st'.2.retry.map EntityRow.id))
    ∧ ∃ more, st'.2.retry = st.2.retry ++ more
      ∧ (more.map EntityRow.id).Sublist (chunks.flatten.map EntityRow.id)
  := by
  induction chunks generalizing st with
  | nil =>
      cases h
      exact ⟨rfl, .refl, fun _ _ => rfl, fun _ _ h => h, by simp, [], by simp, by simp⟩
  | cons chunk chunks ih =>
      rw [List.foldlM_cons] at h
      obtain ⟨st₁, hchunk, h⟩ := bind_eq_ok.mp h
      rw [List.flatten_cons, List.map_append] at hnodup ⊢
      obtain ⟨hnodup₁, hnodup₂, hdisjoint⟩ := List.nodup_append.mp hnodup
      obtain ⟨hvaults₁, hfollows₁, hframe₁, heach₁, more₁, hmore₁, hsub₁⟩ :=
        purgeChunk_eq_ok hnet hnodup₁ hchunk
      obtain ⟨hvaults, hfollows, hframe, hoff, heach, more, hmore, hsub⟩ := ih hnodup₂ h
      refine ⟨hvaults.trans hvaults₁, hfollows₁.trans hfollows, ?_, ?_, ?_, more₁ ++ more, ?_, ?_⟩
      · intro id hid
        rw [List.mem_append, not_or] at hid
        rw [hframe id hid.2, hframe₁ id hid.1]
      · intro r hheld hr
        exact hoff r hheld (off_purgeChunk hnet hnodup₁ hheld hr hchunk)
      · intro r hheld hr hkept
        rcases List.mem_append.mp hr with hr | hr
        · obtain ⟨hkept₁, hoff₁ | ⟨hretry, -⟩⟩ := heach₁ r hr hkept
          · exact ⟨(hoff r hheld hoff₁).kept, .inl (hoff r hheld hoff₁)⟩
          · have hnot : r.id ∉ chunks.flatten.map EntityRow.id :=
              fun hmem => hdisjoint _ hr _ hmem rfl
            refine ⟨?_, .inr ?_⟩
            · obtain ⟨version, seq, dirty, hrow⟩ := hkept₁
              exact ⟨version, seq, dirty, (hframe _ hnot).trans hrow⟩
            · rw [hmore, List.map_append, List.mem_append]
              exact .inl hretry
        · have hnot : r.id ∉ chunk.map EntityRow.id := fun hmem => hdisjoint _ hmem _ hr rfl
          apply heach r hheld hr
          obtain ⟨version, seq, dirty, hrow⟩ := hkept
          exact ⟨version, seq, dirty, (hframe₁ _ hnot).trans hrow⟩
      · rw [hmore, hmore₁, List.append_assoc]
      · rw [List.map_append]
        exact hsub₁.append hsub

/-- A purge that succeeds takes the rows it is about off the server, and leaves the others alone. -/
theorem purgeRounds_eq_ok (hnet : net.Respects held) {opts : SyncOptions} {rounds : ℕ}
    {o o' : Online} {pending : List EntityRow} {purged n : ℕ}
    (hnodup : (pending.map EntityRow.id).Nodup)
    (h : o.purgeRounds net opts rounds pending purged = .ok (n, o')) :
  o'.store.vaults = o.store.vaults ∧ Follows held o.db o'.db
    ∧ (∀ id, id ∉ pending.map EntityRow.id → o'.store.row id = o.store.row id)
    ∧ ∀ r, held r.id → (Off o r ∨ r.id ∈ pending.map EntityRow.id ∧ Kept o.store r) → Off o' r
  := by
  induction rounds generalizing o pending purged with
  | zero =>
      rw [purgeRounds] at h
      split at h
      · rename_i hnil
        cases h
        subst hnil
        simp [Follows.refl]
      · cases h
  | succ rounds ih =>
      rw [purgeRounds] at h
      split at h
      · rename_i hnil
        cases h
        subst hnil
        simp [Follows.refl]
      obtain ⟨⟨o₁, st⟩, hchunks, h⟩ := bind_eq_ok.mp h
      obtain ⟨hvaults₁, hfollows₁, hframe₁, hoff₁, heach₁, more, hmore, hsub⟩ :=
        purgeChunks_eq_ok hnet (by rw [flatten_toChunks]; exact hnodup) hchunks
      rw [flatten_toChunks] at hframe₁ heach₁ hsub
      rw [List.nil_append] at hmore
      dsimp only at hmore
      subst hmore
      obtain ⟨hvaults, hfollows, hframe, hoff⟩ := ih (hnodup.sublist hsub) h
      refine ⟨hvaults.trans hvaults₁, hfollows₁.trans hfollows, ?_, ?_⟩
      · intro id hid
        rw [hframe id (fun hmem => hid (hsub.subset hmem)), hframe₁ id hid]
      · intro r hheld hr
        apply hoff r hheld
        rcases hr with hr | ⟨hmem, hkept⟩
        · exact .inl (hoff₁ r hheld hr)
        · obtain ⟨hkept₁, hr | hretry⟩ := heach₁ r hheld hmem hkept
          · exact .inl hr
          · exact .inr ⟨hretry, hkept₁⟩

end

end Online

/-! ### Rows pushed again -/

/-- The server has a live copy of a row, with its payload, and the row is clean at its version. -/
def Back (o : Online) (r : EntityRow) : Prop :=
  ∃ seq e, o.store.row r.id = some { r with version := e.version, seq, dirty := false }
    ∧ o.db.entities.get? r.id = some e ∧ e.deleted = false ∧ e.data = r.data ∧ e.kind = r.kind
    ∧ e.vaultId = r.vaultId ∧ e.keyVersion = r.keyVersion

theorem Back.frame {o o' : Online} {r : EntityRow} (h : Back o r)
    (hrow : o'.store.row r.id = o.store.row r.id)
    (hdb : o'.db.entities.get? r.id = o.db.entities.get? r.id) :
  Back o' r
  := by
  obtain ⟨seq, e, hrow', hget, hrest⟩ := h
  exact ⟨seq, e, hrow.trans hrow', hdb.trans hget, hrest⟩

/-- Nobody else writes to the server. -/
def Net.Quiet (net : Net) : Prop := ∀ n db, net.others n db = db

namespace Core.Store

variable {s s' : Store} {id : Uuid}

theorem nodup_rows {filter : EntityFilter} :
  ((s.rows filter).map EntityRow.id).Nodup
  := by
  apply ((List.perm_insertionSort _ _).map _).nodup_iff.mpr
  exact s.entities.nodup.sublist (List.filter_sublist.map _)

theorem nodup_dirtyRows {vaultId : Uuid} :
  ((s.dirtyRows vaultId).map EntityRow.id).Nodup
  := by
  apply ((List.perm_insertionSort _ _).map _).nodup_iff.mpr
  exact s.entities.nodup.sublist (List.filter_sublist.map _)

/-- A pull that finds no error changes the row it is about and no other. -/
theorem row_applyPulled {policy : ConflictPolicy} {e : SyncEntity} {changed : Bool}
    (h : s.applyPulled policy e = .ok (s', changed)) (hne : id ≠ e.id) :
  s'.row id = s.row id
  := by
  rcases applyPulled_eq_ok h with ⟨-, rfl, -⟩ | ⟨-, rfl, -⟩ | ⟨-, h, -⟩
  · rfl
  · rw [row_rebaseLocal, if_neg hne]
  · rw [row_applyRemote h, if_neg hne]

end Core.Store

namespace Online

/-! ### Requests of a push -/

/-- The request for a chunk has its live rows and its tombstones, and only tombstones go at once. -/
theorem prepareRows_eq (chunk : List EntityRow) (st : Store × PushRequest) :
  (chunk.foldl prepareRow st).2
      = ⟨st.2.changes ++ (chunk.filter (fun r => !r.deleted)).map EntityRow.toChange,
        st.2.deletes ++ (chunk.filter (fun r => r.deleted && decide (r.version > 0))).map
          EntityRow.toDelete⟩
    ∧ ∀ id, (∀ r ∈ chunk, r.id = id → r.deleted = false) →
      (chunk.foldl prepareRow st).1.row id = st.1.row id
  := by
  induction chunk generalizing st with
  | nil => simp
  | cons r chunk ih =>
      obtain ⟨hreq, hrow⟩ := ih (prepareRow st r)
      rw [List.foldl_cons]
      constructor
      · rw [hreq, prepareRow]
        cases hdel : r.deleted with
        | false => simp [hdel]
        | true =>
            by_cases hversion : r.version > 0
            · simp [hdel, hversion]
            · simp [hdel, hversion]
      · intro id hlive
        rw [hrow id (fun r' hr' => hlive r' (List.mem_cons_of_mem _ hr')), prepareRow]
        split
        · rename_i hdel
          split
          · rfl
          · have hne : id ≠ r.id := by
              rintro rfl
              rw [hlive r List.mem_cons_self rfl] at hdel
              cases hdel
            exact Store.row_markPushed.trans (if_neg hne)
        · rfl

/-- The items of a chunk are about different rows. -/
theorem nodup_items {chunk : List EntityRow} (hnodup : (chunk.map EntityRow.id).Nodup) :
  (((chunk.filter (fun r => !r.deleted)).map EntityRow.toChange).map EntityChange.id
    ++ ((chunk.filter (fun r => r.deleted && decide (r.version > 0))).map
      EntityRow.toDelete).map EntityDelete.id).Nodup
  := by
  rw [List.map_map, List.map_map]
  apply List.nodup_append.mpr
  refine ⟨hnodup.sublist (List.filter_sublist.map _),
    hnodup.sublist (List.filter_sublist.map _), ?_⟩
  rintro id hid _ hid' rfl
  obtain ⟨r, hr, rfl⟩ := List.mem_map.mp hid
  obtain ⟨r', hr', heq⟩ := List.mem_map.mp hid'
  obtain ⟨hmem, hlive⟩ := List.mem_filter.mp hr
  obtain ⟨hmem', hdel⟩ := List.mem_filter.mp hr'
  have hsame : r' = r := List.inj_on_of_nodup_map hnodup hmem' hmem heq
  subst hsame
  simp at hlive hdel
  rw [hlive] at hdel
  exact absurd hdel.1 (by simp)

/-! ### Results of a push -/

/-- What a push that reports no error has done with a result. -/
def Records (s s' : Store) : PushResult → Prop
  | .ok id version seq => s'.row id = (s.row id).bind (fun r =>
      if r.deleted then none else some { r with version, seq, dirty := false })
  | .conflict _ _ => True
  | .error _ code => code = "not_found"

theorem Records.frame {s s' s'' : Store} {result : PushResult} (h : Records s s' result)
    (hrow : s''.row result.id = s'.row result.id) :
  Records s s'' result
  := by
  cases result with
  | ok id version seq => exact hrow.trans h
  | conflict id server => trivial
  | error id code => exact h

theorem Records.congr {s₀ s s' : Store} {result : PushResult} (h : Records s s' result)
    (hrow : s.row result.id = s₀.row result.id) :
  Records s₀ s' result
  := by
  cases result with
  | ok id version seq =>
      have hrow' : s.row id = s₀.row id := hrow
      rw [Records, hrow'] at h
      exact h
  | conflict id server => trivial
  | error id code => exact h

/-- A result changes its row, and adds an error unless there is none. -/
theorem pushResult_eq_ok {policy : ConflictPolicy} {st st' : Store × Pushing × SyncReport}
    {result : PushResult} (hid : ∀ id e, result = .conflict id e → e.id = id)
    (h : pushResult policy st result = .ok st') :
  (∀ id, id ≠ result.id → st'.1.row id = st.1.row id)
    ∧ (st'.2.2.errors = [] → st.2.2.errors = [] ∧ st'.2.1.staleKey = st.2.1.staleKey
      ∧ Records st.1 st'.1 result)
  := by
  obtain ⟨s, push, report⟩ := st
  obtain ⟨s', push', report'⟩ := st'
  have happlied := (Store.applyResult_eq_ok h).1
  refine ⟨fun id hne => row_applied happlied hid hne, ?_⟩
  intro herrors
  dsimp only at herrors ⊢
  rw [pushResult] at h
  cases result with
  | ok id version seq =>
      cases h
      exact ⟨herrors, rfl, Store.row_markPushed.trans (if_pos rfl)⟩
  | conflict id server =>
      rw [Store.applyResult] at h
      dsimp only at h
      split at h
      · cases h
        exact ⟨herrors, rfl, trivial⟩
      · obtain ⟨⟨s₁, again⟩, -, heq⟩ := map_eq_ok.mp h
        cases heq
        exact ⟨herrors, rfl, trivial⟩
  | error id code =>
      rw [Store.applyResult] at h
      dsimp only at h
      split at h
      · rename_i hcode
        split at h
        · split at h
          · cases h
            exact ⟨herrors, rfl, hcode⟩
          · cases h
            exact ⟨herrors, rfl, hcode⟩
        · cases h
          exact ⟨herrors, rfl, hcode⟩
      · cases h
        simp at herrors

/-- The results of a push about different rows do what each of them does. -/
theorem pushResults_eq_ok {policy : ConflictPolicy} {results : List PushResult}
    {st st' : Store × Pushing × SyncReport} (hnodup : (results.map PushResult.id).Nodup)
    (hid : ∀ id e, .conflict id e ∈ results → e.id = id)
    (h : results.foldlM (pushResult policy) st = .ok st') :
  (∀ id, id ∉ results.map PushResult.id → st'.1.row id = st.1.row id)
    ∧ (st'.2.2.errors = [] → st.2.2.errors = [] ∧ st'.2.1.staleKey = st.2.1.staleKey
      ∧ ∀ result ∈ results, Records st.1 st'.1 result)
  := by
  induction results generalizing st with
  | nil =>
      cases h
      exact ⟨fun _ _ => rfl, fun herrors => ⟨herrors, rfl, by simp⟩⟩
  | cons result results ih =>
      rw [List.foldlM_cons] at h
      obtain ⟨st₁, hresult, h⟩ := bind_eq_ok.mp h
      rw [List.map_cons, List.nodup_cons] at hnodup
      obtain ⟨hframe₁, hfirst⟩ := pushResult_eq_ok
        (fun id e heq => hid id e (heq ▸ List.mem_cons_self)) hresult
      obtain ⟨hframe, hrest⟩ := ih hnodup.2
        (fun id e hmem => hid id e (List.mem_cons_of_mem _ hmem)) h
      constructor
      · intro id hmem
        rw [List.map_cons, List.mem_cons, not_or] at hmem
        rw [hframe id hmem.2, hframe₁ id hmem.1]
      · intro herrors
        obtain ⟨herrors₁, hstale, heach⟩ := hrest herrors
        obtain ⟨herrors₀, hstale₀, hdone⟩ := hfirst herrors₁
        refine ⟨herrors₀, hstale.trans hstale₀, ?_⟩
        intro result' hmem
        rcases List.mem_cons.mp hmem with rfl | hmem
        · exact hdone.frame (hframe _ hnodup.1)
        · apply (heach result' hmem).congr
          apply hframe₁
          intro heq
          exact hnodup.1 (heq ▸ List.mem_map_of_mem hmem)

end Online

/-! ### Pushing the rows back -/

theorem numbered_push [Boxes] {settings : Server.Settings} {auth : Server.Auth} {now : DateTime}
    {db db' : Server.Db} {req : PushRequest} {results : List PushResult} (hnum : Numbered db)
    (h : Server.Db.push settings auth now db req = .ok (results, db')) :
  Numbered db'
  := by
  rw [Server.Db.push] at h
  split at h
  · cases h
  have hwrote : ∀ db db' e, Numbered db → Server.Db.Wrote db db' e → 1 ≤ e.version →
      Numbered db' := by
    intro db db' e hnum hw hone id e' he'
    rw [hw.entities] at he'
    split at he'
    · cases he'
      exact hone
    · exact hnum id e' he'
  apply Server.Db.pushTx_induction_items ?_ ?_ hnum h
  · intro db db' c r hnum hc
    rcases Server.Db.pushChange_eq_ok hc with ⟨rfl, -⟩ | ⟨rfl, -⟩ |
      ⟨e, -, hw, -, -, -, -, -, -, ⟨-, -, hone⟩ | ⟨e₀, hget, -, -, hnext⟩⟩
    · exact hnum
    · exact hnum
    · exact hwrote _ _ _ hnum hw (by omega)
    · have := hnum _ _ hget
      exact hwrote _ _ _ hnum hw (by omega)
  · intro db db' d r hnum hd
    exact (follows_pushDelete (fun _ => False) hd).numbered hnum

namespace Online

section
variable [Boxes] {net : Net} {opts : SyncOptions}

/-- The server takes each live row of a chunk whose copy is withdrawn, or reports an error. -/
theorem syncPush_rows {o o' : Online} {chunk : List EntityRow} {results : List PushResult}
    (hquiet : net.Quiet) (hnum : Numbered o.db) (hnodup : (chunk.map EntityRow.id).Nodup)
    (h : o.syncPush net ⟨(chunk.filter (fun r => !r.deleted)).map EntityRow.toChange,
      (chunk.filter (fun r => r.deleted && decide (r.version > 0))).map EntityRow.toDelete⟩
        = .ok (results, o')) :
  o'.store = o.store ∧ Numbered o'.db ∧ (results.map PushResult.id).Nodup
    ∧ (∀ id e, .conflict id e ∈ results → e.id = id)
    ∧ (∀ id, id ∉ chunk.map EntityRow.id →
      id ∉ results.map PushResult.id ∧ o'.db.entities.get? id = o.db.entities.get? id)
    ∧ ∀ r ∈ chunk, r.deleted = false → Withdrawn o.db r.id r.version →
      (∃ code, .error r.id code ∈ results ∧ code ≠ "not_found")
        ∨ ∃ e, .ok r.id e.version e.seq ∈ results ∧ o'.db.entities.get? r.id = some e
          ∧ e.deleted = false ∧ e.data = r.data ∧ e.kind = r.kind ∧ e.vaultId = r.vaultId
          ∧ e.keyVersion = r.keyVersion
  := by
  rw [syncPush] at h
  split at h
  · rename_i results' db hpush
    cases h
    have hconflict : ∀ id e, .conflict id e ∈ results → e.id = id :=
      fun id e hmem => Server.Db.id_of_conflict hpush hmem
    have hnum' : Numbered (o.dbNow net) := by
      rw [dbNow, hquiet]
      exact hnum
    have hnumbered := numbered_push hnum' hpush
    have hnow : o.dbNow net = o.db := hquiet _ _
    rw [Server.Db.push] at hpush
    split at hpush
    · cases hpush
    rw [Server.Db.pushTx, hnow] at hpush
    simp only [bind_eq_ok, pure_eq_ok, Prod.exists, Prod.mk.injEq] at hpush
    obtain ⟨changed, db₁, hchanged, deleted, db₂, hdeleted, rfl, rfl⟩ := hpush
    have hitems := nodup_items hnodup
    obtain ⟨hnodupC, hnodupD, hdisjoint⟩ := List.nodup_append.mp hitems
    obtain ⟨hidsC, hframeC, heachC⟩ := Server.Db.confined_pushChange.pushItems hnodupC hchanged
    obtain ⟨hidsD, hframeD, -⟩ := Server.Db.confined_pushDelete.pushItems hnodupD hdeleted
    refine ⟨rfl, hnumbered, ?_, hconflict, ?_, ?_⟩
    · rw [List.map_append, hidsC, hidsD]
      exact hitems
    · intro id hid
      have hC : id ∉ ((chunk.filter (fun r => !r.deleted)).map EntityRow.toChange).map
          EntityChange.id := by
        rw [List.map_map]
        exact fun hmem => hid (List.map_subset _ (List.filter_subset_self _) hmem)
      have hD : id ∉ ((chunk.filter (fun r => r.deleted && decide (r.version > 0))).map
          EntityRow.toDelete).map EntityDelete.id := by
        rw [List.map_map]
        exact fun hmem => hid (List.map_subset _ (List.filter_subset_self _) hmem)
      refine ⟨?_, (hframeD id hD).trans (hframeC id hC)⟩
      rw [List.map_append, hidsC, hidsD, List.mem_append, not_or]
      exact ⟨hC, hD⟩
    · intro r hr hlive hwithdrawn
      have hmem : r.toChange ∈ (chunk.filter (fun r => !r.deleted)).map EntityRow.toChange :=
        List.mem_map_of_mem (List.mem_filter.mpr ⟨hr, by simp [hlive]⟩)
      obtain ⟨result, hresult, db₃, db₄, hc, hbefore, hafter⟩ := heachC _ hmem
      have hlater : db₂.entities.get? r.id = db₁.entities.get? r.id :=
        hframeD _ (fun hmem' => hdisjoint _ (List.mem_map_of_mem hmem) _ hmem' rfl)
      have hbase : r.toChange.baseVersion = if r.version > 0 then some r.version else none := rfl
      have hidC : r.toChange.id = r.id := rfl
      rcases Server.Db.pushChange_eq_ok hc with ⟨rfl, code, rfl, hcode⟩ |
        ⟨rfl, e, rfl, hget, -, hne⟩ | ⟨e, rfl, hw, hid, hvault, hkind, hdata, hkey, hdel, -⟩
      · refine .inl ⟨code, List.mem_append_left _ hresult, ?_⟩
        intro hnot
        obtain ⟨hnone, hsome⟩ := hcode hnot
        rw [hbefore, hidC] at hnone
        rw [Withdrawn, hnone, Option.elim_none] at hwithdrawn
        rw [hbase, hwithdrawn] at hsome
        simp at hsome
      · rw [hbefore, hidC] at hget
        rw [Withdrawn, hget, Option.elim_some] at hwithdrawn
        have hpos := hnum _ _ hget
        refine absurd ?_ hne
        rw [hbase, if_pos (by omega), hwithdrawn.1]
      · refine .inr ⟨e, List.mem_append_left _ hresult, ?_, hdel, hdata, hkind, hvault, hkey⟩
        rw [hlater]
        exact hafter.trans ((hw.entities _).trans (if_pos hid.symm))
  · cases h

/-- A chunk that is pushed without an error brings its withdrawn live rows back. -/
theorem pushChunk_eq_ok (hquiet : net.Quiet) {st st' : Online × Pushing × SyncReport}
    {chunk : List EntityRow} (hnum : Numbered st.1.db) (hnodup : (chunk.map EntityRow.id).Nodup)
    (hfresh : ∀ r ∈ chunk, st.1.store.row r.id = some r)
    (h : pushChunk net opts st chunk = .ok st') :
  Numbered st'.1.db
    ∧ (∀ id, id ∉ chunk.map EntityRow.id → st'.1.store.row id = st.1.store.row id
      ∧ st'.1.db.entities.get? id = st.1.db.entities.get? id)
    ∧ (st'.2.2.errors = [] → st.2.2.errors = [] ∧ st'.2.1.staleKey = st.2.1.staleKey
      ∧ ∀ r ∈ chunk, r.deleted = false → Withdrawn st.1.db r.id r.version → Back st'.1 r)
  := by
  rw [pushChunk] at h
  obtain ⟨hreq, hprepared⟩ := prepareRows_eq chunk (st.1.store, ⟨[], []⟩)
  generalize chunk.foldl prepareRow (st.1.store, ⟨[], []⟩) = prepared at h hreq hprepared
  obtain ⟨store, req⟩ := prepared
  dsimp only at h hreq hprepared
  subst hreq
  simp only [List.nil_append] at h
  have hrow : ∀ r ∈ chunk, r.deleted = false → store.row r.id = some r := by
    intro r hr hlive
    rw [hprepared r.id ?_, hfresh r hr]
    intro r' hr' heq
    have hsame : r' = r := List.inj_on_of_nodup_map hnodup hr' hr heq
    rwa [hsame]
  have hother : ∀ id, id ∉ chunk.map EntityRow.id → store.row id = st.1.store.row id := by
    intro id hid
    apply hprepared
    intro r hr heq
    exact absurd (heq ▸ List.mem_map_of_mem hr) hid
  split at h
  · rename_i hempty
    cases h
    refine ⟨hnum, fun id hid => ⟨hother id hid, rfl⟩, fun herrors => ⟨herrors, rfl, ?_⟩⟩
    intro r hr hlive
    have hmem : r ∈ chunk.filter (fun r => !r.deleted) :=
      List.mem_filter.mpr ⟨hr, by simp [hlive]⟩
    rw [List.map_eq_nil_iff.mp hempty.1] at hmem
    cases hmem
  · obtain ⟨⟨results, o⟩, hpush, h⟩ := bind_eq_ok.mp h
    obtain ⟨⟨store', push, report⟩, hresults, h⟩ := bind_eq_ok.mp h
    cases h
    rw [SyncError.ofCore, mapError_eq_ok] at hresults
    obtain ⟨hstore, hnum', hnodup', hconflict, hframe, heach⟩ :=
      syncPush_rows hquiet (o := { st.1 with store }) hnum hnodup hpush
    rw [hstore] at hresults
    obtain ⟨hrows, hdone⟩ := pushResults_eq_ok hnodup' hconflict hresults
    refine ⟨hnum', ?_, ?_⟩
    · intro id hid
      exact ⟨(hrows id (hframe id hid).1).trans (hother id hid), (hframe id hid).2⟩
    · intro herrors
      obtain ⟨herrors₀, hstale, hrecords⟩ := hdone herrors
      refine ⟨herrors₀, hstale, ?_⟩
      intro r hr hlive hwithdrawn
      rcases heach r hr hlive hwithdrawn with ⟨code, hmem, hcode⟩ | ⟨e, hmem, hget, hrest⟩
      · exact absurd (hrecords _ hmem) hcode
      · refine ⟨e.seq, e, ?_, hget, hrest⟩
        have hrecord : store'.row r.id = (store.row r.id).bind _ := hrecords _ hmem
        rw [hrow r hr hlive] at hrecord
        rw [hrecord]
        simp [hlive]

/-- The chunks of a push that reports no error bring their withdrawn live rows back. -/
theorem pushChunks_eq_ok (hquiet : net.Quiet) (st : Online × Pushing × SyncReport)
    {st' : Online × Pushing × SyncReport}
    {chunks : List (List EntityRow)} (hnum : Numbered st.1.db)
    (hnodup : (chunks.flatten.map EntityRow.id).Nodup)
    (hfresh : ∀ r ∈ chunks.flatten, st.1.store.row r.id = some r)
    (h : chunks.foldlM (pushChunk net opts) st = .ok st') :
  Numbered st'.1.db
    ∧ (∀ id, id ∉ chunks.flatten.map EntityRow.id → st'.1.store.row id = st.1.store.row id
      ∧ st'.1.db.entities.get? id = st.1.db.entities.get? id)
    ∧ (st'.2.2.errors = [] → st.2.2.errors = [] ∧ st'.2.1.staleKey = st.2.1.staleKey
      ∧ ∀ r ∈ chunks.flatten, r.deleted = false → Withdrawn st.1.db r.id r.version → Back st'.1 r)
  := by
  induction chunks generalizing st with
  | nil =>
      cases h
      exact ⟨hnum, fun _ _ => ⟨rfl, rfl⟩, fun herrors => ⟨herrors, rfl, by simp⟩⟩
  | cons chunk chunks ih =>
      rw [List.foldlM_cons] at h
      obtain ⟨st₁, hchunk, h⟩ := bind_eq_ok.mp h
      rw [List.flatten_cons] at hfresh ⊢
      rw [List.flatten_cons, List.map_append] at hnodup
      obtain ⟨hnodup₁, hnodup₂, hdisjoint⟩ := List.nodup_append.mp hnodup
      have hapart : ∀ r ∈ chunks.flatten, r.id ∉ chunk.map EntityRow.id :=
        fun r hr hmem => hdisjoint _ hmem _ (List.mem_map_of_mem hr) rfl
      obtain ⟨hnum₁, hframe₁, hfirst⟩ := pushChunk_eq_ok hquiet hnum hnodup₁
        (fun r hr => hfresh r (List.mem_append_left _ hr)) hchunk
      have hfresh₁ : ∀ r ∈ chunks.flatten, st₁.1.store.row r.id = some r := by
        intro r hr
        rw [(hframe₁ r.id (hapart r hr)).1, hfresh r (List.mem_append_right _ hr)]
      obtain ⟨hnum', hframe, hrest⟩ := ih _ hnum₁ hnodup₂ hfresh₁ h
      refine ⟨hnum', ?_, ?_⟩
      · intro id hid
        rw [List.map_append, List.mem_append, not_or] at hid
        exact ⟨(hframe id hid.2).1.trans (hframe₁ id hid.1).1,
          (hframe id hid.2).2.trans (hframe₁ id hid.1).2⟩
      · intro herrors
        obtain ⟨herrors₁, hstale, hback⟩ := hrest herrors
        obtain ⟨herrors₀, hstale₀, hback₁⟩ := hfirst herrors₁
        refine ⟨herrors₀, hstale.trans hstale₀, ?_⟩
        intro r hr hlive hwithdrawn
        rcases List.mem_append.mp hr with hr | hr
        · have hnot : r.id ∉ chunks.flatten.map EntityRow.id :=
            fun hmem => hdisjoint _ (List.mem_map_of_mem hr) _ hmem rfl
          exact (hback₁ r hr hlive hwithdrawn).frame (hframe _ hnot).1 (hframe _ hnot).2
        · apply hback r hr hlive
          rw [Withdrawn, (hframe₁ r.id (hapart r hr)).2]
          exact hwithdrawn

theorem numbered_refreshVaults (hquiet : net.Quiet) {o o' : Online} (hnum : Numbered o.db)
    (h : o.refreshVaults net = .ok o') :
  Numbered o'.db
  := by
  obtain ⟨_, -, rfl⟩ := map_eq_ok.mp h
  dsimp only
  rw [dbNow, hquiet]
  exact hnum

/-- A push of a vault that reports no error brings the rows back that are off the server, and leaves
those there that are back. -/
theorem pushEntities_eq_ok (hquiet : net.Quiet) (hsync : opts.syncCredentials = true)
    {o o' : Online} {vaultId : Uuid} {report report' : SyncReport} {again : Bool}
    (hnum : Numbered o.db)
    (h : o.pushEntities net opts vaultId report = .ok (again, o', report')) :
  Numbered o'.db
    ∧ (report'.errors = [] → report.errors = [] ∧ (∀ r, Back o r → Back o' r)
      ∧ ∀ r, r.deleted = false → r.vaultId = vaultId → Off o r → Back o' r)
  := by
  rw [pushEntities] at h
  have hall : (o.store.dirtyRows vaultId).filter
      (fun r => !r.keepsLocal (opts.localCredentialsVault o.store))
        = o.store.dirtyRows vaultId := by
    apply List.filter_eq_self.mpr
    intro r _
    simp [SyncOptions.localCredentialsVault, hsync, EntityRow.keepsLocal]
  simp only [hall] at h
  obtain ⟨⟨o₁, push, report₁⟩, hchunks, h⟩ := bind_eq_ok.mp h
  have hflat := flatten_toChunks opts.size (o.store.dirtyRows vaultId)
  have hnodup : (((o.store.dirtyRows vaultId).toChunks opts.size).flatten.map
      EntityRow.id).Nodup := by
    rw [hflat]
    exact Store.nodup_dirtyRows
  obtain ⟨hnum₁, hframe, hdone⟩ := pushChunks_eq_ok hquiet
    (o, ⟨vaultId, 0, [], [], false, false⟩, report) hnum hnodup
    (fun r hr => (Store.mem_dirtyRows.mp (hflat ▸ hr)).1) hchunks
  dsimp only at h hdone hnum₁
  split at h
  · rename_i hstale
    obtain ⟨o₂, hrefresh, h⟩ := bind_eq_ok.mp h
    cases h
    refine ⟨numbered_refreshVaults hquiet hnum₁ hrefresh, fun herrors => ?_⟩
    rw [(hdone herrors).2.1] at hstale
    cases hstale
  · cases h
    refine ⟨hnum₁, fun herrors => ?_⟩
    obtain ⟨herrors₀, -, hback⟩ := hdone herrors
    rw [hflat] at hframe hback
    refine ⟨herrors₀, ?_, ?_⟩
    · intro r hr
      have hnot : r.id ∉ (o.store.dirtyRows vaultId).map EntityRow.id := by
        intro hmem
        obtain ⟨x, hx, hid⟩ := List.mem_map.mp hmem
        obtain ⟨hrow, -, hdirty⟩ := Store.mem_dirtyRows.mp hx
        obtain ⟨seq, e, hrow', -⟩ := hr
        rw [hid, hrow'] at hrow
        cases hrow
        cases hdirty
      exact hr.frame (hframe _ hnot).1 (hframe _ hnot).2
    · rintro r hlive hvault ⟨version, seq, hrow, hwithdrawn⟩
      have hmem : r.rebased version seq ∈ o.store.dirtyRows vaultId :=
        Store.mem_dirtyRows.mpr ⟨hrow, hvault, rfl⟩
      exact hback (r.rebased version seq) hmem hlive hwithdrawn

/-- The same of pushes that are repeated. -/
theorem syncVault_eq_ok (hquiet : net.Quiet) (hsync : opts.syncCredentials = true) {rounds : ℕ}
    {o o' : Online} {vaultId : Uuid} {report report' : SyncReport} (hnum : Numbered o.db)
    (h : o.syncVault net opts vaultId rounds report = .ok (o', report'))
    (herrors : report'.errors = []) :
  report.errors = [] ∧ (∀ r, Back o r → Back o' r)
    ∧ (0 < rounds → ∀ r, r.deleted = false → r.vaultId = vaultId → Off o r → Back o' r)
  := by
  induction rounds generalizing o report with
  | zero =>
      cases h
      exact ⟨herrors, fun _ h => h, fun h => absurd h (lt_irrefl 0)⟩
  | succ rounds ih =>
      rw [syncVault] at h
      obtain ⟨⟨again, o₁, report₁⟩, hpush, h⟩ := bind_eq_ok.mp h
      obtain ⟨hnum₁, hdone⟩ := pushEntities_eq_ok hquiet hsync hnum hpush
      dsimp only at h
      split at h
      · obtain ⟨herrors₁, hstays, -⟩ := ih hnum₁ h
        obtain ⟨herrors₀, hback, hoff⟩ := hdone herrors₁
        exact ⟨herrors₀, fun r hr => hstays r (hback r hr),
          fun _ r hlive hvault hr => hstays r (hoff r hlive hvault hr)⟩
      · cases h
        obtain ⟨herrors₀, hback, hoff⟩ := hdone herrors
        exact ⟨herrors₀, hback, fun _ => hoff⟩

/-! ### Pulling over the rows -/

omit [Boxes] in
/-- A row that is back stays so when a copy of the server is applied. -/
theorem back_pullResult {db : Server.Db} {n : ℕ} {localVault : Option Uuid}
    {st st' : Store × SyncReport} {e : SyncEntity} {r : EntityRow} (hback : Back ⟨st.1, db, n⟩ r)
    (hget : db.entities.get? e.id = some e) (h : Online.pullResult opts localVault st e = .ok st') :
  Back ⟨st'.1, db, n⟩ r
  := by
  rw [Online.pullResult] at h
  split at h
  · cases h
    exact hback
  obtain ⟨⟨store, changed⟩, happly, heq⟩ := map_eq_ok.mp h
  cases heq
  by_cases hid : r.id = e.id
  · obtain ⟨seq, e', hrow, hget', hlive, hrest⟩ := hback
    dsimp only at hrow hget'
    rw [hid, hget] at hget'
    cases hget'
    rw [hid] at hrow
    rw [Store.applyPulled, hrow] at happly
    simp [hlive] at happly
    obtain ⟨rfl, -⟩ := happly
    refine ⟨seq, e, ?_, ?_, hlive, hrest⟩
    · rw [hid]
      exact hrow
    · rw [hid]
      exact hget
  · exact hback.frame (Store.row_applyPulled happly hid) rfl

omit [Boxes] in
/-- Rows that are back stay so when a vault is pulled. -/
theorem back_pullPages (hquiet : net.Quiet) {localVault : Option Uuid} {fuel : ℕ} {o o' : Online}
    {cursors : Cursors} {report report' : SyncReport}
    (h : o.pullPages net opts localVault fuel cursors report = .ok (o', report')) :
  report'.errors = report.errors ∧ ∀ r, Back o r → Back o' r
  := by
  have hpage : ∀ (db : Server.Db) (n : ℕ) (entities : List SyncEntity)
      (st st' : Store × SyncReport),
      (∀ e ∈ entities, db.entities.get? e.id = some e) →
      entities.foldlM (Online.pullResult opts localVault) st = .ok st' →
      st'.2.errors = st.2.errors ∧ ∀ r, Back ⟨st.1, db, n⟩ r → Back ⟨st'.1, db, n⟩ r := by
    intro db n entities
    induction entities with
    | nil =>
        intro st st' _ h
        cases h
        exact ⟨rfl, fun _ h => h⟩
    | cons e entities ih =>
        intro st st' hget h
        rw [List.foldlM_cons] at h
        obtain ⟨st₁, hfirst, h⟩ := bind_eq_ok.mp h
        obtain ⟨herrors, hrest⟩ := ih st₁ st' (fun e he => hget e (List.mem_cons_of_mem _ he)) h
        refine ⟨?_, fun r hr => hrest r (back_pullResult hr (hget e List.mem_cons_self) hfirst)⟩
        rw [herrors]
        rw [Online.pullResult] at hfirst
        split at hfirst
        · cases hfirst
          rfl
        · obtain ⟨_, -, heq⟩ := map_eq_ok.mp hfirst
          cases heq
          rfl
  induction fuel generalizing o cursors report with
  | zero => cases h
  | succ fuel ih =>
      rw [pullPages] at h
      dsimp only [syncPull] at h
      obtain ⟨⟨store, report₁⟩, hentities, h⟩ := bind_eq_ok.mp h
      rw [SyncError.ofCore, mapError_eq_ok] at hentities
      have hnow : o.dbNow net = o.db := hquiet _ _
      rw [hnow] at h hentities
      obtain ⟨herrors, hback⟩ := hpage o.db (o.asked + 1) _ _ _
        (fun e he => Server.Db.get?_of_mem_pull he) hentities
      have hsaved : ∀ r, Back o r → Back ⟨(store.saveCursors cursors
          (Server.Db.pull o.db net.auth ⟨cursors, some opts.size⟩).cursors.rows).1, o.db,
          o.asked + 1⟩ r := by
        intro r hr
        exact (hback r hr).frame Store.row_saveCursors rfl
      dsimp only at h
      split at h
      · obtain ⟨herrors', hrest⟩ := ih h
        exact ⟨herrors'.trans herrors, fun r hr => hrest r (hsaved r hr)⟩
      · cases h
        exact ⟨herrors, hsaved⟩

end

end Online

/-! ### Nothing is lost -/

/-- A live credential of a vault on the device. -/
structure Credential (s : Store) (vaultId : Uuid) (r : EntityRow) : Prop where
  row : s.row r.id = some r
  vault : r.vaultId = vaultId
  live : r.deleted = false
  kind : isCredentialKind r.kind = true

/-- After a purge the credentials are off the server and ready to be pushed again, and a later pass
without errors brings them back. -/
structure LosesNothing [Boxes] (vaultId : Uuid) (o o' : Online) : Prop where
  purged : ∀ r, Credential o.store vaultId r → Off o' r
  restored : ∀ net opts fuel o'' report, net.Quiet → opts.syncCredentials = true →
    o'.resyncCredentials net opts fuel = .ok (o'', report) → report.errors = [] →
    ∀ r, Credential o.store vaultId r → Back o'' r

namespace Online

section
variable [Boxes] {net : Net} {opts : SyncOptions} {o o' : Online} {v : LocalVault}

omit [Boxes] in
theorem personalVault_congr {s s' : Store} (h : s'.vaults = s.vaults) :
  s'.personalVault = s.personalVault
  := by
  rw [Store.personalVault, Store.listVaults, h]
  rfl

/-- A pass over the personal vault without errors brings the rows back that are off the server. -/
theorem back_resyncCredentials (hquiet : net.Quiet) (hsync : opts.syncCredentials = true)
    {fuel : ℕ} {report : SyncReport} (hv : o.store.personalVault = some v)
    (hunlocked : v.unlocked = true) (hnum : Numbered o.db)
    (h : o.resyncCredentials net opts fuel = .ok (o', report)) (herrors : report.errors = [])
    {r : EntityRow} (hlive : r.deleted = false) (hvault : r.vaultId = v.id) (hoff : Off o r) :
  Back o' r
  := by
  rw [resyncCredentials, hv, Option.filter_some, if_pos hunlocked] at h
  obtain ⟨⟨o₁, report₁⟩, hpush, h⟩ := bind_eq_ok.mp h
  obtain ⟨cursors, -, h⟩ := bind_eq_ok.mp h
  obtain ⟨hsame, hback⟩ := back_pullPages hquiet h
  rw [herrors] at hsame
  obtain ⟨-, -, hrest⟩ := syncVault_eq_ok hquiet hsync
    (o := { o with store := o.store.setVaultCursor v.id 0 }) hnum hpush hsame.symm
  exact hback r (hrest (by decide) r hlive hvault hoff)

/-- A purge loses nothing exactly when the vault is unlocked, and no credential that the server
never acknowledged is there. -/
theorem losesNothing_iff (hv : o.store.personalVault = some v) (hnum : Numbered o.db)
    (hnet : net.Respects (fun id => (o.store.row id).isSome)) {n : ℕ}
    (h : o.purgeCredentials net opts = .ok (n, o')) :
  LosesNothing v.id o o' ↔ ∀ r, Credential o.store v.id r → v.unlocked = true
    ∧ (r.version ≤ 0 → r.version = 0 ∧ r.dirty = true ∧ o.db.entities.get? r.id = none)
  := by
  rw [purgeCredentials, hv] at h
  by_cases hunlocked : v.unlocked = true
  · rw [Option.filter_some, if_pos hunlocked] at h
    have hnodup : ((SyncDevice.purgeable o.store v.id).map EntityRow.id).Nodup :=
      Store.nodup_rows.sublist (List.filter_sublist.map _)
    obtain ⟨hvaults, hfollows, hframe, hoff⟩ := purgeRounds_eq_ok hnet hnodup h
    have hpending : ∀ r, Credential o.store v.id r →
        (r.id ∈ (SyncDevice.purgeable o.store v.id).map EntityRow.id ↔ 0 < r.version) := by
      intro r hr
      constructor
      · intro hmem
        obtain ⟨x, hx, hid⟩ := List.mem_map.mp hmem
        obtain ⟨hx, hp⟩ := List.mem_filter.mp hx
        have hrow := (Store.mem_rows.mp hx).1
        rw [hid, hr.row] at hrow
        cases hrow
        simp only [Bool.and_eq_true, decide_eq_true_eq] at hp
        exact hp.2
      · intro hpos
        apply List.mem_map_of_mem
        refine List.mem_filter.mpr ⟨Store.mem_rows.mpr ⟨hr.row, ?_⟩, ?_⟩
        · simp [EntityFilter.accepts, hr.vault, hr.live]
        · simp [hr.kind, hpos]
    have hheld : ∀ r, Credential o.store v.id r → (o.store.row r.id).isSome := by
      intro r hr
      rw [hr.row]
      rfl
    constructor
    · intro hloses r hr
      refine ⟨hunlocked, fun hversion => ?_⟩
      have hnot : r.id ∉ (SyncDevice.purgeable o.store v.id).map EntityRow.id := by
        rw [hpending r hr]
        omega
      obtain ⟨version, seq, hrow, hwithdrawn⟩ := hloses.purged r hr
      rw [hframe r.id hnot, hr.row] at hrow
      have hsame : r = r.rebased version seq := Option.some.inj hrow
      have hversion' : version = r.version := (congrArg EntityRow.version hsame).symm
      have hdirty : r.dirty = true := congrArg EntityRow.dirty hsame
      rw [hversion'] at hwithdrawn
      rw [Withdrawn] at hwithdrawn
      cases hget : o'.db.entities.get? r.id with
      | some e =>
          rw [hget, Option.elim_some] at hwithdrawn
          have := hfollows.numbered hnum _ _ hget
          omega
      | none =>
          rw [hget, Option.elim_none] at hwithdrawn
          refine ⟨hwithdrawn, hdirty, ?_⟩
          rw [← Option.not_isSome_iff_eq_none]
          intro hsome
          have := hfollows.present r.id hsome
          rw [hget] at this
          cases this
    · intro hall
      have hpurged : ∀ r, Credential o.store v.id r → Off o' r := by
        intro r hr
        apply hoff r (hheld r hr)
        by_cases hpos : 0 < r.version
        · exact .inr ⟨(hpending r hr).mpr hpos, r.version, r.seq, r.dirty, hr.row⟩
        · obtain ⟨hzero, hdirty, hnone⟩ := (hall r hr).2 (by omega)
          refine .inl ⟨r.version, r.seq, ?_, ?_⟩
          · rw [hr.row, EntityRow.rebased, ← hdirty]
          · rw [Withdrawn, hnone]
            exact hzero
      refine ⟨hpurged, ?_⟩
      intro net' opts' fuel o'' report hquiet hsync hresync herrors r hr
      exact back_resyncCredentials hquiet hsync ((personalVault_congr hvaults).trans hv) hunlocked
        (hfollows.numbered hnum) hresync herrors hr.live hr.vault (hpurged r hr)
  · rw [Option.filter_some, if_neg hunlocked] at h
    cases h
    constructor
    · intro hloses r hr
      -- A pass over a locked vault does nothing, so that a row would be dirty and clean.
      obtain ⟨_, _, hdirty, -⟩ := hloses.purged r hr
      have hresync : o.resyncCredentials { net with others := fun _ db => db }
          { opts with syncCredentials := true } 0 = .ok (o, ⟨0, 0, 0, []⟩) := by
        rw [resyncCredentials, hv, Option.filter_some, if_neg hunlocked]
      obtain ⟨_, _, hclean, -⟩ := hloses.restored _ _ 0 o _ (fun _ _ => rfl) rfl hresync rfl r hr
      rw [hdirty] at hclean
      cases congrArg EntityRow.dirty (Option.some.inj hclean)
    · intro hall
      refine ⟨fun r hr => absurd (hall r hr).1 hunlocked, ?_⟩
      intro _ _ _ _ _ _ _ _ _ r hr
      exact absurd (hall r hr).1 hunlocked

end

end Online

/-! ### An identity whose push was not acknowledged -/

open Symbolic

/-- A device with an identity in its personal vault, at a version, and a server that has it. -/
def identityOnServer (version : ℤ) (dirty : Bool) : Online where
  store :=
    { vaults := .single ⟨1, .personal, "Personal", none, .manager, some (Vector.replicate 32 0), 1, 1,
        false, 0, false⟩
      entities := .single ⟨7, "identity", 1, version, 0, false, 1, "AAAA", 1, dirty⟩
      history := .empty, sessionLogs := .empty, account := none, files _ := none }
  db :=
    { users := .single ⟨1, "user", none, none, false, false, 0, 0⟩
      vaults := .single ⟨1, .personal, none, "Personal", 1, 1, 0, false, true, false⟩
      vaultMembers := .single ⟨1, 1, .manager, some "AAAA", 1⟩
      teamMembers := .empty
      teamPolicies := .empty
      entities := .single ⟨none, 7, "identity", 1, 1, 1, false, 1, "AAAA", 1, some 2⟩
      historyEntries := .empty
      sessionLogs := .empty
      bridgeScope _ _ := false
      directModes _ _ _ := none }
  asked := 0

/-- Nobody but the device of user 1 writes to the server. -/
def quietNet : Net where
  settings := ⟨1000, 0, 0⟩
  auth := ⟨1, 2, none⟩
  now _ := 5
  others _ db := db
  privateKey := account
  nonce _ _ := nonce

theorem respects_quietNet (held : Uuid → Prop) :
  quietNet.Respects held
  := ⟨fun _ _ _ _ h _ => h, fun _ _ _ _ h => h, fun _ _ _ h => h, fun _ _ h => h⟩

theorem numbered_identityOnServer {version : ℤ} {dirty : Bool} :
  Numbered (identityOnServer version dirty).db
  := by
  intro id e he
  have hmem := Table.mem_of_get? he
  rw [List.mem_singleton.mp hmem]

/-- An identity that the server acknowledged is taken off it, and can be brought back. -/
theorem losesNothing_acknowledged :
  ∃ n o', (identityOnServer 1 false).purgeCredentials quietNet (optedOut .newestWins) = .ok (n, o')
    ∧ LosesNothing 1 (identityOnServer 1 false) o'
  := by
  obtain ⟨n, o', h⟩ : ∃ n o', (identityOnServer 1 false).purgeCredentials quietNet
      (optedOut .newestWins) = .ok (n, o') := ⟨_, _, rfl⟩
  refine ⟨n, o', h, (Online.losesNothing_iff rfl numbered_identityOnServer (respects_quietNet _)
    h).mpr ?_⟩
  intro r hr
  rw [List.mem_singleton.mp (Table.mem_of_get? hr.row)]
  decide

/-- A purge leaves an identity on the server when the answer to its push was lost. -/
theorem not_losesNothing_unacknowledged :
  ¬ ∀ (net : Net) (opts : SyncOptions) (o o' : Online) (v : LocalVault) (n : ℕ),
    o.store.personalVault = some v → Numbered o.db →
    net.Respects (fun id => (o.store.row id).isSome) →
    o.purgeCredentials net opts = .ok (n, o') → LosesNothing v.id o o'
  := by
  intro h
  have hloses := h quietNet (optedOut .newestWins) (identityOnServer 0 true)
    (identityOnServer 0 true) _ 0 rfl numbered_identityOnServer (respects_quietNet _) rfl
  obtain ⟨version, seq, -, hwithdrawn⟩ := hloses.purged
    ⟨7, "identity", 1, 0, 0, false, 1, "AAAA", 1, true⟩ ⟨rfl, rfl, rfl, by decide⟩
  cases hwithdrawn.2

end Termoso
