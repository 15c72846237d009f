import Termoso.Mirroring

/-!
# A device and the server it follows

A device works through the answers of the server while the server goes on writing for others and the
user edits the store.  Requests, answers and whole passes may be lost, and the vault list may change
between two passes.  Whatever happens, what a cursor has passed is mirrored, so that pulling from the
cursors misses nothing.
-/

namespace Termoso

open Core

/-! ### Runs -/

/-- An answer of the server. -/
inductive ServerAnswer
  | results (results : List PushResult)
  | page (resp : PullResponse)

/-- A device, the database of the server, and the answer that is on its way. -/
structure Replica where
  device : SyncDevice
  db : Server.Db
  answer : Option ServerAnswer

/-- A step of the device alone; the server handles the request that the device waits on; the answer
arrives; or the server handles a request of another device. -/
inductive ReplicaStep : Type 1
  | device (l : SyncStep)
  | serve (settings : Server.Settings) (auth : Server.Auth) (now : DateTime)
  | receive
  | write (w : Server.Write)

namespace Replica

section
variable [Boxes] (opts : SyncOptions) (r : Replica)

/-- Handle the request that the device waits on, once. -/
def serve (settings : Server.Settings) (auth : Server.Auth) (now : DateTime) : Option Replica :=
  match r.answer, r.device.phase, r.device.phase.request with
  | some _, _, _ => none
  | none, _, some req =>
    (r.db.push settings auth now req).toOption.map (fun (results, db) =>
      { r with db, answer := some (.results results) })
  | none, .pulling pull, none =>
    some { r with answer := some (.page (r.db.pull auth ⟨pull.cursors, some opts.size⟩)) }
  | none, _, none => none

/-- Hand the answer to the device. -/
def receive : Option Replica :=
  match r.answer with
  | none => none
  | some (.results results) =>
    (r.device.step opts (.answered results)).map (fun device => { r with device, answer := none })
  | some (.page resp) =>
    (r.device.step opts (.page resp)).map (fun device => { r with device, answer := none })

/-- A step of the device alone. When its pass ends, the answer it waited for is lost. -/
def alone : SyncStep → Option Replica
  | .answered _ => none
  | .page _ => none
  | .abort => some { r with device := r.device.stop, answer := none }
  | l => (r.device.step opts l).map (fun device => { r with device })

def step : ReplicaStep → Option Replica
  | .device l => r.alone opts l
  | .serve settings auth now => r.serve opts settings auth now
  | .receive => r.receive opts
  | .write w => (r.db.write w).toOption.map (fun db => { r with db })

end

end Replica

/-- The runs of a device that has pulled nothing, with personal vault `p`, and a server without
entities. -/
def replicaSystem [Boxes] (opts : SyncOptions) (p : Uuid) : TransitionSystem Replica ReplicaStep where
  init r := r.device.phase = .idle ∧ r.device.tasks = [] ∧ r.answer = none
    ∧ r.device.store.Home p ∧ r.device.store.entities = .empty
    ∧ (∀ v, r.device.store.cursor v = 0)
    ∧ Server.feedSystem.init r.db ∧ ∀ v, 0 ≤ r.db.vaultSeq v
  step r l := r.step opts l

/-- Only synced vaults are pulled. -/
def Core.SyncCommand.Homely (s : Store) : SyncCommand → Prop
  | .syncVault id => s.Synced id
  | .pullEntities ids => ∀ id ∈ ids, s.Synced id
  | _ => True

/-- Every identifier is used in its home only, only synced vaults are pulled, and `p` stays the
personal vault. -/
def Homely (home : Uuid → Uuid) (p : Uuid) (r : Replica) : ReplicaStep → Prop
  | .device (.edit op) => op.Homely home
  | .device (.start command) => command.Homely r.device.store
  | .device (.listed _ remote _) => ∀ v ∈ remote, v.kind = .personal ↔ v.id = p
  | .write w => w.Homely home
  | _ => True

/-- The device has an entity at the version of the server; or the entity is deleted, and its row is
gone or was never pushed. -/
def Core.Store.TakenOver (s : Store) (e : SyncEntity) : Prop :=
  (∃ row, s.row e.id = some row ∧ row.version = e.version)
    ∨ e.deleted = true ∧ ∀ row, s.row e.id = some row → row.version ≤ 0

/-! ### What the device has in hand -/

/-- Rows to be pushed are at home, and those the server never saw stand for no live entity that a
cursor has passed. -/
def Snapshot (opts : SyncOptions) (home : Uuid → Uuid) (p : Uuid) (db : Server.Db) (s : Store)
    (rows : List EntityRow) : Prop :=
  ∀ r ∈ rows, r.vaultId = home r.id ∧ (r.version ≤ 0 → ∀ e, db.entities.get? r.id = some e →
    Followed opts p e → e.seq ≤ s.cursor e.vaultId → e.deleted = true)

/-- A pull reads on from the cursors that are stored, and skips at most the credentials of `p`. -/
structure Core.Pulling.Reads (opts : SyncOptions) (p : Uuid) (s : Store) (pull : Pulling) : Prop where
  cursors : ∀ v w, pull.cursors.get? v = some w →
    (s.vaults.get? v).isSome ∧ w.2 = s.cursor v ∧ s.Synced v
  skips : ∀ v, pull.localVault = some v → v = p ∧ opts.syncCredentials = false

/-- A page was read from a database that has advanced since, and what is no longer to be applied of it
is mirrored. -/
def Leafs (opts : SyncOptions) (home : Uuid → Uuid) (p : Uuid) (db : Server.Db) (s : Store)
    (pull : Pulling) (entities : List SyncEntity) (resp : PullResponse) : Prop :=
  ∃ db₀ auth, Server.Db.Advances db₀ db ∧ Server.Numbered db₀ ∧ Server.Db.Housed home db₀
    ∧ (∀ v, s.cursor v ≤ db₀.vaultSeq v)
    ∧ resp = db₀.pull auth ⟨pull.cursors, some opts.size⟩
    ∧ (∀ x ∈ entities, x ∈ resp.entities)
    ∧ ∀ x ∈ resp.entities, db.entities.get? x.id = some x → Followed opts p x →
      x ∈ entities ∨ s.Mirrors x

/-- What the engine has in hand keeps the store level. -/
def Core.SyncPhase.Level (opts : SyncOptions) (home : Uuid → Uuid) (p : Uuid) (db : Server.Db)
    (s : Store) : SyncPhase → Prop
  | .preparing push todo req => Snapshot opts home p db s push.rest.flatten
      ∧ Snapshot opts home p db s todo ∧ ∀ c ∈ req.changes, c.vaultId = home c.id
  | .pushing push req => Snapshot opts home p db s push.rest.flatten
      ∧ ∀ c ∈ req.changes, c.vaultId = home c.id
  | .applying push results => Snapshot opts home p db s push.rest.flatten
      ∧ ∀ r ∈ results, Server.Db.Stands home s.cursor db r
  | .pulling pull => pull.Reads opts p s
  | .pulled pull entities resp => pull.Reads opts p s
      ∧ Leafs opts home p db s pull entities resp
  | .purging _ req => req.changes = []
  | .purged _ results => ∀ r ∈ results, Server.Db.Stands home s.cursor db r
  | .idle => True
  | .refreshing _ => True

/-- What is on its way keeps the store level. -/
def ServerAnswer.Level (opts : SyncOptions) (home : Uuid → Uuid) (p : Uuid) (db : Server.Db)
    (s : Store) (phase : SyncPhase) : ServerAnswer → Prop
  | .results answered => phase.request.isSome
      ∧ ∀ r ∈ answered, Server.Db.Stands home s.cursor db r
  | .page resp => ∃ pull, phase = .pulling pull
      ∧ Leafs opts home p db s pull resp.entities resp

/-- The store of a device is level with the server, and stays so with what the device has in hand. -/
structure Core.SyncDevice.Level (opts : SyncOptions) (home : Uuid → Uuid) (p : Uuid)
    (db : Server.Db) (d : SyncDevice) : Prop where
  vaults : d.store.Home p
  store : Store.Level opts home p db d.store
  tasks : ∀ ids, .pull ids ∈ d.tasks → ∀ id ∈ ids, d.store.Synced id
  phase : d.phase.Level opts home p db d.store

/-- The device of a replica is level with its server, and stays so with what is on its way. -/
structure Replica.Level (opts : SyncOptions) (home : Uuid → Uuid) (p : Uuid) (r : Replica) : Prop where
  numbered : Server.Numbered r.db
  housed : Server.Db.Housed home r.db
  device : r.device.Level opts home p r.db
  answer : ∀ a, r.answer = some a → a.Level opts home p r.db r.device.store r.device.phase

section
variable {opts : SyncOptions} {home : Uuid → Uuid} {p : Uuid} {db db' : Server.Db} {s s' : Store}

/-! ### The server goes on -/

theorem Snapshot.advances {rows : List EntityRow} (h : Snapshot opts home p db s rows)
    (hcursor : ∀ v, s.cursor v ≤ db.vaultSeq v) (hdb : Server.Db.Advances db db') :
  Snapshot opts home p db' s rows
  := by
  intro r hr
  refine ⟨(h r hr).1, fun hversion e he hfollowed hseq => ?_⟩
  exact (h r hr).2 hversion e (hdb.get?_of_le he (hseq.trans (hcursor _))) hfollowed hseq

theorem Leafs.advances {pull : Pulling} {entities : List SyncEntity} {resp : PullResponse}
    (h : Leafs opts home p db s pull entities resp) (hdb : Server.Db.Advances db db') :
  Leafs opts home p db' s pull entities resp
  := by
  obtain ⟨db₀, auth, hadvances, hnumbered, hhoused, hcursor, rfl, hsub, hdone⟩ := h
  refine ⟨db₀, auth, hadvances.trans hdb, hnumbered, hhoused, hcursor, rfl, hsub, ?_⟩
  intro x hx hget
  apply hdone x hx
  apply hdb.get?_of_le hget
  have hmem := Table.mem_of_get? (Server.Db.get?_of_mem_pull hx)
  exact (hnumbered.entities.le x hmem).trans (hadvances.vaultSeq _)

theorem Core.SyncPhase.Level.advances {phase : SyncPhase} (h : phase.Level opts home p db s)
    (hcursor : ∀ v, s.cursor v ≤ db.vaultSeq v) (hdb : Server.Db.Advances db db') :
  phase.Level opts home p db' s
  := by
  cases phase with
  | idle => trivial
  | preparing push todo req =>
      exact ⟨h.1.advances hcursor hdb, h.2.1.advances hcursor hdb, h.2.2⟩
  | pushing push req => exact ⟨h.1.advances hcursor hdb, h.2⟩
  | applying push results =>
      exact ⟨h.1.advances hcursor hdb, fun r hr => (h.2 r hr).advances hdb hcursor⟩
  | refreshing push => trivial
  | pulling pull => exact h
  | pulled pull entities resp => exact ⟨h.1, h.2.advances hdb⟩
  | purging purge req => exact h
  | purged purge results => exact fun r hr => (h r hr).advances hdb hcursor

theorem ServerAnswer.Level.advances {phase : SyncPhase} {a : ServerAnswer}
    (h : a.Level opts home p db s phase) (hcursor : ∀ v, s.cursor v ≤ db.vaultSeq v)
    (hdb : Server.Db.Advances db db') :
  a.Level opts home p db' s phase
  := by
  cases a with
  | results results => exact ⟨h.1, fun r hr => (h.2 r hr).advances hdb hcursor⟩
  | page resp =>
      obtain ⟨pull, hphase, hpage⟩ := h
      exact ⟨pull, hphase, hpage.advances hdb⟩

/-! ### The user edits the store -/

theorem Snapshot.congr {rows : List EntityRow} (h : Snapshot opts home p db s rows)
    (hcursor : s'.cursor = s.cursor) :
  Snapshot opts home p db s' rows
  := by
  rw [Snapshot, hcursor]
  exact h

theorem Core.Pulling.Reads.congr {pull : Pulling} (h : pull.Reads opts p s)
    (hvaults : s'.vaults = s.vaults) :
  pull.Reads opts p s'
  where
  cursors := by
    rw [Store.cursor_congr hvaults, Store.synced_congr hvaults, hvaults]
    exact h.cursors
  skips := h.skips

/-- What was applied of a page stays mirrored, when every mirrored entity of its vaults does. -/
theorem Leafs.of_mirrors {pull : Pulling} {entities : List SyncEntity} {resp : PullResponse}
    (h : Leafs opts home p db s pull entities resp) (hvaults : s'.vaults = s.vaults)
    (hmirrors : ∀ id e, db.entities.get? id = some e → (pull.cursors.get? e.vaultId).isSome →
      s.Mirrors e → s'.Mirrors e) :
  Leafs opts home p db s' pull entities resp
  := by
  obtain ⟨db₀, auth, hadvances, hnumbered, hhoused, hcursor, rfl, hsub, hdone⟩ := h
  refine ⟨db₀, auth, hadvances, hnumbered, hhoused, ?_, rfl, hsub, ?_⟩
  · rw [Store.cursor_congr hvaults]
    exact hcursor
  · intro x hx hget hfollowed
    apply (hdone x hx hget hfollowed).imp_right
    exact hmirrors _ x hget (Server.Db.isSome_cursor_of_mem_pull hx)

/-- An edit that keeps the entities of synced vaults mirrored leaves what is in hand right. -/
theorem Core.SyncPhase.Level.edit {phase : SyncPhase} (h : phase.Level opts home p db s)
    (hvaults : s'.vaults = s.vaults)
    (hmirrors : ∀ id e, db.entities.get? id = some e → s.Synced e.vaultId →
      s.Mirrors e → s'.Mirrors e) :
  phase.Level opts home p db s'
  := by
  have hcursor := Store.cursor_congr hvaults
  cases phase with
  | idle => trivial
  | preparing push todo req => exact ⟨h.1.congr hcursor, h.2.1.congr hcursor, h.2.2⟩
  | pushing push req => exact ⟨h.1.congr hcursor, h.2⟩
  | applying push results =>
      rw [SyncPhase.Level, hcursor]
      exact ⟨h.1.congr hcursor, h.2⟩
  | refreshing push => trivial
  | pulling pull => exact h.congr hvaults
  | pulled pull entities resp =>
      refine ⟨h.1.congr hvaults, h.2.of_mirrors hvaults ?_⟩
      intro id e he hasked
      obtain ⟨w, hw⟩ := Option.isSome_iff_exists.mp hasked
      exact hmirrors id e he (h.1.cursors _ w hw).2.2
  | purging purge req => exact h
  | purged purge results =>
      rw [SyncPhase.Level, hcursor]
      exact h

theorem ServerAnswer.Level.edit {phase : SyncPhase} {a : ServerAnswer}
    (h : a.Level opts home p db s phase) (hphase : phase.Level opts home p db s)
    (hvaults : s'.vaults = s.vaults)
    (hmirrors : ∀ id e, db.entities.get? id = some e → s.Synced e.vaultId →
      s.Mirrors e → s'.Mirrors e) :
  a.Level opts home p db s' phase
  := by
  cases a with
  | results results =>
      rw [ServerAnswer.Level, Store.cursor_congr hvaults]
      exact h
  | page resp =>
      obtain ⟨pull, rfl, hpage⟩ := h
      refine ⟨pull, rfl, hpage.of_mirrors hvaults ?_⟩
      intro id e he hasked
      obtain ⟨w, hw⟩ := Option.isSome_iff_exists.mp hasked
      exact hmirrors id e he (Pulling.Reads.cursors hphase _ w hw).2.2

/-! ### The engine works by itself -/

/-- Rows taken from a level store may be pushed. -/
theorem snapshot_dirtyRows (hdb : Server.Db.Housed home db) (h : Store.Level opts home p db s)
    (vaultId : Uuid) (f : EntityRow → Bool) :
  Snapshot opts home p db s ((s.dirtyRows vaultId).filter f)
  := by
  intro r hr
  obtain ⟨hrow, -⟩ := Store.mem_dirtyRows.mp (List.mem_of_mem_filter hr)
  refine ⟨h.vaultId _ r hrow, fun hversion e he hfollowed hseq => ?_⟩
  obtain hid : e.id = r.id := Table.key_of_get? he
  rw [← hid] at hrow
  exact (h.mirrors _ e he hfollowed hseq).deleted_of_le (hdb.version _ e he) hrow hversion

namespace Core

theorem Store.vaults_applied {policy : ConflictPolicy} {push : Pushing} {result : PushResult}
    (h : Store.Applied policy push s result s') :
  s'.vaults = s.vaults
  := by
  cases h with
  | marked => exact Store.vaults_markPushed
  | kept => rfl
  | taken _ _ htake => exact Store.vaults_applyRemote htake
  | gone => exact Store.vaults_markPushed
  | missing => rfl
  | strange => rfl
  | refused => rfl

namespace SyncDevice

variable {d d' : SyncDevice} {push : Pushing}

theorem Level.of_phase (h : d.Level opts home p db) {phase : SyncPhase}
    (hphase : phase.Level opts home p db d.store) :
  ({ d with phase } : SyncDevice).Level opts home p db
  := ⟨h.vaults, h.store, h.tasks, hphase⟩

theorem Level.stop (h : d.Level opts home p db) :
  d.stop.Level opts home p db
  := ⟨h.vaults, h.store, (fun ids hids => by cases hids), trivial⟩

/-- A statement of the engine, and what it leaves in hand. -/
theorem Level.of_store (h : d.Level opts home p db) (hvaults : s'.vaults = d.store.vaults)
    (hhome : s'.Home p) (hstore : Store.Level opts home p db s') {phase : SyncPhase}
    (hphase : phase.Level opts home p db s') (report : SyncReport) :
  ({ d with store := s', phase, report } : SyncDevice).Level opts home p db
  := by
  refine ⟨hhome, hstore, ?_, hphase⟩
  intro ids hids id hid
  change s'.Synced id
  rw [Store.synced_congr hvaults]
  exact h.tasks ids hids id hid

theorem Level.afterPush (h : d.Level opts home p db) :
  (d.afterPush push).Level opts home p db
  := by
  refine ⟨h.vaults, h.store, ?_, trivial⟩
  intro ids hids
  apply h.tasks ids
  rw [SyncDevice.afterPush] at hids
  dsimp only at hids
  split at hids
  · exact (List.mem_cons.mp hids).resolve_left (fun heq => by cases heq)
  · exact hids

theorem Level.nextChunk (h : d.Level opts home p db)
    (hrest : Snapshot opts home p db d.store push.rest.flatten) :
  (d.nextChunk push).Level opts home p db
  := by
  rw [SyncDevice.nextChunk]
  split
  · rename_i chunk rest heq
    rw [heq, List.flatten_cons] at hrest
    apply h.of_phase
    refine ⟨fun r hr => hrest r (List.mem_append_right _ hr),
      fun r hr => hrest r (List.mem_append_left _ hr), ?_⟩
    intro c hc
    cases hc
  · split
    · exact h.of_phase trivial
    · exact h.afterPush

theorem Level.startPush (hdb : Server.Db.Housed home db) (h : d.Level opts home p db)
    (vaultId : Uuid) (again : ℕ) :
  (d.startPush opts vaultId again).Level opts home p db
  := by
  apply h.nextChunk
  rw [flatten_toChunks]
  exact snapshot_dirtyRows hdb h.store _ _

/-- A pull reads on from the cursors that are stored. -/
theorem Level.startPull (h : d.Level opts home p db) {vaultIds : List Uuid}
    (hsynced : ∀ id ∈ vaultIds, d.store.Synced id) :
  (d.startPull opts vaultIds).Level opts home p db
  := by
  rw [SyncDevice.startPull]
  split
  · exact h.of_phase trivial
  split
  · rename_i cursors hcursors
    apply h.of_phase
    constructor
    · intro v w hw
      rw [Store.readCursors_eq_ok hcursors] at hw
      split at hw
      · rename_i hmem
        obtain ⟨l, hl, rfl⟩ := Option.map_eq_some_iff.mp hw
        refine ⟨by rw [hl]; rfl, ?_, hsynced v hmem⟩
        rw [Store.cursor, hl]
        rfl
      · rw [Table.get?_empty] at hw
        cases hw
    · intro v hv
      rw [SyncOptions.localCredentialsVault] at hv
      split at hv
      · cases hv
      · rename_i hopts
        obtain ⟨l, hl, rfl⟩ := Option.map_eq_some_iff.mp hv
        obtain ⟨hget, hkind⟩ := Store.personalVault_eq_some hl
        exact ⟨(h.vaults.personal _ _ hget).mp hkind, by simpa using hopts⟩
  · exact h.stop

/-- A row that goes into a request is at home, and a tombstone that the server never saw stands for
no live entity. -/
theorem Level.prepare (h : d.Level opts home p db) {todo : List EntityRow} {req : PushRequest}
    {r : EntityRow} (hphase : d.phase = .preparing push (r :: todo) req) :
  (d.prepare push todo req r).Level opts home p db
  := by
  have hhand := h.phase
  rw [hphase] at hhand
  obtain ⟨hrest, htodo, hreq⟩ := hhand
  obtain ⟨hhome, hnew⟩ := htodo r List.mem_cons_self
  have htodo' : Snapshot opts home p db d.store todo :=
    fun r' hr' => htodo r' (List.mem_cons_of_mem _ hr')
  rw [SyncDevice.prepare]
  split
  · split
    · exact h.of_phase ⟨hrest, htodo', hreq⟩
    · rename_i hversion
      have hvaults : (d.store.markPushed r.id 0 0).vaults = d.store.vaults := Store.vaults_markPushed
      have hcursor := Store.cursor_congr hvaults
      apply h.of_store hvaults ((Store.home_keeps p).marked _ _ _ h.vaults)
      · apply h.store.markPushed (.inl le_rfl)
        intro e he hfollowed hseq
        exact ⟨hnew (not_lt.mp hversion) e he hfollowed hseq, .inr le_rfl⟩
      · exact ⟨hrest.congr hcursor, htodo'.congr hcursor, hreq⟩
  · apply h.of_phase
    refine ⟨hrest, htodo', ?_⟩
    intro c hc
    rcases List.mem_append.mp hc with hc | hc
    · exact hreq c hc
    · rw [List.mem_singleton.mp hc]
      exact hhome

/-- The results of a push are applied. -/
theorem Level.apply (h : d.Level opts home p db) {results : List PushResult} {result : PushResult}
    (hphase : d.phase = .applying push (result :: results)) :
  (d.apply opts push results result).Level opts home p db
  := by
  have hhand := h.phase
  rw [hphase] at hhand
  obtain ⟨hrest, hresults⟩ := hhand
  rw [SyncDevice.apply]
  split
  · rename_i store push' report hres
    obtain ⟨happlied, hpush'⟩ := Store.applyResult_eq_ok hres
    have hvaults := Store.vaults_applied happlied
    have hcursor := Store.cursor_congr hvaults
    apply h.of_store hvaults (keeps_applied (Store.home_keeps p) h.vaults happlied)
    · exact h.store.applied (hresults result List.mem_cons_self) happlied
    · rw [hpush', SyncPhase.Level, hcursor]
      exact ⟨hrest.congr hcursor, fun r hr => hresults r (List.mem_cons_of_mem _ hr)⟩
  · exact h.stop

/-- An entity of a page is applied, or skipped. -/
theorem Level.mirror (h : d.Level opts home p db) {pull : Pulling} {entities : List SyncEntity}
    {resp : PullResponse} {x : SyncEntity} (hphase : d.phase = .pulled pull (x :: entities) resp) :
  (d.mirror opts pull entities resp x).Level opts home p db
  := by
  have hhand := h.phase
  rw [hphase] at hhand
  obtain ⟨hreads, db₀, auth, hadvances, hnumbered, hhoused, hcursor, rfl, hsub, hdone⟩ := hhand
  have hx := Server.Db.get?_of_mem_pull (hsub x List.mem_cons_self)
  have hsub' : ∀ y ∈ entities, y ∈ (db₀.pull auth ⟨pull.cursors, some opts.size⟩).entities :=
    fun y hy => hsub y (List.mem_cons_of_mem _ hy)
  have hsame : ∀ {e}, db₀.entities.get? e.id = some e → e.id = x.id → e = x := by
    intro e he hid
    rw [hid, hx] at he
    cases he
    rfl
  rw [SyncDevice.mirror]
  split
  · -- a credential of the personal vault is not followed
    rename_i hskip
    obtain ⟨hp, hopts⟩ := hreads.skips _ hskip.1
    apply h.of_phase
    refine ⟨hreads, db₀, auth, hadvances, hnumbered, hhoused, hcursor, rfl, hsub', ?_⟩
    intro y hy hget hfollowed
    rcases hdone y hy hget hfollowed with hmem | hmirrors
    · rcases List.mem_cons.mp hmem with rfl | hmem
      · rcases hfollowed with hsync | hnot
        · rw [hsync] at hopts
          cases hopts
        · exact absurd ⟨hp, hskip.2⟩ hnot
      · exact .inl hmem
    · exact .inr hmirrors
  split
  · rename_i store changed hres
    have hvaults := Store.vaults_applyPulled hres
    have hcursor' := Store.cursor_congr hvaults
    apply h.of_store hvaults
    · rcases Store.applyPulled_eq_ok hres with ⟨-, rfl, -⟩ | ⟨-, rfl, -⟩ | ⟨-, htake, -⟩
      · exact h.vaults
      · exact (Store.home_keeps p).rebased _ _ _ h.vaults
      · exact (Store.home_keeps p).taken _ h.vaults htake
    · apply h.store.applyPulled (hhoused.vaultId _ x hx) (.inr (hadvances.version _ x hx)) _ hres
      intro e he _ hseq
      have he₀ := hadvances.get?_of_le he (hseq.trans (hcursor _))
      rw [hx] at he₀
      cases he₀
      rfl
    · refine ⟨hreads.congr hvaults, db₀, auth, hadvances, hnumbered, hhoused, ?_, rfl, hsub', ?_⟩
      · rw [hcursor']
        exact hcursor
      · intro y hy hget hfollowed
        have hy₀ := Server.Db.get?_of_mem_pull hy
        by_cases hid : y.id = x.id
        · rw [hsame hy₀ hid]
          exact .inr (Store.mirrors_applyPulled hres)
        rcases hdone y hy hget hfollowed with hmem | hmirrors
        · rcases List.mem_cons.mp hmem with rfl | hmem
          · exact absurd rfl hid
          · exact .inl hmem
        · exact .inr (hmirrors.of_row (Store.row_applyPulled hres hid))
  · exact h.stop

/-- Cursors move on to where everything before them is mirrored. -/
theorem Level.saveCursors (h : d.Level opts home p db) {pull : Pulling} {l : List (Uuid × ℤ)}
    (hreads : pull.Reads opts p d.store)
    (hl : ∀ w ∈ l, w.2 ≤ db.vaultSeq w.1 ∧ ∀ id e, db.entities.get? id = some e →
      Followed opts p e → e.vaultId = w.1 → e.seq ≤ w.2 → d.store.Mirrors e) :
  ({ d with store := (d.store.saveCursors pull.cursors l).1, phase := .idle } : SyncDevice).Level
      opts home p db
    ∧ Pulling.Reads opts p (d.store.saveCursors pull.cursors l).1
      { pull with cursors := (d.store.saveCursors pull.cursors l).2 }
  := by
  induction l generalizing d pull with
  | nil => exact ⟨h.of_phase trivial, hreads⟩
  | cons w l ih =>
      obtain ⟨id, c⟩ := w
      have hl' := fun w hw => hl w (List.mem_cons_of_mem _ hw)
      rw [Store.saveCursors]
      split
      swap
      · exact ih h hreads hl'
      rename_i hahead
      obtain ⟨w, hw, -⟩ := (Option.any_eq_true _ _).mp hahead
      obtain ⟨hsome, -, hsynced⟩ := hreads.cursors id w hw
      obtain ⟨hle, hmirrors⟩ := hl (id, c) List.mem_cons_self
      have hcursor : ∀ v, (d.store.setVaultCursor id c).cursor v
          = if v = id then c else d.store.cursor v := by
        intro v
        rw [Store.cursor_setVaultCursor]
        simp only [hsome, and_true]
      have hd : ({ d with store := d.store.setVaultCursor id c, phase := .idle } :
          SyncDevice).Level opts home p db := by
        refine ⟨(Store.home_keeps p).cursor _ _ h.vaults,
          h.store.setVaultCursor hle (fun _ => hsynced) hmirrors, ?_, trivial⟩
        intro ids hids v hv
        exact Store.synced_setVaultCursor.mpr (h.tasks ids hids v hv)
      have hreads' : Pulling.Reads opts p (d.store.setVaultCursor id c)
          { pull with cursors := pull.cursors.put id c } := by
        refine ⟨?_, hreads.skips⟩
        intro v w' hw'
        rw [Store.synced_setVaultCursor, hcursor, Store.vaults_setVaultCursor]
        dsimp only at hw'
        rw [Cursors.get?_put] at hw'
        split
        · rename_i hv
          rw [if_pos hv] at hw'
          cases hw'
          exact ⟨by rw [Option.isSome_map]; exact hsome, rfl, hv ▸ hsynced⟩
        · rename_i hv
          rw [if_neg hv] at hw'
          exact hreads.cursors v w' hw'
      exact ih hd hreads' (fun w hw => ⟨(hl' w hw).1, fun id' e he hfollowed hv hseq =>
        ((hl' w hw).2 id' e he hfollowed hv hseq).of_row rfl⟩)

/-- The cursors of a page are saved when all of it was applied. -/
theorem Level.finishPage (h : d.Level opts home p db) {pull : Pulling} {resp : PullResponse}
    (hphase : d.phase = .pulled pull [] resp) :
  (d.finishPage pull resp).Level opts home p db
  := by
  have hhand := h.phase
  rw [hphase] at hhand
  obtain ⟨hreads, db₀, auth, hadvances, hnumbered, hhoused, hcursor, rfl, -, hdone⟩ := hhand
  obtain ⟨hd, hreads'⟩ := h.saveCursors hreads
    (l := (db₀.pull auth ⟨pull.cursors, some opts.size⟩).cursors.rows) (by
      intro w hw
      have hget := Table.get?_of_mem hw
      have hle : w.2 ≤ db₀.vaultSeq w.1 := by
        apply Server.Db.cursor_le_of_pull hnumbered _ hget
        intro v w' hw'
        rw [(hreads.cursors v w' hw').2.1]
        exact hcursor v
      refine ⟨hle.trans (hadvances.vaultSeq _), ?_⟩
      intro id e he hfollowed hv hseq
      obtain rfl : e.id = id := Table.key_of_get? he
      have he₀ := hadvances.get?_of_le he (hseq.trans (hv ▸ hle))
      have hget' : (db₀.pull auth ⟨pull.cursors, some opts.size⟩).cursors.get? e.vaultId = some w :=
        hv ▸ hget
      rcases Server.Db.mem_pull_of_le (Server.Db.entitySeqsDistinct_of_numbered hnumbered) he₀ hget'
        hseq with hmem | ⟨since, hsince, hold⟩
      · rcases hdone e hmem he hfollowed with hnone | hmirrors
        · cases hnone
        · exact hmirrors
      · apply h.store.mirrors _ e he hfollowed
        rw [← (hreads.cursors _ _ hsince).2.1]
        exact hold)
  rw [SyncDevice.finishPage]
  dsimp only
  split
  · exact hd.of_phase hreads'
  · exact hd

theorem level_nextPurge (h : d.Level opts home p db) (purge : Purging) :
  (d.nextPurge opts purge).Level opts home p db
  := by
  rw [nextPurge]
  split
  · exact h.of_phase rfl
  · split
    · exact h.of_phase rfl
    · exact h.of_phase trivial

/-- The results of a purge are applied. -/
theorem Level.unpublish (h : d.Level opts home p db) {purge : Purging} {results : List PushResult}
    {result : PushResult} (hphase : d.phase = .purged purge (result :: results)) :
  (d.unpublish purge results result).Level opts home p db
  := by
  have hresults := h.phase
  rw [hphase] at hresults
  have hstands := hresults result List.mem_cons_self
  have hrest : ∀ r ∈ results, Server.Db.Stands home d.store.cursor db r :=
    fun r hr => hresults r (List.mem_cons_of_mem _ hr)
  have hrebased : ∀ {id version seq purge},
      Store.Level opts home p db (d.store.rebaseLocal id version seq) →
      ({ d with store := d.store.rebaseLocal id version seq, phase := .purged purge results } :
        SyncDevice).Level opts home p db := by
    intro id version seq purge hstore
    have hhand : (SyncPhase.purged purge results).Level opts home p db
        (d.store.rebaseLocal id version seq) := hrest
    exact h.of_store Store.vaults_rebaseLocal ((Store.home_keeps p).rebased _ _ _ h.vaults) hstore
      hhand d.report
  cases result with
  | ok id version seq =>
      apply hrebased
      apply h.store.rebaseLocal (.inr hstands.1)
      exact fun e he _ hseq => (hstands.2 e he hseq).2
  | conflict id server =>
      obtain ⟨-, -, hreached, hcopy⟩ := hstands
      apply hrebased
      apply h.store.rebaseLocal (.inr hreached)
      intro e he _ hseq
      rw [hcopy e he hseq]
  | error id code =>
      rw [SyncDevice.unpublish]
      split
      · rename_i hcode
        apply hrebased
        apply h.store.rebaseLocal (.inl le_rfl)
        intro e he _ hseq
        exact absurd hseq (not_le.mpr (hstands hcode e he))
      · exact h.stop

/-- The engine keeps the device level by itself. -/
theorem Level.advance (hdb : Server.Db.Housed home db) (h : d.Level opts home p db)
    (hstep : d.advance opts = some d') :
  d'.Level opts home p db
  := by
  rw [SyncDevice.advance] at hstep
  split at hstep
  · rename_i hphase
    have hidle : ∀ tasks, tasks ⊆ d.tasks →
        ({ d with tasks } : SyncDevice).Level opts home p db :=
      fun tasks hsub => ⟨h.vaults, h.store, fun ids hids => h.tasks ids (hsub hids), h.phase⟩
    split at hstep
    · cases hstep
    · rename_i vaultId again tasks htasks
      cases hstep
      exact (hidle tasks (by simp [htasks])).startPush hdb vaultId again
    · rename_i vaultIds tasks htasks
      cases hstep
      apply (hidle tasks (by simp [htasks])).startPull
      exact h.tasks vaultIds (by simp [htasks])
  · rename_i hphase
    cases hstep
    exact h.prepare hphase
  · rename_i push req hphase
    have hhand := h.phase
    rw [hphase] at hhand
    split at hstep
    · cases hstep
      exact h.nextChunk hhand.1
    · cases hstep
      exact h.of_phase ⟨hhand.1, hhand.2.2⟩
  · rename_i hphase
    cases hstep
    exact h.apply hphase
  · rename_i push hphase
    have hhand := h.phase
    rw [hphase] at hhand
    cases hstep
    exact h.nextChunk hhand.1
  · rename_i hphase
    cases hstep
    exact h.mirror hphase
  · rename_i hphase
    cases hstep
    exact h.finishPage hphase
  · rename_i hphase
    cases hstep
    exact h.unpublish hphase
  · cases hstep
    exact level_nextPurge h _
  all_goals cases hstep

theorem synced_of_mem {s : Store} {id : Uuid} (h : id ∈ syncedVaultIds s) :
  s.Synced id
  := by
  obtain ⟨v, hv, rfl⟩ := List.mem_map.mp h
  obtain ⟨hmem, hsynced⟩ := List.mem_filter.mp hv
  rw [Store.listVaults, List.mem_insertionSort] at hmem
  intro l hl
  have hget : s.vaults.get? v.id = some v := Table.get?_of_mem hmem
  rw [hget] at hl
  cases hl
  exact (Bool.and_eq_true _ _ ▸ hsynced).1

/-- A command keeps a device level that has nothing in hand. -/
theorem Level.begin (hdb : Server.Db.Housed home db) (h : d.Level opts home p db)
    (hidle : d.phase = .idle) {command : SyncCommand} (hcommand : command.Homely d.store) :
  (d.begin opts command).Level opts home p db
  := by
  have hpersonal : ∀ {v}, d.store.personalVault.filter LocalVault.unlocked = some v →
      d.store.Synced v.id := by
    intro v hv l hl
    obtain ⟨hget, hkind⟩ := Store.personalVault_eq_some (Option.filter_eq_some_iff.mp hv).1
    rw [hget] at hl
    cases hl
    rw [hkind]
    rfl
  cases command with
  | syncOnce =>
      refine ⟨h.vaults, h.store, ?_, h.phase⟩
      intro ids hids
      simp only [SyncDevice.begin, List.mem_append, List.mem_map, reduceCtorEq, and_false, exists_false,
        List.mem_singleton, SyncTask.pull.injEq, false_or] at hids
      rw [hids]
      exact fun id hid => synced_of_mem hid
  | syncVault id =>
      refine ⟨h.vaults, h.store, ?_, h.phase⟩
      intro ids hids id' hid'
      simp only [SyncDevice.begin, List.mem_cons, reduceCtorEq, SyncTask.pull.injEq, List.not_mem_nil,
        or_false, false_or] at hids
      rw [hids, List.mem_singleton] at hid'
      rw [hid']
      exact hcommand
  | pullEntities ids =>
      refine ⟨h.vaults, h.store, ?_, h.phase⟩
      intro ids' hids
      simp only [SyncDevice.begin, List.mem_singleton, SyncTask.pull.injEq] at hids
      rw [hids]
      exact hcommand
  | resyncCredentials =>
      rw [SyncDevice.begin]
      split
      · exact ⟨h.vaults, h.store, h.tasks, h.phase⟩
      · rename_i v hv
        refine ⟨(Store.home_keeps p).cursor _ _ h.vaults, ?_, ?_, ?_⟩
        · apply h.store.setVaultCursor (hdb.counter _)
          · intro hpos
            exact absurd hpos (lt_irrefl 0)
          · intro id e he _ _ hseq
            have := hdb.seq id e he
            omega
        · intro ids hids id hid
          simp only [List.mem_cons, reduceCtorEq, SyncTask.pull.injEq, List.not_mem_nil, or_false,
            false_or] at hids
          rw [hids, List.mem_singleton] at hid
          rw [hid]
          exact Store.synced_setVaultCursor.mpr (hpersonal hv)
        · dsimp only
          rw [hidle]
          trivial
  | purgeCredentials =>
      rw [SyncDevice.begin]
      split
      · exact h
      · exact level_nextPurge h _

end SyncDevice

end Core

end

/-! ### Every run -/

section
variable [Boxes] {opts : SyncOptions} {home : Uuid → Uuid} {p : Uuid} {r r' : Replica}

/-- The vault list is mirrored between two passes. -/
theorem Core.SyncDevice.Level.refreshed {db : Server.Db} {d : SyncDevice}
    (hdb : Server.Db.Housed home db) (h : d.Level opts home p db) {push : Pushing}
    {privateKey : KeyPair} {remote : List Vault} {nonce : ℕ → Uuid → Nonce}
    (hlist : ∀ v ∈ remote, v.kind = .personal ↔ v.id = p) :
  (d.refreshed push privateKey remote nonce).Level opts home p db
  := by
  obtain ⟨hstore, hsynced⟩ : Store.Level opts home p db
      ((applyVaultList privateKey remote nonce).final d.store) ∧ _ := h.store.refreshed hdb
  have hd : ({ d with
      store := (applyVaultList privateKey remote nonce).final d.store, phase := .idle } :
        SyncDevice).Level opts home p db :=
    ⟨h.vaults.refreshed hlist, hstore, fun ids hids id hid => hsynced id (h.tasks ids hids id hid),
      trivial⟩
  rw [SyncDevice.refreshed]
  split
  · exact hd.afterPush
  · exact hd.stop

/-- A local edit keeps the entities of synced vaults mirrored. -/
theorem Core.SyncDevice.Level.mirrors_edit {db : Server.Db} {d : SyncDevice} {s : Store}
    {op : EntityEdit} (hdb : Server.Db.Housed home db) (h : d.Level opts home p db)
    (hop : op.Homely home) (hedit : d.store.edit op = .ok s) :
  ∀ id e, db.entities.get? id = some e → d.store.Synced e.vaultId → d.store.Mirrors e → s.Mirrors e
  := by
  intro id e he hsynced hmirrors
  obtain rfl : e.id = id := Table.key_of_get? he
  exact hmirrors.edit hop h.store.vaultId (hdb.vaultId _ e he) (hdb.version _ e he) hsynced hedit

/-- What the device does keeps it level, given what the server answers. -/
theorem Core.SyncDevice.Level.step {db : Server.Db} {d d' : SyncDevice} {l : SyncStep}
    (hdb : Server.Db.Housed home db) (h : d.Level opts home p db)
    (hhomely : Homely home p ⟨d, db, none⟩ (.device l)) (hstep : d.step opts l = some d')
    (hanswered : ∀ results, l = .answered results →
      ∀ r ∈ results, Server.Db.Stands home d.store.cursor db r)
    (hpage : ∀ resp, l = .page resp → ∀ pull, d.phase = .pulling pull →
      Leafs opts home p db d.store pull resp.entities resp) :
  d'.Level opts home p db
  := by
  have hhand := h.phase
  cases l with
  | edit op =>
      obtain ⟨s, hs, rfl⟩ := Option.map_eq_some_iff.mp hstep
      rw [toOption_eq_some] at hs
      have hvaults := (Store.edit_cases hhomely h.store.vaultId hs).1
      exact h.of_store hvaults (h.vaults.edit hs) (h.store.edit hhomely hdb hs)
        (hhand.edit hvaults (h.mirrors_edit hdb hhomely hs)) d.report
  | start command =>
      rw [SyncDevice.step] at hstep
      split at hstep
      · rename_i hphase _
        cases hstep
        exact h.begin hdb hphase hhomely
      · cases hstep
  | next => exact h.advance hdb hstep
  | answered results =>
      rw [SyncDevice.step] at hstep
      split at hstep
      · rename_i push req hphase
        cases hstep
        rw [hphase] at hhand
        exact h.of_phase ⟨hhand.1, hanswered results rfl⟩
      · cases hstep
        exact h.of_phase (hanswered results rfl)
      · cases hstep
  | listed privateKey remote nonce =>
      rw [SyncDevice.step] at hstep
      split at hstep
      · cases hstep
        exact h.refreshed hdb hhomely
      · cases hstep
  | page resp =>
      rw [SyncDevice.step] at hstep
      split at hstep
      · rename_i pull hphase
        cases hstep
        rw [hphase] at hhand
        exact h.of_phase ⟨hhand, hpage resp rfl pull hphase⟩
      · cases hstep
  | abort =>
      cases hstep
      exact h.stop

omit [Boxes] in
theorem Core.SyncDevice.Level.advances {db db' : Server.Db} {d : SyncDevice}
    (h : d.Level opts home p db) (hdb : Server.Db.Advances db db') :
  d.Level opts home p db'
  := ⟨h.vaults, h.store.advances hdb, h.tasks, h.phase.advances h.store.cursor hdb⟩

/-- A device that an answer is on its way to does nothing by itself. -/
theorem ServerAnswer.Level.waits {db : Server.Db} {d d' : SyncDevice} {a : ServerAnswer}
    (h : a.Level opts home p db d.store d.phase) {l : SyncStep} (hstep : d.step opts l = some d') :
  (∃ op, l = .edit op) ∨ (∃ results, l = .answered results) ∨ (∃ resp, l = .page resp) ∨ l = .abort
  := by
  have hphase : (∃ push req, d.phase = .pushing push req) ∨ (∃ purge req, d.phase = .purging purge req)
      ∨ ∃ pull, d.phase = .pulling pull := by
    cases a with
    | results results =>
        obtain ⟨hrequest, -⟩ := h
        revert hrequest
        cases d.phase <;> simp [SyncPhase.request]
    | page resp =>
        obtain ⟨pull, hpull, -⟩ := h
        exact .inr (.inr ⟨pull, hpull⟩)
  cases l with
  | edit op => exact .inl ⟨op, rfl⟩
  | answered results => exact .inr (.inl ⟨results, rfl⟩)
  | page resp => exact .inr (.inr (.inl ⟨resp, rfl⟩))
  | abort => exact .inr (.inr (.inr rfl))
  | start command =>
      rcases hphase with ⟨_, _, hphase⟩ | ⟨_, _, hphase⟩ | ⟨_, hphase⟩ <;>
        simp [SyncDevice.step, hphase] at hstep
  | next =>
      rcases hphase with ⟨_, _, hphase⟩ | ⟨_, _, hphase⟩ | ⟨_, hphase⟩ <;>
        simp [SyncDevice.step, SyncDevice.advance, hphase] at hstep
  | listed privateKey remote nonce =>
      rcases hphase with ⟨_, _, hphase⟩ | ⟨_, _, hphase⟩ | ⟨_, hphase⟩ <;>
        simp [SyncDevice.step, hphase] at hstep

/-- A step of the device alone keeps a replica level. -/
theorem Replica.Level.alone (h : r.Level opts home p) {l : SyncStep}
    (hhomely : Homely home p r (.device l)) (hstep : r.alone opts l = some r') :
  r'.Level opts home p
  := by
  have hdevice : ∀ d', r.device.step opts l = some d' → (∀ results, l ≠ .answered results) →
      (∀ resp, l ≠ .page resp) → l ≠ .abort →
      ({ r with device := d' } : Replica).Level opts home p := by
    intro d' hd' hanswered hpage habort
    have hd := h.device.step (l := l) h.housed (by cases l <;> exact hhomely) hd'
      (fun results heq => absurd heq (hanswered results)) (fun resp heq => absurd heq (hpage resp))
    refine ⟨h.numbered, h.housed, hd, ?_⟩
    intro a ha
    rcases (h.answer a ha).waits hd' with ⟨op, rfl⟩ | ⟨results, heq⟩ | ⟨resp, heq⟩ | heq
    · obtain ⟨s, hs, rfl⟩ := Option.map_eq_some_iff.mp hd'
      rw [toOption_eq_some] at hs
      exact (h.answer a ha).edit h.device.phase
        (Store.edit_cases hhomely h.device.store.vaultId hs).1
        (h.device.mirrors_edit h.housed hhomely hs)
    · exact absurd heq (hanswered results)
    · exact absurd heq (hpage resp)
    · exact absurd heq habort
  cases l with
  | answered results => cases hstep
  | page resp => cases hstep
  | abort =>
      cases hstep
      exact ⟨h.numbered, h.housed, h.device.stop, fun a ha => by cases ha⟩
  | edit op =>
      obtain ⟨d', hd', rfl⟩ := Option.map_eq_some_iff.mp hstep
      apply hdevice d' hd' <;> simp
  | start command =>
      obtain ⟨d', hd', rfl⟩ := Option.map_eq_some_iff.mp hstep
      apply hdevice d' hd' <;> simp
  | next =>
      obtain ⟨d', hd', rfl⟩ := Option.map_eq_some_iff.mp hstep
      apply hdevice d' hd' <;> simp
  | listed privateKey remote nonce =>
      obtain ⟨d', hd', rfl⟩ := Option.map_eq_some_iff.mp hstep
      apply hdevice d' hd' <;> simp

/-- A request is served on the database as it is, and the answer is right about what the cursors have
passed. -/
theorem Replica.Level.serve (h : r.Level opts home p) {settings : Server.Settings}
    {auth : Server.Auth} {now : DateTime} (hstep : r.serve opts settings auth now = some r') :
  r'.Level opts home p
  := by
  have hhand := h.device.phase
  rw [Replica.serve] at hstep
  split at hstep
  · cases hstep
  · rename_i req hnone hreq
    obtain ⟨⟨results, db⟩, hpush, rfl⟩ := Option.map_eq_some_iff.mp hstep
    rw [toOption_eq_some] at hpush
    have hhome : ∀ c ∈ req.changes, c.vaultId = home c.id := by
      cases hphase : r.device.phase with
      | pushing push req' =>
          rw [hphase] at hreq hhand
          cases hreq
          exact hhand.2
      | purging purge req' =>
          rw [hphase] at hreq hhand
          cases hreq
          intro c hc
          rw [show req.changes = [] from hhand] at hc
          cases hc
      | _ =>
          rw [hphase] at hreq
          cases hreq
    have hadvances := Server.Db.advances_push hpush
    refine ⟨?_, (Server.Db.housed_push hhome h.housed hpush).1, h.device.advances hadvances, ?_⟩
    · apply Server.Db.numbered_of_write (w := .push settings auth now req) h.numbered
      exact map_eq_ok.mpr ⟨_, hpush, rfl⟩
    · intro a ha
      cases ha
      refine ⟨by rw [hreq]; rfl, ?_⟩
      exact Server.Db.stands_push h.device.store.cursor hhome h.housed hpush
  · rename_i pull hnone hphase hreq
    cases hstep
    refine ⟨h.numbered, h.housed, h.device, ?_⟩
    intro a ha
    cases ha
    exact ⟨pull, hphase, r.db, auth, .refl _, h.numbered, h.housed, h.device.store.cursor, rfl,
      fun x hx => hx, fun x hx _ _ => .inl hx⟩
  · cases hstep

/-- The device takes the answer that arrives. -/
theorem Replica.Level.receive (h : r.Level opts home p) (hstep : r.receive opts = some r') :
  r'.Level opts home p
  := by
  rw [Replica.receive] at hstep
  split at hstep
  · cases hstep
  · rename_i results ha
    obtain ⟨d', hd', rfl⟩ := Option.map_eq_some_iff.mp hstep
    have hanswer := h.answer _ ha
    refine ⟨h.numbered, h.housed, h.device.step (l := .answered results) h.housed trivial hd' ?_ ?_, ?_⟩
    · intro results' heq
      cases heq
      exact hanswer.2
    · exact fun resp heq => by cases heq
    · exact fun a ha => by cases ha
  · rename_i resp ha
    obtain ⟨d', hd', rfl⟩ := Option.map_eq_some_iff.mp hstep
    obtain ⟨pull, hphase, hpage⟩ := h.answer _ ha
    refine ⟨h.numbered, h.housed, h.device.step (l := .page resp) h.housed trivial hd' ?_ ?_, ?_⟩
    · exact fun results heq => by cases heq
    · intro resp' heq pull' hphase'
      cases heq
      rw [hphase] at hphase'
      cases hphase'
      exact hpage
    · exact fun a ha => by cases ha

/-- Every step keeps a replica level. -/
theorem level_step {l : ReplicaStep} (h : r.Level opts home p) (hhomely : Homely home p r l)
    (hstep : (replicaSystem opts p).step r l = some r') :
  r'.Level opts home p
  := by
  cases l with
  | device l => exact h.alone hhomely hstep
  | serve settings auth now => exact h.serve hstep
  | receive => exact h.receive hstep
  | write w =>
      obtain ⟨db, hdb, rfl⟩ := Option.map_eq_some_iff.mp hstep
      rw [toOption_eq_some] at hdb
      have hadvances := Server.Db.advances_write hdb
      exact ⟨Server.Db.numbered_of_write h.numbered hdb,
        Server.Db.housed_write hhomely h.housed hdb, h.device.advances hadvances,
        fun a ha => (h.answer a ha).advances h.device.store.cursor hadvances⟩

/-- Every replica is level. -/
theorem level_of_reaches (h : (replicaSystem opts p).Reaches (Homely home p) r) :
  r.Level opts home p
  := by
  apply h.invariant
  · rintro r ⟨hphase, htasks, hanswer, hhome, hrows, hcursor, ⟨hentities, -, hlogs⟩, hcounter⟩
    have hnone : ∀ id, r.db.entities.get? id = none := by
      intro id
      rw [hentities]
      exact Table.get?_empty id
    have hrow : ∀ id, r.device.store.row id = none := by
      intro id
      rw [Store.row, hrows]
      exact Table.get?_empty id
    refine ⟨?_, ⟨hcounter, ?_, ?_, ?_⟩, ⟨hhome, ⟨?_, ?_, ?_, ?_, ?_⟩, ?_, ?_⟩, ?_⟩
    · constructor
      · rw [hentities]
        exact Table.stamped_empty
      · rw [hlogs]
        exact Table.stamped_empty
      · rw [hlogs]
        exact Table.stamped_empty
    all_goals simp [hnone, hrow, hcursor, hphase, htasks, hanswer, hcounter, SyncPhase.Level]
  · intro r l r' h hhomely hstep
    exact level_step h hhomely hstep

omit [Boxes] in
/-- A mirrored entity was taken over, as no row is ahead of the server. -/
theorem Replica.Level.takenOver (h : r.Level opts home p) {e : SyncEntity}
    (he : r.db.entities.get? e.id = some e) (hmirrors : r.device.store.Mirrors e) :
  r.device.store.TakenOver e
  := by
  have hversion := h.housed.version _ e he
  cases hrow : r.device.store.row e.id with
  | none =>
      refine .inr ⟨hmirrors.gone hrow, fun row heq => ?_⟩
      rw [hrow] at heq
      cases heq
  | some row =>
      rcases hmirrors.row row hrow with hle | ⟨hdel, hzero⟩
      · left
        refine ⟨row, hrow, le_antisymm ?_ hle⟩
        rcases h.device.store.reached _ row hrow with hzero | ⟨e', he', hle'⟩
        · omega
        · rw [he] at he'
          cases he'
          exact hle'
      · refine .inr ⟨hdel, fun row' heq => ?_⟩
        rw [hrow] at heq
        cases heq
        exact hzero

end

/-! ### A vault that is pulled for the first time -/

open Symbolic

/-- A device that has pulled nothing, and a server without entities. -/
def newReplica : Replica where
  device :=
    { store :=
        { vaults := .single ⟨1, .personal, "Personal", none, .manager, some (Vector.replicate 32 0), 1,
            0, false, 0, false⟩
          entities := .empty, history := .empty, sessionLogs := .empty, account := none
          files _ := none }
      phase := .idle, tasks := [], report := ⟨0, 0, 0, []⟩ }
  db := { hostServer 0 with entities := .empty }
  answer := none

/-- Another device pushes a host, which the device then pulls up to the last step of its pass. -/
def firstPull : List ReplicaStep :=
  [.write (.push ⟨1000, 0, 0⟩ ⟨1, 9, none⟩ 5 ⟨[⟨none, 7, "host", 1, none, 1, "AAAA", 0⟩], []⟩),
    .device (.start .syncOnce), .device .next, .device .next, .serve ⟨1000, 0, 0⟩ ⟨1, 2, none⟩ 6,
    .receive, .device .next]

/-- The host, as the server has it. -/
def pushedHost : SyncEntity := ⟨some 5, 7, "host", 1, 1, 3, false, 1, "AAAA", 0, some 9⟩

theorem init_newReplica :
  (replicaSystem (resolving .newestWins) 1).init newReplica
  := by
  refine ⟨rfl, rfl, rfl, ⟨?_, ?_⟩, rfl, ?_, ⟨rfl, rfl, rfl⟩, ?_⟩
  · intro v l hl
    have hl' := List.mem_singleton.mp (Table.mem_of_get? hl)
    obtain rfl := Table.key_of_get? hl
    subst hl'
    exact iff_of_true rfl rfl
  · intro id row hrow
    cases hrow
  · intro v
    rw [Store.cursor]
    cases hl : newReplica.device.store.vaults.get? v with
    | none => rfl
    | some l =>
      rw [List.mem_singleton.mp (Table.mem_of_get? hl)]
      rfl
  · intro v
    rw [Server.Db.vaultSeq]
    cases hl : newReplica.db.vaults.get? v with
    | none => apply le_rfl
    | some l =>
      rw [List.mem_singleton.mp (Table.mem_of_get? hl)]
      decide

/-- The device when the page was applied, and when its cursor is saved. -/
def lastPage : Replica :=
  ((replicaSystem (resolving .newestWins) 1).run newReplica firstPull).get rfl

def pulledOnce : Replica :=
  ((replicaSystem (resolving .newestWins) 1).run lastPage [.device .next]).get rfl

theorem reaches_lastPage :
  (replicaSystem (resolving .newestWins) 1).Reaches (Homely (fun _ => 1) 1) lastPage
  := by
  have hrun : (replicaSystem (resolving .newestWins) 1).run newReplica firstPull = some lastPage :=
    (Option.some_get _).symm
  apply TransitionSystem.Reaches.run (.init init_newReplica) _ hrun
  refine ⟨?_, fun _ _ => ⟨trivial, fun _ _ => ⟨trivial, fun _ _ => ⟨trivial, fun _ _ => ⟨trivial,
    fun _ _ => ⟨trivial, fun _ _ => ⟨trivial, fun _ _ => trivial⟩⟩⟩⟩⟩⟩⟩
  intro c hc
  rw [List.mem_singleton.mp hc]

theorem reaches_pulledOnce :
  (replicaSystem (resolving .newestWins) 1).Reaches (Homely (fun _ => 1) 1) pulledOnce
  := by
  have hrun : (replicaSystem (resolving .newestWins) 1).run lastPage [.device .next]
      = some pulledOnce := (Option.some_get _).symm
  apply reaches_lastPage.run _ hrun
  exact ⟨trivial, fun _ _ => trivial⟩

end Termoso
