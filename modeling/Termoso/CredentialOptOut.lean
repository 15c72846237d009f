import Termoso.Core.Sync
import Termoso.Server.Sync
import Termoso.Server.Members
import Termoso.Lib.Transition

/-!
# Opting out of credential sync

An engine that does not sync credentials keeps the identities, keys and certificates of the
personal vault on the device: it does not push them, and it does not take those of the server.
The device notes the requests it sent and the server copies it took.

The filter of a push lets tombstones through.  When the push of the tombstone of a credential
ends in a conflict that is resolved for the server, the live credential of the server is taken
into the store, though a pull would have skipped it.
-/

namespace Termoso

open Core

/-! ### Runs with an honest server -/

/-- The request a device waits for. -/
def Core.SyncPhase.request : SyncPhase → Option PushRequest
  | .pushing _ req => some req
  | .purging _ req => some req
  | _ => none

/-- A device, the pushes it sent, and the server copies it took. -/
structure ObservedDevice where
  device : SyncDevice
  sent : List PushRequest
  received : List SyncEntity

/-- The server copy that the next step of the engine writes to the store. -/
def Core.SyncDevice.takes (opts : SyncOptions) (d : SyncDevice) : List SyncEntity :=
  match d.phase with
  | .applying push (.conflict id server :: _) =>
    match push.pushed id with
    | some loc =>
      match d.store.resolveConflict opts.conflict loc server with
      | .ok (_, false) => [server]
      | _ => []
    | none => []
  | .pulled pull (e :: _) _ =>
    if pull.localVault = some e.vaultId ∧ isCredentialKind e.kind = true then []
    else
      match d.store.applyPulled opts.conflict e with
      | .ok (_, true) => [e]
      | _ => []
  | _ => []

/-- The server copies that a step writes to the store. -/
def Core.SyncStep.takes (opts : SyncOptions) (d : SyncDevice) : SyncStep → List SyncEntity
  | .next => d.takes opts
  | _ => []

/-- The vaults of a device: `p` is the personal one, and every row is in one of them. -/
structure Core.Store.Home (p : Uuid) (s : Store) : Prop where
  personal : ∀ v l, s.vaults.get? v = some l → (l.kind = .personal ↔ v = p)
  vault : ∀ id r, s.row id = some r → (s.vaults.get? r.vaultId).isSome

section
variable [Boxes]

/-- A server that answers as the code does, from any database in which `p` is the personal vault
of the user. -/
def Honest (opts : SyncOptions) (p : Uuid) (d : SyncDevice) : SyncStep → Prop
  | .answered results => ∃ settings auth now db db' req, d.phase.request = some req
      ∧ Server.Db.push settings auth now db req = .ok (results, db')
  | .page resp => ∃ auth db pull, d.phase = .pulling pull
      ∧ resp = Server.Db.pull db auth ⟨pull.cursors, some opts.size⟩
  | .listed _ remote _ => ∃ db userId, remote = Server.Db.vaultList db userId
      ∧ ∀ v ∈ remote, v.kind = .personal ↔ v.id = p
  | _ => True

/-- The runs of a device with personal vault `p`, from any store. -/
def optOutSystem (opts : SyncOptions) (p : Uuid) : TransitionSystem ObservedDevice SyncStep where
  init o := o.device.phase = .idle ∧ o.device.tasks = [] ∧ o.device.store.Home p
    ∧ o.sent = [] ∧ o.received = []
  step o l := (o.device.step opts l).map (fun d =>
    { device := d
      sent := if o.device.phase.request.isNone then o.sent ++ d.phase.request.toList else o.sent
      received := o.received ++ l.takes opts o.device })

end

/-- A change of a credential of the vault `p`. -/
def EntityChange.Leaks (p : Uuid) (c : EntityChange) : Prop :=
  c.vaultId = p ∧ isCredentialKind c.kind = true

/-- A live credential of the vault `p`. -/
def SyncEntity.Leaks (p : Uuid) (e : SyncEntity) : Prop :=
  e.vaultId = p ∧ isCredentialKind e.kind = true ∧ e.deleted = false

/-- No credential of `p` was pushed, and none was taken from the server. -/
structure Airtight (p : Uuid) (o : ObservedDevice) : Prop where
  sent : ∀ req ∈ o.sent, ∀ c ∈ req.changes, ¬ c.Leaks p
  received : ∀ e ∈ o.received, ¬ e.Leaks p

/-- A step does not resolve a conflict for a live credential of `p` on the server. -/
def SparesCredentials (opts : SyncOptions) (p : Uuid) (d : SyncDevice) : SyncStep → Prop
  | .next => ∀ push id server results loc,
      d.phase = .applying push (.conflict id server :: results) → push.pushed id = some loc →
      opts.conflict.keepsLocal loc server = false → ¬ server.Leaks p
  | _ => True

/-! ### The vaults of the device -/

namespace Core.Store

variable {p : Uuid} {s s' : Store}

/-- The vault of the personal kind is the one the engine looks up. -/
theorem Home.personalVault (h : s.Home p) (hp : (s.vaults.get? p).isSome) :
  s.personalVault.map LocalVault.id = some p
  := by
  obtain ⟨l, hl⟩ := Option.isSome_iff_exists.mp hp
  have hid : l.id = p := Table.key_of_get? hl
  cases hv : s.personalVault with
  | none =>
      have hmem : l ∈ s.listVaults := by
        rw [listVaults, List.mem_insertionSort]
        exact Table.mem_of_get? hl
      have := List.find?_eq_none.mp hv l hmem
      simp [(h.personal p l hl).mpr rfl] at this
  | some v =>
      obtain ⟨hget, hkind⟩ := personalVault_eq_some hv
      rw [Option.map_some, (h.personal v.id v hget).mp hkind]

theorem Home.of_rows (h : s.Home p) (hvaults : s'.vaults = s.vaults)
    (hrows : ∀ id r, s'.row id = some r → (s.vaults.get? r.vaultId).isSome) :
  s'.Home p
  := by
  constructor
  · rw [hvaults]
    exact h.personal
  · rw [hvaults]
    exact hrows

/-- A vault that changes in anything but its kind is still the vault it was. -/
theorem Home.of_set {id : Uuid} {f : LocalVault → LocalVault} (h : s.Home p)
    (hvaults : ∀ v, s'.vaults.get? v
      = if v = id then (s.vaults.get? id).map f else s.vaults.get? v)
    (hkind : ∀ l, (f l).kind = l.kind)
    (hrow : ∀ id, s'.row id = s.row id) :
  s'.Home p
  := by
  constructor
  · intro v l hl
    rw [hvaults] at hl
    split at hl
    · rename_i hid
      obtain ⟨l', hl', rfl⟩ := Option.map_eq_some_iff.mp hl
      rw [hid, hkind]
      exact h.personal id l' hl'
    · exact h.personal v l hl
  · intro id' r hr
    rw [hrow] at hr
    have := h.vault id' r hr
    rw [hvaults]
    split
    · rename_i hid
      rw [hid] at this
      simpa using this
    · exact this

theorem home_keeps (p : Uuid) :
  Keeps (Home p)
  where
  marked {s} id version seq h := by
    apply h.of_rows vaults_markPushed
    intro id' r hrow
    rw [row_markPushed] at hrow
    split at hrow
    · obtain ⟨r', hrow', hr⟩ := Option.bind_eq_some_iff.mp hrow
      split at hr
      · cases hr
      · cases hr
        exact h.vault id r' hrow'
    · exact h.vault id' r hrow
  rebased {s} id version seq h := by
    apply h.of_rows vaults_rebaseLocal
    intro id' r hrow
    rw [row_rebaseLocal] at hrow
    split at hrow
    · obtain ⟨r', hrow', rfl⟩ := Option.map_eq_some_iff.mp hrow
      exact h.vault id r' hrow'
    · exact h.vault id' r hrow
  taken {s s'} e h htake := by
    apply h.of_rows (vaults_applyRemote htake)
    intro id' r hrow
    rw [row_applyRemote htake] at hrow
    split at hrow
    · split at hrow
      · cases hrow
      · rename_i hlive
        cases hrow
        rw [applyRemote, if_neg hlive] at htake
        split at htake
        · cases htake
        · rename_i hvault
          rwa [Option.isNone_iff_eq_none, ← ne_eq, ← Option.isSome_iff_ne_none] at hvault
    · exact h.vault id' r hrow
  cursor {s} id cursor h :=
    h.of_set (fun _ => vaults_setVaultCursor) (fun _ => rfl) (fun _ => rfl)

section
variable [Boxes]

/-- A local edit puts rows in vaults of the device only. -/
theorem Home.edit (h : s.Home p) {op : EntityEdit} (hop : s.edit op = .ok s') :
  s'.Home p
  := by
  have hput : ∀ {vaultId kind id json now nonce},
      s.putRaw vaultId kind id json now nonce = .ok s' → s'.Home p := by
    intro vaultId kind id json now nonce hput
    obtain ⟨v, k, hget, -, -, -, hvaults, -, -, -, hrow⟩ := putRaw_eq_ok hput
    apply h.of_rows hvaults
    intro id' r hr
    rw [hrow] at hr
    split at hr
    · cases hr
      rw [hget]
      rfl
    · exact h.vault id' r hr
  cases op with
  | putRaw vaultId kind id json now nonce => exact hput hop
  | update T id data now nonce =>
      obtain ⟨r, -, -, hop⟩ := update_eq_ok hop
      exact hput hop
  | delete id now =>
      rcases delete_eq_ok hop with ⟨-, rfl⟩ | ⟨r, v, hr, -, -, hvaults, -, -, -, hrow⟩
      · exact h
      apply h.of_rows hvaults
      intro id' r' hr'
      rw [hrow] at hr'
      split at hr'
      · split at hr'
        · cases hr'
          exact h.vault id r hr
        · cases hr'
      · exact h.vault id' r' hr'

/-- A vault list in which `p` is the personal vault keeps it so. -/
theorem Home.refreshed (h : s.Home p) {privateKey : KeyPair} {remote : List Vault}
    {nonce : ℕ → Uuid → Nonce} (hlist : ∀ v ∈ remote, v.kind = .personal ↔ v.id = p) :
  ((applyVaultList privateKey remote nonce).final s).Home p
  := by
  apply applyVaultList_induction _ _ _ _ _ h Script.final_mem_stops
  · intro v hv key keyVersion s s' hs hs'
    obtain ⟨hget, hrest⟩ := upsertVault_eq_ok hs'
    constructor
    · intro id l hl
      rw [hget] at hl
      split at hl
      · rename_i hid
        cases hl
        rw [hid, ← hlist v hv]
        cases s.vaults.get? v.id with
        | none => cases v.kind <;> simp [upserted, LocalVaultKind.ofKind]
        | some l => cases v.kind <;> simp [upserted, LocalVaultKind.ofKind]
      · exact hs.personal id l hl
    · intro id r hrow
      rw [hrest] at hrow
      have := hs.vault id r hrow
      rw [hget]
      split
      · rfl
      · exact this
  · intro id on s hs
    exact hs.of_set (fun _ => vaults_setVaultSessionLogging) (fun _ => rfl) (fun _ => rfl)
  · intro id on s hs
    exact hs.of_set (fun _ => vaults_setVaultDefault) (fun _ => rfl) (fun _ => rfl)
  · intro id data keyVersion s hs
    have hvaults : (s.setData id data keyVersion).vaults = s.vaults := rfl
    apply hs.of_rows hvaults
    intro id' r hrow
    rw [row_setData] at hrow
    split at hrow
    · obtain ⟨r', hrow', rfl⟩ := Option.map_eq_some_iff.mp hrow
      exact hs.vault id r' hrow'
    · exact hs.vault id' r hrow
  · intro id s s' hs hs'
    obtain ⟨hget, hrows, -⟩ := removeVault_eq_ok hs'
    constructor
    · intro v l hl
      rw [hget] at hl
      split at hl
      · cases hl
      · exact hs.personal v l hl
    · intro id' r hrow
      rw [hrows, Option.filter_eq_some_iff] at hrow
      obtain ⟨hrow, hne⟩ := hrow
      rw [hget, if_neg (by simpa using hne)]
      exact hs.vault id' r hrow

end

end Core.Store

/-! ### What the engine has in hand -/

/-- A live row of a credential of the vault `p`. -/
def Core.EntityRow.Leaks (p : Uuid) (r : EntityRow) : Prop :=
  r.vaultId = p ∧ r.deleted = false ∧ isCredentialKind r.kind = true

/-- A pull that skips the credentials of `p`, or does not ask for `p` at all. -/
def Core.Pulling.Blocks (p : Uuid) (pull : Pulling) : Prop :=
  pull.localVault = some p ∨ pull.cursors.get? p = none

/-- What the engine has in hand has no credential of `p` in it. -/
def Core.SyncPhase.Blocks (p : Uuid) : SyncPhase → Prop
  | .preparing push todo req => (∀ chunk ∈ push.rest, ∀ r ∈ chunk, ¬ r.Leaks p)
      ∧ (∀ r ∈ todo, ¬ r.Leaks p) ∧ ∀ c ∈ req.changes, ¬ c.Leaks p
  | .pushing push req => (∀ chunk ∈ push.rest, ∀ r ∈ chunk, ¬ r.Leaks p)
      ∧ ∀ c ∈ req.changes, ¬ c.Leaks p
  | .applying push _ => ∀ chunk ∈ push.rest, ∀ r ∈ chunk, ¬ r.Leaks p
  | .pulling pull => pull.Blocks p
  | .pulled pull entities _ => pull.Blocks p
      ∧ (pull.localVault = some p ∨ ∀ e ∈ entities, e.vaultId ≠ p)
  | .purging _ req => req.changes = []
  | .idle => True
  | .refreshing _ => True
  | .purged _ _ => True

theorem Core.SyncPhase.Blocks.request {p : Uuid} {phase : SyncPhase} {req : PushRequest}
    (h : phase.Blocks p) (hreq : phase.request = some req) :
  ∀ c ∈ req.changes, ¬ c.Leaks p
  := by
  cases phase with
  | pushing push req' =>
      cases hreq
      exact h.2
  | purging purge req' =>
      cases hreq
      intro c hc
      rw [show req.changes = [] from h] at hc
      cases hc
  | _ => cases hreq

namespace Core.SyncDevice

variable {opts : SyncOptions} {p : Uuid} {d d' : SyncDevice}

theorem blocks_nextChunk {push : Pushing} (h : ∀ chunk ∈ push.rest, ∀ r ∈ chunk, ¬ r.Leaks p) :
  (d.nextChunk push).phase.Blocks p
  := by
  rw [nextChunk]
  split
  · rename_i chunk rest hrest
    rw [hrest] at h
    refine ⟨fun c hc => h c (List.mem_cons_of_mem _ hc), h chunk List.mem_cons_self, ?_⟩
    intro c hc
    cases hc
  · split <;> trivial

theorem blocks_nextPurge {purge : Purging} :
  (d.nextPurge opts purge).phase.Blocks p
  := by
  rw [nextPurge]
  split
  · exact rfl
  · split
    · exact rfl
    · trivial

/-- The snapshot of a push has no live credential of the personal vault in it. -/
theorem blocks_startPush (hopts : opts.syncCredentials = false) (h : d.store.Home p)
    {vaultId : Uuid} {again : ℕ} :
  (d.startPush opts vaultId again).phase.Blocks p
  := by
  apply blocks_nextChunk
  intro chunk hchunk r hr hleaks
  obtain ⟨hvault, hlive, hkind⟩ := hleaks
  have hmem := mem_of_mem_toChunks hchunk hr
  obtain ⟨hmem, hkept⟩ := List.mem_filter.mp hmem
  obtain ⟨hrow, -, -⟩ := Store.mem_dirtyRows.mp hmem
  have hp := h.personalVault (hvault ▸ h.vault r.id r hrow)
  rw [SyncOptions.localCredentialsVault, hopts] at hkept
  simp [EntityRow.keepsLocal, hp, hvault, hlive, hkind] at hkept

/-- A pull of the personal vault skips its credentials. -/
theorem blocks_startPull (hopts : opts.syncCredentials = false) (h : d.store.Home p)
    {vaultIds : List Uuid} :
  (d.startPull opts vaultIds).phase.Blocks p
  := by
  rw [startPull]
  split
  · trivial
  split
  · rename_i cursors hcursors
    rw [SyncPhase.Blocks, Pulling.Blocks, SyncOptions.localCredentialsVault, hopts]
    cases hp : d.store.vaults.get? p with
    | some l => exact .inl (h.personalVault (by rw [hp]; rfl))
    | none =>
        right
        rw [Store.readCursors_eq_ok hcursors]
        split
        · rw [hp]
          rfl
        · exact Table.get?_empty p
  · trivial

theorem get?_saveCursors {s : Store} {c : Cursors} {l : List (Uuid × ℤ)} (h : c.get? p = none) :
  (s.saveCursors c l).2.get? p = none
  := by
  induction l generalizing s c with
  | nil => exact h
  | cons w l ih =>
      rw [Store.saveCursors]
      split
      · rename_i hahead
        apply ih
        rw [Cursors.get?_put, h]
        apply if_neg
        rintro rfl
        simp [h] at hahead
      · exact ih h

/-- The engine gets no credential of the personal vault in hand by itself. -/
theorem blocks_advance (hopts : opts.syncCredentials = false) (hhome : d.store.Home p)
    (h : d.phase.Blocks p) (hstep : d.advance opts = some d') :
  d'.phase.Blocks p
  := by
  rw [advance] at hstep
  split at hstep
  · split at hstep
    · cases hstep
    · cases hstep
      apply blocks_startPush hopts
      exact hhome
    · cases hstep
      apply blocks_startPull hopts
      exact hhome
  · rename_i push r todo req hphase
    cases hstep
    rw [hphase] at h
    obtain ⟨hrest, htodo, hreq⟩ := h
    have htodo' : ∀ r ∈ todo, ¬ r.Leaks p := fun r' hr' => htodo r' (List.mem_cons_of_mem _ hr')
    rw [prepare]
    split
    · split
      · exact ⟨hrest, htodo', hreq⟩
      · exact ⟨hrest, htodo', hreq⟩
    · rename_i hlive
      refine ⟨hrest, htodo', ?_⟩
      intro c hc
      rcases List.mem_append.mp hc with hc | hc
      · exact hreq c hc
      · rw [List.mem_singleton.mp hc]
        rintro ⟨hvault, hkind⟩
        exact htodo r List.mem_cons_self ⟨hvault, by simpa using hlive, hkind⟩
  · rename_i push req hphase
    rw [hphase] at h
    split at hstep
    · cases hstep
      exact blocks_nextChunk h.1
    · cases hstep
      exact ⟨h.1, h.2.2⟩
  · rename_i push result results hphase
    cases hstep
    rw [hphase] at h
    rw [apply]
    split
    · rename_i store push' report hres
      have hpush' := (Store.applyResult_eq_ok hres).2
      rw [hpush']
      exact h
    · trivial
  · rename_i push hphase
    cases hstep
    rw [hphase] at h
    exact blocks_nextChunk h
  · rename_i pull e entities resp hphase
    cases hstep
    rw [hphase] at h
    have hrest : pull.localVault = some p ∨ ∀ e ∈ entities, e.vaultId ≠ p :=
      h.2.imp_right (fun hother e he => hother e (List.mem_cons_of_mem _ he))
    rw [mirror]
    split
    · exact ⟨h.1, hrest⟩
    split
    · exact ⟨h.1, hrest⟩
    · trivial
  · rename_i pull resp hphase
    cases hstep
    rw [hphase] at h
    rw [finishPage]
    dsimp only
    split
    · exact h.1.imp_right get?_saveCursors
    · trivial
  · rename_i purge result results hphase
    cases hstep
    cases result with
    | ok id version seq => trivial
    | conflict id server => trivial
    | error id code =>
        rw [unpublish]
        split <;> trivial
  · cases hstep
    exact blocks_nextPurge
  all_goals cases hstep

theorem blocks_begin {command : SyncCommand} (h : d.phase.Blocks p) :
  (d.begin opts command).phase.Blocks p
  := by
  cases command with
  | syncOnce => exact h
  | syncVault id => exact h
  | pullEntities ids => exact h
  | resyncCredentials =>
      rw [begin]
      split <;> exact h
  | purgeCredentials =>
      rw [begin]
      split
      · exact h
      · exact blocks_nextPurge

/-- The engine takes no credential of the personal vault, except where it resolves a conflict for
the server. -/
theorem not_leaks_of_mem_takes (h : d.phase.Blocks p)
    (hspares : SparesCredentials opts p d .next) {e : SyncEntity} (he : e ∈ d.takes opts) :
  ¬ e.Leaks p
  := by
  rw [takes] at he
  split at he
  · rename_i push id server results hphase
    cases hloc : push.pushed id with
    | none => simp [hloc] at he
    | some loc =>
        rw [hloc] at he
        dsimp only at he
        split at he
        · rename_i store hres
          rw [List.mem_singleton.mp he]
          exact hspares push id server results loc hphase hloc
            (Store.resolveConflict_eq_ok hres).1.symm
        · cases he
  · rename_i pull e' entities resp hphase
    rw [hphase] at h
    split at he
    · cases he
    rename_i hskip
    split at he
    · rw [List.mem_singleton.mp he]
      rintro ⟨hvault, hkind, -⟩
      rcases h.2 with hlocal | hother
      · exact hskip ⟨by rw [hlocal, hvault], hkind⟩
      · exact hother e' List.mem_cons_self hvault
    · cases he
  · cases he

end Core.SyncDevice

/-! ### Every run -/

section
variable [Boxes] {opts : SyncOptions} {p : Uuid} {o o' : ObservedDevice}

/-- The device is at home, and neither it nor what it has in hand has let a credential through. -/
structure Confined (p : Uuid) (o : ObservedDevice) : Prop extends Airtight p o where
  home : o.device.store.Home p
  blocks : o.device.phase.Blocks p

/-- What a step does to the device keeps it at home with nothing in hand. -/
theorem blocks_step (hopts : opts.syncCredentials = false) {d d' : SyncDevice} {l : SyncStep}
    (hhome : d.store.Home p) (hblocks : d.phase.Blocks p) (hhonest : Honest opts p d l)
    (hstep : d.step opts l = some d') :
  d'.store.Home p ∧ d'.phase.Blocks p
  := by
  cases l with
  | edit op =>
      obtain ⟨s, hs, rfl⟩ := Option.map_eq_some_iff.mp hstep
      exact ⟨hhome.edit (toOption_eq_some.mp hs), hblocks⟩
  | start command =>
      rw [SyncDevice.step] at hstep
      split at hstep
      · cases hstep
        exact ⟨SyncDevice.keeps_begin (Store.home_keeps p) hhome, SyncDevice.blocks_begin hblocks⟩
      · cases hstep
  | next =>
      exact ⟨SyncDevice.keeps_advance (Store.home_keeps p) hhome hstep,
        SyncDevice.blocks_advance hopts hhome hblocks hstep⟩
  | answered results =>
      rw [SyncDevice.step] at hstep
      split at hstep
      · rename_i push req hphase
        cases hstep
        rw [hphase] at hblocks
        exact ⟨hhome, hblocks.1⟩
      · cases hstep
        exact ⟨hhome, trivial⟩
      · cases hstep
  | listed privateKey remote nonce =>
      obtain ⟨db, userId, -, hlist⟩ := hhonest
      rw [SyncDevice.step] at hstep
      split at hstep
      · cases hstep
        rw [SyncDevice.refreshed]
        split
        · exact ⟨hhome.refreshed hlist, trivial⟩
        · exact ⟨hhome.refreshed hlist, trivial⟩
      · cases hstep
  | page resp =>
      obtain ⟨auth, db, pull, hphase, rfl⟩ := hhonest
      rw [SyncDevice.step, hphase] at hstep
      rw [hphase] at hblocks
      cases hstep
      refine ⟨hhome, hblocks, hblocks.imp_right ?_⟩
      intro hcursor e he hvault
      have := Server.Db.isSome_cursor_of_mem_pull he
      rw [hvault, hcursor] at this
      cases this
  | abort =>
      cases hstep
      exact ⟨hhome, trivial⟩

/-- A step that spares the credentials lets none through. -/
theorem confined_step (hopts : opts.syncCredentials = false) {l : SyncStep} (h : Confined p o)
    (hhonest : Honest opts p o.device l) (hspares : SparesCredentials opts p o.device l)
    (hstep : (optOutSystem opts p).step o l = some o') :
  Confined p o'
  := by
  obtain ⟨d, hd, rfl⟩ := Option.map_eq_some_iff.mp hstep
  obtain ⟨hhome, hblocks⟩ := blocks_step hopts h.home h.blocks hhonest hd
  refine ⟨⟨?_, ?_⟩, hhome, hblocks⟩
  · intro req hreq
    dsimp only at hreq
    split at hreq
    · rcases List.mem_append.mp hreq with hreq | hreq
      · exact h.sent req hreq
      · exact hblocks.request (Option.mem_toList.mp hreq)
    · exact h.sent req hreq
  · intro e he
    rcases List.mem_append.mp he with he | he
    · exact h.received e he
    · cases l with
      | next => exact SyncDevice.not_leaks_of_mem_takes h.blocks hspares he
      | _ => cases he

/-- In every run of a device that does not sync credentials, against an honest server, in which no
push conflict is resolved for a live credential of the personal vault on the server, no change of
a credential of the personal vault is pushed and no such credential is taken from the server. -/
theorem airtight_of_reaches (hopts : opts.syncCredentials = false)
    (h : (optOutSystem opts p).Reaches
      (fun o l => Honest opts p o.device l ∧ SparesCredentials opts p o.device l) o) :
  Airtight p o
  := by
  have hconfined : Confined p o := by
    apply h.invariant
    · rintro o ⟨hphase, -, hhome, hsent, hreceived⟩
      refine ⟨⟨?_, ?_⟩, hhome, by rw [hphase]; trivial⟩
      · simp [hsent]
      · simp [hreceived]
    · intro o l o' ho hl hstep
      exact confined_step hopts ho hl.1 hl.2 hstep
  exact hconfined.toAirtight

end

/-! ### A conflict about a deleted credential -/

open Symbolic

/-- The options of a device that keeps its credentials to itself. -/
def optedOut (conflict : ConflictPolicy) : SyncOptions := ⟨conflict, 500, false⟩

/-- A device on which an identity of its personal vault, known to the server, was deleted. -/
def deletedIdentity : ObservedDevice where
  device :=
    { store :=
        { vaults := ⟨[⟨1, .personal, "Personal", none, .manager, some (Vector.replicate 32 0), 1, 1,
            false, 0, false⟩], by decide⟩
          entities := ⟨[⟨7, "identity", 1, 1, 1, true, 1, "", 0, true⟩], by decide⟩
          history := .empty, sessionLogs := .empty, account := none, files _ := none }
      phase := .idle, tasks := [], report := ⟨0, 0, 0, []⟩ }
  sent := []
  received := []

/-- The identity, edited on another device. -/
def editedIdentity : SyncEntity := ⟨none, 7, "identity", 1, 2, 2, false, 1, "AAAA", 1, some 9⟩

/-- A server on which the identity was edited. -/
def identityServer : Server.Db where
  users := ⟨[⟨1, "user", none, none, false, false, 0, 0⟩], by decide⟩
  vaults := ⟨[⟨1, .personal, none, "Personal", 1, 2, 0, false, true, false⟩], by decide⟩
  vaultMembers := ⟨[⟨1, 1, .manager, some "AAAA", 1⟩], by decide⟩
  teamMembers := .empty
  teamPolicies := .empty
  entities := ⟨[editedIdentity], by decide⟩
  historyEntries := .empty
  sessionLogs := .empty
  bridgeScope _ _ := false
  directModes _ _ _ := none

/-- The device pushes the tombstone, and is told of the conflict. -/
def pushTombstone : List SyncStep :=
  [.start (.syncVault 1), .next, .next, .next, .answered [.conflict 7 editedIdentity]]

theorem init_deletedIdentity (opts : SyncOptions) :
  (optOutSystem opts 1).init deletedIdentity
  := by
  refine ⟨rfl, rfl, ⟨?_, ?_⟩, rfl, rfl⟩
  · intro v l hl
    have hmem := Table.mem_of_get? hl
    rw [← (Table.key_of_get? hl : l.id = v), List.mem_singleton.mp hmem]
    decide
  · intro id r hr
    rw [List.mem_singleton.mp (Table.mem_of_get? hr)]
    rfl

/-- The server answers the push of the tombstone with the conflict. -/
theorem push_identityServer :
  Server.Db.push ⟨1000, 0, 0⟩ ⟨1, 2, none⟩ 5 identityServer ⟨[], [⟨7, 1⟩]⟩
    = .ok ([.conflict 7 editedIdentity], identityServer)
  := rfl

/-- The steps up to the conflict are honest, and spare the credentials. -/
theorem meets_pushTombstone (policy : ConflictPolicy) :
  (optOutSystem (optedOut policy) 1).Meets
    (fun o l => Honest (optedOut policy) 1 o.device l
      ∧ SparesCredentials (optedOut policy) 1 o.device l) deletedIdentity pushTombstone
  := by
  refine ⟨⟨trivial, trivial⟩, fun o₁ h₁ => ?_⟩
  obtain rfl := Option.some.inj h₁
  refine ⟨⟨trivial, fun _ _ _ _ _ hphase => by cases hphase⟩, fun o₂ h₂ => ?_⟩
  obtain rfl := Option.some.inj h₂
  refine ⟨⟨trivial, fun _ _ _ _ _ hphase => by cases hphase⟩, fun o₃ h₃ => ?_⟩
  obtain rfl := Option.some.inj h₃
  refine ⟨⟨trivial, fun _ _ _ _ _ hphase => by cases hphase⟩, fun o₄ h₄ => ?_⟩
  obtain rfl := Option.some.inj h₄
  refine ⟨⟨⟨_, _, _, _, _, _, rfl, push_identityServer⟩, trivial⟩, fun _ _ => trivial⟩

/-- The device once it is told of the conflict. -/
def toldOfConflict (policy : ConflictPolicy) : ObservedDevice :=
  ((optOutSystem (optedOut policy) 1).run deletedIdentity pushTombstone).get (by cases policy <;> rfl)

theorem reaches_toldOfConflict (policy : ConflictPolicy) :
  (optOutSystem (optedOut policy) 1).Reaches
    (fun o l => Honest (optedOut policy) 1 o.device l
      ∧ SparesCredentials (optedOut policy) 1 o.device l) (toldOfConflict policy)
  := by
  apply TransitionSystem.Reaches.run (.init (init_deletedIdentity _)) (meets_pushTombstone policy)
  exact (Option.some_get _).symm

/-- No credential gets through when the conflict is resolved for the tombstone. -/
theorem airtight_keptTombstone :
  ∃ o, (optOutSystem (optedOut .localWins) 1).step (toldOfConflict .localWins) .next = some o
    ∧ Airtight 1 o
  := by
  obtain ⟨o, ho⟩ : ∃ o, (optOutSystem (optedOut .localWins) 1).step (toldOfConflict .localWins)
      .next = some o := ⟨_, rfl⟩
  use o, ho
  refine airtight_of_reaches rfl ((reaches_toldOfConflict .localWins).step (l := .next)
    ⟨trivial, ?_⟩ ho)
  intro push id server results loc _ _ hkeep
  cases hkeep

/-- Resolving the conflict for the server brings its live identity into the store. -/
theorem not_airtight_takenIdentity :
  ¬ ∀ opts p o, opts.syncCredentials = false →
    (optOutSystem opts p).Reaches (fun o l => Honest opts p o.device l) o → Airtight p o
  := by
  intro h
  obtain ⟨o, ho, hreceived⟩ : ∃ o, (optOutSystem (optedOut .serverWins) 1).step
      (toldOfConflict .serverWins) .next = some o ∧ o.received = [editedIdentity] := ⟨_, rfl, rfl⟩
  have htold := (reaches_toldOfConflict .serverWins).mono (fun _ _ hG => hG.1)
  have hairtight := h (optedOut .serverWins) 1 o rfl (htold.step (l := .next) trivial ho)
  apply hairtight.received editedIdentity
  · rw [hreceived]
    exact List.mem_singleton_self _
  · exact ⟨rfl, by decide, rfl⟩

end Termoso
