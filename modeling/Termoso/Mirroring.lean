import Termoso.CredentialRestore
import Termoso.Server.Answers

/-!
# Rows that mirror the server

What the store of a device owes to the database of the server: the row of an entity that a cursor
has passed is at the version of the server, or the entity is deleted and its row is gone or is a new
one; and no row is ahead of the server.  Every statement of the engine and every local edit keeps
this, given what the results and the pages of the server say.
-/

namespace Termoso

open Core

/-- An entity that the device takes over: anything but a credential of the personal vault `p` when
credentials are not synced. -/
def Followed (opts : SyncOptions) (p : Uuid) (e : SyncEntity) : Prop :=
  opts.syncCredentials = true ∨ ¬ (e.vaultId = p ∧ isCredentialKind e.kind = true)

/-- A payload that is put into the home of its identifier. -/
def Core.EntityEdit.Homely (home : Uuid → Uuid) : EntityEdit → Prop
  | .putRaw vaultId _ id _ _ _ => vaultId = home id
  | _ => True

namespace Core.Store

/-- The cursor of a vault. Vaults that are not on the device are at the start. -/
def cursor (s : Store) (v : Uuid) : ℤ := ((s.vaults.get? v).map LocalVault.cursor).getD 0

/-- A vault that is synced, if it is on the device. -/
def Synced (s : Store) (v : Uuid) : Prop := ∀ l, s.vaults.get? v = some l → l.kind.isSynced = true

/-- The row of an entity is no older than the entity, or the entity is deleted and its row is gone or
a new one. -/
structure Mirrors (s : Store) (e : SyncEntity) : Prop where
  row : ∀ r, s.row e.id = some r → e.version ≤ r.version ∨ e.deleted = true ∧ r.version ≤ 0
  gone : s.row e.id = none → e.deleted = true

/-- A version that the server has reached. -/
def Reached (db : Server.Db) (id : Uuid) (version : ℤ) : Prop :=
  version ≤ 0 ∨ ∃ e, db.entities.get? id = some e ∧ version ≤ e.version

/-- The store is level with the server: it has taken over what its cursors have passed, and it is not
ahead. -/
structure Level (opts : SyncOptions) (home : Uuid → Uuid) (p : Uuid) (db : Server.Db) (s : Store) :
    Prop where
  vaultId : ∀ id r, s.row id = some r → r.vaultId = home id
  reached : ∀ id r, s.row id = some r → Reached db id r.version
  cursor : ∀ v, s.cursor v ≤ db.vaultSeq v
  synced : ∀ v, 0 < s.cursor v → s.Synced v
  mirrors : ∀ id e, db.entities.get? id = some e → Followed opts p e →
    e.seq ≤ s.cursor e.vaultId → s.Mirrors e

section
variable {opts : SyncOptions} {home : Uuid → Uuid} {p : Uuid} {db db' : Server.Db} {s s' : Store}
  {e x : SyncEntity} {id : Uuid} {version seq : ℤ}

theorem cursor_congr (h : s'.vaults = s.vaults) :
  s'.cursor = s.cursor
  := by
  funext v
  rw [Store.cursor, h, Store.cursor]

theorem synced_congr (h : s'.vaults = s.vaults) :
  s'.Synced = s.Synced
  := by
  funext v
  rw [Synced, h, Synced]

/-! ### One entity -/

theorem Mirrors.of_row (h : s.Mirrors e) (hrow : s'.row e.id = s.row e.id) :
  s'.Mirrors e
  where
  row := by
    rw [hrow]
    exact h.row
  gone := by
    rw [hrow]
    exact h.gone

/-- A row of version zero mirrors deleted entities only. -/
theorem Mirrors.deleted_of_le (h : s.Mirrors e) (he : 1 ≤ e.version) {r : EntityRow}
    (hr : s.row e.id = some r) (hle : r.version ≤ 0) :
  e.deleted = true
  := by
  rcases h.row r hr with hversion | ⟨hdel, -⟩
  · omega
  · exact hdel

/-- A row that was marked as pushed mirrors a tombstone of that version. -/
theorem mirrors_markPushed (hdel : e.deleted = true) (hversion : e.version ≤ version ∨ version ≤ 0) :
  (s.markPushed e.id version seq).Mirrors e
  := by
  constructor
  · intro r hr
    rw [row_markPushed, if_pos rfl] at hr
    obtain ⟨r₀, -, hr⟩ := Option.bind_eq_some_iff.mp hr
    split at hr
    · cases hr
    · cases hr
      exact hversion.imp_right (fun h => ⟨hdel, h⟩)
  · exact fun _ => hdel

/-- A row that is rebased on a copy mirrors it. -/
theorem Mirrors.rebaseLocal (h : s.row e.id = none → e.deleted = true) :
  (s.rebaseLocal e.id e.version seq).Mirrors e
  := by
  constructor
  · intro r hr
    rw [row_rebaseLocal, if_pos rfl] at hr
    obtain ⟨r₀, -, rfl⟩ := Option.map_eq_some_iff.mp hr
    exact .inl le_rfl
  · intro hnone
    rw [row_rebaseLocal, if_pos rfl, Option.map_eq_none_iff] at hnone
    exact h hnone

theorem mirrors_applyRemote (h : s.applyRemote e = .ok s') :
  s'.Mirrors e
  := by
  have hrow : s'.row e.id = if e.deleted then none else some (.ofRemote e) := by
    rw [row_applyRemote h, if_pos rfl]
  constructor
  · intro r hr
    rw [hrow] at hr
    split at hr
    · cases hr
    · cases hr
      exact .inl le_rfl
  · intro hnone
    rw [hrow] at hnone
    split at hnone
    · assumption
    · cases hnone

/-- An entity of a page is mirrored, once it was applied. -/
theorem mirrors_applyPulled {policy : ConflictPolicy} {changed : Bool}
    (h : s.applyPulled policy e = .ok (s', changed)) :
  s'.Mirrors e
  := by
  rcases applyPulled_eq_ok h with ⟨-, rfl, hold⟩ | ⟨-, rfl, loc, hloc, -⟩ | ⟨-, htake, -⟩
  · rcases hold with ⟨hnone, hdel⟩ | ⟨loc, hloc, hversion, -⟩
    · constructor
      · intro r hr
        rw [hnone] at hr
        cases hr
      · exact fun _ => hdel
    · constructor
      · intro r hr
        rw [hloc] at hr
        cases hr
        exact .inl hversion
      · intro hnone
        rw [hloc] at hnone
        cases hnone
  · apply Mirrors.rebaseLocal
    intro hnone
    rw [hloc] at hnone
    cases hnone
  · exact mirrors_applyRemote htake

theorem vaults_applyPulled {policy : ConflictPolicy} {changed : Bool}
    (h : s.applyPulled policy e = .ok (s', changed)) :
  s'.vaults = s.vaults
  := by
  rcases applyPulled_eq_ok h with ⟨-, rfl, -⟩ | ⟨-, rfl, -⟩ | ⟨-, htake, -⟩
  · rfl
  · rfl
  · exact vaults_applyRemote htake

/-! ### Statements of the engine -/

theorem Reached.advances (h : Reached db id version) (hdb : Server.Db.Advances db db') :
  Reached db' id version
  := by
  rcases h with hzero | ⟨e, he, hle⟩
  · exact .inl hzero
  · obtain ⟨e', he', hversion⟩ := hdb.version id e he
    exact .inr ⟨e', he', hle.trans hversion⟩

/-- The store stays level while the server goes on. -/
theorem Level.advances (h : Level opts home p db s) (hdb : Server.Db.Advances db db') :
  Level opts home p db' s
  where
  vaultId := h.vaultId
  reached id r hr := (h.reached id r hr).advances hdb
  cursor v := (h.cursor v).trans (hdb.vaultSeq v)
  synced := h.synced
  mirrors id e he hfollowed hseq :=
    h.mirrors id e (hdb.get?_of_le he (hseq.trans (h.cursor _))) hfollowed hseq

/-- A statement about one row keeps the store level, when its version is one the server has reached
and it mirrors what a cursor has passed. -/
theorem Level.of_row (h : Level opts home p db s) (id : Uuid) (hvaults : s'.vaults = s.vaults)
    (hother : ∀ id', id' ≠ id → s'.row id' = s.row id')
    (hrow : ∀ r, s'.row id = some r → r.vaultId = home id ∧ Reached db id r.version)
    (hmirrors : ∀ e, db.entities.get? id = some e → Followed opts p e →
      e.seq ≤ s.cursor e.vaultId → s'.Mirrors e) :
  Level opts home p db s'
  := by
  have hcursor := cursor_congr hvaults
  have hrows : ∀ id' r, s'.row id' = some r → r.vaultId = home id' ∧ Reached db id' r.version := by
    intro id' r hr
    by_cases hid : id' = id
    · subst hid
      exact hrow r hr
    · rw [hother id' hid] at hr
      exact ⟨h.vaultId id' r hr, h.reached id' r hr⟩
  constructor
  · exact fun id' r hr => (hrows id' r hr).1
  · exact fun id' r hr => (hrows id' r hr).2
  · rw [hcursor]
    exact h.cursor
  · rw [hcursor, synced_congr hvaults]
    exact h.synced
  · intro id' e he hfollowed hseq
    rw [hcursor] at hseq
    by_cases hid : id' = id
    · subst hid
      exact hmirrors e he hfollowed hseq
    · have heid : e.id = id' := Table.key_of_get? he
      exact (h.mirrors id' e he hfollowed hseq).of_row (hother e.id (heid ▸ hid))

/-- Marking a row as pushed is right when the entity is deleted, at that version or for a version of
zero, or not passed. -/
theorem Level.markPushed (h : Level opts home p db s) (hreached : Reached db id version)
    (hpassed : ∀ e, db.entities.get? id = some e → Followed opts p e →
      e.seq ≤ s.cursor e.vaultId → e.deleted = true ∧ (e.version ≤ version ∨ version ≤ 0)) :
  Level opts home p db (s.markPushed id version seq)
  := by
  apply h.of_row id vaults_markPushed
  · intro id' hne
    rw [row_markPushed, if_neg hne]
  · intro r hr
    rw [row_markPushed, if_pos rfl] at hr
    obtain ⟨r₀, hr₀, hr⟩ := Option.bind_eq_some_iff.mp hr
    split at hr
    · cases hr
    · cases hr
      exact ⟨h.vaultId id r₀ hr₀, hreached⟩
  · intro e he hfollowed hseq
    obtain ⟨hdel, hversion⟩ := hpassed e he hfollowed hseq
    obtain rfl : e.id = id := Table.key_of_get? he
    exact mirrors_markPushed hdel hversion

/-- Rebasing a row is right on the version of an entity that was passed. -/
theorem Level.rebaseLocal (h : Level opts home p db s) (hreached : Reached db id version)
    (hpassed : ∀ e, db.entities.get? id = some e → Followed opts p e →
      e.seq ≤ s.cursor e.vaultId → version = e.version) :
  Level opts home p db (s.rebaseLocal id version seq)
  := by
  apply h.of_row id vaults_rebaseLocal
  · intro id' hne
    rw [row_rebaseLocal, if_neg hne]
  · intro r hr
    rw [row_rebaseLocal, if_pos rfl] at hr
    obtain ⟨r₀, hr₀, rfl⟩ := Option.map_eq_some_iff.mp hr
    exact ⟨h.vaultId id r₀ hr₀, hreached⟩
  · intro e he hfollowed hseq
    obtain rfl := hpassed e he hfollowed hseq
    obtain rfl : e.id = id := Table.key_of_get? he
    exact .rebaseLocal (h.mirrors _ e he hfollowed hseq).gone

/-- Taking a server copy is right when it is at home and a passed entity is the copy. -/
theorem Level.applyRemote (h : Level opts home p db s) (hhome : x.vaultId = home x.id)
    (hreached : Reached db x.id x.version)
    (hpassed : ∀ e, db.entities.get? x.id = some e → Followed opts p e →
      e.seq ≤ s.cursor e.vaultId → x = e) (htake : s.applyRemote x = .ok s') :
  Level opts home p db s'
  := by
  apply h.of_row x.id (vaults_applyRemote htake)
  · intro id' hne
    rw [row_applyRemote htake, if_neg hne]
  · intro r hr
    rw [row_applyRemote htake, if_pos rfl] at hr
    split at hr
    · cases hr
    · cases hr
      exact ⟨hhome, hreached⟩
  · intro e he hfollowed hseq
    obtain rfl := hpassed e he hfollowed hseq
    exact mirrors_applyRemote htake

/-- Applying an entity of a page is right when it is at home and a passed entity is that one. -/
theorem Level.applyPulled (h : Level opts home p db s) {policy : ConflictPolicy} {changed : Bool}
    (hhome : x.vaultId = home x.id) (hreached : Reached db x.id x.version)
    (hpassed : ∀ e, db.entities.get? x.id = some e → Followed opts p e →
      e.seq ≤ s.cursor e.vaultId → x = e)
    (hres : s.applyPulled policy x = .ok (s', changed)) :
  Level opts home p db s'
  := by
  rcases applyPulled_eq_ok hres with ⟨-, rfl, -⟩ | ⟨-, rfl, -⟩ | ⟨-, htake, -⟩
  · exact h
  · apply h.rebaseLocal hreached
    intro e he hfollowed hseq
    rw [hpassed e he hfollowed hseq]
  · exact h.applyRemote hhome hreached hpassed htake

/-- A result that stands keeps the store level. -/
theorem Level.applied (h : Level opts home p db s) {policy : ConflictPolicy} {push : Pushing}
    {result : PushResult} (hstands : Server.Db.Stands home s.cursor db result)
    (happlied : Applied policy push s result s') :
  Level opts home p db s'
  := by
  cases happlied with
  | marked =>
      apply h.markPushed (.inr hstands.1)
      intro e he _ hseq
      obtain ⟨hdel, rfl⟩ := hstands.2 e he hseq
      exact ⟨hdel, .inl le_rfl⟩
  | kept hloc hkeep =>
      obtain ⟨-, -, hreached, hpassed⟩ := hstands
      apply h.rebaseLocal (.inr hreached)
      intro e he _ hseq
      rw [hpassed e he hseq]
  | taken hloc hkeep htake =>
      obtain ⟨rfl, hhome, hreached, hpassed⟩ := hstands
      exact h.applyRemote hhome (.inr hreached) (fun e he _ hseq => hpassed e he hseq) htake
  | gone =>
      apply h.markPushed (.inl le_rfl)
      intro e he _ hseq
      exact absurd hseq (not_le.mpr (hstands rfl e he))
  | missing =>
      apply h.rebaseLocal (.inl le_rfl)
      intro e he _ hseq
      exact absurd hseq (not_le.mpr (hstands rfl e he))
  | strange => exact h
  | refused => exact h

/-! ### Cursors -/

theorem cursor_setVaultCursor {v : Uuid} {c : ℤ} :
  (s.setVaultCursor id c).cursor v
    = if v = id ∧ (s.vaults.get? id).isSome then c else s.cursor v
  := by
  rw [Store.cursor, vaults_setVaultCursor]
  by_cases hv : v = id
  · subst hv
    rw [if_pos rfl, Store.cursor]
    cases s.vaults.get? v <;> simp
  · rw [if_neg hv, if_neg (fun h => hv h.1), Store.cursor]

theorem synced_setVaultCursor {v : Uuid} {c : ℤ} :
  (s.setVaultCursor id c).Synced v ↔ s.Synced v
  := by
  rw [Synced, Synced, vaults_setVaultCursor]
  split
  · rename_i hv
    subst hv
    cases s.vaults.get? v <;> simp
  · rfl

/-- A cursor may go back to the start, or on to where everything before it is mirrored. -/
theorem Level.setVaultCursor (h : Level opts home p db s) {c : ℤ} (hle : c ≤ db.vaultSeq id)
    (hsynced : 0 < c → s.Synced id)
    (hmirrors : ∀ id' e, db.entities.get? id' = some e → Followed opts p e → e.vaultId = id →
      e.seq ≤ c → s.Mirrors e) :
  Level opts home p db (s.setVaultCursor id c)
  where
  vaultId := h.vaultId
  reached := h.reached
  cursor v := by
    rw [cursor_setVaultCursor]
    split
    · rename_i hv
      rw [hv.1]
      exact hle
    · exact h.cursor v
  synced v hpos := by
    rw [synced_setVaultCursor]
    rw [cursor_setVaultCursor] at hpos
    split at hpos
    · rename_i hv
      rw [hv.1]
      exact hsynced hpos
    · exact h.synced v hpos
  mirrors id' e he hfollowed hseq := by
    rw [cursor_setVaultCursor] at hseq
    split at hseq
    · rename_i hv
      exact (hmirrors id' e he hfollowed hv.1 hseq).of_row rfl
    · exact (h.mirrors id' e he hfollowed hseq).of_row rfl

end

/-! ### Local edits -/

section
variable [Boxes] {opts : SyncOptions} {home : Uuid → Uuid} {p : Uuid} {db : Server.Db}
  {s s' : Store} {e : SyncEntity}

/-- What a local edit does: nothing, a row at the version there was, or the end of a row that was
never pushed or is in a vault that is not synced. -/
theorem edit_cases {op : EntityEdit} (hop : op.Homely home)
    (hrows : ∀ id r, s.row id = some r → r.vaultId = home id) (h : s.edit op = .ok s') :
  s'.vaults = s.vaults ∧ (s' = s ∨ ∃ id, (∀ id', id' ≠ id → s'.row id' = s.row id')
    ∧ ((∃ r, s'.row id = some r ∧ r.vaultId = home id
        ∧ r.version = ((s.row id).map EntityRow.version).getD 0)
      ∨ ∃ r v, s.row id = some r ∧ s.vaults.get? r.vaultId = some v
        ∧ (v.kind.isSynced = true → r.version ≤ 0) ∧ s'.row id = none))
  := by
  have hput : ∀ {vaultId kind id json now nonce}, vaultId = home id →
      s.putRaw vaultId kind id json now nonce = .ok s' → s'.vaults = s.vaults ∧ (s' = s ∨ ∃ id,
        (∀ id', id' ≠ id → s'.row id' = s.row id')
        ∧ ((∃ r, s'.row id = some r ∧ r.vaultId = home id
            ∧ r.version = ((s.row id).map EntityRow.version).getD 0)
          ∨ ∃ r v, s.row id = some r ∧ s.vaults.get? r.vaultId = some v
            ∧ (v.kind.isSynced = true → r.version ≤ 0) ∧ s'.row id = none)) := by
    intro vaultId kind id json now nonce hhome hput
    obtain ⟨v, k, -, -, -, -, hvaults, -, -, -, hrow⟩ := putRaw_eq_ok hput
    refine ⟨hvaults, .inr ⟨id, fun id' hne => ?_, .inl ⟨_, (hrow id).trans (if_pos rfl), hhome, rfl⟩⟩⟩
    rw [hrow, if_neg hne]
  cases op with
  | putRaw vaultId kind id json now nonce => exact hput hop h
  | update T id data now nonce =>
      obtain ⟨r, hr, -, hput'⟩ := update_eq_ok h
      exact hput (hrows id r hr) hput'
  | delete id now =>
      rcases delete_eq_ok h with ⟨-, rfl⟩ | ⟨r, v, hr, hv, -, hvaults, -, -, -, hrow⟩
      · exact ⟨rfl, .inl rfl⟩
      refine ⟨hvaults, .inr ⟨id, fun id' hne => ?_, ?_⟩⟩
      · rw [hrow, if_neg hne]
      · have hrow' := hrow id
        rw [if_pos rfl] at hrow'
        by_cases hsynced : v.kind.isSynced = true ∧ r.version > 0
        · rw [if_pos hsynced] at hrow'
          refine .inl ⟨_, hrow', hrows id r hr, ?_⟩
          rw [hr]
          rfl
        · rw [if_neg hsynced] at hrow'
          refine .inr ⟨r, v, hr, hv, fun hkind => ?_, hrow'⟩
          exact not_lt.mp (fun hpos => hsynced ⟨hkind, hpos⟩)

/-- An entity of a synced vault stays mirrored while the user edits the store. -/
theorem Mirrors.edit {op : EntityEdit} (hop : op.Homely home)
    (hrows : ∀ id r, s.row id = some r → r.vaultId = home id) (h : s.Mirrors e)
    (hhome : e.vaultId = home e.id) (hversion : 1 ≤ e.version) (hsynced : s.Synced e.vaultId)
    (hedit : s.edit op = .ok s') :
  s'.Mirrors e
  := by
  rcases (edit_cases hop hrows hedit).2 with rfl | ⟨id, hother, hrow⟩
  · exact h
  by_cases hid : e.id = id
  swap
  · exact h.of_row (hother e.id hid)
  subst hid
  rcases hrow with ⟨r, hr, -, heq⟩ | ⟨r, v, hr, hv, hlocal, hnone⟩
  · constructor
    · intro r' hr'
      rw [hr] at hr'
      cases hr'
      rw [heq]
      cases hold : s.row e.id with
      | none => exact .inr ⟨h.gone hold, le_rfl⟩
      | some r₀ => exact h.row r₀ hold
    · intro hnone
      rw [hr] at hnone
      cases hnone
  · constructor
    · intro r' hr'
      rw [hnone] at hr'
      cases hr'
    · intro _
      rw [hrows e.id r hr, ← hhome] at hv
      exact h.deleted_of_le hversion hr (hlocal (hsynced v hv))

/-- A local edit keeps the store level. -/
theorem Level.edit {op : EntityEdit} (hop : op.Homely home) (hdb : Server.Db.Housed home db)
    (h : Level opts home p db s) (hedit : s.edit op = .ok s') :
  Level opts home p db s'
  := by
  have hmirrors : ∀ id e, db.entities.get? id = some e → Followed opts p e →
      e.seq ≤ s.cursor e.vaultId → s'.Mirrors e := by
    intro id e he hfollowed hseq
    obtain rfl : e.id = id := Table.key_of_get? he
    have hpos := hdb.seq _ e he
    exact (h.mirrors _ e he hfollowed hseq).edit hop h.vaultId (hdb.vaultId _ e he)
      (hdb.version _ e he) (h.synced _ (by omega)) hedit
  obtain ⟨hvaults, rfl | ⟨id, hother, hrow⟩⟩ := edit_cases hop h.vaultId hedit
  · exact h
  apply h.of_row _ hvaults hother
  · intro r hr
    rcases hrow with ⟨r', hr', hhome, heq⟩ | ⟨_, _, _, _, _, hnone⟩
    · rw [hr'] at hr
      cases hr
      refine ⟨hhome, ?_⟩
      rw [heq]
      cases hold : s.row id with
      | none => exact .inl le_rfl
      | some r₀ => exact h.reached id r₀ hold
    · rw [hnone] at hr
      cases hr
  · exact fun e => hmirrors id e

/-! ### The vault list -/

omit [Boxes] in
/-- Vaults that change in anything but their cursors, and stay synced, leave the store level. -/
theorem Level.of_vaults (h : Level opts home p db s) (hcursor : s'.cursor = s.cursor)
    (hsynced : ∀ v, s.Synced v → s'.Synced v)
    (hrow : ∀ id, (s'.row id).map (fun r => (r.vaultId, r.version))
      = (s.row id).map (fun r => (r.vaultId, r.version))) :
  Level opts home p db s'
  := by
  have hback : ∀ {id r'}, s'.row id = some r' →
      ∃ r, s.row id = some r ∧ r'.vaultId = r.vaultId ∧ r'.version = r.version := by
    intro id r' hr'
    have hsame := hrow id
    rw [hr', Option.map_some, eq_comm, Option.map_eq_some_iff] at hsame
    obtain ⟨r, hr, heq⟩ := hsame
    rw [Prod.mk.injEq] at heq
    exact ⟨r, hr, heq.1.symm, heq.2.symm⟩
  constructor
  · intro id r' hr'
    obtain ⟨r, hr, hvault, -⟩ := hback hr'
    rw [hvault]
    exact h.vaultId id r hr
  · intro id r' hr'
    obtain ⟨r, hr, -, hversion⟩ := hback hr'
    rw [hversion]
    exact h.reached id r hr
  · rw [hcursor]
    exact h.cursor
  · rw [hcursor]
    exact fun v hv => hsynced v (h.synced v hv)
  · intro id e he hfollowed hseq
    rw [hcursor] at hseq
    have hold := h.mirrors id e he hfollowed hseq
    constructor
    · intro r' hr'
      obtain ⟨r, hr, -, hversion⟩ := hback hr'
      rw [hversion]
      exact hold.row r hr
    · intro hnone
      apply hold.gone
      have hsame := hrow e.id
      rw [hnone, Option.map_none, eq_comm, Option.map_eq_none_iff] at hsame
      exact hsame

omit [Boxes] in
/-- A vault that is removed takes its cursor along. -/
theorem Level.removeVault (hdb : Server.Db.Housed home db) (h : Level opts home p db s) {id : Uuid}
    (hremove : s.removeVault id = .ok s') :
  Level opts home p db s'
  := by
  obtain ⟨hvaults, hrows, -⟩ := removeVault_eq_ok hremove
  have hcursor : ∀ v, s'.cursor v = if v = id then 0 else s.cursor v := by
    intro v
    rw [Store.cursor, hvaults]
    split
    · rfl
    · rfl
  have hback : ∀ {id' r}, s'.row id' = some r → s.row id' = some r := by
    intro id' r hr
    rw [hrows, Option.filter_eq_some_iff] at hr
    exact hr.1
  constructor
  · exact fun id' r hr => h.vaultId id' r (hback hr)
  · exact fun id' r hr => h.reached id' r (hback hr)
  · intro v
    rw [hcursor]
    split
    · exact hdb.counter v
    · exact h.cursor v
  · intro v hpos l hl
    rw [hcursor] at hpos
    rw [hvaults] at hl
    split at hl
    · cases hl
    · rename_i hv
      rw [if_neg hv] at hpos
      exact h.synced v hpos l hl
  · intro id' e he hfollowed hseq
    have hpos := hdb.seq _ e he
    rw [hcursor] at hseq
    split at hseq
    · omega
    rename_i hv
    have hold := h.mirrors id' e he hfollowed hseq
    constructor
    · exact fun r hr => hold.row r (hback hr)
    · intro hnone
      apply hold.gone
      obtain rfl : e.id = id' := Table.key_of_get? he
      cases hr : s.row e.id with
      | none => rfl
      | some r =>
          have hhome : r.vaultId ≠ id := by
            rw [h.vaultId _ r hr, ← hdb.vaultId _ e he]
            exact hv
          rw [hrows, hr, Option.filter_some, if_pos (by simpa using hhome)] at hnone
          cases hnone

/-- Mirroring a vault list keeps the store level, and synced vaults synced. -/
theorem Level.refreshed (hdb : Server.Db.Housed home db) (h : Level opts home p db s)
    {privateKey : KeyPair} {remote : List Vault} {nonce : ℕ → Uuid → Nonce} :
  Level opts home p db ((applyVaultList privateKey remote nonce).final s)
    ∧ ∀ v, s.Synced v → ((applyVaultList privateKey remote nonce).final s).Synced v
  := by
  have hset : ∀ {s s' : Store} {id : Uuid} {f : LocalVault → LocalVault},
      (∀ v, s'.vaults.get? v
        = if v = id then (s.vaults.get? id).map f else s.vaults.get? v) →
      (∀ l, (f l).cursor = l.cursor ∧ (f l).kind = l.kind) →
      s'.cursor = s.cursor ∧ ∀ v, s.Synced v → s'.Synced v := by
    intro s s' id f hvaults hf
    constructor
    · funext v
      rw [Store.cursor, hvaults, Store.cursor]
      split
      · rename_i hv
        rw [hv, Option.map_map]
        congr 2
        funext l
        exact (hf l).1
      · rfl
    · intro v hv l hl
      rw [hvaults] at hl
      split at hl
      · rename_i hid
        obtain ⟨l', hl', rfl⟩ := Option.map_eq_some_iff.mp hl
        rw [(hf l').2]
        exact hv l' (hid ▸ hl')
      · exact hv l hl
  apply applyVaultList_induction (I := fun s' => Level opts home p db s'
    ∧ ∀ v, s.Synced v → s'.Synced v) _ _ _ _ _ ⟨h, fun _ hv => hv⟩ Script.final_mem_stops
  · rintro v - key keyVersion s₁ s₂ ⟨hlevel, hsynced⟩ hupsert
    obtain ⟨hvaults, hrest⟩ := upsertVault_eq_ok hupsert
    have hkeeps : ∀ u, s₁.Synced u → s₂.Synced u := by
      intro u hu l hl
      rw [hvaults] at hl
      split at hl
      · cases hl
        cases s₁.vaults.get? v.id <;> exact LocalVaultKind.isSynced_ofKind v.kind
      · exact hu l hl
    refine ⟨hlevel.of_vaults ?_ hkeeps ?_, fun u hu => hkeeps u (hsynced u hu)⟩
    · funext u
      rw [Store.cursor, hvaults, Store.cursor]
      split
      · rename_i hu
        rw [hu]
        cases s₁.vaults.get? v.id <;> rfl
      · rfl
    · intro id
      rw [hrest]
      rfl
  · rintro id on s₁ ⟨hlevel, hsynced⟩
    have hvaults : ∀ v, (s₁.setVaultSessionLogging id on).vaults.get? v
        = if v = id then (s₁.vaults.get? id).map (fun l => { l with sessionLogging := on })
          else s₁.vaults.get? v := fun _ => vaults_setVaultSessionLogging
    obtain ⟨hcursor, hkeeps⟩ := hset hvaults (fun _ => ⟨rfl, rfl⟩)
    exact ⟨hlevel.of_vaults hcursor hkeeps (fun _ => rfl), fun u hu => hkeeps u (hsynced u hu)⟩
  · rintro id on s₁ ⟨hlevel, hsynced⟩
    have hvaults : ∀ v, (s₁.setVaultDefault id on).vaults.get? v
        = if v = id then (s₁.vaults.get? id).map (fun l => { l with isDefault := on })
          else s₁.vaults.get? v := fun _ => vaults_setVaultDefault
    obtain ⟨hcursor, hkeeps⟩ := hset hvaults (fun _ => ⟨rfl, rfl⟩)
    exact ⟨hlevel.of_vaults hcursor hkeeps (fun _ => rfl), fun u hu => hkeeps u (hsynced u hu)⟩
  · rintro id data keyVersion s₁ ⟨hlevel, hsynced⟩
    refine ⟨hlevel.of_vaults rfl (fun _ hv => hv) ?_, hsynced⟩
    intro id'
    rw [row_setData]
    split
    · rename_i hid
      rw [hid, Option.map_map]
      rfl
    · rfl
  · rintro id s₁ s₂ ⟨hlevel, hsynced⟩ hremove
    refine ⟨hlevel.removeVault hdb hremove, fun v hv l hl => ?_⟩
    rw [(removeVault_eq_ok hremove).1] at hl
    split at hl
    · cases hl
    · exact hsynced v hv l hl

end

end Core.Store

end Termoso
