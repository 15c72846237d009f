import Termoso.Server.Db
import Termoso.Crypto
import Termoso.Lib.Paging

/-!
# Entity sync on the server

Optimistic-concurrency push and cursor-based pull.  Every write to a vault draws a fresh
sequence number from the vault, whose row stays locked until the push commits, so that pushes
to one vault are serialised.
-/

namespace Termoso.Server

namespace Db

/-! ### Push -/

/-- The earlier of a time, if any, and now. -/
def least (t : Option DateTime) (now : DateTime) : DateTime := (t.map (min · now)).getD now

/-- Write an entity with the next sequence number of its vault. Reports version and sequence
number. -/
def writeEntity (db : Db) (e : SyncEntity) : Except Error (PushResult × Db) := do
  let (seq, db) ← db.nextSeq e.vaultId
  return (.ok e.id e.version seq, { db with
    entities := db.entities.upsert { e with seq } (fun r => { e with seq, id := r.id })
      (fun _ => rfl) })

/-- Create or update one entity. `access` and `acl` are what the pusher may do. -/
def pushChange [Primitives] (settings : Settings) (access : Uuid → Option Access)
    (acl : Uuid → Uuid → Option String) (deviceId : Uuid) (now : DateTime) (db : Db)
    (c : EntityChange) : Except Error (PushResult × Db) :=
  match access c.vaultId with
  | none => .ok (.error c.id "forbidden", db)
  | some a =>
    if !isKnownKind c.kind then .ok (.error c.id "unknown_kind", db)
    else if c.data.utf8ByteSize > settings.maxEntityBytes ∨ (Primitives.unb64 c.data).isNone then
      .ok (.error c.id "payload_too_large", db)
    else if c.keyVersion ≠ a.keyVersion then .ok (.error c.id "stale_key_version", db)
    else if (acl c.vaultId c.id).any (fun mode => mode ≠ "edit") then
      .ok (.error c.id "forbidden", db)
    else
      match db.entities.get? c.id, c.baseVersion with
      | some e, base =>
        if e.vaultId ≠ c.vaultId then .ok (.error c.id "forbidden", db)
        else if base = some e.version then
          db.writeEntity
            { id := c.id, kind := c.kind, vaultId := c.vaultId, version := e.version + 1, seq := 0,
              deleted := false, keyVersion := c.keyVersion, data := c.data,
              updatedAt := min c.updatedAt now, updatedByDevice := some deviceId,
              secretRotatedAt := some (least c.secretRotatedAt now) }
        else .ok (.conflict c.id e, db)
      | none, none =>
        db.writeEntity
          { id := c.id, kind := c.kind, vaultId := c.vaultId, version := 1, seq := 0,
            deleted := false, keyVersion := c.keyVersion, data := c.data,
            updatedAt := min c.updatedAt now, updatedByDevice := some deviceId,
            secretRotatedAt := some (least c.secretRotatedAt now) }
      | none, some _ => .ok (.error c.id "not_found", db)

/-- Delete one entity. -/
def pushDelete (access : Uuid → Option Access) (acl : Uuid → Uuid → Option String)
    (deviceId : Uuid) (now : DateTime) (db : Db) (d : EntityDelete) :
    Except Error (PushResult × Db) :=
  match db.entities.get? d.id with
  | none => .ok (.error d.id "not_found", db)
  | some e =>
    if (access e.vaultId).isNone then .ok (.error d.id "forbidden", db)
    else if (acl e.vaultId d.id).any (fun mode => mode ≠ "edit") then
      .ok (.error d.id "forbidden", db)
    else if e.deleted then .ok (.ok d.id e.version e.seq, db)
    else if e.version ≠ d.baseVersion then .ok (.conflict d.id e, db)
    else
      db.writeEntity
        { e with
          version := e.version + 1, deleted := true, data := "", updatedAt := now
          updatedByDevice := some deviceId }

/-- Run the items of a push, in order. -/
def pushItems {α : Type} (f : Db → α → Except Error (PushResult × Db)) :
    Db → List α → Except Error (List PushResult × Db)
  | db, [] => .ok ([], db)
  | db, x :: xs => do
    let (r, db) ← f db x
    let (rs, db) ← pushItems f db xs
    return (r :: rs, db)

/-- The transaction of a push: changes first, then deletes. -/
def pushTx [Primitives] (settings : Settings) (access : Uuid → Option Access)
    (acl : Uuid → Uuid → Option String) (deviceId : Uuid) (now : DateTime) (db : Db)
    (req : PushRequest) : Except Error (List PushResult × Db) := do
  let (changed, db) ← pushItems (pushChange settings access acl deviceId now) db req.changes
  let (deleted, db) ← pushItems (pushDelete access acl deviceId now) db req.deletes
  return (changed ++ deleted, db)

/-- Write access to a vault of the session's scope. -/
def pushAccess (db : Db) (auth : Auth) (vaultId : Uuid) : Option Access :=
  if db.inScope auth vaultId then (db.requireWrite vaultId auth.userId).toOption else none

/-- The mode of the rule on an entity of a team vault. -/
def pushAcl (db : Db) (auth : Auth) (vaultId id : Uuid) : Option String :=
  if (db.pushAccess auth vaultId).any (fun a => a.teamId.isSome) then
    db.directModes vaultId auth.userId id
  else none

def push [Primitives] (settings : Settings) (auth : Auth) (now : DateTime) (db : Db)
    (req : PushRequest) : Except Error (List PushResult × Db) :=
  if req.changes.length + req.deletes.length > MAX_BATCH then
    .error (.tooLarge s!"At most {MAX_BATCH} items per push")
  else db.pushTx settings (db.pushAccess auth) (db.pushAcl auth) auth.deviceId now req

/-! ### Pull -/

/-- The rows of a vault. -/
def vaultEntities (db : Db) (vaultId : Uuid) : List SyncEntity :=
  db.entities.select (fun e => decide (e.vaultId = vaultId))

/-- Whether a user can read a vault: it is in scope, the user is a member, and the key has been
sealed to them. -/
def readable (db : Db) (auth : Auth) (vaultId : Uuid) : Bool :=
  db.inScope auth vaultId && (db.access vaultId auth.userId).toOption.any (fun a => !a.pending)

/-- A page in the making: cursors, rows, and whether more is left. -/
structure PullState where
  cursors : Cursors
  entities : List SyncEntity
  hasMore : Bool

/-- Add the rows of one vault to a page of at most `limit` rows. -/
def pullVault (db : Db) (auth : Auth) (limit : ℕ) (st : PullState) (wanted : Uuid × ℤ) :
    PullState :=
  let (vaultId, since) := wanted
  let st := { st with cursors := st.cursors.put vaultId since }
  if st.hasMore then st
  else if !db.readable auth vaultId then st
  else
    let remaining := limit - st.entities.length
    if remaining = 0 then { st with hasMore := true }
    else
      let rows := (Paging.newer SyncEntity.seq (db.vaultEntities vaultId) since).take (remaining + 1)
      let page := rows.take remaining
      { cursors := match page.getLast? with
          | some last => st.cursors.put vaultId last.seq
          | none => st.cursors
        entities := st.entities ++ page
        hasMore := decide (rows.length > remaining) }

/-- A page of at most `limit` rows over several vaults. -/
def pullPage (db : Db) (auth : Auth) (limit : ℕ) (cursors : Cursors) : PullResponse :=
  let wanted := cursors.rows.insertionSort (fun c c' => c.1 < c'.1 ∨ c.1 = c'.1 ∧ c.2 ≤ c'.2)
  let st := wanted.foldl (db.pullVault auth limit) ⟨.empty, [], false⟩
  ⟨st.entities, st.cursors, st.hasMore⟩

def pull (db : Db) (auth : Auth) (req : PullRequest) : PullResponse :=
  db.pullPage auth (clampLimit req.limit) req.cursors

/-! ### What a push writes -/

/-- `db'` is `db` with `e` written to its vault. -/
structure Wrote (db db' : Db) (e : SyncEntity) : Prop where
  seq : e.seq = db.vaultSeq e.vaultId + 1
  entities : ∀ id, db'.entities.get? id = if id = e.id then some e else db.entities.get? id
  vaultSeq : ∀ v, db'.vaultSeq v = if v = e.vaultId then e.seq else db.vaultSeq v
  vaultLogsSeq : ∀ v, db'.vaultLogsSeq v = db.vaultLogsSeq v
  rest : db' = { db with vaults := db'.vaults, entities := db'.entities }

theorem writeEntity_eq_ok {db db' : Db} {e : SyncEntity} {r : PushResult}
    (h : db.writeEntity e = .ok (r, db')) :
  ∃ seq, r = .ok e.id e.version seq ∧ Wrote db db' { e with seq }
  := by
  rw [writeEntity] at h
  cases hseq : db.nextSeq e.vaultId with
  | error err => simp [hseq, bind, Except.bind] at h
  | ok p =>
      obtain ⟨seq, db₁⟩ := p
      obtain ⟨hnext, hvault, hlogs, hrest⟩ := nextSeq_eq_ok hseq
      simp only [hseq, bind, Except.bind, pure, Except.pure, Except.ok.injEq, Prod.mk.injEq] at h
      obtain ⟨rfl, rfl⟩ := h
      refine ⟨seq, rfl, hnext, ?_, hvault, hlogs, ?_⟩
      · intro id
        have hent : db₁.entities = db.entities := by rw [hrest]
        rw [Table.get?_upsert, hent]
        have hkey : key { e with seq } = e.id := rfl
        rw [hkey]
        split
        · rename_i heq
          subst heq
          cases hget : db.entities.get? e.id with
          | none => rfl
          | some e₀ =>
              have hid : e₀.id = e.id := Table.key_of_get? hget
              simp [hid]
        · rfl
      · rw [hrest]

section
variable [Primitives] {settings : Settings} {access : Uuid → Option Access}
  {acl : Uuid → Uuid → Option String} {deviceId : Uuid} {now : DateTime} {db db' : Db}
  {r : PushResult}

/-- The outcomes of a change: an error that leaves the database alone; a conflict with a copy
of another version; or a write, of the first version where there was no copy and of the next
one where the copy has the base version. -/
theorem pushChange_eq_ok {c : EntityChange}
    (h : pushChange settings access acl deviceId now db c = .ok (r, db')) :
  (db' = db ∧ ∃ code, r = .error c.id code
      ∧ (code = "not_found" → db.entities.get? c.id = none ∧ c.baseVersion.isSome))
    ∨ (db' = db ∧ ∃ e, r = .conflict c.id e ∧ db.entities.get? c.id = some e
      ∧ e.vaultId = c.vaultId ∧ c.baseVersion ≠ some e.version)
    ∨ ∃ e, r = .ok c.id e.version e.seq ∧ Wrote db db' e ∧ e.id = c.id ∧ e.vaultId = c.vaultId
      ∧ e.kind = c.kind ∧ e.data = c.data ∧ e.keyVersion = c.keyVersion ∧ e.deleted = false
      ∧ ((db.entities.get? c.id = none ∧ c.baseVersion = none ∧ e.version = 1)
        ∨ ∃ e₀, db.entities.get? c.id = some e₀ ∧ e₀.vaultId = c.vaultId
          ∧ c.baseVersion = some e₀.version ∧ e.version = e₀.version + 1)
  := by
  rw [pushChange] at h
  split at h
  · cases h
    exact .inl ⟨rfl, _, rfl, by simp⟩
  split at h
  · cases h
    exact .inl ⟨rfl, _, rfl, by simp⟩
  split at h
  · cases h
    exact .inl ⟨rfl, _, rfl, by simp⟩
  split at h
  · cases h
    exact .inl ⟨rfl, _, rfl, by simp⟩
  split at h
  · cases h
    exact .inl ⟨rfl, _, rfl, by simp⟩
  split at h
  · rename_i e hget
    split at h
    · cases h
      exact .inl ⟨rfl, _, rfl, by simp⟩
    rename_i hvault
    rw [not_not] at hvault
    split at h
    · rename_i hbase
      obtain ⟨seq, rfl, hwrote⟩ := writeEntity_eq_ok h
      exact .inr (.inr ⟨_, rfl, hwrote, rfl, rfl, rfl, rfl, rfl, rfl,
        .inr ⟨e, hget, hvault, hbase, rfl⟩⟩)
    · rename_i hbase
      cases h
      exact .inr (.inl ⟨rfl, e, rfl, hget, hvault, hbase⟩)
  · rename_i hget hbase
    obtain ⟨seq, rfl, hwrote⟩ := writeEntity_eq_ok h
    exact .inr (.inr ⟨_, rfl, hwrote, rfl, rfl, rfl, rfl, rfl, rfl, .inl ⟨hget, hbase, rfl⟩⟩)
  · rename_i hget hbase
    cases h
    exact .inl ⟨rfl, _, rfl, fun _ => ⟨hget, by simp [hbase]⟩⟩

omit [Primitives] in
/-- The outcomes of a delete: an error, or a tombstone already there, that leave the database
alone; a conflict with a live copy of another version; or a tombstone of the next version. -/
theorem pushDelete_eq_ok {d : EntityDelete}
    (h : pushDelete access acl deviceId now db d = .ok (r, db')) :
  (db' = db ∧ ∃ code, r = .error d.id code
      ∧ (code = "not_found" → db.entities.get? d.id = none))
    ∨ (db' = db ∧ ∃ e, r = .ok d.id e.version e.seq ∧ db.entities.get? d.id = some e
      ∧ e.deleted = true)
    ∨ (db' = db ∧ ∃ e, r = .conflict d.id e ∧ db.entities.get? d.id = some e
      ∧ e.deleted = false ∧ e.version ≠ d.baseVersion)
    ∨ ∃ e e₀, r = .ok d.id e.version e.seq ∧ Wrote db db' e ∧ db.entities.get? d.id = some e₀
      ∧ e.id = d.id ∧ e.vaultId = e₀.vaultId ∧ e.deleted = true ∧ e₀.deleted = false
      ∧ e₀.version = d.baseVersion ∧ e.version = e₀.version + 1
  := by
  rw [pushDelete] at h
  split at h
  · rename_i hget
    cases h
    exact .inl ⟨rfl, _, rfl, fun _ => hget⟩
  rename_i e hget
  split at h
  · cases h
    exact .inl ⟨rfl, _, rfl, by simp⟩
  split at h
  · cases h
    exact .inl ⟨rfl, _, rfl, by simp⟩
  split at h
  · rename_i hdel
    cases h
    exact .inr (.inl ⟨rfl, e, rfl, hget, hdel⟩)
  rename_i hlive
  rw [Bool.not_eq_true] at hlive
  split at h
  · rename_i hbase
    cases h
    exact .inr (.inr (.inl ⟨rfl, e, rfl, hget, hlive, hbase⟩))
  · rename_i hbase
    rw [not_not] at hbase
    have hid : e.id = d.id := Table.key_of_get? hget
    obtain ⟨seq, rfl, hwrote⟩ := writeEntity_eq_ok h
    refine .inr (.inr (.inr ⟨_, e, ?_, hwrote, hget, hid, rfl, rfl, hlive, hbase, rfl⟩))
    simp [hid]

omit [Primitives] in
/-- What each item preserves, the items of a push preserve. -/
theorem pushItems_induction {α : Type} {f : Db → α → Except Error (PushResult × Db)}
    {I : Db → Prop} (hf : ∀ db db' x r, I db → f db x = .ok (r, db') → I db') {xs : List α}
    {rs : List PushResult} (hI : I db) (h : pushItems f db xs = .ok (rs, db')) :
  I db'
  := by
  induction xs generalizing db rs with
  | nil =>
      cases h
      exact hI
  | cons x xs ih =>
      rw [pushItems] at h
      simp only [bind_eq_ok, pure_eq_ok, Prod.exists, Prod.mk.injEq] at h
      obtain ⟨r, db₁, hx, rs', db₂, hxs, -, rfl⟩ := h
      exact ih (hf _ _ _ _ hI hx) hxs

/-- What each change and each delete preserves, a push preserves. -/
theorem pushTx_induction_items {I : Db → Prop}
    (hchange : ∀ db db' c r, I db →
      pushChange settings access acl deviceId now db c = .ok (r, db') → I db')
    (hdelete : ∀ db db' d r, I db →
      pushDelete access acl deviceId now db d = .ok (r, db') → I db')
    {req : PushRequest} {results : List PushResult} (hI : I db)
    (h : db.pushTx settings access acl deviceId now req = .ok (results, db')) :
  I db'
  := by
  rw [pushTx] at h
  cases hc : pushItems (pushChange settings access acl deviceId now) db req.changes with
  | error e => simp [hc, bind, Except.bind] at h
  | ok p =>
      obtain ⟨changed, db₁⟩ := p
      simp only [hc, bind, Except.bind] at h
      cases hd : pushItems (pushDelete access acl deviceId now) db₁ req.deletes with
      | error e => simp [hd] at h
      | ok q =>
          obtain ⟨deleted, db₂⟩ := q
          simp only [hd, pure, Except.pure, Except.ok.injEq, Prod.mk.injEq] at h
          obtain ⟨-, rfl⟩ := h
          exact pushItems_induction hdelete (pushItems_induction hchange hI hc) hd

/-- What every write of an entity preserves, a push preserves. -/
theorem pushTx_induction {I : Db → Prop} (hwrote : ∀ db db' e, I db → Wrote db db' e → I db')
    {req : PushRequest} {results : List PushResult} (hI : I db)
    (h : db.pushTx settings access acl deviceId now req = .ok (results, db')) :
  I db'
  := by
  apply pushTx_induction_items ?_ ?_ hI h
  · intro db db' c r hI h
    rcases pushChange_eq_ok h with ⟨rfl, -⟩ | ⟨rfl, -⟩ | ⟨e, -, hw, -⟩
    · exact hI
    · exact hI
    · exact hwrote _ _ _ hI hw
  · intro db db' d r hI h
    rcases pushDelete_eq_ok h with ⟨rfl, -⟩ | ⟨rfl, -⟩ | ⟨rfl, -⟩ | ⟨e, _, -, hw, -⟩
    · exact hI
    · exact hI
    · exact hI
    · exact hwrote _ _ _ hI hw

/-- A rule that blocks writes keeps a change from the database. -/
theorem pushChange_of_blocked {c : EntityChange} {mode : String}
    (hacl : acl c.vaultId c.id = some mode) (hmode : mode ≠ "edit")
    (h : pushChange settings access acl deviceId now db c = .ok (r, db')) :
  db' = db
  := by
  rw [pushChange] at h
  split at h
  · cases h
    rfl
  split at h
  · cases h
    rfl
  split at h
  · cases h
    rfl
  split at h
  · cases h
    rfl
  · rw [if_pos (by simp [hacl, hmode])] at h
    cases h
    rfl

omit [Primitives] in
/-- A rule that blocks writes keeps a delete from the database. -/
theorem pushDelete_of_blocked {d : EntityDelete} {e : SyncEntity} {mode : String}
    (hget : db.entities.get? d.id = some e) (hacl : acl e.vaultId d.id = some mode)
    (hmode : mode ≠ "edit") (h : pushDelete access acl deviceId now db d = .ok (r, db')) :
  db' = db
  := by
  rw [pushDelete, hget] at h
  dsimp only at h
  split at h
  · cases h
    rfl
  · rw [if_pos (by simp [hacl, hmode])] at h
    cases h
    rfl

end

/-! ### What a page has -/

/-- Adding a vault to a page adds rows of that vault. -/
theorem mem_pullVault {db : Db} {auth : Auth} {limit : ℕ} {st : PullState} {wanted : Uuid × ℤ}
    {e : SyncEntity} (he : e ∈ (db.pullVault auth limit st wanted).entities) :
  e ∈ st.entities ∨ e.vaultId = wanted.1
  := by
  rw [pullVault] at he
  dsimp only at he
  split at he
  · exact .inl he
  split at he
  · exact .inl he
  split at he
  · exact .inl he
  rcases List.mem_append.mp he with he | he
  · exact .inl he
  · have hrow := (Paging.mem_newer.mp (List.mem_of_mem_take (List.mem_of_mem_take he))).1
    exact .inr (by simpa using (List.mem_filter.mp hrow).2)

/-- A page has rows of the vaults asked for. -/
theorem isSome_cursor_of_mem_pull {db : Db} {auth : Auth} {req : PullRequest} {e : SyncEntity}
    (he : e ∈ (db.pull auth req).entities) :
  (req.cursors.get? e.vaultId).isSome
  := by
  have hfold : ∀ (wanted : List (Uuid × ℤ)) (st : PullState),
      e ∈ (wanted.foldl (db.pullVault auth (clampLimit req.limit)) st).entities →
      e ∈ st.entities ∨ ∃ w ∈ wanted, e.vaultId = w.1 := by
    intro wanted
    induction wanted with
    | nil => exact fun st he => .inl he
    | cons w wanted ih =>
        intro st he
        rcases ih _ he with he | ⟨w', hw', heq⟩
        · rcases mem_pullVault he with he | heq
          · exact .inl he
          · exact .inr ⟨w, List.mem_cons_self, heq⟩
        · exact .inr ⟨w', List.mem_cons_of_mem _ hw', heq⟩
  rcases hfold _ _ he with he | ⟨w, hw, heq⟩
  · cases he
  · rw [List.mem_insertionSort] at hw
    rw [heq]
    exact Option.isSome_iff_exists.mpr ⟨w, Table.get?_of_mem hw⟩

/-- A page has rows of the database. -/
theorem get?_of_mem_pull {db : Db} {auth : Auth} {req : PullRequest} {e : SyncEntity}
    (he : e ∈ (db.pull auth req).entities) :
  db.entities.get? e.id = some e
  := by
  have hvault : ∀ (st : PullState) (wanted : Uuid × ℤ),
      (∀ e ∈ st.entities, e ∈ db.entities.rows) →
      ∀ e ∈ (db.pullVault auth (clampLimit req.limit) st wanted).entities,
        e ∈ db.entities.rows := by
    intro st wanted hst e he
    rw [pullVault] at he
    dsimp only at he
    split at he
    · exact hst e he
    split at he
    · exact hst e he
    split at he
    · exact hst e he
    rcases List.mem_append.mp he with he | he
    · exact hst e he
    · have hrow := (Paging.mem_newer.mp (List.mem_of_mem_take (List.mem_of_mem_take he))).1
      exact (List.mem_filter.mp hrow).1
  have hfold : ∀ (wanted : List (Uuid × ℤ)) (st : PullState),
      (∀ e ∈ st.entities, e ∈ db.entities.rows) →
      ∀ e ∈ (wanted.foldl (db.pullVault auth (clampLimit req.limit)) st).entities,
        e ∈ db.entities.rows := by
    intro wanted
    induction wanted with
    | nil => exact fun st hst => hst
    | cons w wanted ih => exact fun st hst => ih _ (hvault st w hst)
  exact Table.get?_of_mem (hfold _ _ (by simp) e he)

/-! ### What an answer says -/

/-- What every outcome of an item says, every outcome in an answer says. -/
theorem forall_pushItems {α : Type} {f : Db → α → Except Error (PushResult × Db)}
    {P : PushResult → Prop} (hf : ∀ db x r db', f db x = .ok (r, db') → P r) {xs : List α}
    {db db' : Db} {rs : List PushResult} (h : pushItems f db xs = .ok (rs, db')) :
  ∀ r ∈ rs, P r
  := by
  induction xs generalizing db rs with
  | nil =>
      cases h
      simp
  | cons x xs ih =>
      rw [pushItems] at h
      simp only [bind_eq_ok, pure_eq_ok, Prod.exists, Prod.mk.injEq] at h
      obtain ⟨r, db₁, hx, rs', db₂, hxs, rfl, rfl⟩ := h
      intro r' hr'
      rcases List.mem_cons.mp hr' with rfl | hr'
      · exact hf _ _ _ _ hx
      · exact ih hxs r' hr'

/-- An item is answered under its identifier, and leaves the other rows as they are. -/
def Confined {α : Type} (f : Db → α → Except Error (PushResult × Db)) (idOf : α → Uuid) : Prop :=
  ∀ db x r db', f db x = .ok (r, db') →
    r.id = idOf x ∧ ∀ id, id ≠ idOf x → db'.entities.get? id = db.entities.get? id

/-- Items about different rows do not meet: the row of each goes from what it was before all of them
to what it is after all of them. -/
theorem Confined.pushItems {α : Type} {f : Db → α → Except Error (PushResult × Db)}
    {idOf : α → Uuid} (hf : Confined f idOf) {xs : List α} (hnodup : (xs.map idOf).Nodup)
    {db db' : Db} {rs : List PushResult} (h : pushItems f db xs = .ok (rs, db')) :
  rs.map PushResult.id = xs.map idOf
    ∧ (∀ id, id ∉ xs.map idOf → db'.entities.get? id = db.entities.get? id)
    ∧ ∀ x ∈ xs, ∃ r ∈ rs, ∃ db₁ db₂, f db₁ x = .ok (r, db₂)
      ∧ db₁.entities.get? (idOf x) = db.entities.get? (idOf x)
      ∧ db'.entities.get? (idOf x) = db₂.entities.get? (idOf x)
  := by
  induction xs generalizing db rs with
  | nil =>
      cases h
      simp
  | cons x xs ih =>
      rw [Db.pushItems] at h
      simp only [bind_eq_ok, pure_eq_ok, Prod.exists, Prod.mk.injEq] at h
      obtain ⟨r, db₁, hx, rs', db₂, hxs, rfl, rfl⟩ := h
      rw [List.map_cons, List.nodup_cons] at hnodup
      obtain ⟨hid, hframe⟩ := hf _ _ _ _ hx
      obtain ⟨hids, hrest, heach⟩ := ih hnodup.2 hxs
      refine ⟨by rw [List.map_cons, List.map_cons, hid, hids], ?_, ?_⟩
      · intro id hmem
        rw [List.map_cons, List.mem_cons, not_or] at hmem
        rw [hrest id hmem.2, hframe id hmem.1]
      · intro y hy
        rcases List.mem_cons.mp hy with rfl | hy
        · exact ⟨r, List.mem_cons_self, db, db₁, hx, rfl, hrest _ hnodup.1⟩
        · obtain ⟨r', hr', db₃, db₄, hy', hbefore, hafter⟩ := heach y hy
          have hne : idOf y ≠ idOf x := by
            intro heq
            exact hnodup.1 (heq ▸ List.mem_map_of_mem hy)
          exact ⟨r', List.mem_cons_of_mem _ hr', db₃, db₄, hy', hbefore.trans (hframe _ hne),
            hafter⟩

theorem confined_pushChange [Primitives] {settings : Settings} {access : Uuid → Option Access}
    {acl : Uuid → Uuid → Option String} {deviceId : Uuid} {now : DateTime} :
  Confined (pushChange settings access acl deviceId now) EntityChange.id
  := by
  intro db c r db' h
  rcases pushChange_eq_ok h with ⟨rfl, code, rfl, -⟩ | ⟨rfl, e, rfl, -⟩ | ⟨e, rfl, hwrote, hid, -⟩
  · exact ⟨rfl, fun _ _ => rfl⟩
  · exact ⟨rfl, fun _ _ => rfl⟩
  · refine ⟨rfl, fun id hne => ?_⟩
    rw [hwrote.entities, if_neg (hid ▸ hne)]

theorem confined_pushDelete {access : Uuid → Option Access} {acl : Uuid → Uuid → Option String}
    {deviceId : Uuid} {now : DateTime} :
  Confined (pushDelete access acl deviceId now) EntityDelete.id
  := by
  intro db d r db' h
  rcases pushDelete_eq_ok h with ⟨rfl, code, rfl, -⟩ | ⟨rfl, e, rfl, -⟩ | ⟨rfl, e, rfl, -⟩ |
    ⟨e, e₀, rfl, hwrote, -, hid, -⟩
  · exact ⟨rfl, fun _ _ => rfl⟩
  · exact ⟨rfl, fun _ _ => rfl⟩
  · exact ⟨rfl, fun _ _ => rfl⟩
  · refine ⟨rfl, fun id hne => ?_⟩
    rw [hwrote.entities, if_neg (hid ▸ hne)]

/-- The copy in a conflict is one of the entity that was pushed. -/
theorem id_of_conflict [Primitives] {settings : Settings} {auth : Auth} {now : DateTime}
    {db db' : Db} {req : PushRequest} {results : List PushResult}
    (h : db.push settings auth now req = .ok (results, db')) {id : Uuid} {e : SyncEntity}
    (hmem : .conflict id e ∈ results) :
  e.id = id
  := by
  have hP : ∀ r ∈ results, ∀ id e, r = .conflict id e → e.id = id := by
    rw [push] at h
    split at h
    · cases h
    rw [pushTx] at h
    simp only [bind_eq_ok, pure_eq_ok, Prod.exists, Prod.mk.injEq] at h
    obtain ⟨changed, db₁, hchanged, deleted, db₂, hdeleted, rfl, -⟩ := h
    intro r hr
    rcases List.mem_append.mp hr with hr | hr
    · refine forall_pushItems (P := fun r => ∀ id e, r = .conflict id e → e.id = id) ?_ hchanged
        r hr
      intro db c r db' hc id e hr
      subst hr
      rcases pushChange_eq_ok hc with ⟨-, code, heq, -⟩ | ⟨-, e', heq, hget, -⟩ | ⟨e', heq, -⟩
      · cases heq
      · cases heq
        exact Table.key_of_get? hget
      · cases heq
    · refine forall_pushItems (P := fun r => ∀ id e, r = .conflict id e → e.id = id) ?_ hdeleted
        r hr
      intro db d r db' hd id e hr
      subst hr
      rcases pushDelete_eq_ok hd with ⟨-, code, heq, -⟩ | ⟨-, e', heq, -⟩ | ⟨-, e', heq, hget, -⟩ |
        ⟨e', e₀, heq, -⟩
      · cases heq
      · cases heq
      · cases heq
        exact Table.key_of_get? hget
      · cases heq
  exact hP _ hmem id e rfl

end Db

end Termoso.Server
