import Termoso.Server.PushRotate

/-!
# Rotations fence pushes

After a rotation has committed, pushes that commit later are to write entities under the new version
only, so that the vault is under one version again once the entities left over have been written.  A
push locks the vault only when it draws a number from it, long after it read the version of the key,
and a rotation may commit in between.  Runs in which the version is still the vault's when a push
writes keep the fence.
-/

namespace Termoso.Server

/-- No push to a vault has committed a live entity under an older version than a rotation before it;
every live entity is under the version of the vault, or was left over by the last rotation; and all
are under the version of the vault when none is left over. -/
structure Fenced (id : Uuid) (s : PushStore) : Prop where
  accepted : ∀ a ∈ s.accepted, ∀ n ∈ a.1, n ≤ a.2.keyVersion
  current : ∀ e ∈ s.db.entities.rows, e.vaultId = id → e.deleted = false →
    s.keyVersion id = some e.keyVersion ∨ e.id ∈ s.leftOver
  replaced : s.leftOver = [] → ∀ e ∈ s.db.entities.rows, e.vaultId = id → e.deleted = false →
    s.keyVersion id = some e.keyVersion

/-- The next statement of a push does not write a live entity under a version that is no longer the
vault's. -/
def SyncThread.PushesCurrent (id : Uuid) (s : PushStore) : SyncThread → Prop
  | .push (.insertEntity e _) _ | .push (.updateEntity e _) _ =>
    e.vaultId = id → e.deleted = false → s.keyVersion id = some e.keyVersion
  | _ => True

instance (id : Uuid) (s : PushStore) : ∀ t : SyncThread, Decidable (t.PushesCurrent id s)
  | .push (.insertEntity e _) _ | .push (.updateEntity e _) _ =>
    inferInstanceAs (Decidable (e.vaultId = id → e.deleted = false → _))
  | .push (.done _) _ | .push (.select _) _ | .push (.fetchEntity _ _) _ | .push (.nextSeq _ _) _
  | .push (.commit _) _ | .rotate _ _ => .isTrue trivial

/-- A step does not write a live entity under a version that is no longer the vault's. -/
def PushesCurrent (id : Uuid) (p : Pool PushStore SyncThread) : PoolStep SyncStep Empty → Prop
  | .run i .next => (p.threads i).PushesCurrent id p.shared
  | _ => True

instance (id : Uuid) (p : Pool PushStore SyncThread) :
    ∀ l : PoolStep SyncStep Empty, Decidable (PushesCurrent id p l)
  | .run i .next => inferInstanceAs (Decidable ((p.threads i).PushesCurrent id p.shared))
  | .run _ .stop | .env _ => .isTrue trivial

/-! ### The statements a request has left -/

namespace PushHandler

/-- A push writes entities of vaults whose number it has drawn in the transaction. -/
def Orderly : List Uuid → PushHandler → Prop
  | _, .done _ => True
  | vs, .select k => ∀ db, Orderly vs (k db)
  | vs, .fetchEntity _ k => ∀ e, Orderly vs (k e)
  | vs, .nextSeq v k => ∀ seq, Orderly (v :: vs) (k seq)
  | vs, .insertEntity e k => e.vaultId ∈ vs ∧ Orderly vs k
  | vs, .updateEntity e k => e.vaultId ∈ vs ∧ Orderly vs k
  | _, .commit k => Orderly [] k

section
variable {auth : Auth} {vs : List Uuid}

theorem orderly_readAccess {vaultId : Uuid} {k : Option Access → PushHandler}
    (h : ∀ a, (k a).Orderly vs) :
  (readAccess auth vaultId k).Orderly vs
  := by
  intro db
  dsimp only
  split
  · exact fun db => h _
  · exact h none

theorem orderly_readAccesses {vaultIds : List Uuid} {access : AccessMap}
    {k : AccessMap → PushHandler} (h : ∀ access, (k access).Orderly vs) :
  (readAccesses auth vaultIds access k).Orderly vs
  := by
  induction vaultIds generalizing access with
  | nil => exact h access
  | cons v vaultIds ih => exact orderly_readAccess (fun a => ih)

theorem orderly_readAcls {access : AccessMap} {vaultIds : List Uuid} {acl : AclMap}
    {k : AclMap → PushHandler} (h : ∀ acl, (k acl).Orderly vs) :
  (readAcls auth access vaultIds acl k).Orderly vs
  := by
  induction vaultIds generalizing acl with
  | nil => exact h acl
  | cons v vaultIds ih =>
    unfold readAcls
    split
    · exact fun db => ih
    · exact ih

theorem orderly_pushChange [Primitives] {settings : Settings} {access : AccessMap} {acl : AclMap}
    {deviceId : Uuid} {now : DateTime} {c : EntityChange} {next : PushResult → PushHandler}
    (h : ∀ r vs, (next r).Orderly vs) :
  (pushChange settings access acl deviceId now c next).Orderly vs
  := by
  unfold pushChange
  split
  · apply h
  split
  · apply h
  split
  · apply h
  split
  · apply h
  split
  · apply h
  intro existing
  dsimp only
  split
  · split
    · apply h
    split
    · exact fun seq => ⟨List.mem_cons_self, h _ _⟩
    · apply h
  · exact fun seq => ⟨List.mem_cons_self, h _ _⟩
  · apply h

theorem orderly_pushChanges [Primitives] {settings : Settings} {access : AccessMap} {acl : AclMap}
    {deviceId : Uuid} {now : DateTime} {changes : List EntityChange} {results : List PushResult}
    {k : List PushResult → PushHandler} (h : ∀ results vs, (k results).Orderly vs) :
  (pushChanges settings access acl deviceId now changes results k).Orderly vs
  := by
  induction changes generalizing results vs with
  | nil => apply h
  | cons c changes ih => exact orderly_pushChange (fun r vs => ih)

theorem orderly_pushDelete {acl : AclMap} {deviceId : Uuid} {now : DateTime} {d : EntityDelete}
    {e : SyncEntity} {next : PushResult → PushHandler} (h : ∀ r vs, (next r).Orderly vs) :
  (pushDelete acl deviceId now d e next).Orderly vs
  := by
  unfold pushDelete
  split
  · apply h
  split
  · apply h
  split
  · apply h
  · exact fun seq => ⟨List.mem_cons_self, h _ _⟩

theorem orderly_pushDeletes {now : DateTime} {deletes : List EntityDelete} {access : AccessMap}
    {acl : AclMap} {results : List PushResult} {k : List PushResult → PushHandler}
    (h : ∀ results vs, (k results).Orderly vs) :
  (pushDeletes auth now deletes access acl results k).Orderly vs
  := by
  induction deletes generalizing access acl results vs with
  | nil => apply h
  | cons d deletes ih =>
    intro existing
    cases existing with
    | none => exact ih
    | some e =>
      dsimp only
      split
      · split
        · exact ih
        split
        · exact fun db => orderly_pushDelete (fun r vs => ih)
        · exact orderly_pushDelete (fun r vs => ih)
      · apply orderly_readAccess
        intro a
        split
        · exact ih
        split
        · exact fun db => orderly_pushDelete (fun r vs => ih)
        · exact orderly_pushDelete (fun r vs => ih)

theorem orderly_push [Primitives] (settings : Settings) (now : DateTime) (req : PushRequest) :
  (push settings auth now req).Orderly []
  := by
  unfold push
  split
  · trivial
  · apply orderly_readAccesses
    intro access
    apply orderly_readAcls
    intro acl
    apply orderly_pushChanges
    intro results vs
    apply orderly_pushDeletes
    exact fun results vs => trivial

end

end PushHandler

/-- A rotation goes to a version that is not below the one it replaces. -/
def Handler.Rising : Handler → Prop
  | .done _ => True
  | .select k => ∀ db, Rising (k db)
  | .upsertMember _ k => Rising k
  | .resealMember _ _ _ _ k => ∀ rows, Rising (k rows)
  | .deleteMember _ _ k => ∀ rows, Rising (k rows)
  | .beginRotation _ newVersion baseVersion k => baseVersion ≤ newVersion ∧ ∀ rows, Rising (k rows)
  | .clearMembers _ _ k => Rising k
  | .clearBridges _ k => Rising k
  | .sealMember _ _ _ _ k => Rising k
  | .commit k => Rising k

theorem rising_rotateKey [Primitives] (auth : Auth) (id : Uuid) (req : RotateVaultKeyRequest) :
  (rotateKey auth id req).Rising
  := by
  have hseal : ∀ newVersion (members : List SealedKeyFor),
      (sealMembers id newVersion members).Rising := by
    intro newVersion members
    induction members with
    | nil => trivial
    | cons m members ih => exact ih
  intro db
  cases hmanage : db.requireManage id auth.userId with
  | error e =>
    simp only [hmanage, Handler.orFail]
    trivial
  | ok a =>
    simp only [hmanage, Handler.orFail]
    split
    · trivial
    rename_i hbase
    intro db
    dsimp only
    split
    · trivial
    · refine ⟨by omega, fun rows => ?_⟩
      dsimp only
      split
      · trivial
      · exact hseal _ _

/-! ### What holds of the store and of a thread -/

section
variable {id : Uuid} {s s' : PushStore} {i j : ℕ}

/-- The fence holds, vaults are locked by one thread at a time, and the vault is not under a version
below one rotated to. -/
structure FenceInv (id : Uuid) (s : PushStore) : Prop extends Fenced id s where
  exclusive : ∀ v, s.locks.Exclusive (.vault v)
  rising : ∀ n ∈ s.rotated, ∀ k, s.keyVersion id = some k → n ≤ k

/-- What a push or a rotation relies on: it has locked the vaults it wrote to, and a push has
written live entities under the version of the vault. -/
def SyncThread.Assert (id : Uuid) (i : ℕ) (s : PushStore) : SyncThread → Prop
  | .push h tx => h.Orderly tx.drawn ∧ (∀ v ∈ tx.drawn, (RowLock.vault v, i) ∈ s.locks)
    ∧ ∀ e ∈ tx.written, e.vaultId ∈ tx.drawn
      ∧ (e.vaultId = id → e.deleted = false → s.keyVersion id = some e.keyVersion)
  | .rotate h tx => h.Rising ∧ ∀ r ∈ tx, (RowLock.vault r.vaultId, i) ∈ s.locks
    ∧ ∀ n, s.keyVersion r.vaultId = some n → n ≤ r.newVersion

/-- A thread may rely on the same when it keeps its locks, and the vaults it has locked their
versions. -/
theorem SyncThread.Assert.mono {t : SyncThread} (h : t.Assert id j s)
    (hlocks : ∀ l, (l, j) ∈ s.locks → (l, j) ∈ s'.locks)
    (hversions : ∀ v, (RowLock.vault v, j) ∈ s.locks → s'.keyVersion v = s.keyVersion v) :
  t.Assert id j s'
  := by
  cases t with
  | push h' tx =>
    obtain ⟨horderly, hdrawn, hwritten⟩ := h
    refine ⟨horderly, fun v hv => hlocks _ (hdrawn v hv), ?_⟩
    intro e he
    obtain ⟨hin, hcurrent⟩ := hwritten e he
    refine ⟨hin, fun hvault hlive => ?_⟩
    rw [hversions id (hvault ▸ hdrawn _ hin)]
    exact hcurrent hvault hlive
  | rotate h' tx =>
    refine ⟨h.1, fun r hr => ?_⟩
    obtain ⟨hlock, hle⟩ := h.2 r hr
    refine ⟨hlocks _ hlock, ?_⟩
    rw [hversions _ hlock]
    exact hle

/-- The invariant does not depend on the locks, as long as they are exclusive. -/
theorem FenceInv.withLocks (h : FenceInv id s) {locks : HeldLocks RowLock}
    (hexclusive : ∀ v, locks.Exclusive (.vault v)) :
  FenceInv id { s with locks }
  := ⟨⟨h.accepted, h.current, h.replaced⟩, hexclusive, h.rising⟩

/-- Taking a lock that was waited for keeps it exclusive. -/
theorem FenceInv.exclusive_take (h : FenceInv id s) {l : RowLock}
    (hfree : s.locks.waits i l = false) (v : Uuid) :
  (s.locks.take i [l]).Exclusive (.vault v)
  := by
  apply (h.exclusive v).take
  · exact decide_eq_true rfl
  · intro hmem
    rw [List.mem_singleton.mp hmem]
    exact hfree

theorem keyVersion_bumpSeq (db : Db) (drawn : List Uuid) (v : Uuid) :
  ((drawn.foldl Db.bumpSeq db).vaults.get? v).map VaultRow.keyVersion
    = (db.vaults.get? v).map VaultRow.keyVersion
  := by
  induction drawn generalizing db with
  | nil => rfl
  | cons d drawn ih =>
    rw [List.foldl_cons, ih, Db.bumpSeq, Table.get?_set]
    split
    · rename_i hv
      rw [hv, Option.map_map]
      rfl
    · rfl

theorem vaults_putEntity (db : Db) (es : List SyncEntity) :
  (es.foldl Db.putEntity db).vaults = db.vaults
  := by
  induction es generalizing db with
  | nil => rfl
  | cons e es ih =>
    rw [List.foldl_cons, ih]
    rfl

theorem entities_bumpSeq (db : Db) (drawn : List Uuid) :
  (drawn.foldl Db.bumpSeq db).entities = db.entities
  := by
  induction drawn generalizing db with
  | nil => rfl
  | cons d drawn ih =>
    rw [List.foldl_cons, ih]
    rfl

/-- An entity after entities were put is one of them, or was there before under an id that none of
them has. -/
theorem mem_putEntity {db : Db} {es : List SyncEntity} {e : SyncEntity}
    (h : e ∈ (es.foldl Db.putEntity db).entities.rows) :
  e ∈ es ∨ e ∈ db.entities.rows ∧ e.id ∉ es.map SyncEntity.id
  := by
  induction es generalizing db with
  | nil => exact .inr ⟨h, List.not_mem_nil⟩
  | cons x es ih =>
    rcases ih h with hmem | ⟨hmem, hnot⟩
    · exact .inl (List.mem_cons_of_mem x hmem)
    · have hget := Table.get?_of_mem hmem
      rw [Db.putEntity, Table.get?_upsert, key_syncEntity, key_syncEntity] at hget
      split at hget
      · rename_i hid
        left
        have hx : e = x := by
          cases hold : db.entities.get? e.id with
          | none =>
            rw [hold] at hget
            exact (Option.some.inj hget).symm
          | some old =>
            have hold' : old.id = e.id := Table.key_of_get? hold
            rw [hold] at hget
            have := (Option.some.inj hget).symm
            simpa [hold', hid] using this
        exact hx ▸ List.mem_cons_self
      · rename_i hid
        right
        refine ⟨Table.mem_of_get? hget, ?_⟩
        rw [List.map_cons]
        exact List.not_mem_cons_of_ne_of_not_mem hid hnot

/-- Committing a push that wrote under the version of the vault keeps the fence. -/
theorem FenceInv.commitPush (h : FenceInv id s) {tx : PushTx}
    (hwritten : ∀ e ∈ tx.written, e.vaultId = id → e.deleted = false →
      s.keyVersion id = some e.keyVersion) :
  FenceInv id (s.commitPush id i tx)
    ∧ ∀ v, (s.commitPush id i tx).keyVersion v = s.keyVersion v
  := by
  have hversion : ∀ v, (s.commitPush id i tx).keyVersion v = s.keyVersion v := by
    intro v
    unfold PushStore.keyVersion PushStore.commitPush
    dsimp only
    rw [vaults_putEntity, keyVersion_bumpSeq]
  have hcurrent : ∀ e ∈ (s.commitPush id i tx).db.entities.rows, e.vaultId = id →
      e.deleted = false →
        s.keyVersion id = some e.keyVersion ∨ e.id ∈ (s.commitPush id i tx).leftOver := by
    intro e he hvault hlive
    rcases mem_putEntity he with hmem | ⟨hmem, hnot⟩
    · exact .inl (hwritten e hmem hvault hlive)
    · rw [entities_bumpSeq] at hmem
      refine (h.current e hmem hvault hlive).imp_right (fun hleft => ?_)
      exact List.mem_filter.mpr ⟨hleft, decide_eq_true hnot⟩
  refine ⟨⟨⟨?_, ?_, ?_⟩, ?_, ?_⟩, hversion⟩
  · intro a ha n hn
    rcases List.mem_append.mp ha with ha | ha
    · obtain ⟨e, he, rfl⟩ := List.mem_map.mp ha
      obtain ⟨he, hmine⟩ := List.mem_filter.mp he
      simp only [Bool.and_eq_true, decide_eq_true_eq, Bool.not_eq_true'] at hmine
      exact h.rising n hn _ (hwritten e he hmine.1 hmine.2)
    · exact h.accepted a ha n hn
  · intro e he hvault hlive
    rw [hversion]
    exact hcurrent e he hvault hlive
  · intro hnone e he hvault hlive
    rw [hversion]
    rcases hcurrent e he hvault hlive with hcur | hleft
    · exact hcur
    · rw [hnone] at hleft
      cases hleft
  · exact fun v => (h.exclusive v).release
  · intro n hn k hk
    rw [hversion] at hk
    exact h.rising n hn k hk

theorem keyVersion_commitRotation (r : Rotation) (v : Uuid) :
  (s.commitRotation id i r).keyVersion v
    = if v = r.vaultId then (s.keyVersion v).map (fun _ => r.newVersion) else s.keyVersion v
  := by
  unfold PushStore.keyVersion PushStore.commitRotation Shared.committed
  dsimp only
  rw [Table.get?_set]
  split
  · rename_i hv
    subst hv
    rw [Option.map_map, Option.map_map]
    rfl
  · rfl

/-- Committing a rotation to a version that is not below keeps the fence: what was there is left
over. -/
theorem FenceInv.commitRotation (h : FenceInv id s) {r : Rotation}
    (hle : ∀ n, s.keyVersion r.vaultId = some n → n ≤ r.newVersion) :
  FenceInv id (s.commitRotation id i r)
  := by
  have hentities : (s.commitRotation id i r).db.entities = s.db.entities := rfl
  by_cases hv : r.vaultId = id
  · have hleft : (s.commitRotation id i r).leftOver = s.live id := if_pos hv
    have hrotated : (s.commitRotation id i r).rotated = r.newVersion :: s.rotated := if_pos hv
    have hversion : (s.commitRotation id i r).keyVersion id
        = (s.keyVersion id).map (fun _ => r.newVersion) := by
      rw [keyVersion_commitRotation, if_pos hv.symm]
    have hlive : ∀ e ∈ s.db.entities.rows, e.vaultId = id → e.deleted = false →
        e.id ∈ s.live id := by
      intro e he hvault hlive
      exact List.mem_map_of_mem (List.mem_filter.mpr ⟨he, by simp [hvault, hlive]⟩)
    refine ⟨⟨h.accepted, ?_, ?_⟩, fun v => (h.exclusive v).release, ?_⟩
    · intro e he hvault hdeleted
      rw [hleft]
      exact .inr (hlive e he hvault hdeleted)
    · intro hnone e he hvault hdeleted
      rw [hleft] at hnone
      have := hlive e he hvault hdeleted
      rw [hnone] at this
      cases this
    · intro n hn k hk
      rw [hversion] at hk
      obtain ⟨old, hold, rfl⟩ := Option.map_eq_some_iff.mp hk
      rw [hrotated] at hn
      rcases List.mem_cons.mp hn with rfl | hn
      · exact le_refl _
      · exact le_trans (h.rising n hn old hold) (hle old (hv ▸ hold))
  · have hleft : (s.commitRotation id i r).leftOver = s.leftOver := if_neg hv
    have hrotated : (s.commitRotation id i r).rotated = s.rotated := if_neg hv
    have hversion : (s.commitRotation id i r).keyVersion id = s.keyVersion id := by
      rw [keyVersion_commitRotation, if_neg (fun heq => hv heq.symm)]
    refine ⟨⟨h.accepted, ?_, ?_⟩, fun v => (h.exclusive v).release, ?_⟩
    · intro e he hvault hdeleted
      rw [hversion, hleft]
      exact h.current e he hvault hdeleted
    · intro hnone e he hvault hdeleted
      rw [hversion]
      exact h.replaced (hleft ▸ hnone) e he hvault hdeleted
    · rw [hrotated, hversion]
      exact h.rising

/-! ### What a step keeps -/

/-- A step of a thread keeps the invariant, meets what the thread relies on afterwards, and leaves
the other threads what they rely on. -/
structure KeepsFence (id : Uuid) (i : ℕ) (s : PushStore) (q : PushStore × SyncThread) : Prop where
  inv : FenceInv id q.1
  own : q.2.Assert id i q.1
  others : ∀ j (t : SyncThread), j ≠ i → t.Assert id j s → t.Assert id j q.1

/-- A step that changes nothing in the store. -/
theorem FenceInv.keeps_same (h : FenceInv id s) {t : SyncThread} (ht : t.Assert id i s) :
  KeepsFence id i s (s, t)
  := ⟨h, ht, fun _ _ _ ht' => ht'⟩

/-- A step that takes a lock that the thread did not have to wait for. -/
theorem FenceInv.keeps_take (h : FenceInv id s) {l : RowLock} {t : SyncThread}
    (hfree : s.locks.waits i l = false)
    (ht : t.Assert id i { s with locks := s.locks.take i [l] }) :
  KeepsFence id i s ({ s with locks := s.locks.take i [l] }, t)
  := by
  refine ⟨h.withLocks (h.exclusive_take hfree), ht, fun j t' _ ht' => ?_⟩
  apply ht'.mono
  · exact fun l' => HeldLocks.mem_take_of_held
  · exact fun v _ => rfl

/-- A rollback gives back the locks of the thread only. -/
theorem FenceInv.keeps_rollback (h : FenceInv id s) (t : SyncThread) :
  KeepsFence id i s (s.rollback i t)
  := by
  have hinv : FenceInv id { s with locks := s.locks.release i } :=
    h.withLocks (fun v => (h.exclusive v).release)
  have hothers : ∀ j (t' : SyncThread), j ≠ i → t'.Assert id j s →
      t'.Assert id j { s with locks := s.locks.release i } := by
    intro j t' hj ht'
    apply ht'.mono
    · exact fun l hl => HeldLocks.mem_release hl hj
    · exact fun v _ => rfl
  cases t with
  | push k tx =>
    refine ⟨hinv, ⟨trivial, ?_, ?_⟩, hothers⟩
    · intro v hv
      cases hv
    · intro e he
      cases he
  | rotate k tx =>
    refine ⟨hinv, ⟨trivial, ?_⟩, hothers⟩
    intro r hr
    cases hr

/-- A push that writes an entity of a vault whose number it has drawn, under the version of the
vault. -/
theorem assert_write {e : SyncEntity} {k : PushHandler} {tx : PushTx}
    (hassert : (SyncThread.push k tx).Assert id i s) (hin : e.vaultId ∈ tx.drawn)
    (hcurrent : e.vaultId = id → e.deleted = false → s.keyVersion id = some e.keyVersion) :
  (SyncThread.push k { tx with written := tx.written ++ [e] }).Assert id i s
  := by
  obtain ⟨horderly, hdrawn, hwritten⟩ := hassert
  refine ⟨horderly, hdrawn, ?_⟩
  intro x hx
  rcases List.mem_append.mp hx with hx | hx
  · exact hwritten x hx
  · rw [List.mem_singleton.mp hx]
    exact ⟨hin, hcurrent⟩

theorem SyncThread.Assert.take {t : SyncThread} (h : t.Assert id i s) (l : RowLock) :
  t.Assert id i { s with locks := s.locks.take i [l] }
  := by
  apply h.mono
  · exact fun l' => HeldLocks.mem_take_of_held
  · exact fun v _ => rfl

/-- A statement of a push. -/
theorem FenceInv.keeps_execPush (h : FenceInv id s) {tx : PushTx} {k : PushHandler}
    (hassert : (SyncThread.push k tx).Assert id i s)
    (hcurrent : (SyncThread.push k tx).PushesCurrent id s) {q : PushStore × SyncThread}
    (hexec : s.execPush id i tx k = some q) :
  KeepsFence id i s q
  := by
  obtain ⟨horderly, hdrawn, hwritten⟩ := hassert
  cases k with
  | done result => cases hexec
  | select k =>
    cases hexec
    exact h.keeps_same ⟨horderly s.db, hdrawn, hwritten⟩
  | fetchEntity entityId k =>
    rw [PushStore.execPush] at hexec
    split at hexec
    · cases hexec
      exact h.keeps_same ⟨horderly none, hdrawn, hwritten⟩
    · rename_i e _
      split at hexec
      · cases hexec
      · rename_i hwaits
        cases hexec
        apply h.keeps_take (Bool.eq_false_iff.mpr hwaits)
        apply SyncThread.Assert.take
        exact ⟨horderly (some e), hdrawn, hwritten⟩
  | nextSeq vaultId k =>
    rw [PushStore.execPush] at hexec
    split at hexec
    · cases hexec
    rename_i hwaits
    split at hexec
    · cases hexec
      exact h.keeps_rollback _
    · cases hexec
      apply h.keeps_take (Bool.eq_false_iff.mpr hwaits)
      refine ⟨horderly _, ?_, ?_⟩
      · intro v hv
        rcases List.mem_cons.mp hv with rfl | hv
        · exact HeldLocks.mem_take_of_mem List.mem_cons_self
        · exact HeldLocks.mem_take_of_held (hdrawn v hv)
      · intro e he
        obtain ⟨hin, hcur⟩ := hwritten e he
        exact ⟨List.mem_cons_of_mem _ hin, hcur⟩
  | insertEntity e k =>
    rw [PushStore.execPush] at hexec
    split at hexec
    · cases hexec
    rename_i hwaits
    split at hexec
    · cases hexec
      exact h.keeps_rollback _
    · cases hexec
      apply h.keeps_take (Bool.eq_false_iff.mpr hwaits)
      apply SyncThread.Assert.take
      exact assert_write ⟨horderly.2, hdrawn, hwritten⟩ horderly.1 hcurrent
  | updateEntity e k =>
    cases hexec
    exact h.keeps_same (assert_write ⟨horderly.2, hdrawn, hwritten⟩ horderly.1 hcurrent)
  | commit k =>
    cases hexec
    obtain ⟨hinv, hversion⟩ := FenceInv.commitPush (i := i) h (fun e he => (hwritten e he).2)
    refine ⟨hinv, ⟨horderly, ?_, ?_⟩, ?_⟩
    · intro v hv
      cases hv
    · intro e he
      cases he
    · intro j t hj ht
      apply ht.mono
      · exact fun l hl => HeldLocks.mem_release hl hj
      · exact fun v _ => hversion v

/-- A rotation goes on, of the same vault to the same version. -/
theorem assert_rotate {k : Handler} {r r' : Rotation}
    (hrising : k.Rising) (hassert : (RowLock.vault r.vaultId, i) ∈ s.locks
      ∧ ∀ n, s.keyVersion r.vaultId = some n → n ≤ r.newVersion)
    (hvault : r'.vaultId = r.vaultId) (hversion : r'.newVersion = r.newVersion) :
  (SyncThread.rotate k (some r')).Assert id i s
  := by
  refine ⟨hrising, ?_⟩
  rintro _ ⟨⟩
  rw [hvault, hversion]
  exact hassert

/-- A statement of a rotation. -/
theorem FenceInv.keeps_execRotate (h : FenceInv id s) {tx : Option Rotation} {k : Handler}
    (hassert : (SyncThread.rotate k tx).Assert id i s) {q : PushStore × SyncThread}
    (hexec : s.execRotate id i tx k = some q) :
  KeepsFence id i s q
  := by
  obtain ⟨hrising, htx⟩ := hassert
  cases k with
  | done result => cases hexec
  | upsertMember m k => cases hexec
  | resealMember v u sealed n k => cases hexec
  | deleteMember v u k => cases hexec
  | select k =>
    cases hexec
    exact h.keeps_same ⟨hrising s.db, htx⟩
  | beginRotation vaultId newVersion baseVersion k =>
    rw [PushStore.execRotate] at hexec
    split at hexec
    · cases hexec
    rename_i hwaits
    split at hexec
    · rename_i hbase
      cases hexec
      apply h.keeps_take (Bool.eq_false_iff.mpr hwaits)
      refine ⟨hrising.2 1, ?_⟩
      rintro _ ⟨⟩
      refine ⟨HeldLocks.mem_take_of_mem List.mem_cons_self, fun n hn => ?_⟩
      have : some n = some baseVersion := hn.symm.trans hbase
      rw [Option.some.inj this]
      exact hrising.1
    · cases hexec
      exact h.keeps_same ⟨hrising.2 0, htx⟩
  | clearMembers vaultId newVersion k =>
    obtain ⟨r, rfl, rfl⟩ := Option.map_eq_some_iff.mp hexec
    apply h.keeps_same
    exact assert_rotate (r := r) hrising (htx r rfl) rfl rfl
  | clearBridges vaultId k =>
    obtain ⟨r, rfl, rfl⟩ := Option.map_eq_some_iff.mp hexec
    apply h.keeps_same
    exact assert_rotate (r := r) hrising (htx r rfl) rfl rfl
  | sealMember vaultId userId sealedKey newVersion k =>
    obtain ⟨r, rfl, rfl⟩ := Option.map_eq_some_iff.mp hexec
    apply h.keeps_same
    have hseal : (Shared.sealKey ⟨s.db, none⟩ r vaultId userId sealedKey newVersion).vaultId
          = r.vaultId
        ∧ (Shared.sealKey ⟨s.db, none⟩ r vaultId userId sealedKey newVersion).newVersion
          = r.newVersion := by
      unfold Shared.sealKey
      split <;> exact ⟨rfl, rfl⟩
    exact assert_rotate hrising (htx r rfl) hseal.1 hseal.2
  | commit k =>
    obtain ⟨r, rfl, rfl⟩ := Option.map_eq_some_iff.mp hexec
    obtain ⟨hlock, hle⟩ := htx r rfl
    refine ⟨h.commitRotation hle, ⟨hrising, ?_⟩, ?_⟩
    · intro r' hr'
      cases hr'
    · intro j t hj ht
      apply ht.mono
      · exact fun l hl => HeldLocks.mem_release hl hj
      · intro v hv
        rw [keyVersion_commitRotation, if_neg]
        rintro rfl
        exact hj (h.exclusive _ j i hv hlock)

end

/-- What a step of a thread keeps. -/
theorem FenceInv.keeps_exec {id : Uuid} {s : PushStore} {i : ℕ} {step : SyncStep} {t : SyncThread}
    (h : FenceInv id s) (hassert : t.Assert id i s)
    (hcurrent : step = .next → t.PushesCurrent id s) {q : PushStore × SyncThread}
    (hexec : t.exec id i step s = some q) :
  KeepsFence id i s q
  := by
  cases step with
  | next =>
    cases t with
    | push k tx => exact h.keeps_execPush hassert (hcurrent rfl) hexec
    | rotate k tx => exact h.keeps_execRotate hassert hexec
  | stop =>
    cases hexec
    exact h.keeps_rollback t

/-! ### Runs -/

theorem assert_thread [Primitives] (id : Uuid) (i : ℕ) (s : PushStore) (req : SyncRequest) :
  req.thread.Assert id i s
  := by
  cases req with
  | push settings auth now req =>
    refine ⟨PushHandler.orderly_push settings now req, ?_, ?_⟩
    · intro v hv
      cases hv
    · intro e he
      cases he
  | rotateKey auth vaultId req =>
    refine ⟨rising_rotateKey auth vaultId req, ?_⟩
    intro r hr
    cases hr

open Symbolic

/-- A vault with two managers to push to and to rotate, and one entity. -/
def fencedVault : PushStore where
  db := { sharedVault.db with
    entities := ⟨[⟨none, 5, "host", 9, 1, 0, false, 1, "@", 0, none⟩], by decide⟩ }
  locks := []
  rotated := []
  accepted := []
  leftOver := []

theorem init_fencedVault :
  (pushThreads 9).init fencedVault
  := by
  refine ⟨?_, rfl, rfl, rfl, rfl⟩
  intro e he _ _
  rw [List.mem_singleton.mp he]
  rfl

/-- The editor pushes a new host under the first version of the key. -/
def pushHost : SyncRequest :=
  .push ⟨64, 0, 0⟩ ⟨2, 2, none⟩ 0 ⟨[⟨none, 6, "host", 9, none, 1, "@", 0⟩], []⟩

/-- The manager pushes both hosts under the second version of the key. -/
def pushAgain : SyncRequest :=
  .push ⟨64, 0, 0⟩ ⟨1, 1, none⟩ 0
    ⟨[⟨none, 5, "host", 9, some 1, 2, "A", 0⟩, ⟨none, 6, "host", 9, some 1, 2, "A", 0⟩], []⟩

def rotateHosts : SyncRequest :=
  .rotateKey ⟨1, 1, none⟩ 9 ⟨1, [⟨1, sealedText⟩, ⟨2, sealedText⟩]⟩

/-- The editor pushes, the manager rotates, and pushes what it has sealed again. -/
def fencedPool : Pool PushStore SyncThread where
  shared := fencedVault
  threads
    | 0 => pushHost.thread
    | 1 => rotateHosts.thread
    | _ => pushAgain.thread

theorem init_fencedPool :
  (pushThreads 9).system.init fencedPool
  := by
  refine ⟨init_fencedVault, fun i => ?_⟩
  match i with
  | 0 => exact ⟨pushHost, rfl⟩
  | 1 => exact ⟨rotateHosts, rfl⟩
  | _ + 2 => exact ⟨pushAgain, rfl⟩

/-- The statements of a thread. -/
def steps (i n : ℕ) : List (PoolStep SyncStep Empty) := List.replicate n (.run i .next)

/-- The pool when the manager rotates after the editor's push has read the version of the key. -/
def stalePool : Pool PushStore SyncThread :=
  ((pushThreads 9).system.run fencedPool (steps 0 4 ++ steps 1 8 ++ steps 0 3)).get
    (by decide +kernel)

end Termoso.Server
