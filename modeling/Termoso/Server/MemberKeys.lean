import Termoso.Server.Members
import Termoso.Lib.Transition

/-!
# Sealed keys and their versions

Any number of requests write the members of one vault, each running its statements one by one
between those of the others.  A rotation keeps what it writes to itself until it commits, and
locks the rows it wrote.

A member who holds a sealed key is to hold it under the version the vault has.  An upsert
writes the version it read when it checked the caller.  Runs in which that version is still
the vault's when the upsert writes, and no rotation that has taken the keys is uncommitted,
keep every sealed key under the version of the vault.
-/

namespace Termoso.Server

/-! ### Statements -/

/-- A rotation that has not committed: who runs it, its vault and the new version, whether it has
taken the keys of the members and of the bridges, and the members it has written. -/
structure Rotation where
  owner : ℕ
  vaultId : Uuid
  newVersion : ℤ
  cleared : Bool
  bridgesCleared : Bool
  written : Table VaultMember

/-- The database as committed, and the rotation that has not committed. -/
structure Shared where
  db : Db
  rotation : Option Rotation

namespace Shared

/-- Whether an uncommitted rotation has written a member. -/
def locked (s : Shared) (vaultId userId : Uuid) : Bool :=
  s.rotation.any (fun r => (r.written.get? (vaultId, userId)).isSome)

/-- Put a member under an upsert. -/
def upserted (s : Shared) (m : VaultMember) : Table VaultMember :=
  s.db.vaultMembers.upsert m
    (fun m' => { m' with role := m.role, sealedKey := m.sealedKey, keyVersion := m.keyVersion })
    (fun _ => rfl)

/-- Whether a member holds a sealed key of a version. -/
def holds (keyVersion : ℤ) (m : VaultMember) : Bool :=
  decide (m.keyVersion = keyVersion) && m.sealedKey.isSome

/-- Reseal the key of a member who holds one. -/
def resealed (s : Shared) (vaultId userId : Uuid) (sealedKey : String) (keyVersion : ℤ) :
    Table VaultMember :=
  s.db.vaultMembers.set (vaultId, userId)
    (fun m => if holds keyVersion m then { m with sealedKey := some sealedKey } else m)
    (fun m => by split <;> rfl)

/-- Take the keys of the members of a vault that a rotation sees. -/
def clear (s : Shared) (r : Rotation) (vaultId : Uuid) (newVersion : ℤ) : Rotation :=
  { r with
    cleared := true
    written := ((s.db.vaultMembers.overlay r.written).delete
        (fun m => decide (m.vaultId ≠ vaultId))).update (fun _ => true)
      (fun m => { m with sealedKey := none, keyVersion := newVersion }) (fun _ => rfl) }

/-- Seal the key for a member that a rotation sees. -/
def sealKey (s : Shared) (r : Rotation) (vaultId userId : Uuid) (sealedKey : String) (newVersion : ℤ) :
    Rotation :=
  match (s.db.vaultMembers.overlay r.written).get? (vaultId, userId) with
  | none => r
  | some m =>
    let put (m : VaultMember) : VaultMember :=
      { m with sealedKey := some sealedKey, keyVersion := newVersion }
    { r with written := r.written.upsert (put m) put (fun _ => rfl) }

/-- Commit a rotation. -/
def committed (s : Shared) (r : Rotation) : Db :=
  { s.db with
    vaults := s.db.vaults.set r.vaultId (fun v => { v with keyVersion := r.newVersion })
      (fun _ => rfl)
    vaultMembers := s.db.vaultMembers.overlay r.written
    bridgeScope := fun b v => s.db.bridgeScope b v && !(r.bridgesCleared && decide (v = r.vaultId)) }

/-- Run the next statement of a thread. A statement on a member waits until the rotation that
wrote the member ends, and a rotation waits until another one ends. -/
def exec (s : Shared) (thread : ℕ) : Handler → Option (Shared × Handler)
  | .done _ => none
  | .select k => some (s, k s.db)
  | .upsertMember m k =>
    if s.locked m.vaultId m.userId then none
    else if (s.db.vaults.get? m.vaultId).isNone then some (s, .done (.error .internal))
    else some ({ s with db := { s.db with vaultMembers := s.upserted m } }, k)
  | .resealMember vaultId userId sealedKey keyVersion k =>
    if s.locked vaultId userId then none
    else
      let rows := if (s.db.vaultMembers.get? (vaultId, userId)).any (holds keyVersion) then 1 else 0
      some ({ s with db := { s.db with
        vaultMembers := s.resealed vaultId userId sealedKey keyVersion } }, k rows)
  | .deleteMember vaultId userId k =>
    if s.locked vaultId userId then none
    else
      let rows := if (s.db.vaultMembers.get? (vaultId, userId)).isSome then 1 else 0
      some ({ s with db := { s.db with
        vaultMembers := s.db.vaultMembers.erase (vaultId, userId) } }, k rows)
  | .beginRotation vaultId newVersion baseVersion k =>
    if s.rotation.isSome then none
    else if (s.db.vaults.get? vaultId).any (fun v => decide (v.keyVersion = baseVersion)) then
      some ({ s with rotation := some ⟨thread, vaultId, newVersion, false, false, .empty⟩ }, k 1)
    else some (s, k 0)
  | .clearMembers vaultId newVersion k =>
    s.rotation.map (fun r => ({ s with rotation := some (s.clear r vaultId newVersion) }, k))
  | .clearBridges _ k =>
    s.rotation.map (fun r => ({ s with rotation := some { r with bridgesCleared := true } }, k))
  | .sealMember vaultId userId sealedKey newVersion k =>
    s.rotation.map (fun r =>
      ({ s with rotation := some (s.sealKey r vaultId userId sealedKey newVersion) }, k))
  | .commit k => s.rotation.map (fun r => (⟨s.committed r, none⟩, k))

end Shared

/-! ### Requests running side by side -/

/-- The server with its requests. A thread without a request has nothing left to run. -/
structure VaultServer extends Shared where
  threads : ℕ → Handler

/-- A request to one of the handlers. -/
inductive MemberRequest
  | upsertMember (auth : Auth) (userId : Uuid) (req : VaultMemberUpsert)
  | removeMember (auth : Auth) (userId : Uuid)
  | resealMyKey (auth : Auth) (req : ResealMyKeyRequest)
  | rotateKey (auth : Auth) (req : RotateVaultKeyRequest)

/-- A request comes in, a request runs its next statement, or a request stops where it is. -/
inductive ServerStep
  | receive (thread : ℕ) (req : MemberRequest)
  | run (thread : ℕ)
  | stop (thread : ℕ)

section
variable [Primitives]

/-- The handler of a request about a vault. -/
def MemberRequest.handler (id : Uuid) : MemberRequest → Handler
  | .upsertMember auth userId req => Server.upsertMember auth id userId req
  | .removeMember auth userId => Server.removeMember auth id userId
  | .resealMyKey auth req => Server.resealMyKey auth id req
  | .rotateKey auth req => Server.rotateKey auth id req

/-- The server after a step, when the step is possible. A rotation that stops is rolled back. -/
def VaultServer.step (id : Uuid) (s : VaultServer) : ServerStep → Option VaultServer
  | .receive thread req =>
    match s.threads thread with
    | .done _ => some { s with threads := Function.update s.threads thread (req.handler id) }
    | _ => none
  | .run thread =>
    (s.toShared.exec thread (s.threads thread)).map (fun (shared, k) =>
      ⟨shared, Function.update s.threads thread k⟩)
  | .stop thread =>
    some ⟨⟨s.db, s.rotation.filter (fun r => decide (r.owner ≠ thread))⟩,
      Function.update s.threads thread (.done (.error .internal))⟩

end

/-- Every sealed key of a vault is under the version of the vault. -/
def KeysCurrent (db : Db) (id : Uuid) : Prop :=
  ∀ userId m, db.vaultMembers.get? (id, userId) = some m → m.sealedKey.isSome = true →
    (db.vaults.get? id).map VaultRow.keyVersion = some m.keyVersion

/-- The runs of requests about one vault, from a database where every sealed key is under the
version of the vault. -/
def memberSystem [Primitives] (id : Uuid) : TransitionSystem VaultServer ServerStep where
  init s := KeysCurrent s.db id ∧ s.rotation = none
    ∧ ∀ thread, s.threads thread = .done (.ok .noContent)
  step := VaultServer.step id

/-- The next statement writes a current version: when it is an upsert, the vault has the version it
is about to write, and no uncommitted rotation has taken the keys. -/
def Handler.WritesCurrent (s : Shared) : Handler → Prop
  | .upsertMember m _ =>
    (s.db.vaults.get? m.vaultId).map VaultRow.keyVersion = some m.keyVersion
      ∧ s.rotation.all (fun r => !r.cleared) = true
  | _ => True

instance (s : Shared) : ∀ h : Handler, Decidable (h.WritesCurrent s)
  | .upsertMember _ _ => inferInstanceAs (Decidable (_ ∧ _))
  | .done _ | .select _ | .resealMember .. | .deleteMember .. | .beginRotation .. | .clearMembers ..
  | .clearBridges .. | .sealMember .. | .commit _ => .isTrue trivial

/-- A step writes a current version. -/
def WritesCurrent (s : VaultServer) : ServerStep → Prop
  | .run thread => (s.threads thread).WritesCurrent s.toShared
  | _ => True

instance (s : VaultServer) : ∀ l : ServerStep, Decidable (WritesCurrent s l)
  | .run thread => inferInstanceAs (Decidable ((s.threads thread).WritesCurrent s.toShared))
  | .receive _ _ | .stop _ => .isTrue trivial

/-! ### The statements a handler has left -/

namespace Handler

/-- Statements about one vault, in order: outside a rotation, or in one to a new version that has
taken the keys or is about to. -/
def Orderly (id : Uuid) : Option (ℤ × Bool) → Handler → Prop
  | none, .done _ => True
  | none, .select k => ∀ db, Orderly id none (k db)
  | none, .upsertMember m k => m.vaultId = id ∧ Orderly id none k
  | none, .resealMember vaultId _ _ _ k => vaultId = id ∧ ∀ rows, Orderly id none (k rows)
  | none, .deleteMember vaultId _ k => vaultId = id ∧ ∀ rows, Orderly id none (k rows)
  | none, .beginRotation vaultId newVersion _ k =>
    vaultId = id ∧ Orderly id none (k 0) ∧ Orderly id (some (newVersion, false)) (k 1)
  | some (v, false), .clearMembers vaultId newVersion k =>
    vaultId = id ∧ newVersion = v ∧ Orderly id (some (v, true)) k
  | some (v, true), .clearBridges vaultId k => vaultId = id ∧ Orderly id (some (v, true)) k
  | some (v, true), .sealMember vaultId _ _ newVersion k =>
    vaultId = id ∧ newVersion = v ∧ Orderly id (some (v, true)) k
  | some (_, true), .commit k => Orderly id none k
  | _, _ => False

variable {id : Uuid} {mode : Option (ℤ × Bool)} {k : Handler}

section
variable {vaultId userId : Uuid} {sealedKey : String} {version base : ℤ}

attribute [local simp] Orderly

@[simp]
theorem orderly_select {next : Db → Handler} :
  Orderly id mode (.select next) ↔ mode = none ∧ ∀ db, Orderly id none (next db)
  := by
  rcases mode with _ | ⟨v, _ | _⟩ <;> simp

@[simp]
theorem orderly_upsert {m : VaultMember} :
  Orderly id mode (.upsertMember m k) ↔ mode = none ∧ m.vaultId = id ∧ Orderly id none k
  := by
  rcases mode with _ | ⟨v, _ | _⟩ <;> simp

@[simp]
theorem orderly_reseal {next : ℕ → Handler} :
  Orderly id mode (.resealMember vaultId userId sealedKey version next)
    ↔ mode = none ∧ vaultId = id ∧ ∀ rows, Orderly id none (next rows)
  := by
  rcases mode with _ | ⟨v, _ | _⟩ <;> simp

@[simp]
theorem orderly_delete {next : ℕ → Handler} :
  Orderly id mode (.deleteMember vaultId userId next)
    ↔ mode = none ∧ vaultId = id ∧ ∀ rows, Orderly id none (next rows)
  := by
  rcases mode with _ | ⟨v, _ | _⟩ <;> simp

@[simp]
theorem orderly_begin {next : ℕ → Handler} :
  Orderly id mode (.beginRotation vaultId version base next)
    ↔ mode = none ∧ vaultId = id ∧ Orderly id none (next 0)
      ∧ Orderly id (some (version, false)) (next 1)
  := by
  rcases mode with _ | ⟨v, _ | _⟩ <;> simp

@[simp]
theorem orderly_clearMembers :
  Orderly id mode (.clearMembers vaultId version k)
    ↔ mode = some (version, false) ∧ vaultId = id ∧ Orderly id (some (version, true)) k
  := by
  rcases mode with _ | ⟨v, _ | _⟩
  · simp
  · simp only [Orderly, Option.some.injEq, Prod.mk.injEq, and_true]
    constructor
    · rintro ⟨hid, rfl, hk⟩
      exact ⟨rfl, hid, hk⟩
    · rintro ⟨rfl, hid, hk⟩
      exact ⟨hid, rfl, hk⟩
  · simp

@[simp]
theorem orderly_clearBridges :
  Orderly id mode (.clearBridges vaultId k)
    ↔ ∃ v, mode = some (v, true) ∧ vaultId = id ∧ Orderly id (some (v, true)) k
  := by
  rcases mode with _ | ⟨v, _ | _⟩ <;> simp

@[simp]
theorem orderly_sealMember :
  Orderly id mode (.sealMember vaultId userId sealedKey version k)
    ↔ mode = some (version, true) ∧ vaultId = id ∧ Orderly id (some (version, true)) k
  := by
  rcases mode with _ | ⟨v, _ | _⟩
  · simp
  · simp
  · simp only [Orderly, Option.some.injEq, Prod.mk.injEq, and_true]
    constructor
    · rintro ⟨hid, rfl, hk⟩
      exact ⟨rfl, hid, hk⟩
    · rintro ⟨rfl, hid, hk⟩
      exact ⟨hid, rfl, hk⟩

@[simp]
theorem orderly_commit :
  Orderly id mode (.commit k) ↔ ∃ v, mode = some (v, true) ∧ Orderly id none k
  := by
  rcases mode with _ | ⟨v, _ | _⟩ <;> simp

end

theorem orderly_orFail {α : Type} {x : Except Error α} {k : α → Handler}
    (h : ∀ a, Orderly id none (k a)) :
  Orderly id none (orFail x k)
  := by
  cases x with
  | error e => trivial
  | ok a => exact h a

variable [Primitives]

theorem orderly_upsertMember (auth : Auth) (userId : Uuid) (req : VaultMemberUpsert) :
  Orderly id none (Server.upsertMember auth id userId req)
  := by
  intro db
  apply orderly_orFail
  intro a
  apply orderly_orFail
  intro teamId db
  dsimp only
  split
  · trivial
  split
  · intro db
    dsimp only
    split
    · trivial
    · exact fun _ => ⟨rfl, trivial⟩
  · exact fun _ => ⟨rfl, trivial⟩

omit [Primitives] in
theorem orderly_removeMember (auth : Auth) (userId : Uuid) :
  Orderly id none (Server.removeMember auth id userId)
  := by
  intro db
  apply orderly_orFail
  intro a
  split
  · trivial
  intro db
  dsimp only
  split
  · split
    · intro db
      dsimp only
      split
      · trivial
      · exact ⟨rfl, fun _ => trivial⟩
    · trivial
  · exact ⟨rfl, fun _ => trivial⟩

theorem orderly_resealMyKey (auth : Auth) (req : ResealMyKeyRequest) :
  Orderly id none (Server.resealMyKey auth id req)
  := by
  apply orderly_orFail
  intro _ db
  apply orderly_orFail
  intro a
  split
  · trivial
  · split
    · trivial
    · exact ⟨rfl, fun _ => trivial⟩

omit [Primitives] in
theorem orderly_sealMembers (newVersion : ℤ) (members : List SealedKeyFor) :
  Orderly id (some (newVersion, true)) (sealMembers id newVersion members)
  := by
  induction members with
  | nil => trivial
  | cons m members ih => exact ⟨rfl, rfl, ih⟩

theorem orderly_rotateKey (auth : Auth) (req : RotateVaultKeyRequest) :
  Orderly id none (Server.rotateKey auth id req)
  := by
  intro db
  apply orderly_orFail
  intro a
  split
  · trivial
  · intro db
    apply orderly_orFail
    intro _
    refine ⟨rfl, trivial, rfl, rfl, rfl, ?_⟩
    exact orderly_sealMembers _ _

theorem orderly_handler (req : MemberRequest) :
  Orderly id none (req.handler id)
  := by
  cases req with
  | upsertMember auth userId req => exact orderly_upsertMember auth userId req
  | removeMember auth userId => exact orderly_removeMember auth userId
  | resealMyKey auth req => exact orderly_resealMyKey auth req
  | rotateKey auth req => exact orderly_rotateKey auth req

end Handler

/-! ### One statement -/

namespace Shared

/-- The sealed keys of a vault are under its version, and a rotation that has not committed is about
that vault, writes its new version only, and has written every member once it has taken the
keys. -/
structure Sound (id : Uuid) (s : Shared) : Prop where
  current : KeysCurrent s.db id
  vault : ∀ r, s.rotation = some r → r.vaultId = id
  exists_vault : s.rotation.isSome → (s.db.vaults.get? id).isSome
  version : ∀ r, s.rotation = some r → ∀ k m, r.written.get? k = some m →
    m.keyVersion = r.newVersion
  cleared : ∀ r, s.rotation = some r → r.cleared = true → ∀ userId m,
    s.db.vaultMembers.get? (id, userId) = some m → (r.written.get? (id, userId)).isSome

/-- Where a thread is in its rotation: the new version, and whether it has taken the keys. -/
def mode (rotation : Option Rotation) (thread : ℕ) : Option (ℤ × Bool) :=
  (rotation.filter (fun r => decide (r.owner = thread))).map (fun r => (r.newVersion, r.cleared))

variable {id : Uuid} {s : Shared}

theorem mode_owner (r : Rotation) :
  mode (some r) r.owner = some (r.newVersion, r.cleared)
  := by
  simp [mode]

theorem mode_other {r : Rotation} {thread : ℕ} (h : r.owner ≠ thread) :
  mode (some r) thread = none
  := by
  simp [mode, h]

/-- A thread in a rotation is the one that runs the rotation. -/
theorem mode_eq_some {rotation : Option Rotation} {thread : ℕ} {v : ℤ} {cleared : Bool}
    (h : mode rotation thread = some (v, cleared)) :
  ∃ r, rotation = some r ∧ r.owner = thread ∧ r.newVersion = v ∧ r.cleared = cleared
  := by
  rw [mode, Option.map_eq_some_iff] at h
  obtain ⟨r, hr, heq⟩ := h
  obtain ⟨hrot, howner⟩ := Option.filter_eq_some_iff.mp hr
  rw [Prod.mk.injEq] at heq
  exact ⟨r, hrot, by simpa using howner, heq.1, heq.2⟩

/-- Rolling a rotation back. -/
theorem Sound.rollback (h : Sound id s) :
  Sound id ⟨s.db, none⟩
  := by
  refine ⟨h.current, ?_, ?_, ?_, ?_⟩
  · rintro r ⟨⟩
  · rintro ⟨⟩
  · rintro r ⟨⟩
  · rintro r ⟨⟩

/-- Members written outside a rotation that has taken the keys, under the version of the vault. -/
theorem Sound.write (h : Sound id s) {members : Table VaultMember}
    (hcurrent : ∀ userId m, members.get? (id, userId) = some m → m.sealedKey.isSome = true →
      (s.db.vaults.get? id).map VaultRow.keyVersion = some m.keyVersion)
    (hcleared : ∀ r, s.rotation = some r → r.cleared = true → ∀ userId m,
      members.get? (id, userId) = some m → (s.db.vaultMembers.get? (id, userId)).isSome) :
  Sound id { s with db := { s.db with vaultMembers := members } }
  := by
  refine ⟨hcurrent, h.vault, h.exists_vault, h.version, ?_⟩
  intro r hr hdone userId m hm
  obtain ⟨m', hm'⟩ := Option.isSome_iff_exists.mp (hcleared r hr hdone userId m hm)
  exact h.cleared r hr hdone userId m' hm'

theorem sound_upsertMember (h : Sound id s) {m : VaultMember} (hvault : m.vaultId = id)
    (hversion : (s.db.vaults.get? m.vaultId).map VaultRow.keyVersion = some m.keyVersion)
    (hopen : s.rotation.all (fun r => !r.cleared) = true) :
  Sound id { s with db := { s.db with vaultMembers := s.upserted m } }
  := by
  apply h.write
  · intro userId m' hm' hsealed
    rw [upserted, Table.get?_upsert] at hm'
    split at hm'
    · cases hget : s.db.vaultMembers.get? (id, userId) with
      | none =>
          rw [hget] at hm'
          cases hm'
          rw [← hvault]
          exact hversion
      | some m₀ =>
          rw [hget] at hm'
          cases hm'
          rw [← hvault]
          exact hversion
    · exact h.current userId m' hm' hsealed
  · intro r hr hdone
    rw [hr] at hopen
    simp [hdone] at hopen

theorem sound_resealMember (h : Sound id s) (userId : Uuid) (sealedKey : String) (keyVersion : ℤ) :
  Sound id { s with db := { s.db with
    vaultMembers := s.resealed id userId sealedKey keyVersion } }
  := by
  apply h.write
  · intro userId' m hm hsealed
    rw [resealed, Table.get?_set] at hm
    split at hm
    · rename_i heq
      rw [Prod.mk.injEq] at heq
      obtain ⟨m₀, hm₀, rfl⟩ := Option.map_eq_some_iff.mp hm
      split at hsealed
      · rename_i hholds
        rw [holds, Bool.and_eq_true] at hholds
        rw [if_pos (by simpa [holds] using hholds)]
        exact h.current userId m₀ hm₀ hholds.2
      · rename_i hholds
        rw [if_neg hholds]
        exact h.current userId m₀ hm₀ hsealed
    · exact h.current userId' m hm hsealed
  · intro r hr hdone userId' m hm
    rw [resealed, Table.get?_set] at hm
    split at hm
    · rename_i heq
      rw [heq]
      rw [Option.map_eq_some_iff] at hm
      obtain ⟨m₀, hm₀, -⟩ := hm
      rw [hm₀]
      rfl
    · rw [hm]
      rfl

theorem sound_deleteMember (h : Sound id s) (userId : Uuid) :
  Sound id { s with db := { s.db with vaultMembers := s.db.vaultMembers.erase (id, userId) } }
  := by
  apply h.write
  · intro userId' m hm hsealed
    rw [Table.get?_erase] at hm
    split at hm
    · cases hm
    · exact h.current userId' m hm hsealed
  · intro r hr hdone userId' m hm
    rw [Table.get?_erase] at hm
    split at hm
    · cases hm
    · rw [hm]
      rfl

theorem sound_beginRotation (h : Sound id s)
    (hvault : (s.db.vaults.get? id).isSome) (thread : ℕ) (newVersion : ℤ) :
  Sound id { s with rotation := some ⟨thread, id, newVersion, false, false, .empty⟩ }
  := by
  refine ⟨h.current, ?_, fun _ => hvault, ?_, ?_⟩
  · rintro r ⟨⟩
    rfl
  · rintro r ⟨⟩ k m hm
    cases hm
  · rintro r ⟨⟩ hdone
    cases hdone

theorem sound_clearMembers (h : Sound id s) {r : Rotation} (hr : s.rotation = some r) :
  Sound id { s with rotation := some (s.clear r id r.newVersion) }
  := by
  have hsome : s.rotation.isSome := by rw [hr]; rfl
  refine ⟨h.current, ?_, fun _ => h.exists_vault hsome, ?_, ?_⟩
  · rintro r' ⟨⟩
    exact h.vault r hr
  · rintro r' ⟨⟩ k m hm
    rw [clear, Table.get?_update, Option.map_eq_some_iff] at hm
    obtain ⟨m₀, -, rfl⟩ := hm
    rfl
  · rintro r' ⟨⟩ - userId m hm
    have hid : ((r.written.get? (id, userId)).getD m).vaultId = id := by
      cases hw : r.written.get? (id, userId) with
      | none => exact congrArg Prod.fst (Table.key_of_get? hm)
      | some m' => exact congrArg Prod.fst (Table.key_of_get? hw)
    rw [clear, Table.get?_update, Table.get?_delete, Table.get?_overlay, hm]
    simp [hid]

theorem sound_clearBridges (h : Sound id s) {r : Rotation} (hr : s.rotation = some r) :
  Sound id { s with rotation := some { r with bridgesCleared := true } }
  := by
  have hsome : s.rotation.isSome := by rw [hr]; rfl
  refine ⟨h.current, ?_, fun _ => h.exists_vault hsome, ?_, ?_⟩
  · rintro r' ⟨⟩
    exact h.vault r hr
  · rintro r' ⟨⟩
    exact h.version r hr
  · rintro r' ⟨⟩
    exact h.cleared r hr

/-- Sealing a key keeps the rotation, and the members it has written. -/
theorem sealKey_keeps (s : Shared) (r : Rotation) (vaultId userId : Uuid) (sealedKey : String) :
  (s.sealKey r vaultId userId sealedKey r.newVersion).owner = r.owner
    ∧ (s.sealKey r vaultId userId sealedKey r.newVersion).vaultId = r.vaultId
    ∧ (s.sealKey r vaultId userId sealedKey r.newVersion).newVersion = r.newVersion
    ∧ (s.sealKey r vaultId userId sealedKey r.newVersion).cleared = r.cleared
    ∧ ∀ k, (r.written.get? k).isSome →
        ((s.sealKey r vaultId userId sealedKey r.newVersion).written.get? k).isSome
  := by
  rw [sealKey]
  split
  · exact ⟨rfl, rfl, rfl, rfl, fun _ hk => hk⟩
  · refine ⟨rfl, rfl, rfl, rfl, ?_⟩
    intro k hk
    rw [Table.get?_upsert]
    split
    · rfl
    · exact hk

theorem sound_sealMember (h : Sound id s) {r : Rotation} (hr : s.rotation = some r) (userId : Uuid)
    (sealedKey : String) :
  Sound id { s with rotation := some (s.sealKey r id userId sealedKey r.newVersion) }
  := by
  have hsome : s.rotation.isSome := by rw [hr]; rfl
  obtain ⟨-, hvault, hversion, hcleared, hkeep⟩ := sealKey_keeps s r id userId sealedKey
  refine ⟨h.current, ?_, fun _ => h.exists_vault hsome, ?_, ?_⟩
  · rintro r' ⟨⟩
    rw [hvault]
    exact h.vault r hr
  · rintro r' ⟨⟩ k m hm
    rw [hversion]
    rw [sealKey] at hm
    split at hm
    · exact h.version r hr k m hm
    · rw [Table.get?_upsert] at hm
      split at hm
      · cases hget : r.written.get? k with
        | none =>
            rw [hget] at hm
            cases hm
            rfl
        | some m₀ =>
            rw [hget] at hm
            cases hm
            rfl
      · exact h.version r hr k m hm
  · rintro r' ⟨⟩ hdone userId' m hm
    apply hkeep
    exact h.cleared r hr (hcleared ▸ hdone) userId' m hm

theorem sound_commit (h : Sound id s) {r : Rotation} (hr : s.rotation = some r)
    (hdone : r.cleared = true) :
  Sound id ⟨s.committed r, none⟩
  := by
  have hsome : s.rotation.isSome := by rw [hr]; rfl
  refine ⟨?_, ?_, ?_, ?_, ?_⟩
  · intro userId m hm _
    obtain ⟨v, hv⟩ := Option.isSome_iff_exists.mp (h.exists_vault hsome)
    simp only [committed, Table.get?_overlay, Option.map_eq_some_iff] at hm
    obtain ⟨m₀, hm₀, rfl⟩ := hm
    obtain ⟨m', hm'⟩ := Option.isSome_iff_exists.mp (h.cleared r hr hdone userId m₀ hm₀)
    simp only [committed, h.vault r hr, Table.get?_set, if_pos, hv, Option.map_some, hm',
      Option.getD_some, h.version r hr _ m' hm']
  · rintro r' ⟨⟩
  · rintro ⟨⟩
  · rintro r' ⟨⟩
  · rintro r' ⟨⟩

/-- A statement run by a thread keeps the state sound, the thread orderly, and the other threads
where they are, when an upsert writes a current version. -/
theorem sound_exec (h : Sound id s) {thread : ℕ} {handler k : Handler} {s' : Shared}
    (horderly : handler.Orderly id (mode s.rotation thread))
    (hcurrent : handler.WritesCurrent s)
    (hexec : s.exec thread handler = some (s', k)) :
  Sound id s' ∧ k.Orderly id (mode s'.rotation thread)
    ∧ ∀ t, t ≠ thread → mode s'.rotation t = mode s.rotation t
  := by
  cases handler with
  | done result => cases hexec
  | select next =>
      rw [Handler.orderly_select] at horderly
      cases hexec
      rw [horderly.1]
      exact ⟨h, horderly.2 s.db, fun _ _ => rfl⟩
  | upsertMember m next =>
      rw [Handler.orderly_upsert] at horderly
      obtain ⟨hmode, hvault, hnext⟩ := horderly
      rw [exec] at hexec
      split at hexec
      · cases hexec
      split at hexec
      · cases hexec
        rw [hmode]
        exact ⟨h, trivial, fun _ _ => rfl⟩
      · cases hexec
        obtain ⟨hversion, hopen⟩ := hcurrent
        rw [hmode]
        exact ⟨sound_upsertMember h hvault hversion hopen, hnext, fun _ _ => rfl⟩
  | resealMember vaultId userId sealedKey keyVersion next =>
      rw [Handler.orderly_reseal] at horderly
      obtain ⟨hmode, rfl, hnext⟩ := horderly
      rw [exec] at hexec
      split at hexec
      · cases hexec
      · cases hexec
        rw [hmode]
        exact ⟨sound_resealMember h userId sealedKey keyVersion, hnext _, fun _ _ => rfl⟩
  | deleteMember vaultId userId next =>
      rw [Handler.orderly_delete] at horderly
      obtain ⟨hmode, rfl, hnext⟩ := horderly
      rw [exec] at hexec
      split at hexec
      · cases hexec
      · cases hexec
        rw [hmode]
        exact ⟨sound_deleteMember h userId, hnext _, fun _ _ => rfl⟩
  | beginRotation vaultId newVersion baseVersion next =>
      rw [Handler.orderly_begin] at horderly
      obtain ⟨hmode, rfl, hzero, hone⟩ := horderly
      rw [exec] at hexec
      split at hexec
      · cases hexec
      rename_i hfree
      have hnone : s.rotation = none := by simpa using hfree
      split at hexec
      · rename_i hbase
        have hvault : (s.db.vaults.get? vaultId).isSome := by
          cases hget : s.db.vaults.get? vaultId with
          | none => simp [hget] at hbase
          | some v => rfl
        cases hexec
        refine ⟨sound_beginRotation h hvault thread newVersion, ?_, ?_⟩
        · rw [mode_owner]
          exact hone
        · intro t ht
          rw [hnone]
          exact mode_other (Ne.symm ht)
      · cases hexec
        rw [hmode]
        exact ⟨h, hzero, fun _ _ => rfl⟩
  | clearMembers vaultId newVersion next =>
      rw [Handler.orderly_clearMembers] at horderly
      obtain ⟨hmode, rfl, hnext⟩ := horderly
      obtain ⟨r, hr, rfl, rfl, -⟩ := mode_eq_some hmode
      rw [exec, hr] at hexec
      cases hexec
      refine ⟨sound_clearMembers h hr, ?_, ?_⟩
      · exact (mode_owner (s.clear r vaultId r.newVersion)).symm ▸ hnext
      · intro t ht
        rw [hr, mode_other (Ne.symm ht)]
        exact mode_other (Ne.symm ht)
  | clearBridges vaultId next =>
      rw [Handler.orderly_clearBridges] at horderly
      obtain ⟨v, hmode, rfl, hnext⟩ := horderly
      obtain ⟨r, hr, rfl, rfl, hdone⟩ := mode_eq_some hmode
      rw [exec, hr] at hexec
      cases hexec
      refine ⟨sound_clearBridges h hr, ?_, ?_⟩
      · have hmode' := mode_owner { r with bridgesCleared := true }
        dsimp only at hmode' ⊢
        rw [hmode', hdone]
        exact hnext
      · intro t ht
        rw [hr, mode_other (Ne.symm ht)]
        exact mode_other (Ne.symm ht)
  | sealMember vaultId userId sealedKey newVersion next =>
      rw [Handler.orderly_sealMember] at horderly
      obtain ⟨hmode, rfl, hnext⟩ := horderly
      obtain ⟨r, hr, rfl, rfl, hdone⟩ := mode_eq_some hmode
      obtain ⟨howner, -, hversion, hcleared, -⟩ := sealKey_keeps s r vaultId userId sealedKey
      rw [exec, hr] at hexec
      cases hexec
      refine ⟨sound_sealMember h hr userId sealedKey, ?_, ?_⟩
      · have hmode' := mode_owner (s.sealKey r vaultId userId sealedKey r.newVersion)
        rw [howner, hversion, hcleared, hdone] at hmode'
        dsimp only
        rw [hmode']
        exact hnext
      · intro t ht
        rw [hr, mode_other (Ne.symm ht)]
        exact mode_other (by rw [howner]; exact Ne.symm ht)
  | commit next =>
      rw [Handler.orderly_commit] at horderly
      obtain ⟨v, hmode, hnext⟩ := horderly
      obtain ⟨r, hr, rfl, rfl, hdone⟩ := mode_eq_some hmode
      rw [exec, hr] at hexec
      cases hexec
      refine ⟨sound_commit h hr hdone, hnext, ?_⟩
      intro t ht
      rw [hr, mode_other (Ne.symm ht)]
      rfl

end Shared

/-! ### Every run -/

/-- The shared state is sound, and every thread orderly. -/
structure VaultServer.Sound (id : Uuid) (s : VaultServer) : Prop where
  shared : s.toShared.Sound id
  orderly : ∀ thread, (s.threads thread).Orderly id (Shared.mode s.rotation thread)

section
variable [Primitives] {id : Uuid} {s s' : VaultServer}

omit [Primitives] in
/-- A thread that is done is outside rotations. -/
theorem mode_of_done {mode : Option (ℤ × Bool)} {result : Except Error Response}
    (h : (Handler.done result).Orderly id mode) :
  mode = none
  := by
  rcases mode with _ | ⟨v, _ | _⟩
  · rfl
  · exact h.elim
  · exact h.elim

/-- A step keeps the server sound, when an upsert writes a current version. -/
theorem sound_step {l : ServerStep} (h : s.Sound id) (hcurrent : WritesCurrent s l)
    (hstep : s.step id l = some s') :
  s'.Sound id
  := by
  cases l with
  | receive thread req =>
      rw [VaultServer.step] at hstep
      split at hstep
      · rename_i result hdone
        cases hstep
        refine ⟨h.shared, ?_⟩
        intro t
        by_cases ht : t = thread
        · subst ht
          have hmode := h.orderly t
          rw [hdone] at hmode
          simp only [Function.update_self, mode_of_done hmode]
          exact Handler.orderly_handler req
        · simp only [Function.update_of_ne ht]
          exact h.orderly t
      · cases hstep
  | run thread =>
      obtain ⟨⟨shared, k⟩, hexec, rfl⟩ := Option.map_eq_some_iff.mp hstep
      obtain ⟨hsound, hk, hother⟩ :=
        Shared.sound_exec h.shared (h.orderly thread) hcurrent hexec
      refine ⟨hsound, ?_⟩
      intro t
      by_cases ht : t = thread
      · subst ht
        simp only [Function.update_self]
        exact hk
      · simp only [Function.update_of_ne ht, hother t ht]
        exact h.orderly t
  | stop thread =>
      cases hstep
      cases hrot : s.rotation with
      | none =>
          refine ⟨h.shared.rollback, ?_⟩
          intro t
          have ht := h.orderly t
          rw [hrot] at ht
          by_cases heq : t = thread
          · subst heq
            simp only [Function.update_self]
            trivial
          · simp only [Function.update_of_ne heq]
            exact ht
      | some r =>
          by_cases howner : r.owner = thread
          · have hfilter : (some r).filter (fun r => decide (r.owner ≠ thread)) = none := by
              simp [howner]
            rw [hfilter]
            refine ⟨h.shared.rollback, ?_⟩
            intro t
            by_cases heq : t = thread
            · subst heq
              simp only [Function.update_self]
              trivial
            · have ht := h.orderly t
              rw [hrot, Shared.mode_other (fun h => heq (h.symm.trans howner))] at ht
              simp only [Function.update_of_ne heq]
              exact ht
          · have hfilter : (some r).filter (fun r => decide (r.owner ≠ thread)) = some r := by
              simp [howner]
            rw [hfilter, ← hrot]
            refine ⟨h.shared, ?_⟩
            intro t
            by_cases heq : t = thread
            · subst heq
              rw [hrot, Shared.mode_other howner]
              simp only [Function.update_self]
              trivial
            · simp only [Function.update_of_ne heq]
              exact h.orderly t

end

/-! ### An upsert across a rotation -/

open Symbolic

/-- A sealed key of 48 bytes. -/
def sealedText : String := "@@@@@@@@@@@@@@@@@@@@@@@@@@@@@@@@@@@@@@@@@@@@@@@@"

/-- A team vault with a manager and an editor. -/
def sharedVault : VaultServer where
  db :=
    { users := ⟨[⟨1, "manager", none, none, false, false, 0, 0⟩,
        ⟨2, "editor", none, none, false, false, 0, 0⟩], by decide⟩
      vaults := ⟨[⟨9, .team, some 3, "Shared", 1, 0, 0, false, false, false⟩], by decide⟩
      vaultMembers := ⟨[⟨9, 1, .manager, some sealedText, 1⟩, ⟨9, 2, .editor, some sealedText, 1⟩],
        by decide⟩
      teamMembers := ⟨[⟨3, 1, "owner", some ["*"]⟩, ⟨3, 2, "member", none⟩], by decide⟩
      teamPolicies := .empty
      entities := .empty
      historyEntries := .empty
      sessionLogs := .empty
      bridgeScope _ _ := false
      directModes _ _ _ := none }
  rotation := none
  threads _ := .done (.ok .noContent)

theorem init_sharedVault :
  (memberSystem 9).init sharedVault
  := by
  refine ⟨?_, rfl, fun _ => rfl⟩
  intro userId m hm _
  rcases List.mem_cons.mp (Table.mem_of_get? hm) with rfl | hm
  · rfl
  · rw [List.mem_singleton.mp hm]
    rfl

/-- The manager seals the key for the editor again, up to the write. -/
def sealAgain : List ServerStep :=
  [.receive 0 (.upsertMember ⟨1, 1, none⟩ 2 ⟨2, .editor, sealedText⟩), .run 0, .run 0, .run 0]

/-- The manager rotates the key. -/
def rotate : List ServerStep :=
  [.receive 1 (.rotateKey ⟨1, 1, none⟩ ⟨1, [⟨1, sealedText⟩, ⟨2, sealedText⟩]⟩), .run 1, .run 1,
    .run 1, .run 1, .run 1, .run 1, .run 1, .run 1]

/-- The server when the write comes after the rotation. -/
def staleVault : VaultServer :=
  ((memberSystem 9).run sharedVault (sealAgain ++ rotate ++ [.run 0])).get (by decide)

end Termoso.Server
