import Termoso.Server.MemberKeys
import Termoso.Server.Teams

/-!
# Groups of an identity provider

An identity provider manages groups of users of a team; an administrator grants vaults to groups.
A user who is in a group becomes a member of its vaults.  The row of a member says which group it
was granted by, if any; members are also added by hand.

Each handler runs alone, statement by statement, and ends where a statement fails.  What is not
under a transaction stays.
-/

namespace Termoso.Server

/-! ### A handler alone -/

/-- Run the statements of a handler with no other one beside it. -/
def Handler.run : Handler → Shared → Shared × Except Error Response
  | .done result, s => (⟨s.db, none⟩, result)
  | .select k, s => (k s.db).run s
  | .upsertMember m k, s =>
    if (s.db.vaults.get? m.vaultId).isNone then (⟨s.db, none⟩, .error .internal)
    else k.run { s with db := { s.db with vaultMembers := s.upserted m } }
  | .resealMember vaultId userId sealedKey keyVersion k, s =>
    let rows :=
      if (s.db.vaultMembers.get? (vaultId, userId)).any (Shared.holds keyVersion) then 1 else 0
    (k rows).run { s with db := { s.db with
      vaultMembers := s.resealed vaultId userId sealedKey keyVersion } }
  | .deleteMember vaultId userId k, s =>
    let rows := if (s.db.vaultMembers.get? (vaultId, userId)).isSome then 1 else 0
    (k rows).run { s with db := { s.db with
      vaultMembers := s.db.vaultMembers.erase (vaultId, userId) } }
  | .beginRotation vaultId newVersion baseVersion k, s =>
    if (s.db.vaults.get? vaultId).any (fun v => decide (v.keyVersion = baseVersion)) then
      (k 1).run { s with rotation := some ⟨0, vaultId, newVersion, false, false, .empty⟩ }
    else (k 0).run s
  | .clearMembers vaultId newVersion k, s =>
    k.run { s with rotation := s.rotation.map (fun r => s.clear r vaultId newVersion) }
  | .clearBridges _ k, s =>
    k.run { s with rotation := s.rotation.map (fun r => { r with bridgesCleared := true }) }
  | .sealMember vaultId userId sealedKey newVersion k, s =>
    let sealOne (r : Rotation) : Rotation := s.sealKey r vaultId userId sealedKey newVersion
    k.run { s with rotation := s.rotation.map sealOne }
  | .commit k, s => k.run ⟨s.rotation.elim s.db s.committed, none⟩

/-! ### Tables -/

structure ScimGroup where
  id : Uuid
  teamId : Uuid
  externalId : Option String
  displayName : String
deriving DecidableEq

instance : Keyed ScimGroup Uuid := ⟨ScimGroup.id⟩

structure GroupMember where
  groupId : Uuid
  userId : Uuid
deriving DecidableEq

instance : Keyed GroupMember (Uuid × Uuid) := ⟨fun m => (m.groupId, m.userId)⟩

/-- A vault that a group grants. -/
structure GroupVault where
  groupId : Uuid
  vaultId : Uuid
  vaultRole : VaultRole
deriving DecidableEq

instance : Keyed GroupVault (Uuid × Uuid) := ⟨fun g => (g.groupId, g.vaultId)⟩

@[simp] theorem key_scimGroup (g : ScimGroup) : key g = g.id := rfl
@[simp] theorem key_groupMember (m : GroupMember) : key m = (m.groupId, m.userId) := rfl
@[simp] theorem key_groupVault (g : GroupVault) : key g = (g.groupId, g.vaultId) := rfl

/-- The database with the tables of teams and of groups; the team members of `db` are those of
`team`. `grantedByGroup (v, u)` is a column of the member `u` of vault `v`; `managedBy` and
`disabled` are columns of users. -/
structure ScimStore where
  db : Db
  team : TeamDb
  grantedByGroup : Uuid × Uuid → Option Uuid
  groups : Table ScimGroup
  groupMembers : Table GroupMember
  groupVaults : Table GroupVault
  managedBy : Uuid → Option Uuid
  disabled : Uuid → Bool

/-- The order of roles in which the first one is granted. -/
def vaultRoleRank : VaultRole → ℕ
  | .manager => 0
  | .editor => 1
  | .viewer => 2

namespace ScimStore

variable [Names] (s : ScimStore) (teamId userId : Uuid)

/-! ### Group membership -/

/-- The member row of a user in a vault. -/
def member (vaultId : Uuid) : Option VaultMember := s.db.vaultMembers.get? (vaultId, userId)

def inGroup (groupId : Uuid) : Bool := (s.groupMembers.get? (groupId, userId)).isSome

/-- Whether a group of the team grants a live vault to a user. -/
def grants (g : GroupVault) : Bool :=
  s.inGroup userId g.groupId && (s.groups.get? g.groupId).any (fun x => decide (x.teamId = teamId))
    && (s.db.vaults.get? g.vaultId).any (fun v => !v.deleted)

/-- Whether some group of a user grants a vault. -/
def inGrantingGroup (vaultId : Uuid) : Bool :=
  s.groupVaults.rows.any (fun g => decide (g.vaultId = vaultId) && s.inGroup userId g.groupId)

/-- The grants of a user, the strongest one of each vault. -/
def strongestGrants : List GroupVault :=
  let granting := s.groupVaults.select (s.grants teamId userId)
  ((granting.map GroupVault.vaultId).dedup).filterMap (fun vaultId =>
    ((granting.filter (fun g => decide (g.vaultId = vaultId))).insertionSort
      (fun g g' => vaultRoleRank g.vaultRole ≤ vaultRoleRank g'.vaultRole)).head?)

/-- Make a user a member of a vault, or mark the member as granted by the group. The role of a
member that was granted by no group stays. -/
def upsertGrant (s : ScimStore) (g : GroupVault) : ScimStore :=
  let old := s.grantedByGroup (g.vaultId, userId)
  let keyVersion := ((s.db.vaults.get? g.vaultId).map VaultRow.keyVersion).getD 0
  { s with
    db := { s.db with
      vaultMembers := s.db.vaultMembers.upsert ⟨g.vaultId, userId, g.vaultRole, none, keyVersion⟩
        (fun m => { m with role := if old.isNone then m.role else g.vaultRole }) (fun _ => rfl) }
    grantedByGroup := fun k =>
      if k = (g.vaultId, userId) then some g.groupId else s.grantedByGroup k }

/-- Whether a member was granted by groups that the user left. -/
def orphaned (m : VaultMember) : Bool :=
  decide (m.userId = userId) && (s.grantedByGroup (m.vaultId, m.userId)).isSome
    && (s.db.vaults.get? m.vaultId).any (fun v => decide (v.teamId = some teamId))
    && !s.inGrantingGroup userId m.vaultId

/-- Remove the members granted by groups that the user left. -/
def removeOrphaned : ScimStore :=
  { s with
    db := { s.db with vaultMembers := s.db.vaultMembers.delete (s.orphaned teamId userId) } }

/-- Change the tables of teams. -/
def withTeam (team : TeamDb) : ScimStore :=
  { s with team, db := { s.db with teamMembers := team.teamMembers } }

/-- The names of the groups that a user is in. -/
def groupNames : List String :=
  (s.groups.select (fun g => decide (g.teamId = teamId) && s.inGroup userId g.id)).map
    ScimGroup.displayName

/-- Recompute the role and the vaults of a user from the groups of the team. -/
def syncUserGroups : ScimStore :=
  let mapped := s.withTeam (s.team.applyGroupMappingsScoped userId (s.groupNames teamId userId)
    (some teamId) "scim")
  ((mapped.strongestGrants teamId userId).foldl (upsertGrant userId) mapped).removeOrphaned
    teamId userId

/-- Add a user to the team with the default role, unless the user is a member already. -/
def joinTeam : ScimStore × Except Error Unit :=
  match s.team.defaultRoleId teamId with
  | .error e => (s, .error e)
  | .ok defaultRole =>
    ((s.withTeam (s.team.joinTeam teamId userId defaultRole "scim")).syncUserGroups teamId userId,
      .ok ())

/-! ### Groups -/

/-- How the members of a group are changed. -/
inductive Mode
  | add
  | remove
  | replace
deriving DecidableEq

/-- Whether a user can be in a group of a team. -/
def inTeamScope : Bool :=
  (s.db.users.get? userId).isSome
    && ((s.team.members.get? (teamId, userId)).isSome || decide (s.managedBy userId = some teamId))

def insertGroupMember (groupId : Uuid) : ScimStore :=
  { s with groupMembers := s.groupMembers.upsert ⟨groupId, userId⟩ id (fun _ => rfl) }

def removeGroupMembers (p : GroupMember → Bool) : ScimStore :=
  { s with groupMembers := s.groupMembers.delete p }

/-- The users of a group. -/
def usersOf (groupId : Uuid) : List Uuid :=
  (s.groupMembers.select (fun m => decide (m.groupId = groupId))).map GroupMember.userId

/-- Add a user of the team to a group, and to the team unless disabled. -/
def addMember (groupId uid : Uuid) : ScimStore × Except Error Unit :=
  if s.inTeamScope teamId uid then
    let inserted := s.insertGroupMember uid groupId
    if inserted.disabled uid then (inserted, .ok ()) else inserted.joinTeam teamId uid
  else (s, .error (.badRequest s!"member {uid} is not a user of this team"))

/-- Add users to a group one after the other, up to the first for whom it fails. -/
def addMembers (groupId : Uuid) : List Uuid → ScimStore → ScimStore × Except Error Unit
  | [], s => (s, .ok ())
  | uid :: members, s =>
    match s.addMember teamId groupId uid with
    | (s, .error e) => (s, .error e)
    | (s, .ok ()) => addMembers groupId members s

/-- Recompute users one after the other. -/
def syncAll (users : List Uuid) : ScimStore :=
  users.foldl (fun s uid => s.syncUserGroups teamId uid) s

/-- Change the members of a group. -/
def setMembers (groupId : Uuid) (members : List Uuid) (mode : Mode) :
    ScimStore × Except Error Unit :=
  let before := s.usersOf groupId
  let cleared : ScimStore := match mode with
    | .replace => s.removeGroupMembers (fun m => decide (m.groupId = groupId))
    | .remove => s.removeGroupMembers
      (fun m => decide (m.groupId = groupId) && decide (m.userId ∈ members))
    | .add => s
  let added : ScimStore × Except Error Unit := if mode = .remove then (cleared, .ok ())
    else cleared.addMembers teamId groupId members
  let touched : List Uuid := match mode with
    | .replace => before ++ members
    | _ => members
  match added with
  | (s, .error e) => (s, .error e)
  | (s, .ok ()) => (s.syncAll teamId (touched.insertionSort (· ≤ ·)).dedup, .ok ())

/-- A group of the team with the name, other than one. -/
def nameTaken (name : String) (other : Option Uuid) : Bool :=
  s.groups.rows.any (fun g => decide (g.teamId = teamId)
    && decide (Names.lower g.displayName = Names.lower name) && decide (some g.id ≠ other))

/-- Create a group under a fresh identifier. -/
def createGroup (id : Uuid) (displayName externalId : Option String) (members : List Uuid) :
    ScimStore × Except Error Unit :=
  match displayName with
  | none => (s, .error (.badRequest "displayName is required"))
  | some name =>
    if 200 < name.utf8ByteSize then (s, .error (.badRequest "displayName is too long"))
    else if s.nameTaken teamId name none then
      (s, .error (.conflict "A group with this displayName exists"))
    else
      match s.groups.insert ⟨id, teamId, externalId, name⟩ with
      | none => (s, .error .internal)
      | some groups => setMembers { s with groups } teamId id members .replace

/-- The group, if it is of the team. -/
def loadGroup (id : Uuid) : Option ScimGroup :=
  (s.groups.get? id).filter (fun g => decide (g.teamId = teamId))

/-- Change the name and the external identifier of a group. -/
def renameGroup (id : Uuid) (displayName externalId : Option String) :
    ScimStore × Except Error Unit :=
  let setExternal (s : ScimStore) : ScimStore :=
    match externalId with
    | none => s
    | some ext => { s with
        groups := s.groups.set id
          (fun g => if g.teamId = teamId then { g with externalId := some ext } else g)
          (fun g => by split <;> rfl) }
  match displayName with
  | none => (setExternal s, .ok ())
  | some name =>
    if s.nameTaken teamId name (some id) then
      (s, .error (.conflict "A group with this displayName exists"))
    else
      (setExternal { s with
        groups := s.groups.set id
          (fun g => if g.teamId = teamId then { g with displayName := name } else g)
          (fun g => by split <;> rfl) }, .ok ())

/-- Rename a group, and replace its members when some are given. -/
def putGroup (id : Uuid) (displayName externalId : Option String) (members : Option (List Uuid)) :
    ScimStore × Except Error Unit :=
  match s.loadGroup teamId id with
  | none => (s, .error (.notFound "Group"))
  | some _ =>
    match s.renameGroup teamId id displayName externalId with
    | (s, .error e) => (s, .error e)
    | (s, .ok ()) =>
      match members with
      | none => (s, .ok ())
      | some members => s.setMembers teamId id members .replace

/-- An operation of a patch, as read from its document: `displayName` and `externalId` are what it
sets them to, `members` the users of a value that is an object, `value` the users of a value that is
a list, and `selected` the user of a path `members[value eq ".."]`. -/
structure PatchOp where
  op : String
  path : String
  displayName : Option String
  externalId : Option String
  members : Option (List Uuid)
  value : List Uuid
  selected : Option Uuid

/-- Run an operation of a patch. -/
def patchOp (id : Uuid) (op : PatchOp) : ScimStore × Except Error Unit :=
  let mode : Mode :=
    if op.op = "add" then .add else if op.op = "remove" then .remove else .replace
  if op.path = "" then
    match s.renameGroup teamId id op.displayName op.externalId with
    | (s, .error e) => (s, .error e)
    | (s, .ok ()) =>
      match op.members with
      | none => (s, .ok ())
      | some members =>
        s.setMembers teamId id members (if op.op = "add" then .add else .replace)
  else if op.path = "displayName" ∨ op.path = "externalId" then
    s.renameGroup teamId id op.displayName op.externalId
  else if op.path = "members" then s.setMembers teamId id op.value mode
  else
    match op.selected with
    | some uid => if op.op = "remove" then s.setMembers teamId id [uid] .remove else (s, .ok ())
    | none => (s, .ok ())

/-- Run operations up to the first that fails. -/
def patchOps (id : Uuid) : List PatchOp → ScimStore → ScimStore × Except Error Unit
  | [], s => (s, .ok ())
  | op :: ops, s =>
    match s.patchOp teamId id op with
    | (s, .error e) => (s, .error e)
    | (s, .ok ()) => patchOps id ops s

def patchGroup (id : Uuid) (schema : Bool) (ops : List PatchOp) : ScimStore × Except Error Unit :=
  match s.loadGroup teamId id with
  | none => (s, .error (.notFound "Group"))
  | some _ =>
    if schema then patchOps teamId id ops s
    else (s, .error (.badRequest "PatchOp schema required"))

/-- Delete a group with its members and grants. Members granted by it lose their mark. -/
def dropGroup (id : Uuid) : ScimStore :=
  { s with
    groups := s.groups.erase id
    groupMembers := s.groupMembers.delete (fun m => decide (m.groupId = id))
    groupVaults := s.groupVaults.delete (fun g => decide (g.groupId = id))
    grantedByGroup := fun k => (s.grantedByGroup k).filter (fun g => decide (g ≠ id)) }

def deleteGroup (id : Uuid) : ScimStore × Except Error Unit :=
  match s.loadGroup teamId id with
  | none => (s, .error (.notFound "Group"))
  | some _ => ((s.dropGroup id).syncAll teamId (s.usersOf id), .ok ())

/-- The role that a text names. -/
def grantRole (role : String) : Option VaultRole :=
  if role = "viewer" then some .viewer
  else if role = "editor" then some .editor
  else if role = "manager" then some .manager
  else none

/-- The grants that a group is to have. -/
def grantRows (groupId : Uuid) : List (Uuid × String) → Table GroupVault →
    Except Error (Table GroupVault)
  | [], rows => .ok rows
  | (vaultId, role) :: vaults, rows =>
    match grantRole role with
    | none => .error (.badRequest "role must be viewer, editor or manager")
    | some vaultRole =>
      if (s.db.vaults.get? vaultId).any (fun v => decide (v.teamId = some teamId) && !v.deleted) then
        grantRows groupId vaults
          (rows.upsert ⟨groupId, vaultId, vaultRole⟩ (fun g => { g with vaultRole }) (fun _ => rfl))
      else .error (.badRequest s!"vault {vaultId} is not a vault of this team")

/-- Check that the caller may set what a group grants, and that it can be granted. -/
def checkGroupVaults (auth : Auth) (groupId : Uuid) (vaults : List (Uuid × String)) :
    Except Error (Table GroupVault) := do
  let _ ← s.team.require teamId auth.userId "scim.manage"
  let _ ← s.team.require teamId auth.userId "vaults.members"
  if (s.loadGroup teamId groupId).isNone then throw (.notFound "SCIM group")
  s.grantRows teamId groupId vaults (s.groupVaults.delete (fun g => decide (g.groupId = groupId)))

/-- Replace the vaults that a group grants. -/
def setGroupVaults (auth : Auth) (groupId : Uuid) (vaults : List (Uuid × String)) :
    ScimStore × Except Error Unit :=
  match s.checkGroupVaults teamId auth groupId vaults with
  | .error e => (s, .error e)
  | .ok groupVaults => ({ s with groupVaults }.syncAll teamId (s.usersOf groupId), .ok ())

/-! ### Members added by hand -/

/-- Add a member of a vault, or update the role and the sealed key. A new member is granted by no
group. -/
def upsertMember [Primitives] (auth : Auth) (vaultId userId : Uuid) (req : VaultMemberUpsert) :
    ScimStore × Except Error Unit :=
  match (Server.upsertMember auth vaultId userId req).run ⟨s.db, none⟩ with
  | (shared, .error e) => ({ s with db := shared.db }, .error e)
  | (shared, .ok _) =>
    ({ s with
      db := shared.db
      grantedByGroup := fun k =>
        if k = (vaultId, userId) ∧ (s.member userId vaultId).isNone then none
        else s.grantedByGroup k },
      .ok ())

/-- Remove a member of a vault. -/
def removeMember [Primitives] (auth : Auth) (vaultId userId : Uuid) :
    ScimStore × Except Error Unit :=
  match (Server.removeMember auth vaultId userId).run ⟨s.db, none⟩ with
  | (shared, .error e) => ({ s with db := shared.db }, .error e)
  | (shared, .ok _) => ({ s with db := shared.db }, .ok ())

end ScimStore

end Termoso.Server
