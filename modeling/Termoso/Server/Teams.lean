import Termoso.Server.Db

/-!
# Teams and their roles

The tables about teams: the roles of a team, the role new members get, the roles that groups of
an identity provider map to, the members and the pending invitations.
-/

namespace Termoso.Server

/-- How names are trimmed, folded and compared: by the server, and by the database with its
collation. -/
class Names where
  isWhitespace : Char → Bool
  trim : String → String
  toLowercase : String → String
  lower : String → String
  le : String → String → Bool

/-- Names that need no folding. -/
@[reducible]
def plainNames : Names where
  isWhitespace c := c.isWhitespace
  trim g := g
  toLowercase g := g
  lower g := g
  le g g' := decide (g ≤ g')

/-! ### Tables -/

/-- A role, with the permissions it grants; `*` grants all. -/
structure TeamRoleRow where
  id : Uuid
  teamId : Uuid
  slug : String
  name : String
  description : String
  permissions : List String
  builtin : Bool
  position : ℤ
deriving DecidableEq

instance : Keyed TeamRoleRow Uuid := ⟨TeamRoleRow.id⟩

structure TeamRow where
  id : Uuid
  ownerId : Uuid
  defaultRoleId : Option Uuid
deriving DecidableEq

instance : Keyed TeamRow Uuid := ⟨TeamRow.id⟩

/-- A member, with the coarse level `role` and the role that grants the permissions. -/
structure TeamMemberRow where
  teamId : Uuid
  userId : Uuid
  role : String
  roleId : Uuid
  roleSource : String
deriving DecidableEq

instance : Keyed TeamMemberRow (Uuid × Uuid) := ⟨fun m => (m.teamId, m.userId)⟩

structure RoleMappingRow where
  teamId : Uuid
  groupName : String
  roleId : Uuid
  priority : ℤ
deriving DecidableEq

instance : Keyed RoleMappingRow (Uuid × String) := ⟨fun m => (m.teamId, m.groupName)⟩

structure TeamInviteRow where
  id : Uuid
  teamId : Uuid
  email : String
  role : String
  roleId : Option Uuid
  accepted : Bool
  expiresAt : DateTime
deriving DecidableEq

instance : Keyed TeamInviteRow Uuid := ⟨TeamInviteRow.id⟩

structure TeamIdpRow where
  teamId : Uuid
  enabled : Bool
  jitJoin : Bool
deriving DecidableEq

instance : Keyed TeamIdpRow Uuid := ⟨TeamIdpRow.teamId⟩

structure SsoIdentityRow where
  provider : String
  subject : String
  userId : Uuid
  email : String
deriving DecidableEq

instance : Keyed SsoIdentityRow (String × String) := ⟨fun i => (i.provider, i.subject)⟩

/-- The tables about teams. -/
structure TeamDb where
  roles : Table TeamRoleRow
  teams : Table TeamRow
  members : Table TeamMemberRow
  mappings : Table RoleMappingRow
  invites : Table TeamInviteRow
  idps : Table TeamIdpRow
  identities : Table SsoIdentityRow

@[simp] theorem key_teamRole (r : TeamRoleRow) : key r = r.id := rfl
@[simp] theorem key_team (t : TeamRow) : key t = t.id := rfl
@[simp] theorem key_teamMember (m : TeamMemberRow) : key m = (m.teamId, m.userId) := rfl
@[simp] theorem key_roleMapping (m : RoleMappingRow) : key m = (m.teamId, m.groupName) := rfl
@[simp] theorem key_invite (i : TeamInviteRow) : key i = i.id := rfl

/-- The members of teams with the permissions of their roles. -/
def TeamDb.teamMembers (db : TeamDb) : Table TeamMember where
  rows := db.members.rows.map (fun m =>
    ⟨m.teamId, m.userId, m.role, (db.roles.get? m.roleId).map TeamRoleRow.permissions⟩)
  nodup := by
    rw [List.map_map]
    exact db.members.nodup

/-! ### Built-in roles -/

/-- The built-in roles: slug, name, description, permissions and position. -/
def BUILTIN_ROLES : List (String × String × String × List String × ℤ) := [
  ("owner", "Owner",
    "Everything, including deleting the team and transferring ownership.",
    ["*"], 0),
  ("admin", "Admin",
    "Manages members, roles, vaults, policies, audit and integrations.",
    ["team.view", "team.rename", "team.settings", "members.view", "members.view_mfa",
    "members.invite", "invites.view", "members.remove", "members.suspend", "members.role",
    "roles.manage", "vaults.create", "vaults.rename", "vaults.archive", "vaults.delete",
    "vaults.transfer", "vaults.members", "acl.manage", "rotation.manage", "access.approve",
    "team.export", "devices.approve", "vaults.rotate_key", "vaults.history", "entities.read",
    "entities.write", "entities.delete", "entities.move", "entities.share_link",
    "secrets.reveal", "secrets.copy", "keys.generate", "keys.export", "snippets.run",
    "connect.ssh", "connect.sftp", "connect.port_forward", "connect.telnet", "connect.serial",
    "connect.mosh", "connect.local_terminal", "connect.record", "connect.bridge", "live.start",
    "live.join", "live.control", "logs.view_own", "logs.view_team", "logs.export", "logs.delete",
    "export.vault", "import.vault", "bridges.manage", "bridges.use", "sshid.manage", "ai.use",
    "mcp.use", "digest.manage", "audit.view", "audit.view_ips", "audit.export",
    "webhooks.manage", "tokens.manage", "policies.manage", "sso.manage", "scim.manage",
    "scim.tokens"], 10),
  ("member", "Member",
    "Works with the vaults they are given access to.",
    ["team.view", "members.view", "invites.view", "entities.read", "entities.write",
    "entities.delete", "entities.move", "entities.share_link", "secrets.reveal", "secrets.copy",
    "keys.generate", "snippets.run", "connect.ssh", "connect.sftp", "connect.port_forward",
    "connect.telnet", "connect.serial", "connect.mosh", "connect.local_terminal",
    "connect.record", "connect.bridge", "live.start", "live.join", "live.control",
    "logs.view_own", "import.vault", "bridges.use", "ai.use", "mcp.use", "audit.view",
    "vaults.history"], 20),
  ("viewer", "Viewer",
    "Connects to hosts but cannot change anything or see secrets.",
    ["team.view", "members.view", "entities.read", "secrets.copy", "connect.ssh", "connect.sftp",
    "connect.port_forward", "connect.telnet", "connect.mosh", "connect.local_terminal",
    "connect.bridge", "bridges.use", "live.join", "logs.view_own"], 30),
  ("auditor", "Auditor",
    "Reads the audit log and team session logs; no vault access.",
    ["team.view", "members.view", "members.view_mfa", "invites.view", "audit.view",
    "audit.view_ips", "audit.export", "logs.view_team"], 40)]

/-- The built-in roles of a new team, under the ids given. -/
def seedBuiltinRoles (teamId : Uuid) (ids : List Uuid) : List TeamRoleRow :=
  (BUILTIN_ROLES.zip ids).map (fun ((slug, name, description, permissions, position), roleId) =>
    ⟨roleId, teamId, slug, name, description, permissions, true, position⟩)

/-- A team as it is created: it has the built-in roles, the default role is `member`, and the owner
is the only member. -/
structure TeamDb.IsNew (db : TeamDb) (teamId owner ownerRole : Uuid) : Prop where
  roles : ∃ ids, ids.length = BUILTIN_ROLES.length ∧ ids.head? = some ownerRole
    ∧ db.roles.select (fun r => decide (r.teamId = teamId)) = seedBuiltinRoles teamId ids
    ∧ db.teams.get? teamId = some ⟨teamId, owner, ids[2]?⟩
  members : db.members.select (fun m => decide (m.teamId = teamId))
    = [⟨teamId, owner, "owner", ownerRole, "manual"⟩]
  invites : db.invites.select (fun i => decide (i.teamId = teamId)) = []

/-- The built-in roles of team 1 have the ids 10 to 14, and user 5 owns it. -/
def newTeam : TeamDb where
  roles := ⟨seedBuiltinRoles 1 [10, 11, 12, 13, 14], by decide⟩
  teams := ⟨[⟨1, 5, some 12⟩], by decide⟩
  members := ⟨[⟨1, 5, "owner", 10, "manual"⟩], by decide⟩
  mappings := .empty
  invites := .empty
  idps := .empty
  identities := .empty

theorem isNew_newTeam :
  newTeam.IsNew 1 5 10
  := ⟨⟨[10, 11, 12, 13, 14], rfl, rfl, rfl, rfl⟩, rfl, rfl⟩

/-! ### Memberships -/

/-- Role inside a team. -/
inductive TeamRole
  | member
  | admin
  /-- Exactly one per team. -/
  | owner
deriving DecidableEq

def teamRoleStr : TeamRole → String
  | .member => "member"
  | .admin => "admin"
  | .owner => "owner"

def parseTeamRole (s : String) : TeamRole :=
  if s = "owner" then .owner else if s = "admin" then .admin else .member

theorem parseTeamRole_eq_owner {s : String} :
  parseTeamRole s = .owner ↔ s = "owner"
  := by
  unfold parseTeamRole
  split
  · simp_all
  · split <;> simp_all

structure RoleRef where
  id : Uuid
  slug : String
  name : String
deriving DecidableEq

/-- A user's standing in a team. -/
structure Membership where
  teamId : Uuid
  userId : Uuid
  level : TeamRole
  role : RoleRef
  roleSource : String
  permissions : List String
deriving DecidableEq

/-- Whether the role of a member grants everything. -/
def Membership.wildcard (m : Membership) : Bool := decide ("*" ∈ m.permissions)

/-- Whether the member holds a permission. -/
def Membership.has (m : Membership) (perm : String) : Bool :=
  decide (m.level = .owner) || m.wildcard || decide (perm ∈ m.permissions)

/-- The error naming the missing permission. -/
def denied (perm : String) : Error :=
  .forbidden s!"This needs the `{perm}` permission in the team"

namespace TeamDb

/-- Load the membership. -/
def membership (db : TeamDb) (teamId userId : Uuid) : Except Error Membership :=
  match db.members.get? (teamId, userId) with
  | none => .error (.notFound "Team")
  | some m =>
    match db.roles.get? m.roleId with
    | none => .error (.notFound "Team")
    | some r => .ok ⟨teamId, userId, parseTeamRole m.role, ⟨r.id, r.slug, r.name⟩, m.roleSource,
        r.permissions⟩

/-- Membership that holds a permission. -/
def require (db : TeamDb) (teamId userId : Uuid) (perm : String) : Except Error Membership := do
  let m ← db.membership teamId userId
  if !m.has perm then throw (denied perm)
  return m

/-! ### Roles -/

/-- The role of a team with an id. -/
def teamRole (db : TeamDb) (teamId id : Uuid) : Option TeamRoleRow :=
  (db.roles.get? id).filter (fun r => decide (r.teamId = teamId))

/-- The coarse level that goes with a role: `admin` for the role of that slug. -/
def levelOf (db : TeamDb) (roleId : Uuid) : String :=
  if (db.roles.get? roleId).any (fun r => decide (r.slug = "admin")) then "admin" else "member"

/-- Id of a built-in role by slug. -/
def builtinRoleId (db : TeamDb) (teamId : Uuid) (slug : String) : Option Uuid :=
  ((db.roles.select (fun r => decide (r.teamId = teamId) && decide (r.slug = slug)
    && r.builtin)).head?).map TeamRoleRow.id

/-- Role for a coarse level. -/
def roleIdForLevel (db : TeamDb) (teamId : Uuid) (level : TeamRole) : Except Error Uuid :=
  (db.builtinRoleId teamId (teamRoleStr level)).elim (.error .internal) .ok

/-- Default role for new members. -/
def defaultRoleId (db : TeamDb) (teamId : Uuid) : Except Error Uuid :=
  match (db.teams.get? teamId).bind TeamRow.defaultRoleId with
  | some id => .ok id
  | none => .error (.notFound "Team")

/-- Add a member with a role, unless the user is one already. -/
def joinTeam (db : TeamDb) (teamId userId roleId : Uuid) (source : String) : TeamDb :=
  { db with
    members := db.members.upsert ⟨teamId, userId, db.levelOf roleId, roleId, source⟩ id
      (fun _ => rfl) }

/-! ### Invitations -/

/-- The role of someone who joins by an invitation for a level and a role. -/
def invitedRole (db : TeamDb) (teamId : Uuid) (role : String) (roleId : Option Uuid) : Option Uuid :=
  let role := if role = "owner" then "member" else role
  (((roleId.bind (db.teamRole teamId)).filter (fun r => decide (r.slug ≠ "owner"))).map
      TeamRoleRow.id).or
    ((db.builtinRoleId teamId role).or ((db.teams.get? teamId).bind TeamRow.defaultRoleId))

/-! ### Roles by group -/

section
variable [Names]

/-- The names of groups an identity provider sent, as they are compared. -/
def lowered (groups : List String) : List String :=
  (groups.map (fun g => Names.toLowercase (Names.trim g))).filter (fun g => !g.isEmpty)

/-- The role that groups map to in a team: that of the matching mapping with the lowest
priority. -/
def mappedRole (db : TeamDb) (teamId : Uuid) (groups : List String) : Option Uuid :=
  (((db.mappings.select (fun x => decide (x.teamId = teamId)
      && decide (Names.lower x.groupName ∈ groups))).mergeSort
    (fun x y => decide (x.priority < y.priority)
      || decide (x.priority = y.priority) && Names.le x.groupName y.groupName)).head?).map
    RoleMappingRow.roleId

/-- The role the groups of a user call for as a member. -/
def groupTarget (db : TeamDb) (groups : List String) (m : TeamMemberRow) : Option Uuid :=
  (db.teams.get? m.teamId).bind fun t =>
    match db.mappedRole m.teamId groups with
    | some r => some r
    | none => if m.roleSource = "idp" ∨ m.roleSource = "scim" then t.defaultRoleId else none

/-- Whether a role of a team may be given by group. -/
def grantable (db : TeamDb) (teamId roleId : Uuid) : Bool :=
  (db.teamRole teamId roleId).any (fun r => decide (r.slug ≠ "owner"))

/-- Give a member a role by group, unless the member is the owner or the role is. -/
def setGroupRole (db : TeamDb) (teamId userId roleId : Uuid) (source : String) : TeamDb :=
  { db with
    members := db.members.set (teamId, userId)
      (fun m =>
        if m.role ≠ "owner" ∧ db.grantable teamId roleId then
          { m with roleId := roleId, roleSource := source, role := db.levelOf roleId }
        else m)
      (fun m => by split <;> rfl) }

/-- Give a member the role that the groups of the user call for. -/
def regroup (groups : List String) (newSource : String) (rows : TeamDb) (db : TeamDb)
    (m : TeamMemberRow) : TeamDb :=
  match rows.groupTarget groups m with
  | none => db
  | some target =>
    if target = m.roleId ∧ m.roleSource = newSource then db
    else db.setGroupRole m.teamId m.userId target newSource

/-- Give a user the roles that the groups of the user map to, in one team or in all. -/
def applyGroupMappingsScoped (db : TeamDb) (userId : Uuid) (groups : List String)
    (onlyTeam : Option Uuid) (newSource : String) : TeamDb :=
  (db.members.select (fun m => decide (m.userId = userId) && decide (m.role ≠ "owner")
    && onlyTeam.all (fun t => decide (m.teamId = t)))).foldl
    (regroup (lowered groups) newSource db) db

/-- Apply the group mappings of all teams for a user who just signed in. -/
def applyGroupMappings (db : TeamDb) (userId : Uuid) (groups : List String) : TeamDb :=
  db.applyGroupMappingsScoped userId groups none "idp"

end

end TeamDb

end Termoso.Server
