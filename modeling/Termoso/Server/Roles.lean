import Termoso.Server.Teams

/-!
# Administration of roles

The handlers that change the roles of a team, the role new members get, the mappings of groups,
the role of a member and the pending invitations.  A handler either fails and leaves the tables
as they are, or succeeds.
-/

namespace Termoso.Server

/-! ### Requests and answers -/

structure CreateRoleRequest where
  name : String
  description : String
  permissions : List String
  copyFrom : Option Uuid

structure UpdateRoleRequest where
  name : Option String
  description : Option String
  permissions : Option (List String)
  position : Option ℤ

structure RoleMapping where
  groupName : String
  roleId : Uuid
  priority : ℤ
deriving DecidableEq

structure UpdateTeamMemberRequest where
  role : TeamRole
  roleId : Option Uuid

structure CreateInviteRequest where
  email : String
  role : TeamRole
  roleId : Option Uuid
  vaultIds : List Uuid

/-- A role, with the number of members who hold it. -/
structure TeamRoleDef extends TeamRoleRow where
  memberCount : ℕ
deriving DecidableEq

structure Invite where
  id : Uuid
  email : String
  role : TeamRole
  roleRef : Option RoleRef
deriving DecidableEq

/-! ### Permissions -/

def PERMISSIONS : List String := [
  "team.view", "team.rename", "team.settings", "team.delete", "team.transfer", "members.view",
  "members.view_mfa", "members.invite", "members.remove", "members.suspend", "members.role",
  "invites.view", "roles.manage", "vaults.create", "vaults.rename", "vaults.archive",
  "vaults.delete", "vaults.transfer", "vaults.members", "vaults.rotate_key", "acl.manage",
  "rotation.manage", "access.approve", "team.export", "devices.approve", "vaults.history",
  "entities.read", "entities.write", "entities.delete", "entities.move", "entities.share_link",
  "secrets.reveal", "secrets.copy", "keys.generate", "keys.export", "snippets.run", "connect.ssh",
  "connect.sftp", "connect.port_forward", "connect.telnet", "connect.serial", "connect.mosh",
  "connect.local_terminal", "connect.record", "connect.bridge", "live.start", "live.join",
  "live.control", "logs.view_own", "logs.view_team", "logs.export", "logs.delete", "export.vault",
  "import.vault", "bridges.manage", "bridges.use", "sshid.manage", "ai.use", "mcp.use",
  "digest.manage", "audit.view", "audit.view_ips", "audit.export", "webhooks.manage",
  "tokens.manage", "policies.manage", "sso.manage", "scim.manage", "scim.tokens"]

/-- Permissions only the owner may hold. -/
def OWNER_ONLY_PERMISSIONS : List String := ["team.delete", "team.transfer"]

def isPermission (key : String) : Bool := decide (key ∈ PERMISSIONS)

def MAX_CUSTOM_ROLES : ℕ := 32

section
variable [Names]

/-- A permission that may be put on a role. -/
def checkPermission (p : String) : Except Error String :=
  let p := Names.trim p
  if p = "*" ∨ p ∈ OWNER_ONLY_PERMISSIONS then
    .error (.badRequest s!"`{p}` belongs to the owner only")
  else if !isPermission p then .error (.badRequest s!"Unknown permission `{p}`")
  else .ok p

/-- Validate a permission set: known keys only, no owner-only keys, deduplicated and sorted. -/
def normalizePermissions (perms : List String) : Except Error (List String) := do
  let set ← perms.mapM checkPermission
  return set.dedup.mergeSort (fun p q => decide (p ≤ q))

/-- A non-owner cannot hand out more than they hold themselves. -/
def checkGranted (me : Membership) (perms : List String) : Except Error Unit :=
  match perms.find? (fun p => !me.has p) with
  | some p => .error (.badRequest s!"You cannot grant `{p}`: you do not hold it")
  | none => .ok ()

/-! ### Names -/

/-- Runs of dashes made one dash. -/
def squeeze : List Char → List Char
  | [] => []
  | c :: cs => if c = '-' ∧ cs.head? = some '-' then squeeze cs else c :: squeeze cs

def slugify (name : String) : String :=
  let cs := squeeze ((Names.toLowercase name).toList.map (fun c =>
    if c.isAlphanum then c else '-'))
  let cs := ((cs.dropWhile (fun c => c = '-')).reverse.dropWhile (fun c => c = '-')).reverse
  if cs.isEmpty then "role" else String.ofList cs

def validateName (name : String) : Except Error String :=
  let n := Names.trim name
  if n.isEmpty ∨ n.length > 40 then .error (.badRequest "Role name must be 1–40 characters")
  else .ok n

def validateDescription (d : String) : Except Error String :=
  if d.length > 200 then .error (.badRequest "Description is too long") else .ok (Names.trim d)

/-- The parts of a string before and after the first `@`. -/
def splitAt (e : String) : Option (List Char × List Char) :=
  match e.toList.span (fun c => c ≠ '@') with
  | (before, '@' :: after) => some (before, after)
  | _ => none

def normalizeEmail (email : String) : Option String :=
  let e := Names.toLowercase (Names.trim email)
  match splitAt e with
  | none => none
  | some (before, domain) =>
    if before.isEmpty ∨ domain.isEmpty ∨ '.' ∉ domain ∨ e.utf8ByteSize > 254 then none
    else if e.toList.any (fun c => Names.isWhitespace c || c = '<' || c = '>' || c = ',') then none
    else some e

end

/-- Domain part of an email. -/
def domainOf (email : String) : String :=
  String.ofList ((email.toList.reverse.takeWhile (fun c => c ≠ '@')).reverse)

/-- Whether an email may be invited under a list of domains; the empty list allows all. -/
def domainAllowed (domains : List String) (email : String) : Bool :=
  domains.isEmpty || domains.any (fun x => x.toLower = (domainOf email).toLower)

namespace TeamDb

/-! ### Roles -/

def loadRole (db : TeamDb) (teamId roleId : Uuid) : Except Error TeamRoleDef :=
  match db.teamRole teamId roleId with
  | none => .error (.notFound "Role")
  | some r => .ok { r with
      memberCount := (db.members.select (fun m => decide (m.roleId = r.id))).length }

/-- Whether a role of a team has a slug. -/
def slugTaken (db : TeamDb) (teamId : Uuid) (slug : String) : Bool :=
  db.roles.rows.any (fun r => decide (r.teamId = teamId) && decide (r.slug = slug))

/-- The first of a slug and its numbered variants that no role of a team has. -/
def freeSlug (db : TeamDb) (teamId : Uuid) (base : String) : String :=
  ((base :: (List.range db.roles.rows.length).map (fun n => s!"{base}-{n + 2}")).find?
    (fun slug => !db.slugTaken teamId slug)).getD base

/-- Add a role; the id and the slug in the team are unique. -/
def insertRole (db : TeamDb) (r : TeamRoleRow) : Except Error TeamDb :=
  if db.slugTaken r.teamId r.slug then .error .internal
  else (db.roles.insert r).elim (.error .internal) (fun roles => .ok { db with roles := roles })

/-- The permissions asked for: those of the role to copy when none are listed. -/
def askedPermissions (db : TeamDb) (id : Uuid) (req : CreateRoleRequest) :
    Except Error (List String) :=
  match req.permissions, req.copyFrom with
  | [], some src => (db.loadRole id src).map (fun r => r.permissions.filter (· ≠ "*"))
  | perms, _ => .ok perms

section
variable [Names]

def create (db : TeamDb) (auth : Auth) (id : Uuid) (req : CreateRoleRequest) (roleId : Uuid) :
    Except Error (TeamRoleDef × TeamDb) := do
  let me ← db.require id auth.userId "roles.manage"
  let name ← validateName req.name
  let description ← validateDescription req.description
  if (db.roles.select (fun r => decide (r.teamId = id) && !r.builtin)).length
      ≥ MAX_CUSTOM_ROLES then
    throw (.badRequest s!"A team can have at most {MAX_CUSTOM_ROLES} custom roles")
  let perms ← db.askedPermissions id req
  let perms ← normalizePermissions perms
  checkGranted me perms
  let slug := db.freeSlug id (slugify name)
  let db ← db.insertRole ⟨roleId, id, slug, name, description, perms, false, 100⟩
  let role ← db.loadRole id roleId
  return (role, db)

/-- The permissions a role is to have. The editor keeps `roles.manage` on their own role unless
they are the owner. -/
def newPermissions (me : Membership) (cur : TeamRoleDef) : Option (List String) →
    Except Error (List String)
  | none => .ok cur.permissions
  | some perms => do
    let perms ← normalizePermissions perms
    checkGranted me perms
    if me.role.id = cur.id ∧ me.level ≠ .owner ∧ "roles.manage" ∉ perms then
      throw (.badRequest "You cannot remove `roles.manage` from your own role")
    return perms

/-- Change a role of a team. -/
def setRole (db : TeamDb) (id roleId : Uuid) (name description : String) (perms : List String)
    (position : ℤ) : TeamDb :=
  { db with
    roles := db.roles.set roleId (fun r =>
      if r.teamId = id then
        { r with name := name, description := description, permissions := perms,
                 position := position }
      else r) (fun r => by split <;> rfl) }

def update (db : TeamDb) (auth : Auth) (id roleId : Uuid) (req : UpdateRoleRequest) :
    Except Error (TeamRoleDef × TeamDb) := do
  let me ← db.require id auth.userId "roles.manage"
  let cur ← db.loadRole id roleId
  if cur.slug = "owner" then throw (.badRequest "The owner role cannot be changed")
  let name ← req.name.elim (.ok cur.name) validateName
  let description ← req.description.elim (.ok cur.description) validateDescription
  let perms ← newPermissions me cur req.permissions
  let position := req.position.getD cur.position
  let db := db.setRole id roleId name description perms position
  let role ← db.loadRole id roleId
  return (role, db)

end

/-- Move the members who hold a role to another. -/
def reassigned (db : TeamDb) (id roleId target : Uuid) : TeamDb :=
  { db with
    members := db.members.update (fun m => decide (m.teamId = id) && decide (m.roleId = roleId))
      (fun m => { m with roleId := target, role := db.levelOf target }) (fun _ => rfl) }

/-- Make a role the default of a team that has another one as the default. -/
def replaceDefault (db : TeamDb) (id roleId target : Uuid) : TeamDb :=
  { db with
    teams := db.teams.set id (fun t =>
      if t.defaultRoleId = some roleId then { t with defaultRoleId := some target } else t)
      (fun t => by split <;> rfl) }

/-- Delete a role that no member holds.  The mappings to it go with it, and the invitations and
teams that name it name none. -/
def dropRole (db : TeamDb) (id roleId : Uuid) : Except Error TeamDb :=
  if (db.teamRole id roleId).isNone then .ok db
  else if db.members.rows.any (fun m => decide (m.roleId = roleId)) then .error .internal
  else .ok { db with
    roles := db.roles.erase roleId
    teams := db.teams.update (fun t => decide (t.defaultRoleId = some roleId))
      (fun t => { t with defaultRoleId := none }) (fun _ => rfl)
    mappings := db.mappings.delete (fun x => decide (x.roleId = roleId))
    invites := db.invites.update (fun i => decide (i.roleId = some roleId))
      (fun i => { i with roleId := none }) (fun _ => rfl) }

/-- Delete a role, and move the members who hold it to another. -/
def delete (db : TeamDb) (auth : Auth) (id roleId : Uuid) (reassignTo : Option Uuid) :
    Except Error TeamDb := do
  let me ← db.require id auth.userId "roles.manage"
  let cur ← db.loadRole id roleId
  if cur.builtin then throw (.badRequest "Built-in roles cannot be deleted")
  if me.role.id = roleId then throw (.badRequest "You cannot delete your own role")
  let target ← reassignTo.elim (db.defaultRoleId id) .ok
  if target = roleId then throw (.badRequest "Pick a different role to move members to")
  let _ ← db.loadRole id target
  ((db.reassigned id roleId target).replaceDefault id roleId target).dropRole id roleId

/-- Make a role the default of a team. -/
def withDefault (db : TeamDb) (id roleId : Uuid) : TeamDb :=
  { db with
    teams := db.teams.set id (fun t => { t with defaultRoleId := some roleId }) (fun _ => rfl) }

def setDefault (db : TeamDb) (auth : Auth) (id roleId : Uuid) : Except Error TeamDb := do
  let _ ← db.require id auth.userId "roles.manage"
  let role ← db.loadRole id roleId
  if role.slug = "owner" then throw (.badRequest "The owner role cannot be the default")
  return db.withDefault id roleId

section
variable [Names]

def listMappings (db : TeamDb) (auth : Auth) (id : Uuid) : Except Error (List RoleMapping) := do
  let _ ← db.require id auth.userId "sso.manage"
  return ((db.mappings.select (fun x => decide (x.teamId = id))).mergeSort
    (fun x y => decide (x.priority < y.priority)
      || decide (x.priority = y.priority) && Names.le x.groupName y.groupName)).map
    (fun x => ⟨x.groupName, x.roleId, x.priority⟩)

/-- Check mappings, whose groups are not among those seen. -/
def checkMappings (db : TeamDb) (id : Uuid) : List String → List RoleMapping → Except Error Unit
  | _, [] => .ok ()
  | seen, m :: ms => do
    let g := Names.trim m.groupName
    if g.isEmpty ∨ g.length > 200 then throw (.badRequest "Invalid group name")
    if Names.toLowercase g ∈ seen then throw (.badRequest s!"Group `{g}` is listed twice")
    let role ← db.loadRole id m.roleId
    if role.slug = "owner" then throw (.badRequest "A group cannot map to the owner role")
    checkMappings db id (Names.toLowercase g :: seen) ms

/-- Insert mappings one by one. -/
def insertMappings (id : Uuid) : List RoleMapping → Table RoleMappingRow →
    Except Error (Table RoleMappingRow)
  | [], t => .ok t
  | m :: ms, t =>
    match t.insert ⟨id, Names.trim m.groupName, m.roleId, m.priority⟩ with
    | none => .error .internal
    | some t => insertMappings id ms t

def setMappings (db : TeamDb) (auth : Auth) (id : Uuid) (req : List RoleMapping) :
    Except Error (List RoleMapping × TeamDb) := do
  let _ ← db.require id auth.userId "sso.manage"
  if req.length > 200 then throw (.badRequest "At most 200 mappings")
  db.checkMappings id [] req
  let mappings ← insertMappings id req (db.mappings.delete (fun x => decide (x.teamId = id)))
  let db := { db with mappings := mappings }
  let out ← db.listMappings auth id
  return (out, db)

end

/-! ### Members -/

/-- Set the level and the role of a member by hand. -/
def assign (db : TeamDb) (id userId : Uuid) (level : String) (roleId : Uuid) : TeamDb :=
  { db with
    members := db.members.set (id, userId)
      (fun m => { m with role := level, roleId := roleId, roleSource := "manual" })
      (fun _ => rfl) }

/-- Hand a team over: the owner becomes an administrator, and the new owner gets the role given. -/
def transfer (db : TeamDb) (id owner newOwner adminRole ownerRole : Uuid) : TeamDb :=
  let db := (db.assign id owner "admin" adminRole).assign id newOwner "owner" ownerRole
  { db with teams := db.teams.set id (fun t => { t with ownerId := newOwner }) (fun _ => rfl) }

/-- The role a request asks for, with its slug and level. -/
def requestedRole (db : TeamDb) (id : Uuid) (req : UpdateTeamMemberRequest) :
    Except Error (Uuid × String × TeamRole) :=
  match req.roleId with
  | some rid =>
    match db.teamRole id rid with
    | none => .error (.notFound "Role")
    | some r => .ok (rid, r.slug, parseTeamRole r.slug)
  | none => (db.roleIdForLevel id req.role).map (fun rid => (rid, teamRoleStr req.role, req.role))

/-- Nobody hands out permissions they do not hold themselves. -/
def checkAssignable (db : TeamDb) (me : Membership) (roleId : Uuid) (slug : String) :
    Except Error Unit :=
  if me.level = .owner then .ok ()
  else
    match db.roles.get? roleId with
    | none => .error .internal
    | some r =>
      match r.permissions.find? (fun p => !me.has p) with
      | some p => .error (.forbidden
          s!"You cannot assign `{slug}`: it grants `{p}`, which you do not hold")
      | none => .ok ()

def updateMember (db : TeamDb) (auth : Auth) (id userId : Uuid) (req : UpdateTeamMemberRequest) :
    Except Error TeamDb := do
  let me ← db.membership id auth.userId
  let target ← (db.membership id userId).mapError (fun _ => .notFound "Member")
  let (newRoleId, newSlug, newLevel) ← db.requestedRole id req
  if newLevel = .owner then
    if me.level ≠ .owner then throw (.forbidden "Only the owner can transfer ownership")
    if userId = auth.userId then throw (.badRequest "You already own this team")
    let adminRole ← db.roleIdForLevel id .admin
    return db.transfer id auth.userId userId adminRole newRoleId
  else
    if !me.has "members.role" then throw (denied "members.role")
    if target.level = .owner then throw (.forbidden "Transfer ownership first")
    db.checkAssignable me newRoleId newSlug
    return db.assign id userId (teamRoleStr newLevel) newRoleId

/-! ### Invitations -/

/-- Resolve the role an actor wants to hand out. -/
def assignableRole (db : TeamDb) (actor : Membership) (roleId : Option Uuid) (level : TeamRole) :
    Except Error (RoleRef × TeamRole) := do
  let rid ← roleId.elim (db.roleIdForLevel actor.teamId level) .ok
  let r ← (db.teamRole actor.teamId rid).elim (.error (.notFound "Role")) .ok
  if r.slug = "owner" ∨ "*" ∈ r.permissions then
    throw (.badRequest "The owner role cannot be assigned")
  match r.permissions.find? (fun p => !actor.has p) with
  | some missing => throw (denied missing)
  | none => return (⟨rid, r.slug, r.name⟩, if r.slug = "admin" then .admin else .member)

section
variable [Names]

/-- Invite an address.  The users and the vaults are those of `side`, and `ssoDomains` is the policy
of the team. -/
def createInvite (db : TeamDb) (side : Db) (ssoDomains : List String) (auth : Auth) (id : Uuid)
    (req : CreateInviteRequest) (inviteId : Uuid) (expiresAt : DateTime) :
    Except Error (Invite × TeamDb) := do
  let me ← db.require id auth.userId "members.invite"
  if req.role = .owner then throw (.badRequest "Cannot invite as owner")
  let (roleRef, roleLevel) ← db.assignableRole me req.roleId req.role
  let email ← (normalizeEmail req.email).elim (.error (.badRequest "Invalid email")) .ok
  if !domainAllowed ssoDomains email then
    throw (.badRequest "This team only accepts members from its SSO domains")
  if side.users.rows.any (fun u => decide (Names.lower u.email = email)
      && (db.members.get? (id, u.id)).isSome) then
    throw (.conflict "Already a member")
  if req.vaultIds.any (fun vid => !(side.vaults.get? vid).any (fun v =>
      decide (v.teamId = some id) && !v.deleted)) then
    throw (.badRequest "Vault does not belong to this team")
  let invites := db.invites.delete (fun i => decide (i.teamId = id)
    && decide (Names.lower i.email = email) && !i.accepted)
  let invites ← (invites.insert ⟨inviteId, id, email, teamRoleStr roleLevel, some roleRef.id, false,
    expiresAt⟩).elim (.error .internal) .ok
  return (⟨inviteId, email, roleLevel, some roleRef⟩, { db with invites := invites })

end

end TeamDb

end Termoso.Server
