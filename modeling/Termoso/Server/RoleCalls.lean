import Termoso.Server.Roles
import Mathlib.Data.List.Dedup

/-!
# Calls about roles

What the handlers that change the roles of a team do when they succeed: each call has one of a
few effects.
-/

namespace Termoso.Server

/-! ### Calls -/

/-- A call of a handler that changes who is granted what. -/
inductive RoleCall
  | create (req : CreateRoleRequest) (roleId : Uuid)
  | update (roleId : Uuid) (req : UpdateRoleRequest)
  | delete (roleId : Uuid) (reassignTo : Option Uuid)
  | setDefault (roleId : Uuid)
  | setMappings (req : List RoleMapping)
  | updateMember (userId : Uuid) (req : UpdateTeamMemberRequest)
  | createInvite (side : Db) (ssoDomains : List String) (req : CreateInviteRequest)
      (inviteId : Uuid) (expiresAt : DateTime)

/-- The tables after a call. -/
def RoleCall.run [Names] (db : TeamDb) (auth : Auth) (id : Uuid) :
    RoleCall → Except Error TeamDb
  | .create req roleId => (db.create auth id req roleId).map Prod.snd
  | .update roleId req => (db.update auth id roleId req).map Prod.snd
  | .delete roleId reassignTo => db.delete auth id roleId reassignTo
  | .setDefault roleId => db.setDefault auth id roleId
  | .setMappings req => (db.setMappings auth id req).map Prod.snd
  | .updateMember userId req => db.updateMember auth id userId req
  | .createInvite side ssoDomains req inviteId expiresAt =>
    (db.createInvite side ssoDomains auth id req inviteId expiresAt).map Prod.snd

namespace TeamDb

/-- The default role of a team. -/
def defaultOf (db : TeamDb) (teamId : Uuid) : Option Uuid :=
  (db.teams.get? teamId).bind TeamRow.defaultRoleId

end TeamDb

/-! ### What a call does -/

/-- A set of permissions that a member may grant, none of which is `*`. -/
def Membership.MayGrant (me : Membership) (perms : List String) : Prop :=
  ∀ p ∈ perms, me.has p = true ∧ p ≠ "*"

section
variable [Names]

/-- What a call by a member does when it succeeds. -/
inductive Effect (db : TeamDb) (id : Uuid) (me : Membership) : RoleCall → TeamDb → Prop
  | create {req : CreateRoleRequest} {r : TeamRoleRow} {roles : Table TeamRoleRow} :
      r.teamId = id → r.builtin = false → me.MayGrant r.permissions →
      db.roles.insert r = some roles →
      Effect db id me (.create req r.id) { db with roles := roles }
  | update {roleId : Uuid} {req : UpdateRoleRequest} {cur : TeamRoleRow}
      {name description : String} {perms : List String} {position : ℤ} :
      db.teamRole id roleId = some cur → perms = cur.permissions ∨ me.MayGrant perms →
      Effect db id me (.update roleId req) (db.setRole id roleId name description perms position)
  | delete {roleId target : Uuid} {reassignTo : Option Uuid} {cur r : TeamRoleRow} {db' : TeamDb} :
      db.teamRole id roleId = some cur → cur.builtin = false →
      reassignTo.or (db.defaultOf id) = some target → target ≠ roleId →
      db.teamRole id target = some r →
      ((db.reassigned id roleId target).replaceDefault id roleId target).dropRole id roleId
        = .ok db' →
      Effect db id me (.delete roleId reassignTo) db'
  | setDefault {roleId : Uuid} {r : TeamRoleRow} :
      db.teamRole id roleId = some r →
      Effect db id me (.setDefault roleId) (db.withDefault id roleId)
  | setMappings {req : List RoleMapping} {mappings : Table RoleMappingRow} :
      (∀ m ∈ req, db.grantable id m.roleId = true) →
      TeamDb.insertMappings id req (db.mappings.delete (fun x => decide (x.teamId = id)))
        = .ok mappings →
      Effect db id me (.setMappings req) { db with mappings := mappings }
  | transfer {userId adminRole ownerRole : Uuid} {req : UpdateTeamMemberRequest} :
      me.level = .owner → (db.roles.get? adminRole).isSome → (db.roles.get? ownerRole).isSome →
      Effect db id me (.updateMember userId req)
        (db.transfer id me.userId userId adminRole ownerRole)
  | assign {userId : Uuid} {req : UpdateTeamMemberRequest} {level : String} {r : TeamRoleRow} :
      db.teamRole id r.id = some r → r.slug ≠ "owner" → level = "admin" ∨ level = "member" →
      (me.level ≠ .owner → ∀ p ∈ r.permissions, me.has p = true) →
      Effect db id me (.updateMember userId req) (db.assign id userId level r.id)
  | invite {side : Db} {ssoDomains : List String} {req : CreateInviteRequest} {email level : String}
      {inviteId : Uuid} {expiresAt : DateTime} {r : TeamRoleRow} {invites : Table TeamInviteRow}
      {p : TeamInviteRow → Bool} :
      db.teamRole id r.id = some r → r.slug ≠ "owner" → (∀ p ∈ r.permissions, me.has p = true) →
      level = "admin" ∨ level = "member" →
      (db.invites.delete p).insert ⟨inviteId, id, email, level, some r.id, false, expiresAt⟩
        = some invites →
      Effect db id me (.createInvite side ssoDomains req inviteId expiresAt)
        { db with invites := invites }

end

namespace TeamDb

section
variable {db db' : TeamDb} {id userId roleId : Uuid} {me : Membership} {perm slug : String}
  {r : TeamRoleRow} {role : TeamRoleDef} {perms out : List String}

theorem require_eq_ok :
  db.require id userId perm = .ok me ↔ db.membership id userId = .ok me ∧ me.has perm = true
  := by
  unfold require
  rw [bind_eq_ok]
  constructor
  · rintro ⟨m, hm, hcheck⟩
    obtain ⟨hhas, hm'⟩ := check_eq_ok.mp hcheck
    cases hm'
    exact ⟨hm, by simpa using hhas⟩
  · rintro ⟨hm, hhas⟩
    exact ⟨me, hm, check_eq_ok.mpr ⟨by simpa using hhas, rfl⟩⟩

/-- A membership is read off the row of the member and the role it names. -/
theorem membership_eq_ok :
  db.membership id userId = .ok me ↔
    ∃ m r, db.members.get? (id, userId) = some m ∧ db.roles.get? m.roleId = some r
      ∧ me = ⟨id, userId, parseTeamRole m.role, ⟨r.id, r.slug, r.name⟩, m.roleSource,
        r.permissions⟩
  := by
  unfold membership
  constructor
  · intro h
    split at h
    · cases h
    · rename_i m hm
      split at h
      · cases h
      · rename_i r hr
        cases h
        exact ⟨m, r, hm, hr, rfl⟩
  · rintro ⟨m, r, hm, hr, rfl⟩
    simp [hm, hr]

theorem teamRole_eq_some :
  db.teamRole id roleId = some r ↔ db.roles.get? roleId = some r ∧ r.teamId = id
  := by
  simp [teamRole, Option.filter_eq_some_iff]

theorem loadRole_eq_ok (h : db.loadRole id roleId = .ok role) :
  db.teamRole id roleId = some role.toTeamRoleRow
  := by
  unfold loadRole at h
  split at h
  · cases h
  · rename_i r hr
    cases h
    exact hr

theorem builtinRoleId_eq_some (h : db.builtinRoleId id slug = some roleId) :
  ∃ r, db.teamRole id roleId = some r ∧ r.slug = slug ∧ r.builtin = true
  := by
  obtain ⟨r, hr, rfl⟩ := Option.map_eq_some_iff.mp h
  obtain ⟨hmem, hp⟩ := List.mem_filter.mp (List.mem_of_head? hr)
  simp only [Bool.and_eq_true, decide_eq_true_eq] at hp
  exact ⟨r, teamRole_eq_some.mpr ⟨Table.get?_of_mem hmem, hp.1.1⟩, hp.1.2, hp.2⟩

section
variable [Names]

theorem ne_star_of_checkPermission {p q : String} (h : checkPermission p = .ok q) :
  q ≠ "*"
  := by
  unfold checkPermission at h
  dsimp only at h
  split at h
  · cases h
  · rename_i hne
    split at h
    · cases h
    · cases h
      exact fun hstar => hne (.inl hstar)

theorem ne_star_of_normalizePermissions (h : normalizePermissions perms = .ok out) :
  ∀ p ∈ out, p ≠ "*"
  := by
  obtain ⟨set, hset, hout⟩ := bind_eq_ok.mp h
  cases hout
  intro p hp
  rw [List.mem_mergeSort, List.mem_dedup] at hp
  clear h
  induction perms generalizing set with
  | nil =>
      cases hset
      cases hp
  | cons q perms ih =>
      rw [List.mapM_cons, bind_eq_ok] at hset
      obtain ⟨q', hq', hset⟩ := hset
      obtain ⟨set', hset', hset⟩ := bind_eq_ok.mp hset
      cases hset
      rcases List.mem_cons.mp hp with rfl | hp
      · exact ne_star_of_checkPermission hq'
      · exact ih set' hset' hp

end

theorem checkGranted_eq_ok (h : checkGranted me perms = .ok ()) :
  ∀ p ∈ perms, me.has p = true
  := by
  unfold checkGranted at h
  split at h
  · cases h
  · rename_i hnone
    simpa using List.find?_eq_none.mp hnone

theorem defaultRoleId_eq_ok {teamId : Uuid} :
  db.defaultRoleId teamId = .ok roleId ↔ db.defaultOf teamId = some roleId
  := by
  unfold defaultRoleId defaultOf
  split
  · rename_i hdef
    simp [hdef]
  · rename_i hdef
    simp [hdef]

theorem isSome_of_builtinRoleId {slug : String} (h : db.builtinRoleId id slug = some roleId) :
  (db.roles.get? roleId).isSome
  := by
  obtain ⟨r, hr, -⟩ := builtinRoleId_eq_some h
  rw [(teamRole_eq_some.mp hr).1]
  rfl

theorem roleIdForLevel_eq_ok {level : TeamRole} (h : db.roleIdForLevel id level = .ok roleId) :
  db.builtinRoleId id (teamRoleStr level) = some roleId
  := elim_eq_ok.mp h

/-- The role a request asks for is a role of the team, and its level tells the owner's apart. -/
theorem requestedRole_eq_ok {req : UpdateTeamMemberRequest} {level : TeamRole}
    (h : db.requestedRole id req = .ok (roleId, slug, level)) :
  ∃ r, db.teamRole id roleId = some r ∧ r.slug = slug ∧ parseTeamRole slug = level
  := by
  unfold requestedRole at h
  split at h
  · split at h
    · cases h
    · rename_i r hr
      cases h
      exact ⟨r, hr, rfl, rfl⟩
  · obtain ⟨rid, hrid, h⟩ := map_eq_ok.mp h
    cases h
    obtain ⟨r, hr, hslug, -⟩ := builtinRoleId_eq_some (roleIdForLevel_eq_ok hrid)
    refine ⟨r, hr, hslug, ?_⟩
    cases req.role <;> rfl

theorem checkAssignable_eq_ok (h : db.checkAssignable me roleId slug = .ok ())
    (hr : db.roles.get? roleId = some r) (hlevel : me.level ≠ .owner) :
  ∀ p ∈ r.permissions, me.has p = true
  := by
  unfold checkAssignable at h
  rw [if_neg hlevel, hr] at h
  dsimp only at h
  split at h
  · cases h
  · rename_i hnone
    simpa using List.find?_eq_none.mp hnone

theorem assignableRole_eq_ok {actor : Membership} {asked : Option Uuid} {level out : TeamRole}
    {ref : RoleRef} (h : db.assignableRole actor asked level = .ok (ref, out)) :
  ∃ r, db.teamRole actor.teamId r.id = some r ∧ r.slug ≠ "owner" ∧ ref.id = r.id
    ∧ (∀ p ∈ r.permissions, actor.has p = true)
    ∧ (teamRoleStr out = "admin" ∨ teamRoleStr out = "member")
  := by
  obtain ⟨rid, -, h⟩ := bind_eq_ok.mp h
  obtain ⟨r, hr, h⟩ := bind_eq_ok.mp h
  obtain ⟨howner, h⟩ := check_eq_ok.mp h
  have hrole := elim_eq_ok.mp hr
  have hid : r.id = rid := Table.key_of_get? (teamRole_eq_some.mp hrole).1
  split at h
  · simp only [throw_eq_ok] at h
  · rename_i hnone
    cases h
    subst hid
    refine ⟨r, hrole, fun hslug => howner (.inl hslug), rfl, ?_, ?_⟩
    · simpa using List.find?_eq_none.mp hnone
    · split
      · exact .inl rfl
      · exact .inr rfl

variable [Names] {auth : Auth}

theorem effect_of_create {req : CreateRoleRequest} {x : TeamRoleDef × TeamDb}
    (h : db.create auth id req roleId = .ok x) :
  ∃ me, db.membership id auth.userId = .ok me ∧ Effect db id me (.create req roleId) x.2
  := by
  obtain ⟨me, hme, h⟩ := bind_eq_ok.mp h
  obtain ⟨name, -, h⟩ := bind_eq_ok.mp h
  obtain ⟨description, -, h⟩ := bind_eq_ok.mp h
  obtain ⟨-, h⟩ := check_eq_ok.mp h
  obtain ⟨perms, -, h⟩ := bind_eq_ok.mp h
  obtain ⟨perms', hperms, h⟩ := bind_eq_ok.mp h
  obtain ⟨_, hgranted, h⟩ := bind_eq_ok.mp h
  obtain ⟨db₁, hins, h⟩ := bind_eq_ok.mp h
  obtain ⟨role, -, h⟩ := bind_eq_ok.mp h
  cases h
  refine ⟨me, (require_eq_ok.mp hme).1, ?_⟩
  unfold insertRole at hins
  split at hins
  · cases hins
  · cases hroles : db.roles.insert _ with
    | none =>
        rw [hroles] at hins
        cases hins
    | some roles =>
        rw [hroles] at hins
        cases hins
        apply Effect.create rfl rfl _ hroles
        intro p hp
        exact ⟨checkGranted_eq_ok hgranted p hp, ne_star_of_normalizePermissions hperms p hp⟩

theorem mayGrant_of_newPermissions {asked : Option (List String)}
    (h : newPermissions me role asked = .ok out) :
  out = role.permissions ∨ me.MayGrant out
  := by
  cases asked with
  | none =>
      cases h
      exact .inl rfl
  | some perms =>
      obtain ⟨perms', hperms, h⟩ := bind_eq_ok.mp h
      obtain ⟨_, hgranted, h⟩ := bind_eq_ok.mp h
      obtain ⟨-, h⟩ := check_eq_ok.mp h
      cases h
      right
      intro p hp
      exact ⟨checkGranted_eq_ok hgranted p hp, ne_star_of_normalizePermissions hperms p hp⟩

theorem effect_of_update {req : UpdateRoleRequest} {x : TeamRoleDef × TeamDb}
    (h : db.update auth id roleId req = .ok x) :
  ∃ me, db.membership id auth.userId = .ok me ∧ Effect db id me (.update roleId req) x.2
  := by
  obtain ⟨me, hme, h⟩ := bind_eq_ok.mp h
  obtain ⟨cur, hcur, h⟩ := bind_eq_ok.mp h
  obtain ⟨-, h⟩ := check_eq_ok.mp h
  obtain ⟨name, -, h⟩ := bind_eq_ok.mp h
  obtain ⟨description, -, h⟩ := bind_eq_ok.mp h
  obtain ⟨perms, hperms, h⟩ := bind_eq_ok.mp h
  obtain ⟨role, -, h⟩ := bind_eq_ok.mp h
  cases h
  refine ⟨me, (require_eq_ok.mp hme).1, ?_⟩
  exact Effect.update (loadRole_eq_ok hcur) (mayGrant_of_newPermissions hperms)

theorem effect_of_delete {reassignTo : Option Uuid}
    (h : db.delete auth id roleId reassignTo = .ok db') :
  ∃ me, db.membership id auth.userId = .ok me ∧ Effect db id me (.delete roleId reassignTo) db'
  := by
  obtain ⟨me, hme, h⟩ := bind_eq_ok.mp h
  obtain ⟨cur, hcur, h⟩ := bind_eq_ok.mp h
  obtain ⟨hbuiltin, h⟩ := check_eq_ok.mp h
  obtain ⟨-, h⟩ := check_eq_ok.mp h
  obtain ⟨target, htarget, h⟩ := bind_eq_ok.mp h
  obtain ⟨hne, h⟩ := check_eq_ok.mp h
  obtain ⟨role, hrole, h⟩ := bind_eq_ok.mp h
  refine ⟨me, (require_eq_ok.mp hme).1, ?_⟩
  have hor : reassignTo.or (db.defaultOf id) = some target := by
    cases reassignTo with
    | none => exact defaultRoleId_eq_ok.mp htarget
    | some t =>
        cases htarget
        rfl
  exact Effect.delete (loadRole_eq_ok hcur) (by simpa using hbuiltin) hor hne (loadRole_eq_ok hrole) h

theorem effect_of_setDefault (h : db.setDefault auth id roleId = .ok db') :
  ∃ me, db.membership id auth.userId = .ok me ∧ Effect db id me (.setDefault roleId) db'
  := by
  obtain ⟨me, hme, h⟩ := bind_eq_ok.mp h
  obtain ⟨role, hrole, h⟩ := bind_eq_ok.mp h
  obtain ⟨-, h⟩ := check_eq_ok.mp h
  cases h
  exact ⟨me, (require_eq_ok.mp hme).1, Effect.setDefault (loadRole_eq_ok hrole)⟩

theorem grantable_of_checkMappings {req : List RoleMapping} {seen : List String}
    (h : db.checkMappings id seen req = .ok ()) :
  ∀ m ∈ req, db.grantable id m.roleId = true
  := by
  induction req generalizing seen with
  | nil => simp
  | cons m req ih =>
      obtain ⟨-, h⟩ := check_eq_ok.mp h
      obtain ⟨-, h⟩ := check_eq_ok.mp h
      obtain ⟨role, hrole, h⟩ := bind_eq_ok.mp h
      obtain ⟨howner, h⟩ := check_eq_ok.mp h
      intro m' hm'
      rcases List.mem_cons.mp hm' with rfl | hm'
      · rw [grantable, loadRole_eq_ok hrole]
        simpa using howner
      · exact ih h m' hm'

theorem effect_of_setMappings {req : List RoleMapping} {x : List RoleMapping × TeamDb}
    (h : db.setMappings auth id req = .ok x) :
  ∃ me, db.membership id auth.userId = .ok me ∧ Effect db id me (.setMappings req) x.2
  := by
  obtain ⟨me, hme, h⟩ := bind_eq_ok.mp h
  obtain ⟨-, h⟩ := check_eq_ok.mp h
  obtain ⟨_, hcheck, h⟩ := bind_eq_ok.mp h
  obtain ⟨mappings, hins, h⟩ := bind_eq_ok.mp h
  obtain ⟨out, -, h⟩ := bind_eq_ok.mp h
  cases h
  exact ⟨me, (require_eq_ok.mp hme).1,
    Effect.setMappings (grantable_of_checkMappings hcheck) hins⟩

theorem effect_of_updateMember {req : UpdateTeamMemberRequest}
    (h : db.updateMember auth id userId req = .ok db') :
  ∃ me, db.membership id auth.userId = .ok me ∧ Effect db id me (.updateMember userId req) db'
  := by
  obtain ⟨me, hme, h⟩ := bind_eq_ok.mp h
  obtain ⟨target, -, h⟩ := bind_eq_ok.mp h
  obtain ⟨⟨roleId, slug, level⟩, hrole, h⟩ := bind_eq_ok.mp h
  obtain ⟨r, hr, hslug, hlevel⟩ := requestedRole_eq_ok hrole
  have hget := (teamRole_eq_some.mp hr).1
  have hid : r.id = roleId := Table.key_of_get? hget
  refine ⟨me, hme, ?_⟩
  dsimp only at h
  split at h
  · obtain ⟨howner, h⟩ := check_eq_ok.mp h
    obtain ⟨-, h⟩ := check_eq_ok.mp h
    obtain ⟨adminRole, hadmin, h⟩ := bind_eq_ok.mp h
    cases h
    have huser : me.userId = auth.userId := by
      obtain ⟨m, r, -, -, rfl⟩ := membership_eq_ok.mp hme
      rfl
    rw [← huser]
    apply Effect.transfer (not_not.mp howner)
    · exact isSome_of_builtinRoleId (roleIdForLevel_eq_ok hadmin)
    · rw [hget]
      rfl
  · rename_i hnotOwner
    obtain ⟨-, h⟩ := check_eq_ok.mp h
    obtain ⟨-, h⟩ := check_eq_ok.mp h
    obtain ⟨_, hcheck, h⟩ := bind_eq_ok.mp h
    cases h
    subst hid
    apply Effect.assign hr
    · intro howner
      apply hnotOwner
      rw [← hlevel, ← hslug, howner]
      rfl
    · cases level with
      | member => exact .inr rfl
      | admin => exact .inl rfl
      | owner => exact absurd rfl hnotOwner
    · exact checkAssignable_eq_ok hcheck hget

theorem effect_of_createInvite {side : Db} {ssoDomains : List String} {req : CreateInviteRequest}
    {inviteId : Uuid} {expiresAt : DateTime} {x : Invite × TeamDb}
    (h : db.createInvite side ssoDomains auth id req inviteId expiresAt = .ok x) :
  ∃ me, db.membership id auth.userId = .ok me
    ∧ Effect db id me (.createInvite side ssoDomains req inviteId expiresAt) x.2
  := by
  obtain ⟨me, hme, h⟩ := bind_eq_ok.mp h
  obtain ⟨-, h⟩ := check_eq_ok.mp h
  obtain ⟨⟨ref, level⟩, hrole, h⟩ := bind_eq_ok.mp h
  obtain ⟨email, -, h⟩ := bind_eq_ok.mp h
  obtain ⟨-, h⟩ := check_eq_ok.mp h
  obtain ⟨-, h⟩ := check_eq_ok.mp h
  obtain ⟨-, h⟩ := check_eq_ok.mp h
  obtain ⟨invites, hins, h⟩ := bind_eq_ok.mp h
  cases h
  have hme := (require_eq_ok.mp hme).1
  have hteam : me.teamId = id := by
    obtain ⟨m, r, -, -, rfl⟩ := membership_eq_ok.mp hme
    rfl
  obtain ⟨r, hr, howner, hid, hperms, hlevel⟩ := assignableRole_eq_ok hrole
  rw [hteam] at hr
  have hins := elim_eq_ok.mp hins
  rw [hid] at hins
  exact ⟨me, hme, Effect.invite hr howner hperms hlevel hins⟩

end

end TeamDb

section
variable [Names]

/-- A call that succeeds is made by a member, and has one of the effects. -/
theorem effect_of_run {db db' : TeamDb} {auth : Auth} {id : Uuid} {call : RoleCall}
    (h : call.run db auth id = .ok db') :
  ∃ me, db.membership id auth.userId = .ok me ∧ Effect db id me call db'
  := by
  cases call with
  | create req roleId =>
      obtain ⟨x, hx, rfl⟩ := map_eq_ok.mp h
      exact TeamDb.effect_of_create hx
  | update roleId req =>
      obtain ⟨x, hx, rfl⟩ := map_eq_ok.mp h
      exact TeamDb.effect_of_update hx
  | delete roleId reassignTo => exact TeamDb.effect_of_delete h
  | setDefault roleId => exact TeamDb.effect_of_setDefault h
  | setMappings req =>
      obtain ⟨x, hx, rfl⟩ := map_eq_ok.mp h
      exact TeamDb.effect_of_setMappings hx
  | updateMember userId req => exact TeamDb.effect_of_updateMember h
  | createInvite side ssoDomains req inviteId expiresAt =>
      obtain ⟨x, hx, rfl⟩ := map_eq_ok.mp h
      exact TeamDb.effect_of_createInvite hx

end

end Termoso.Server
