import Termoso.Server.RoleCalls
import Termoso.Lib.Transition

/-!
# Who can hand out what

A member of a team holds the permissions of a role.  Users who are to join, or to sign in through
an identity provider, come by those of the default role, of the role a group maps to, or of the
role of an invitation.  A handler called by a member who is not the owner is to leave nobody,
now or later, with a permission that the caller does not hold and that was not granted before.

Creating and changing a role, assigning a role and inviting never do.  Deleting a role, setting
the default role and setting the mappings of groups do so unless the roles they put in place
grant no more than the caller holds or the roles they replace granted.
-/

namespace Termoso.Server

/-! ### Grants -/

/-- What hands out a role: a membership, the default role, the mapping of a group, or a pending
invitation. -/
inductive Slot
  | member (userId : Uuid)
  | defaultRole
  | group (groupName : String)
  | invite (id : Uuid)
deriving DecidableEq

/-- Whether a member holds every permission. -/
def Membership.all (m : Membership) : Bool := decide (m.level = .owner) || m.wildcard

namespace TeamDb

/-- A role grants a permission. -/
def roleGrants (db : TeamDb) (roleId : Option Uuid) (p : String) : Prop :=
  ∃ r, roleId.bind db.roles.get? = some r ∧ ("*" ∈ r.permissions ∨ p ∈ r.permissions)

/-- The role a group maps to, when it may be given by group. -/
def groupRole (db : TeamDb) (teamId : Uuid) (groupName : String) : Option Uuid :=
  ((db.mappings.get? (teamId, groupName)).map RoleMappingRow.roleId).filter (db.grantable teamId)

/-- Whether an invitation to a team can be accepted. -/
def pending (teamId : Uuid) (now : DateTime) (i : TeamInviteRow) : Bool :=
  decide (i.teamId = teamId) && !i.accepted && decide (now < i.expiresAt)

/-- A slot of a team hands out a permission. -/
def slotGrants (db : TeamDb) (teamId : Uuid) (now : DateTime) : Slot → String → Prop
  | .member userId, p => ∃ m, db.membership teamId userId = .ok m ∧ m.has p = true
  | .defaultRole, p => db.roleGrants (db.defaultOf teamId) p
  | .group groupName, p => db.roleGrants (db.groupRole teamId groupName) p
  | .invite id, p => ∃ i, db.invites.get? id = some i ∧ pending teamId now i = true
      ∧ db.roleGrants (db.invitedRole teamId i.role i.roleId) p

end TeamDb

/-- Nobody gains a permission that the actor does not hold, and no member comes to hold all. -/
structure Contained (me : Membership) (teamId : Uuid) (now : DateTime) (db db' : TeamDb) :
    Prop where
  within : ∀ slot p, db'.slotGrants teamId now slot p →
    db.slotGrants teamId now slot p ∨ me.has p = true
  all : ∀ userId m', db'.membership teamId userId = .ok m' → m'.all = true →
    ∃ m, db.membership teamId userId = .ok m ∧ m.all = true

/-! ### Bounds -/

/-- The actor may put a role in the place of another: it grants nothing that the other does not
grant and the actor does not hold. -/
def TeamDb.NoMore (db : TeamDb) (me : Membership) (old new : Option Uuid) : Prop :=
  ∀ p, db.roleGrants new p → db.roleGrants old p ∨ me.has p = true

/-- A member who is not the owner holds a role. -/
def TeamDb.HeldBelow (db : TeamDb) (id roleId : Uuid) : Prop :=
  ∃ m ∈ db.members.rows, m.teamId = id ∧ m.roleId = roleId ∧ m.role ≠ "owner"

/-- The roles that a call puts in the place of others grant no more than the actor may grant. -/
def RoleCall.Bounded [Names] (db : TeamDb) (id : Uuid) (now : DateTime) (me : Membership) :
    RoleCall → Prop
  | .delete roleId reassignTo =>
    let target := reassignTo.or (db.defaultOf id)
    (db.HeldBelow id roleId ∨ db.defaultOf id = some roleId → db.NoMore me (some roleId) target)
      ∧ (db.HeldBelow id roleId → db.roleGrants target "*" → db.roleGrants (some roleId) "*")
      ∧ ∀ i ∈ db.invites.rows, TeamDb.pending id now i = true → i.roleId = some roleId →
          db.NoMore me (db.invitedRole id i.role (some roleId)) (db.builtinRoleId id i.role)
  | .setDefault roleId => db.NoMore me (db.defaultOf id) (some roleId)
  | .setMappings req => ∀ m ∈ req,
      db.NoMore me (db.groupRole id (Names.trim m.groupName)) (some m.roleId)
  | .create .. | .update .. | .updateMember .. | .createInvite .. => True

/-! ### Runs -/

/-- A step of a team: a call, or whatever else changes the tables. -/
inductive TeamStep
  | call (auth : Auth) (call : RoleCall)
  | rest (db' : TeamDb)

/-- What may change outside the calls: not the roles of the team, which is not deleted.  The role of
a member exists, and invitations are accepted and deleted only. -/
def Spared (id : Uuid) (db db' : TeamDb) : Bool :=
  (db'.teams.get? id).isSome && decide (db'.roles.select (fun r => decide (r.teamId = id))
      = db.roles.select (fun r => decide (r.teamId = id)))
    && db'.members.rows.all (fun m => (db'.roles.get? m.roleId).isSome)
    && db'.invites.rows.all (fun i => db.invites.rows.any (fun j =>
        decide (i = { j with accepted := i.accepted })))

/-- The runs of a team from its creation. -/
def teamSystem [Names] (id : Uuid) : TransitionSystem TeamDb TeamStep where
  init db := (∃ owner ownerRole, db.IsNew id owner ownerRole)
    ∧ ∀ m ∈ db.members.rows, (db.roles.get? m.roleId).isSome
  step db
    | .call auth call => (call.run db auth id).toOption
    | .rest db' => if Spared id db db' then some db' else none

/-! ### What holds of a team -/

/-- The team is there, only its owner role grants everything, the built-in roles for the coarse
levels are there, the role of a member exists, and invitations are for a coarse level. -/
structure Sound (id : Uuid) (db : TeamDb) : Prop where
  team : (db.teams.get? id).isSome
  wild : ∀ r ∈ db.roles.rows, r.teamId = id → "*" ∈ r.permissions → r.slug = "owner"
  builtin : ∀ level, level = "admin" ∨ level = "member" → (db.builtinRoleId id level).isSome
  held : ∀ m ∈ db.members.rows, (db.roles.get? m.roleId).isSome
  invited : ∀ i ∈ db.invites.rows, i.teamId = id → i.role = "admin" ∨ i.role = "member"

namespace TeamDb

section
variable {db db' : TeamDb} {id roleId target : Uuid} {r cur : TeamRoleRow} {slug : String}
  {roles : Table TeamRoleRow}

theorem builtinRoleId_insert (h : db.roles.insert r = some roles) (hr : r.builtin = false) :
  ({ db with roles := roles } : TeamDb).builtinRoleId id slug = db.builtinRoleId id slug
  := by
  unfold Table.insert at h
  split at h
  · cases h
    simp [builtinRoleId, Table.select, Table.append, hr]
  · cases h

theorem builtinRoleId_setRole {name description : String} {perms : List String} {position : ℤ}
    {teamId : Uuid} :
  (db.setRole teamId roleId name description perms position).builtinRoleId id slug
    = db.builtinRoleId id slug
  := by
  unfold builtinRoleId setRole Table.set Table.update Table.select
  dsimp only
  rw [List.filter_map, List.head?_map, Option.map_map]
  have hid : TeamRoleRow.id ∘ (fun r : TeamRoleRow => if decide (key r = roleId) = true then
      if r.teamId = teamId then
        { r with name := name, description := description, permissions := perms,
                 position := position }
      else r
    else r) = TeamRoleRow.id := by
    funext r
    simp only [Function.comp_apply]
    split
    · split <;> rfl
    · rfl
  rw [hid]
  congr 3
  funext r
  simp only [Function.comp_apply]
  split
  · split <;> rfl
  · rfl

theorem builtinRoleId_erase (id : Uuid) (slug : String) (h : db.roles.get? roleId = some cur) (hcur : cur.builtin = false) :
  ({ db with roles := db.roles.erase roleId } : TeamDb).builtinRoleId id slug
    = db.builtinRoleId id slug
  := by
  unfold builtinRoleId Table.erase Table.delete Table.select
  dsimp only
  rw [List.filter_filter]
  congr 2
  apply List.filter_congr
  intro r hr
  by_cases hid : r.id = roleId
  · have hr : db.roles.get? roleId = some r := hid ▸ Table.get?_of_mem hr
    have hsame : cur = r := Option.some.inj (h.symm.trans hr)
    subst hsame
    simp [hcur]
  · simp [hid]

/-- What is left after a role was deleted. -/
theorem dropRole_eq_ok (h : db.dropRole id roleId = .ok db') (hcur : db.teamRole id roleId = some cur) :
  (∀ m ∈ db.members.rows, m.roleId ≠ roleId) ∧ db' = { db with
    roles := db.roles.erase roleId
    teams := db.teams.update (fun t => decide (t.defaultRoleId = some roleId))
      (fun t => { t with defaultRoleId := none }) (fun _ => rfl)
    mappings := db.mappings.delete (fun x => decide (x.roleId = roleId))
    invites := db.invites.update (fun i => decide (i.roleId = some roleId))
      (fun i => { i with roleId := none }) (fun _ => rfl) }
  := by
  unfold dropRole at h
  rw [hcur] at h
  split at h
  · simp_all
  split at h
  · cases h
  · rename_i hheld
    cases h
    refine ⟨fun m hm hrole => hheld ?_, rfl⟩
    rw [List.any_eq_true]
    exact ⟨m, hm, by simpa using hrole⟩

end

end TeamDb

section
variable {db db' : TeamDb} {id : Uuid}

theorem builtinRoleId_eq_select {slug : String} :
  db.builtinRoleId id slug
    = (((db.roles.select (fun r => decide (r.teamId = id))).filter
        (fun r => decide (r.slug = slug) && r.builtin)).head?).map TeamRoleRow.id
  := by
  rw [TeamDb.builtinRoleId, Table.select, Table.select, List.filter_filter]
  congr 3
  funext r
  rw [Bool.and_assoc, Bool.and_comm]

/-- Only the owner role among the built-in ones grants everything. -/
theorem wild_of_mem_seedBuiltinRoles {ids : List Uuid} {r : TeamRoleRow}
    (h : r ∈ seedBuiltinRoles id ids) :
  "*" ∈ r.permissions → r.slug = "owner"
  := by
  obtain ⟨⟨b, roleId⟩, hmem, rfl⟩ := List.mem_map.mp h
  have hall : ∀ b ∈ BUILTIN_ROLES, "*" ∈ b.2.2.2.1 → b.1 = "owner" := by decide
  exact hall b (List.of_mem_zip hmem).1

/-- A new team is sound. -/
theorem sound_of_isNew {owner ownerRole : Uuid} (h : db.IsNew id owner ownerRole)
    (hheld : ∀ m ∈ db.members.rows, (db.roles.get? m.roleId).isSome) :
  Sound id db
  := by
  obtain ⟨ids, hlen, -, hroles, hteam⟩ := h.roles
  constructor
  · rw [hteam]
    rfl
  · intro r hr hteam
    have hmem : r ∈ db.roles.select (fun r => decide (r.teamId = id)) :=
      List.mem_filter.mpr ⟨hr, by simpa using hteam⟩
    rw [hroles] at hmem
    exact wild_of_mem_seedBuiltinRoles hmem
  · intro level hlevel
    match ids, hlen with
    | [a, b, c, d, e], _ =>
    rw [builtinRoleId_eq_select, hroles]
    rcases hlevel with rfl | rfl <;> rfl
  · exact hheld
  · intro i hi hteam
    have hmem : i ∈ db.invites.select (fun i => decide (i.teamId = id)) :=
      List.mem_filter.mpr ⟨hi, by simpa using hteam⟩
    rw [h.invites] at hmem
    cases hmem

theorem sound_create {r : TeamRoleRow} {roles : Table TeamRoleRow} {me : Membership}
    (h : Sound id db) (hbuiltin : r.builtin = false) (hperms : me.MayGrant r.permissions)
    (hins : db.roles.insert r = some roles) :
  Sound id { db with roles := roles }
  := by
  constructor
  · exact h.team
  · intro r' hr' hteam hstar
    rcases (Table.mem_insert hins).mp hr' with hr' | rfl
    · exact h.wild r' hr' hteam hstar
    · exact absurd rfl (hperms _ hstar).2
  · intro level hlevel
    rw [TeamDb.builtinRoleId_insert hins hbuiltin]
    exact h.builtin level hlevel
  · intro m hm
    rw [Table.get?_insert hins]
    split
    · rfl
    · exact h.held m hm
  · exact h.invited

theorem sound_setRole {roleId : Uuid} {cur : TeamRoleRow} (name description : String)
    (perms : List String) (position : ℤ) {me : Membership}
    (h : Sound id db) (hcur : db.teamRole id roleId = some cur)
    (hperms : perms = cur.permissions ∨ me.MayGrant perms) :
  Sound id (db.setRole id roleId name description perms position)
  := by
  constructor
  · exact h.team
  · intro r hr hteam hstar
    rcases Table.mem_set (fun r => by split <;> rfl) hr with hr | ⟨r', hr', hid, rfl⟩
    · exact h.wild r hr hteam hstar
    · have hcur := TeamDb.teamRole_eq_some.mp hcur
      have hsame : r' = cur :=
        Table.eq_of_mem hr' (Table.mem_of_get? hcur.1) (hid.trans (Table.key_of_get? hcur.1).symm)
      subst hsame
      rw [if_pos hcur.2] at hstar ⊢
      rcases hperms with rfl | hperms
      · exact h.wild r' hr' hcur.2 hstar
      · exact absurd rfl (hperms _ hstar).2
  · intro level hlevel
    rw [TeamDb.builtinRoleId_setRole]
    exact h.builtin level hlevel
  · intro m hm
    rw [TeamDb.setRole, Table.isSome_get?_set]
    exact h.held m hm
  · exact h.invited

theorem sound_assign {roleId : Uuid} (userId : Uuid) (level : String) (h : Sound id db)
    (hrole : (db.roles.get? roleId).isSome) :
  Sound id (db.assign id userId level roleId)
  := by
  refine ⟨h.team, h.wild, h.builtin, ?_, h.invited⟩
  intro m hm
  rcases Table.mem_set (fun _ => by rfl) hm with hm | ⟨m', hm', -, rfl⟩
  · exact h.held m hm
  · exact hrole

theorem sound_delete {roleId target : Uuid} {cur r : TeamRoleRow} (h : Sound id db)
    (hcur : db.teamRole id roleId = some cur) (hbuiltin : cur.builtin = false)
    (hr : db.teamRole id target = some r)
    (hdrop : ((db.reassigned id roleId target).replaceDefault id roleId target).dropRole id roleId
      = .ok db') :
  Sound id db'
  := by
  obtain ⟨hfree, rfl⟩ := TeamDb.dropRole_eq_ok hdrop hcur
  constructor
  · rw [Table.get?_update, Option.isSome_map, TeamDb.replaceDefault, Table.isSome_get?_set]
    exact h.team
  · intro r' hr' hteam hstar
    exact h.wild r' (Table.mem_delete.mp hr').1 hteam hstar
  · intro level hlevel
    have herase := TeamDb.builtinRoleId_erase id level (TeamDb.teamRole_eq_some.mp hcur).1
      hbuiltin
    exact herase.symm ▸ h.builtin level hlevel
  · intro m hm
    have hrole : m.roleId ≠ roleId := hfree m hm
    have hget : (db.roles.erase roleId).get? m.roleId = db.roles.get? m.roleId := by
      rw [Table.get?_erase, if_neg hrole]
    refine hget ▸ ?_
    rcases Table.mem_update (fun _ => by rfl) hm with hm | ⟨m', hm', -, rfl⟩
    · exact h.held m hm
    · rw [(TeamDb.teamRole_eq_some.mp hr).1]
      rfl
  · intro i hi hteam
    rcases Table.mem_update (fun _ => by rfl) hi with hi | ⟨i', hi', -, rfl⟩
    · exact h.invited i hi hteam
    · exact h.invited i' hi' hteam

theorem sound_invite {p : TeamInviteRow → Bool} {i : TeamInviteRow} {invites : Table TeamInviteRow}
    (h : Sound id db) (hlevel : i.role = "admin" ∨ i.role = "member")
    (hins : (db.invites.delete p).insert i = some invites) :
  Sound id { db with invites := invites }
  := by
  refine ⟨h.team, h.wild, h.builtin, h.held, ?_⟩
  intro i' hi' hteam
  rcases (Table.mem_insert hins).mp hi' with hi' | rfl
  · exact h.invited i' (Table.mem_delete.mp hi').1 hteam
  · exact hlevel

theorem sound_withDefault {roleId : Uuid} (h : Sound id db) :
  Sound id (db.withDefault id roleId)
  := by
  refine ⟨?_, h.wild, h.builtin, h.held, h.invited⟩
  rw [TeamDb.withDefault, Table.isSome_get?_set]
  exact h.team

theorem sound_of_effect [Names] {me : Membership} {call : RoleCall} (h : Sound id db)
    (he : Effect db id me call db') :
  Sound id db'
  := by
  cases he with
  | create _ hbuiltin hperms hins => exact sound_create h hbuiltin hperms hins
  | update hcur hperms => exact sound_setRole _ _ _ _ h hcur hperms
  | delete hcur hbuiltin _ _ hr hdrop => exact sound_delete h hcur hbuiltin hr hdrop
  | setDefault _ => exact sound_withDefault h
  | setMappings _ _ => exact ⟨h.team, h.wild, h.builtin, h.held, h.invited⟩
  | @transfer userId _ _ _ _ hadmin howner =>
      have hassigned := sound_assign userId "owner" (sound_assign me.userId "admin" h hadmin) howner
      refine ⟨?_, hassigned.wild, hassigned.builtin, hassigned.held, hassigned.invited⟩
      rw [TeamDb.transfer, Table.isSome_get?_set]
      exact h.team
  | assign hr _ _ _ =>
      apply sound_assign _ _ h
      rw [(TeamDb.teamRole_eq_some.mp hr).1]
      rfl
  | invite _ _ _ hlevel hins => exact sound_invite h hlevel hins

theorem sound_of_spared (h : Sound id db) (hspared : Spared id db db' = true) :
  Sound id db'
  := by
  simp only [Spared, Bool.and_eq_true, decide_eq_true_eq, List.all_eq_true, List.any_eq_true]
    at hspared
  obtain ⟨⟨⟨hteam, hroles⟩, hheld⟩, hinvites⟩ := hspared
  constructor
  · exact hteam
  · intro r hr hteam
    have hmem : r ∈ db'.roles.select (fun r => decide (r.teamId = id)) :=
      List.mem_filter.mpr ⟨hr, by simpa using hteam⟩
    rw [hroles] at hmem
    exact h.wild r (List.mem_filter.mp hmem).1 hteam
  · intro level hlevel
    rw [builtinRoleId_eq_select, hroles, ← builtinRoleId_eq_select]
    exact h.builtin level hlevel
  · exact hheld
  · intro i hi hteam
    obtain ⟨j, hj, heq⟩ := hinvites i hi
    rw [heq] at hteam ⊢
    exact h.invited j hj hteam

/-- A team is sound in every state it reaches. -/
theorem sound_of_reachable [Names] (h : (teamSystem id).Reachable db) :
  Sound id db
  := by
  apply h.invariant
  · rintro db ⟨⟨owner, ownerRole, hnew⟩, hheld⟩
    exact sound_of_isNew hnew hheld
  · intro db l db' hsound _ hstep
    cases l with
    | call auth call =>
        obtain ⟨me, -, he⟩ := effect_of_run (toOption_eq_some.mp hstep)
        exact sound_of_effect hsound he
    | rest db₁ =>
        simp only [teamSystem] at hstep
        split at hstep
        · rename_i hspared
          cases hstep
          exact sound_of_spared hsound hspared
        · cases hstep

end

/-! ### What is handed out after a call -/

theorem Membership.has_of_has_star {me : Membership} (h : me.has "*" = true) (p : String) :
  me.has p = true
  := by
  unfold Membership.has Membership.wildcard at *
  simp only [Bool.or_eq_true, decide_eq_true_eq] at *
  tauto

/-- The holder of a role that grants only what a member may grant. -/
theorem Membership.has_of_grants {me : Membership} {perms : List String} {p : String}
    (h : ∀ q ∈ perms, me.has q = true) (hp : "*" ∈ perms ∨ p ∈ perms) :
  me.has p = true
  := by
  rcases hp with hp | hp
  · exact Membership.has_of_has_star (h _ hp) p
  · exact h p hp

section
variable {db db' : TeamDb} {id userId : Uuid} {now : DateTime} {p : String} {me : Membership}

/-- A member holds a permission: as the owner, or by the role. -/
theorem slotGrants_member :
  db.slotGrants id now (.member userId) p ↔
    ∃ m, db.members.get? (id, userId) = some m ∧ (db.roles.get? m.roleId).isSome = true
      ∧ (m.role = "owner" ∨ db.roleGrants (some m.roleId) p)
  := by
  unfold TeamDb.slotGrants TeamDb.roleGrants
  constructor
  · rintro ⟨x, hx, hp⟩
    obtain ⟨m, r, hm, hr, rfl⟩ := TeamDb.membership_eq_ok.mp hx
    refine ⟨m, hm, by simp [hr], ?_⟩
    simp only [Membership.has, Membership.wildcard, Bool.or_eq_true, decide_eq_true_eq,
      parseTeamRole_eq_owner] at hp
    rcases hp with (howner | hstar) | hp
    · exact .inl howner
    · exact .inr ⟨r, hr, .inl hstar⟩
    · exact .inr ⟨r, hr, .inr hp⟩
  · rintro ⟨m, hm, hsome, hp⟩
    obtain ⟨r, hr⟩ := Option.isSome_iff_exists.mp hsome
    refine ⟨_, TeamDb.membership_eq_ok.mpr ⟨m, r, hm, hr, rfl⟩, ?_⟩
    simp only [Membership.has, Membership.wildcard, Bool.or_eq_true, decide_eq_true_eq,
      parseTeamRole_eq_owner]
    rcases hp with howner | ⟨r', hr', hp⟩
    · exact .inl (.inl howner)
    · cases hr.symm.trans hr'
      rcases hp with hstar | hp
      · exact .inl (.inr hstar)
      · exact .inr hp

/-- A member holds every permission: as the owner, or by the role. -/
theorem exists_all_iff :
  (∃ m, db.membership id userId = .ok m ∧ m.all = true) ↔
    ∃ m, db.members.get? (id, userId) = some m ∧ (db.roles.get? m.roleId).isSome = true
      ∧ (m.role = "owner" ∨ db.roleGrants (some m.roleId) "*")
  := by
  unfold TeamDb.roleGrants
  constructor
  · rintro ⟨x, hx, hp⟩
    obtain ⟨m, r, hm, hr, rfl⟩ := TeamDb.membership_eq_ok.mp hx
    refine ⟨m, hm, by simp [hr], ?_⟩
    simp only [Membership.all, Membership.wildcard, Bool.or_eq_true, decide_eq_true_eq,
      parseTeamRole_eq_owner] at hp
    rcases hp with howner | hstar
    · exact .inl howner
    · exact .inr ⟨r, hr, .inl hstar⟩
  · rintro ⟨m, hm, hsome, hp⟩
    obtain ⟨r, hr⟩ := Option.isSome_iff_exists.mp hsome
    refine ⟨_, TeamDb.membership_eq_ok.mpr ⟨m, r, hm, hr, rfl⟩, ?_⟩
    simp only [Membership.all, Membership.wildcard, Bool.or_eq_true, decide_eq_true_eq,
      parseTeamRole_eq_owner]
    rcases hp with howner | ⟨r', hr', hp⟩
    · exact .inl howner
    · cases hr.symm.trans hr'
      exact .inr (hp.elim (fun h => h) (fun h => h))

/-- A call is contained when each slot hands out no more, and each member who is not the owner comes
to hold all by no role. -/
theorem contained_of
    (hmember : ∀ userId m', db'.members.get? (id, userId) = some m' →
      ∃ m, db.members.get? (id, userId) = some m ∧ (db.roles.get? m.roleId).isSome = true
        ∧ (m'.role = "owner" → m.role = "owner")
        ∧ (∀ p, db'.roleGrants (some m'.roleId) p →
            m.role = "owner" ∨ db.roleGrants (some m.roleId) p ∨ me.has p = true)
        ∧ (db'.roleGrants (some m'.roleId) "*" →
            m.role = "owner" ∨ db.roleGrants (some m.roleId) "*"))
    (hdefault : ∀ p, db'.roleGrants (db'.defaultOf id) p →
      db.roleGrants (db.defaultOf id) p ∨ me.has p = true)
    (hgroup : ∀ g p, db'.roleGrants (db'.groupRole id g) p →
      db.roleGrants (db.groupRole id g) p ∨ me.has p = true)
    (hinvite : ∀ i' ∈ db'.invites.rows, TeamDb.pending id now i' = true →
      (∀ p, db'.roleGrants (db'.invitedRole id i'.role i'.roleId) p → me.has p = true)
        ∨ ∃ i, db.invites.get? i'.id = some i ∧ TeamDb.pending id now i = true
          ∧ ∀ p, db'.roleGrants (db'.invitedRole id i'.role i'.roleId) p →
              db.roleGrants (db.invitedRole id i.role i.roleId) p ∨ me.has p = true) :
  Contained me id now db db'
  := by
  constructor
  · intro slot p h
    cases slot with
    | member userId =>
        obtain ⟨m', hm', -, hp⟩ := slotGrants_member.mp h
        obtain ⟨m, hm, hsome, howner, hrole, -⟩ := hmember userId m' hm'
        rcases hp with hp | hp
        · exact .inl (slotGrants_member.mpr ⟨m, hm, hsome, .inl (howner hp)⟩)
        · rcases hrole p hp with h | h | h
          · exact .inl (slotGrants_member.mpr ⟨m, hm, hsome, .inl h⟩)
          · exact .inl (slotGrants_member.mpr ⟨m, hm, hsome, .inr h⟩)
          · exact .inr h
    | defaultRole => exact hdefault p h
    | group g => exact hgroup g p h
    | invite inviteId =>
        obtain ⟨i', hi', hpending, hp⟩ := h
        have hid : i'.id = inviteId := Table.key_of_get? hi'
        rcases hinvite i' (Table.mem_of_get? hi') hpending with h | ⟨i, hi, hpending', h⟩
        · exact .inr (h p hp)
        · rw [hid] at hi
          rcases h p hp with h | h
          · exact .inl ⟨i, hi, hpending', h⟩
          · exact .inr h
  · intro userId x hx hall
    obtain ⟨m', hm', -, hp⟩ := exists_all_iff.mp ⟨x, hx, hall⟩
    obtain ⟨m, hm, hsome, howner, -, hstar⟩ := hmember userId m' hm'
    apply exists_all_iff.mpr
    refine ⟨m, hm, hsome, ?_⟩
    rcases hp with hp | hp
    · exact .inl (howner hp)
    · exact hstar hp

end

section
variable {db db' : TeamDb} {id roleId : Uuid} {now : DateTime} {me : Membership} {r cur : TeamRoleRow}

/-- What a member holds when neither the row nor the role changed. -/
theorem member_unchanged (h : Sound id db) {m m' : TeamMemberRow} {k : Uuid × Uuid}
    (hm : db.members.get? k = some m) (hrow : m' = m)
    (hgrants : ∀ p, db'.roleGrants (some m.roleId) p →
      db.roleGrants (some m.roleId) p ∨ p ≠ "*" ∧ me.has p = true) :
  ∃ m, db.members.get? k = some m ∧ (db.roles.get? m.roleId).isSome = true
    ∧ (m'.role = "owner" → m.role = "owner")
    ∧ (∀ p, db'.roleGrants (some m'.roleId) p →
        m.role = "owner" ∨ db.roleGrants (some m.roleId) p ∨ me.has p = true)
    ∧ (db'.roleGrants (some m'.roleId) "*" →
        m.role = "owner" ∨ db.roleGrants (some m.roleId) "*")
  := by
  subst hrow
  refine ⟨m', hm, h.held m' (Table.mem_of_get? hm), fun howner => howner, ?_, ?_⟩
  · intro p hp
    rcases hgrants p hp with hp | hp
    · exact .inr (.inl hp)
    · exact .inr (.inr hp.2)
  · intro hp
    rcases hgrants _ hp with hp | hp
    · exact .inr hp
    · exact absurd rfl hp.1

theorem Membership.MayGrant.grants {perms : List String} {p : String} (h : me.MayGrant perms)
    (hp : "*" ∈ perms ∨ p ∈ perms) :
  p ≠ "*" ∧ me.has p = true
  := by
  rcases hp with hp | hp
  · exact absurd rfl (h _ hp).2
  · exact ⟨(h p hp).2, (h p hp).1⟩

theorem team_of_pending {i : TeamInviteRow} (h : TeamDb.pending id now i = true) :
  i.teamId = id
  := by
  simp only [TeamDb.pending, Bool.and_eq_true, decide_eq_true_eq] at h
  exact h.1.1

/-- Someone invited gets the role of the invitation, or the built-in one for its level. -/
theorem Sound.invitedRole_eq (h : Sound id db) {role : String}
    (hrole : role = "admin" ∨ role = "member") {roleId : Option Uuid} :
  db.invitedRole id role roleId
    = (((roleId.bind (db.teamRole id)).filter (fun r => decide (r.slug ≠ "owner"))).map
        TeamRoleRow.id).or (db.builtinRoleId id role)
  := by
  obtain ⟨b, hb⟩ := Option.isSome_iff_exists.mp (h.builtin role hrole)
  have howner : role ≠ "owner" := by
    rcases hrole with rfl | rfl <;> decide
  simp only [TeamDb.invitedRole, if_neg howner, hb, Option.some_or]

/-- A new role hands out nothing the actor may not. -/
theorem contained_create {roles : Table TeamRoleRow} (h : Sound id db)
    (hbuiltin : r.builtin = false) (hperms : me.MayGrant r.permissions)
    (hins : db.roles.insert r = some roles) :
  Contained me id now db { db with roles := roles }
  := by
  have hget := Table.get?_insert hins
  have hnew : db.roles.get? r.id = none := by
    have := Table.insert_isSome_iff.mp (hins ▸ rfl : (db.roles.insert r).isSome)
    exact this
  have hgrants : ∀ x p, TeamDb.roleGrants { db with roles := roles } x p →
      db.roleGrants x p ∨ p ≠ "*" ∧ me.has p = true := by
    rintro x p ⟨r', hr', hp⟩
    obtain ⟨k, rfl, hk⟩ := Option.bind_eq_some_iff.mp hr'
    rw [hget] at hk
    split at hk
    · cases hk
      exact .inr (Membership.MayGrant.grants hperms hp)
    · exact .inl ⟨r', hk, hp⟩
  have hme : ∀ p, TeamDb.roleGrants { db with roles := roles } (some r.id) p → me.has p = true := by
    rintro p ⟨r', hr', hp⟩
    have hr' : roles.get? (key r) = some r' := hr'
    rw [hget, if_pos rfl] at hr'
    cases hr'
    exact (Membership.MayGrant.grants hperms hp).2
  have hteam : ∀ x, x ≠ r.id →
      TeamDb.teamRole { db with roles := roles } id x = db.teamRole id x := by
    intro x hx
    rw [TeamDb.teamRole, hget, key_teamRole, if_neg hx, TeamDb.teamRole]
  have hold : db.teamRole id r.id = none := by
    rw [TeamDb.teamRole, hnew]
    rfl
  apply contained_of
  · intro userId m' hm'
    exact member_unchanged h hm' rfl (hgrants _)
  · intro p hp
    exact (hgrants _ p hp).imp_right And.right
  · intro g p hp
    have hrole : TeamDb.groupRole { db with roles := roles } id g = db.groupRole id g
        ∨ TeamDb.groupRole { db with roles := roles } id g = some r.id := by
      unfold TeamDb.groupRole
      cases hm : db.mappings.get? (id, g) with
      | none => exact .inl rfl
      | some x =>
          by_cases hx : x.roleId = r.id
          · cases hg : TeamDb.grantable { db with roles := roles } id r.id with
            | true => simp [hx, hg]
            | false =>
                have hg' : db.grantable id r.id = false := by simp [TeamDb.grantable, hold]
                rw [Option.map_some, hx, Option.filter_some, Option.filter_some, hg, hg']
                exact .inl rfl
          · simp only [Option.map_some, Option.filter_some, TeamDb.grantable, hteam _ hx]
            exact .inl rfl
    rcases hrole with hrole | hrole
    · rw [hrole] at hp
      exact (hgrants _ p hp).imp_right And.right
    · rw [hrole] at hp
      exact .inr (hme p hp)
  · intro i hi hpending
    right
    refine ⟨i, Table.get?_of_mem hi, hpending, fun p hp => ?_⟩
    have hrole : TeamDb.invitedRole { db with roles := roles } id i.role i.roleId
          = db.invitedRole id i.role i.roleId
        ∨ TeamDb.invitedRole { db with roles := roles } id i.role i.roleId = some r.id := by
      have hlevel := h.invited i hi (team_of_pending hpending)
      rw [h.invitedRole_eq hlevel, (sound_create h hbuiltin hperms hins).invitedRole_eq hlevel,
        TeamDb.builtinRoleId_insert hins hbuiltin]
      cases hrid : i.roleId with
      | none => exact .inl rfl
      | some x =>
          rw [Option.bind_some, Option.bind_some]
          by_cases hx : x = r.id
          · subst hx
            rw [hold, TeamDb.teamRole, hget, key_teamRole, if_pos rfl, Option.filter_some]
            split
            · rw [Option.filter_some]
              split
              · exact .inr rfl
              · exact .inl rfl
            · exact .inl rfl
          · rw [hteam x hx]
            exact .inl rfl
    rcases hrole with hrole | hrole
    · rw [hrole] at hp
      exact (hgrants _ p hp).imp_right And.right
    · rw [hrole] at hp
      exact .inr (hme p hp)

section
variable (name description : String) (perms : List String) (position : ℤ)

theorem get?_setRole (hcur : db.teamRole id roleId = some cur) (k : Uuid) :
  (db.setRole id roleId name description perms position).roles.get? k
    = if k = roleId then some { cur with
        name := name, description := description, permissions := perms, position := position }
      else db.roles.get? k
  := by
  obtain ⟨hget, hteam⟩ := TeamDb.teamRole_eq_some.mp hcur
  rw [TeamDb.setRole, Table.get?_set, hget, Option.map_some, if_pos hteam]

/-- Changing a role changes no slug. -/
theorem slugged_setRole (hcur : db.teamRole id roleId = some cur) (x : Uuid) :
  ((db.setRole id roleId name description perms position).teamRole id x).map
      (fun r => (r.id, r.slug))
    = (db.teamRole id x).map (fun r => (r.id, r.slug))
  := by
  have hteam := (TeamDb.teamRole_eq_some.mp hcur).2
  by_cases hx : x = roleId
  · subst hx
    rw [hcur, TeamDb.teamRole, get?_setRole _ _ _ _ hcur, if_pos rfl]
    simp [hteam]
  · rw [TeamDb.teamRole, get?_setRole _ _ _ _ hcur, if_neg hx, TeamDb.teamRole]

/-- A changed role hands out nothing new the actor may not. -/
theorem contained_update (h : Sound id db) (hcur : db.teamRole id roleId = some cur)
    (hperms : perms = cur.permissions ∨ me.MayGrant perms) :
  Contained me id now db (db.setRole id roleId name description perms position)
  := by
  have hget := get?_setRole name description perms position hcur
  have hslug := slugged_setRole name description perms position hcur
  have hsound := sound_setRole name description perms position h hcur hperms
  have hgrants : ∀ x p, (db.setRole id roleId name description perms position).roleGrants x p →
      db.roleGrants x p ∨ p ≠ "*" ∧ me.has p = true := by
    rintro x p ⟨r', hr', hp⟩
    obtain ⟨k, rfl, hk⟩ := Option.bind_eq_some_iff.mp hr'
    rw [hget] at hk
    split at hk
    · rename_i hid
      cases hk
      rcases hperms with rfl | hperms
      · exact .inl ⟨cur, hid ▸ (TeamDb.teamRole_eq_some.mp hcur).1, hp⟩
      · exact .inr (Membership.MayGrant.grants hperms hp)
    · exact .inl ⟨r', hk, hp⟩
  have hgrantable : ∀ x, (db.setRole id roleId name description perms position).grantable id x
      = db.grantable id x := by
    intro x
    have hany : ∀ o : Option TeamRoleRow, o.any (fun r => decide (r.slug ≠ "owner"))
        = (o.map (fun r => (r.id, r.slug))).any (fun s => decide (s.2 ≠ "owner")) := by
      intro o
      cases o <;> rfl
    rw [TeamDb.grantable, hany, hslug, ← hany, TeamDb.grantable]
  have hinvited : ∀ o : Option Uuid,
      ((o.bind ((db.setRole id roleId name description perms position).teamRole id)).filter
          (fun r => decide (r.slug ≠ "owner"))).map TeamRoleRow.id
        = ((o.bind (db.teamRole id)).filter (fun r => decide (r.slug ≠ "owner"))).map
          TeamRoleRow.id := by
    intro o
    have hmap : ∀ o : Option TeamRoleRow,
        (o.filter (fun r => decide (r.slug ≠ "owner"))).map TeamRoleRow.id
          = ((o.map (fun r => (r.id, r.slug))).filter (fun s => decide (s.2 ≠ "owner"))).map
            Prod.fst := by
      intro o
      cases o with
      | none => rfl
      | some r =>
          rw [Option.map_some, Option.filter_some, Option.filter_some]
          split <;> rfl
    cases o with
    | none => rfl
    | some x => rw [Option.bind_some, Option.bind_some, hmap, hslug, ← hmap]
  apply contained_of
  · intro userId m' hm'
    exact member_unchanged h hm' rfl (hgrants _)
  · intro p hp
    exact (hgrants _ p hp).imp_right And.right
  · intro g p hp
    have hrole : (db.setRole id roleId name description perms position).groupRole id g
        = db.groupRole id g := by
      unfold TeamDb.groupRole
      rw [funext hgrantable]
      rfl
    rw [hrole] at hp
    exact (hgrants _ p hp).imp_right And.right
  · intro i hi hpending
    right
    refine ⟨i, Table.get?_of_mem hi, hpending, fun p hp => ?_⟩
    have hlevel := h.invited i hi (team_of_pending hpending)
    rw [hsound.invitedRole_eq hlevel, hinvited, TeamDb.builtinRoleId_setRole,
      ← h.invitedRole_eq hlevel] at hp
    exact (hgrants _ p hp).imp_right And.right

end

/-- A new default role hands out more exactly when it grants more. -/
theorem contained_setDefault (h : Sound id db) :
  Contained me id now db (db.withDefault id roleId)
    ↔ db.NoMore me (db.defaultOf id) (some roleId)
  := by
  obtain ⟨t, ht⟩ := Option.isSome_iff_exists.mp h.team
  have hdefault : (db.withDefault id roleId).defaultOf id = some roleId := by
    rw [TeamDb.defaultOf, TeamDb.withDefault, Table.get?_set, if_pos rfl, ht]
    rfl
  constructor
  · intro hc p hp
    apply hc.within .defaultRole p
    rw [TeamDb.slotGrants, hdefault]
    exact hp
  · intro hmore
    apply contained_of
    · intro userId m' hm'
      exact member_unchanged h hm' rfl (fun p hp => .inl hp)
    · intro p hp
      rw [hdefault] at hp
      exact hmore p hp
    · intro g p hp
      exact .inl hp
    · intro i hi hpending
      right
      refine ⟨i, Table.get?_of_mem hi, hpending, fun p hp => .inl ?_⟩
      have hlevel := h.invited i hi (team_of_pending hpending)
      rw [(sound_withDefault h).invitedRole_eq hlevel] at hp
      rw [h.invitedRole_eq hlevel]
      exact hp

/-- Inserting mappings adds those given, under their groups. -/
theorem mem_of_insertMappings [Names] {req : List RoleMapping} {t t' : Table RoleMappingRow}
    (h : TeamDb.insertMappings id req t = .ok t') :
  ∀ x, x ∈ t'.rows ↔ x ∈ t.rows ∨ ∃ m ∈ req, x = ⟨id, Names.trim m.groupName, m.roleId, m.priority⟩
  := by
  induction req generalizing t with
  | nil =>
      cases h
      simp
  | cons m req ih =>
      unfold TeamDb.insertMappings at h
      split at h
      · cases h
      · rename_i t₁ hins
        intro x
        rw [ih h x, Table.mem_insert hins]
        simp only [List.mem_cons, exists_eq_or_imp, or_assoc]

/-- New mappings hand out more exactly when one grants more than the mapping of its group. -/
theorem contained_setMappings [Names] {req : List RoleMapping} {mappings : Table RoleMappingRow}
    (h : Sound id db) (hgrant : ∀ m ∈ req, db.grantable id m.roleId = true)
    (hins : TeamDb.insertMappings id req (db.mappings.delete (fun x => decide (x.teamId = id)))
      = .ok mappings) :
  Contained me id now db { db with mappings := mappings }
    ↔ ∀ m ∈ req, db.NoMore me (db.groupRole id (Names.trim m.groupName)) (some m.roleId)
  := by
  have hmem := mem_of_insertMappings hins
  have hgroup : ∀ m ∈ req, TeamDb.groupRole { db with mappings := mappings } id
      (Names.trim m.groupName) = some m.roleId := by
    intro m hm
    have hrow : mappings.get? (id, Names.trim m.groupName)
        = some ⟨id, Names.trim m.groupName, m.roleId, m.priority⟩ :=
      Table.get?_of_mem ((hmem _).mpr (.inr ⟨m, hm, rfl⟩))
    rw [TeamDb.groupRole, hrow, Option.map_some, Option.filter_some]
    exact if_pos (hgrant m hm)
  constructor
  · intro hc m hm p hp
    apply hc.within (.group (Names.trim m.groupName)) p
    rw [TeamDb.slotGrants, hgroup m hm]
    exact hp
  · intro hmore
    apply contained_of
    · intro userId m' hm'
      exact member_unchanged h hm' rfl (fun p hp => .inl hp)
    · intro p hp
      exact .inl hp
    · intro g p hp
      cases hrow : mappings.get? (id, g) with
      | none =>
          have hnone : TeamDb.groupRole { db with mappings := mappings } id g = none := by
            rw [TeamDb.groupRole, hrow]
            rfl
          rw [hnone] at hp
          obtain ⟨r, hr, -⟩ := hp
          cases hr
      | some x =>
          have hkey := Table.key_of_get? hrow
          rcases (hmem x).mp (Table.mem_of_get? hrow) with hold | ⟨m, hm, rfl⟩
          · have hteam := (Table.mem_delete.mp hold).2
            exact absurd (congrArg Prod.fst hkey) (by simpa using hteam)
          · have hg : g = Names.trim m.groupName := (congrArg Prod.snd hkey).symm
            rw [hg] at hp ⊢
            rw [hgroup m hm] at hp
            exact hmore m hm p hp
    · intro i hi hpending
      exact .inr ⟨i, Table.get?_of_mem hi, hpending, fun p hp => .inl hp⟩

/-- Assigning a role that grants no more than the actor holds. -/
theorem contained_assign {userId : Uuid} {level : String} (h : Sound id db)
    (hr : db.teamRole id r.id = some r) (hslug : r.slug ≠ "owner") (hlevel : level ≠ "owner")
    (hperms : ∀ p ∈ r.permissions, me.has p = true) :
  Contained me id now db (db.assign id userId level r.id)
  := by
  obtain ⟨hget, hteam⟩ := TeamDb.teamRole_eq_some.mp hr
  apply contained_of
  · intro userId' m' hm'
    rw [TeamDb.assign, Table.get?_set] at hm'
    split at hm'
    · rename_i hk
      obtain ⟨m, hm, rfl⟩ := Option.map_eq_some_iff.mp hm'
      rw [hk]
      refine ⟨m, hm, h.held m (Table.mem_of_get? hm), fun howner => absurd howner hlevel, ?_, ?_⟩
      · rintro p ⟨r', hr', hp⟩
        cases hget.symm.trans hr'
        exact .inr (.inr (Membership.has_of_grants hperms hp))
      · rintro ⟨r', hr', hp⟩
        cases hget.symm.trans hr'
        have hstar : "*" ∈ r.permissions := hp.elim (fun h => h) (fun h => h)
        exact absurd (h.wild r (Table.mem_of_get? hget) hteam hstar) hslug
    · exact member_unchanged h hm' rfl (fun p hp => .inl hp)
  · intro p hp
    exact .inl hp
  · intro g p hp
    exact .inl hp
  · intro i hi hpending
    exact .inr ⟨i, Table.get?_of_mem hi, hpending, fun p hp => .inl hp⟩

/-- Inviting with a role that grants no more than the actor holds. -/
theorem contained_invite {q : TeamInviteRow → Bool} {i : TeamInviteRow}
    {invites : Table TeamInviteRow} (h : Sound id db) (hr : db.teamRole id r.id = some r)
    (hslug : r.slug ≠ "owner") (hperms : ∀ p ∈ r.permissions, me.has p = true)
    (hrole : i.roleId = some r.id) (hins : (db.invites.delete q).insert i = some invites) :
  Contained me id now db { db with invites := invites }
  := by
  apply contained_of
  · intro userId m' hm'
    exact member_unchanged h hm' rfl (fun p hp => .inl hp)
  · intro p hp
    exact .inl hp
  · intro g p hp
    exact .inl hp
  · intro i' hi' hpending
    rcases (Table.mem_insert hins).mp hi' with hold | rfl
    · right
      exact ⟨i', Table.get?_of_mem (Table.mem_delete.mp hold).1, hpending, fun p hp => .inl hp⟩
    · left
      rintro p ⟨r', hr', hp⟩
      have hinvited : TeamDb.invitedRole { db with invites := invites } id i'.role i'.roleId
          = some r.id := by
        have hfound : db.teamRole id r.id = some r := hr
        simp only [TeamDb.invitedRole, hrole, Option.bind_some]
        rw [show TeamDb.teamRole { db with invites := invites } id r.id = some r from hfound]
        simp [hslug]
      rw [hinvited] at hr'
      cases (TeamDb.teamRole_eq_some.mp hr).1.symm.trans hr'
      exact Membership.has_of_grants hperms hp

/-! ### Deleting a role -/

/-- A role of a team is gone, and another one is in its place. -/
structure Replaced (db : TeamDb) (id roleId target : Uuid) (db' : TeamDb) : Prop where
  roles : ∀ x, db'.roles.get? x = if x = roleId then none else db.roles.get? x
  builtin : ∀ slug, db'.builtinRoleId id slug = db.builtinRoleId id slug
  members : ∀ k, db'.members.get? k = (db.members.get? k).map (fun m =>
    if m.teamId = id ∧ m.roleId = roleId then
      { m with roleId := target, role := db.levelOf target }
    else m)
  default : db'.defaultOf id
    = if db.defaultOf id = some roleId then some target else db.defaultOf id
  mappings : ∀ k, db'.mappings.get? k
    = (db.mappings.get? k).filter (fun x => decide (x.roleId ≠ roleId))
  invites : ∀ k, db'.invites.get? k = (db.invites.get? k).map (fun i =>
    if i.roleId = some roleId then { i with roleId := none } else i)

section
variable {target : Uuid} {t : TeamRoleRow}

theorem replaced_of_dropRole (hcur : db.teamRole id roleId = some cur)
    (hbuiltin : cur.builtin = false) (hne : target ≠ roleId)
    (hdrop : ((db.reassigned id roleId target).replaceDefault id roleId target).dropRole id roleId
      = .ok db') :
  Replaced db id roleId target db'
  := by
  obtain ⟨-, rfl⟩ := TeamDb.dropRole_eq_ok hdrop hcur
  constructor
  · intro x
    exact Table.get?_erase _ _ _
  · intro slug
    exact TeamDb.builtinRoleId_erase id slug (TeamDb.teamRole_eq_some.mp hcur).1 hbuiltin
  · intro k
    have hm : ((db.reassigned id roleId target).replaceDefault id roleId target).members
        = (db.reassigned id roleId target).members := rfl
    dsimp only
    rw [hm, TeamDb.reassigned, Table.get?_update]
    simp only [Bool.and_eq_true, decide_eq_true_eq]
  · unfold TeamDb.defaultOf
    dsimp only
    rw [Table.get?_update, TeamDb.replaceDefault, Table.get?_set, if_pos rfl]
    have hteams : (db.reassigned id roleId target).teams = db.teams := rfl
    rw [hteams]
    cases hteam : db.teams.get? id with
    | none => rfl
    | some x =>
        simp only [Option.map_some, Option.bind_some, decide_eq_true_eq]
        by_cases hx : x.defaultRoleId = some roleId
        · simp [hx, hne]
        · simp [hx]
  · intro k
    refine (Table.get?_delete _ _ k).trans ?_
    congr 1
    funext x
    exact decide_not.symm
  · intro k
    have hi : ((db.reassigned id roleId target).replaceDefault id roleId target).invites
        = db.invites := rfl
    dsimp only
    rw [Table.get?_update, hi]
    simp only [decide_eq_true_eq]

namespace Replaced

variable (hd : Replaced db id roleId target db')
include hd

theorem roleGrants_of_ne {x : Option Uuid} {p : String} (hx : x ≠ some roleId) :
  db'.roleGrants x p ↔ db.roleGrants x p
  := by
  unfold TeamDb.roleGrants
  cases x with
  | none => simp
  | some x =>
      have hne : x ≠ roleId := fun h => hx (congrArg some h)
      rw [Option.bind_some, hd.roles, if_neg hne, Option.bind_some]

theorem roleGrants_target (hne : target ≠ roleId) {p : String} :
  db'.roleGrants (some target) p ↔ db.roleGrants (some target) p
  := hd.roleGrants_of_ne (fun h => hne (Option.some.inj h))

theorem roleGrants_of {x : Option Uuid} {p : String} (h : db'.roleGrants x p) :
  db.roleGrants x p
  := by
  obtain ⟨r', hr', hp⟩ := h
  obtain ⟨k, rfl, hk⟩ := Option.bind_eq_some_iff.mp hr'
  rw [hd.roles] at hk
  split at hk
  · cases hk
  · exact ⟨r', hk, hp⟩

theorem teamRole_of_ne {x : Uuid} (hx : x ≠ roleId) :
  db'.teamRole id x = db.teamRole id x
  := by
  rw [TeamDb.teamRole, hd.roles, if_neg hx, TeamDb.teamRole]

/-- A built-in role is another role. -/
theorem builtinRoleId_ne {slug : String} :
  db.builtinRoleId id slug ≠ some roleId
  := by
  intro h
  rw [← hd.builtin] at h
  obtain ⟨r, hr, -⟩ := TeamDb.builtinRoleId_eq_some h
  have hget := (TeamDb.teamRole_eq_some.mp hr).1
  rw [hd.roles, if_pos rfl] at hget
  cases hget

/-- A member who held the role holds the one in its place. -/
theorem get?_heir {m : TeamMemberRow} (hm : m ∈ db.members.rows) (hteam : m.teamId = id)
    (hrole : m.roleId = roleId) :
  db'.members.get? (id, m.userId)
    = some { m with roleId := target, role := db.levelOf target }
  := by
  have hget : db.members.get? (id, m.userId) = some m := by
    rw [← hteam]
    exact Table.get?_of_mem hm
  rw [hd.members, hget, Option.map_some, if_pos ⟨hteam, hrole⟩]

end Replaced

theorem levelOf_ne_owner :
  db.levelOf target ≠ "owner"
  := by
  unfold TeamDb.levelOf
  split <;> decide

/-- When a deletion is contained, the role put in the place of the deleted one grants no more. -/
theorem bounded_of_contained (h : Sound id db) (h' : Sound id db') (hne : target ≠ roleId)
    (ht : db.teamRole id target = some t) (hd : Replaced db id roleId target db')
    (hc : Contained me id now db db') :
  (db.HeldBelow id roleId ∨ db.defaultOf id = some roleId →
        db.NoMore me (some roleId) (some target))
    ∧ (db.HeldBelow id roleId → db.roleGrants (some target) "*" → db.roleGrants (some roleId) "*")
    ∧ ∀ i ∈ db.invites.rows, TeamDb.pending id now i = true → i.roleId = some roleId →
        db.NoMore me (db.invitedRole id i.role (some roleId)) (db.builtinRoleId id i.role)
  := by
  have htarget : (db'.roles.get? target).isSome := by
    rw [hd.roles, if_neg hne, (TeamDb.teamRole_eq_some.mp ht).1]
    rfl
  refine ⟨?_, ?_, ?_⟩
  · rintro (⟨m, hm, hteam, hrole, howner⟩ | hdefault) p hp
    · have hget := hd.get?_heir hm hteam hrole
      rcases hc.within (.member m.userId) p
        (slotGrants_member.mpr ⟨_, hget, htarget, .inr ((hd.roleGrants_target hne).mpr hp)⟩)
        with hold | hold
      · obtain ⟨m', hm', -, hp'⟩ := slotGrants_member.mp hold
        have hmem : db.members.get? (id, m.userId) = some m := by
          rw [← hteam]
          exact Table.get?_of_mem hm
        cases hmem.symm.trans hm'
        rcases hp' with hp' | hp'
        · exact absurd hp' howner
        · exact .inl (hrole ▸ hp')
      · exact .inr hold
    · have hslot := hc.within .defaultRole p
      rw [TeamDb.slotGrants, TeamDb.slotGrants, hd.default, if_pos hdefault, hdefault] at hslot
      exact hslot ((hd.roleGrants_target hne).mpr hp)
  · rintro ⟨m, hm, hteam, hrole, howner⟩ hstar
    have hget := hd.get?_heir hm hteam hrole
    obtain ⟨x, hx, hall⟩ := exists_all_iff.mpr
      ⟨_, hget, htarget, .inr ((hd.roleGrants_target hne).mpr hstar)⟩
    obtain ⟨m', hm', -, hp'⟩ := exists_all_iff.mp (hc.all m.userId x hx hall)
    have hmem : db.members.get? (id, m.userId) = some m := by
      rw [← hteam]
      exact Table.get?_of_mem hm
    cases hmem.symm.trans hm'
    rcases hp' with hp' | hp'
    · exact absurd hp' howner
    · exact hrole ▸ hp'
  · intro i hi hpending hrole p hp
    have hlevel := h.invited i hi (team_of_pending hpending)
    have hold : db.invites.get? i.id = some i := Table.get?_of_mem hi
    have hget : db'.invites.get? i.id = some { i with roleId := none } := by
      rw [hd.invites, hold, Option.map_some, if_pos hrole]
    have hinvited : db'.invitedRole id i.role none = db.builtinRoleId id i.role := by
      rw [h'.invitedRole_eq hlevel, hd.builtin]
      rfl
    have hgrants : db'.roleGrants (db'.invitedRole id i.role none) p := by
      rw [hinvited]
      exact (hd.roleGrants_of_ne hd.builtinRoleId_ne).mpr hp
    rcases hc.within (.invite i.id) p ⟨_, hget, hpending, hgrants⟩ with ⟨i', hi', -, hp'⟩ | hme
    · cases hold.symm.trans hi'
      rw [hrole] at hp'
      exact .inl hp'
    · exact .inr hme

/-- When the role put in the place of the deleted one grants no more, the deletion is contained. -/
theorem contained_of_bounded (h : Sound id db) (h' : Sound id db') (hne : target ≠ roleId)
    (hd : Replaced db id roleId target db')
    (hmore : db.HeldBelow id roleId ∨ db.defaultOf id = some roleId →
        db.NoMore me (some roleId) (some target))
    (hall : db.HeldBelow id roleId → db.roleGrants (some target) "*" →
        db.roleGrants (some roleId) "*")
    (hinvites : ∀ i ∈ db.invites.rows, TeamDb.pending id now i = true → i.roleId = some roleId →
        db.NoMore me (db.invitedRole id i.role (some roleId)) (db.builtinRoleId id i.role)) :
  Contained me id now db db'
  := by
  apply contained_of
  · intro userId m' hm'
    rw [hd.members] at hm'
    obtain ⟨m, hm, rfl⟩ := Option.map_eq_some_iff.mp hm'
    split
    · rename_i hmoved
      refine ⟨m, hm, h.held m (Table.mem_of_get? hm), fun hl => absurd hl levelOf_ne_owner, ?_, ?_⟩
      · intro p hp
        by_cases howner : m.role = "owner"
        · exact .inl howner
        · have hheld : db.HeldBelow id roleId :=
            ⟨m, Table.mem_of_get? hm, hmoved.1, hmoved.2, howner⟩
          rw [hmoved.2]
          exact .inr (hmore (.inl hheld) p ((hd.roleGrants_target hne).mp hp))
      · intro hp
        by_cases howner : m.role = "owner"
        · exact .inl howner
        · have hheld : db.HeldBelow id roleId :=
            ⟨m, Table.mem_of_get? hm, hmoved.1, hmoved.2, howner⟩
          rw [hmoved.2]
          exact .inr (hall hheld ((hd.roleGrants_target hne).mp hp))
    · exact member_unchanged h hm rfl (fun p hp => .inl (hd.roleGrants_of hp))
  · intro p hp
    rw [hd.default] at hp
    split at hp
    · rename_i hdefault
      rw [hdefault]
      exact hmore (.inr hdefault) p (hd.roleGrants_of hp)
    · exact .inl (hd.roleGrants_of hp)
  · intro g p hp
    left
    have hgrants := hd.roleGrants_of hp
    unfold TeamDb.groupRole at hgrants ⊢
    rw [hd.mappings] at hgrants
    cases hx : db.mappings.get? (id, g) with
    | none =>
        rw [hx] at hgrants
        exact hgrants
    | some x =>
        rw [hx, Option.filter_some] at hgrants
        split at hgrants
        · rename_i hrole
          have hgrantable : db'.grantable id x.roleId = db.grantable id x.roleId := by
            rw [TeamDb.grantable, hd.teamRole_of_ne (of_decide_eq_true hrole), TeamDb.grantable]
          rw [Option.map_some, Option.filter_some, hgrantable] at hgrants
          exact hgrants
        · obtain ⟨r, hr, -⟩ := hgrants
          cases hr
  · intro i' hi' hpending
    right
    have hget : db'.invites.get? i'.id = some i' := Table.get?_of_mem hi'
    rw [hd.invites] at hget
    obtain ⟨i, hi, heq⟩ := Option.map_eq_some_iff.mp hget
    refine ⟨i, hi, ?_⟩
    split at heq
    · rename_i hrole
      subst heq
      refine ⟨hpending, fun p hp => ?_⟩
      have hlevel := h.invited i (Table.mem_of_get? hi) (team_of_pending hpending)
      rw [h'.invitedRole_eq hlevel, hd.builtin] at hp
      rw [hrole]
      exact hinvites i (Table.mem_of_get? hi) hpending hrole p (hd.roleGrants_of hp)
    · rename_i hrole
      subst heq
      refine ⟨hpending, fun p hp => .inl ?_⟩
      have hlevel := h.invited i (Table.mem_of_get? hi) (team_of_pending hpending)
      have hbind : i.roleId.bind (db'.teamRole id) = i.roleId.bind (db.teamRole id) := by
        cases hrid : i.roleId with
        | none => rfl
        | some x => exact hd.teamRole_of_ne (fun heq => hrole (heq ▸ hrid))
      rw [h'.invitedRole_eq hlevel, hd.builtin, hbind, ← h.invitedRole_eq hlevel] at hp
      exact hd.roleGrants_of hp

end

/-- What a call by a member who is not the owner hands out is contained exactly when the roles it
puts in the place of others grant no more than the member may grant. -/
theorem contained_iff_of_effect [Names] {call : RoleCall} (h : Sound id db)
    (hlevel : me.level ≠ .owner) (he : Effect db id me call db') :
  Contained me id now db db' ↔ call.Bounded db id now me
  := by
  have hsound := sound_of_effect h he
  cases he with
  | create _ hbuiltin hperms hins => exact iff_of_true (contained_create h hbuiltin hperms hins) trivial
  | update hcur hperms => exact iff_of_true (contained_update _ _ _ _ h hcur hperms) trivial
  | delete hcur hbuiltin htarget hne ht hdrop =>
      have hd := replaced_of_dropRole hcur hbuiltin hne hdrop
      simp only [RoleCall.Bounded, htarget]
      constructor
      · exact bounded_of_contained h hsound hne ht hd
      · rintro ⟨hmore, hall, hinvites⟩
        exact contained_of_bounded h hsound hne hd hmore hall hinvites
  | setDefault _ => exact contained_setDefault h
  | setMappings hgrant hins => exact contained_setMappings h hgrant hins
  | transfer howner _ _ => exact absurd howner hlevel
  | @assign _ _ level _ hr hslug hcoarse hperms =>
      have hne : level ≠ "owner" := by
        rcases hcoarse with rfl | rfl <;> decide
      exact iff_of_true (contained_assign h hr hslug hne (hperms hlevel)) trivial
  | invite hr hslug hperms _ hins =>
      exact iff_of_true (contained_invite h hr hslug hperms rfl hins) trivial

/-- From any state a team reaches, a call by a member who is not the owner leaves nobody, now or
later, with a permission the member does not hold and that was not granted before exactly when
the roles it puts in the place of others grant no more than that. -/
theorem contained_iff [Names] {auth : Auth} {call : RoleCall}
    (h : (teamSystem id).Reachable db) (hme : db.membership id auth.userId = .ok me)
    (hlevel : me.level ≠ .owner) (hcall : call.run db auth id = .ok db') :
  Contained me id now db db' ↔ call.Bounded db id now me
  := by
  obtain ⟨me', hme', he⟩ := effect_of_run hcall
  cases hme.symm.trans hme'
  exact contained_iff_of_effect (sound_of_reachable h) hlevel he

end

/-! ### A team with two custom roles -/

/-- User 7 holds a role that manages roles, and user 8 one without permissions. -/
def staffedTeam : TeamDb where
  roles := ⟨seedBuiltinRoles 1 [10, 11, 12, 13, 14] ++
    [⟨20, 1, "helper", "helper", "", ["roles.manage"], false, 100⟩,
      ⟨21, 1, "guest", "guest", "", [], false, 100⟩], by decide⟩
  teams := .single ⟨1, 5, some 12⟩
  members := ⟨[⟨1, 5, "owner", 10, "manual"⟩, ⟨1, 7, "member", 20, "manual"⟩,
    ⟨1, 8, "member", 21, "manual"⟩], by decide⟩
  mappings := .empty
  invites := .empty
  idps := .empty
  identities := .empty

/-- The owner creates both roles. -/
def rolesCreated : List TeamStep := [
  .call ⟨5, 0, none⟩ (.create ⟨"helper", "", ["roles.manage"], none⟩ 20),
  .call ⟨5, 0, none⟩ (.create ⟨"guest", "", [], none⟩ 21)]

theorem reachable_staffedTeam :
  (@teamSystem plainNames 1).Reachable staffedTeam
  := by
  have hinit : (@teamSystem plainNames 1).init newTeam := by
    exact ⟨⟨5, 10, isNew_newTeam⟩, by decide⟩
  have hrun : ((@teamSystem plainNames 1).run newTeam rolesCreated).any
      (fun db => Spared 1 db staffedTeam) = true := by
    decide +kernel
  obtain ⟨db, hdb, hspared⟩ := Option.any_eq_true _ _ |>.mp hrun
  apply TransitionSystem.Reaches.step (TransitionSystem.Reaches.run (.init hinit)
    (TransitionSystem.meets_true newTeam rolesCreated) hdb) trivial (l := .rest staffedTeam)
  exact if_pos hspared

/-- What user 7 holds. -/
def helper : Membership :=
  ⟨1, 7, .member, ⟨20, "helper", "helper"⟩, "manual", ["roles.manage"]⟩

/-- User 7 may make the default a role that grants what the user holds. -/
theorem contained_helperDefault :
  Contained helper 1 0 staffedTeam (staffedTeam.withDefault 1 20)
  := by
  apply (@contained_iff staffedTeam _ 1 0 helper plainNames ⟨7, 0, none⟩ (.setDefault 20)
    reachable_staffedTeam rfl (by decide) rfl).mpr
  rintro p ⟨r, hr, hp⟩
  cases hr
  right
  rcases hp with hp | hp
  · exact absurd hp (by decide)
  · obtain rfl := List.mem_singleton.mp hp
    rfl

/-- User 7, who only manages roles, deletes the role of user 8 and puts the owner role in its place:
user 8 holds every permission. -/
theorem not_contained_ownerRole :
  ∃ db', (@teamSystem plainNames 1).Reachable staffedTeam
    ∧ staffedTeam.membership 1 7 = .ok helper ∧ helper.level ≠ .owner
    ∧ @RoleCall.run plainNames staffedTeam ⟨7, 0, none⟩ 1 (.delete 21 (some 10)) = .ok db'
    ∧ ¬ Contained helper 1 0 staffedTeam db'
  := by
  refine ⟨_, reachable_staffedTeam, rfl, by decide, rfl, ?_⟩
  intro h
  obtain ⟨m, hm, hall⟩ := h.all 8 _ rfl rfl
  cases hm
  revert hall
  decide

end Termoso.Server
