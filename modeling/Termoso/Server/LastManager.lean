import Termoso.Server.MemberKeys
import Termoso.Server.Escalation

/-!
# The last manager of a vault

Someone is to be left who may manage a vault.  Requests that write the members of the vault run
statement by statement beside each other, memberships expire, and calls change the roles of the
team.  A write that comes long after its check may take the last manager, and the checks count
managers who may not manage, since they do not have the factors that the team asks for.  Runs whose
steps each leave someone who may manage keep a manager.
-/

namespace Termoso.Server

/-! ### Who may manage -/

/-- Whether the permissions of a team role make a member a manager of every vault of the team. -/
def managing (permissions : List String) : Bool :=
  permissions.any (fun p => p = "*" || p = "vaults.members")

namespace Db

section
variable (db : Db) (vaultId userId : Uuid)

/-- A user may manage a vault. -/
def Manages : Prop := ∃ a, db.requireManage vaultId userId = .ok a

/-- Whether a user has the factors that the team of a vault asks for. -/
def meetsPolicy : Bool :=
  let team := (db.vaults.get? vaultId).bind VaultRow.teamId
  let user := db.users.get? userId
  satisfies (((team.bind db.teamPolicies.get?).map TeamPolicy.mfa).getD "off")
    (user.any User.totpEnabled) (user.any User.passkey)

/-- Whether the team role of a user makes a manager. -/
def teamManages : Bool :=
  (((db.vaults.get? vaultId).bind VaultRow.teamId).bind (fun t => db.teamMembers.get? (t, userId))).any
    (fun m => m.permissions.any managing)

/-- Whether a user has the role of manager in a vault. -/
def vaultManages : Bool :=
  (db.vaultMembers.get? (vaultId, userId)).any (fun m => decide (m.role = .manager))

end

section
variable {db db' : Db} {vaultId userId : Uuid}

/-- Whoever lacks a factor has no access at all, and the role is the larger of those in the vault and
in the team. -/
theorem access_of_live {v : VaultRow} (hv : db.vaults.get? vaultId = some v)
    (hlive : v.deleted = false) :
  (∃ a, db.access vaultId userId = .ok a ∧ a.role.canManage = true)
    ↔ db.meetsPolicy vaultId userId = true
      ∧ (db.teamManages vaultId userId || db.vaultManages vaultId userId) = true
  := by
  have hteam : db.teamManages vaultId userId
      = ((v.teamId.bind (fun t => db.teamMembers.get? (t, userId))).bind TeamMember.permissions).any
        managing := by
    unfold teamManages
    rw [hv, Option.bind_some]
    cases v.teamId.bind (fun t => db.teamMembers.get? (t, userId)) <;> rfl
  have hmeets : db.meetsPolicy vaultId userId
      = satisfies (((v.teamId.bind db.teamPolicies.get?).map TeamPolicy.mfa).getD "off")
        ((db.users.get? userId).any User.totpEnabled) ((db.users.get? userId).any User.passkey) := by
    unfold meetsPolicy
    rw [hv]
    rfl
  unfold access vaultManages
  rw [hv, Option.filter_some, hlive]
  simp only [Bool.not_false, if_true, ← hmeets]
  rw [hteam]
  unfold managing
  generalize ((v.teamId.bind (fun t => db.teamMembers.get? (t, userId))).bind TeamMember.permissions)
    = permissions
  generalize db.vaultMembers.get? (vaultId, userId) = member
  cases db.meetsPolicy vaultId userId with
  | false =>
    cases member <;> cases permissions <;> simp [roleOf]
  | true =>
    cases hadmin : permissions.any
        (fun p => p.any (fun x => decide (x = "*") || decide (x = "vaults.members"))) with
    | true => cases member <;> simp [roleOf, VaultRole.canManage]
    | false =>
      cases member with
      | none => simp [roleOf]
      | some m => cases hrole : m.role <;> simp [roleOf, VaultRole.canManage, hrole]

/-- Who may manage a vault that is there: who has the factors asked for, and is a manager by the team
role or by the role in the vault. -/
theorem manages_iff :
  db.Manages vaultId userId
    ↔ (db.vaults.get? vaultId).any (fun v => !v.deleted) = true
      ∧ db.meetsPolicy vaultId userId = true
      ∧ (db.teamManages vaultId userId || db.vaultManages vaultId userId) = true
  := by
  have hmanage : db.Manages vaultId userId
      ↔ ∃ a, db.access vaultId userId = .ok a ∧ a.role.canManage = true := by
    unfold Manages requireManage
    simp only [bind_eq_ok]
    constructor
    · rintro ⟨b, a, ha, hcheck⟩
      obtain ⟨hrole, -⟩ := check_eq_ok.mp hcheck
      exact ⟨a, ha, by simpa using hrole⟩
    · rintro ⟨a, ha, hrole⟩
      exact ⟨a, a, ha, check_eq_ok.mpr ⟨by simp [hrole], rfl⟩⟩
  rw [hmanage]
  cases hv : db.vaults.get? vaultId with
  | none => simp [access, hv]
  | some v =>
    cases hdeleted : v.deleted with
    | true => simp [access, hv, hdeleted, Option.filter_some]
    | false =>
      rw [access_of_live hv hdeleted]
      simp [hdeleted]

end

end Db

/-! ### Finding a manager -/

namespace Db

section
variable {db : Db} {vaultId userId : Uuid}

instance : Decidable (db.Manages vaultId userId) :=
  decidable_of_iff _ manages_iff.symm

/-- The users who have a role in a vault or a team. -/
def candidates (db : Db) : List Uuid :=
  db.vaultMembers.rows.map VaultMember.userId ++ db.teamMembers.rows.map TeamMember.userId

theorem Manages.mem_candidates (h : db.Manages vaultId userId) :
  userId ∈ db.candidates
  := by
  have hrole := (manages_iff.mp h).2.2
  rw [Bool.or_eq_true] at hrole
  apply List.mem_append.mpr
  rcases hrole with hteam | hvault
  · right
    unfold teamManages at hteam
    cases ht : (db.vaults.get? vaultId).bind VaultRow.teamId with
    | none => simp [ht] at hteam
    | some t =>
      cases hm : db.teamMembers.get? (t, userId) with
      | none => simp [ht, hm] at hteam
      | some m =>
        have hkey : (m.teamId, m.userId) = (t, userId) := Table.key_of_get? hm
        exact List.mem_map.mpr ⟨m, Table.mem_of_get? hm, congrArg Prod.snd hkey⟩
  · left
    unfold vaultManages at hvault
    cases hm : db.vaultMembers.get? (vaultId, userId) with
    | none => simp [hm] at hvault
    | some m =>
      have hkey : (m.vaultId, m.userId) = (vaultId, userId) := Table.key_of_get? hm
      exact List.mem_map.mpr ⟨m, Table.mem_of_get? hm, congrArg Prod.snd hkey⟩

instance {q : Uuid → Prop} [DecidablePred q] : Decidable (∃ u, db.Manages vaultId u ∧ q u) :=
  decidable_of_iff (∃ u ∈ db.candidates, db.Manages vaultId u ∧ q u)
    ⟨fun ⟨u, _, h⟩ => ⟨u, h⟩, fun ⟨u, h⟩ => ⟨u, h.1.mem_candidates, h⟩⟩

end

end Db

/-! ### What calls about roles leave -/

/-- Whether a role makes its members managers. -/
def TeamDb.roleManages (db : TeamDb) (roleId : Uuid) : Bool :=
  (db.roles.get? roleId).any (fun r => managing r.permissions)

section
variable [Names]

/-- A call leaves a member a manager by the team role: a role is not changed to one without the
permission, a member whose role is deleted gets one that has it, and so does a member who is given
another role, and an owner who hands over the team. -/
def RoleCall.LeavesManaging (db : TeamDb) (auth : Auth) (id : Uuid) (m : TeamMemberRow) :
    RoleCall → Prop
  | .update roleId req => roleId = m.roleId → ∀ perms ∈ req.permissions,
    ∃ p ∈ perms, Names.trim p = "vaults.members"
  | .delete roleId reassignTo => m.teamId = id → roleId = m.roleId →
    ∀ target ∈ reassignTo.or (db.defaultOf id), db.roleManages target = true
  | .updateMember userId req => m.teamId = id →
    ∀ role ∈ (db.requestedRole id req).toOption,
      (m.userId = userId → db.roleManages role.1 = true)
        ∧ (m.userId = auth.userId → m.userId ≠ userId → role.2.2 = .owner →
          ∀ adminRole ∈ (db.roleIdForLevel id .admin).toOption, db.roleManages adminRole = true)
  | _ => True

namespace TeamDb

section
variable {db db' : TeamDb} {auth : Auth} {id roleId userId : Uuid} {k : Uuid × Uuid}
  {m : TeamMemberRow}

/-- What is asked for is in a normalized set of permissions. -/
theorem mem_of_normalizePermissions {perms out : List String} (h : normalizePermissions perms = .ok out)
    {p : String} (hp : p ∈ perms) :
  Names.trim p ∈ out
  := by
  obtain ⟨set, hset, hout⟩ := bind_eq_ok.mp h
  cases hout
  rw [List.mem_mergeSort, List.mem_dedup]
  clear h
  induction perms generalizing set with
  | nil => cases hp
  | cons q perms ih =>
    rw [List.mapM_cons, bind_eq_ok] at hset
    obtain ⟨q', hq', hset⟩ := hset
    obtain ⟨set', hset', hset⟩ := bind_eq_ok.mp hset
    cases hset
    rcases List.mem_cons.mp hp with rfl | hp
    · unfold checkPermission at hq'
      dsimp only at hq'
      split at hq'
      · cases hq'
      split at hq'
      · cases hq'
      · cases hq'
        exact List.mem_cons_self
    · exact List.mem_cons_of_mem q' (ih hp set' hset')

/-- Changing a role to one with the permission leaves its members managers. -/
theorem roleManages_update {req : UpdateRoleRequest} {x : TeamRoleDef × TeamDb} {role : Uuid}
    (h : db.update auth id roleId req = .ok x) (hrole : db.roleManages role = true)
    (hleaves : roleId = role → ∀ perms ∈ req.permissions, ∃ p ∈ perms, Names.trim p = "vaults.members") :
  x.2.members = db.members ∧ x.2.roleManages role = true
  := by
  obtain ⟨me, hme, h⟩ := bind_eq_ok.mp h
  obtain ⟨cur, hcur, h⟩ := bind_eq_ok.mp h
  obtain ⟨-, h⟩ := check_eq_ok.mp h
  obtain ⟨name, -, h⟩ := bind_eq_ok.mp h
  obtain ⟨description, -, h⟩ := bind_eq_ok.mp h
  obtain ⟨perms, hperms, h⟩ := bind_eq_ok.mp h
  obtain ⟨_, -, h⟩ := bind_eq_ok.mp h
  cases h
  refine ⟨rfl, ?_⟩
  obtain ⟨hget, hteam⟩ := teamRole_eq_some.mp (loadRole_eq_ok hcur)
  unfold roleManages setRole
  rw [Table.get?_set]
  split
  · rename_i heq
    subst heq
    rw [roleManages, hget, Option.any_some] at hrole
    rw [hget, Option.map_some, Option.any_some, if_pos hteam]
    cases hasked : req.permissions with
    | none =>
      rw [hasked] at hperms
      cases hperms
      exact hrole
    | some asked =>
      obtain ⟨p, hp, htrim⟩ := hleaves rfl asked hasked
      rw [hasked] at hperms
      obtain ⟨perms', hperms', hperms⟩ := bind_eq_ok.mp hperms
      obtain ⟨_, -, hperms⟩ := bind_eq_ok.mp hperms
      obtain ⟨-, hperms⟩ := check_eq_ok.mp hperms
      cases hperms
      have hin := mem_of_normalizePermissions hperms' hp
      rw [htrim] at hin
      exact List.any_eq_true.mpr ⟨_, hin, by decide⟩
  · exact hrole

omit [Names] in
/-- Deleting a role whose place is taken by one that manages leaves a member a manager. -/
theorem roleManages_delete {target : Uuid} {cur : TeamRoleRow}
    (hcur : db.teamRole id roleId = some cur) (hbuiltin : cur.builtin = false) (hne : target ≠ roleId)
    (hdrop : ((db.reassigned id roleId target).replaceDefault id roleId target).dropRole id roleId
      = .ok db') (hm : db.members.get? k = some m) (hrole : db.roleManages m.roleId = true)
    (hleaves : m.teamId = id → roleId = m.roleId → db.roleManages target = true) :
  ∃ m', db'.members.get? k = some m' ∧ db'.roleManages m'.roleId = true
  := by
  have hd := replaced_of_dropRole hcur hbuiltin hne hdrop
  obtain ⟨hheld, -⟩ := dropRole_eq_ok hdrop hcur
  have hmembers := hd.members k
  rw [hm, Option.map_some] at hmembers
  refine ⟨_, hmembers, ?_⟩
  split
  · rename_i hheir
    unfold roleManages
    rw [hd.roles, if_neg hne]
    exact hleaves hheir.1 hheir.2.symm
  · rename_i hother
    have hkept : m.roleId ≠ roleId := by
      intro heq
      have hin : m ∈ ((db.reassigned id roleId target).replaceDefault id roleId target).members.rows := by
        apply List.mem_map.mpr
        refine ⟨m, Table.mem_of_get? hm, ?_⟩
        rw [if_neg]
        simpa using hother
      exact hheld m hin heq
    unfold roleManages
    rw [hd.roles, if_neg hkept]
    exact hrole

omit [Names] in
/-- Giving a member a role that manages leaves that member a manager, and the others as they are. -/
theorem roleManages_assign (id userId : Uuid) (level : String) (role : Uuid) (hm : db.members.get? k = some m)
    (hrole : db.roleManages m.roleId = true) (hleaves : k = (id, userId) → db.roleManages role = true) :
  ∃ m', (db.assign id userId level role).members.get? k = some m'
    ∧ (db.assign id userId level role).roleManages m'.roleId = true
  := by
  unfold assign
  dsimp only
  rw [Table.get?_set]
  split
  · rename_i hk
    subst hk
    rw [hm]
    exact ⟨_, rfl, hleaves rfl⟩
  · exact ⟨m, hm, hrole⟩

/-- Giving a member of the team another role leaves managers as the call does. -/
theorem roleManages_updateMember {req : UpdateTeamMemberRequest}
    (h : db.updateMember auth id userId req = .ok db') (hm : db.members.get? k = some m)
    (hrole : db.roleManages m.roleId = true)
    (hleaves : (RoleCall.updateMember userId req).LeavesManaging db auth id m) :
  ∃ m', db'.members.get? k = some m' ∧ db'.roleManages m'.roleId = true
  := by
  obtain ⟨me, hme, h⟩ := bind_eq_ok.mp h
  obtain ⟨target, -, h⟩ := bind_eq_ok.mp h
  obtain ⟨⟨newRole, slug, level⟩, hasked, h⟩ := bind_eq_ok.mp h
  have hkey : (m.teamId, m.userId) = k := Table.key_of_get? hm
  have hleaves : k.1 = id → (k.2 = userId → db.roleManages newRole = true)
      ∧ (k.2 = auth.userId → k.2 ≠ userId → level = .owner →
        ∀ adminRole ∈ (db.roleIdForLevel id .admin).toOption, db.roleManages adminRole = true) := by
    subst hkey
    exact fun hteam => hleaves hteam (newRole, slug, level) (by rw [hasked]; rfl)
  dsimp only at h
  split at h
  · rename_i howner
    obtain ⟨-, h⟩ := check_eq_ok.mp h
    obtain ⟨hself, h⟩ := check_eq_ok.mp h
    obtain ⟨adminRole, hadmin, h⟩ := bind_eq_ok.mp h
    cases h
    obtain ⟨m₁, hm₁, hrole₁⟩ := roleManages_assign id auth.userId "admin" adminRole hm hrole (by
        rintro rfl
        exact (hleaves rfl).2 rfl (fun h => hself h.symm) howner adminRole (by rw [hadmin]; rfl))
    exact roleManages_assign _ _ "owner" _ hm₁ hrole₁ (by
      rintro rfl
      exact (hleaves rfl).1 rfl)
  · obtain ⟨-, h⟩ := check_eq_ok.mp h
    obtain ⟨-, h⟩ := check_eq_ok.mp h
    obtain ⟨_, -, h⟩ := bind_eq_ok.mp h
    cases h
    exact roleManages_assign _ _ _ _ hm hrole (by
      rintro rfl
      exact (hleaves rfl).1 rfl)

end

end TeamDb

/-- A call that leaves a member a manager by the team role does so. -/
theorem RoleCall.roleManages_run {db db' : TeamDb} {auth : Auth} {id : Uuid} {call : RoleCall}
    {k : Uuid × Uuid} {m : TeamMemberRow} (h : call.run db auth id = .ok db')
    (hm : db.members.get? k = some m) (hrole : db.roleManages m.roleId = true)
    (hleaves : call.LeavesManaging db auth id m) :
  ∃ m', db'.members.get? k = some m' ∧ db'.roleManages m'.roleId = true
  := by
  obtain ⟨me, -, heffect⟩ := effect_of_run h
  cases call with
  | create req roleId =>
    cases heffect with
    | create hteam hbuiltin hgrant hins =>
    refine ⟨m, hm, ?_⟩
    have hsome : (db.roles.get? m.roleId).isSome = true := by
      unfold TeamDb.roleManages at hrole
      cases hget : db.roles.get? m.roleId with
      | none => simp [hget] at hrole
      | some r => rfl
    unfold TeamDb.roleManages
    dsimp only
    rw [Table.get?_insert hins, if_neg]
    · exact hrole
    · intro heq
      have hnone := Table.insert_isSome_iff.mp (by rw [hins]; rfl)
      rw [heq, hnone] at hsome
      cases hsome
  | update roleId req =>
    obtain ⟨x, hx, rfl⟩ := map_eq_ok.mp h
    obtain ⟨hmembers, hmanages⟩ := TeamDb.roleManages_update hx hrole hleaves
    exact ⟨m, by rw [hmembers]; exact hm, hmanages⟩
  | delete roleId reassignTo =>
    cases heffect with
    | delete hcur hbuiltin htarget hne hr hdrop =>
    exact TeamDb.roleManages_delete hcur hbuiltin hne hdrop hm hrole
      (fun hteam heq => hleaves hteam heq _ htarget)
  | setDefault roleId =>
    cases heffect
    exact ⟨m, hm, hrole⟩
  | setMappings req =>
    cases heffect
    exact ⟨m, hm, hrole⟩
  | updateMember userId req => exact TeamDb.roleManages_updateMember h hm hrole hleaves
  | createInvite side ssoDomains req inviteId expiresAt =>
    cases heffect
    exact ⟨m, hm, hrole⟩

end

/-! ### Who manages after a write -/

namespace Db

section
variable {db : Db} {vaultId userId : Uuid}

/-- Who manages still does when the role in the vault stays, or the team role makes a manager. -/
theorem Manages.withMembers (h : db.Manages vaultId userId) {members : Table VaultMember}
    (hkept : db.teamManages vaultId userId = true
      ∨ (db.vaultManages vaultId userId = true →
        { db with vaultMembers := members }.vaultManages vaultId userId = true)) :
  { db with vaultMembers := members }.Manages vaultId userId
  := by
  obtain ⟨hlive, hmeets, hrole⟩ := manages_iff.mp h
  refine manages_iff.mpr ⟨hlive, hmeets, ?_⟩
  have hteam : { db with vaultMembers := members }.teamManages vaultId userId
      = db.teamManages vaultId userId := rfl
  rw [hteam, Bool.or_eq_true]
  rcases hkept with hkept | hkept
  · exact .inl hkept
  · exact ((Bool.or_eq_true _ _).mp hrole).imp_right hkept

/-- Who manages still does when a role in the vault or the new team role makes a manager. -/
theorem Manages.withTeam (h : db.Manages vaultId userId) {members : Table TeamMember}
    (hkept : db.vaultManages vaultId userId = true
      ∨ { db with teamMembers := members }.teamManages vaultId userId = true) :
  { db with teamMembers := members }.Manages vaultId userId
  := by
  obtain ⟨hlive, hmeets, -⟩ := manages_iff.mp h
  refine manages_iff.mpr ⟨hlive, hmeets, ?_⟩
  rw [Bool.or_eq_true]
  exact hkept.symm

/-- The members of a team with the permissions of their roles, one by one. -/
theorem get?_teamMembers (team : TeamDb) (k : Uuid × Uuid) :
  team.teamMembers.get? k = (team.members.get? k).map (fun m =>
    ⟨m.teamId, m.userId, m.role, (team.roles.get? m.roleId).map TeamRoleRow.permissions⟩)
  := by
  simp only [Table.get?, TeamDb.teamMembers, List.find?_map]
  rfl

/-- The team role makes a manager when the role of the member in the team of the vault does. -/
theorem teamManages_eq (team : TeamDb) (h : db.teamMembers = team.teamMembers) :
  db.teamManages vaultId userId
    = (((db.vaults.get? vaultId).bind VaultRow.teamId).bind (fun t => team.members.get? (t, userId))).any
      (fun m => team.roleManages m.roleId)
  := by
  unfold teamManages
  rw [h]
  cases (db.vaults.get? vaultId).bind VaultRow.teamId with
  | none => rfl
  | some t =>
    simp only [Option.bind_some, get?_teamMembers]
    cases team.members.get? (t, userId) with
    | none => rfl
    | some m =>
      simp only [Option.map_some, Option.any_some, TeamDb.roleManages]
      cases team.roles.get? m.roleId <;> rfl

end

end Db

/-! ### Requests side by side -/

/-- A server with the requests that write the members of vaults. `db.teamMembers` are the members of
`team`; `expiresAt (v, u)` is a column of the member `u` of vault `v`. -/
structure ManagedServer where
  db : Db
  team : TeamDb
  expiresAt : Uuid × Uuid → Option DateTime
  threads : ℕ → Handler

/-- A request about the members of a vault. -/
inductive ManageRequest
  | upsertMember (auth : Auth) (userId : Uuid) (req : VaultMemberUpsert)
  | removeMember (auth : Auth) (userId : Uuid)

/-- A request comes in, runs its next statement or stops where it is, memberships that have expired
are dropped, or a call changes the roles of a team. -/
inductive ManageStep
  | receive (thread : ℕ) (req : ManageRequest)
  | run (thread : ℕ)
  | stop (thread : ℕ)
  | expire (now : DateTime)
  | roleCall (auth : Auth) (teamId : Uuid) (call : RoleCall)

namespace ManagedServer

/-- Whether a membership has expired. -/
def expired (s : ManagedServer) (now : DateTime) (m : VaultMember) : Bool :=
  (s.expiresAt (m.vaultId, m.userId)).any (fun t => decide (t < now))
    && (s.db.vaults.get? m.vaultId).isSome

/-- The server after a statement, which inserts members that do not expire. -/
def after (s : ManagedServer) (thread : ℕ) (db : Db) (k : Handler) : ManagedServer :=
  { s with
    db
    expiresAt := fun key =>
      if (s.db.vaultMembers.get? key).isNone then none else s.expiresAt key
    threads := Function.update s.threads thread k }

end ManagedServer

section
variable [Primitives] [Names]

/-- The handler of a request about a vault. -/
def ManageRequest.handler (id : Uuid) : ManageRequest → Handler
  | .upsertMember auth userId req => Server.upsertMember auth id userId req
  | .removeMember auth userId => Server.removeMember auth id userId

/-- The server after a step, when the step is possible. -/
def ManagedServer.step (id : Uuid) (s : ManagedServer) : ManageStep → Option ManagedServer
  | .receive thread req =>
    match s.threads thread with
    | .done _ => some { s with threads := Function.update s.threads thread (req.handler id) }
    | _ => none
  | .run thread =>
    (Shared.exec ⟨s.db, none⟩ thread (s.threads thread)).map (fun (shared, k) =>
      s.after thread shared.db k)
  | .stop thread =>
    some { s with threads := Function.update s.threads thread (.done (.error .internal)) }
  | .expire now =>
    some { s with db := { s.db with vaultMembers := s.db.vaultMembers.delete (s.expired now) } }
  | .roleCall auth teamId call =>
    match call.run s.team auth teamId with
    | .error _ => some s
    | .ok team => some { s with team, db := { s.db with teamMembers := team.teamMembers } }

/-- The runs of requests about one vault, from a server where someone may manage it. -/
def managedSystem (id : Uuid) : TransitionSystem ManagedServer ManageStep where
  init s := s.db.teamMembers = s.team.teamMembers ∧ (∃ userId, s.db.Manages id userId)
    ∧ ∀ thread, s.threads thread = .done (.ok .noContent)
  step := ManagedServer.step id

end

/-- A statement leaves someone who may manage: whoever loses the role of manager is one by the team
role too, or someone else may manage the vault. -/
def Handler.LeavesManager (db : Db) (id : Uuid) : Handler → Prop
  | .upsertMember m _ => m.vaultId = id → m.role = .manager ∨ db.teamManages id m.userId = true
    ∨ ∃ userId, db.Manages id userId ∧ userId ≠ m.userId
  | .deleteMember vaultId loser _ => vaultId = id → db.teamManages id loser = true
    ∨ ∃ userId, db.Manages id userId ∧ userId ≠ loser
  | _ => True

/-- A step leaves someone who may manage: a statement does, someone who may manage is so by the team
role or by a membership that has not expired, and someone is so by the role in the vault or by a team
role that a call leaves. -/
def LeavesManager [Names] (id : Uuid) (s : ManagedServer) : ManageStep → Prop
  | .run thread => (s.threads thread).LeavesManager s.db id
  | .expire now => ∃ userId, s.db.Manages id userId ∧ (s.db.teamManages id userId = true
    ∨ ∀ m ∈ s.db.vaultMembers.get? (id, userId), s.expired now m = false)
  | .roleCall auth teamId call => ∃ userId, s.db.Manages id userId
    ∧ (s.db.vaultManages id userId = true
      ∨ ∀ m ∈ ((s.db.vaults.get? id).bind VaultRow.teamId).bind (fun t =>
          s.team.members.get? (t, userId)),
        call.LeavesManaging s.team auth teamId m)
  | .receive .. | .stop _ => True

instance (db : Db) (id : Uuid) : ∀ h : Handler, Decidable (h.LeavesManager db id)
  | .upsertMember .. | .deleteMember .. => inferInstanceAs (Decidable (_ → _ ∨ _))
  | .done _ | .select _ | .resealMember .. | .beginRotation .. | .clearMembers .. | .clearBridges ..
  | .sealMember .. | .commit _ => .isTrue trivial

instance [Names] (db : TeamDb) (auth : Auth) (id : Uuid) (m : TeamMemberRow) :
    ∀ call : RoleCall, Decidable (call.LeavesManaging db auth id m)
  | .update .. | .delete .. | .updateMember .. => inferInstanceAs (Decidable (_ → _))
  | .create .. | .setDefault .. | .setMappings .. | .createInvite .. => .isTrue trivial

instance [Names] (id : Uuid) (s : ManagedServer) : ∀ l : ManageStep, Decidable (LeavesManager id s l)
  | .run thread => inferInstanceAs (Decidable ((s.threads thread).LeavesManager s.db id))
  | .expire _ | .roleCall .. => inferInstanceAs (Decidable (∃ u, s.db.Manages id u ∧ _))
  | .receive .. | .stop _ => .isTrue trivial

/-! ### Runs -/

section
variable {id : Uuid} {s s' : ManagedServer}

/-- A statement that leaves someone who may manage leaves a manager, and what else decides who may
manage. -/
theorem exists_manages_exec {db : Db} {thread : ℕ} {h k : Handler} {shared : Shared}
    (hexec : Shared.exec ⟨db, none⟩ thread h = some (shared, k)) (hleaves : h.LeavesManager db id)
    (hmanaged : ∃ userId, db.Manages id userId) :
  shared.db.teamMembers = db.teamMembers ∧ ∃ userId, shared.db.Manages id userId
  := by
  obtain ⟨userId, hmanages⟩ := hmanaged
  have hkeep : ∀ {members : Table VaultMember} {u : Uuid},
      members.get? (id, u) = db.vaultMembers.get? (id, u) → db.Manages id u →
      { db with vaultMembers := members }.Manages id u := by
    intro members u hget hu
    apply hu.withMembers
    right
    unfold Db.vaultManages
    dsimp only
    rw [hget]
    exact fun h => h
  have hother : ∀ {members : Table VaultMember} {loser : Uuid},
      (∀ u, u ≠ loser → members.get? (id, u) = db.vaultMembers.get? (id, u)) →
      (db.teamManages id loser = true ∨ ∃ u, db.Manages id u ∧ u ≠ loser) →
      ∃ u, { db with vaultMembers := members }.Manages id u := by
    rintro members loser hget (hteam | ⟨u, hu, hne⟩)
    · by_cases hne : userId = loser
      · subst hne
        exact ⟨userId, hmanages.withMembers (.inl hteam)⟩
      · exact ⟨userId, hkeep (hget userId hne) hmanages⟩
    · exact ⟨u, hkeep (hget u hne) hu⟩
  cases h with
  | done result => cases hexec
  | select f =>
    cases hexec
    exact ⟨rfl, userId, hmanages⟩
  | upsertMember m f =>
    simp only [Shared.exec, Shared.locked, Option.any_none, Bool.false_eq_true, if_false] at hexec
    split at hexec
    · cases hexec
      exact ⟨rfl, userId, hmanages⟩
    cases hexec
    refine ⟨rfl, ?_⟩
    have hget : ∀ u, (Shared.upserted ⟨db, none⟩ m).get? (id, u)
        = if (id, u) = (m.vaultId, m.userId) then
            some (((db.vaultMembers.get? (id, u)).map (fun m' =>
              { m' with role := m.role, sealedKey := m.sealedKey, keyVersion := m.keyVersion })).getD m)
          else db.vaultMembers.get? (id, u) := fun u => Table.get?_upsert _ _ _ _ _
    by_cases hvault : m.vaultId = id
    · rcases hleaves hvault with hrole | hleaves
      · refine ⟨userId, hmanages.withMembers (.inr fun hv => ?_)⟩
        unfold Db.vaultManages at hv ⊢
        dsimp only
        rw [hget]
        split
        · cases db.vaultMembers.get? (id, userId) <;> simp [hrole]
        · exact hv
      · apply hother (fun u hne => ?_) hleaves
        rw [hget, if_neg]
        exact fun heq => hne (congrArg Prod.snd heq)
    · refine ⟨userId, hkeep ?_ hmanages⟩
      rw [hget, if_neg]
      exact fun heq => hvault (congrArg Prod.fst heq).symm
  | resealMember vaultId member sealedKey keyVersion f =>
    simp only [Shared.exec, Shared.locked, Option.any_none, Bool.false_eq_true, if_false] at hexec
    cases hexec
    refine ⟨rfl, userId, hmanages.withMembers (.inr fun hv => ?_)⟩
    unfold Db.vaultManages Shared.resealed at *
    dsimp only
    rw [Table.get?_set]
    split
    · rename_i heq
      rw [← heq]
      cases hm : db.vaultMembers.get? (id, userId) with
      | none => simp [hm] at hv
      | some m =>
        rw [hm] at hv
        simp only [Option.map_some, Option.any_some] at hv ⊢
        split <;> exact hv
    · exact hv
  | deleteMember vaultId loser f =>
    simp only [Shared.exec, Shared.locked, Option.any_none, Bool.false_eq_true, if_false] at hexec
    cases hexec
    refine ⟨rfl, ?_⟩
    by_cases hvault : vaultId = id
    · apply hother (fun u hne => ?_) (hleaves hvault)
      rw [Table.get?_erase, if_neg]
      exact fun heq => hne (congrArg Prod.snd heq)
    · refine ⟨userId, hkeep ?_ hmanages⟩
      rw [Table.get?_erase, if_neg]
      exact fun heq => hvault (congrArg Prod.fst heq).symm
  | beginRotation vaultId newVersion baseVersion f =>
    simp only [Shared.exec, Option.isSome_none, Bool.false_eq_true, if_false] at hexec
    split at hexec <;> cases hexec <;> exact ⟨rfl, userId, hmanages⟩
  | clearMembers vaultId newVersion f => cases hexec
  | clearBridges vaultId f => cases hexec
  | sealMember vaultId member sealedKey newVersion f => cases hexec
  | commit f => cases hexec

variable [Primitives] [Names]

/-- A step that leaves someone who may manage leaves a manager. -/
theorem exists_manages_step {l : ManageStep} (hview : s.db.teamMembers = s.team.teamMembers)
    (hmanaged : ∃ userId, s.db.Manages id userId) (hleaves : LeavesManager id s l)
    (hstep : (managedSystem id).step s l = some s') :
  s'.db.teamMembers = s'.team.teamMembers ∧ ∃ userId, s'.db.Manages id userId
  := by
  cases l with
  | receive thread req =>
    simp only [managedSystem, ManagedServer.step] at hstep
    split at hstep
    · cases hstep
      exact ⟨hview, hmanaged⟩
    · cases hstep
  | run thread =>
    simp only [managedSystem, ManagedServer.step] at hstep
    obtain ⟨⟨shared, k⟩, hexec, rfl⟩ := Option.map_eq_some_iff.mp hstep
    obtain ⟨hteam, hmanages⟩ := exists_manages_exec hexec hleaves hmanaged
    exact ⟨hteam.trans hview, hmanages⟩
  | stop thread =>
    cases hstep
    exact ⟨hview, hmanaged⟩
  | expire now =>
    cases hstep
    refine ⟨hview, ?_⟩
    obtain ⟨userId, hmanages, hleaves⟩ := hleaves
    refine ⟨userId, hmanages.withMembers (hleaves.imp_right fun hkept hv => ?_)⟩
    unfold Db.vaultManages at hv ⊢
    dsimp only
    rw [Table.get?_delete]
    cases hm : s.db.vaultMembers.get? (id, userId) with
    | none => simp [hm] at hv
    | some m =>
      rw [hm] at hv
      rw [Option.filter_some, hkept m hm]
      exact hv
  | roleCall auth teamId call =>
    simp only [managedSystem, ManagedServer.step] at hstep
    split at hstep
    · cases hstep
      exact ⟨hview, hmanaged⟩
    · rename_i team hrun
      cases hstep
      refine ⟨rfl, ?_⟩
      obtain ⟨userId, hmanages, hleaves⟩ := hleaves
      refine ⟨userId, hmanages.withTeam ?_⟩
      rcases hleaves with hv | hleaves
      · exact .inl hv
      · by_cases hv : s.db.vaultManages id userId = true
        · exact .inl hv
        right
        have hteam : s.db.teamManages id userId = true := by
          have := (Db.manages_iff.mp hmanages).2.2
          rw [Bool.or_eq_true] at this
          exact this.resolve_right hv
        rw [Db.teamManages_eq s.team hview] at hteam
        rw [Db.teamManages_eq team rfl]
        cases ht : (s.db.vaults.get? id).bind VaultRow.teamId with
        | none => simp [ht] at hteam
        | some t =>
          rw [ht] at hteam hleaves
          simp only [Option.bind_some] at hteam hleaves ⊢
          cases hm : s.team.members.get? (t, userId) with
          | none => simp [hm] at hteam
          | some m =>
            rw [hm] at hteam
            obtain ⟨m', hm', hmanages'⟩ := RoleCall.roleManages_run hrun hm hteam (hleaves m hm)
            rw [hm']
            exact hmanages'

omit [Primitives] in
/-- While someone who has the factors asked for is a manager by the team role, as an owner is, only
calls about roles can leave no one. -/
theorem leavesManager_of_teamManages {userId : Uuid} (h : s.db.Manages id userId)
    (hteam : s.db.teamManages id userId = true) {l : ManageStep}
    (hcall : ∀ auth teamId call, l ≠ .roleCall auth teamId call) :
  LeavesManager id s l
  := by
  have hloser : ∀ loser, s.db.teamManages id loser = true ∨ ∃ u, s.db.Manages id u ∧ u ≠ loser := by
    intro loser
    by_cases hl : userId = loser
    · exact .inl (hl ▸ hteam)
    · exact .inr ⟨userId, h, hl⟩
  cases l with
  | receive thread req => trivial
  | run thread =>
    change (s.threads thread).LeavesManager s.db id
    cases s.threads thread with
    | upsertMember m f => exact fun _ => .inr (hloser m.userId)
    | deleteMember vaultId loser f => exact fun _ => hloser loser
    | _ => trivial
  | stop thread => trivial
  | expire now => exact ⟨userId, h, .inl hteam⟩
  | roleCall auth teamId call => exact absurd rfl (hcall auth teamId call)

end

/-! ### Two managers -/

open Symbolic

/-- A vault with two managers who have a second factor, which the team asks for and its owner
lacks. -/
def twoManagers : ManagedServer where
  db :=
    { sharedVault.db with
      users := ⟨[⟨1, "owner", none, none, false, false, 0, 0⟩,
        ⟨2, "first", none, none, true, false, 0, 0⟩,
        ⟨4, "second", none, none, true, false, 0, 0⟩], by decide⟩
      vaultMembers := ⟨[⟨9, 2, .manager, some sealedText, 1⟩, ⟨9, 4, .manager, some sealedText, 1⟩],
        by decide⟩
      teamMembers := ⟨[⟨3, 1, "owner", some ["*"]⟩, ⟨3, 2, "member", some []⟩,
        ⟨3, 4, "member", some []⟩], by decide⟩
      teamPolicies := ⟨[⟨3, "any", 0⟩], by decide⟩ }
  team :=
    { roles := ⟨[⟨30, 3, "owner", "Owner", "", ["*"], true, 0⟩,
        ⟨31, 3, "member", "Member", "", [], true, 20⟩], by decide⟩
      teams := ⟨[⟨3, 1, some 31⟩], by decide⟩
      members := ⟨[⟨3, 1, "owner", 30, "manual"⟩, ⟨3, 2, "member", 31, "manual"⟩,
        ⟨3, 4, "member", 31, "manual"⟩], by decide⟩
      mappings := .empty
      invites := .empty
      idps := .empty
      identities := .empty }
  expiresAt _ := none
  threads _ := .done (.ok .noContent)

theorem init_twoManagers :
  (@managedSystem _ plainNames 9).init twoManagers
  := by
  refine ⟨?_, ⟨2, by decide⟩, fun _ => rfl⟩
  apply Table.ext
  rfl

/-- A manager makes the other one an editor. -/
def demoteSecond : ManageStep :=
  .receive 0 (.upsertMember ⟨2, 1, none⟩ 4 ⟨4, .editor, sealedText⟩)

def demoteFirst : ManageStep :=
  .receive 1 (.upsertMember ⟨4, 1, none⟩ 2 ⟨2, .editor, sealedText⟩)

end Termoso.Server
