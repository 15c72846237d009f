import Termoso.Lib.Locks
import Termoso.Lib.Threads
import Termoso.Server.RoleCalls

/-!
# The owner of a team

Who owns a team is kept three times: as the level of a member, as the role of that member, and in
the row of the team.  The calls that change the members of one team run their statements one by
one between those of the others.  A transaction keeps what it writes to itself until it commits,
and locks the rows it wrote; a statement waits for the rows that others have locked.

The calls check levels before they write.  In runs in which what was checked still holds when it is
written, the three records agree on one owner.
-/

namespace Termoso.Server

/-! ### Locks -/

/-- A row that a transaction wrote, or that one it wrote refers to. -/
inductive TeamLock
  | member (userId : Uuid)
  | team
  | role (id : Uuid)
  | roleShare (id : Uuid)
deriving DecidableEq

/-- Locks that two transactions cannot both hold. -/
def TeamLock.conflicts : TeamLock → TeamLock → Bool
  | .roleShare _, .roleShare _ => false
  | .role r, .roleShare r' | .roleShare r, .role r' => decide (r = r')
  | l, l' => decide (l = l')

instance : Lockable TeamLock := ⟨TeamLock.conflicts⟩

/-- A lock on a member is for one transaction. -/
theorem conflicts_member (u : Uuid) :
  Lockable.conflicts (TeamLock.member u) (TeamLock.member u) = true
  := by simp [Lockable.conflicts, TeamLock.conflicts]

/-- The tables as committed, and the locks with the threads that hold them. -/
structure TeamStore where
  db : TeamDb
  locks : HeldLocks TeamLock

namespace TeamStore

variable (s : TeamStore)

/-- Whether a thread waits for a lock. -/
def waits (i : ℕ) (l : TeamLock) : Bool := s.locks.waits i l

/-- Take locks. -/
def lock (i : ℕ) (ls : List TeamLock) : TeamStore := { s with locks := s.locks.take i ls }

/-- End a transaction. -/
def release (i : ℕ) : TeamStore := { s with locks := s.locks.release i }

end TeamStore

/-! ### Statements -/

namespace TeamDb

/-- A member of a team. -/
def isMember (db : TeamDb) (id userId : Uuid) : Bool := (db.members.get? (id, userId)).isSome

/-- The members of a team who hold a role. -/
def holders (db : TeamDb) (id roleId : Uuid) : List Uuid :=
  (db.members.select (fun m => decide (m.teamId = id) && decide (m.roleId = roleId))).map
    TeamMemberRow.userId

/-- Move some members of a team to a role and level. -/
def moved (db : TeamDb) (id : Uuid) (users : List Uuid) (roleId : Uuid) (level : String) : TeamDb :=
  { db with
    members := db.members.update (fun m => decide (m.teamId = id) && decide (m.userId ∈ users))
      (fun m => { m with roleId := roleId, role := level }) (fun _ => rfl) }

theorem key_owned (userId : Uuid) (t : TeamRow) : key { t with ownerId := userId } = key t := rfl

/-- Name the owner of a team. -/
def withOwner (db : TeamDb) (id userId : Uuid) : TeamDb :=
  { db with teams := db.teams.set id (fun t => { t with ownerId := userId }) (key_owned userId) }

/-- Remove a member. -/
def removed (db : TeamDb) (id userId : Uuid) : TeamDb :=
  { db with members := db.members.erase (id, userId) }

end TeamDb

/-! ### Calls -/

/-- A transfer of ownership, and which of its members were there when they were written. -/
structure Transfer where
  actor : Uuid
  userId : Uuid
  adminRole : Uuid
  ownerRole : Uuid
  demoted : Bool
  promoted : Bool
deriving DecidableEq

/-- A role to delete, with the one its members are moved to, the level that goes with that, the
members who were moved, and whether it was the default. -/
structure RoleDeletion where
  roleId : Uuid
  target : Uuid
  level : String
  users : List Uuid
  wasDefault : Bool
deriving DecidableEq

/-- The tables after a transfer. -/
def Transfer.committed (t : Transfer) (id : Uuid) (db : TeamDb) : TeamDb :=
  let db := if t.demoted then db.assign id t.actor "admin" t.adminRole else db
  let db := if t.promoted then db.assign id t.userId "owner" t.ownerRole else db
  db.withOwner id t.userId

/-- The tables after the members of a role and the default were moved. -/
def RoleDeletion.reassigned (d : RoleDeletion) (id : Uuid) (db : TeamDb) : TeamDb :=
  let db := db.moved id d.users d.target d.level
  if d.wasDefault then db.withDefault id d.target else db

/-- How far a call has come. -/
inductive TeamCall
  | done (answer : Option (Except Error Unit))
  | updateMe (actor userId : Uuid) (req : UpdateTeamMemberRequest)
  | updateTarget (me : Membership) (userId : Uuid) (req : UpdateTeamMemberRequest)
  | updateRole (me target : Membership) (req : UpdateTeamMemberRequest)
  | transferAdmin (actor userId ownerRole : Uuid)
  | transferDemote (t : Transfer)
  | transferPromote (t : Transfer)
  | transferOwner (t : Transfer)
  | transferCommit (t : Transfer)
  | assignCheck (me : Membership) (userId roleId : Uuid) (slug : String) (level : TeamRole)
  | assignUpdate (userId roleId : Uuid) (level : TeamRole)
  | removeMe (actor userId : Uuid)
  | removeTarget (userId : Uuid)
  | leaveMe (userId : Uuid)
  | removeDelete (userId : Uuid)
  /-- About to commit the removal of a member, who was there or not. -/
  | removeCommit (userId : Uuid) (there : Bool)
  | deleteMe (actor roleId : Uuid) (reassignTo : Option Uuid)
  | deleteCurrent (me : Membership) (roleId : Uuid) (reassignTo : Option Uuid)
  | deleteTarget (roleId : Uuid) (reassignTo : Option Uuid)
  | deleteLoad (roleId target : Uuid)
  | deleteMove (roleId target : Uuid)
  | deleteDefault (d : RoleDeletion)
  | deleteRole (d : RoleDeletion)
  | deleteCommit (d : RoleDeletion)
  | groupSelect (userId : Uuid) (groups : List String) (source : String)
  | groupUpdate (userId roleId : Uuid) (source : String)

/-- A call is made, drops out, or runs its next statement. -/
inductive TeamCallStep
  | updateMember (auth : Auth) (userId : Uuid) (req : UpdateTeamMemberRequest)
  | removeMember (auth : Auth) (userId : Uuid)
  | leave (auth : Auth)
  | deleteRole (auth : Auth) (roleId : Uuid) (reassignTo : Option Uuid)
  | applyGroupMappings (userId : Uuid) (groups : List String) (source : String)
  | drop
  | next

/-- What else happens to the team: somebody joins with the default role or another one but the
owner's, a role is added or edited, the default is set, or the mappings are replaced. -/
inductive TeamEvent
  | join (userId roleId : Uuid) (source : String)
  | createRole (roleId : Uuid) (slug name description : String) (permissions : List String)
  | editRole (roleId : Uuid) (name description : String) (permissions : List String) (position : ℤ)
  | setDefault (roleId : Uuid)
  | setMappings (mappings : Table RoleMappingRow)

section
variable [Names] (id : Uuid)

/-- What a call begins with. -/
def TeamCallStep.start : TeamCallStep → Option TeamCall
  | .updateMember auth userId req => some (.updateMe auth.userId userId req)
  | .removeMember auth userId => some (.removeMe auth.userId userId)
  | .leave auth => some (.leaveMe auth.userId)
  | .deleteRole auth roleId reassignTo => some (.deleteMe auth.userId roleId reassignTo)
  | .applyGroupMappings userId groups source => some (.groupSelect userId groups source)
  | .drop | .next => none

/-- Go on with the value that was read, or end with the error. -/
def TeamStore.read {α : Type} (s : TeamStore) (x : Except Error α) (k : α → TeamCall) :
    Option (TeamStore × TeamCall) :=
  match x with
  | .ok a => some (s, k a)
  | .error e => some (s, .done (some (.error e)))

/-- End with an error when a condition does not hold. -/
def TeamCall.unless (p : Prop) [Decidable p] (e : Error) (call : TeamCall) : TeamCall :=
  if p then .done (some (.error e)) else call

/-- What follows when the role asked for is known. -/
def TeamCall.resolved (me target : Membership) (roleId : Uuid) (slug : String) (level : TeamRole) :
    TeamCall :=
  if level = .owner then
    .unless (me.level ≠ .owner) (.forbidden "Only the owner can transfer ownership")
      (.unless (target.userId = me.userId) (.badRequest "You already own this team")
        (.transferAdmin me.userId target.userId roleId))
  else
    .unless (!me.has "members.role") (denied "members.role")
      (.unless (target.level = .owner) (.forbidden "Transfer ownership first")
        (.assignCheck me target.userId roleId slug level))

/-- The next statement of a call about a team. -/
def TeamCall.next (i : ℕ) (s : TeamStore) : TeamCall → Option (TeamStore × TeamCall)
  | .done _ => none
  | .updateMe actor userId req =>
    s.read (s.db.membership id actor) (fun me => .updateTarget me userId req)
  | .updateTarget me userId req =>
    s.read ((s.db.membership id userId).mapError (fun _ => .notFound "Member"))
      (fun target => .updateRole me target req)
  | .updateRole me target req =>
    s.read (s.db.requestedRole id req) (fun r => .resolved me target r.1 r.2.1 r.2.2)
  | .transferAdmin actor userId ownerRole =>
    s.read (s.db.roleIdForLevel id .admin)
      (fun adminRole => .transferDemote ⟨actor, userId, adminRole, ownerRole, false, false⟩)
  | .transferDemote t =>
    if !s.db.isMember id t.actor then some (s, .transferPromote t)
    else if s.waits i (.member t.actor) || s.waits i (.roleShare t.adminRole) then none
    else some (s.lock i [.member t.actor, .roleShare t.adminRole],
      .transferPromote { t with demoted := true })
  | .transferPromote t =>
    if !s.db.isMember id t.userId then some (s, .transferOwner t)
    else if s.waits i (.member t.userId) || s.waits i (.roleShare t.ownerRole) then none
    else some (s.lock i [.member t.userId, .roleShare t.ownerRole],
      .transferOwner { t with promoted := true })
  | .transferOwner t =>
    if s.waits i .team then none else some (s.lock i [.team], .transferCommit t)
  | .transferCommit t =>
    some ({ s with db := t.committed id s.db }.release i, .done (some (.ok ())))
  | .assignCheck me userId roleId slug level =>
    s.read (s.db.checkAssignable me roleId slug) (fun _ => .assignUpdate userId roleId level)
  | .assignUpdate userId roleId level =>
    if s.waits i (.member userId) || s.waits i (.roleShare roleId) then none
    else some ({ s with db := s.db.assign id userId (teamRoleStr level) roleId },
      .done (some (.ok ())))
  | .removeMe actor userId =>
    s.read (s.db.require id actor "members.remove") (fun _ => .removeTarget userId)
  | .removeTarget userId =>
    s.read ((s.db.membership id userId).mapError (fun _ => .notFound "Member")) (fun target =>
      .unless (target.level = .owner) (.forbidden "The owner cannot be removed")
        (.removeDelete userId))
  | .leaveMe userId =>
    s.read (s.db.membership id userId) (fun me =>
      .unless (me.level = .owner) (.forbidden "Transfer ownership before leaving")
        (.removeDelete userId))
  | .removeDelete userId =>
    if !s.db.isMember id userId then some (s, .removeCommit userId false)
    else if s.waits i (.member userId) then none
    else some (s.lock i [.member userId], .removeCommit userId true)
  | .removeCommit userId there =>
    some ({ s with db := if there then s.db.removed id userId else s.db }.release i,
      .done (some (.ok ())))
  | .deleteMe actor roleId reassignTo =>
    s.read (s.db.require id actor "roles.manage") (fun me => .deleteCurrent me roleId reassignTo)
  | .deleteCurrent me roleId reassignTo =>
    s.read (s.db.loadRole id roleId) (fun cur =>
      .unless cur.builtin (.badRequest "Built-in roles cannot be deleted")
        (.unless (me.role.id = roleId) (.badRequest "You cannot delete your own role")
          (.deleteTarget roleId reassignTo)))
  | .deleteTarget roleId reassignTo =>
    s.read (reassignTo.elim (s.db.defaultRoleId id) .ok) (fun target =>
      .unless (target = roleId) (.badRequest "Pick a different role to move members to")
        (.deleteLoad roleId target))
  | .deleteLoad roleId target =>
    s.read (s.db.loadRole id target) (fun _ => .deleteMove roleId target)
  | .deleteMove roleId target =>
    let users := s.db.holders id roleId
    let locks := .roleShare target :: users.map TeamLock.member
    if locks.any (s.waits i) then none
    else some (s.lock i locks,
      .deleteDefault ⟨roleId, target, s.db.levelOf target, users, false⟩)
  | .deleteDefault d =>
    if (s.db.teams.get? id).bind TeamRow.defaultRoleId ≠ some d.roleId then
      some (s, .deleteRole d)
    else if s.waits i .team then none
    else some (s.lock i [.team], .deleteRole { d with wasDefault := true })
  | .deleteRole d =>
    if s.waits i (.role d.roleId) then none
    else
      match (d.reassigned id s.db).dropRole id d.roleId with
      | .error e => some (s.release i, .done (some (.error e)))
      | .ok _ => some (s.lock i [.role d.roleId], .deleteCommit d)
  | .deleteCommit d =>
    match (d.reassigned id s.db).dropRole id d.roleId with
    | .error e => some (s.release i, .done (some (.error e)))
    | .ok db => some ({ s with db := db }.release i, .done (some (.ok ())))
  | .groupSelect userId groups source =>
    match (s.db.members.get? (id, userId)).filter (fun m => decide (m.role ≠ "owner")) with
    | none => some (s, .done (some (.ok ())))
    | some m =>
      match s.db.groupTarget (TeamDb.lowered groups) m with
      | none => some (s, .done (some (.ok ())))
      | some target =>
        if target = m.roleId ∧ m.roleSource = source then some (s, .done (some (.ok ())))
        else some (s, .groupUpdate userId target source)
  | .groupUpdate userId roleId source =>
    if s.waits i (.member userId) || s.waits i (.roleShare roleId) then none
    else some ({ s with db := s.db.setGroupRole id userId roleId source }, .done (some (.ok ())))

/-- A step of a call. One that drops out ends its transaction. -/
def TeamCall.exec (i : ℕ) : TeamCallStep → TeamStore → TeamCall → Option (TeamStore × TeamCall)
  | .next, s, call => call.next id i s
  | .drop, s, _ => some (s.release i, .done none)
  | step, s, .done _ => step.start.map (fun call => (s, call))
  | _, _, _ => none

/-- What else happens to a team. A statement waits for the rows that a transaction has locked. -/
def TeamEvent.apply (s : TeamStore) : TeamEvent → Option TeamStore
  | .join userId roleId source =>
    if s.locks.blocks (.member userId) || s.locks.blocks (.roleShare roleId) then none
    else if s.db.grantable id roleId
        || decide ((s.db.teams.get? id).bind TeamRow.defaultRoleId = some roleId) then
      some { s with db := s.db.joinTeam id userId roleId source }
    else none
  | .createRole roleId slug name description permissions =>
    match s.db.insertRole ⟨roleId, id, slug, name, description, permissions, false, 100⟩ with
    | .ok db => some { s with db := db }
    | .error _ => none
  | .editRole roleId name description permissions position =>
    if s.locks.blocks (.role roleId) then none
    else some { s with db := s.db.setRole id roleId name description permissions position }
  | .setDefault roleId =>
    if s.locks.blocks .team || s.locks.blocks (.roleShare roleId) then none
    else if s.db.grantable id roleId then some { s with db := s.db.withDefault id roleId } else none
  | .setMappings mappings => some { s with db := { s.db with mappings := mappings } }

/-- The calls about a team, from when it is created. -/
def teamCalls : Threads TeamStore TeamCall TeamCallStep TeamEvent where
  init s := (∃ owner ownerRole, s.db.IsNew id owner ownerRole) ∧ s.locks = []
  start call := call = .done none
  exec i := TeamCall.exec id i
  env e s := e.apply id s

end

/-! ### What is to hold -/

/-- One member of a team has the level of the owner, that member has the owner's role, nobody else
does, and the row of the team names that member. -/
def TeamDb.OneOwner (db : TeamDb) (id : Uuid) : Prop :=
  ∃ ownerRole owner, db.builtinRoleId id "owner" = some ownerRole
    ∧ (db.teams.get? id).map TeamRow.ownerId = some owner
    ∧ (∃ m, db.members.get? (id, owner) = some m ∧ m.role = "owner" ∧ m.roleId = ownerRole)
    ∧ ∀ m ∈ db.members.rows, m.teamId = id → m.role = "owner" ∨ m.roleId = ownerRole →
      m.userId = owner

/-! ### Checks that still hold -/

/-- The level of a member is the owner's. -/
def TeamDb.isOwner (db : TeamDb) (id userId : Uuid) : Bool :=
  (db.members.get? (id, userId)).any (fun m => decide (m.role = "owner"))

/-- A transfer is from who is the owner still, to somebody who is a member still; who is given
another role or removed is not the owner by now; and the members of a role are not moved to the
owner's. -/
def TeamCall.StillHolds (id : Uuid) (db : TeamDb) : TeamCall → Prop
  | .transferDemote t => db.isOwner id t.actor = true
  | .transferPromote t => db.isMember id t.userId = true
  | .assignUpdate userId _ _ => db.isOwner id userId = false
  | .removeDelete userId => db.isOwner id userId = false
  | .deleteMove _ target => db.builtinRoleId id "owner" ≠ some target
  | _ => True

def checksHold (id : Uuid) (p : Pool TeamStore TeamCall) : PoolStep TeamCallStep TeamEvent → Prop
  | .run i .next => (p.threads i).StillHolds id p.shared.db
  | _ => True

/-! ### The invariant -/

namespace TeamDb

/-- One role of the team has the slug of the owner's, it is built in, and it is not the default. -/
structure OwnerRole (db : TeamDb) (id ownerRole : Uuid) : Prop where
  row : ∃ r, db.roles.get? ownerRole = some r ∧ r.teamId = id ∧ r.slug = "owner" ∧ r.builtin = true
  slug : ∀ k r, db.roles.get? k = some r → r.teamId = id → r.slug = "owner" → k = ownerRole
  default : (db.teams.get? id).bind TeamRow.defaultRoleId ≠ some ownerRole

/-- The records of the owner agree. -/
def Owned (db : TeamDb) (id ownerRole : Uuid) : Prop :=
  ∃ owner, (db.teams.get? id).map TeamRow.ownerId = some owner
    ∧ (∃ m, db.members.get? (id, owner) = some m ∧ m.role = "owner" ∧ m.roleId = ownerRole)
    ∧ ∀ u m, db.members.get? (id, u) = some m → m.role = "owner" ∨ m.roleId = ownerRole → u = owner

variable {db db' : TeamDb} {id ownerRole roleId : Uuid}

/-- A role of the team has the slug of the owner's exactly when it is that role. -/
theorem OwnerRole.slug_iff (h : db.OwnerRole id ownerRole) {r : TeamRoleRow}
    (hr : db.teamRole id roleId = some r) :
  r.slug = "owner" ↔ roleId = ownerRole
  := by
  obtain ⟨hget, hteam⟩ := teamRole_eq_some.mp hr
  constructor
  · exact h.slug roleId r hget hteam
  · rintro rfl
    obtain ⟨r', hr', -, hslug, -⟩ := h.row
    cases hget.symm.trans hr'
    exact hslug

theorem OwnerRole.builtinRoleId (h : db.OwnerRole id ownerRole) :
  db.builtinRoleId id "owner" = some ownerRole
  := by
  obtain ⟨r, hr, hteam, hslug, hbuiltin⟩ := h.row
  have hmem : r ∈ db.roles.select (fun r => decide (r.teamId = id) && decide (r.slug = "owner")
      && r.builtin) := by
    refine List.mem_filter.mpr ⟨Table.mem_of_get? hr, ?_⟩
    simp [hteam, hslug, hbuiltin]
  cases hid : db.builtinRoleId id "owner" with
  | none =>
      unfold TeamDb.builtinRoleId at hid
      rw [Option.map_eq_none_iff, List.head?_eq_none_iff] at hid
      rw [hid] at hmem
      cases hmem
  | some k =>
      obtain ⟨r', hr', hslug', -⟩ := builtinRoleId_eq_some hid
      rw [(h.slug_iff hr').mp hslug']

/-- The owner's role stays when the roles and the default do. -/
theorem OwnerRole.of_eq (h : db.OwnerRole id ownerRole) (hroles : db'.roles = db.roles)
    (hdefault : (db'.teams.get? id).bind TeamRow.defaultRoleId
      = (db.teams.get? id).bind TeamRow.defaultRoleId) :
  db'.OwnerRole id ownerRole
  := by
  refine ⟨?_, ?_, ?_⟩
  · rw [hroles]
    exact h.row
  · rw [hroles]
    exact h.slug
  · rw [hdefault]
    exact h.default

/-- A member who is not the owner has another role. -/
theorem Owned.isOwner_iff (h : db.Owned id ownerRole) {u : Uuid} {m : TeamMemberRow}
    (hm : db.members.get? (id, u) = some m) :
  (m.role = "owner" ↔ db.isOwner id u = true) ∧ (m.roleId = ownerRole ↔ db.isOwner id u = true)
  := by
  obtain ⟨owner, -, ⟨m₀, hm₀, hlevel, hrole⟩, hothers⟩ := h
  have hiff : db.isOwner id u = true ↔ m.role = "owner" := by simp [TeamDb.isOwner, hm]
  have hsame : ∀ {p : Prop}, (p → m.role = "owner" ∨ m.roleId = ownerRole) → p → m = m₀ := by
    intro p hp hholds
    have hu : u = owner := hothers u m hm (hp hholds)
    rw [hu] at hm
    exact Option.some.inj (hm.symm.trans hm₀)
  rw [hiff]
  refine ⟨Iff.rfl, fun hr => ?_, fun hl => ?_⟩
  · rw [hsame Or.inr hr]
    exact hlevel
  · rw [hsame Or.inl hl]
    exact hrole

/-- The records agree still when the members who changed were not the owner, and none of them is
now. -/
theorem Owned.of_members (h : db.Owned id ownerRole)
    (howner : (db'.teams.get? id).map TeamRow.ownerId = (db.teams.get? id).map TeamRow.ownerId)
    (hmembers : ∀ u, db'.members.get? (id, u) = db.members.get? (id, u)
      ∨ db.isOwner id u = false ∧ ∀ m, db'.members.get? (id, u) = some m →
        m.role ≠ "owner" ∧ m.roleId ≠ ownerRole) :
  db'.Owned id ownerRole
  := by
  obtain ⟨owner, hname, ⟨m₀, hm₀, hlevel, hrole⟩, hothers⟩ := h
  refine ⟨owner, howner.trans hname, ⟨m₀, ?_, hlevel, hrole⟩, ?_⟩
  · rcases hmembers owner with heq | ⟨hnot, -⟩
    · exact heq.trans hm₀
    · rw [TeamDb.isOwner, hm₀] at hnot
      exact absurd (by simpa using hlevel) (of_decide_eq_false hnot)
  · intro u m hm hholds
    rcases hmembers u with heq | ⟨-, hnone⟩
    · exact hothers u m (heq.symm.trans hm) hholds
    · rcases hholds with hl | hr
      · exact absurd hl (hnone m hm).1
      · exact absurd hr (hnone m hm).2

/-- The records agree on one owner. -/
theorem oneOwner_of_owned (hrole : db.OwnerRole id ownerRole) (howned : db.Owned id ownerRole) :
  db.OneOwner id
  := by
  obtain ⟨owner, hname, hrow, hothers⟩ := howned
  refine ⟨ownerRole, owner, hrole.builtinRoleId, hname, hrow, ?_⟩
  rintro m hm rfl hholds
  exact hothers m.userId m (Table.get?_of_mem hm) hholds

/-! ### What statements write -/

theorem get?_assign {userId u : Uuid} {level : String} :
  (db.assign id userId level roleId).members.get? (id, u)
    = if u = userId then (db.members.get? (id, userId)).map (fun m =>
        { m with role := level, roleId := roleId, roleSource := "manual" })
      else db.members.get? (id, u)
  := by
  simp [assign]

/-- Setting the role of a member who is not the owner. -/
theorem owned_assign (h : db.Owned id ownerRole) {userId : Uuid} {level : String}
    (hnot : db.isOwner id userId = false) (hlevel : level ≠ "owner") (hrole : roleId ≠ ownerRole) :
  (db.assign id userId level roleId).Owned id ownerRole
  := by
  refine h.of_members rfl ?_
  intro u
  rw [get?_assign]
  split
  · rename_i hu
    refine .inr ⟨hu ▸ hnot, ?_⟩
    intro m hm
    obtain ⟨m', -, rfl⟩ := Option.map_eq_some_iff.mp hm
    exact ⟨hlevel, hrole⟩
  · exact .inl rfl

theorem levelOf_ne_owner :
  db.levelOf roleId ≠ "owner"
  := by
  unfold levelOf
  split <;> decide

/-- Giving a role by group leaves the owner alone. -/
theorem owned_setGroupRole (h : db.Owned id ownerRole) (hrole : db.OwnerRole id ownerRole)
    {userId : Uuid} {source : String} :
  (db.setGroupRole id userId roleId source).Owned id ownerRole
  := by
  refine h.of_members rfl ?_
  intro u
  simp only [setGroupRole, Table.get?_set, Prod.mk.injEq, true_and]
  split
  · rename_i hu
    subst hu
    cases hm : db.members.get? (id, u) with
    | none => exact .inl rfl
    | some m =>
        by_cases hgrant : m.role ≠ "owner" ∧ db.grantable id roleId
        · refine .inr ⟨?_, ?_⟩
          · rw [isOwner, hm]
            simpa using hgrant.1
          · rintro m' hm'
            rw [Option.map_some, if_pos hgrant] at hm'
            cases hm'
            refine ⟨levelOf_ne_owner, ?_⟩
            intro heq
            obtain ⟨r, hr, hslug⟩ := Option.any_eq_true _ _ |>.mp hgrant.2
            exact of_decide_eq_true hslug ((hrole.slug_iff hr).mpr heq)
        · exact .inl (by rw [Option.map_some, if_neg hgrant])
  · exact .inl rfl

/-- Somebody joins with a role that is not the owner's. -/
theorem owned_joinTeam (h : db.Owned id ownerRole) {userId : Uuid} {source : String}
    (hrole : roleId ≠ ownerRole) :
  (db.joinTeam id userId roleId source).Owned id ownerRole
  := by
  refine h.of_members rfl ?_
  intro u
  simp only [joinTeam, Table.get?_upsert, key_teamMember, Prod.mk.injEq, true_and]
  split
  · rename_i hu
    subst hu
    cases hm : db.members.get? (id, u) with
    | none =>
        refine .inr ⟨by simp [isOwner, hm], ?_⟩
        rintro m ⟨⟩
        exact ⟨levelOf_ne_owner, hrole⟩
    | some m => exact .inl rfl
  · exact .inl rfl

/-- Removing a member who is not the owner. -/
theorem owned_removed (h : db.Owned id ownerRole) {userId : Uuid}
    (hnot : db.isOwner id userId = false) :
  (db.removed id userId).Owned id ownerRole
  := by
  refine h.of_members rfl ?_
  intro u
  simp only [removed, Table.get?_erase, Prod.mk.injEq, true_and]
  split
  · rename_i hu
    refine .inr ⟨hu ▸ hnot, ?_⟩
    intro m hm
    cases hm
  · exact .inl rfl

/-- Moving members who are not the owner. -/
theorem owned_moved (h : db.Owned id ownerRole) {users : List Uuid} {level : String}
    (hnot : ∀ u ∈ users, db.isOwner id u = false) (hlevel : level ≠ "owner")
    (hrole : roleId ≠ ownerRole) :
  (db.moved id users roleId level).Owned id ownerRole
  := by
  refine h.of_members rfl ?_
  intro u
  simp only [moved, Table.get?_update]
  cases hm : db.members.get? (id, u) with
  | none => exact .inl rfl
  | some m =>
      have hkey := Table.key_of_get? hm
      rw [key_teamMember, Prod.mk.injEq] at hkey
      by_cases hu : u ∈ users
      · refine .inr ⟨hnot u hu, ?_⟩
        intro m' hm'
        rw [Option.map_some, if_pos (by simp [hkey.1, hkey.2, hu])] at hm'
        cases hm'
        exact ⟨hlevel, hrole⟩
      · exact .inl (by rw [Option.map_some, if_neg (by simp [hkey.2, hu])])

/-- A transfer makes its member the owner. -/
theorem owned_transfer {t : Transfer} (h : db.Owned id ownerRole)
    (hteam : ∃ team, db.teams.get? id = some team) (hactor : db.isOwner id t.actor = true)
    (hmember : db.isMember id t.userId = true) (hdemoted : t.demoted = true)
    (hpromoted : t.promoted = true) (hne : t.userId ≠ t.actor) (howner : t.ownerRole = ownerRole)
    (hadmin : t.adminRole ≠ ownerRole) :
  (t.committed id db).Owned id ownerRole
  := by
  have hcommitted : t.committed id db
      = ((db.assign id t.actor "admin" t.adminRole).assign id t.userId "owner" t.ownerRole).withOwner
        id t.userId := by
    unfold Transfer.committed
    rw [hdemoted, hpromoted]
    rfl
  have hget : ∀ u, (t.committed id db).members.get? (id, u)
      = if u = t.userId then (db.members.get? (id, t.userId)).map (fun m =>
          { m with role := "owner", roleId := t.ownerRole, roleSource := "manual" })
        else if u = t.actor then (db.members.get? (id, t.actor)).map (fun m =>
          { m with role := "admin", roleId := t.adminRole, roleSource := "manual" })
        else db.members.get? (id, u) := by
    intro u
    rw [hcommitted]
    change ((db.assign id t.actor "admin" t.adminRole).assign id t.userId "owner"
      t.ownerRole).members.get? (id, u) = _
    rw [get?_assign, get?_assign, get?_assign, if_neg hne]
  obtain ⟨team, hteam⟩ := hteam
  obtain ⟨m, hm⟩ := Option.isSome_iff_exists.mp hmember
  refine ⟨t.userId, ?_, ?_, ?_⟩
  · rw [hcommitted]
    simp [withOwner, assign, hteam]
  · rw [hget, if_pos rfl, hm]
    exact ⟨_, rfl, rfl, howner⟩
  · intro u m' hm' hholds
    rw [hget] at hm'
    split at hm'
    · assumption
    · rename_i hu
      exfalso
      split at hm'
      · obtain ⟨m₁, -, rfl⟩ := Option.map_eq_some_iff.mp hm'
        have hlevel : "admin" ≠ "owner" := by decide
        rcases hholds with hl | hr
        · exact hlevel hl
        · exact hadmin hr
      · rename_i hactor'
        -- the owner so far is the actor
        obtain ⟨owner, -, -, hothers⟩ := h
        obtain ⟨m₁, hm₁, hlevel⟩ := Option.any_eq_true _ _ |>.mp hactor
        have hfirst := hothers t.actor m₁ hm₁ (.inl (of_decide_eq_true hlevel))
        exact hactor' ((hothers u m' hm' hholds).trans hfirst.symm)

/-- Dropping another role leaves the owner's, and the members as they are. -/
theorem ownerRole_dropRole (h : db.dropRole id roleId = .ok db') (hrole : db.OwnerRole id ownerRole)
    (hne : roleId ≠ ownerRole) :
  db'.OwnerRole id ownerRole ∧ db'.members = db.members
    ∧ (db'.teams.get? id).map TeamRow.ownerId = (db.teams.get? id).map TeamRow.ownerId
  := by
  unfold dropRole at h
  split at h
  · cases h
    exact ⟨hrole, rfl, rfl⟩
  · split at h
    · cases h
    · cases h
      refine ⟨⟨?_, ?_, ?_⟩, rfl, ?_⟩
      · obtain ⟨r, hr, hfields⟩ := hrole.row
        refine ⟨r, ?_, hfields⟩
        rw [Table.get?_erase, if_neg (Ne.symm hne)]
        exact hr
      · intro k r hr
        rw [Table.get?_erase] at hr
        split at hr
        · cases hr
        · exact hrole.slug k r hr
      · have hdefault := hrole.default
        simp only [Table.get?_update]
        cases hteam : db.teams.get? id with
        | none =>
            intro hnone
            cases hnone
        | some team =>
            rw [hteam] at hdefault
            simp only [Option.map_some, Option.bind_some] at hdefault ⊢
            split
            · intro hnone
              cases hnone
            · exact hdefault
      · simp only [Table.get?_update, Option.map_map]
        congr 1
        funext team
        simp only [Function.comp_apply]
        split <;> rfl

end TeamDb


/-! ### What is kept of a call -/

/-- What is kept of a team: the records agree, and one thread at most has locked a member. -/
structure TeamStore.Sound (id ownerRole : Uuid) (s : TeamStore) : Prop where
  role : s.db.OwnerRole id ownerRole
  owned : s.db.Owned id ownerRole
  exclusive : ∀ u, s.locks.Exclusive (.member u)

/-- A transfer gives the owner's role to another member, and a role that is not the owner's to the
one who has it. -/
structure Transfer.Sound (ownerRole : Uuid) (t : Transfer) : Prop where
  owner : t.ownerRole = ownerRole
  admin : t.adminRole ≠ ownerRole
  ne : t.userId ≠ t.actor

/-- A role other than the owner's is deleted, and the members who were moved are locked and not the
owner. -/
structure RoleDeletion.Sound (id ownerRole : Uuid) (i : ℕ) (s : TeamStore) (d : RoleDeletion) :
    Prop where
  role : d.roleId ≠ ownerRole
  target : d.target ≠ ownerRole
  level : d.level ≠ "owner"
  users : ∀ u ∈ d.users, (.member u, i) ∈ s.locks ∧ s.db.isOwner id u = false

/-- What is kept of a call. -/
def TeamCall.Asserts (id ownerRole : Uuid) (i : ℕ) (s : TeamStore) : TeamCall → Prop
  | .transferAdmin actor userId roleId => roleId = ownerRole ∧ userId ≠ actor
  | .transferDemote t => t.Sound ownerRole
  | .transferPromote t => t.Sound ownerRole ∧ t.demoted = true ∧ (.member t.actor, i) ∈ s.locks
      ∧ s.db.isOwner id t.actor = true
  | .transferOwner t | .transferCommit t => t.Sound ownerRole ∧ t.demoted = true
      ∧ (.member t.actor, i) ∈ s.locks ∧ s.db.isOwner id t.actor = true ∧ t.promoted = true
      ∧ (.member t.userId, i) ∈ s.locks ∧ s.db.isMember id t.userId = true
  | .assignCheck _ _ roleId _ level | .assignUpdate _ roleId level =>
    roleId ≠ ownerRole ∧ level ≠ .owner
  | .removeCommit userId there => there = true →
      (.member userId, i) ∈ s.locks ∧ s.db.isOwner id userId = false
  | .deleteTarget roleId _ | .deleteLoad roleId _ | .deleteMove roleId _ => roleId ≠ ownerRole
  | .deleteDefault d | .deleteRole d | .deleteCommit d => d.Sound id ownerRole i s
  | _ => True

/-- What a step of a thread leaves alone: the members that others have locked, and their locks. -/
def TeamStore.Later (id : Uuid) (i : ℕ) (s s' : TeamStore) : Prop :=
  ∀ u j, j ≠ i → (.member u, j) ∈ s.locks → (.member u, j) ∈ s'.locks
    ∧ s'.db.members.get? (id, u) = s.db.members.get? (id, u)

section
variable {s s' : TeamStore} {id ownerRole : Uuid} {i j : ℕ} {call call' : TeamCall}

/-- What is kept of another call stays so. -/
theorem TeamCall.asserts_of_later (h : s.Later id i s') (hj : j ≠ i)
    (hcall : call.Asserts id ownerRole j s) :
  call.Asserts id ownerRole j s'
  := by
  have howner : ∀ {u}, (.member u, j) ∈ s.locks → s'.db.isOwner id u = s.db.isOwner id u := by
    intro u hu
    rw [TeamDb.isOwner, (h u j hj hu).2, TeamDb.isOwner]
  have hdelete : ∀ {d : RoleDeletion}, d.Sound id ownerRole j s → d.Sound id ownerRole j s' := by
    intro d hd
    refine ⟨hd.role, hd.target, hd.level, ?_⟩
    intro u hu
    obtain ⟨hlock, hnot⟩ := hd.users u hu
    exact ⟨(h u j hj hlock).1, (howner hlock).trans hnot⟩
  have htransfer : ∀ {t : Transfer}, (t.Sound ownerRole ∧ t.demoted = true
      ∧ (.member t.actor, j) ∈ s.locks ∧ s.db.isOwner id t.actor = true ∧ t.promoted = true
      ∧ (.member t.userId, j) ∈ s.locks ∧ s.db.isMember id t.userId = true) →
      t.Sound ownerRole ∧ t.demoted = true ∧ (.member t.actor, j) ∈ s'.locks
      ∧ s'.db.isOwner id t.actor = true ∧ t.promoted = true ∧ (.member t.userId, j) ∈ s'.locks
      ∧ s'.db.isMember id t.userId = true := by
    rintro t ⟨ht, hdemoted, hactor, hlevel, hpromoted, huser, hmember⟩
    refine ⟨ht, hdemoted, (h _ j hj hactor).1, (howner hactor).trans hlevel, hpromoted,
      (h _ j hj huser).1, ?_⟩
    rw [TeamDb.isMember, (h _ j hj huser).2]
    exact hmember
  cases call with
  | transferPromote t =>
      obtain ⟨ht, hdemoted, hactor, hlevel⟩ := hcall
      exact ⟨ht, hdemoted, (h _ j hj hactor).1, (howner hactor).trans hlevel⟩
  | transferOwner t => exact htransfer hcall
  | transferCommit t => exact htransfer hcall
  | removeCommit userId there =>
      intro hthere
      obtain ⟨hlock, hnot⟩ := hcall hthere
      exact ⟨(h _ j hj hlock).1, (howner hlock).trans hnot⟩
  | deleteDefault d => exact hdelete hcall
  | deleteRole d => exact hdelete hcall
  | deleteCommit d => exact hdelete hcall
  | _ => exact hcall

namespace TeamStore

theorem later_of_db (hlocks : s'.locks = s.locks)
    (hmembers : ∀ u, s'.db.members.get? (id, u) = s.db.members.get? (id, u)
      ∨ s.waits i (.member u) = false) :
  s.Later id i s'
  := by
  intro u j hj hlock
  refine ⟨hlocks ▸ hlock, ?_⟩
  rcases hmembers u with heq | hfree
  · exact heq
  · exact absurd hlock (HeldLocks.not_mem_of_waits hfree (conflicts_member u) hj)

theorem later_rfl :
  s.Later id i s
  := fun _ _ _ h => ⟨h, rfl⟩

theorem later_lock (ls : List TeamLock) :
  s.Later id i (s.lock i ls)
  := fun _ _ _ h => ⟨HeldLocks.mem_take_of_held h, rfl⟩

/-- Ending a transaction keeps the locks of others. -/
theorem later_release (h : s.Later id i s') :
  s.Later id i (s'.release i)
  := by
  intro u j hj hlock
  obtain ⟨hlock', heq⟩ := h u j hj hlock
  exact ⟨HeldLocks.mem_release hlock' hj, heq⟩

/-- Taking locks that nobody else has. -/
theorem Sound.lock (hs : s.Sound id ownerRole) {ls : List TeamLock}
    (hfree : ∀ u, .member u ∈ ls → s.waits i (.member u) = false) :
  (s.lock i ls).Sound id ownerRole
  := by
  exact ⟨hs.role, hs.owned, fun u => (hs.exclusive u).take (conflicts_member u) (hfree u)⟩

/-- Writing the tables and ending the transaction. -/
theorem Sound.release (hs : s.Sound id ownerRole) {db : TeamDb} (hrole : db.OwnerRole id ownerRole)
    (howned : db.Owned id ownerRole) :
  ({ s with db := db }.release i).Sound id ownerRole
  := by
  exact ⟨hrole, howned, fun u => (hs.exclusive u).release⟩

end TeamStore

end


/-! ### Steps -/

section
variable {s s' : TeamStore} {id ownerRole : Uuid} {i : ℕ} {call call' : TeamCall}

/-- Reading changes nothing; the call goes on with what was read. -/
theorem TeamStore.Sound.read {α : Type} (hs : s.Sound id ownerRole) {x : Except Error α}
    {k : α → TeamCall} (hread : s.read x k = some (s', call'))
    (hk : ∀ a, x = .ok a → (k a).Asserts id ownerRole i s) :
  s'.Sound id ownerRole ∧ s.Later id i s' ∧ call'.Asserts id ownerRole i s'
  := by
  cases x with
  | ok a =>
      cases hread
      exact ⟨hs, TeamStore.later_rfl, hk a rfl⟩
  | error e =>
      cases hread
      exact ⟨hs, TeamStore.later_rfl, trivial⟩

theorem TeamCall.asserts_unless {p : Prop} [Decidable p] {e : Error}
    (h : ¬ p → call.Asserts id ownerRole i s) :
  (TeamCall.unless p e call).Asserts id ownerRole i s
  := by
  unfold TeamCall.unless
  split
  · trivial
  · rename_i hp
    exact h hp

/-- The role asked for is the owner's exactly when the level is. -/
theorem TeamDb.OwnerRole.requestedRole {db : TeamDb} (h : db.OwnerRole id ownerRole)
    {req : UpdateTeamMemberRequest} {r : Uuid × String × TeamRole}
    (hr : db.requestedRole id req = .ok r) :
  r.1 = ownerRole ↔ r.2.2 = .owner
  := by
  obtain ⟨roleId, slug, level⟩ := r
  obtain ⟨row, hrow, rfl, rfl⟩ := TeamDb.requestedRole_eq_ok hr
  rw [parseTeamRole_eq_owner]
  exact (h.slug_iff hrow).symm

/-- A role that is not built in is not the owner's. -/
theorem TeamDb.OwnerRole.ne_of_loadRole {db : TeamDb} (h : db.OwnerRole id ownerRole) {roleId : Uuid}
    {cur : TeamRoleDef} (hload : db.loadRole id roleId = .ok cur) (hbuiltin : ¬ cur.builtin = true) :
  roleId ≠ ownerRole
  := by
  rintro rfl
  obtain ⟨hget, -⟩ := TeamDb.teamRole_eq_some.mp (TeamDb.loadRole_eq_ok hload)
  obtain ⟨r, hr, -, -, hr'⟩ := h.row
  cases hget.symm.trans hr
  exact hbuiltin hr'

/-- The role of administrators is not the owner's. -/
theorem TeamDb.OwnerRole.ne_admin {db : TeamDb} (h : db.OwnerRole id ownerRole) {roleId : Uuid}
    (hadmin : db.roleIdForLevel id .admin = .ok roleId) :
  roleId ≠ ownerRole
  := by
  obtain ⟨r, hr, hslug, -⟩ := TeamDb.builtinRoleId_eq_some (TeamDb.roleIdForLevel_eq_ok hadmin)
  intro heq
  have howner := (h.slug_iff hr).mpr heq
  rw [hslug] at howner
  exact absurd howner (by decide)

/-- The tables after the members of a role and the default were moved. -/
theorem RoleDeletion.Sound.reassigned {d : RoleDeletion} (hd : d.Sound id ownerRole i s)
    (hs : s.Sound id ownerRole) :
  (d.reassigned id s.db).OwnerRole id ownerRole ∧ (d.reassigned id s.db).Owned id ownerRole
    ∧ (d.reassigned id s.db).members = (s.db.moved id d.users d.target d.level).members
  := by
  have hmoved : (s.db.moved id d.users d.target d.level).OwnerRole id ownerRole :=
    hs.role.of_eq rfl rfl
  have howned : (s.db.moved id d.users d.target d.level).Owned id ownerRole :=
    TeamDb.owned_moved hs.owned (fun u hu => (hd.users u hu).2) hd.level hd.target
  unfold RoleDeletion.reassigned
  cases d.wasDefault with
  | false => exact ⟨hmoved, howned, rfl⟩
  | true =>
      refine ⟨⟨hmoved.row, hmoved.slug, ?_⟩, ?_, rfl⟩
      · simp only [if_true, TeamDb.withDefault, Table.get?_set]
        cases hteam : (s.db.moved id d.users d.target d.level).teams.get? id with
        | none =>
            intro hnone
            cases hnone
        | some team => exact fun heq => hd.target (Option.some.inj heq)
      · refine howned.of_members ?_ (fun u => .inl rfl)
        simp only [if_true, TeamDb.withDefault, Table.get?_set]
        cases (s.db.moved id d.users d.target d.level).teams.get? id <;> rfl

/-- What a role deletion writes when it commits. -/
theorem RoleDeletion.Sound.commit {d : RoleDeletion} (hd : d.Sound id ownerRole i s)
    (hs : s.Sound id ownerRole) {db : TeamDb}
    (hdrop : (d.reassigned id s.db).dropRole id d.roleId = .ok db) :
  db.OwnerRole id ownerRole ∧ db.Owned id ownerRole ∧ s.Later id i { s with db := db }
  := by
  obtain ⟨hrole, howned, hmembers⟩ := hd.reassigned hs
  obtain ⟨hrole', hsame, howner⟩ := TeamDb.ownerRole_dropRole hdrop hrole hd.role
  refine ⟨hrole', howned.of_members howner (fun u => .inl (by rw [hsame])), ?_⟩
  intro u j hj hlock
  have hu : u ∉ d.users := fun hmem => hj (hs.exclusive u j i hlock (hd.users u hmem).1)
  refine ⟨hlock, ?_⟩
  rw [hsame, hmembers]
  simp only [TeamDb.moved, Table.get?_update]
  cases hm : s.db.members.get? (id, u) with
  | none => rfl
  | some m =>
      have hkey := Table.key_of_get? hm
      rw [key_teamMember, Prod.mk.injEq] at hkey
      rw [Option.map_some, if_neg (by simp [hkey.2, hu])]

/-- What a transfer writes when it commits. -/
theorem Transfer.Sound.commit {t : Transfer} (ht : t.Sound ownerRole) (hs : s.Sound id ownerRole)
    (hdemoted : t.demoted = true) (hactor : (.member t.actor, i) ∈ s.locks)
    (hlevel : s.db.isOwner id t.actor = true) (hpromoted : t.promoted = true)
    (huser : (.member t.userId, i) ∈ s.locks) (hmember : s.db.isMember id t.userId = true) :
  (t.committed id s.db).OwnerRole id ownerRole ∧ (t.committed id s.db).Owned id ownerRole
    ∧ s.Later id i { s with db := t.committed id s.db }
  := by
  have hcommitted : t.committed id s.db
      = ((s.db.assign id t.actor "admin" t.adminRole).assign id t.userId "owner"
        t.ownerRole).withOwner id t.userId := by
    unfold Transfer.committed
    rw [hdemoted, hpromoted]
    rfl
  obtain ⟨owner, hname, -⟩ := hs.owned
  obtain ⟨team, hteam, -⟩ := Option.map_eq_some_iff.mp hname
  refine ⟨?_, TeamDb.owned_transfer hs.owned ⟨team, hteam⟩ hlevel hmember hdemoted hpromoted ht.ne
    ht.owner ht.admin, ?_⟩
  · apply hs.role.of_eq
    · rw [hcommitted]
      rfl
    · rw [hcommitted]
      simp [TeamDb.withOwner, TeamDb.assign, hteam]
  · intro u j hj hlock
    refine ⟨hlock, ?_⟩
    have hne : u ≠ t.actor := by
      rintro rfl
      exact hj (hs.exclusive _ j i hlock hactor)
    have hne' : u ≠ t.userId := by
      rintro rfl
      exact hj (hs.exclusive _ j i hlock huser)
    rw [hcommitted]
    change ((s.db.assign id t.actor "admin" t.adminRole).assign id t.userId "owner"
      t.ownerRole).members.get? (id, u) = _
    rw [TeamDb.get?_assign, if_neg hne', TeamDb.get?_assign, if_neg hne]

variable [Names]

/-- The next statement of a call whose checks still hold keeps what is kept of the team, of the
call, and of the others. -/
theorem TeamCall.sound_next (hs : s.Sound id ownerRole) (hcall : call.Asserts id ownerRole i s)
    (hfree : call.StillHolds id s.db) (hnext : call.next id i s = some (s', call')) :
  s'.Sound id ownerRole ∧ s.Later id i s' ∧ call'.Asserts id ownerRole i s'
  := by
  cases call with
  | done answer => cases hnext
  | updateMe actor userId req => exact hs.read hnext (fun _ _ => trivial)
  | updateTarget me userId req => exact hs.read hnext (fun _ _ => trivial)
  | updateRole me target req =>
      apply hs.read hnext
      rintro ⟨roleId, slug, level⟩ hr
      have hiff := hs.role.requestedRole hr
      simp only at hiff
      unfold TeamCall.resolved
      split
      · rename_i howner
        apply TeamCall.asserts_unless
        intro _
        apply TeamCall.asserts_unless
        intro hne
        exact ⟨hiff.mpr howner, hne⟩
      · rename_i howner
        apply TeamCall.asserts_unless
        intro _
        apply TeamCall.asserts_unless
        intro _
        exact ⟨fun heq => howner (hiff.mp heq), howner⟩
  | transferAdmin actor userId roleId =>
      obtain ⟨howner, hne⟩ := hcall
      exact hs.read hnext (fun adminRole hadmin => ⟨howner, hs.role.ne_admin hadmin, hne⟩)
  | transferDemote t =>
      simp only [TeamCall.next] at hnext
      split at hnext
      · rename_i hnone
        obtain ⟨m, hm, -⟩ := Option.any_eq_true _ _ |>.mp hfree
        rw [TeamDb.isMember, hm] at hnone
        cases hnone
      · split at hnext
        · cases hnext
        · rename_i hwait
          cases hnext
          have hfree' : s.waits i (.member t.actor) = false := by
            cases hw : s.waits i (.member t.actor)
            · rfl
            · rw [hw] at hwait
              exact absurd rfl hwait
          refine ⟨hs.lock ?_, TeamStore.later_lock _, ⟨hcall.owner, hcall.admin, hcall.ne⟩, rfl,
            HeldLocks.mem_take_of_mem (by simp), hfree⟩
          intro u hu
          simp only [List.mem_cons, TeamLock.member.injEq, reduceCtorEq, List.not_mem_nil,
            or_false] at hu
          rw [hu]
          exact hfree'
  | transferPromote t =>
      obtain ⟨ht, hdemoted, hactor, hlevel⟩ := hcall
      simp only [TeamCall.next] at hnext
      split at hnext
      · rename_i hnone
        rw [hfree] at hnone
        cases hnone
      · split at hnext
        · cases hnext
        · rename_i hwait
          cases hnext
          have hfree' : s.waits i (.member t.userId) = false := by
            cases hw : s.waits i (.member t.userId)
            · rfl
            · rw [hw] at hwait
              exact absurd rfl hwait
          refine ⟨hs.lock ?_, TeamStore.later_lock _, ⟨ht.owner, ht.admin, ht.ne⟩, hdemoted,
            HeldLocks.mem_take_of_held hactor, hlevel, rfl, HeldLocks.mem_take_of_mem (by simp), hfree⟩
          intro u hu
          simp only [List.mem_cons, TeamLock.member.injEq, reduceCtorEq, List.not_mem_nil,
            or_false] at hu
          rw [hu]
          exact hfree'
  | transferOwner t =>
      obtain ⟨ht, hdemoted, hactor, hlevel, hpromoted, huser, hmember⟩ := hcall
      simp only [TeamCall.next] at hnext
      split at hnext
      · cases hnext
      · cases hnext
        exact ⟨hs.lock (by simp), TeamStore.later_lock _, ht, hdemoted,
          HeldLocks.mem_take_of_held hactor, hlevel, hpromoted, HeldLocks.mem_take_of_held huser, hmember⟩
  | transferCommit t =>
      obtain ⟨ht, hdemoted, hactor, hlevel, hpromoted, huser, hmember⟩ := hcall
      cases hnext
      obtain ⟨hrole, howned, hlater⟩ := ht.commit hs hdemoted hactor hlevel hpromoted huser hmember
      exact ⟨hs.release hrole howned, TeamStore.later_release hlater, trivial⟩
  | assignCheck me userId roleId slug level => exact hs.read hnext (fun _ _ => hcall)
  | assignUpdate userId roleId level =>
      simp only [TeamCall.next] at hnext
      split at hnext
      · cases hnext
      · rename_i hwait
        cases hnext
        rw [Bool.not_eq_true, Bool.or_eq_false_iff] at hwait
        have hlevel : teamRoleStr level ≠ "owner" := by
          cases level
          · decide
          · decide
          · exact absurd rfl hcall.2
        refine ⟨⟨hs.role.of_eq rfl rfl, TeamDb.owned_assign hs.owned hfree hlevel hcall.1,
          hs.exclusive⟩, TeamStore.later_of_db rfl ?_, trivial⟩
        intro u
        simp only [TeamDb.get?_assign]
        split
        · rename_i hu
          exact .inr (hu ▸ hwait.1)
        · exact .inl rfl
  | removeMe actor userId => exact hs.read hnext (fun _ _ => trivial)
  | removeTarget userId =>
      exact hs.read hnext (fun _ _ => TeamCall.asserts_unless (fun _ => trivial))
  | leaveMe userId =>
      exact hs.read hnext (fun _ _ => TeamCall.asserts_unless (fun _ => trivial))
  | removeDelete userId =>
      simp only [TeamCall.next] at hnext
      split at hnext
      · cases hnext
        refine ⟨hs, TeamStore.later_rfl, ?_⟩
        intro hthere
        cases hthere
      · split at hnext
        · cases hnext
        · rename_i hwait
          cases hnext
          refine ⟨hs.lock ?_, TeamStore.later_lock _,
            fun _ => ⟨HeldLocks.mem_take_of_mem (by simp), hfree⟩⟩
          intro u hu
          rw [List.mem_singleton, TeamLock.member.injEq] at hu
          rw [hu]
          exact eq_false_of_ne_true hwait
  | removeCommit userId there =>
      cases hnext
      cases there with
      | false => exact ⟨hs.release hs.role hs.owned, TeamStore.later_release TeamStore.later_rfl, trivial⟩
      | true =>
          obtain ⟨hlock, hnot⟩ := hcall rfl
          refine ⟨hs.release (hs.role.of_eq rfl rfl) (TeamDb.owned_removed hs.owned hnot),
            TeamStore.later_release ?_, trivial⟩
          intro u j hj hlock'
          refine ⟨hlock', ?_⟩
          have hne : u ≠ userId := by
            rintro rfl
            exact hj (hs.exclusive _ j i hlock' hlock)
          simp [TeamDb.removed, hne]
  | deleteMe actor roleId reassignTo => exact hs.read hnext (fun _ _ => trivial)
  | deleteCurrent me roleId reassignTo =>
      apply hs.read hnext
      intro cur hload
      apply TeamCall.asserts_unless
      intro hbuiltin
      apply TeamCall.asserts_unless
      intro _
      exact hs.role.ne_of_loadRole hload hbuiltin
  | deleteTarget roleId reassignTo =>
      exact hs.read hnext (fun _ _ => TeamCall.asserts_unless (fun _ => hcall))
  | deleteLoad roleId target => exact hs.read hnext (fun _ _ => hcall)
  | deleteMove roleId target =>
      simp only [TeamCall.next] at hnext
      split at hnext
      · cases hnext
      · rename_i hwait
        cases hnext
        rw [Bool.not_eq_true, List.any_eq_false] at hwait
        have hne : target ≠ ownerRole := by
          rintro rfl
          exact hfree hs.role.builtinRoleId
        refine ⟨hs.lock ?_, TeamStore.later_lock _, hcall, hne, TeamDb.levelOf_ne_owner, ?_⟩
        · intro u hu
          exact eq_false_of_ne_true (hwait _ hu)
        · intro u hu
          refine ⟨HeldLocks.mem_take_of_mem (List.mem_cons_of_mem _ (List.mem_map_of_mem hu)), ?_⟩
          -- who holds the role does not hold the owner's
          obtain ⟨m, hm, rfl⟩ := List.mem_map.mp hu
          obtain ⟨hm, hp⟩ := List.mem_filter.mp hm
          simp only [Bool.and_eq_true, decide_eq_true_eq] at hp
          have hget : s.db.members.get? (id, m.userId) = some m := by
            rw [← hp.1]
            exact Table.get?_of_mem hm
          by_contra howner
          have hrole := (hs.owned.isOwner_iff hget).2.mpr (eq_true_of_ne_false howner)
          exact hcall (hp.2.symm.trans hrole)
  | deleteDefault d =>
      simp only [TeamCall.next] at hnext
      split at hnext
      · cases hnext
        exact ⟨hs, TeamStore.later_rfl, hcall⟩
      · split at hnext
        · cases hnext
        · cases hnext
          refine ⟨hs.lock (by simp), TeamStore.later_lock _, hcall.role, hcall.target, hcall.level, ?_⟩
          intro u hu
          exact ⟨HeldLocks.mem_take_of_held (hcall.users u hu).1, (hcall.users u hu).2⟩
  | deleteRole d =>
      simp only [TeamCall.next] at hnext
      split at hnext
      · cases hnext
      · split at hnext
        · cases hnext
          exact ⟨hs.release hs.role hs.owned, TeamStore.later_release TeamStore.later_rfl, trivial⟩
        · cases hnext
          refine ⟨hs.lock (by simp), TeamStore.later_lock _, hcall.role, hcall.target, hcall.level, ?_⟩
          intro u hu
          exact ⟨HeldLocks.mem_take_of_held (hcall.users u hu).1, (hcall.users u hu).2⟩
  | deleteCommit d =>
      simp only [TeamCall.next] at hnext
      split at hnext
      · cases hnext
        exact ⟨hs.release hs.role hs.owned, TeamStore.later_release TeamStore.later_rfl, trivial⟩
      · rename_i db hdrop
        cases hnext
        obtain ⟨hrole, howned, hlater⟩ := RoleDeletion.Sound.commit hcall hs hdrop
        exact ⟨hs.release hrole howned, TeamStore.later_release hlater, trivial⟩
  | groupSelect userId groups source =>
      simp only [TeamCall.next] at hnext
      split at hnext
      · cases hnext
        exact ⟨hs, TeamStore.later_rfl, trivial⟩
      · split at hnext
        · cases hnext
          exact ⟨hs, TeamStore.later_rfl, trivial⟩
        · split at hnext
          · cases hnext
            exact ⟨hs, TeamStore.later_rfl, trivial⟩
          · cases hnext
            exact ⟨hs, TeamStore.later_rfl, trivial⟩
  | groupUpdate userId roleId source =>
      simp only [TeamCall.next] at hnext
      split at hnext
      · cases hnext
      · rename_i hwait
        cases hnext
        rw [Bool.not_eq_true, Bool.or_eq_false_iff] at hwait
        refine ⟨⟨hs.role.of_eq rfl rfl, TeamDb.owned_setGroupRole hs.owned hs.role, hs.exclusive⟩,
          TeamStore.later_of_db rfl ?_, trivial⟩
        intro u
        simp only [TeamDb.setGroupRole, Table.get?_set, Prod.mk.injEq, true_and]
        split
        · rename_i hu
          exact .inr (hu ▸ hwait.1)
        · exact .inl rfl

end


/-! ### Runs -/

section
variable {s s' : TeamStore} {id ownerRole : Uuid} {i : ℕ} {call call' : TeamCall}

/-- The records of a new team agree. -/
theorem TeamDb.IsNew.owned {db : TeamDb} {owner : Uuid} (h : db.IsNew id owner ownerRole) :
  db.OwnerRole id ownerRole ∧ db.Owned id ownerRole
  := by
  obtain ⟨ids, hlen, hhead, hroles, hteam⟩ := h.roles
  match ids, hlen with
  | [a, b, c, d, e], _ =>
  cases hhead
  have hmem : ∀ r, r ∈ seedBuiltinRoles id [ownerRole, b, c, d, e] ↔
      r ∈ db.roles.rows ∧ r.teamId = id := by
    intro r
    rw [← hroles]
    simp [Table.select]
  have hnodup : ([ownerRole, b, c, d, e] : List Uuid).Nodup := by
    have hsub : ((seedBuiltinRoles id [ownerRole, b, c, d, e]).map key).Nodup := by
      rw [← hroles]
      exact db.roles.nodup.sublist (List.filter_sublist.map key)
    exact hsub
  refine ⟨⟨?_, ?_, ?_⟩, owner, ?_, ?_, ?_⟩
  · obtain ⟨hrow, hrowTeam⟩ := (hmem ⟨ownerRole, id, "owner", "Owner",
      "Everything, including deleting the team and transferring ownership.", ["*"], true, 0⟩).mp
        List.mem_cons_self
    exact ⟨_, Table.get?_of_mem hrow, rfl, rfl, rfl⟩
  · intro k r hr hrTeam hslug
    have hr' := (hmem r).mpr ⟨Table.mem_of_get? hr, hrTeam⟩
    have hkey := Table.key_of_get? hr
    -- only the first of the roles has this slug
    have hall : ∀ b ∈ BUILTIN_ROLES.tail, b.1 ≠ "owner" := by decide
    rcases List.mem_cons.mp hr' with rfl | hr'
    · exact hkey.symm
    · obtain ⟨⟨b, roleId⟩, hb, rfl⟩ := List.mem_map.mp hr'
      exact absurd hslug (hall b (List.of_mem_zip hb).1)
  · rw [hteam]
    intro heq
    have hc : c = ownerRole := Option.some.inj heq
    simp [hc] at hnodup
  · rw [hteam]
    rfl
  · have hm : (⟨id, owner, "owner", ownerRole, "manual"⟩ : TeamMemberRow) ∈
        db.members.select (fun m => decide (m.teamId = id)) := by
      rw [h.members]
      exact List.mem_cons_self
    exact ⟨_, Table.get?_of_mem (List.mem_of_mem_filter hm), rfl, rfl⟩
  · intro u m hm _
    have hkey := Table.key_of_get? hm
    rw [key_teamMember, Prod.mk.injEq] at hkey
    have hm' : m ∈ db.members.select (fun m => decide (m.teamId = id)) :=
      List.mem_filter.mpr ⟨Table.mem_of_get? hm, decide_eq_true hkey.1⟩
    rw [h.members, List.mem_singleton] at hm'
    rw [← hkey.2, hm']

/-- What else happens keeps the records, and the members that are locked. -/
theorem TeamEvent.sound_apply (hs : s.Sound id ownerRole) {e : TeamEvent}
    (h : e.apply id s = some s') :
  s'.Sound id ownerRole ∧ ∀ u j, (.member u, j) ∈ s.locks → (.member u, j) ∈ s'.locks
    ∧ s'.db.members.get? (id, u) = s.db.members.get? (id, u)
  := by
  have hgrantable : ∀ {roleId}, s.db.grantable id roleId = true → roleId ≠ ownerRole := by
    intro roleId hg heq
    obtain ⟨r, hr, hslug⟩ := Option.any_eq_true _ _ |>.mp hg
    exact of_decide_eq_true hslug ((hs.role.slug_iff hr).mpr heq)
  cases e with
  | join userId roleId source =>
      simp only [TeamEvent.apply] at h
      split at h
      · cases h
      · rename_i hfree
        split at h
        · rename_i hrole
          cases h
          have hne : roleId ≠ ownerRole := by
            rw [Bool.or_eq_true, decide_eq_true_eq] at hrole
            rcases hrole with hg | hdefault
            · exact hgrantable hg
            · rintro rfl
              exact hs.role.default hdefault
          refine ⟨⟨hs.role.of_eq rfl rfl, TeamDb.owned_joinTeam hs.owned hne, hs.exclusive⟩, ?_⟩
          intro u j hlock
          refine ⟨hlock, ?_⟩
          have hu : u ≠ userId := by
            rintro rfl
            rw [Bool.not_eq_true, Bool.or_eq_false_iff] at hfree
            exact HeldLocks.not_mem_of_blocks hfree.1 (conflicts_member u) hlock
          simp [TeamDb.joinTeam, Table.get?_upsert, hu]
        · cases h
  | createRole roleId slug name description permissions =>
      simp only [TeamEvent.apply] at h
      split at h
      · rename_i db hdb
        cases h
        unfold TeamDb.insertRole at hdb
        split at hdb
        · cases hdb
        · rename_i htaken
          cases hins : s.db.roles.insert ⟨roleId, id, slug, name, description, permissions, false,
              100⟩ with
          | none =>
              rw [hins] at hdb
              cases hdb
          | some roles =>
              rw [hins] at hdb
              cases hdb
              have hget := Table.get?_insert hins
              have hnone := (Table.insert_isSome_iff.mp (Option.isSome_iff_exists.mpr ⟨_, hins⟩))
              obtain ⟨row, hrow, hteam, hslug, hbuiltin⟩ := hs.role.row
              have hkeep : ownerRole ≠ roleId := by
                rintro rfl
                rw [key_teamRole] at hnone
                rw [hnone] at hrow
                cases hrow
              refine ⟨⟨⟨?_, ?_, hs.role.default⟩, hs.owned, hs.exclusive⟩,
                fun u j hlock => ⟨hlock, rfl⟩⟩
              · refine ⟨row, ?_, hteam, hslug, hbuiltin⟩
                rw [hget, key_teamRole, if_neg hkeep]
                exact hrow
              · intro k r hr hrTeam hrSlug
                rw [hget, key_teamRole] at hr
                split at hr
                · -- the slug is taken by the owner's role
                  cases hr
                  exfalso
                  apply htaken
                  refine List.any_eq_true.mpr ⟨row, Table.mem_of_get? hrow, ?_⟩
                  simp only at hrSlug
                  simp [hteam, hslug, hrSlug]
                · exact hs.role.slug k r hr hrTeam hrSlug
      · cases h
  | editRole roleId name description permissions position =>
      simp only [TeamEvent.apply] at h
      split at h
      · cases h
      · cases h
        refine ⟨⟨⟨?_, ?_, hs.role.default⟩, hs.owned, hs.exclusive⟩,
          fun u j hlock => ⟨hlock, rfl⟩⟩
        · obtain ⟨row, hrow, hteam, hslug, hbuiltin⟩ := hs.role.row
          simp only [TeamDb.setRole, Table.get?_set]
          split
          · rename_i heq
            rw [← heq, hrow]
            refine ⟨_, rfl, ?_⟩
            simp only [if_pos hteam]
            exact ⟨hteam, hslug, hbuiltin⟩
          · exact ⟨row, hrow, hteam, hslug, hbuiltin⟩
        · intro k r hr hrTeam hrSlug
          simp only [TeamDb.setRole, Table.get?_set] at hr
          split at hr
          · rename_i heq
            obtain ⟨r', hr', rfl⟩ := Option.map_eq_some_iff.mp hr
            split at hrSlug
            · rename_i hteam
              exact heq ▸ hs.role.slug _ r' hr' hteam hrSlug
            · rename_i hteam
              rw [if_neg hteam] at hrTeam
              exact absurd hrTeam hteam
          · exact hs.role.slug k r hr hrTeam hrSlug
  | setDefault roleId =>
      simp only [TeamEvent.apply] at h
      split at h
      · cases h
      · split at h
        · rename_i hg
          cases h
          refine ⟨⟨⟨hs.role.row, hs.role.slug, ?_⟩, ?_, hs.exclusive⟩,
            fun u j hlock => ⟨hlock, rfl⟩⟩
          · simp only [TeamDb.withDefault, Table.get?_set, if_true]
            cases s.db.teams.get? id with
            | none =>
                intro hnone
                cases hnone
            | some team => exact fun heq => hgrantable hg (Option.some.inj heq)
          · refine hs.owned.of_members ?_ (fun u => .inl rfl)
            simp only [TeamDb.withDefault, Table.get?_set, if_true]
            cases s.db.teams.get? id <;> rfl
        · cases h
  | setMappings mappings =>
      cases h
      exact ⟨⟨hs.role.of_eq rfl rfl, hs.owned, hs.exclusive⟩, fun u j hlock => ⟨hlock, rfl⟩⟩

variable [Names]

/-- A step of a call whose checks still hold keeps what is kept of the team, of the call, and of the
others. -/
theorem TeamCall.sound_exec {e : TeamCallStep} (hs : s.Sound id ownerRole)
    (hcall : call.Asserts id ownerRole i s) (hfree : e = .next → call.StillHolds id s.db)
    (hexec : call.exec id i e s = some (s', call')) :
  s'.Sound id ownerRole ∧ s.Later id i s' ∧ call'.Asserts id ownerRole i s'
  := by
  cases e with
  | next => exact TeamCall.sound_next hs hcall (hfree rfl) hexec
  | drop =>
      cases hexec
      exact ⟨hs.release hs.role hs.owned, TeamStore.later_release TeamStore.later_rfl, trivial⟩
  | _ =>
      cases call with
      | done answer =>
          cases hexec
          exact ⟨hs, TeamStore.later_rfl, trivial⟩
      | _ => cases hexec

/-- In runs in which what the calls checked still holds when they write, the team has one owner,
and the records agree on it. -/
theorem oneOwner_of_reaches {p : Pool TeamStore TeamCall}
    (h : (teamCalls id).system.Reaches (checksHold id) p) :
  p.shared.db.OneOwner id
  := by
  -- the id of the owner's role is that of the initial state, so the induction carries it along
  have hsound : ∃ ownerRole, Threads.Holds (TeamStore.Sound id ownerRole)
      (fun i s call => call.Asserts id ownerRole i s) p := by
    apply h.invariant
    · rintro p ⟨⟨⟨owner, ownerRole, hnew⟩, hlocks⟩, hstart⟩
      obtain ⟨hrole, howned⟩ := hnew.owned
      refine ⟨ownerRole, ⟨hrole, howned, ?_⟩, ?_⟩
      · rw [hlocks]
        intro u i j hi
        cases hi
      · intro i
        rw [show p.threads i = .done none from hstart i]
        trivial
    · rintro p l p' ⟨ownerRole, hs, hcalls⟩ hG hstep
      refine ⟨ownerRole, ?_⟩
      cases l with
      | run i e =>
          obtain ⟨⟨s', call'⟩, hexec, rfl⟩ := Option.map_eq_some_iff.mp hstep
          have hfree : e = .next → (p.threads i).StillHolds id p.shared.db := by
            rintro rfl
            exact hG
          obtain ⟨hs', hlater, hcall'⟩ := TeamCall.sound_exec hs (hcalls i) hfree hexec
          exact Threads.holds_run hs' hcall'
            (fun j hj => TeamCall.asserts_of_later hlater hj (hcalls j))
      | env e =>
          obtain ⟨s', henv, rfl⟩ := Option.map_eq_some_iff.mp hstep
          obtain ⟨hs', hkeep⟩ := TeamEvent.sound_apply hs henv
          refine ⟨hs', fun j => ?_⟩
          exact TeamCall.asserts_of_later (i := j + 1) (fun u k _ hlock => hkeep u k hlock)
            (Nat.lt_succ_self j).ne (hcalls j)
  obtain ⟨ownerRole, hs, -⟩ := hsound
  exact TeamDb.oneOwner_of_owned hs.role hs.owned

end

/-! ### A transfer, and two at once -/

instance (id : Uuid) (db : TeamDb) : ∀ call : TeamCall, Decidable (call.StillHolds id db)
  | .transferDemote t => inferInstanceAs (Decidable (db.isOwner id t.actor = true))
  | .transferPromote t => inferInstanceAs (Decidable (db.isMember id t.userId = true))
  | .assignUpdate userId _ _ => inferInstanceAs (Decidable (db.isOwner id userId = false))
  | .removeDelete userId => inferInstanceAs (Decidable (db.isOwner id userId = false))
  | .deleteMove _ target => inferInstanceAs (Decidable (db.builtinRoleId id "owner" ≠ some target))
  | .done _ | .updateMe _ _ _ | .updateTarget _ _ _ | .updateRole _ _ _ | .transferAdmin _ _ _
  | .transferOwner _ | .transferCommit _ | .assignCheck _ _ _ _ _ | .removeMe _ _
  | .removeTarget _ | .leaveMe _ | .removeCommit _ _ | .deleteMe _ _ _ | .deleteCurrent _ _ _
  | .deleteTarget _ _ | .deleteLoad _ _ | .deleteDefault _ | .deleteRole _ | .deleteCommit _
  | .groupSelect _ _ _ | .groupUpdate _ _ _ => .isTrue trivial

instance (id : Uuid) (p : Pool TeamStore TeamCall) :
    ∀ l : PoolStep TeamCallStep TeamEvent, Decidable (checksHold id p l)
  | .run i .next => inferInstanceAs (Decidable ((p.threads i).StillHolds id p.shared.db))
  | .run _ (.updateMember _ _ _) | .run _ (.removeMember _ _) | .run _ (.leave _)
  | .run _ (.deleteRole _ _ _) | .run _ (.applyGroupMappings _ _ _) | .run _ .drop
  | .env _ => .isTrue trivial

/-- Nobody calls anything about the new team yet. -/
def noTeamCalls : Pool TeamStore TeamCall := ⟨⟨newTeam, []⟩, fun _ => .done none⟩

theorem init_noTeamCalls :
  (@teamCalls plainNames 1).system.init noTeamCalls
  := ⟨⟨⟨5, 10, isNew_newTeam⟩, rfl⟩, fun _ => rfl⟩

/-- User 5 hands the team to a member. -/
def handOver (thread : ℕ) (userId : Uuid) : PoolStep TeamCallStep TeamEvent :=
  .run thread (.updateMember ⟨5, 0, none⟩ userId ⟨.owner, none⟩)

/-- The next statements of a thread. -/
def nextStatements (thread n : ℕ) : List (PoolStep TeamCallStep TeamEvent) :=
  List.replicate n (.run thread .next)

/-- User 7 joins, and gets the team. -/
def handOverOnce : List (PoolStep TeamCallStep TeamEvent) :=
  [.env (.join 7 12 "manual"), handOver 0 7] ++ nextStatements 0 8

/-- Users 7 and 8 join. Two calls check, one after the other, that user 5 owns the team, and then
each hands it on. -/
def handOverTwice : List (PoolStep TeamCallStep TeamEvent) :=
  [.env (.join 7 12 "manual"), .env (.join 8 12 "manual"), handOver 0 7, handOver 1 8]
    ++ nextStatements 0 4 ++ nextStatements 1 4 ++ nextStatements 0 4 ++ nextStatements 1 4

/-- After a transfer the new owner is the only one. -/
theorem oneOwner_handOver :
  ∃ p : Pool TeamStore TeamCall, (p.shared.db.teams.get? 1).map TeamRow.ownerId = some 7
    ∧ p.shared.db.OneOwner 1
  := by
  have hrun : ((@teamCalls plainNames 1).system.runMeeting (checksHold 1) noTeamCalls
      handOverOnce).map (fun p => (p.shared.db.teams.get? 1).map TeamRow.ownerId)
      = some (some 7) := by
    decide +kernel
  obtain ⟨p, hp, howner⟩ := Option.map_eq_some_iff.mp hrun
  exact ⟨p, howner, @oneOwner_of_reaches 1 plainNames p
    (TransitionSystem.reaches_runMeeting init_noTeamCalls hp)⟩

/-- Both calls make their member the owner. -/
theorem not_oneOwner_handOverTwice :
  ∃ p, (@teamCalls plainNames 1).system.Reachable p ∧ ¬ p.shared.db.OneOwner 1
  := by
  have hrun : ((@teamCalls plainNames 1).system.run noTeamCalls handOverTwice).map
      (fun p => (p.shared.db.members.select (fun m => decide (m.role = "owner"))).map
        (fun m => (m.teamId, m.userId))) = some [(1, 7), (1, 8)] := by
    decide +kernel
  obtain ⟨p, hp, howners⟩ := Option.map_eq_some_iff.mp hrun
  refine ⟨p, TransitionSystem.Reaches.run (.init init_noTeamCalls)
    (TransitionSystem.meets_true noTeamCalls handOverTwice) hp, ?_⟩
  rintro ⟨ownerRole, owner, -, -, -, hothers⟩
  have hsame : ∀ u, (1, u) ∈ [((1 : Uuid), (7 : Uuid)), (1, 8)] → u = owner := by
    intro u hu
    rw [← howners] at hu
    obtain ⟨m, hm, heq⟩ := List.mem_map.mp hu
    obtain ⟨hmem, hlevel⟩ := List.mem_filter.mp hm
    obtain ⟨hteam, huser⟩ := Prod.mk.inj heq
    rw [← huser]
    exact hothers m hmem hteam (.inl (of_decide_eq_true hlevel))
  have h₇ := hsame 7 (by decide)
  have h₈ := hsame 8 (by decide)
  exact absurd (h₇.trans h₈.symm) (by decide)

end Termoso.Server
