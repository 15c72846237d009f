import Termoso.Server.GroupGrants

/-!
# Writes of groups

An identity provider creates a group, replaces it or patches it, in one request.  Such a request is
to do all of what it asks for or nothing, and to leave the role and the vaults of every user who
came into the group or left it recomputed.

The statements of a request are not under a transaction.  What was written stays when a user who
is not of the team comes up, and a user is not recomputed again when the group is renamed after.
-/

namespace Termoso.Server

namespace ScimStore

/-! ### Requests -/

/-- A request of an identity provider about a group. -/
inductive GroupRequest
  | create (id : Uuid) (displayName externalId : Option String) (members : List Uuid)
  | put (id : Uuid) (displayName externalId : Option String) (members : Option (List Uuid))
  | patch (id : Uuid) (schema : Bool) (ops : List PatchOp)

/-- The group that a request is about. -/
def GroupRequest.id : GroupRequest → Uuid
  | .create id .. | .put id .. | .patch id .. => id

variable [Names]

/-- Handle a request. -/
def handleGroup (s : ScimStore) (teamId : Uuid) : GroupRequest → ScimStore × Except Error Unit
  | .create id displayName externalId members => s.createGroup teamId id displayName externalId members
  | .put id displayName externalId members => s.putGroup teamId id displayName externalId members
  | .patch id schema ops => s.patchGroup teamId id schema ops

/-! ### What a recomputation reads and writes -/

/-- Two stores with the same role and the same vaults of a user. -/
structure SameRows (teamId userId : Uuid) (s s' : ScimStore) : Prop where
  member : ∀ v, s'.member userId v = s.member userId v
  granted : ∀ v, s'.grantedByGroup (v, userId) = s.grantedByGroup (v, userId)
  role : s'.team.members.get? (teamId, userId) = s.team.members.get? (teamId, userId)

/-- Two stores from which the role and the vaults of a user are recomputed alike. -/
structure Feeds (teamId userId : Uuid) (s s' : ScimStore) : Prop where
  inGroup : ∀ g, s'.inGroup userId g = s.inGroup userId g
  names : s'.groupNames teamId userId = s.groupNames teamId userId
  teamOf : ∀ g, (s'.groups.get? g).map ScimGroup.teamId = (s.groups.get? g).map ScimGroup.teamId
  groupVaults : s'.groupVaults = s.groupVaults
  vaults : s'.db.vaults = s.db.vaults
  roles : s'.team.roles = s.team.roles
  teams : s'.team.teams = s.team.teams
  mappings : s'.team.mappings = s.team.mappings

/-- The role and the vaults of a user are what a recomputation from the groups left. -/
def Recomputed (teamId userId : Uuid) (s : ScimStore) : Prop :=
  ∃ s₀ : ScimStore, Feeds teamId userId s₀ s
    ∧ SameRows teamId userId (s₀.syncUserGroups teamId userId) s

/-- A change that is not about a user. -/
structure Spares (teamId userId : Uuid) (s s' : ScimStore) : Prop where
  feeds : Feeds teamId userId s s'
  rows : SameRows teamId userId s s'

/-- Two stores with the same groups, users in them, members of vaults and roles. -/
structure Unchanged (s s' : ScimStore) : Prop where
  groups : ∀ id, s'.groups.get? id = s.groups.get? id
  inGroup : ∀ u g, s'.inGroup u g = s.inGroup u g
  member : ∀ u v, s'.member u v = s.member u v
  granted : ∀ k, s'.grantedByGroup k = s.grantedByGroup k
  role : ∀ k, s'.team.members.get? k = s.team.members.get? k

/-- A request does all or nothing: when it fails nothing changes, and when it succeeds every user who
came into the group or left it is recomputed. -/
structure AllOrNothing (s : ScimStore) (teamId : Uuid) (req : GroupRequest) : Prop where
  nothing : ∀ e, (s.handleGroup teamId req).2 = .error e → s.Unchanged (s.handleGroup teamId req).1
  all : (s.handleGroup teamId req).2 = .ok () → ∀ u,
    (s.handleGroup teamId req).1.inGroup u req.id ≠ s.inGroup u req.id →
    Recomputed teamId u (s.handleGroup teamId req).1

section
variable {s s' s'' : ScimStore} {teamId userId groupId u : Uuid}

omit [Names] in
theorem SameRows.refl : SameRows teamId u s s := ⟨fun _ => rfl, fun _ => rfl, rfl⟩

omit [Names] in
theorem SameRows.trans (h : SameRows teamId u s s') (h' : SameRows teamId u s' s'') :
  SameRows teamId u s s''
  := ⟨fun v => (h'.member v).trans (h.member v), fun v => (h'.granted v).trans (h.granted v),
    h'.role.trans h.role⟩

omit [Names] in
theorem Feeds.refl : Feeds teamId u s s := ⟨fun _ => rfl, rfl, fun _ => rfl, rfl, rfl, rfl, rfl, rfl⟩

omit [Names] in
theorem Feeds.trans (h : Feeds teamId u s s') (h' : Feeds teamId u s' s'') :
  Feeds teamId u s s''
  := ⟨fun g => (h'.inGroup g).trans (h.inGroup g), h'.names.trans h.names,
    fun g => (h'.teamOf g).trans (h.teamOf g), h'.groupVaults.trans h.groupVaults,
    h'.vaults.trans h.vaults, h'.roles.trans h.roles, h'.teams.trans h.teams,
    h'.mappings.trans h.mappings⟩

omit [Names] in
/-- What is recomputed from the same groups, with the user in the same ones. -/
theorem Feeds.of_groups (hgroups : s'.groups = s.groups)
    (hin : ∀ g, s'.inGroup u g = s.inGroup u g) (hgranting : s'.groupVaults = s.groupVaults)
    (hvaults : s'.db.vaults = s.db.vaults) (hroles : s'.team.roles = s.team.roles)
    (hteams : s'.team.teams = s.team.teams) (hmappings : s'.team.mappings = s.team.mappings) :
  Feeds teamId u s s'
  := by
  refine ⟨hin, ?_, fun g => by rw [hgroups], hgranting, hvaults, hroles, hteams, hmappings⟩
  simp only [groupNames, hgroups, hin]

omit [Names] in
theorem Spares.refl : Spares teamId u s s := ⟨.refl, .refl⟩

omit [Names] in
theorem Spares.trans (h : Spares teamId u s s') (h' : Spares teamId u s' s'') :
  Spares teamId u s s''
  := ⟨h.feeds.trans h'.feeds, h.rows.trans h'.rows⟩

omit [Names] in
theorem Unchanged.refl : s.Unchanged s
  := ⟨fun _ => rfl, fun _ _ => rfl, fun _ _ => rfl, fun _ => rfl, fun _ => rfl⟩

/-- A user who is recomputed stays so under changes that are not about the user. -/
theorem Recomputed.spares (h : Recomputed teamId u s) (hspares : Spares teamId u s s') :
  Recomputed teamId u s'
  := by
  obtain ⟨s₀, hfeeds, hrows⟩ := h
  exact ⟨s₀, hfeeds.trans hspares.feeds, hrows.trans hspares.rows⟩

/-- The tables of teams after a recomputation. -/
theorem team_syncUserGroups :
  ∃ members, (s.syncUserGroups teamId userId).team = { s.team with members := members }
  := by
  obtain ⟨members, hmembers⟩ : ∃ members, s.team.applyGroupMappingsScoped userId
      (s.groupNames teamId userId) (some teamId) "scim" = { s.team with members := members } :=
    TeamDb.applyGroupMappingsScoped_eq_withMembers
  exact ⟨members, (syncUserGroups_keeps s teamId userId).2.2.2.trans hmembers⟩

/-- A recomputation changes nothing that a recomputation reads. -/
theorem feeds_syncUserGroups :
  Feeds teamId u s (s.syncUserGroups teamId userId)
  := by
  have hsame := (syncUserGroups_spec s teamId userId).1
  obtain ⟨members, hteam⟩ : ∃ members, (s.syncUserGroups teamId userId).team
      = { s.team with members := members } := team_syncUserGroups
  apply Feeds.of_groups hsame.groups (fun g => hsame.inGroup u g) hsame.groupVaults hsame.vaults
  · rw [hteam]
  · rw [hteam]
  · rw [hteam]

theorem recomputed_syncUserGroups :
  Recomputed teamId u (s.syncUserGroups teamId u)
  := ⟨s, feeds_syncUserGroups, .refl⟩

/-- A recomputation is not about the others. -/
theorem spares_syncUserGroups (hne : u ≠ userId) :
  Spares teamId u s (s.syncUserGroups teamId userId)
  := by
  obtain ⟨-, hothers, -⟩ := syncUserGroups_spec s teamId userId
  refine ⟨feeds_syncUserGroups, ⟨fun v => (hothers u v hne).1, fun v => (hothers u v hne).2, ?_⟩⟩
  rw [(syncUserGroups_keeps s teamId userId).2.2.2, TeamDb.get?_applyGroupMappingsScoped]
  cases hm : s.team.members.get? (teamId, u) with
  | none => rfl
  | some m =>
    have huser : m.userId = u := congrArg Prod.snd (Table.key_of_get? hm)
    rw [Option.map_some, if_neg]
    rintro ⟨hplaced, -⟩
    exact hne (huser.symm.trans hplaced)

/-- Each user among some is recomputed with them. -/
theorem syncAll_cases (teamId : Uuid) (users : List Uuid) (s : ScimStore) (u : Uuid) :
  (u ∈ users → Recomputed teamId u (s.syncAll teamId users))
    ∧ (u ∉ users → Spares teamId u s (s.syncAll teamId users))
  := by
  induction users generalizing s with
  | nil => exact ⟨fun h => (List.not_mem_nil h).elim, fun _ => .refl⟩
  | cons userId users ih =>
    rw [syncAll, List.foldl_cons, ← syncAll]
    obtain ⟨hmem, hnot⟩ := ih (s.syncUserGroups teamId userId)
    constructor
    · intro hu
      by_cases hlater : u ∈ users
      · exact hmem hlater
      · obtain rfl := (List.mem_cons.mp hu).resolve_right hlater
        exact recomputed_syncUserGroups.spares (hnot hlater)
    · intro hu
      have hne := List.ne_of_not_mem_cons hu
      exact (spares_syncUserGroups hne).trans (hnot (List.not_mem_of_not_mem_cons hu))

/-! ### Changing the members of a group -/

/-- A user of the team who joins it leaves the others alone. -/
theorem spares_joinTeam (hne : u ≠ userId) :
  Spares teamId u s (s.joinTeam teamId userId).1
  := by
  unfold joinTeam
  cases hdefault : s.team.defaultRoleId teamId with
  | error e => exact .refl
  | ok defaultRole =>
    have hjoined : Spares teamId u s
        (s.withTeam (s.team.joinTeam teamId userId defaultRole "scim")) := by
      refine ⟨.of_groups rfl (fun _ => rfl) rfl rfl rfl rfl rfl, ⟨fun _ => rfl, fun _ => rfl, ?_⟩⟩
      simp [withTeam, TeamDb.joinTeam, hne]
    exact hjoined.trans (spares_syncUserGroups hne)

omit [Names] in
theorem spares_insertGroupMember (hne : u ≠ userId) :
  Spares teamId u s (s.insertGroupMember userId groupId)
  := by
  refine ⟨.of_groups rfl ?_ rfl rfl rfl rfl rfl, ⟨fun _ => rfl, fun _ => rfl, rfl⟩⟩
  intro g
  rw [Bool.eq_iff_iff, inGroup_insertGroupMember]
  simp [hne]

theorem spares_addMember (hne : u ≠ userId) :
  Spares teamId u s (s.addMember teamId groupId userId).1
  := by
  unfold addMember
  split
  · dsimp only
    split
    · exact spares_insertGroupMember hne
    · exact (spares_insertGroupMember hne).trans (spares_joinTeam hne)
  · exact .refl

/-- Naming users leaves the others alone. -/
theorem spares_addMembers (groupId : Uuid) {members : List Uuid} (hu : u ∉ members) :
  Spares teamId u s (s.addMembers teamId groupId members).1
  := by
  induction members generalizing s with
  | nil => exact .refl
  | cons userId members ih =>
    have hfirst : Spares teamId u s (s.addMember teamId groupId userId).1 :=
      spares_addMember (List.ne_of_not_mem_cons hu)
    unfold addMembers
    cases hadd : s.addMember teamId groupId userId with
    | mk s' result =>
    rw [hadd] at hfirst
    cases result with
    | error e => exact hfirst
    | ok _ => exact hfirst.trans (ih (List.not_mem_of_not_mem_cons hu))

omit [Names] in
/-- Taking others out of groups leaves a user alone. -/
theorem spares_removeGroupMembers {p : GroupMember → Bool}
    (hp : ∀ g, s.inGroup u g = true → p ⟨g, u⟩ = false) :
  Spares teamId u s (s.removeGroupMembers p)
  := by
  refine ⟨.of_groups rfl ?_ rfl rfl rfl rfl rfl, ⟨fun _ => rfl, fun _ => rfl, rfl⟩⟩
  intro g
  rw [Bool.eq_iff_iff, inGroup_removeGroupMembers]
  exact ⟨fun h => h.1, fun h => ⟨h, hp g h⟩⟩

/-- When the members of a group are changed, every user is recomputed or not concerned. -/
theorem setMembers_cases {members : List Uuid} {mode : Mode}
    (hok : (s.setMembers teamId groupId members mode).2 = .ok ()) (u : Uuid) :
  Recomputed teamId u (s.setMembers teamId groupId members mode).1
    ∨ Spares teamId u s (s.setMembers teamId groupId members mode).1
  := by
  have hsync : ∀ (s s' : ScimStore) (users : List Uuid), (u ∉ users → Spares teamId u s s') →
      Recomputed teamId u (s'.syncAll teamId (users.insertionSort (· ≤ ·)).dedup)
        ∨ Spares teamId u s (s'.syncAll teamId (users.insertionSort (· ≤ ·)).dedup) := by
    intro s s' users hspares
    have hmem : u ∈ (users.insertionSort (· ≤ ·)).dedup ↔ u ∈ users := by
      rw [List.mem_dedup, List.mem_insertionSort]
    obtain ⟨hcaught, hnot⟩ := syncAll_cases teamId (users.insertionSort (· ≤ ·)).dedup s' u
    by_cases hu : u ∈ users
    · exact .inl (hcaught (hmem.mpr hu))
    · exact .inr ((hspares hu).trans (hnot (mt hmem.mp hu)))
  cases mode with
  | remove =>
    apply hsync
    intro hu
    apply spares_removeGroupMembers
    simp [hu]
  | add =>
    unfold setMembers at hok ⊢
    simp only [reduceCtorEq, if_false] at hok ⊢
    cases hadd : s.addMembers teamId groupId members with
    | mk s' result =>
    rw [hadd] at hok
    cases result with
    | error e => cases hok
    | ok _ =>
      apply hsync
      intro hu
      have hspares : Spares teamId u s (s.addMembers teamId groupId members).1 :=
        spares_addMembers groupId hu
      rw [hadd] at hspares
      exact hspares
  | replace =>
    unfold setMembers at hok ⊢
    simp only [reduceCtorEq, if_false] at hok ⊢
    cases hadd : (s.removeGroupMembers (fun m => decide (m.groupId = groupId))).addMembers teamId
        groupId members with
    | mk s' result =>
    rw [hadd] at hok
    cases result with
    | error e => cases hok
    | ok _ =>
      apply hsync
      intro hu
      rw [List.mem_append, not_or] at hu
      have hremoved : Spares teamId u s
          (s.removeGroupMembers (fun m => decide (m.groupId = groupId))) := by
        apply spares_removeGroupMembers
        intro g hg
        apply decide_eq_false
        rintro rfl
        exact hu.1 (mem_usersOf.mpr hg)
      have hspares := hremoved.trans (spares_addMembers groupId hu.2)
      rw [hadd] at hspares
      exact hspares

/-! ### Who can be put into a group -/

omit [Names] in
theorem SameScope.refl : s.SameScope s teamId := ⟨fun _ => rfl, rfl, rfl⟩

omit [Names] in
theorem SameScope.trans (h : s.SameScope s' teamId) (h' : s'.SameScope s'' teamId) :
  s.SameScope s'' teamId
  := ⟨fun u => (h'.scope u).trans (h.scope u), h'.disabled.trans h.disabled, h'.teams.trans h.teams⟩

/-- Users of the team, who can join it unless disabled. -/
def Enterable (s : ScimStore) (teamId : Uuid) (members : List Uuid) : Prop :=
  ∀ u ∈ members, s.inTeamScope teamId u = true
    ∧ (s.disabled u = true ∨ ((s.team.teams.get? teamId).bind TeamRow.defaultRoleId).isSome = true)

omit [Names] in
theorem SameScope.enterable (h : s.SameScope s' teamId) {members : List Uuid} :
  s'.Enterable teamId members ↔ s.Enterable teamId members
  := by
  simp only [Enterable, h.scope, h.disabled, h.teams]

theorem sameScope_syncUserGroups :
  s.SameScope (s.syncUserGroups teamId userId) teamId
  := by
  obtain ⟨husers, hmanaged, hdisabled, hteam⟩ := syncUserGroups_keeps s teamId userId
  refine ⟨?_, hdisabled, ?_⟩
  · intro u
    unfold inTeamScope
    rw [husers, hmanaged, hteam, TeamDb.isSome_get?_applyGroupMappingsScoped]
  · rw [hteam, TeamDb.teams_applyGroupMappingsScoped]

theorem sameScope_syncAll (users : List Uuid) (s : ScimStore) :
  s.SameScope (s.syncAll teamId users) teamId
  := by
  induction users generalizing s with
  | nil => exact .refl
  | cons u users ih =>
    rw [syncAll, List.foldl_cons, ← syncAll]
    exact sameScope_syncUserGroups.trans (ih _)

/-- A user is put into a group exactly when it can be. -/
theorem addMember_eq_ok_iff :
  (s.addMember teamId groupId userId).2 = .ok () ↔ s.Enterable teamId [userId]
  := by
  have hsingle : s.Enterable teamId [userId] ↔ s.inTeamScope teamId userId = true
      ∧ (s.disabled userId = true
        ∨ ((s.team.teams.get? teamId).bind TeamRow.defaultRoleId).isSome = true) :=
    List.forall_mem_singleton
  rw [hsingle, addMember]
  by_cases hscope : s.inTeamScope teamId userId = true
  case neg => simp [hscope]
  rw [if_pos hscope]
  dsimp only
  by_cases hdisabled : s.disabled userId = true
  · rw [if_pos (show (s.insertGroupMember userId groupId).disabled userId = true from hdisabled)]
    exact iff_of_true rfl ⟨hscope, .inl hdisabled⟩
  · rw [if_neg (show ¬ (s.insertGroupMember userId groupId).disabled userId = true from hdisabled),
      joinTeam_eq_ok_iff]
    exact ⟨fun h => ⟨hscope, .inr h⟩, fun h => h.2.resolve_left hdisabled⟩

theorem sameScope_addMember :
  s.SameScope (s.addMember teamId groupId userId).1 teamId
  := by
  unfold addMember
  split
  · rename_i hscope
    dsimp only
    split
    · exact ⟨fun _ => rfl, rfl, rfl⟩
    · have hjoin := sameScope_joinTeam (s := s.insertGroupMember userId groupId) hscope
      exact ⟨hjoin.scope, hjoin.disabled, hjoin.teams⟩
  · exact .refl

/-- Users are all put into a group exactly when they can be, and the same ones can be after. -/
theorem addMembers_spec (groupId : Uuid) (members : List Uuid) (s : ScimStore) :
  ((s.addMembers teamId groupId members).2 = .ok () ↔ s.Enterable teamId members)
    ∧ s.SameScope (s.addMembers teamId groupId members).1 teamId
  := by
  induction members generalizing s with
  | nil => exact ⟨iff_of_true rfl nofun, .refl⟩
  | cons userId members ih =>
    have hone : (s.addMember teamId groupId userId).2 = .ok () ↔ s.Enterable teamId [userId] :=
      addMember_eq_ok_iff
    have hsame : s.SameScope (s.addMember teamId groupId userId).1 teamId := sameScope_addMember
    have hcons : s.Enterable teamId (userId :: members)
        ↔ s.Enterable teamId [userId] ∧ s.Enterable teamId members := by
      simp [Enterable]
    rw [hcons, ← hone, addMembers]
    cases hadd : s.addMember teamId groupId userId with
    | mk s' result =>
    rw [hadd] at hsame
    cases result with
    | error e => exact ⟨by simp, hsame⟩
    | ok _ =>
      obtain ⟨hok, hrest⟩ := ih s'
      refine ⟨?_, hsame.trans hrest⟩
      rw [hsame.enterable] at hok
      exact hok.trans ⟨fun h => ⟨rfl, h⟩, fun h => h.2⟩

omit [Names] in
theorem sameScope_removeGroupMembers (p : GroupMember → Bool) :
  s.SameScope (s.removeGroupMembers p) teamId
  := ⟨fun _ => rfl, rfl, rfl⟩

/-- Changing the members of a group succeeds exactly when the users named can be put in. -/
theorem setMembers_spec (s : ScimStore) (teamId groupId : Uuid) (members : List Uuid) (mode : Mode) :
  ((s.setMembers teamId groupId members mode).2 = .ok ()
      ↔ mode = .remove ∨ s.Enterable teamId members)
    ∧ s.SameScope (s.setMembers teamId groupId members mode).1 teamId
  := by
  cases mode with
  | remove =>
    refine ⟨iff_of_true rfl (.inl rfl), ?_⟩
    exact (sameScope_removeGroupMembers _).trans (sameScope_syncAll _ _)
  | add =>
    obtain ⟨hok, hsame⟩ : (_ ↔ s.Enterable teamId members) ∧ _ :=
      addMembers_spec groupId members s
    simp only [setMembers, reduceCtorEq, if_false, false_or]
    split
    · rename_i hadd
      rw [hadd] at hok hsame
      exact ⟨hok, hsame⟩
    · rename_i hadd
      rw [hadd] at hok hsame
      exact ⟨hok, hsame.trans (sameScope_syncAll _ _)⟩
  | replace =>
    have hcleared : s.SameScope (s.removeGroupMembers fun m => decide (m.groupId = groupId))
        teamId := sameScope_removeGroupMembers _
    obtain ⟨hok, hsame⟩ := addMembers_spec groupId members
      (s.removeGroupMembers fun m => decide (m.groupId = groupId))
    rw [hcleared.enterable] at hok
    simp only [setMembers, reduceCtorEq, if_false, false_or]
    split
    · rename_i hadd
      rw [hadd] at hok hsame
      exact ⟨hok, hcleared.trans hsame⟩
    · rename_i hadd
      rw [hadd] at hok hsame
      exact ⟨hok, (hcleared.trans hsame).trans (sameScope_syncAll _ _)⟩

/-- The first user to be put into a group cannot be in it, and no user is taken out before. -/
def RefusesMembers (s : ScimStore) (teamId groupId : Uuid) (members : List Uuid) (mode : Mode) : Prop :=
  (mode = .add ∨ mode = .replace ∧ s.usersOf groupId = [])
    ∧ ∃ uid, members.head? = some uid ∧ s.inTeamScope teamId uid = false

/-- Members that are refused change nothing. -/
theorem setMembers_refuses {members : List Uuid} {mode : Mode}
    (h : s.RefusesMembers teamId groupId members mode) :
  (∃ e, (s.setMembers teamId groupId members mode).2 = .error e)
    ∧ s.Unchanged (s.setMembers teamId groupId members mode).1
  := by
  obtain ⟨hmode, uid, hhead, hscope⟩ := h
  obtain ⟨rest, rfl⟩ := List.head?_eq_some_iff.mp hhead
  rcases hmode with rfl | ⟨rfl, hempty⟩
  · have hadd : s.addMembers teamId groupId (uid :: rest)
        = (s, .error (.badRequest s!"member {uid} is not a user of this team")) := by
      simp [addMembers, addMember, hscope]
    simp only [setMembers, reduceCtorEq, if_false, hadd]
    exact ⟨⟨_, rfl⟩, .refl⟩
  · have hscope' : (s.removeGroupMembers (fun m => decide (m.groupId = groupId))).inTeamScope
        teamId uid = false := hscope
    have hadd : (s.removeGroupMembers (fun m => decide (m.groupId = groupId))).addMembers teamId
        groupId (uid :: rest) = (s.removeGroupMembers (fun m => decide (m.groupId = groupId)),
          .error (.badRequest s!"member {uid} is not a user of this team")) := by
      simp [addMembers, addMember, hscope']
    simp only [setMembers, reduceCtorEq, if_false, hadd]
    refine ⟨⟨_, rfl⟩, ⟨fun _ => rfl, ?_, fun _ _ => rfl, fun _ => rfl, fun _ => rfl⟩⟩
    intro u g
    rw [Bool.eq_iff_iff, inGroup_removeGroupMembers]
    constructor
    · exact fun h => h.1
    · intro hin
      refine ⟨hin, decide_eq_false ?_⟩
      rintro rfl
      have hmem := mem_usersOf.mpr hin
      rw [hempty] at hmem
      cases hmem

/-! ### Edits of a group -/

/-- What an operation does to a group: rename it, and then change its members. -/
structure GroupEdit where
  displayName : Option String
  externalId : Option String
  change : Option (List Uuid × Mode)
deriving DecidableEq

/-- What an operation of a patch does. -/
def PatchOp.edit (op : PatchOp) : GroupEdit where
  displayName := if op.renames then op.displayName else none
  externalId := if op.renames then op.externalId else none
  change := op.change

/-- Edit a group. -/
def editGroup (s : ScimStore) (teamId id : Uuid) (e : GroupEdit) : ScimStore × Except Error Unit :=
  match s.renameGroup teamId id e.displayName e.externalId with
  | (s, .error err) => (s, .error err)
  | (s, .ok ()) =>
    match e.change with
    | none => (s, .ok ())
    | some (members, mode) => s.setMembers teamId id members mode

theorem patchOp_eq_editGroup (op : PatchOp) (id : Uuid) :
  s.patchOp teamId id op = s.editGroup teamId id op.edit
  := by
  have hnone : s.renameGroup teamId id none none = (s, .ok ()) := rfl
  unfold patchOp editGroup PatchOp.edit PatchOp.change PatchOp.renames
  dsimp only
  by_cases hobject : op.path = ""
  · simp only [hobject, if_true, true_or, decide_true]
    cases s.renameGroup teamId id op.displayName op.externalId with
    | mk s' result =>
    cases result with
    | error e => rfl
    | ok _ => cases op.members <;> rfl
  · by_cases hname : op.path = "displayName" ∨ op.path = "externalId"
    · simp only [hobject, hname, if_true, if_false, false_or, decide_true]
      cases s.renameGroup teamId id op.displayName op.externalId with
      | mk s' result => cases result <;> rfl
    · simp only [hobject, hname, if_false, false_or, decide_false, Bool.false_eq_true, hnone]
      split
      · rfl
      · cases op.selected with
        | none => simp
        | some uid => by_cases hremove : op.op = "remove" <;> simp [hremove]

/-- Edit a group several times, up to the first edit that fails. -/
def editGroups (teamId id : Uuid) : List GroupEdit → ScimStore → ScimStore × Except Error Unit
  | [], s => (s, .ok ())
  | e :: es, s =>
    match s.editGroup teamId id e with
    | (s, .error err) => (s, .error err)
    | (s, .ok ()) => editGroups teamId id es s

theorem patchOps_eq_editGroups (ops : List PatchOp) (id : Uuid) (s : ScimStore) :
  patchOps teamId id ops s = editGroups teamId id (ops.map PatchOp.edit) s
  := by
  induction ops generalizing s with
  | nil => rfl
  | cons op ops ih =>
    rw [patchOps, List.map_cons, editGroups, patchOp_eq_editGroup]
    cases s.editGroup teamId id op.edit with
    | mk s' result =>
    cases result with
    | error e => rfl
    | ok _ => exact ih s'

namespace GroupEdit

/-- An edit that asks for nothing. -/
def Idle (e : GroupEdit) : Prop := e.displayName = none ∧ e.externalId = none ∧ e.change = none

/-- An edit with a name that is free, and with users who can be put into a group. -/
def Accepted (s : ScimStore) (teamId id : Uuid) (e : GroupEdit) : Prop :=
  (∀ name ∈ e.displayName, s.nameTaken teamId name (some id) = false)
    ∧ ∀ c ∈ e.change, c.2 = .remove ∨ s.Enterable teamId c.1

/-- An edit that is refused before it writes anything. -/
def Refused (s : ScimStore) (teamId id : Uuid) (e : GroupEdit) : Prop :=
  (∃ name ∈ e.displayName, s.nameTaken teamId name (some id) = true)
    ∨ e.displayName = none ∧ e.externalId = none
      ∧ ∃ c ∈ e.change, s.RefusesMembers teamId id c.1 c.2

end GroupEdit

/-- No edit renames a group whose members one before has changed. -/
def RenamesFirst (es : List GroupEdit) : Prop :=
  es.Pairwise (fun e e' => e.change.isSome = true → e'.displayName = none)

/-- All edits are accepted, and none renames the group after its members changed, or the first one
that asks for something is refused before it writes anything. -/
def Whole (s : ScimStore) (teamId id : Uuid) (es : List GroupEdit) : Prop :=
  (∀ e ∈ es, e.Accepted s teamId id) ∧ RenamesFirst es
    ∨ ∃ idle e rest, es = idle ++ e :: rest ∧ (∀ e ∈ idle, e.Idle) ∧ e.Refused s teamId id

/-! ### Edits that are refused -/

theorem editGroup_idle {id : Uuid} {e : GroupEdit} (h : e.Idle) :
  s.editGroup teamId id e = (s, .ok ())
  := by
  obtain ⟨hname, hexternal, hchange⟩ := h
  rw [editGroup, hname, hexternal, hchange]
  rfl

theorem editGroup_refused {id : Uuid} {e : GroupEdit} (h : e.Refused s teamId id) :
  (∃ err, (s.editGroup teamId id e).2 = .error err) ∧ s.Unchanged (s.editGroup teamId id e).1
  := by
  rcases h with ⟨name, hname, htaken⟩ | ⟨hname, hexternal, c, hchange, hrefuses⟩
  · have hren : s.renameGroup teamId id e.displayName e.externalId
        = (s, .error (.conflict "A group with this displayName exists")) := by
      rw [Option.mem_def.mp hname, renameGroup]
      dsimp only
      rw [if_pos htaken]
    rw [editGroup, hren]
    exact ⟨⟨_, rfl⟩, .refl⟩
  · have hedit : s.editGroup teamId id e = s.setMembers teamId id c.1 c.2 := by
      rw [editGroup, hname, hexternal, Option.mem_def.mp hchange]
      rfl
    rw [hedit]
    exact setMembers_refuses hrefuses

theorem editGroups_refused {id : Uuid} {idle : List GroupEdit} {e : GroupEdit}
    (rest : List GroupEdit) (hidle : ∀ e ∈ idle, e.Idle) (h : e.Refused s teamId id) :
  (∃ err, (editGroups teamId id (idle ++ e :: rest) s).2 = .error err)
    ∧ s.Unchanged (editGroups teamId id (idle ++ e :: rest) s).1
  := by
  induction idle with
  | nil =>
    obtain ⟨⟨err, herr⟩, hsame⟩ := editGroup_refused h
    rw [List.nil_append, editGroups]
    cases hedit : s.editGroup teamId id e with
    | mk s' result =>
    rw [hedit] at herr hsame
    dsimp only at herr
    rw [herr]
    exact ⟨⟨err, rfl⟩, hsame⟩
  | cons i idle ih =>
    rw [List.cons_append, editGroups, editGroup_idle (hidle i List.mem_cons_self)]
    exact ih fun e he => hidle e (List.mem_cons_of_mem i he)

/-! ### Edits that are accepted -/

omit [Names] in
/-- Renaming in place what does not count for a reader of names leaves it alone. -/
theorem rows_setGroup (groups : Table ScimGroup) (id : Uuid) (f : ScimGroup → ScimGroup)
    (hf : ∀ g, key (f g) = key g) :
  (groups.set id f hf).rows = groups.rows.map (fun g => if key g = id then f g else g)
  := by
  simp [Table.set, Table.update]

/-- A group has the same names free after it was renamed. -/
theorem nameTaken_setGroup {id : Uuid} (f : ScimGroup → ScimGroup) (hf : ∀ g, key (f g) = key g)
    (name : String) :
  nameTaken { s with groups := s.groups.set id f hf } teamId name (some id)
    = s.nameTaken teamId name (some id)
  := by
  simp only [nameTaken, rows_setGroup, List.any_map]
  congr 1
  funext g
  have hid : (f g).id = g.id := hf g
  by_cases hg : g.id = id
  · simp [hid, hg]
  · simp [hg]

omit [Names] in
/-- Giving a group another external identifier is not about any user. -/
theorem spares_setExternal {id : Uuid} (f : ScimGroup → ScimGroup) (hf : ∀ g, key (f g) = key g)
    (hteam : ∀ g, (f g).teamId = g.teamId) (hname : ∀ g, (f g).displayName = g.displayName) (u : Uuid) :
  Spares teamId u s { s with groups := s.groups.set id f hf }
  := by
  refine ⟨⟨fun _ => rfl, ?_, ?_, rfl, rfl, rfl, rfl, rfl⟩, ⟨fun _ => rfl, fun _ => rfl, rfl⟩⟩
  · simp only [groupNames, Table.select, rows_setGroup, List.filter_map, List.map_map]
    have hfilter : ∀ g ∈ s.groups.rows, ((fun x : ScimGroup => decide (x.teamId = teamId)
          && inGroup { s with groups := s.groups.set id f hf } u x.id)
        ∘ fun g => if key g = id then f g else g) g
          = (decide (g.teamId = teamId) && s.inGroup u g.id) := by
      intro g _
      have hid : (f g).id = g.id := hf g
      rw [Function.comp_apply]
      split
      · simp only [hteam, hid]
        rfl
      · rfl
    have hnames : ∀ g : ScimGroup, (if key g = id then f g else g).displayName = g.displayName := by
      intro g
      split
      · exact hname g
      · rfl
    rw [List.filter_congr hfilter]
    exact List.map_congr_left fun g _ => hnames g
  · intro g
    simp only [Table.get?_set]
    split
    · rename_i hg
      rw [hg, Option.map_map]
      exact Option.map_congr fun x _ => hteam x
    · rfl

/-- A group is renamed to a name that is free, and the same names are free after. -/
theorem renameGroup_free {id : Uuid} {displayName : Option String} (externalId : Option String)
    (h : ∀ name ∈ displayName, s.nameTaken teamId name (some id) = false) :
  ∃ groups, s.renameGroup teamId id displayName externalId = ({ s with groups }, .ok ())
    ∧ (∀ name, nameTaken { s with groups } teamId name (some id) = s.nameTaken teamId name (some id))
    ∧ (displayName = none → ∀ u, Spares teamId u s { s with groups })
  := by
  have hexternal : ∀ s : ScimStore, ∃ groups, s.renameGroup teamId id none externalId
      = ({ s with groups }, .ok ())
      ∧ (∀ name, nameTaken { s with groups } teamId name (some id) = s.nameTaken teamId name (some id))
      ∧ ∀ u, Spares teamId u s { s with groups } := by
    intro s
    cases externalId with
    | none => exact ⟨s.groups, rfl, fun _ => rfl, fun _ => .refl⟩
    | some ext =>
      refine ⟨_, rfl, fun name => nameTaken_setGroup _ _ name, ?_⟩
      apply spares_setExternal
      · intro g
        split <;> rfl
      · intro g
        split <;> rfl
  cases displayName with
  | none =>
    obtain ⟨groups, hren, hfree, hspares⟩ := hexternal s
    exact ⟨groups, hren, hfree, fun _ => hspares⟩
  | some name =>
    let named : ScimStore := { s with
      groups := s.groups.set id
        (fun g => if g.teamId = teamId then { g with displayName := name } else g)
        (fun g => by split <;> rfl) }
    obtain ⟨groups, hren, hfree, -⟩ := hexternal named
    have hnamed : s.renameGroup teamId id (some name) externalId
        = named.renameGroup teamId id none externalId := by
      simp only [renameGroup, h name rfl, Bool.false_eq_true, if_false]
      rfl
    refine ⟨groups, hnamed.trans hren, ?_, ?_⟩
    · intro other
      exact (hfree other).trans (nameTaken_setGroup _ _ other)
    · intro hnone
      cases hnone

/-- What decides whether edits are accepted stays as it is. -/
structure SameChecks (teamId id : Uuid) (s s' : ScimStore) : Prop where
  scope : s.SameScope s' teamId
  names : ∀ name, s'.nameTaken teamId name (some id) = s.nameTaken teamId name (some id)

theorem SameChecks.accepted {id : Uuid} {e : GroupEdit} (h : SameChecks teamId id s s')
    (haccepted : e.Accepted s teamId id) :
  e.Accepted s' teamId id
  := by
  constructor
  · intro name hname
    rw [h.names]
    exact haccepted.1 name hname
  · intro c hc
    exact (haccepted.2 c hc).imp_right h.scope.enterable.mpr

theorem editGroup_accepted {id : Uuid} {e : GroupEdit} (h : e.Accepted s teamId id) :
  (s.editGroup teamId id e).2 = .ok () ∧ SameChecks teamId id s (s.editGroup teamId id e).1
  := by
  obtain ⟨groups, hren, hnames, -⟩ := renameGroup_free e.externalId h.1
  have hrenamed : SameChecks teamId id s { s with groups } :=
    ⟨⟨fun _ => rfl, rfl, rfl⟩, hnames⟩
  rw [editGroup, hren]
  cases hchange : e.change with
  | none => exact ⟨rfl, hrenamed⟩
  | some c =>
    have hsafe := (hrenamed.accepted h).2 c hchange
    obtain ⟨hok, hsame⟩ := setMembers_spec { s with groups } teamId id c.1 c.2
    refine ⟨hok.mpr hsafe, ⟨hrenamed.scope.trans hsame, ?_⟩⟩
    intro name
    rw [nameTaken, groups_setMembers]
    exact hnames name

theorem editGroups_accepted {id : Uuid} {es : List GroupEdit} (h : ∀ e ∈ es, e.Accepted s teamId id) :
  (editGroups teamId id es s).2 = .ok ()
  := by
  induction es generalizing s with
  | nil => rfl
  | cons e es ih =>
    obtain ⟨hok, hsame⟩ := editGroup_accepted (h e List.mem_cons_self)
    rw [editGroups]
    cases hedit : s.editGroup teamId id e with
    | mk s' result =>
    rw [hedit] at hok hsame
    dsimp only at hok
    rw [hok]
    exact ih fun e' he' => hsame.accepted (h e' (List.mem_cons_of_mem e he'))

/-! ### Who is recomputed -/

/-- Every user who came into a group or left it is recomputed. -/
def Caught (teamId id : Uuid) (s s' : ScimStore) : Prop :=
  ∀ u, s'.inGroup u id ≠ s.inGroup u id → Recomputed teamId u s'

theorem Caught.spares {id : Uuid} {s₀ : ScimStore} (h : Caught teamId id s₀ s)
    (hcases : ∀ u, Recomputed teamId u s' ∨ Spares teamId u s s') :
  Caught teamId id s₀ s'
  := by
  intro u hu
  rcases hcases u with hcaught | hspares
  · exact hcaught
  · rw [hspares.feeds.inGroup] at hu
    exact (h u hu).spares hspares

/-- One edit that succeeds, when it renames the group only while its members are as before. -/
theorem Caught.editGroup {id : Uuid} {s₀ : ScimStore} {e : GroupEdit} (h : Caught teamId id s₀ s)
    (hnamed : e.displayName.isSome = true → ∀ u, s.inGroup u id = s₀.inGroup u id)
    (haccepted : e.Accepted s teamId id) :
  Caught teamId id s₀ (s.editGroup teamId id e).1
    ∧ (e.change = none → ∀ u, (s.editGroup teamId id e).1.inGroup u id = s.inGroup u id)
  := by
  obtain ⟨groups, hren, -, hspares⟩ := renameGroup_free e.externalId haccepted.1
  have hrenamed : Caught teamId id s₀ { s with groups } := by
    cases hname : e.displayName with
    | none => exact h.spares fun u => .inr (hspares hname u)
    | some name => exact fun u hu => absurd (hnamed (by rw [hname]; rfl) u) hu
  have hok := (editGroup_accepted haccepted).1
  rw [ScimStore.editGroup, hren] at hok ⊢
  cases hchange : e.change with
  | none => exact ⟨hrenamed, fun _ _ => rfl⟩
  | some c =>
    rw [hchange] at hok
    exact ⟨hrenamed.spares (setMembers_cases hok), nofun⟩

/-- Edits that are accepted leave every user who came into the group or left it recomputed, when none
renames the group after its members changed. -/
theorem Caught.editGroups {id : Uuid} {s₀ : ScimStore} {es : List GroupEdit}
    (h : Caught teamId id s₀ s)
    (hnamed : ∀ e ∈ es, e.displayName.isSome = true → ∀ u, s.inGroup u id = s₀.inGroup u id)
    (hfirst : RenamesFirst es) (haccepted : ∀ e ∈ es, e.Accepted s teamId id) :
  Caught teamId id s₀ (editGroups teamId id es s).1
  := by
  induction es generalizing s with
  | nil => exact h
  | cons e es ih =>
    obtain ⟨hlater, hfirst⟩ := List.pairwise_cons.mp hfirst
    have heAccepted := haccepted e List.mem_cons_self
    obtain ⟨hok, hsame⟩ := editGroup_accepted heAccepted
    obtain ⟨hcaught, hkept⟩ := h.editGroup (hnamed e List.mem_cons_self) heAccepted
    rw [ScimStore.editGroups]
    cases hedit : s.editGroup teamId id e with
    | mk s' result =>
    rw [hedit] at hok hsame hcaught hkept
    dsimp only at hok
    rw [hok]
    apply ih hcaught
    · intro e' he' hname u
      cases hchange : e.change with
      | none =>
        exact (hkept hchange u).trans (hnamed e' (List.mem_cons_of_mem e he') hname u)
      | some c =>
        rw [hlater e' he' (by rw [hchange]; rfl)] at hname
        cases hname
    · exact hfirst
    · exact fun e' he' => hsame.accepted (haccepted e' (List.mem_cons_of_mem e he'))

/-! ### All or nothing -/

/-- A group can be created under the name and the identifier. -/
def Creatable (s : ScimStore) (teamId id : Uuid) (name : String) : Prop :=
  name.utf8ByteSize ≤ 200 ∧ s.nameTaken teamId name none = false ∧ s.groups.get? id = none

/-- A request that is accepted as a whole, or refused before it writes anything. -/
def Clean (s : ScimStore) (teamId : Uuid) : GroupRequest → Prop
  | .create id displayName _ members =>
      ∀ name ∈ displayName, s.Creatable teamId id name → s.Enterable teamId members
  | .put id displayName externalId members => (s.loadGroup teamId id).isSome = true →
      s.Whole teamId id [⟨displayName, externalId, members.map fun members => (members, .replace)⟩]
  | .patch id schema ops => (s.loadGroup teamId id).isSome = true → schema = true →
      s.Whole teamId id (ops.map PatchOp.edit)

/-- What a request for edits does to a group of the team. -/
theorem Whole.editGroups {id : Uuid} {es : List GroupEdit} (h : s.Whole teamId id es) :
  (∀ err, (editGroups teamId id es s).2 = .error err → s.Unchanged (editGroups teamId id es s).1)
    ∧ ((editGroups teamId id es s).2 = .ok () →
        Caught teamId id s (ScimStore.editGroups teamId id es s).1)
  := by
  rcases h with ⟨haccepted, hfirst⟩ | ⟨idle, e, rest, rfl, hidle, hrefused⟩
  · have hok := editGroups_accepted haccepted
    have hnone : Caught teamId id s s := fun u hu => absurd rfl hu
    constructor
    · intro err herr
      cases hok.symm.trans herr
    · exact fun _ => hnone.editGroups (fun _ _ _ _ => rfl) hfirst haccepted
  · obtain ⟨⟨err, herr⟩, hsame⟩ := editGroups_refused rest hidle hrefused
    exact ⟨fun _ _ => hsame, fun hok => by cases herr.symm.trans hok⟩

theorem putGroup_eq_editGroups {id : Uuid} {displayName externalId : Option String}
    {members : Option (List Uuid)} {x : ScimGroup} (hload : s.loadGroup teamId id = some x) :
  s.putGroup teamId id displayName externalId members
    = editGroups teamId id
        [⟨displayName, externalId, members.map fun members => (members, .replace)⟩] s
  := by
  have hlast : ∀ r : ScimStore × Except Error Unit, (match r with
      | (s, .error err) => (s, .error err)
      | (s, .ok ()) => editGroups teamId id [] s) = r := by
    rintro ⟨s', e | _⟩ <;> rfl
  rw [putGroup, hload, editGroups, hlast, editGroup]
  dsimp only
  cases s.renameGroup teamId id displayName externalId with
  | mk s' result =>
  cases result with
  | error e => rfl
  | ok _ => cases members <;> rfl

/-- A group that can be created is filled from the members named, and one that cannot is not
written. -/
theorem createGroup_cases (s : ScimStore) (teamId id : Uuid) (displayName externalId : Option String)
    (members : List Uuid) :
  (∀ name ∈ displayName, ¬ s.Creatable teamId id name)
      ∧ (∃ err, s.createGroup teamId id displayName externalId members = (s, .error err))
    ∨ ∃ name groups, displayName = some name ∧ s.Creatable teamId id name
      ∧ s.groups.insert ⟨id, teamId, externalId, name⟩ = some groups
      ∧ s.createGroup teamId id displayName externalId members
        = setMembers { s with groups } teamId id members .replace
  := by
  cases displayName with
  | none =>
    refine .inl ⟨?_, _, rfl⟩
    intro name hname
    cases hname
  | some name =>
    simp only [Option.mem_some_iff, forall_eq', Option.some.injEq, exists_and_left, exists_eq_left',
      createGroup, Creatable]
    by_cases hlength : name.utf8ByteSize ≤ 200
    case neg =>
      rw [if_pos (Nat.not_le.mp hlength)]
      exact .inl ⟨fun h => hlength h.1, _, rfl⟩
    rw [if_neg (Nat.not_lt.mpr hlength)]
    cases hfree : s.nameTaken teamId name none with
    | true =>
      refine .inl ⟨?_, _, rfl⟩
      rintro ⟨-, hname, -⟩
      cases hname
    | false =>
      rw [if_neg Bool.false_ne_true]
      cases hinsert : s.groups.insert ⟨id, teamId, externalId, name⟩ with
      | none =>
        left
        refine ⟨fun h => ?_, _, rfl⟩
        have hsome := Table.insert_isSome_iff.mpr (show s.groups.get? (key
          (⟨id, teamId, externalId, name⟩ : ScimGroup)) = none from h.2.2)
        rw [hinsert] at hsome
        cases hsome
      | some groups =>
        right
        refine ⟨⟨hlength, rfl, ?_⟩, groups, rfl, rfl⟩
        have hid := Table.insert_isSome_iff.mp (show (s.groups.insert
          ⟨id, teamId, externalId, name⟩).isSome = true by rw [hinsert]; rfl)
        exact hid

/-- A request that is refused at once does nothing. -/
theorem allOrNothing_of_refused {req : GroupRequest} {err : Error}
    (h : s.handleGroup teamId req = (s, .error err)) :
  s.AllOrNothing teamId req
  := by
  constructor
  · intro _ _
    rw [h]
    exact .refl
  · intro hok
    rw [h] at hok
    cases hok

/-- A request does all or nothing when it is accepted as a whole, without renaming the group after a
change of its members, or refused before it writes anything. -/
theorem allOrNothing_of_clean (s : ScimStore) (teamId : Uuid) (req : GroupRequest)
    (h : s.Clean teamId req) :
  s.AllOrNothing teamId req
  := by
  cases req with
  | create id displayName externalId members =>
    rcases createGroup_cases s teamId id displayName externalId members with
      ⟨-, err, hcreate⟩ | ⟨name, groups, rfl, hcreatable, -, hcreate⟩
    · exact allOrNothing_of_refused hcreate
    · have henterable : Enterable { s with groups } teamId members := h name rfl hcreatable
      have hok : (setMembers { s with groups } teamId id members .replace).2 = .ok () :=
        (setMembers_spec _ teamId id members .replace).1.mpr (.inr henterable)
      constructor
      · intro err herr
        rw [handleGroup, hcreate, hok] at herr
        cases herr
      · intro _ u hu
        rw [handleGroup, hcreate] at hu ⊢
        rcases setMembers_cases hok u with hcaught | hspares
        · exact hcaught
        · exact absurd (hspares.feeds.inGroup id) hu
  | put id displayName externalId members =>
    cases hload : s.loadGroup teamId id with
    | none =>
      apply allOrNothing_of_refused
      rw [handleGroup, putGroup, hload]
    | some x =>
      obtain ⟨hnothing, hall⟩ := (h (by rw [hload]; rfl)).editGroups
      have hput : s.handleGroup teamId (.put id displayName externalId members) = _ :=
        putGroup_eq_editGroups hload
      constructor
      · rw [hput]
        exact hnothing
      · rw [hput]
        exact hall
  | patch id schema ops =>
    cases hload : s.loadGroup teamId id with
    | none =>
      apply allOrNothing_of_refused
      rw [handleGroup, patchGroup, hload]
    | some x =>
      cases schema with
      | false =>
        apply allOrNothing_of_refused
        rw [handleGroup, patchGroup, hload]
        rfl
      | true =>
        obtain ⟨hnothing, hall⟩ := (h (by rw [hload]; rfl) rfl).editGroups
        have hpatch : s.handleGroup teamId (.patch id true ops)
            = editGroups teamId id (ops.map PatchOp.edit) s := by
          rw [handleGroup, patchGroup, hload]
          exact patchOps_eq_editGroups ops id s
        constructor
        · rw [hpatch]
          exact hnothing
        · rw [hpatch]
          exact hall

/-- Creating a group does all or nothing exactly when the users named can be put in, or the group
is not created. -/
theorem allOrNothing_create_iff (s : ScimStore) (teamId id : Uuid)
    (displayName externalId : Option String) (members : List Uuid) :
  s.AllOrNothing teamId (.create id displayName externalId members)
    ↔ s.Clean teamId (.create id displayName externalId members)
  := by
  constructor
  · intro h name hname hcreatable
    rcases createGroup_cases s teamId id displayName externalId members with
      ⟨hnone, -⟩ | ⟨_, groups, -, -, hinsert, hcreate⟩
    · exact absurd hcreatable (hnone name hname)
    · by_contra hnot
      obtain ⟨hok, -⟩ := setMembers_spec { s with groups } teamId id members .replace
      cases hresult : (setMembers { s with groups } teamId id members .replace).2 with
      | ok _ => exact hnot ((hok.mp hresult).resolve_left nofun)
      | error err =>
        have hgroups := (h.nothing err (by rw [handleGroup, hcreate, hresult])).groups id
        rw [handleGroup, hcreate, groups_setMembers, Table.get?_insert hinsert, hcreatable.2.2] at hgroups
        simp at hgroups
  · exact allOrNothing_of_clean s teamId _

end

end ScimStore

/-! ### A group of one user -/

section
open ScimStore

/-- The team of user 1 with the group `staff`, which user 2 is in. -/
def staffed : ScimStore :=
  (@createGroup plainNames ungrouped.toScimStore 3 50 (some "staff") none [2]).1

/-- User 1 is put into the group and user 2 is taken out, in one patch. -/
def swapped : GroupRequest :=
  .patch 50 true [⟨"add", "members", none, none, none, [1], none⟩,
    ⟨"remove", "members", none, none, none, [2], none⟩]

theorem allOrNothing_swapped :
  @AllOrNothing plainNames staffed 3 swapped
  := by
  apply @allOrNothing_of_clean plainNames staffed 3 swapped
  intro _ _
  left
  have hedits : [(⟨"add", "members", none, none, none, [1], none⟩ : PatchOp),
      ⟨"remove", "members", none, none, none, [2], none⟩].map PatchOp.edit
      = [⟨none, none, some ([1], .add)⟩, ⟨none, none, some ([2], .remove)⟩] := by
    decide
  have henterable : staffed.Enterable 3 [1] := by
    unfold Enterable
    decide +kernel
  rw [hedits]
  constructor
  · intro e he
    rcases List.mem_pair.mp he with rfl | rfl
    · refine ⟨nofun, ?_⟩
      rintro c ⟨⟩
      exact .inr henterable
    · refine ⟨nofun, ?_⟩
      rintro c ⟨⟩
      exact .inl rfl
  · exact List.pairwise_pair.mpr fun _ => rfl

/-- The members of the group are replaced by someone who is not of the team: the request fails, and
no one is in the group any more. -/
theorem not_allOrNothing_stranger :
  ¬ @AllOrNothing plainNames staffed 3 (.put 50 none none (some [77]))
  := by
  intro h
  have hfails : (@handleGroup plainNames staffed 3 (.put 50 none none (some [77]))).2
      = .error (.badRequest "member 77 is not a user of this team") := by
    decide +kernel
  have hin := (@AllOrNothing.nothing plainNames _ _ _ h _ hfails).inGroup 2 50
  revert hin
  decide +kernel

end

end Termoso.Server
