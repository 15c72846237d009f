import Termoso.Server.Scim
import Termoso.Server.Sso
import Mathlib.Data.List.Dedup

/-!
# Recomputing the vaults of a user

A user who is in a group is to be a member of its vaults, and no longer when out of the last one
that grants a vault.  While a request changes groups, the members of the users it touches are
pending, until each of them is recomputed.
-/

namespace Termoso.Server

namespace ScimStore

/-! ### What a recomputation leaves alone -/

/-- Two stores that differ in the members of vaults and of teams only. -/
structure SameGroups (s s' : ScimStore) : Prop where
  groups : s'.groups = s.groups
  groupMembers : s'.groupMembers = s.groupMembers
  groupVaults : s'.groupVaults = s.groupVaults
  vaults : s'.db.vaults = s.db.vaults

theorem SameGroups.refl (s : ScimStore) :
  s.SameGroups s
  := ⟨rfl, rfl, rfl, rfl⟩

theorem SameGroups.trans {s s' s'' : ScimStore} (h : s.SameGroups s') (h' : s'.SameGroups s'') :
  s.SameGroups s''
  := ⟨h'.groups.trans h.groups, h'.groupMembers.trans h.groupMembers,
    h'.groupVaults.trans h.groupVaults, h'.vaults.trans h.vaults⟩

section
variable {s s' : ScimStore} {teamId userId vaultId : Uuid}

theorem SameGroups.inGroup (h : s.SameGroups s') (userId groupId : Uuid) :
  s'.inGroup userId groupId = s.inGroup userId groupId
  := by
  rw [ScimStore.inGroup, h.groupMembers, ScimStore.inGroup]

theorem SameGroups.inGrantingGroup (h : s.SameGroups s') (userId vaultId : Uuid) :
  s'.inGrantingGroup userId vaultId = s.inGrantingGroup userId vaultId
  := by
  simp only [ScimStore.inGrantingGroup, h.groupVaults, h.inGroup]

theorem SameGroups.grants (h : s.SameGroups s') (teamId userId : Uuid) :
  s'.grants teamId userId = s.grants teamId userId
  := by
  funext g
  simp only [ScimStore.grants, h.inGroup, h.groups, h.vaults]

/-- Some group of the team grants the live vault to the user. -/
def Granted (s : ScimStore) (teamId userId vaultId : Uuid) : Prop :=
  ∃ g ∈ s.groupVaults.rows, g.vaultId = vaultId ∧ s.grants teamId userId g = true

theorem SameGroups.granted (h : s.SameGroups s') (teamId userId vaultId : Uuid) :
  s'.Granted teamId userId vaultId ↔ s.Granted teamId userId vaultId
  := by
  simp only [Granted, h.groupVaults, h.grants]

theorem inGrantingGroup_eq_true :
  s.inGrantingGroup userId vaultId = true
    ↔ ∃ g ∈ s.groupVaults.rows, g.vaultId = vaultId ∧ s.inGroup userId g.groupId = true
  := by
  simp [inGrantingGroup]

theorem Granted.inGrantingGroup (h : s.Granted teamId userId vaultId) :
  s.inGrantingGroup userId vaultId = true
  := by
  obtain ⟨g, hg, hvault, hgrants⟩ := h
  simp only [grants, Bool.and_eq_true] at hgrants
  exact inGrantingGroup_eq_true.mpr ⟨g, hg, hvault, hgrants.1.1⟩

/-- The strongest grants are of the vaults that some group of the team grants. -/
theorem exists_strongestGrant_iff :
  (∃ g ∈ s.strongestGrants teamId userId, g.vaultId = vaultId) ↔ s.Granted teamId userId vaultId
  := by
  have hmem : ∀ v g, (((s.groupVaults.select (s.grants teamId userId)).filter
      (fun g => decide (g.vaultId = v))).insertionSort
      (fun g g' => vaultRoleRank g.vaultRole ≤ vaultRoleRank g'.vaultRole)).head? = some g →
      g ∈ s.groupVaults.rows ∧ s.grants teamId userId g = true ∧ g.vaultId = v := by
    intro v g h
    have hg := List.mem_of_mem_head? (Option.mem_def.mpr h)
    rw [List.mem_insertionSort, List.mem_filter, Table.select, List.mem_filter] at hg
    exact ⟨hg.1.1, hg.1.2, of_decide_eq_true hg.2⟩
  simp only [strongestGrants, List.mem_filterMap]
  constructor
  · rintro ⟨g, ⟨v, -, hhead⟩, rfl⟩
    obtain ⟨hg, hgrants, -⟩ := hmem v g hhead
    exact ⟨g, hg, rfl, hgrants⟩
  · rintro ⟨g, hg, rfl, hgrants⟩
    have hsel : g ∈ s.groupVaults.select (s.grants teamId userId) :=
      List.mem_filter.mpr ⟨hg, hgrants⟩
    cases hhead : (((s.groupVaults.select (s.grants teamId userId)).filter
        (fun g' => decide (g'.vaultId = g.vaultId))).insertionSort
        (fun g g' => vaultRoleRank g.vaultRole ≤ vaultRoleRank g'.vaultRole)).head? with
    | none =>
      have hempty := List.head?_eq_none_iff.mp hhead
      have hin : g ∈ (s.groupVaults.select (s.grants teamId userId)).filter
          (fun g' => decide (g'.vaultId = g.vaultId)) := by simp [hsel]
      rw [← List.mem_insertionSort (fun g g' => vaultRoleRank g.vaultRole ≤ vaultRoleRank g'.vaultRole),
        hempty] at hin
      cases hin
    | some g' =>
      refine ⟨g', ⟨g.vaultId, ?_, hhead⟩, (hmem _ _ hhead).2.2⟩
      exact List.mem_dedup.mpr (List.mem_map_of_mem hsel)

/-! ### The rows after a recomputation -/

/-- Granting vaults to a user leaves the groups and the rows of others. -/
theorem foldl_upsertGrant (userId : Uuid) (gs : List GroupVault) (s : ScimStore) :
  s.SameGroups (gs.foldl (upsertGrant userId) s)
    ∧ ∀ u v, (u ≠ userId ∨ ∀ g ∈ gs, g.vaultId ≠ v) →
      (gs.foldl (upsertGrant userId) s).member u v = s.member u v
        ∧ (gs.foldl (upsertGrant userId) s).grantedByGroup (v, u) = s.grantedByGroup (v, u)
  := by
  induction gs generalizing s with
  | nil => exact ⟨.refl _, fun u v _ => ⟨rfl, rfl⟩⟩
  | cons g gs ih =>
    obtain ⟨hsame, hrows⟩ := ih (s.upsertGrant userId g)
    have hfirst : s.SameGroups (s.upsertGrant userId g) := ⟨rfl, rfl, rfl, rfl⟩
    constructor
    · exact hfirst.trans hsame
    · intro u v h
      have hother : u ≠ userId ∨ ∀ g' ∈ gs, g'.vaultId ≠ v :=
        h.imp_right (fun h g' hg' => h g' (List.mem_cons_of_mem g hg'))
      have hne : (v, u) ≠ (g.vaultId, userId) := by
        rintro heq
        cases heq
        rcases h with h | h
        · exact h rfl
        · exact h g List.mem_cons_self rfl
      rw [List.foldl_cons, (hrows u v hother).1, (hrows u v hother).2]
      constructor
      · simp [member, upsertGrant, hne]
      · simp [upsertGrant, hne]

/-- A granted vault has the user as a member, marked as granted by a group. -/
theorem foldl_upsertGrant_granted (userId : Uuid) {gs : List GroupVault} {g : GroupVault} (hg : g ∈ gs)
    (s : ScimStore) :
  ((gs.foldl (upsertGrant userId) s).member userId g.vaultId).isSome = true
    ∧ ((gs.foldl (upsertGrant userId) s).grantedByGroup (g.vaultId, userId)).isSome = true
  := by
  have hkeep : ∀ (gs : List GroupVault) (s : ScimStore),
      (s.member userId g.vaultId).isSome = true ∧ (s.grantedByGroup (g.vaultId, userId)).isSome = true →
      ((gs.foldl (upsertGrant userId) s).member userId g.vaultId).isSome = true
        ∧ ((gs.foldl (upsertGrant userId) s).grantedByGroup (g.vaultId, userId)).isSome = true := by
    intro gs
    induction gs with
    | nil => exact fun s h => h
    | cons g' gs ih =>
      intro s h
      apply ih
      by_cases heq : g.vaultId = g'.vaultId
      · simp [member, upsertGrant, heq]
      · simpa [member, upsertGrant, heq] using h
  induction gs generalizing s with
  | nil => cases hg
  | cons g' gs ih =>
    rcases List.mem_cons.mp hg with rfl | hg
    · exact hkeep gs _ (by simp [member, upsertGrant])
    · exact ih hg _

variable [Names]

/-- A recomputation leaves the groups and the rows of others. A vault that no group of the team
grants keeps the user as a member, unless the user was granted it by groups and no group does. A
vault that one grants gets the user as a member, marked as granted by a group. -/
theorem syncUserGroups_spec (s : ScimStore) (teamId userId : Uuid) :
  s.SameGroups (s.syncUserGroups teamId userId)
    ∧ (∀ u v, u ≠ userId → (s.syncUserGroups teamId userId).member u v = s.member u v
        ∧ (s.syncUserGroups teamId userId).grantedByGroup (v, u) = s.grantedByGroup (v, u))
    ∧ (∀ v, ¬s.Granted teamId userId v →
        (s.syncUserGroups teamId userId).member userId v
          = (s.member userId v).filter (fun m => !s.orphaned teamId userId m)
        ∧ (s.syncUserGroups teamId userId).grantedByGroup (v, userId) = s.grantedByGroup (v, userId))
    ∧ (∀ v, s.Granted teamId userId v →
        ((s.syncUserGroups teamId userId).member userId v).isSome = true
        ∧ ((s.syncUserGroups teamId userId).grantedByGroup (v, userId)).isSome = true)
  := by
  let mapped := s.withTeam (s.team.applyGroupMappingsScoped userId (s.groupNames teamId userId)
    (some teamId) "scim")
  have hmapped : s.SameGroups mapped := ⟨rfl, rfl, rfl, rfl⟩
  let upserted := (mapped.strongestGrants teamId userId).foldl (upsertGrant userId) mapped
  obtain ⟨hsame, hrows⟩ := foldl_upsertGrant userId
    (mapped.strongestGrants teamId userId) mapped
  have hupserted : s.SameGroups upserted := hmapped.trans hsame
  have hmember : ∀ u v, (s.syncUserGroups teamId userId).member u v
      = (upserted.member u v).filter (fun m => !upserted.orphaned teamId userId m) :=
    fun u v => Table.get?_delete _ _ _
  have hcolumn : ∀ k, (s.syncUserGroups teamId userId).grantedByGroup k
      = upserted.grantedByGroup k := fun k => rfl
  refine ⟨⟨hupserted.groups, hupserted.groupMembers, hupserted.groupVaults, hupserted.vaults⟩, ?_, ?_,
    ?_⟩
  · intro u v hne
    obtain ⟨h, h'⟩ := hrows u v (.inl hne)
    rw [hcolumn, h']
    refine ⟨?_, rfl⟩
    rw [hmember, h]
    cases hm : mapped.member u v with
    | none => exact hm.symm
    | some m =>
      have huser : m.userId = u := congrArg Prod.snd (Table.key_of_get? hm)
      have : upserted.orphaned teamId userId m = false := by
        simp [orphaned, huser, hne]
      rw [Option.filter_some, this]
      exact hm.symm
  · intro v hno
    have hnone : ∀ g ∈ mapped.strongestGrants teamId userId, g.vaultId ≠ v := by
      intro g hg hv
      apply hno
      rw [← hmapped.granted]
      exact exists_strongestGrant_iff.mp ⟨g, hg, hv⟩
    obtain ⟨h, h'⟩ := hrows userId v (.inr hnone)
    rw [hcolumn, h']
    refine ⟨?_, rfl⟩
    rw [hmember, h]
    change (s.member userId v).filter _ = _
    cases hm : s.member userId v with
    | none => rfl
    | some m =>
      have hkey : (m.vaultId, m.userId) = (v, userId) := Table.key_of_get? hm
      have hvault : m.vaultId = v := congrArg Prod.fst hkey
      have huser : m.userId = userId := congrArg Prod.snd hkey
      have : upserted.orphaned teamId userId m = s.orphaned teamId userId m := by
        simp only [orphaned, huser, hvault, hupserted.inGrantingGroup, hupserted.vaults]
        rw [h']
        rfl
      rw [Option.filter_some, Option.filter_some, this]
  · intro v hgranted
    obtain ⟨g, hg, rfl⟩ := exists_strongestGrant_iff.mpr ((hmapped.granted _ _ _).mpr hgranted)
    obtain ⟨hsome, hmark⟩ := foldl_upsertGrant_granted userId hg mapped
    refine ⟨?_, hmark⟩
    rw [hmember]
    obtain ⟨m, hm⟩ := Option.isSome_iff_exists.mp hsome
    have hkey : (m.vaultId, m.userId) = (g.vaultId, userId) := Table.key_of_get? hm
    have hvault : m.vaultId = g.vaultId := congrArg Prod.fst hkey
    have : upserted.orphaned teamId userId m = false := by
      simp [orphaned, hvault, hupserted.inGrantingGroup, hgranted.inGrantingGroup]
    rw [show upserted.member userId g.vaultId = some m from hm, Option.filter_some, this]
    rfl

end

/-! ### The invariant -/

section
variable (manual : Uuid × Uuid → Option VaultRole)

/-- Groups grant live vaults of their team, and no one is a member of a vault both by hand and by a
group. -/
structure Apart (s : ScimStore) : Prop where
  vaults : ∀ g ∈ s.groupVaults.rows, ∃ x, s.groups.get? g.groupId = some x
    ∧ ∃ v, s.db.vaults.get? g.vaultId = some v ∧ v.deleted = false ∧ v.teamId = some x.teamId
  byHand : ∀ v u role, manual (v, u) = some role →
    (∃ m, s.member u v = some m ∧ m.role = role) ∧ s.grantedByGroup (v, u) = none
      ∧ s.inGrantingGroup u v = false

/-- Whether a vault is of a team. -/
def ofTeam (s : ScimStore) (teamId vaultId : Uuid) : Bool :=
  (s.db.vaults.get? vaultId).any (fun v => decide (v.teamId = some teamId))

/-- The members that no one added by hand are marked, and in a group that grants the vault, up to a
recomputation: users who are `stale` may have lost a mark, and a `pending` user the last group. -/
structure Tracked (teamId : Uuid) (stale : Uuid → Prop) (pending : Uuid → Uuid → Prop)
    (s : ScimStore) : Prop extends Apart manual s where
  marked : ∀ v u, (s.member u v).isSome = true → manual (v, u) = none →
    (s.grantedByGroup (v, u)).isSome = true ∨ stale u ∧ s.Granted teamId u v
  granted : ∀ v u, (s.member u v).isSome = true → manual (v, u) = none →
    s.inGrantingGroup u v = true ∨ pending u v ∧ s.ofTeam teamId v = true

/-- Nothing is left to recompute. -/
structure Settled (s : ScimStore) : Prop extends Apart manual s where
  marked : ∀ v u, (s.member u v).isSome = true → manual (v, u) = none →
    (s.grantedByGroup (v, u)).isSome = true
  granted : ∀ v u, (s.member u v).isSome = true → manual (v, u) = none →
    s.inGrantingGroup u v = true

end

section
variable {manual : Uuid × Uuid → Option VaultRole} {s s' : ScimStore} {teamId userId groupId : Uuid}
  {stale stale' : Uuid → Prop} {pending pending' : Uuid → Uuid → Prop}

theorem Settled.tracked (h : Settled manual s) :
  Tracked manual teamId stale pending s
  where
  toApart := h.toApart
  marked v u hm hnone := .inl (h.marked v u hm hnone)
  granted v u hm hnone := .inl (h.granted v u hm hnone)

theorem Tracked.mono (h : Tracked manual teamId stale pending s) (hstale : ∀ u, stale u → stale' u)
    (hpending : ∀ u v, pending u v → pending' u v) :
  Tracked manual teamId stale' pending' s
  where
  toApart := h.toApart
  marked v u hm hnone := (h.marked v u hm hnone).imp_right (fun h => ⟨hstale u h.1, h.2⟩)
  granted v u hm hnone := (h.granted v u hm hnone).imp_right (fun h => ⟨hpending u v h.1, h.2⟩)

/-- Nothing is left to recompute when whoever is pending is in a group that grants the vault. -/
theorem Tracked.settled (h : Tracked manual teamId stale pending s) (hstale : ∀ u, ¬stale u)
    (hpending : ∀ u v, pending u v → (s.member u v).isSome = true → s.inGrantingGroup u v = true) :
  Settled manual s
  where
  toApart := h.toApart
  marked v u hm hnone := (h.marked v u hm hnone).resolve_right (fun h => hstale u h.1)
  granted v u hm hnone := (h.granted v u hm hnone).elim id (fun h => hpending u v h.1 hm)

/-- A recomputation leaves nothing to recompute for the user. -/
theorem Tracked.syncUserGroups [Names] (h : Tracked manual teamId stale pending s) (userId : Uuid) :
  Tracked manual teamId (fun u => u ≠ userId ∧ stale u) (fun u v => u ≠ userId ∧ pending u v)
    (s.syncUserGroups teamId userId)
  := by
  obtain ⟨hsame, hothers, hkept, hadded⟩ := syncUserGroups_spec s teamId userId
  constructor
  · constructor
    · rw [hsame.groupVaults, hsame.groups, hsame.vaults]
      exact h.vaults
    · intro v u role hmanual
      obtain ⟨⟨m, hm, hrole⟩, hcolumn, hno⟩ := h.byHand v u role hmanual
      rw [hsame.inGrantingGroup]
      by_cases hu : u = userId
      · subst hu
        have hnot : ¬s.Granted teamId u v := fun hg => by
          rw [hg.inGrantingGroup] at hno
          cases hno
        obtain ⟨hmember, hmark⟩ := hkept v hnot
        have hkey : (m.vaultId, m.userId) = (v, u) := Table.key_of_get? hm
        refine ⟨⟨m, ?_, hrole⟩, hmark.trans hcolumn, hno⟩
        rw [hmember, hm]
        simp [orphaned, hkey, hcolumn]
      · obtain ⟨hmember, hmark⟩ := hothers u v hu
        exact ⟨⟨m, hmember.trans hm, hrole⟩, hmark.trans hcolumn, hno⟩
  · intro v u hm hnone
    by_cases hu : u = userId
    · subst hu
      left
      by_cases hg : s.Granted teamId u v
      · exact (hadded v hg).2
      · obtain ⟨hmember, hmark⟩ := hkept v hg
        rw [hmark]
        rw [hmember] at hm
        have hbefore : (s.member u v).isSome = true := Option.isSome_of_isSome_filter _ _ hm
        exact (h.marked v u hbefore hnone).resolve_right (fun h => hg h.2)
    · obtain ⟨hmember, hmark⟩ := hothers u v hu
      rw [hmark, hsame.granted]
      rw [hmember] at hm
      exact (h.marked v u hm hnone).imp_right (fun h => ⟨⟨hu, h.1⟩, h.2⟩)
  · intro v u hm hnone
    rw [hsame.inGrantingGroup]
    have hteam : (s.syncUserGroups teamId userId).ofTeam teamId v = s.ofTeam teamId v := by
      rw [ofTeam, hsame.vaults, ofTeam]
    rw [hteam]
    by_cases hu : u = userId
    · subst hu
      left
      by_cases hg : s.Granted teamId u v
      · exact hg.inGrantingGroup
      · obtain ⟨hmember, -⟩ := hkept v hg
        rw [hmember] at hm
        obtain ⟨m, hm⟩ := Option.isSome_iff_exists.mp hm
        obtain ⟨hbefore, hkeep⟩ := Option.filter_eq_some_iff.mp hm
        have hkey : (m.vaultId, m.userId) = (v, u) := Table.key_of_get? hbefore
        have hvault : m.vaultId = v := congrArg Prod.fst hkey
        have huser : m.userId = u := congrArg Prod.snd hkey
        have hsome : (s.member u v).isSome = true := by rw [hbefore]; rfl
        rcases h.granted v u hsome hnone with hany | ⟨-, hof⟩
        · exact hany
        · have hmark := (h.marked v u hsome hnone).resolve_right (fun h => hg h.2)
          unfold ofTeam at hof
          simp only [orphaned, huser, hvault, hmark, hof] at hkeep
          simpa using hkeep
    · obtain ⟨hmember, -⟩ := hothers u v hu
      rw [hmember] at hm
      exact (h.granted v u hm hnone).imp_right (fun h => ⟨⟨hu, h.1⟩, h.2⟩)

/-- Recomputations leave nothing to recompute for the users. -/
theorem Tracked.syncAll [Names] (h : Tracked manual teamId stale pending s) (users : List Uuid) :
  Tracked manual teamId (fun u => u ∉ users ∧ stale u) (fun u v => u ∉ users ∧ pending u v)
    (s.syncAll teamId users)
  := by
  induction users generalizing s stale pending with
  | nil => exact h.mono (fun u h => ⟨List.not_mem_nil, h⟩) (fun u v h => ⟨List.not_mem_nil, h⟩)
  | cons userId users ih =>
    apply (ih (h.syncUserGroups userId)).mono
    · rintro u ⟨hnot, hne, hstale⟩
      exact ⟨List.not_mem_cons_of_ne_of_not_mem hne hnot, hstale⟩
    · rintro u v ⟨hnot, hne, hpending⟩
      exact ⟨List.not_mem_cons_of_ne_of_not_mem hne hnot, hpending⟩

/-! ### Members of groups -/

/-- No vault that a group grants has a user as a member by hand. -/
def Free (manual : Uuid × Uuid → Option VaultRole) (s : ScimStore) (groupId userId : Uuid) : Prop :=
  ∀ g ∈ s.groupVaults.rows, g.groupId = groupId → manual (g.vaultId, userId) = none

instance : Decidable (Free manual s groupId userId) :=
  inferInstanceAs (Decidable (∀ g ∈ s.groupVaults.rows, _))

/-- The users that are put into a group when some are named, and whether all are: up to the first
who cannot be in it, or cannot join the team. -/
def entering (s : ScimStore) (teamId : Uuid) : List Uuid → List Uuid × Bool
  | [] => ([], true)
  | uid :: members =>
    if s.inTeamScope teamId uid then
      if s.disabled uid || ((s.team.teams.get? teamId).bind TeamRow.defaultRoleId).isSome then
        (uid :: (s.entering teamId members).1, (s.entering teamId members).2)
      else ([uid], false)
    else ([], false)

/-- A user in a group is in it after some are put in. -/
theorem inGroup_insertGroupMember (u g : Uuid) :
  (s.insertGroupMember userId groupId).inGroup u g = true
    ↔ s.inGroup u g = true ∨ u = userId ∧ g = groupId
  := by
  rw [inGroup, insertGroupMember, Table.get?_upsert, key_groupMember]
  split
  · rename_i heq
    cases heq
    simp
  · rename_i hne
    constructor
    · exact .inl
    · rintro (h | ⟨rfl, rfl⟩)
      · exact h
      · exact absurd rfl hne

/-- Putting a user into a group that grants no vault to a member by hand keeps the invariant. -/
theorem Tracked.insertGroupMember (h : Tracked manual teamId stale pending s)
    (hfree : Free manual s groupId userId) :
  Tracked manual teamId stale pending (s.insertGroupMember userId groupId)
  := by
  have hany : ∀ u v, s.inGrantingGroup u v = true →
      (s.insertGroupMember userId groupId).inGrantingGroup u v = true := by
    intro u v hu
    obtain ⟨g, hg, hvault, hin⟩ := inGrantingGroup_eq_true.mp hu
    exact inGrantingGroup_eq_true.mpr ⟨g, hg, hvault, (inGroup_insertGroupMember _ _).mpr (.inl hin)⟩
  constructor
  · refine ⟨h.vaults, ?_⟩
    intro v u role hmanual
    obtain ⟨hm, hcolumn, hno⟩ := h.byHand v u role hmanual
    refine ⟨hm, hcolumn, ?_⟩
    rw [Bool.eq_false_iff]
    intro hafter
    obtain ⟨g, hg, rfl, hin⟩ := inGrantingGroup_eq_true.mp hafter
    rcases (inGroup_insertGroupMember _ _).mp hin with hin | ⟨rfl, heq⟩
    · rw [(inGrantingGroup_eq_true (s := s)).mpr ⟨g, hg, rfl, hin⟩] at hno
      cases hno
    · rw [hfree g hg heq] at hmanual
      cases hmanual
  · intro v u hm hnone
    refine (h.marked v u hm hnone).imp_right (fun ⟨hstale, g, hg, hvault, hgrants⟩ => ⟨hstale, g, hg,
      hvault, ?_⟩)
    simp only [grants, Bool.and_eq_true] at hgrants ⊢
    exact ⟨⟨(inGroup_insertGroupMember _ _).mpr (.inl hgrants.1.1), hgrants.1.2⟩, hgrants.2⟩
  · intro v u hm hnone
    exact (h.granted v u hm hnone).imp_left (hany u v)

end

end ScimStore

/-! ### Who joins a team -/

namespace TeamDb

section
variable [Names] {db : TeamDb} {groups : List String} {source : String} {userId : Uuid}
  {onlyTeam : Option Uuid}

/-- A pass over the groups of a user changes members only. -/
theorem teams_applyGroupMappingsScoped :
  (db.applyGroupMappingsScoped userId groups onlyTeam source).teams = db.teams
  := by
  obtain ⟨members, hmembers⟩ : ∃ members, db.applyGroupMappingsScoped userId groups onlyTeam source
      = { db with members := members } := applyGroupMappingsScoped_eq_withMembers
  rw [hmembers]

/-- A pass over the groups of a user adds and removes no member. -/
theorem isSome_get?_applyGroupMappingsScoped {k : Uuid × Uuid} :
  ((db.applyGroupMappingsScoped userId groups onlyTeam source).members.get? k).isSome
    = (db.members.get? k).isSome
  := by
  rw [get?_applyGroupMappingsScoped, Option.isSome_map]

end

end TeamDb

namespace ScimStore

section
variable [Names] {manual : Uuid × Uuid → Option VaultRole} {s s' : ScimStore}
  {teamId userId groupId : Uuid} {stale stale' : Uuid → Prop} {pending pending' : Uuid → Uuid → Prop}

/-- Two stores in which the same users can be in the groups of a team, and can join it. -/
structure SameScope (s s' : ScimStore) (teamId : Uuid) : Prop where
  scope : ∀ u, s'.inTeamScope teamId u = s.inTeamScope teamId u
  disabled : s'.disabled = s.disabled
  teams : s'.team.teams = s.team.teams

omit [Names] in
theorem SameScope.entering (h : s.SameScope s' teamId) (members : List Uuid) :
  s'.entering teamId members = s.entering teamId members
  := by
  induction members with
  | nil => rfl
  | cons uid members ih => simp only [ScimStore.entering, h.scope, h.disabled, h.teams, ih]

/-- What a recomputation keeps besides. -/
theorem syncUserGroups_keeps (s : ScimStore) (teamId userId : Uuid) :
  (s.syncUserGroups teamId userId).db.users = s.db.users
    ∧ (s.syncUserGroups teamId userId).managedBy = s.managedBy
    ∧ (s.syncUserGroups teamId userId).disabled = s.disabled
    ∧ (s.syncUserGroups teamId userId).team
      = s.team.applyGroupMappingsScoped userId (s.groupNames teamId userId) (some teamId) "scim"
  := by
  have hfold : ∀ (gs : List GroupVault) (s : ScimStore),
      (gs.foldl (upsertGrant userId) s).db.users = s.db.users
        ∧ (gs.foldl (upsertGrant userId) s).managedBy = s.managedBy
        ∧ (gs.foldl (upsertGrant userId) s).disabled = s.disabled
        ∧ (gs.foldl (upsertGrant userId) s).team = s.team := by
    intro gs
    induction gs with
    | nil => exact fun s => ⟨rfl, rfl, rfl, rfl⟩
    | cons g gs ih => exact fun s => ih _
  exact hfold _ _

/-- A user of the team who joins it leaves the users of the team as they are. -/
theorem sameScope_joinTeam (h : s.inTeamScope teamId userId = true) :
  s.SameScope (s.joinTeam teamId userId).1 teamId
  := by
  unfold joinTeam
  cases hdefault : s.team.defaultRoleId teamId with
  | error e => exact ⟨fun _ => rfl, rfl, rfl⟩
  | ok defaultRole =>
    obtain ⟨husers, hmanaged, hdisabled, hteam⟩ := syncUserGroups_keeps
      (s.withTeam (s.team.joinTeam teamId userId defaultRole "scim")) teamId userId
    refine ⟨?_, hdisabled, ?_⟩
    · intro u
      unfold inTeamScope at h ⊢
      dsimp only
      rw [husers, hmanaged, hteam, TeamDb.isSome_get?_applyGroupMappingsScoped]
      simp only [withTeam, TeamDb.joinTeam, Table.get?_upsert, key_teamMember, Prod.mk.injEq, true_and]
      by_cases hu : u = userId
      · subst hu
        rw [h]
        simp_all
      · rw [if_neg hu]
        rfl
    · dsimp only
      rw [hteam, TeamDb.teams_applyGroupMappingsScoped]
      rfl

/-- Joining a team keeps the invariant, the groups and the rows of others. -/
theorem Tracked.joinTeam (h : Tracked manual teamId stale pending s) (userId : Uuid) :
  Tracked manual teamId stale pending (s.joinTeam teamId userId).1
    ∧ s.SameGroups (s.joinTeam teamId userId).1
    ∧ ∀ u v, u ≠ userId → (s.joinTeam teamId userId).1.member u v = s.member u v
  := by
  unfold ScimStore.joinTeam
  cases hdefault : s.team.defaultRoleId teamId with
  | error e => exact ⟨h, .refl s, fun u v _ => rfl⟩
  | ok defaultRole =>
    have hjoined : Tracked manual teamId stale pending
        (s.withTeam (s.team.joinTeam teamId userId defaultRole "scim")) :=
      ⟨⟨h.vaults, h.byHand⟩, h.marked, h.granted⟩
    obtain ⟨hsame, hothers, -⟩ := syncUserGroups_spec
      (s.withTeam (s.team.joinTeam teamId userId defaultRole "scim")) teamId userId
    refine ⟨(hjoined.syncUserGroups userId).mono (fun u h => h.2) (fun u v h => h.2), ?_, ?_⟩
    · exact ⟨hsame.groups, hsame.groupMembers, hsame.groupVaults, hsame.vaults⟩
    · exact fun u v hne => (hothers u v hne).1

theorem joinTeam_eq_ok_iff :
  (s.joinTeam teamId userId).2 = .ok ()
    ↔ ((s.team.teams.get? teamId).bind TeamRow.defaultRoleId).isSome = true
  := by
  unfold joinTeam TeamDb.defaultRoleId
  cases (s.team.teams.get? teamId).bind TeamRow.defaultRoleId <;> simp

/-- Adding a user of the team to a group that grants no vault to the user as a member by hand keeps
the invariant, and the rows of others. -/
theorem Tracked.addMember (h : Tracked manual teamId stale pending s)
    (hscope : s.inTeamScope teamId userId = true) (hfree : Free manual s groupId userId) :
  Tracked manual teamId stale pending (s.addMember teamId groupId userId).1
    ∧ (s.insertGroupMember userId groupId).SameGroups (s.addMember teamId groupId userId).1
    ∧ (∀ u v, u ≠ userId → (s.addMember teamId groupId userId).1.member u v = s.member u v)
    ∧ s.SameScope (s.addMember teamId groupId userId).1 teamId
    ∧ ((s.addMember teamId groupId userId).2 = .ok ()
      ↔ (s.disabled userId || ((s.team.teams.get? teamId).bind TeamRow.defaultRoleId).isSome) = true)
  := by
  have hinserted := h.insertGroupMember hfree
  unfold ScimStore.addMember
  rw [if_pos hscope]
  dsimp only
  by_cases hdisabled : s.disabled userId = true
  · rw [if_pos (show (s.insertGroupMember userId groupId).disabled userId = true from hdisabled)]
    refine ⟨hinserted, .refl _, fun u v _ => rfl, ⟨fun _ => rfl, rfl, rfl⟩, ?_⟩
    simp [hdisabled]
  · rw [if_neg (show ¬(s.insertGroupMember userId groupId).disabled userId = true from hdisabled)]
    obtain ⟨htracked, hsame, hrows⟩ := hinserted.joinTeam userId
    have hjoin := sameScope_joinTeam (s := s.insertGroupMember userId groupId) hscope
    refine ⟨htracked, hsame, hrows, ⟨hjoin.scope, hjoin.disabled, hjoin.teams⟩, ?_⟩
    rw [joinTeam_eq_ok_iff, Bool.or_eq_true]
    exact ⟨.inr, fun h => h.resolve_left hdisabled⟩

/-- Naming users to be put into a group puts in those who enter it, and keeps the invariant when no
vault of the group has one of them as a member by hand. -/
theorem Tracked.addMembers {members : List Uuid} (h : Tracked manual teamId stale pending s)
    (hfree : ∀ u ∈ (s.entering teamId members).1, Free manual s groupId u) :
  Tracked manual teamId stale pending (s.addMembers teamId groupId members).1
    ∧ ((s.addMembers teamId groupId members).2 = .ok () ↔ (s.entering teamId members).2 = true)
    ∧ (s.addMembers teamId groupId members).1.groupVaults = s.groupVaults
    ∧ (∀ u g, (s.addMembers teamId groupId members).1.inGroup u g = true
        ↔ s.inGroup u g = true ∨ u ∈ (s.entering teamId members).1 ∧ g = groupId)
    ∧ ∀ u, u ∉ (s.entering teamId members).1 →
        ∀ v, (s.addMembers teamId groupId members).1.member u v = s.member u v
  := by
  induction members generalizing s with
  | nil => simp [ScimStore.addMembers, entering, h]
  | cons uid members ih =>
    by_cases hscope : s.inTeamScope teamId uid = true
    case neg =>
      simp [ScimStore.addMembers, ScimStore.addMember, entering, hscope, h]
    have hentering : s.entering teamId (uid :: members) = if s.disabled uid
        || ((s.team.teams.get? teamId).bind TeamRow.defaultRoleId).isSome then
        (uid :: (s.entering teamId members).1, (s.entering teamId members).2)
      else ([uid], false) := if_pos hscope
    have huid : uid ∈ (s.entering teamId (uid :: members)).1 := by
      rw [hentering]
      split <;> exact List.mem_cons_self
    obtain ⟨htracked, hsame, hrows, hscopes, hok⟩ := h.addMember hscope (hfree uid huid)
    have hin : ∀ u g, (s.addMember teamId groupId uid).1.inGroup u g = true
        ↔ s.inGroup u g = true ∨ u = uid ∧ g = groupId := by
      intro u g
      rw [hsame.inGroup]
      exact inGroup_insertGroupMember u g
    unfold ScimStore.addMembers
    cases hadd : s.addMember teamId groupId uid with
    | mk s' result =>
    rw [hadd] at htracked hsame hrows hscopes hok hin
    dsimp only at htracked hsame hrows hscopes hok hin ⊢
    cases result with
    | error e =>
      rw [if_neg (fun h => nomatch hok.mpr h)] at hentering
      rw [hentering]
      refine ⟨htracked, by simp, hsame.groupVaults, ?_, ?_⟩
      · intro u g
        rw [hin u g, List.mem_singleton]
      · intro u hne v
        exact hrows u v (fun heq => hne (List.mem_singleton.mpr heq))
    | ok _ =>
      rw [if_pos (hok.mp rfl)] at hentering
      rw [hentering] at hfree ⊢
      have hfree' : ∀ u ∈ (s'.entering teamId members).1, Free manual s' groupId u := by
        intro u hu
        rw [hscopes.entering] at hu
        unfold Free
        rw [hsame.groupVaults]
        exact hfree u (List.mem_cons_of_mem uid hu)
      obtain ⟨htracked', hok', hvaults', hin', hrows'⟩ := ih htracked hfree'
      rw [hscopes.entering] at hok' hin' hrows'
      refine ⟨htracked', hok', hvaults'.trans hsame.groupVaults, ?_, ?_⟩
      · intro u g
        rw [hin' u g, hin u g, List.mem_cons]
        tauto
      · intro u hne v
        rw [hrows' u (List.not_mem_of_not_mem_cons hne) v]
        exact hrows u v (List.ne_of_not_mem_cons hne)

end

end ScimStore

end Termoso.Server
