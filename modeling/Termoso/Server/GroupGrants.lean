import Termoso.Server.GroupSync
import Termoso.Lib.Transition

/-!
# What groups grant, and what is added by hand

A member who was added by hand is to stay, with at least the role given, until removed by hand;
any other member is to be in a group that grants the vault.  The row of a member has room for one
group only.  Runs in which no one is a member of a vault both by hand and by a group, and in which a
failed replacement or a deleted group leaves no one behind, keep both.
-/

namespace Termoso.Server

/-! ### What is to be kept -/

/-- The server, with the role that every member was last given by hand. -/
structure ScimServer extends ScimStore where
  manual : Uuid × Uuid → Option VaultRole

/-- A member added by hand is there with at least the role given, and any other member is in a group
that grants the vault. -/
def GrantsKept (s : ScimServer) : Prop :=
  (∀ vaultId userId role, s.manual (vaultId, userId) = some role →
    ∃ m, s.member userId vaultId = some m ∧ vaultRoleRank m.role ≤ vaultRoleRank role)
  ∧ ∀ vaultId userId, (s.member userId vaultId).isSome = true → s.manual (vaultId, userId) = none →
    s.inGrantingGroup userId vaultId = true

namespace ScimStore

section
variable [Names] {manual : Uuid × Uuid → Option VaultRole} {s : ScimStore}
  {teamId userId groupId : Uuid} {stale : Uuid → Prop}

/-! ### Changing the members of a group -/

/-- Whether naming users to be put into a group, or to replace its users, keeps members by hand apart
and leaves no one behind: no one who enters is a member by hand of a vault that the group grants, and
when not all who are named enter, every other user of the group is, for each of its vaults, in
another group that grants it, or no member. -/
def MembersSafe (manual : Uuid × Uuid → Option VaultRole) (s : ScimStore) (teamId groupId : Uuid)
    (members : List Uuid) : Mode → Prop
  | .remove => True
  | .add => ∀ u ∈ (s.entering teamId members).1, Free manual s groupId u
  | .replace =>
    (∀ u ∈ (s.entering teamId members).1, Free manual s groupId u)
      ∧ ((s.entering teamId members).2 = true
        ∨ ∀ u ∈ s.usersOf groupId, u ∈ (s.entering teamId members).1
          ∨ ∀ g ∈ s.groupVaults.rows, g.groupId = groupId → s.member u g.vaultId = none
            ∨ ∃ g' ∈ s.groupVaults.rows, g'.groupId ≠ groupId ∧ g'.vaultId = g.vaultId
              ∧ s.inGroup u g'.groupId = true)

instance (members : List Uuid) : ∀ mode, Decidable (MembersSafe manual s teamId groupId members mode)
  | .remove => .isTrue trivial
  | .add => inferInstanceAs (Decidable (∀ u ∈ (s.entering teamId members).1, _))
  | .replace => inferInstanceAs (Decidable (_ ∧ _))

omit [Names] in
theorem mem_usersOf :
  userId ∈ s.usersOf groupId ↔ s.inGroup userId groupId = true
  := by
  rw [inGroup, Option.isSome_iff_exists, usersOf, List.mem_map]
  constructor
  · rintro ⟨m, hm, rfl⟩
    obtain ⟨hm, hgroup⟩ := List.mem_filter.mp hm
    rw [← of_decide_eq_true hgroup]
    exact ⟨m, Table.get?_of_mem hm⟩
  · rintro ⟨m, hm⟩
    have hkey : (m.groupId, m.userId) = (groupId, userId) := Table.key_of_get? hm
    refine ⟨m, List.mem_filter.mpr ⟨Table.mem_of_get? hm, ?_⟩, congrArg Prod.snd hkey⟩
    simpa using congrArg Prod.fst hkey

omit [Names] in
theorem inGroup_removeGroupMembers (p : GroupMember → Bool) (u g : Uuid) :
  (s.removeGroupMembers p).inGroup u g = true ↔ s.inGroup u g = true ∧ p ⟨g, u⟩ = false
  := by
  rw [inGroup, removeGroupMembers, Table.get?_delete, inGroup]
  cases hm : s.groupMembers.get? (g, u) with
  | none => simp
  | some m =>
    have hkey : (m.groupId, m.userId) = (g, u) := Table.key_of_get? hm
    have : m = ⟨g, u⟩ := by
      cases m
      simpa using hkey
    subst this
    simp

omit [Names] in
/-- Taking users out of a group of a team makes them pending. -/
theorem Settled.removeGroupMembers (h : Settled manual s) (stale : Uuid → Prop) {x : ScimGroup}
    (hgroup : s.groups.get? groupId = some x) (p : GroupMember → Bool)
    (hp : ∀ m, p m = true → m.groupId = groupId) :
  Tracked manual x.teamId stale (fun u v => s.inGroup u groupId = true ∧ p ⟨groupId, u⟩ = true
      ∧ ∃ g ∈ s.groupVaults.rows, g.groupId = groupId ∧ g.vaultId = v)
    (s.removeGroupMembers p)
  := by
  constructor
  · refine ⟨h.vaults, ?_⟩
    intro v u role hmanual
    obtain ⟨hm, hcolumn, hno⟩ := h.byHand v u role hmanual
    refine ⟨hm, hcolumn, ?_⟩
    rw [Bool.eq_false_iff]
    intro hafter
    obtain ⟨g, hg, hvault, hin⟩ := inGrantingGroup_eq_true.mp hafter
    have hin := ((inGroup_removeGroupMembers p u g.groupId).mp hin).1
    rw [(inGrantingGroup_eq_true (s := s)).mpr ⟨g, hg, hvault, hin⟩] at hno
    cases hno
  · exact fun v u hm hnone => .inl (h.marked v u hm hnone)
  · intro v u hm hnone
    obtain ⟨g, hg, rfl, hin⟩ := inGrantingGroup_eq_true.mp (h.granted v u hm hnone)
    cases hpm : p ⟨g.groupId, u⟩ with
    | false =>
      left
      exact inGrantingGroup_eq_true.mpr ⟨g, hg, rfl, (inGroup_removeGroupMembers p _ _).mpr ⟨hin, hpm⟩⟩
    | true =>
      right
      have hg' : g.groupId = groupId := hp _ hpm
      rw [hg'] at hin hpm
      refine ⟨⟨hin, hpm, g, hg, hg', rfl⟩, ?_⟩
      obtain ⟨x', hx', v, hv, -, hteam⟩ := h.vaults g hg
      rw [hg', hgroup] at hx'
      cases hx'
      change (s.db.vaults.get? g.vaultId).any _ = true
      simp [hv, hteam]

/-- Changing the members of a group of the team keeps the invariant. -/
theorem Settled.setMembers (h : Settled manual s) {x : ScimGroup}
    (hgroup : s.groups.get? groupId = some x) {members : List Uuid} {mode : Mode}
    (hsafe : MembersSafe manual s x.teamId groupId members mode) :
  Settled manual (s.setMembers x.teamId groupId members mode).1
  := by
  cases mode with
  | remove =>
    have hremoved := h.removeGroupMembers (fun _ => False) hgroup
      (fun m => decide (m.groupId = groupId) && decide (m.userId ∈ members)) (by simp +contextual)
    apply (hremoved.syncAll ((members.insertionSort (· ≤ ·)).dedup)).settled
    · exact fun u h => h.2
    · rintro u v ⟨hnot, -, hp, -⟩
      simp only [decide_true, Bool.true_and, decide_eq_true_eq] at hp
      simp [hp] at hnot
  | add =>
    have hclean : Tracked manual x.teamId (fun _ => False) (fun _ _ => False) s := h.tracked
    obtain ⟨htracked, -⟩ := hclean.addMembers hsafe
    unfold ScimStore.setMembers
    simp only [reduceCtorEq, if_false]
    split
    · rename_i heq
      rw [heq] at htracked
      exact htracked.settled (fun _ => id) (fun _ _ h => h.elim)
    · rename_i heq
      rw [heq] at htracked
      exact (htracked.syncAll _).settled (fun _ h => h.2) (fun _ _ h => h.2.elim)
  | replace =>
    have hremoved := h.removeGroupMembers (fun _ => False) hgroup
      (fun m => decide (m.groupId = groupId)) (by simp)
    have hscope : s.SameScope (s.removeGroupMembers (fun m => decide (m.groupId = groupId))) x.teamId :=
      ⟨fun _ => rfl, rfl, rfl⟩
    have hentering := hscope.entering members
    obtain ⟨hfree, hleft⟩ := hsafe
    have hfree' : ∀ u ∈ ((s.removeGroupMembers (fun m => decide (m.groupId = groupId))).entering
        x.teamId members).1,
        Free manual (s.removeGroupMembers (fun m => decide (m.groupId = groupId))) groupId u := by
      rw [hentering]
      exact hfree
    obtain ⟨htracked, hok, hvaults, hin, hrows⟩ := hremoved.addMembers hfree'
    rw [hentering] at hok hin hrows
    unfold ScimStore.setMembers
    simp only [reduceCtorEq, if_false]
    split
    · rename_i s' e heq
      rw [heq] at htracked hok hvaults hin hrows
      dsimp only at htracked hok hvaults hin hrows
      apply htracked.settled (fun _ => id)
      rintro u v ⟨hu, -, g, hg, hg', rfl⟩ hm
      by_cases hent : u ∈ (s.entering x.teamId members).1
      · apply inGrantingGroup_eq_true.mpr
        refine ⟨g, hvaults ▸ hg, rfl, ?_⟩
        exact (hin u g.groupId).mpr (.inr ⟨hent, hg'⟩)
      · have hnotAll : ¬(s.entering x.teamId members).2 = true := fun h => nomatch hok.mpr h
        rcases (hleft.resolve_left hnotAll u (mem_usersOf.mpr hu)).resolve_left hent g hg hg' with
          hnone | ⟨g₂, hg₂, hne, hvault, hin₂⟩
        · rw [hrows u hent g.vaultId] at hm
          change (s.member u g.vaultId).isSome = true at hm
          rw [hnone] at hm
          cases hm
        · apply inGrantingGroup_eq_true.mpr
          refine ⟨g₂, hvaults ▸ hg₂, hvault, (hin u g₂.groupId).mpr (.inl ?_)⟩
          exact (inGroup_removeGroupMembers _ _ _).mpr ⟨hin₂, decide_eq_false hne⟩
    · rename_i s' heq
      rw [heq] at htracked
      apply (htracked.syncAll _).settled (fun _ h => h.2)
      rintro u v ⟨hnot, hu, -⟩
      exfalso
      apply hnot
      rw [List.mem_dedup, List.mem_insertionSort]
      exact List.mem_append_left _ (mem_usersOf.mpr hu)

/-! ### Groups -/

omit [Names] in
/-- Changing groups keeps the invariant when every group stays in its team. -/
theorem Settled.withGroups (h : Settled manual s) {groups : Table ScimGroup}
    (hgroups : ∀ id x, s.groups.get? id = some x →
      ∃ x', groups.get? id = some x' ∧ x'.teamId = x.teamId) :
  Settled manual { s with groups }
  := by
  refine ⟨⟨?_, h.byHand⟩, h.marked, h.granted⟩
  intro g hg
  obtain ⟨x, hx, v, hv, hlive, hteam⟩ := h.vaults g hg
  obtain ⟨x', hx', hteam'⟩ := hgroups _ _ hx
  exact ⟨x', hx', v, hv, hlive, hteam.trans (congrArg some hteam'.symm)⟩

omit [Names] in
/-- Putting something else into a group of a team leaves every group in its team. -/
theorem get?_setGroup (groups : Table ScimGroup) (id : Uuid) (f : ScimGroup → ScimGroup)
    (hf : ∀ g, key (f g) = key g) (hteam : ∀ g, (f g).teamId = g.teamId) {k : Uuid} {x : ScimGroup}
    (hx : groups.get? k = some x) :
  ∃ x', (groups.set id f hf).get? k = some x' ∧ x'.teamId = x.teamId
  := by
  rw [Table.get?_set]
  split
  · rename_i hk
    subst hk
    exact ⟨f x, by rw [hx]; rfl, hteam x⟩
  · exact ⟨x, hx, rfl⟩

/-- Renaming a group changes groups only, and leaves every group in its team. -/
theorem renameGroup_spec (s : ScimStore) (teamId id : Uuid) (displayName externalId : Option String) :
  ∃ groups, (s.renameGroup teamId id displayName externalId).1 = { s with groups }
    ∧ (∀ k x, s.groups.get? k = some x → ∃ x', groups.get? k = some x' ∧ x'.teamId = x.teamId)
    ∧ ((s.renameGroup teamId id displayName externalId).2 = .ok ()
      ↔ ∀ name ∈ displayName, s.nameTaken teamId name (some id) = false)
  := by
  have hset : ∀ (f : ScimGroup → ScimGroup) (s : ScimStore) (hf : ∀ g, key (f g) = key g),
      (∀ g, (f g).teamId = g.teamId) → ∀ k x, s.groups.get? k = some x →
      ∃ x', (s.groups.set id f hf).get? k = some x' ∧ x'.teamId = x.teamId :=
    fun f s hf hteam k x hx => get?_setGroup s.groups id f hf hteam hx
  unfold renameGroup
  cases displayName with
  | none =>
    cases externalId with
    | none => exact ⟨s.groups, rfl, fun k x hx => ⟨x, hx, rfl⟩, by simp⟩
    | some ext => exact ⟨_, rfl, hset _ s _ (fun g => by split <;> rfl), by simp⟩
  | some name =>
    dsimp only
    split
    · rename_i htaken
      exact ⟨s.groups, rfl, fun k x hx => ⟨x, hx, rfl⟩, by simp [htaken]⟩
    · rename_i htaken
      have hfirst := hset (fun g => if g.teamId = teamId then { g with displayName := name } else g) s
        (fun g => by split <;> rfl) (fun g => by split <;> rfl)
      cases externalId with
      | none => exact ⟨_, rfl, hfirst, by simpa using htaken⟩
      | some ext =>
        refine ⟨_, rfl, ?_, by simpa using htaken⟩
        intro k x hx
        obtain ⟨x₁, hx₁, hteam₁⟩ := hfirst k x hx
        obtain ⟨x₂, hx₂, hteam₂⟩ := get?_setGroup _ id
          (fun g => if g.teamId = teamId then { g with externalId := some ext } else g)
          (fun g => by split <;> rfl) (fun g => by split <;> rfl) hx₁
        exact ⟨x₂, hx₂, hteam₂.trans hteam₁⟩

omit [Names] in
theorem loadGroup_eq_some {id : Uuid} {x : ScimGroup} :
  s.loadGroup teamId id = some x ↔ s.groups.get? id = some x ∧ x.teamId = teamId
  := by
  simp [loadGroup, Option.filter_eq_some_iff]

/-- Changing the members of a group changes no group. -/
theorem groups_setMembers (s : ScimStore) (teamId groupId : Uuid) (members : List Uuid) (mode : Mode) :
  (s.setMembers teamId groupId members mode).1.groups = s.groups
  := by
  have hsync : ∀ (users : List Uuid) (s : ScimStore), (s.syncAll teamId users).groups = s.groups := by
    intro users
    induction users with
    | nil => exact fun s => rfl
    | cons u users ih =>
      intro s
      rw [syncAll, List.foldl_cons]
      exact (ih _).trans (syncUserGroups_spec s teamId u).1.groups
  have hjoin : ∀ (s : ScimStore) (u : Uuid), (s.joinTeam teamId u).1.groups = s.groups := by
    intro s u
    unfold joinTeam
    split
    · rfl
    · exact (syncUserGroups_spec _ teamId u).1.groups
  have hadd : ∀ (members : List Uuid) (s : ScimStore),
      (s.addMembers teamId groupId members).1.groups = s.groups := by
    intro members
    induction members with
    | nil => exact fun s => rfl
    | cons u members ih =>
      intro s
      have hone : (s.addMember teamId groupId u).1.groups = s.groups := by
        unfold addMember
        split
        · dsimp only
          split
          · rfl
          · exact hjoin _ u
        · rfl
      unfold addMembers
      cases hadd : s.addMember teamId groupId u with
      | mk s' result =>
      rw [hadd] at hone
      cases result with
      | error e => exact hone
      | ok _ => exact (ih s').trans hone
  cases mode with
  | remove => exact hsync _ _
  | add | replace =>
    unfold setMembers
    simp only [reduceCtorEq, if_false]
    split
    · rename_i heq
      exact (congrArg (fun r => r.1.groups) heq).symm.trans (hadd members _)
    · rename_i heq
      exact (hsync _ _).trans ((congrArg (fun r => r.1.groups) heq).symm.trans (hadd members _))

/-- A new group grants nothing, whoever is in it. -/
theorem Settled.createGroup (h : Settled manual s) (id : Uuid)
    (displayName externalId : Option String) (members : List Uuid) :
  Settled manual (s.createGroup teamId id displayName externalId members).1
  := by
  unfold ScimStore.createGroup
  cases displayName with
  | none => exact h
  | some name =>
    dsimp only
    split
    · exact h
    split
    · exact h
    cases hins : s.groups.insert ⟨id, teamId, externalId, name⟩ with
    | none => exact h
    | some groups =>
      have hfresh : s.groups.get? id = none :=
        Table.insert_isSome_iff.mp (Option.isSome_iff_exists.mpr ⟨groups, hins⟩)
      have hnone : ∀ g ∈ s.groupVaults.rows, g.groupId ≠ id := by
        rintro g hg rfl
        obtain ⟨x, hx, -⟩ := h.vaults g hg
        rw [hfresh] at hx
        cases hx
      have hget : groups.get? id = some ⟨id, teamId, externalId, name⟩ := by
        rw [Table.get?_insert hins]
        exact if_pos rfl
      have hcreated : Settled manual { s with groups } := by
        apply h.withGroups
        intro k x hx
        refine ⟨x, ?_, rfl⟩
        rw [Table.get?_insert hins, key_scimGroup, if_neg]
        · exact hx
        · rintro rfl
          rw [hfresh] at hx
          cases hx
      apply hcreated.setMembers (x := ⟨id, teamId, externalId, name⟩) hget
      refine ⟨fun u _ g hg hgroup => absurd hgroup (hnone g hg), .inr fun u _ => .inr ?_⟩
      exact fun g hg hgroup => absurd hgroup (hnone g hg)

/-- Renaming a group keeps the invariant, and so does changing its members afterwards when it did
before. -/
theorem Settled.renameGroup (h : Settled manual s) {x : ScimGroup}
    (hgroup : s.groups.get? groupId = some x) (displayName externalId : Option String) :
  Settled manual (s.renameGroup x.teamId groupId displayName externalId).1
    ∧ ∀ members mode, MembersSafe manual s x.teamId groupId members mode →
      Settled manual ((s.renameGroup x.teamId groupId displayName externalId).1.setMembers x.teamId
        groupId members mode).1
  := by
  obtain ⟨groups, heq, hgroups, -⟩ := renameGroup_spec s x.teamId groupId displayName externalId
  rw [heq]
  have hrenamed := h.withGroups hgroups
  refine ⟨hrenamed, ?_⟩
  intro members mode hsafe
  obtain ⟨x', hx', hteam⟩ := hgroups _ _ hgroup
  rw [← hteam]
  apply hrenamed.setMembers hx'
  have hscope : s.SameScope { s with groups } x.teamId := ⟨fun _ => rfl, rfl, rfl⟩
  rw [hteam]
  cases mode with
  | remove => trivial
  | add | replace =>
    simp only [MembersSafe, hscope.entering]
    exact hsafe

/-- What an operation of a patch does to the members of a group, once it has renamed it. -/
def PatchOp.change (op : PatchOp) : Option (List Uuid × Mode) :=
  if op.path = "" then
    op.members.map (fun members => (members, if op.op = "add" then .add else .replace))
  else if op.path = "displayName" ∨ op.path = "externalId" then none
  else if op.path = "members" then
    some (op.value, if op.op = "add" then .add else if op.op = "remove" then .remove else .replace)
  else if op.op = "remove" then op.selected.map (fun uid => ([uid], .remove))
  else none

/-- Whether an operation of a patch renames a group. -/
def PatchOp.renames (op : PatchOp) : Bool :=
  op.path = "" ∨ op.path = "displayName" ∨ op.path = "externalId"

/-- The name that an operation of a patch gives, if it is taken. -/
def PatchOp.fails (s : ScimStore) (teamId id : Uuid) (op : PatchOp) : Bool :=
  op.renames && op.displayName.any (fun name => s.nameTaken teamId name (some id))

/-- Whether the change that a request makes to the members of a group is safe. -/
def ChangeSafe (manual : Uuid × Uuid → Option VaultRole) (s : ScimStore) (teamId id : Uuid)
    (fails : Bool) (change : Option (List Uuid × Mode)) : Prop :=
  fails = false → ∀ c ∈ change, MembersSafe manual s teamId id c.1 c.2

omit [Names] in
instance (fails : Bool) (change : Option (List Uuid × Mode)) :
    Decidable (ChangeSafe manual s teamId userId fails change) :=
  inferInstanceAs (Decidable (_ → ∀ c ∈ change, _))

/-- An operation of a patch keeps the invariant. -/
theorem Settled.patchOp (h : Settled manual s) {x : ScimGroup}
    (hgroup : s.groups.get? groupId = some x) (op : PatchOp)
    (hsafe : ChangeSafe manual s x.teamId groupId (op.fails s x.teamId groupId) op.change) :
  Settled manual (s.patchOp x.teamId groupId op).1
  := by
  obtain ⟨hrenamed, hchanged⟩ := h.renameGroup hgroup op.displayName op.externalId
  obtain ⟨-, -, -, hok⟩ := renameGroup_spec s x.teamId groupId op.displayName op.externalId
  unfold ScimStore.patchOp
  dsimp only
  unfold ChangeSafe PatchOp.fails PatchOp.change PatchOp.renames at hsafe
  split
  · rename_i hpath
    cases hren : s.renameGroup x.teamId groupId op.displayName op.externalId with
    | mk s' result =>
    rw [hren] at hrenamed hchanged hok
    cases result with
    | error e => exact hrenamed
    | ok _ =>
      cases hmembers : op.members with
      | none => exact hrenamed
      | some members =>
        apply hchanged
        have hfree := hok.mp rfl
        have hnot : op.displayName.any (fun name => s.nameTaken x.teamId name (some groupId)) = false := by
          cases hname : op.displayName with
          | none => rfl
          | some name => exact hfree name hname
        exact hsafe (by simp [hnot]) (members, if op.op = "add" then .add else .replace)
          (by simp [hpath, hmembers])
  · rename_i hpath
    split
    · exact hrenamed
    · rename_i hpath'
      have hnot : (decide (op.path = "" ∨ op.path = "displayName" ∨ op.path = "externalId")
          && op.displayName.any (fun name => s.nameTaken x.teamId name (some groupId))) = false := by
        simp [hpath, hpath']
      have hsafe := hsafe hnot
      rw [if_neg hpath, if_neg hpath'] at hsafe
      split
      · rename_i hmembers
        rw [if_pos hmembers] at hsafe
        exact h.setMembers hgroup (hsafe _ rfl)
      · split
        · split
          · exact h.setMembers hgroup trivial
          · exact h
        · exact h

/-- Renaming a group and replacing its members keeps the invariant. -/
theorem Settled.putGroup (h : Settled manual s) (displayName externalId : Option String)
    (members : Option (List Uuid))
    (hsafe : ∀ x ∈ s.loadGroup teamId groupId, ChangeSafe manual s teamId groupId
      (displayName.any (fun name => s.nameTaken teamId name (some groupId)))
      (members.map (fun members => (members, .replace)))) :
  Settled manual (s.putGroup teamId groupId displayName externalId members).1
  := by
  unfold ScimStore.putGroup
  cases hload : s.loadGroup teamId groupId with
  | none => exact h
  | some x =>
    obtain ⟨hgroup, rfl⟩ := loadGroup_eq_some.mp hload
    obtain ⟨hrenamed, hchanged⟩ := h.renameGroup hgroup displayName externalId
    obtain ⟨-, -, -, hok⟩ := renameGroup_spec s x.teamId groupId displayName externalId
    have hsafe := hsafe x hload
    dsimp only
    cases hren : s.renameGroup x.teamId groupId displayName externalId with
    | mk s' result =>
    rw [hren] at hrenamed hchanged hok
    cases result with
    | error e => exact hrenamed
    | ok _ =>
      cases members with
      | none => exact hrenamed
      | some members =>
        apply hchanged
        have hfree := hok.mp rfl
        have hnot : displayName.any (fun name => s.nameTaken x.teamId name (some groupId)) = false := by
          cases displayName with
          | none => rfl
          | some name => exact hfree name rfl
        exact hsafe hnot (members, _) rfl

/-- Whether every member that a group granted is in another group of the team that grants the
vault. -/
def DeleteSafe (s : ScimStore) (teamId id : Uuid) : Prop :=
  ∀ m ∈ s.db.vaultMembers.rows, s.grantedByGroup (m.vaultId, m.userId) = some id →
    s.inGroup m.userId id = true ∧ ∃ g ∈ s.groupVaults.rows, g.groupId ≠ id ∧ g.vaultId = m.vaultId
      ∧ s.grants teamId m.userId g = true

omit [Names] in
instance : Decidable (DeleteSafe s teamId groupId) :=
  inferInstanceAs (Decidable (∀ m ∈ s.db.vaultMembers.rows, _ → _ ∧ _))

omit [Names] in
theorem inGroup_dropGroup {u g : Uuid} (hne : g ≠ groupId) :
  (s.dropGroup groupId).inGroup u g = s.inGroup u g
  := by
  rw [inGroup, dropGroup, Table.get?_delete, inGroup]
  cases hm : s.groupMembers.get? (g, u) with
  | none => rfl
  | some m =>
    have hkey : (m.groupId, m.userId) = (g, u) := Table.key_of_get? hm
    have hgroup : m.groupId = g := congrArg Prod.fst hkey
    simp [hgroup, hne]

omit [Names] in
theorem grants_dropGroup {u : Uuid} {g : GroupVault} (hne : g.groupId ≠ groupId) :
  (s.dropGroup groupId).grants teamId u g = s.grants teamId u g
  := by
  unfold grants
  rw [inGroup_dropGroup hne]
  simp [dropGroup, hne]

/-- Deleting a group keeps the invariant when every member it granted is in another group that
grants the vault. -/
theorem Settled.deleteGroup (h : Settled manual s)
    (hsafe : ∀ x ∈ s.loadGroup teamId groupId, DeleteSafe s teamId groupId) :
  Settled manual (s.deleteGroup teamId groupId).1
  := by
  unfold ScimStore.deleteGroup
  cases hload : s.loadGroup teamId groupId with
  | none => exact h
  | some x =>
    have hsafe := hsafe x hload
    obtain ⟨hgroup, hteam⟩ := loadGroup_eq_some.mp hload
    have hmem : ∀ g ∈ (s.dropGroup groupId).groupVaults.rows,
        g ∈ s.groupVaults.rows ∧ g.groupId ≠ groupId := by
      intro g hg
      obtain ⟨hg, hne⟩ := Table.mem_delete.mp hg
      exact ⟨hg, of_decide_eq_false hne⟩
    have hback : ∀ g ∈ s.groupVaults.rows, g.groupId ≠ groupId →
        g ∈ (s.dropGroup groupId).groupVaults.rows :=
      fun g hg hne => Table.mem_delete.mpr ⟨hg, decide_eq_false hne⟩
    have hdropped : Tracked manual teamId (fun u => s.inGroup u groupId = true)
        (fun u _ => s.inGroup u groupId = true) (s.dropGroup groupId) := by
      constructor
      · constructor
        · intro g hg
          obtain ⟨hg, hne⟩ := hmem g hg
          obtain ⟨x', hx', hv⟩ := h.vaults g hg
          refine ⟨x', ?_, hv⟩
          rw [dropGroup, Table.get?_erase, if_neg hne]
          exact hx'
        · intro v u role hmanual
          obtain ⟨hm, hcolumn, hno⟩ := h.byHand v u role hmanual
          refine ⟨hm, ?_, ?_⟩
          · change (s.grantedByGroup (v, u)).filter _ = none
            rw [hcolumn]
            rfl
          · rw [Bool.eq_false_iff]
            intro hafter
            obtain ⟨g, hg, hvault, hin⟩ := inGrantingGroup_eq_true.mp hafter
            obtain ⟨hg, hne⟩ := hmem g hg
            rw [inGroup_dropGroup hne] at hin
            rw [(inGrantingGroup_eq_true (s := s)).mpr ⟨g, hg, hvault, hin⟩] at hno
            cases hno
      · intro v u hm hnone
        change (((s.grantedByGroup (v, u)).filter (fun g => decide (g ≠ groupId))).isSome = true) ∨ _
        obtain ⟨marked, hmarked⟩ := Option.isSome_iff_exists.mp (h.marked v u hm hnone)
        rw [hmarked]
        by_cases hid : marked = groupId
        · right
          subst hid
          obtain ⟨m, hget⟩ := Option.isSome_iff_exists.mp hm
          have hget : s.db.vaultMembers.get? (v, u) = some m := hget
          have hkey : (m.vaultId, m.userId) = (v, u) := Table.key_of_get? hget
          have hvault : m.vaultId = v := congrArg Prod.fst hkey
          have huser : m.userId = u := congrArg Prod.snd hkey
          obtain ⟨hin, g, hg, hne, hgvault, hgrants⟩ := hsafe m (Table.mem_of_get? hget)
            (by rw [hkey]; exact hmarked)
          rw [huser] at hin hgrants
          refine ⟨hin, g, hback g hg hne, hgvault.trans hvault, ?_⟩
          rw [grants_dropGroup hne]
          exact hgrants
        · left
          simp [hid]
      · intro v u hm hnone
        obtain ⟨g, hg, rfl, hin⟩ := inGrantingGroup_eq_true.mp (h.granted v u hm hnone)
        by_cases hid : g.groupId = groupId
        · right
          refine ⟨hid ▸ hin, ?_⟩
          obtain ⟨x', hx', v, hv, -, hvteam⟩ := h.vaults g hg
          rw [hid, hgroup] at hx'
          cases hx'
          change (s.db.vaults.get? g.vaultId).any _ = true
          simp [hv, hvteam, hteam]
        · left
          refine inGrantingGroup_eq_true.mpr ⟨g, hback g hg hid, rfl, ?_⟩
          rw [inGroup_dropGroup hid]
          exact hin
    apply (hdropped.syncAll _).settled
    · rintro u ⟨hnot, hin⟩
      exact hnot (mem_usersOf.mpr hin)
    · rintro u v ⟨hnot, hin⟩
      exact absurd (mem_usersOf.mpr hin) hnot

omit [Names] in
/-- What the grants are that a group is given: those of other groups stay, and its own are live
vaults of the team. -/
theorem grantRows_eq_ok {vaults : List (Uuid × String)} {t t' : Table GroupVault}
    (h : s.grantRows teamId groupId vaults t = .ok t') :
  (∀ g, g.groupId ≠ groupId → (g ∈ t'.rows ↔ g ∈ t.rows))
    ∧ ∀ g ∈ t'.rows, g ∈ t.rows ∨ g.groupId = groupId ∧ ∃ v, s.db.vaults.get? g.vaultId = some v
      ∧ v.deleted = false ∧ v.teamId = some teamId
  := by
  induction vaults generalizing t with
  | nil =>
    cases h
    exact ⟨fun g _ => Iff.rfl, fun g hg => .inl hg⟩
  | cons x vaults ih =>
    obtain ⟨vaultId, role⟩ := x
    unfold grantRows at h
    split at h
    · cases h
    split at h
    · rename_i vaultRole _ hlive
      obtain ⟨hother, hmem⟩ := ih h
      have hget := Table.get?_upsert t ⟨groupId, vaultId, vaultRole⟩
        (fun g : GroupVault => { g with vaultRole }) (fun _ => rfl)
      have hiff : ∀ g : GroupVault, (g.groupId, g.vaultId) ≠ (groupId, vaultId) →
          (g ∈ (t.upsert ⟨groupId, vaultId, vaultRole⟩ (fun g : GroupVault => { g with vaultRole })
            (fun _ => rfl)).rows ↔ g ∈ t.rows) := by
        intro g hne
        have hget := hget (key g)
        rw [key_groupVault, key_groupVault, if_neg hne] at hget
        constructor
        · intro hg
          have := Table.get?_of_mem hg
          rw [key_groupVault, hget] at this
          exact Table.mem_of_get? this
        · intro hg
          have := Table.get?_of_mem hg
          rw [key_groupVault, ← hget] at this
          exact Table.mem_of_get? this
      constructor
      · intro g hne
        rw [hother g hne, hiff]
        exact fun heq => hne (congrArg Prod.fst heq)
      · intro g hg
        refine (hmem g hg).elim (fun hg => ?_) .inr
        by_cases hkey : (g.groupId, g.vaultId) = (groupId, vaultId)
        · right
          have hvault : g.vaultId = vaultId := congrArg Prod.snd hkey
          rw [hvault]
          refine ⟨congrArg Prod.fst hkey, ?_⟩
          cases hv : s.db.vaults.get? vaultId with
          | none => simp [hv] at hlive
          | some v =>
            simp only [hv, Option.any_some, Bool.and_eq_true, decide_eq_true_eq, Bool.not_eq_true'] at hlive
            exact ⟨v, rfl, hlive.2, hlive.1⟩
        · exact .inl ((hiff g hkey).mp hg)
    · cases h

/-- Whether the vaults that a group is to grant have none of its users as a member by hand. -/
def VaultsSafe (manual : Uuid × Uuid → Option VaultRole) (s : ScimStore) (teamId : Uuid) (auth : Auth)
    (groupId : Uuid) (vaults : List (Uuid × String)) : Prop :=
  ∀ t ∈ (s.checkGroupVaults teamId auth groupId vaults).toOption, ∀ g ∈ t.rows,
    g.groupId = groupId → ∀ u ∈ s.usersOf groupId, manual (g.vaultId, u) = none

/-- Replacing the vaults that a group grants keeps the invariant. -/
theorem Settled.setGroupVaults (h : Settled manual s) {auth : Auth} {vaults : List (Uuid × String)}
    (hsafe : VaultsSafe manual s teamId auth groupId vaults) :
  Settled manual (s.setGroupVaults teamId auth groupId vaults).1
  := by
  unfold ScimStore.setGroupVaults
  cases hcheck : s.checkGroupVaults teamId auth groupId vaults with
  | error e => exact h
  | ok t =>
    have hsafe := hsafe t (by rw [hcheck]; rfl)
    unfold checkGroupVaults at hcheck
    obtain ⟨_, -, hcheck⟩ := bind_eq_ok.mp hcheck
    obtain ⟨_, -, hcheck⟩ := bind_eq_ok.mp hcheck
    obtain ⟨hload, hcheck⟩ := check_eq_ok.mp hcheck
    have hsome : s.loadGroup teamId groupId ≠ none := fun hnone => hload (by rw [hnone]; rfl)
    obtain ⟨x, hload⟩ := Option.ne_none_iff_exists'.mp hsome
    obtain ⟨hgroup, hteam⟩ := loadGroup_eq_some.mp hload
    obtain ⟨hother, hmem⟩ := grantRows_eq_ok hcheck
    have hmem' : ∀ g ∈ t.rows, g.groupId ≠ groupId → g ∈ s.groupVaults.rows :=
      fun g hg hne => (Table.mem_delete.mp ((hother g hne).mp hg)).1
    have hset : Tracked manual teamId (fun _ => False) (fun u _ => s.inGroup u groupId = true)
        { s with groupVaults := t } := by
      constructor
      · constructor
        · intro g hg
          by_cases hid : g.groupId = groupId
          · rcases hmem g hg with hg | ⟨-, v, hv, hlive, hvteam⟩
            · exact absurd (Table.mem_delete.mp hg).2 (by simp [hid])
            · exact ⟨x, hid ▸ hgroup, v, hv, hlive, by rw [hvteam, hteam]⟩
          · exact h.vaults g (hmem' g hg hid)
        · intro v u role hmanual
          obtain ⟨hm, hcolumn, hno⟩ := h.byHand v u role hmanual
          refine ⟨hm, hcolumn, ?_⟩
          rw [Bool.eq_false_iff]
          intro hafter
          obtain ⟨g, hg, rfl, hin⟩ := inGrantingGroup_eq_true.mp hafter
          by_cases hid : g.groupId = groupId
          · rw [hsafe g hg hid u (mem_usersOf.mpr (hid ▸ hin))] at hmanual
            cases hmanual
          · rw [(inGrantingGroup_eq_true (s := s)).mpr ⟨g, hmem' g hg hid, rfl, hin⟩] at hno
            cases hno
      · exact fun v u hm hnone => .inl (h.marked v u hm hnone)
      · intro v u hm hnone
        obtain ⟨g, hg, rfl, hin⟩ := inGrantingGroup_eq_true.mp (h.granted v u hm hnone)
        by_cases hid : g.groupId = groupId
        · right
          refine ⟨hid ▸ hin, ?_⟩
          obtain ⟨x', hx', v, hv, -, hvteam⟩ := h.vaults g hg
          rw [hid, hgroup] at hx'
          cases hx'
          change (s.db.vaults.get? g.vaultId).any _ = true
          simp [hv, hvteam, hteam]
        · left
          refine inGrantingGroup_eq_true.mpr ⟨g, (hother g hid).mpr ?_, rfl, hin⟩
          exact Table.mem_delete.mpr ⟨hg, decide_eq_false hid⟩
    apply (hset.syncAll _).settled (fun _ h => h.2)
    rintro u v ⟨hnot, hin⟩
    exact absurd (mem_usersOf.mpr hin) hnot

/-- Adding a user to a team keeps the invariant. -/
theorem Settled.joinTeam (h : Settled manual s) (teamId userId : Uuid) :
  Settled manual (s.joinTeam teamId userId).1
  := by
  have hclean : Tracked manual teamId (fun _ => False) (fun _ _ => False) s := h.tracked
  obtain ⟨hjoined, -⟩ := hclean.joinTeam userId
  exact hjoined.settled (fun _ => id) (fun _ _ h => h.elim)

/-- Recomputing a user keeps the invariant. -/
theorem Settled.syncUserGroups (h : Settled manual s) (teamId userId : Uuid) :
  Settled manual (s.syncUserGroups teamId userId)
  := by
  have hclean : Tracked manual teamId (fun _ => False) (fun _ _ => False) s := h.tracked
  have hsynced := hclean.syncUserGroups userId
  exact hsynced.settled (fun _ h => h.2) (fun _ _ h => h.2.elim)

/-! ### Members added by hand -/

omit [Names]
variable [Primitives]

/-- The store with other members of vaults. -/
def withMembers (s : ScimStore) (members : Table VaultMember) : ScimStore :=
  { s with db := { s.db with vaultMembers := members } }

/-- The members of vaults with one put by hand. -/
def putMember (s : ScimStore) (m : VaultMember) : Table VaultMember :=
  (⟨s.db, none⟩ : Shared).upserted m

/-- Adding a member by hand fails and changes nothing, or puts the member. -/
theorem upsertMember_cases (s : ScimStore) (auth : Auth) (vaultId userId : Uuid)
    (req : VaultMemberUpsert) :
  (∃ e, s.upsertMember auth vaultId userId req = (s, .error e))
    ∨ ∃ sealedKey keyVersion, s.upsertMember auth vaultId userId req
      = ({ s.withMembers (s.putMember ⟨vaultId, userId, req.role, sealedKey, keyVersion⟩) with
          grantedByGroup := fun k =>
            if k = (vaultId, userId) ∧ (s.member userId vaultId).isNone then none
            else s.grantedByGroup k }, .ok ())
  := by
  have hwrite : ∀ m : VaultMember,
      (∃ e, (Handler.upsertMember m (.done (.ok .noContent))).run ⟨s.db, none⟩
        = (⟨s.db, none⟩, .error e))
      ∨ (Handler.upsertMember m (.done (.ok .noContent))).run ⟨s.db, none⟩
        = (⟨(s.withMembers (s.putMember m)).db, none⟩, .ok .noContent) := by
    intro m
    unfold Handler.run
    split
    · exact .inl ⟨_, rfl⟩
    · exact .inr rfl
  have hrun : (∃ e, (Server.upsertMember auth vaultId userId req).run ⟨s.db, none⟩
        = (⟨s.db, none⟩, .error e))
      ∨ ∃ sealedKey keyVersion, (Server.upsertMember auth vaultId userId req).run ⟨s.db, none⟩
        = (⟨(s.withMembers (s.putMember ⟨vaultId, userId, req.role, sealedKey, keyVersion⟩)).db, none⟩,
          .ok .noContent) := by
    unfold Server.upsertMember
    simp only [Handler.run]
    cases s.db.requireManage vaultId auth.userId with
    | error e => exact .inl ⟨e, rfl⟩
    | ok a =>
      simp only [Handler.orFail]
      split
      · exact .inl ⟨_, rfl⟩
      · simp only [Handler.run]
        split
        · exact .inl ⟨_, rfl⟩
        split
        · simp only [Handler.run]
          split
          · exact .inl ⟨_, rfl⟩
          · exact (hwrite _).imp id (fun h => ⟨_, _, h⟩)
        · exact (hwrite _).imp id (fun h => ⟨_, _, h⟩)
  unfold ScimStore.upsertMember
  rcases hrun with ⟨e, h⟩ | ⟨sealedKey, keyVersion, h⟩
  · rw [h]
    exact .inl ⟨e, rfl⟩
  · rw [h]
    exact .inr ⟨sealedKey, keyVersion, rfl⟩

/-- Removing a member fails and changes nothing, or erases the member; it fails when there is none. -/
theorem removeMember_cases (s : ScimStore) (auth : Auth) (vaultId userId : Uuid) :
  (∃ e, s.removeMember auth vaultId userId = (s, .error e))
    ∨ s.removeMember auth vaultId userId
        = (s.withMembers (s.db.vaultMembers.erase (vaultId, userId)),
          if (s.member userId vaultId).isSome then .ok () else .error (.notFound "Member"))
  := by
  have hdelete : ∀ k : ℕ → Handler, k = (fun rows =>
        .done (if rows = 0 then .error (.notFound "Member") else .ok .noContent)) →
      (Handler.deleteMember vaultId userId k).run ⟨s.db, none⟩
        = (⟨(s.withMembers (s.db.vaultMembers.erase (vaultId, userId))).db, none⟩,
          if (s.member userId vaultId).isSome then .ok .noContent else .error (.notFound "Member")) := by
    rintro k rfl
    by_cases hm : (s.db.vaultMembers.get? (vaultId, userId)).isSome = true
    · simp [Handler.run, member, withMembers, hm]
    · simp [Handler.run, member, withMembers, hm]
  have hrun : (∃ e, (Server.removeMember auth vaultId userId).run ⟨s.db, none⟩
        = (⟨s.db, none⟩, .error e))
      ∨ (Server.removeMember auth vaultId userId).run ⟨s.db, none⟩
        = (⟨(s.withMembers (s.db.vaultMembers.erase (vaultId, userId))).db, none⟩,
          if (s.member userId vaultId).isSome then .ok .noContent else .error (.notFound "Member")) := by
    unfold Server.removeMember
    simp only [Handler.run]
    cases (if userId = auth.userId then s.db.access vaultId auth.userId
      else s.db.requireManage vaultId auth.userId) with
    | error e => exact .inl ⟨e, rfl⟩
    | ok a =>
      simp only [Handler.orFail]
      split
      · exact .inl ⟨_, rfl⟩
      simp only [Handler.run]
      split
      · split
        · simp only [Handler.run]
          split
          · exact .inl ⟨_, rfl⟩
          · exact .inr (hdelete _ rfl)
        · exact .inl ⟨_, rfl⟩
      · exact .inr (hdelete _ rfl)
  unfold ScimStore.removeMember
  rcases hrun with ⟨e, h⟩ | h
  · rw [h]
    exact .inl ⟨e, rfl⟩
  · right
    rw [h]
    by_cases hm : (s.member userId vaultId).isSome = true
    · rw [if_pos hm, if_pos hm]
      rfl
    · rw [if_neg hm, if_neg hm]
      rfl

omit [Primitives] in
/-- A member put by hand is there with the role given, and the others are as before. -/
theorem member_putMember (m : VaultMember) (u v : Uuid) :
  (s.withMembers (s.putMember m)).member u v
    = if (v, u) = (m.vaultId, m.userId) then
        some (((s.member u v).map (fun m' =>
          { m' with role := m.role, sealedKey := m.sealedKey, keyVersion := m.keyVersion })).getD m)
      else s.member u v
  := Table.get?_upsert _ _ _ _ _

/-- Adding a member by hand to a vault that no group of the user grants keeps the invariant. -/
theorem Settled.upsertMember (h : Settled manual s) {auth : Auth} {vaultId : Uuid}
    {req : VaultMemberUpsert} (hno : s.inGrantingGroup userId vaultId = false)
    (hok : (s.upsertMember auth vaultId userId req).2 = .ok ()) :
  Settled (Function.update manual (vaultId, userId) (some req.role))
    (s.upsertMember auth vaultId userId req).1
  := by
  rcases upsertMember_cases s auth vaultId userId req with ⟨e, heq⟩ | ⟨sealedKey, keyVersion, heq⟩
  · rw [heq] at hok
    cases hok
  rw [heq]
  have hmember := member_putMember (s := s) ⟨vaultId, userId, req.role, sealedKey, keyVersion⟩
  have hcolumn : s.member userId vaultId = none ∨ s.grantedByGroup (vaultId, userId) = none := by
    cases hm : s.member userId vaultId with
    | none => exact .inl rfl
    | some m =>
      right
      cases hmanual : manual (vaultId, userId) with
      | none =>
        have := h.granted vaultId userId (by rw [hm]; rfl) hmanual
        rw [hno] at this
        cases this
      | some role => exact (h.byHand _ _ _ hmanual).2.1
  constructor
  · refine ⟨h.vaults, ?_⟩
    intro v u role hmanual
    change (∃ m, (s.withMembers _).member u v = some m ∧ m.role = role) ∧ _ ∧ s.inGrantingGroup u v = false
    by_cases hk : (v, u) = (vaultId, userId)
    · obtain ⟨rfl, rfl⟩ := Prod.mk.inj hk
      rw [Function.update_self] at hmanual
      cases hmanual
      refine ⟨?_, ?_, hno⟩
      · rw [hmember, if_pos rfl]
        cases s.member u v <;> exact ⟨_, rfl, rfl⟩
      · dsimp only
        rcases hcolumn with hnone | hnone
        · simp [hnone]
        · simp [hnone]
    · rw [Function.update_of_ne hk] at hmanual
      obtain ⟨hm, hcol, hany⟩ := h.byHand v u role hmanual
      rw [hmember, if_neg hk]
      refine ⟨hm, ?_, hany⟩
      simp [hk, hcol]
  · intro v u hm hnone
    have hk : (v, u) ≠ (vaultId, userId) := by
      intro hk
      rw [hk, Function.update_self] at hnone
      cases hnone
    rw [Function.update_of_ne hk] at hnone
    change ((s.withMembers _).member u v).isSome = true at hm
    rw [hmember, if_neg hk] at hm
    have := h.marked v u hm hnone
    simpa [hk] using this
  · intro v u hm hnone
    have hk : (v, u) ≠ (vaultId, userId) := by
      intro hk
      rw [hk, Function.update_self] at hnone
      cases hnone
    rw [Function.update_of_ne hk] at hnone
    change ((s.withMembers _).member u v).isSome = true at hm
    rw [hmember, if_neg hk] at hm
    exact h.granted v u hm hnone

omit [Primitives] in
/-- Erasing a member, who is then no longer one by hand, keeps the invariant. -/
theorem Settled.eraseMember (h : Settled manual s) (vaultId userId : Uuid) :
  Settled (Function.update manual (vaultId, userId) none)
    (s.withMembers (s.db.vaultMembers.erase (vaultId, userId)))
  := by
  have hmember : ∀ v u, (s.withMembers (s.db.vaultMembers.erase (vaultId, userId))).member u v
      = if (v, u) = (vaultId, userId) then none else s.member u v :=
    fun v u => Table.get?_erase _ _ _
  have hleft : ∀ v u, ((s.withMembers (s.db.vaultMembers.erase (vaultId, userId))).member u v).isSome
      = true → (v, u) ≠ (vaultId, userId) ∧ (s.member u v).isSome = true := by
    intro v u hm
    rw [hmember] at hm
    split at hm
    · cases hm
    · rename_i hk
      exact ⟨hk, hm⟩
  constructor
  · refine ⟨h.vaults, ?_⟩
    intro v u role hmanual
    have hk : (v, u) ≠ (vaultId, userId) := by
      intro hk
      rw [hk, Function.update_self] at hmanual
      cases hmanual
    rw [Function.update_of_ne hk] at hmanual
    obtain ⟨hm, hrest⟩ := h.byHand v u role hmanual
    rw [hmember, if_neg hk]
    exact ⟨hm, hrest⟩
  · intro v u hm hnone
    obtain ⟨hk, hm⟩ := hleft v u hm
    rw [Function.update_of_ne hk] at hnone
    exact h.marked v u hm hnone
  · intro v u hm hnone
    obtain ⟨hk, hm⟩ := hleft v u hm
    rw [Function.update_of_ne hk] at hnone
    exact h.granted v u hm hnone

end

end ScimStore

/-! ### Requests one after the other -/

/-- A request, or an operation of a patch, about groups or members of vaults; the user `syncUser` is
recomputed. -/
inductive ScimStep
  | upsertMember (auth : Auth) (vaultId userId : Uuid) (req : VaultMemberUpsert)
  | removeMember (auth : Auth) (vaultId userId : Uuid)
  | createGroup (teamId id : Uuid) (displayName externalId : Option String) (members : List Uuid)
  | putGroup (teamId id : Uuid) (displayName externalId : Option String)
    (members : Option (List Uuid))
  | patchOp (teamId id : Uuid) (op : ScimStore.PatchOp)
  | deleteGroup (teamId id : Uuid)
  | setGroupVaults (teamId : Uuid) (auth : Auth) (id : Uuid) (vaults : List (Uuid × String))
  | joinTeam (teamId userId : Uuid)
  | syncUser (teamId userId : Uuid)

section
variable [Primitives] [Names]

/-- The server after a request. -/
def ScimServer.step (s : ScimServer) : ScimStep → Option ScimServer
  | .upsertMember auth vaultId userId req =>
    match s.toScimStore.upsertMember auth vaultId userId req with
    | (store, .ok ()) => some ⟨store, Function.update s.manual (vaultId, userId) (some req.role)⟩
    | (store, .error _) => some ⟨store, s.manual⟩
  | .removeMember auth vaultId userId =>
    match s.toScimStore.removeMember auth vaultId userId with
    | (store, .ok ()) => some ⟨store, Function.update s.manual (vaultId, userId) none⟩
    | (store, .error _) => some ⟨store, s.manual⟩
  | .createGroup teamId id displayName externalId members =>
    some ⟨(s.createGroup teamId id displayName externalId members).1, s.manual⟩
  | .putGroup teamId id displayName externalId members =>
    some ⟨(s.putGroup teamId id displayName externalId members).1, s.manual⟩
  | .patchOp teamId id op =>
    if (s.loadGroup teamId id).isSome then some ⟨(s.toScimStore.patchOp teamId id op).1, s.manual⟩
    else none
  | .deleteGroup teamId id => some ⟨(s.deleteGroup teamId id).1, s.manual⟩
  | .setGroupVaults teamId auth id vaults =>
    some ⟨(s.setGroupVaults teamId auth id vaults).1, s.manual⟩
  | .joinTeam teamId userId => some ⟨(s.joinTeam teamId userId).1, s.manual⟩
  | .syncUser teamId userId => some ⟨s.syncUserGroups teamId userId, s.manual⟩

/-- The runs of requests, from a server without groups: all members there were added by hand. -/
def scimSystem : TransitionSystem ScimServer ScimStep where
  init s := s.groups = .empty ∧ s.groupMembers = .empty ∧ s.groupVaults = .empty
    ∧ (∀ k, s.grantedByGroup k = none)
    ∧ ∀ k, s.manual k = (s.member k.2 k.1).map VaultMember.role
  step := ScimServer.step

/-- A request makes no one a member of a vault both by hand and by a group, and leaves no one behind:
a member is added by hand to a vault that no group of the user grants, no one enters a group that
grants a vault to the user as a member by hand, a group is not given a vault that has one of its users
as such a member, replaced users are replaced as a whole, and a deleted group has granted no one a
vault that no other group of the user in the team grants. -/
def KeptApart (s : ScimServer) : ScimStep → Prop
  | .upsertMember _ vaultId userId _ => s.inGrantingGroup userId vaultId = false
  | .putGroup teamId id displayName _ members =>
    ∀ x ∈ s.loadGroup teamId id, ScimStore.ChangeSafe s.manual s.toScimStore teamId id
      (displayName.any (fun name => s.nameTaken teamId name (some id)))
      (members.map (fun members => (members, .replace)))
  | .patchOp teamId id op =>
    ScimStore.ChangeSafe s.manual s.toScimStore teamId id (op.fails s.toScimStore teamId id) op.change
  | .deleteGroup teamId id => ∀ x ∈ s.loadGroup teamId id, s.DeleteSafe teamId id
  | .setGroupVaults teamId auth id vaults =>
    ScimStore.VaultsSafe s.manual s.toScimStore teamId auth id vaults
  | .removeMember .. | .createGroup .. | .joinTeam .. | .syncUser .. => True

section
variable {s s' : ScimServer}

/-- Before there are groups all members are by hand. -/
theorem settled_of_init (h : scimSystem.init s) :
  s.Settled s.manual
  := by
  obtain ⟨-, -, hvaults, hcolumn, hmanual⟩ := h
  have hno : ∀ v u, (s.member u v).isSome = true → s.manual (v, u) ≠ none := by
    intro v u hm hnone
    rw [hmanual, Option.map_eq_none_iff] at hnone
    change s.member u v = none at hnone
    rw [hnone] at hm
    cases hm
  refine ⟨⟨?_, ?_⟩, fun v u hm hnone => absurd hnone (hno v u hm),
    fun v u hm hnone => absurd hnone (hno v u hm)⟩
  · intro g hg
    rw [hvaults] at hg
    cases hg
  · intro v u role hrole
    rw [hmanual] at hrole
    obtain ⟨m, hm, hmrole⟩ := Option.map_eq_some_iff.mp hrole
    refine ⟨⟨m, hm, hmrole⟩, hcolumn _, ?_⟩
    rw [ScimStore.inGrantingGroup, hvaults]
    rfl

/-- A request that keeps members by hand and by groups apart keeps the invariant. -/
theorem settled_step {l : ScimStep} (h : s.Settled s.manual) (hapart : KeptApart s l)
    (hstep : scimSystem.step s l = some s') :
  s'.Settled s'.manual
  := by
  cases l with
  | upsertMember auth vaultId userId req =>
    have hcases := ScimStore.upsertMember_cases s.toScimStore auth vaultId userId req
    have hput (hok : (s.toScimStore.upsertMember auth vaultId userId req).2 = .ok ()) :=
      h.upsertMember hapart hok
    simp only [scimSystem, ScimServer.step] at hstep
    rcases hcases with ⟨e, heq⟩ | ⟨sealedKey, keyVersion, heq⟩
    · rw [heq] at hstep
      cases hstep
      exact h
    · rw [heq] at hstep hput
      cases hstep
      exact hput rfl
  | removeMember auth vaultId userId =>
    simp only [scimSystem, ScimServer.step] at hstep
    rcases ScimStore.removeMember_cases s.toScimStore auth vaultId userId with ⟨e, heq⟩ | heq
    · rw [heq] at hstep
      cases hstep
      exact h
    · rw [heq] at hstep
      have herased := h.eraseMember vaultId userId
      by_cases hm : (s.member userId vaultId).isSome = true
      · rw [if_pos hm] at hstep
        cases hstep
        exact herased
      · rw [if_neg hm] at hstep
        cases hstep
        have hmanual : s.manual (vaultId, userId) = none := by
          cases hmanual : s.manual (vaultId, userId) with
          | none => rfl
          | some role =>
            obtain ⟨⟨m, hget, -⟩, -⟩ := h.byHand _ _ _ hmanual
            exact absurd (by rw [hget]; rfl) hm
        rw [← hmanual, Function.update_eq_self] at herased
        exact herased
  | createGroup teamId id displayName externalId members =>
    cases hstep
    exact h.createGroup id displayName externalId members
  | putGroup teamId id displayName externalId members =>
    cases hstep
    exact h.putGroup displayName externalId members hapart
  | patchOp teamId id op =>
    simp only [scimSystem, ScimServer.step] at hstep
    split at hstep
    · rename_i hload
      cases hstep
      obtain ⟨x, hload⟩ := Option.isSome_iff_exists.mp hload
      obtain ⟨hgroup, rfl⟩ := ScimStore.loadGroup_eq_some.mp hload
      exact h.patchOp hgroup op hapart
    · cases hstep
  | deleteGroup teamId id =>
    cases hstep
    exact h.deleteGroup hapart
  | setGroupVaults teamId auth id vaults =>
    cases hstep
    exact h.setGroupVaults hapart
  | joinTeam teamId userId =>
    cases hstep
    exact h.joinTeam teamId userId
  | syncUser teamId userId =>
    cases hstep
    exact h.syncUserGroups teamId userId

/-- In a run of requests that keep members by hand and by groups apart, and leave no one behind, a
member by hand stays with the role given, and a member by groups is in one that grants the vault. -/
theorem grantsKept_of_keptApart (h : scimSystem.Reaches KeptApart s) :
  GrantsKept s
  := by
  have hsettled : s.Settled s.manual :=
    h.invariant (I := fun s => s.Settled s.manual) (fun _ h => settled_of_init h)
      (fun _ _ _ h hapart hstep => settled_step h hapart hstep)
  constructor
  · intro vaultId userId role hmanual
    obtain ⟨⟨m, hm, hrole⟩, -⟩ := hsettled.byHand _ _ _ hmanual
    exact ⟨m, hm, le_of_eq (congrArg vaultRoleRank hrole)⟩
  · exact hsettled.granted

end

instance (s : ScimServer) : ∀ l : ScimStep, Decidable (KeptApart s l)
  | .upsertMember .. => inferInstanceAs (Decidable (_ = false))
  | .putGroup .. => inferInstanceAs (Decidable (∀ x ∈ s.loadGroup _ _, _))
  | .patchOp .. => inferInstanceAs (Decidable (ScimStore.ChangeSafe ..))
  | .deleteGroup .. => inferInstanceAs (Decidable (∀ x ∈ s.loadGroup _ _, ScimStore.DeleteSafe ..))
  | .setGroupVaults .. => inferInstanceAs (Decidable (∀ t ∈ Except.toOption _, _))
  | .removeMember .. | .createGroup .. | .joinTeam .. | .syncUser .. => .isTrue trivial

end

/-! ### A user who leaves a group -/

open Symbolic

/-- A team of user 1, who manages vault 9, with user 2 and no groups. -/
def ungrouped : ScimServer where
  db := { sharedVault.db with
    vaultMembers := .single ⟨9, 1, .manager, some sealedText, 1⟩ }
  team :=
    { roles := ⟨[⟨30, 3, "owner", "Owner", "", ["*"], true, 0⟩,
        ⟨31, 3, "member", "Member", "", [], true, 20⟩], (by decide : ([30, 31] : List Uuid).Nodup)⟩
      teams := .single ⟨3, 1, some 31⟩
      members := ⟨[⟨3, 1, "owner", 30, "manual"⟩, ⟨3, 2, "member", 31, "manual"⟩], by decide⟩
      mappings := .empty
      invites := .empty
      idps := .empty
      identities := .empty }
  grantedByGroup _ := none
  groups := .empty
  groupMembers := .empty
  groupVaults := .empty
  managedBy _ := none
  disabled _ := false
  manual k := if k = (9, 1) then some .manager else none

theorem init_ungrouped :
  (@scimSystem _ plainNames).init ungrouped
  := by
  refine ⟨rfl, rfl, rfl, fun _ => rfl, ?_⟩
  rintro ⟨v, u⟩
  simp only [ungrouped, ScimStore.member, Table.get?, key_member]
  by_cases hk : (9, 1) = (v, u)
  · cases hk
    rfl
  · rw [if_neg (fun h => hk h.symm)]
    simp only [Prod.mk.injEq] at hk
    simp [hk]

/-- User 2 is put into a group that grants vault 9 to viewers, and taken out of it. -/
def inAndOut : List ScimStep := [
  .createGroup 3 50 (some "staff") none [2],
  .setGroupVaults 3 ⟨1, 1, none⟩ 50 [(9, "viewer")],
  .patchOp 3 50 ⟨"remove", "members", none, none, none, [2], none⟩]

/-- Vault 9 gets user 2 as an editor by hand. -/
def byHand : ScimStep := .upsertMember ⟨1, 1, none⟩ 9 2 ⟨2, .editor, sealedText⟩

/-- A user added by hand after leaving the group stays. -/
theorem grantsKept_addedAfterwards :
  ∃ s, (@scimSystem _ plainNames).run ungrouped (inAndOut ++ [byHand]) = some s
    ∧ (s.member 2 9).isSome = true ∧ GrantsKept s
  := by
  have hsome : ((@scimSystem _ plainNames).runMeeting (@KeptApart plainNames) ungrouped
      (inAndOut ++ [byHand])).any (fun s => (s.member 2 9).isSome) = true := by
    decide +kernel
  obtain ⟨s, hrun, hmember⟩ := Option.any_eq_true _ _ |>.mp hsome
  refine ⟨s, TransitionSystem.run_of_runMeeting hrun, hmember, ?_⟩
  exact @grantsKept_of_keptApart _ plainNames _
    (TransitionSystem.reaches_runMeeting init_ungrouped hrun)

/-- A user added by hand before entering the group is gone after leaving it. -/
theorem not_grantsKept_addedBefore :
  ¬ ∀ s : ScimServer, (@scimSystem _ plainNames).Reachable s → GrantsKept s
  := by
  intro h
  have hsome : ((@scimSystem _ plainNames).run ungrouped (byHand :: inAndOut)).any
      (fun s => decide (s.manual (9, 2) = some .editor) && (s.member 2 9).isNone) = true := by
    decide +kernel
  obtain ⟨s, hrun, hgone⟩ := Option.any_eq_true _ _ |>.mp hsome
  simp only [Bool.and_eq_true, decide_eq_true_eq, Option.isNone_iff_eq_none] at hgone
  have hreach := TransitionSystem.Reaches.run (.init init_ungrouped)
    (TransitionSystem.meets_true ungrouped (byHand :: inAndOut)) hrun
  obtain ⟨m, hm, -⟩ := (h s hreach).1 9 2 .editor hgone.1
  rw [hgone.2] at hm
  cases hm

end Termoso.Server
