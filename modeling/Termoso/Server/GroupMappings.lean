import Termoso.Lib.Listing
import Termoso.Server.Sso

/-!
# Roles by group

A team maps groups of an identity provider to roles.  Whenever a user signs in, the groups that
the provider names are to decide the roles of the user in every team, but for the owners and for
those who got their role by hand.

The roles that groups call for are given only when they are roles of the team other than the
owner's.  A role given by hand is replaced just as well.
-/

namespace Termoso.Server

namespace TeamDb

variable [Names]

/-! ### What the groups of a user are to do -/

/-- A mapping of a team that matches some groups. -/
def Matches (teamId : Uuid) (groups : List String) (x : RoleMappingRow) : Prop :=
  x.teamId = teamId ∧ Names.lower x.groupName ∈ groups

/-- A mapping that matches some groups, with the lowest priority. -/
def Lowest (db : TeamDb) (teamId : Uuid) (groups : List String) (x : RoleMappingRow) : Prop :=
  x ∈ db.mappings.rows ∧ Matches teamId groups x
    ∧ ∀ y ∈ db.mappings.rows, Matches teamId groups y → x.priority ≤ y.priority

/-- A member that a provider placed. -/
def FromProvider (m : TeamMemberRow) : Prop := m.roleSource = "idp" ∨ m.roleSource = "scim"

/-- The same groups, in any order and case. -/
def SameNames (groups groups' : List String) : Prop := ∀ g, g ∈ lowered groups ↔ g ∈ lowered groups'

/-- Whether a role grants everything. -/
def grantsAll (db : TeamDb) (roleId : Uuid) : Bool :=
  (db.roles.get? roleId).any (fun r => decide ("*" ∈ r.permissions))

/-- The groups of a user decide the roles of the user, where the user is not the owner and has
not got the role by hand. -/
structure MappingsKept (db : TeamDb) (userId : Uuid) (groups : List String) : Prop where
  untouched : ∀ k m, db.members.get? k = some m → m.role = "owner" ∨ m.roleSource = "manual" →
    (db.applyGroupMappings userId groups).members.get? k = some m
  matched : ∀ k m, db.members.get? k = some m → m.userId = userId → m.role ≠ "owner" →
    m.roleSource ≠ "manual" → (∃ x ∈ db.mappings.rows, Matches m.teamId (lowered groups) x) →
    ∃ m' x, (db.applyGroupMappings userId groups).members.get? k = some m'
      ∧ db.Lowest m.teamId (lowered groups) x ∧ m'.roleId = x.roleId
  unmatched : ∀ k m, db.members.get? k = some m → m.userId = userId → m.role ≠ "owner" →
    FromProvider m → (∀ x ∈ db.mappings.rows, ¬ Matches m.teamId (lowered groups) x) →
    ∃ m' t, (db.applyGroupMappings userId groups).members.get? k = some m'
      ∧ db.teams.get? m.teamId = some t ∧ t.defaultRoleId = some m'.roleId
  noWildcard : ∀ k m m', db.members.get? k = some m →
    (db.applyGroupMappings userId groups).members.get? k = some m' → m' ≠ m →
    db.grantsAll m'.roleId = false
  again : ∀ groups', SameNames groups groups' →
    (db.applyGroupMappings userId groups).applyGroupMappings userId groups'
      = db.applyGroupMappings userId groups

/-! ### What they do -/

/-- The groups of a user call for a role that can be given to a member, and has not been already. -/
def Gives (db : TeamDb) (groups : List String) (m : TeamMemberRow) (r : Uuid) : Prop :=
  db.groupTarget groups m = some r ∧ db.grantable m.teamId r = true
    ∧ ¬ (r = m.roleId ∧ m.roleSource = "idp")

section
variable {db : TeamDb} {groups : List String} {m : TeamMemberRow} {r userId : Uuid}
  {k : Uuid × Uuid}

theorem regrouped_of_gives (howner : m.role ≠ "owner") (h : db.Gives groups m r) :
  db.regrouped groups "idp" m
    = { m with roleId := r, roleSource := "idp", role := db.levelOf r }
  := by
  obtain ⟨htarget, hgrantable, hnew⟩ := h
  rw [regrouped, htarget]
  dsimp only
  rw [if_neg hnew, if_pos ⟨howner, hgrantable⟩]

theorem regrouped_of_not_gives (h : ∀ r, ¬ db.Gives groups m r) :
  db.regrouped groups "idp" m = m
  := by
  unfold regrouped
  split
  · rfl
  · rename_i target htarget
    split
    · rfl
    · rename_i hnew
      rw [if_neg]
      rintro ⟨-, hgrantable⟩
      exact h target ⟨htarget, hgrantable, hnew⟩

theorem Gives.unique {r' : Uuid} (h : db.Gives groups m r) (h' : db.Gives groups m r') :
  r = r'
  := Option.some.inj (h.1.symm.trans h'.1)

/-- The members after a sign-in. -/
theorem get?_applyGroupMappings :
  (db.applyGroupMappings userId groups).members.get? k
    = (db.members.get? k).map (fun m =>
        if Placed userId none m then db.regrouped (lowered groups) "idp" m else m)
  := get?_applyGroupMappingsScoped

theorem get?_applyGroupMappings_of_placed (groups : List String)
    (hm : db.members.get? k = some m) (hplaced : Placed userId none m) :
  (db.applyGroupMappings userId groups).members.get? k
    = some (db.regrouped (lowered groups) "idp" m)
  := by
  rw [get?_applyGroupMappings, hm, Option.map_some, if_pos hplaced]

omit [Names] in
theorem placed_none_iff :
  Placed userId none m ↔ m.userId = userId ∧ m.role ≠ "owner"
  := by
  simp [Placed]

/-! ### The mapping with the lowest priority -/

/-- The mappings of a team that match some groups. -/
def matching (db : TeamDb) (teamId : Uuid) (groups : List String) : List RoleMappingRow :=
  db.mappings.select (fun x => decide (x.teamId = teamId)
    && decide (Names.lower x.groupName ∈ groups))

/-- Whether a mapping comes before another one. -/
def precedes (x y : RoleMappingRow) : Bool :=
  decide (x.priority < y.priority)
    || decide (x.priority = y.priority) && Names.le x.groupName y.groupName

theorem mappedRole_eq {teamId : Uuid} :
  db.mappedRole teamId groups
    = (((db.matching teamId groups).mergeSort precedes).head?).map RoleMappingRow.roleId
  := rfl

theorem mem_matching {teamId : Uuid} {x : RoleMappingRow} :
  x ∈ db.matching teamId groups ↔ x ∈ db.mappings.rows ∧ Matches teamId groups x
  := by
  simp [matching, Table.select, Matches]

theorem mappedRole_eq_none_iff {teamId : Uuid} :
  db.mappedRole teamId groups = none ↔ ∀ x ∈ db.mappings.rows, ¬ Matches teamId groups x
  := by
  rw [mappedRole_eq, Option.map_eq_none_iff, List.head?_eq_none_iff]
  constructor
  · intro hnil x hx hmatches
    have hmem : x ∈ (db.matching teamId groups).mergeSort precedes :=
      List.mem_mergeSort.mpr (mem_matching.mpr ⟨hx, hmatches⟩)
    rw [hnil] at hmem
    cases hmem
  · intro hnone
    apply List.eq_nil_iff_forall_not_mem.mpr
    intro x hx
    obtain ⟨hx, hmatches⟩ := mem_matching.mp (List.mem_mergeSort.mp hx)
    exact hnone x hx hmatches

/-- The role that groups map to is that of a matching mapping with the lowest priority. -/
theorem lowest_of_mappedRole {teamId : Uuid} (h : db.mappedRole teamId groups = some r) :
  ∃ x, db.Lowest teamId groups x ∧ x.roleId = r
  := by
  rw [mappedRole_eq, Option.map_eq_some_iff] at h
  obtain ⟨x, hhead, hr⟩ := h
  have htrans : IsTrans RoleMappingRow (fun x y => x.priority ≤ y.priority) :=
    ⟨fun _ _ _ hxy hyz => hxy.trans hyz⟩
  have hsorted : ((db.matching teamId groups).mergeSort precedes).Pairwise
      (fun x y => x.priority ≤ y.priority) := by
    apply pairwise_mergeSort_of_refines
    · intro x y hle
      simp only [precedes, Bool.or_eq_true, Bool.and_eq_true, decide_eq_true_eq] at hle
      omega
    · intro x y hgt
      simp only [precedes, Bool.or_eq_false_iff, decide_eq_false_iff_not] at hgt
      omega
  obtain ⟨xs, hxs⟩ := List.head?_eq_some_iff.mp hhead
  rw [hxs] at hsorted
  have hmem : ∀ y, y ∈ db.matching teamId groups ↔ y ∈ x :: xs := by
    intro y
    rw [← hxs, List.mem_mergeSort]
  obtain ⟨hx, hmatches⟩ := mem_matching.mp ((hmem x).mpr List.mem_cons_self)
  refine ⟨x, ⟨hx, hmatches, ?_⟩, hr⟩
  intro y hy hmatchesY
  rcases List.mem_cons.mp ((hmem y).mp (mem_matching.mpr ⟨hy, hmatchesY⟩)) with rfl | hy
  · exact le_refl y.priority
  · exact List.rel_of_pairwise_cons hsorted hy

/-- Groups that differ in order and case only map to the same role. -/
theorem mappedRole_congr {teamId : Uuid} {groups' : List String}
    (h : ∀ g, g ∈ groups ↔ g ∈ groups') :
  db.mappedRole teamId groups' = db.mappedRole teamId groups
  := by
  simp only [mappedRole, h]

/-! ### A second sign-in -/

/-- What groups call for depends on the teams and mappings, and on who gave the role. -/
theorem groupTarget_congr {db' : TeamDb} {groups' : List String} {m' : TeamMemberRow}
    (hteams : db'.teams = db.teams) (hmappings : db'.mappings = db.mappings)
    (hnames : ∀ g, g ∈ groups ↔ g ∈ groups') (hteam : m'.teamId = m.teamId)
    (hsource : db.mappedRole m.teamId groups = none → (FromProvider m' ↔ FromProvider m)) :
  db'.groupTarget groups' m' = db.groupTarget groups m
  := by
  have hmapped : db'.mappedRole m.teamId groups' = db.mappedRole m.teamId groups := by
    rw [mappedRole, hmappings]
    exact mappedRole_congr hnames
  rw [groupTarget, groupTarget, hteams, hteam, hmapped]
  congr 1
  funext t
  cases hnone : db.mappedRole m.teamId groups with
  | some r => rfl
  | none =>
      have := hsource hnone
      simp only [FromProvider] at this
      simp only [this]

/-- A role that was given is not given again, nor is one that was not. -/
theorem not_gives_regrouped {groups' : List String} (hnames : ∀ g, g ∈ groups ↔ g ∈ groups')
    (howner : m.role ≠ "owner") {members : Table TeamMemberRow} (r : Uuid) :
  ¬ Gives { db with members := members } groups' (db.regrouped groups "idp" m) r
  := by
  by_cases hgives : ∃ r', db.Gives groups m r'
  · obtain ⟨r', hr'⟩ := hgives
    rw [regrouped_of_gives howner hr']
    rintro ⟨htarget, -, hnew⟩
    have hsame : groupTarget { db with members := members } groups'
        { m with roleId := r', roleSource := "idp", role := db.levelOf r' }
        = db.groupTarget groups m := by
      apply groupTarget_congr
      · rfl
      · rfl
      · exact hnames
      · rfl
      · intro hnone
        have hplaced : FromProvider m := by
          by_contra hplaced
          have hcalled := hr'.1
          unfold FromProvider at hplaced
          simp [groupTarget, hnone, hplaced] at hcalled
        exact iff_of_true (.inl rfl) hplaced
    rw [hsame, hr'.1] at htarget
    exact hnew ⟨(Option.some.inj htarget).symm, rfl⟩
  · have hnot := not_exists.mp hgives
    rw [regrouped_of_not_gives hnot]
    rintro ⟨htarget, hgrantable, hnew⟩
    apply hnot r
    refine ⟨?_, hgrantable, hnew⟩
    rw [← htarget]
    symm
    apply groupTarget_congr
    · rfl
    · rfl
    · exact hnames
    · rfl
    · exact fun _ => Iff.rfl

/-- Groups that give nothing to anyone change nothing. -/
theorem regroup_eq_self (hm : db.members.get? (key m) = some m) (h : ∀ r, ¬ db.Gives groups m r) :
  regroup groups "idp" db db m = db
  := by
  unfold regroup
  split
  · rfl
  · rename_i target htarget
    split
    · rfl
    · rename_i hnew
      have hnot : ¬ (db.grantable m.teamId target = true) :=
        fun hgrantable => h target ⟨htarget, hgrantable, hnew⟩
      have hset : ∀ f hf, f m = m → db.members.set (m.teamId, m.userId) f hf = db.members := by
        intro f hf hfm
        apply Table.set_eq_self
        intro m' hm' hkey
        rw [Table.eq_of_mem hm' (Table.mem_of_get? hm) hkey, hfm]
      rw [setGroupRole, hset]
      rw [if_neg]
      exact fun hgives => hnot hgives.2

theorem applyGroupMappings_eq_self
    (h : ∀ m ∈ db.members.rows, Placed userId none m → ∀ r, ¬ db.Gives (lowered groups) m r) :
  db.applyGroupMappings userId groups = db
  := by
  have hfold : ∀ ms : List TeamMemberRow, (∀ m ∈ ms, m ∈ db.members.rows ∧ Placed userId none m) →
      ms.foldl (regroup (lowered groups) "idp" db) db = db := by
    intro ms hms
    induction ms with
    | nil => rfl
    | cons m ms ih =>
        obtain ⟨hm, hplaced⟩ := hms m List.mem_cons_self
        rw [List.foldl_cons, regroup_eq_self (Table.get?_of_mem hm) (h m hm hplaced)]
        exact ih fun m' hm' => hms m' (List.mem_cons_of_mem m hm')
  apply hfold
  intro m hm
  simpa [Table.select, placed_none_iff] using hm

/-- A second sign-in with the same groups changes nothing. -/
theorem applyGroupMappings_again {groups' : List String} (hnames : SameNames groups groups') :
  (db.applyGroupMappings userId groups).applyGroupMappings userId groups'
    = db.applyGroupMappings userId groups
  := by
  apply applyGroupMappings_eq_self
  intro m' hm' hplaced r
  have hget := Table.get?_of_mem hm'
  rw [get?_applyGroupMappings, Option.map_eq_some_iff] at hget
  obtain ⟨m, hm, hm'⟩ := hget
  obtain ⟨members, hmembers⟩ : ∃ members, db.applyGroupMappings userId groups
      = { db with members := members } := applyGroupMappingsScoped_eq_withMembers
  rw [hmembers]
  split at hm'
  · rename_i hplacedBefore
    rw [← hm']
    exact not_gives_regrouped hnames hplacedBefore.2.1 r
  · rename_i hnot
    rw [hm'] at hnot
    exact absurd hplaced hnot

/-! ### When the mappings are kept -/

/-- What has to be so for the groups to decide the role of a member: they give no role to one who
got a role by hand, and the role they call for is one they can give or the member has, without
the permission for everything. -/
structure Obeys (db : TeamDb) (groups : List String) (m : TeamMemberRow) : Prop where
  byHand : m.roleSource = "manual" → ∀ r, ¬ db.Gives groups m r
  matched : m.roleSource ≠ "manual" → (∃ x ∈ db.mappings.rows, Matches m.teamId groups x) →
    (∃ r, db.Gives groups m r) ∨ ∃ x, db.Lowest m.teamId groups x ∧ x.roleId = m.roleId
  unmatched : FromProvider m → (∀ x ∈ db.mappings.rows, ¬ Matches m.teamId groups x) →
    (∃ r, db.Gives groups m r)
      ∨ ∃ t, db.teams.get? m.teamId = some t ∧ t.defaultRoleId = some m.roleId
  noWildcard : ∀ r, db.Gives groups m r → db.grantsAll r = false

/-- The role given is that of a matching mapping with the lowest priority, when there is one. -/
theorem Gives.lowest (h : db.Gives groups m r)
    (hmatches : ∃ x ∈ db.mappings.rows, Matches m.teamId groups x) :
  ∃ x, db.Lowest m.teamId groups x ∧ x.roleId = r
  := by
  cases hmapped : db.mappedRole m.teamId groups with
  | none =>
      obtain ⟨x, hx, hmatch⟩ := hmatches
      exact absurd hmatch (mappedRole_eq_none_iff.mp hmapped x hx)
  | some r' =>
      have htarget := h.1
      rw [groupTarget, hmapped] at htarget
      obtain ⟨t, -, hr⟩ := Option.bind_eq_some_iff.mp htarget
      rw [← Option.some.inj hr]
      exact lowest_of_mappedRole hmapped

/-- The role given is the default one, when no mapping matches. -/
theorem Gives.default (h : db.Gives groups m r)
    (hnone : ∀ x ∈ db.mappings.rows, ¬ Matches m.teamId groups x) :
  ∃ t, db.teams.get? m.teamId = some t ∧ t.defaultRoleId = some r
  := by
  have htarget := h.1
  rw [groupTarget, mappedRole_eq_none_iff.mpr hnone] at htarget
  obtain ⟨t, ht, hr⟩ := Option.bind_eq_some_iff.mp htarget
  dsimp only at hr
  split at hr
  · exact ⟨t, ht, hr⟩
  · cases hr

theorem Gives.obeys (h : db.Gives groups m r) (hsource : m.roleSource ≠ "manual")
    (hrole : db.grantsAll r = false) :
  db.Obeys groups m
  := by
  constructor
  · exact fun hmanual => absurd hmanual hsource
  · exact fun _ _ => .inl ⟨r, h⟩
  · exact fun _ _ => .inl ⟨r, h⟩
  · intro r' hr'
    rw [hr'.unique h]
    exact hrole

theorem Gives.regrouped_ne (howner : m.role ≠ "owner") (h : db.Gives groups m r) :
  db.regrouped groups "idp" m ≠ m
  := by
  rw [regrouped_of_gives howner h]
  intro heq
  apply h.2.2
  constructor
  · exact congrArg TeamMemberRow.roleId heq
  · exact (congrArg TeamMemberRow.roleSource heq).symm

/-- The role of a member after a sign-in is one that was given, or the one before. -/
theorem regrouped_cases (howner : m.role ≠ "owner") :
  (∃ r, db.Gives groups m r ∧ (db.regrouped groups "idp" m).roleId = r)
    ∨ (∀ r, ¬ db.Gives groups m r) ∧ db.regrouped groups "idp" m = m
  := by
  by_cases hgives : ∃ r, db.Gives groups m r
  · obtain ⟨r, hr⟩ := hgives
    left
    refine ⟨r, hr, ?_⟩
    rw [regrouped_of_gives howner hr]
  · right
    exact ⟨not_exists.mp hgives, regrouped_of_not_gives (not_exists.mp hgives)⟩

/-- Members that obey keep what the groups are to keep. -/
theorem MappingsKept.obeys (h : db.MappingsKept userId groups) (hm : m ∈ db.members.rows)
    (huser : m.userId = userId) (howner : m.role ≠ "owner") :
  db.Obeys (lowered groups) m
  := by
  have hrow := Table.get?_of_mem hm
  have hafter := get?_applyGroupMappings_of_placed groups hrow
    (placed_none_iff.mpr ⟨huser, howner⟩)
  constructor
  · intro hmanual r hgives
    have hsame := h.untouched _ m hrow (.inr hmanual)
    rw [hafter] at hsame
    exact hgives.regrouped_ne howner (Option.some.inj hsame)
  · intro hnotManual hmatches
    obtain ⟨m', x, hm', hx, hrole⟩ := h.matched _ m hrow huser howner hnotManual hmatches
    rw [hafter] at hm'
    rcases regrouped_cases howner with ⟨r, hgives, -⟩ | ⟨-, hsame⟩
    · exact .inl ⟨r, hgives⟩
    · right
      refine ⟨x, hx, ?_⟩
      rw [← hrole, ← Option.some.inj hm', hsame]
  · intro hplaced hnone
    obtain ⟨m', t, hm', ht, hrole⟩ := h.unmatched _ m hrow huser howner hplaced hnone
    rw [hafter] at hm'
    rcases regrouped_cases howner with ⟨r, hgives, -⟩ | ⟨-, hsame⟩
    · exact .inl ⟨r, hgives⟩
    · right
      refine ⟨t, ht, ?_⟩
      rw [hrole, ← Option.some.inj hm', hsame]
  · intro r hgives
    have hnot := h.noWildcard _ m _ hrow hafter (hgives.regrouped_ne howner)
    rwa [regrouped_of_gives howner hgives] at hnot

/-- The groups of a user decide the roles of the user exactly when, in every team where the user is
a member and not the owner, they give no role over one given by hand and can give each role they
call for. -/
theorem mappingsKept_iff (db : TeamDb) (userId : Uuid) (groups : List String) :
  db.MappingsKept userId groups
    ↔ ∀ m ∈ db.members.rows, m.userId = userId → m.role ≠ "owner" → db.Obeys (lowered groups) m
  := by
  constructor
  · intro h m hm huser howner
    exact h.obeys hm huser howner
  · intro hobeys
    constructor
    · intro k m hm hkept
      rw [get?_applyGroupMappings, hm, Option.map_some]
      split
      · rename_i hplaced
        obtain ⟨huser, howner⟩ := placed_none_iff.mp hplaced
        have hobey := hobeys m (Table.mem_of_get? hm) huser howner
        rw [regrouped_of_not_gives (hobey.byHand (hkept.resolve_left howner))]
      · rfl
    · intro k m hm huser howner hnotManual hmatches
      have hobey := hobeys m (Table.mem_of_get? hm) huser howner
      have hafter := get?_applyGroupMappings_of_placed groups hm
        (placed_none_iff.mpr ⟨huser, howner⟩)
      rcases regrouped_cases howner with ⟨r, hgives, hrole⟩ | ⟨hnot, hsame⟩
      · obtain ⟨x, hx, hr⟩ := hgives.lowest hmatches
        exact ⟨_, x, hafter, hx, hrole.trans hr.symm⟩
      · rcases hobey.matched hnotManual hmatches with ⟨r, hgives⟩ | ⟨x, hx, hr⟩
        · exact absurd hgives (hnot r)
        · refine ⟨_, x, hafter, hx, ?_⟩
          rw [hsame, hr]
    · intro k m hm huser howner hplaced hnone
      have hobey := hobeys m (Table.mem_of_get? hm) huser howner
      have hafter := get?_applyGroupMappings_of_placed groups hm
        (placed_none_iff.mpr ⟨huser, howner⟩)
      rcases regrouped_cases howner with ⟨r, hgives, hrole⟩ | ⟨hnot, hsame⟩
      · obtain ⟨t, ht, hr⟩ := hgives.default hnone
        refine ⟨_, t, hafter, ht, ?_⟩
        rw [hr, hrole]
      · rcases hobey.unmatched hplaced hnone with ⟨r, hgives⟩ | ⟨t, ht, hr⟩
        · exact absurd hgives (hnot r)
        · refine ⟨_, t, hafter, ht, ?_⟩
          rw [hr, hsame]
    · intro k m m' hm hm' hne
      rw [get?_applyGroupMappings, hm, Option.map_some] at hm'
      split at hm'
      · rename_i hplaced
        obtain ⟨huser, howner⟩ := placed_none_iff.mp hplaced
        have hobey := hobeys m (Table.mem_of_get? hm) huser howner
        rcases regrouped_cases howner with ⟨r, hgives, hrole⟩ | ⟨-, hsame⟩
        · rw [← Option.some.inj hm', hrole]
          exact hobey.noWildcard r hgives
        · exact absurd ((Option.some.inj hm').symm.trans hsame) hne
      · exact absurd (Option.some.inj hm').symm hne
    · intro groups' hnames
      exact applyGroupMappings_again hnames

end

end TeamDb

/-! ### A member placed by hand -/

section
open TeamDb

/-- Two teams where a provider placed user 7 as a viewer of team 2. -/
def placedTeams : TeamDb :=
  { twoTeams with members := ⟨[⟨2, 7, "member", 21, "idp"⟩], by decide⟩ }

/-- A member whom a provider placed gets the role that the groups map to. -/
theorem mappingsKept_placed :
  @MappingsKept plainNames placedTeams 7 ["staff"]
  := by
  apply (@mappingsKept_iff plainNames placedTeams 7 ["staff"]).mpr
  intro m hm _ _
  obtain rfl := List.mem_singleton.mp hm
  have hgives : @Gives plainNames placedTeams (@lowered plainNames ["staff"])
      ⟨2, 7, "member", 21, "idp"⟩ 22 := by
    unfold Gives
    decide +kernel
  exact @Gives.obeys plainNames _ _ _ _ hgives (by decide) (by decide)

/-- A member placed by hand as a viewer becomes an administrator. -/
theorem not_mappingsKept_manual :
  ¬ @MappingsKept plainNames twoTeams 7 ["staff"]
  := by
  intro h
  have hkept := @MappingsKept.untouched plainNames _ _ _ h (2, 7) ⟨2, 7, "member", 21, "manual"⟩ (by decide)
    (.inr rfl)
  revert hkept
  decide +kernel

end

end Termoso.Server
