import Termoso.Server.Teams

/-!
# Sign-in through an identity provider

A sign-in proves an identity, and links it to a user.  The groups that the provider named then
give the user roles: first in every team the user is a member of, by the mappings of that team,
and then, when a team brought the provider, in that team, which the user may join.

The provider of one team is to have no say in the others.  It has none when in every other team
the groups call for nothing new.
-/

namespace Termoso.Server

/-- What a consumed `sso_session` token proves. -/
structure SsoSession where
  provider : String
  subject : String
  email : String
  /-- Group names asserted by the provider. -/
  groups : List String
  /-- Set when the identity came from a team's own provider. -/
  teamId : Option Uuid

namespace TeamDb

/-- Link an identity to a user. -/
def upsertIdentity (db : TeamDb) (sess : SsoSession) (userId : Uuid) : TeamDb :=
  { db with
    identities := db.identities.upsert ⟨sess.provider, sess.subject, userId, sess.email⟩
      (fun i => { i with userId := userId, email := sess.email }) (fun _ => rfl) }

variable [Names]

/-- Sign-in through the provider of a team: join the team with the default role when that is on,
then apply the mappings of the team. -/
def jitJoin (db : TeamDb) (teamId userId : Uuid) (groups : List String) : Except Error Unit × TeamDb :=
  if (db.idps.get? teamId).any (fun p => p.enabled && p.jitJoin) then
    match db.defaultRoleId teamId with
    | .error e => (.error e, db)
    | .ok defaultRole =>
      (.ok (), (db.joinTeam teamId userId defaultRole "idp").applyGroupMappingsScoped userId groups
        (some teamId) "idp")
  else (.ok (), db)

/-- Link the identity of a session to a user, and give the roles its groups call for. -/
def linkIdentity (db : TeamDb) (sess : SsoSession) (userId : Uuid) : Except Error Unit × TeamDb :=
  let db := (db.upsertIdentity sess userId).applyGroupMappings userId sess.groups
  match sess.teamId with
  | some teamId => db.jitJoin teamId userId sess.groups
  | none => (.ok (), db)

/-! ### What the groups of a user do -/

section
variable {db rows : TeamDb} {groups : List String} {source : String} {m : TeamMemberRow}
  {userId : Uuid} {onlyTeam : Option Uuid} {k : Uuid × Uuid}

/-- A member with the role that the groups of the user call for. -/
def regrouped (db : TeamDb) (groups : List String) (source : String) (m : TeamMemberRow) :
    TeamMemberRow :=
  match db.groupTarget groups m with
  | none => m
  | some target =>
    if target = m.roleId ∧ m.roleSource = source then m
    else if m.role ≠ "owner" ∧ db.grantable m.teamId target then
      { m with roleId := target, roleSource := source, role := db.levelOf target }
    else m

theorem key_regrouped :
  key (db.regrouped groups source m) = key m
  := by
  unfold regrouped
  split
  · rfl
  split
  · rfl
  split <;> rfl

/-- Regrouping a member changes that member only, when the roles are those the target was read
beside. -/
theorem get?_regroup (hroles : db.roles = rows.roles) (hm : db.members.get? (key m) = some m) :
  (regroup groups source rows db m).members.get? k
    = if k = key m then some (rows.regrouped groups source m) else db.members.get? k
  := by
  unfold regroup regrouped
  cases htarget : rows.groupTarget groups m with
  | none =>
      dsimp only
      split
      · rename_i hk
        rw [hk, hm]
      · rfl
  | some target =>
      have hgrant : db.grantable m.teamId target = rows.grantable m.teamId target := by
        rw [grantable, teamRole, hroles]
        rfl
      have hlevel : db.levelOf target = rows.levelOf target := by
        rw [levelOf, hroles]
        rfl
      dsimp only
      split
      · split
        · rename_i hk
          rw [hk, hm]
        · rfl
      · rw [setGroupRole, Table.get?_set, hgrant, hlevel, ← key_teamMember, hm, Option.map_some]

theorem roles_regroup :
  (regroup groups source rows db m).roles = db.roles
  := by
  unfold regroup
  split
  · rfl
  split <;> rfl

/-- Regrouping some members regroups each of them, and changes no other. -/
theorem get?_foldl_regroup {ms : List TeamMemberRow} (hroles : db.roles = rows.roles)
    (hnodup : (ms.map key).Nodup) (hms : ∀ m ∈ ms, db.members.get? (key m) = some m) :
  (ms.foldl (regroup groups source rows) db).members.get? k
    = (db.members.get? k).map (fun m => if m ∈ ms then rows.regrouped groups source m else m)
  := by
  induction ms generalizing db with
  | nil => simp
  | cons m ms ih =>
      obtain ⟨hnotMem, hnodup⟩ := List.nodup_cons.mp hnodup
      have hm := hms m List.mem_cons_self
      have hget : ∀ k, (regroup groups source rows db m).members.get? k
          = if k = key m then some (rows.regrouped groups source m) else db.members.get? k :=
        fun _ => get?_regroup hroles hm
      rw [List.foldl_cons, ih (roles_regroup.trans hroles) hnodup]
      · rw [hget k]
        split
        · rename_i hk
          have hother : rows.regrouped groups source m ∉ ms := by
            intro hmem
            apply hnotMem
            have hkey : key (rows.regrouped groups source m) = key m := key_regrouped
            rw [← hkey]
            exact List.mem_map_of_mem hmem
          rw [hk, hm, Option.map_some, Option.map_some, if_neg hother, if_pos List.mem_cons_self]
        · rename_i hk
          apply Option.map_congr
          intro r hr
          have hne : r ≠ m := fun heq => hk (heq ▸ (Table.key_of_get? hr).symm)
          simp [hne]
      · intro m' hm'
        rw [hget, if_neg, hms m' (List.mem_cons_of_mem m hm')]
        intro hk
        exact hnotMem (hk ▸ List.mem_map_of_mem hm')

/-- A pass over the groups of a user changes members only. -/
theorem applyGroupMappingsScoped_eq_withMembers :
  ∃ members, db.applyGroupMappingsScoped userId groups onlyTeam source
    = { db with members := members }
  := by
  have hfold : ∀ (ms : List TeamMemberRow) (db' : TeamDb), ∃ members,
      ms.foldl (regroup (lowered groups) source db) db' = { db' with members := members } := by
    intro ms
    induction ms with
    | nil => exact fun db' => ⟨db'.members, rfl⟩
    | cons m ms ih =>
        intro db'
        rw [List.foldl_cons]
        obtain ⟨members, hmembers⟩ := ih (regroup (lowered groups) source db db' m)
        refine ⟨members, hmembers.trans ?_⟩
        unfold regroup
        split
        · rfl
        split <;> rfl
  apply hfold

/-- Whether a member is one whose role the groups of a user decide. -/
def Placed (userId : Uuid) (onlyTeam : Option Uuid) (m : TeamMemberRow) : Prop :=
  m.userId = userId ∧ m.role ≠ "owner" ∧ ∀ t ∈ onlyTeam, m.teamId = t

instance : Decidable (Placed userId onlyTeam m) :=
  inferInstanceAs (Decidable (_ ∧ _ ∧ _))

/-- The members after a pass over the groups of a user. -/
theorem get?_applyGroupMappingsScoped :
  (db.applyGroupMappingsScoped userId groups onlyTeam source).members.get? k
    = (db.members.get? k).map (fun m =>
        if Placed userId onlyTeam m then db.regrouped (lowered groups) source m else m)
  := by
  rw [applyGroupMappingsScoped, get?_foldl_regroup rfl]
  · apply Option.map_congr
    intro m hm
    have hmem : m ∈ db.members.rows := Table.mem_of_get? hm
    simp [Table.select, Placed, hmem, and_assoc, Option.all_eq_true]
  · exact db.members.nodup.sublist (List.filter_sublist.map key)
  · intro m hm
    exact Table.get?_of_mem (List.mem_filter.mp hm).1

end

/-- A sign-in through the provider of a team changes no member of another team beyond the pass over
all teams. -/
theorem get?_jitJoin {db : TeamDb} {teamId userId : Uuid} {groups : List String} {k : Uuid × Uuid}
    (hk : k.1 ≠ teamId) :
  (db.jitJoin teamId userId groups).2.members.get? k = db.members.get? k
  := by
  unfold jitJoin
  split
  · split
    · rfl
    · rename_i defaultRole _
      have hkey : k ≠ (teamId, userId) := fun h => hk (congrArg Prod.fst h)
      have hjoin : (db.joinTeam teamId userId defaultRole "idp").members.get? k
          = db.members.get? k := by
        rw [joinTeam, Table.get?_upsert]
        exact if_neg hkey
      rw [get?_applyGroupMappingsScoped, hjoin]
      cases hm : db.members.get? k with
      | none => rfl
      | some m =>
          have hteam : m.teamId = k.1 := congrArg Prod.fst (Table.key_of_get? hm)
          have hplaced : ¬ Placed userId (some teamId) m := by
            rintro ⟨-, -, honly⟩
            exact hk (hteam.symm.trans (honly teamId rfl))
          simp [hplaced]
  · rfl

/-- The members of the other teams after a sign-in through the provider of a team. -/
theorem get?_linkIdentity {db : TeamDb} {sess : SsoSession} {userId t : Uuid} {k : Uuid × Uuid}
    (h : sess.teamId = some t) (hk : k.1 ≠ t) :
  (db.linkIdentity sess userId).2.members.get? k
    = (db.members.get? k).map (fun m =>
        if Placed userId none m then db.regrouped (lowered sess.groups) "idp" m else m)
  := by
  unfold linkIdentity
  rw [h]
  dsimp only
  rw [get?_jitJoin hk, applyGroupMappings, get?_applyGroupMappingsScoped]
  rfl

/-- The groups of a session call for nothing new in a member: the role they call for is the one a
provider gave the member already, or one that no provider can give. -/
def Settled (db : TeamDb) (groups : List String) (m : TeamMemberRow) : Prop :=
  ∀ r ∈ db.groupTarget (lowered groups) m, db.grantable m.teamId r →
    r = m.roleId ∧ m.roleSource = "idp"

theorem regrouped_eq_iff {db : TeamDb} {groups : List String} {m : TeamMemberRow}
    (howner : m.role ≠ "owner") :
  db.regrouped (lowered groups) "idp" m = m ↔ db.Settled groups m
  := by
  unfold regrouped Settled
  cases db.groupTarget (lowered groups) m with
  | none => simp
  | some target =>
      simp only [Option.mem_some_iff, forall_eq']
      split
      · rename_i hsame
        simp [hsame]
      · rename_i hdiff
        split
        · rename_i hgrant
          constructor
          · intro heq
            refine absurd ⟨?_, ?_⟩ hdiff
            · rw [← heq]
            · rw [← heq]
          · intro hsettled
            exact absurd (hsettled hgrant.2) hdiff
        · rename_i hgrant
          simp only [true_iff]
          intro hg
          exact absurd ⟨howner, hg⟩ hgrant

/-- The rows about the members of every team but one are the same. -/
def OtherTeamsKept (t : Uuid) (db db' : TeamDb) : Prop :=
  ∀ teamId userId, teamId ≠ t → db'.members.get? (teamId, userId) = db.members.get? (teamId, userId)

/-- A sign-in through the provider of a team leaves the other teams alone exactly when its groups
call for nothing new in the other teams where the user is a member and not the owner. -/
theorem otherTeamsKept_linkIdentity_iff (db : TeamDb) (sess : SsoSession) (userId t : Uuid)
    (h : sess.teamId = some t) :
  OtherTeamsKept t db (db.linkIdentity sess userId).2
    ↔ ∀ teamId m, teamId ≠ t → db.members.get? (teamId, userId) = some m → m.role ≠ "owner" →
        db.Settled sess.groups m
  := by
  constructor
  · intro hkept teamId m hne hm howner
    apply (regrouped_eq_iff howner).mp
    have huser : m.userId = userId := congrArg Prod.snd (Table.key_of_get? hm)
    have hplaced : Placed userId none m := ⟨huser, howner, by simp⟩
    have hget := hkept teamId userId hne
    rw [get?_linkIdentity h hne, hm, Option.map_some, if_pos hplaced] at hget
    exact Option.some.inj hget
  · intro hsettled teamId userId' hne
    rw [get?_linkIdentity h hne]
    cases hm : db.members.get? (teamId, userId') with
    | none => rfl
    | some m =>
        rw [Option.map_some]
        split
        · rename_i hplaced
          have huser : userId' = userId :=
            (congrArg Prod.snd (Table.key_of_get? hm)).symm.trans hplaced.1
          rw [huser] at hm
          rw [(regrouped_eq_iff hplaced.2.1).mpr (hsettled teamId m hne hm hplaced.2.1)]
        · rfl

end TeamDb

/-! ### Two teams -/

section
open TeamDb

/-- Team 1 brings a provider.  User 7 is a member of team 2 alone, as a viewer placed by hand, and
team 2 maps the group `staff` to its administrators. -/
def twoTeams : TeamDb where
  roles := ⟨[⟨11, 1, "member", "Member", "", ["team.view"], true, 20⟩,
    ⟨21, 2, "viewer", "Viewer", "", ["team.view"], true, 30⟩,
    ⟨22, 2, "admin", "Admin", "", ["team.view", "roles.manage"], true, 10⟩], by decide⟩
  teams := ⟨[⟨1, 5, some 11⟩, ⟨2, 6, some 21⟩], by decide⟩
  members := ⟨[⟨2, 7, "member", 21, "manual"⟩], by decide⟩
  mappings := ⟨[⟨2, "staff", 22, 1⟩], by decide⟩
  invites := .empty
  idps := ⟨[⟨1, true, true⟩], by decide⟩
  identities := .empty

/-- What the provider of team 1 proves for user 7, with the groups it chose to name. -/
def provided (groups : List String) : SsoSession :=
  ⟨"team:1", "seven", "seven@example.com", groups, some 1⟩

/-- The provider of team 1 leaves team 2 alone as long as it names no group that team 2 maps. -/
theorem otherTeamsKept_otherGroups :
  OtherTeamsKept 1 twoTeams (@linkIdentity plainNames twoTeams (provided ["guests"]) 7).2
  := by
  apply (@otherTeamsKept_linkIdentity_iff plainNames twoTeams (provided ["guests"]) 7 1 rfl).mpr
  intro teamId m hne hm howner r hr
  obtain rfl := List.mem_singleton.mp (Table.mem_of_get? hm)
  have hnone : @groupTarget plainNames twoTeams (@lowered plainNames ["guests"])
      ⟨2, 7, "member", 21, "manual"⟩ = none := by
    decide +kernel
  cases hr.symm.trans hnone

/-- The provider of team 1 makes a member of team 2 an administrator there. -/
theorem not_otherTeamsKept_staff :
  ¬ OtherTeamsKept 1 twoTeams (@linkIdentity plainNames twoTeams (provided ["staff"]) 7).2
  := by
  intro h
  have := h 2 7 (by decide)
  revert this
  decide +kernel

end

end Termoso.Server
