import Termoso.Lib.Best
import Termoso.Server.Scim
import Termoso.Server.Sync
import Mathlib.Data.List.Dedup

/-!
# Access rules on entities of team vaults

A rule binds a role, a member or a group of the identity provider to an entity of a team vault,
with a mode.  Of the rules of one entity that apply to a user the most specific counts, and of
those the most permissive.

A push below the mode `edit` leaves the entity alone.  A pull does not look at the rules: it is
for the clients, who can read the entities, to hide what a rule hides.
-/

namespace Termoso.Server

/-! ### Rules -/

/-- What a rule lets a user do with an entity. -/
inductive AclMode
  | none
  | connect
  | read
  | edit
deriving DecidableEq

/-- The modes, from the least permissive on. -/
def MODES : List AclMode := [.none, .connect, .read, .edit]

namespace AclMode

def modeRank (mode : AclMode) : ℕ := MODES.idxOf mode

/-- A mode as it is stored. -/
def str : AclMode → String
  | .none => "none"
  | .connect => "connect"
  | .read => "read"
  | .edit => "edit"

/-- Anything below `edit` blocks writes and deletes. -/
def blocksWrite (mode : AclMode) : Bool := decide (mode ≠ .edit)

theorem modeRank_injective : Function.Injective modeRank := by
  intro mode mode' h
  cases mode <;> cases mode' <;> first | rfl | cases h

@[simp]
theorem str_eq_edit_iff {mode : AclMode} :
  mode.str = "edit" ↔ mode.blocksWrite = false
  := by
  cases mode <;> decide

end AclMode

/-- Whom a rule is for. -/
inductive AclPrincipal
  | role (roleId : Uuid)
  | member (userId : Uuid)
  | group (groupName : String)
deriving DecidableEq

/-- How specific a rule is. -/
def principalRank : AclPrincipal → ℕ
  | .member _ => 3
  | .group _ => 2
  | .role _ => 1

inductive AclEntityKind
  | group
  | host
deriving DecidableEq

structure AclRow where
  teamId : Uuid
  vaultId : Uuid
  entityId : Uuid
  entityKind : AclEntityKind
  principal : AclPrincipal
  mode : AclMode
deriving DecidableEq

instance : Keyed AclRow (Uuid × Uuid × AclPrincipal) :=
  ⟨fun r => (r.vaultId, r.entityId, r.principal)⟩

@[simp]
theorem key_aclRow (r : AclRow) :
  key r = (r.vaultId, r.entityId, r.principal)
  := rfl

/-- A rule resolved for one user. -/
structure Resolved where
  vaultId : Uuid
  entityId : Uuid
  entityKind : AclEntityKind
  mode : AclMode
deriving DecidableEq

namespace AclRow

/-- The entity that a rule is about. -/
def entity (r : AclRow) : Uuid × Uuid := (r.vaultId, r.entityId)

/-- Whether a rule replaces another one of the same entity. -/
def replaces (r r' : AclRow) : Bool :=
  decide (principalRank r'.principal < principalRank r.principal)
    || (decide (principalRank r.principal = principalRank r'.principal)
      && decide (r'.mode.modeRank < r.mode.modeRank))

/-- Rules are ordered by how specific they are, then by how permissive. -/
def precedence (r : AclRow) : ℕ ×ₗ ℕ := toLex (principalRank r.principal, r.mode.modeRank)

def resolved (r : AclRow) : Resolved := ⟨r.vaultId, r.entityId, r.entityKind, r.mode⟩

theorem replaces_iff (r r' : AclRow) :
  r.replaces r' = true ↔ r'.precedence < r.precedence
  := by
  simp only [replaces, precedence, Prod.Lex.toLex_lt_toLex, Bool.or_eq_true, Bool.and_eq_true,
    decide_eq_true_eq]
  constructor
  · rintro (h | ⟨h, hmode⟩)
    · exact .inl h
    · exact .inr ⟨h.symm, hmode⟩
  · rintro (h | ⟨h, hmode⟩)
    · exact .inl h
    · exact .inr ⟨h.symm, hmode⟩

/-- Rules of the same precedence have the same mode. -/
theorem mode_eq_of_precedence {r r' : AclRow} (h : r.precedence = r'.precedence) :
  r.mode = r'.mode
  := AclMode.modeRank_injective (congrArg (fun p => (ofLex p).2) h)

end AclRow

/-! ### Resolving rules -/

/-- The rules that count, one for each entity, by vault and entity. -/
def resolveRules (rows : List AclRow) : List Resolved :=
  (((rows.map AclRow.entity).dedup.filterMap (Best.pass AclRow.entity AclRow.replaces rows)).map
    AclRow.resolved).insertionSort
      (fun r r' => r.vaultId < r'.vaultId ∨ r.vaultId = r'.vaultId ∧ r.entityId ≤ r'.entityId)

/-- The mode of an entity among the rules that count. -/
def modeOf (rules : List Resolved) (entityId : Uuid) : Option AclMode :=
  (rules.find? (fun r => decide (r.entityId = entityId))).map Resolved.mode

/-- A mode is that of a rule of highest precedence on an entity. -/
def IsMode (rows : List AclRow) (vaultId entityId : Uuid) (mode : AclMode) : Prop :=
  ∃ r ∈ rows, r.entity = (vaultId, entityId) ∧ r.mode = mode
    ∧ ∀ r' ∈ rows, r'.entity = (vaultId, entityId) → r'.precedence ≤ r.precedence

section
variable {rows rows' : List AclRow} {vaultId entityId : Uuid} {mode : AclMode}

/-- A rule that counts is the one kept for its entity. -/
theorem mem_resolveRules {x : Resolved} :
  x ∈ resolveRules rows
    ↔ (Best.pass AclRow.entity AclRow.replaces rows (x.vaultId, x.entityId)).map AclRow.resolved
      = some x
  := by
  rw [resolveRules, List.mem_insertionSort, List.mem_map]
  constructor
  · rintro ⟨r, hr, rfl⟩
    obtain ⟨k, -, hk⟩ := List.mem_filterMap.mp hr
    obtain ⟨-, rfl, -⟩ := Best.of_pass_eq_some AclRow.replaces_iff hk
    exact Option.map_eq_some_iff.mpr ⟨r, hk, rfl⟩
  · intro h
    obtain ⟨r, hr, hx⟩ := Option.map_eq_some_iff.mp h
    obtain ⟨hmem, hkey, -⟩ := Best.of_pass_eq_some AclRow.replaces_iff hr
    refine ⟨r, List.mem_filterMap.mpr ⟨_, ?_, hr⟩, hx⟩
    rw [List.mem_dedup, ← hkey]
    exact List.mem_map_of_mem hmem

/-- Among the rules of one vault the mode of an entity is that of the rule kept for it. -/
theorem modeOf_resolveRules (hvault : ∀ r ∈ rows, r.vaultId = vaultId) :
  modeOf (resolveRules rows) entityId
    = (Best.pass AclRow.entity AclRow.replaces rows (vaultId, entityId)).map AclRow.mode
  := by
  have hone : ∀ x ∈ resolveRules rows, x.vaultId = vaultId := by
    intro x hx
    obtain ⟨r, hr, rfl⟩ := Option.map_eq_some_iff.mp (mem_resolveRules.mp hx)
    exact hvault r (Best.of_pass_eq_some AclRow.replaces_iff hr).1
  rw [modeOf]
  cases hfind : (resolveRules rows).find? (fun r => decide (r.entityId = entityId)) with
  | none =>
      cases hkept : Best.pass AclRow.entity AclRow.replaces rows (vaultId, entityId) with
      | none => rfl
      | some r =>
          obtain ⟨-, hkey, -⟩ := Best.of_pass_eq_some AclRow.replaces_iff hkept
          have hmem : r.resolved ∈ resolveRules rows := by
            apply mem_resolveRules.mpr
            rw [show (r.resolved.vaultId, r.resolved.entityId) = (vaultId, entityId) from hkey,
              hkept]
            rfl
          have hid : r.entityId = entityId := congrArg Prod.snd hkey
          exact absurd (decide_eq_true hid) (List.find?_eq_none.mp hfind _ hmem)
  | some x =>
      have hx := List.mem_of_find?_eq_some hfind
      have hid : x.entityId = entityId := by simpa using List.find?_some hfind
      have hkept := mem_resolveRules.mp hx
      rw [hone x hx, hid] at hkept
      obtain ⟨r, hr, rfl⟩ := Option.map_eq_some_iff.mp hkept
      rw [hr]
      rfl

/-- The mode of an entity is that of a rule of highest precedence. -/
theorem modeOf_eq_some_iff (hvault : ∀ r ∈ rows, r.vaultId = vaultId) :
  modeOf (resolveRules rows) entityId = some mode ↔ IsMode rows vaultId entityId mode
  := by
  rw [modeOf_resolveRules hvault]
  apply Best.map_pass_eq_some_iff AclRow.replaces_iff
  exact fun _ _ => AclRow.mode_eq_of_precedence

/-- Which mode that is does not depend on the order of the rules. -/
theorem IsMode.perm (hperm : rows.Perm rows') (h : IsMode rows vaultId entityId mode) :
  IsMode rows' vaultId entityId mode
  := by
  obtain ⟨r, hr, hkey, hmode, hmax⟩ := h
  exact ⟨r, hperm.mem_iff.mp hr, hkey, hmode, fun r' hr' => hmax r' (hperm.mem_iff.mpr hr')⟩

/-- The modes do not depend on the order in which the rules are read. -/
theorem modeOf_perm (hvault : ∀ r ∈ rows, r.vaultId = vaultId) (hperm : rows.Perm rows') :
  modeOf (resolveRules rows') entityId = modeOf (resolveRules rows) entityId
  := by
  have hvault' : ∀ r ∈ rows', r.vaultId = vaultId := fun r hr => hvault r (hperm.mem_iff.mpr hr)
  apply Option.ext
  intro mode
  rw [modeOf_eq_some_iff hvault, modeOf_eq_some_iff hvault']
  exact ⟨fun h => h.perm hperm.symm, fun h => h.perm hperm⟩

end

/-! ### The store -/

/-- The database with the rules on entities. A rule is about a vault of its own team. -/
structure RuledStore extends ScimStore where
  rules : Table AclRow
  ofTeams : ∀ r ∈ rules.rows, (db.vaults.get? r.vaultId).bind VaultRow.teamId = some r.teamId

namespace RuledStore

/-- The vault must be a vault of this team; personal vaults never carry rules. -/
def teamVault (s : RuledStore) (teamId vaultId : Uuid) : Except Error Unit :=
  match s.db.vaults.get? vaultId with
  | some v =>
    if v.teamId = some teamId then .ok ()
    else .error (.badRequest "Access rules apply to team vaults of this team only")
  | none => .error (.notFound "Vault")

theorem teamVault_eq_ok {s : RuledStore} {teamId vaultId : Uuid}
    (h : s.teamVault teamId vaultId = .ok ()) :
  (s.db.vaults.get? vaultId).bind VaultRow.teamId = some teamId
  := by
  rw [teamVault] at h
  split at h
  · rename_i v hv
    split at h
    · rename_i hteam
      rw [hv]
      exact hteam
    · cases h
  · cases h

/-- Write a rule of a team on an entity of a vault: a new one, or another mode of the one that is
there. -/
def upsertRule (s : RuledStore) (r : AclRow) : Except Error RuledStore :=
  match hvault : s.teamVault r.teamId r.vaultId with
  | .error e => .error e
  | .ok () =>
    .ok { s with
      rules := s.rules.upsert r (fun x => { x with entityKind := r.entityKind, mode := r.mode })
        (fun _ => rfl)
      ofTeams := by
        intro x hx
        rcases Table.mem_upsert hx with rfl | ⟨y, hy, rfl⟩ | hy
        · exact teamVault_eq_ok hvault
        · exact s.ofTeams y hy
        · exact s.ofTeams x hy }

variable [Names] (s : RuledStore) (userId : Uuid)

/-- Whether a user is in a group of a team with a name. -/
def inNamedGroup (teamId : Uuid) (groupName : String) : Bool :=
  s.groupMembers.rows.any (fun gm => decide (gm.userId = userId)
    && (s.groups.get? gm.groupId).any (fun g => decide (g.teamId = teamId)
      && decide (Names.lower g.displayName = Names.lower groupName)))

/-- Whether a rule applies to a user: to a member of its team who is no owner or administrator. -/
def applies (r : AclRow) : Bool :=
  (s.team.members.get? (r.teamId, userId)).any (fun m =>
    decide (m.role ≠ "owner" ∧ m.role ≠ "admin")
      && match r.principal with
        | .member u => decide (u = userId)
        | .role roleId => decide (roleId = m.roleId)
        | .group groupName => s.inNamedGroup userId r.teamId groupName)

/-- The rules that apply to a user, in one vault or in all. -/
def selectRules (vaultId : Option Uuid) : List AclRow :=
  s.rules.select (fun r => s.applies userId r && vaultId.all (fun v => decide (r.vaultId = v)))

/-- The rules that count for a user. -/
def rulesForUser (vaultId : Option Uuid) : List Resolved :=
  resolveRules (s.selectRules userId vaultId)

/-- The modes of the entities of a vault that have rules for a user. -/
def directModes (vaultId entityId : Uuid) : Option AclMode :=
  modeOf (s.rulesForUser userId (some vaultId)) entityId

/-- The database that a push or a pull reads. -/
def current : Db :=
  { s.db with directModes := fun v u id => (s.directModes u v id).map AclMode.str }

/-- The rules that apply to a user, in an order of the database's choice. -/
def Selected (vaultId : Uuid) (rows : List AclRow) : Prop :=
  rows.Perm (s.selectRules userId (some vaultId))

/-- The row of an entity, if it is in a vault. -/
def rowIn (db : Db) (vaultId entityId : Uuid) : Option SyncEntity :=
  (db.entities.get? entityId).filter (fun e => decide (e.vaultId = vaultId))

section
variable {s : RuledStore} {userId vaultId entityId : Uuid} {mode : AclMode}

theorem vaultId_of_mem_selectRules :
  ∀ r ∈ s.selectRules userId (some vaultId), r.vaultId = vaultId
  := by
  intro r hr
  have hboth := (List.mem_filter.mp hr).2
  simp only [Option.all_some, Bool.and_eq_true, decide_eq_true_eq] at hboth
  exact hboth.2

/-- A vault with a rule that applies is a vault of a team. -/
theorem teamId_of_directModes (h : s.directModes userId vaultId entityId = some mode) :
  ((s.db.vaults.get? vaultId).bind VaultRow.teamId).isSome
  := by
  obtain ⟨r, hr, hkey, -, -⟩ := (modeOf_eq_some_iff vaultId_of_mem_selectRules).mp h
  have hteam := s.ofTeams r (List.mem_filter.mp hr).1
  rw [show r.vaultId = vaultId from congrArg Prod.fst hkey] at hteam
  rw [hteam]
  rfl

end

/-! ### Pushes and pulls under rules -/

section
variable [Primitives] {settings : Settings} {auth : Auth} {now : DateTime} {s : RuledStore}
  {vaultId entityId : Uuid} {mode : AclMode} {db db' : Db} {r : PushResult}

omit [Names] [Primitives] in
/-- The rows in a vault after an entity is written. -/
theorem rowIn_of_wrote {e : SyncEntity} (hwrote : Db.Wrote db db' e)
    (h : e.id = entityId → e.vaultId ≠ vaultId ∧ rowIn db vaultId entityId = none) :
  rowIn db' vaultId entityId = rowIn db vaultId entityId
  := by
  rw [rowIn, hwrote.entities]
  split
  · rename_i hid
    obtain ⟨hvault, hnone⟩ := h hid.symm
    rw [hnone]
    simp [hvault]
  · rfl

omit [Names] [Primitives] in
theorem rowIn_eq_none {e : SyncEntity} (hget : db.entities.get? entityId = some e)
    (hvault : e.vaultId ≠ vaultId) :
  rowIn db vaultId entityId = none
  := by
  rw [rowIn, hget]
  simp [hvault]

omit [Names] [Primitives] in
theorem teamId_of_access {db : Db} {userId : Uuid} {a : Access}
    (h : db.access vaultId userId = .ok a) :
  a.teamId = (db.vaults.get? vaultId).bind VaultRow.teamId
  := by
  rw [Db.access] at h
  split at h
  · cases h
  rename_i v hv
  obtain ⟨hget, -⟩ := Option.filter_eq_some_iff.mp hv
  dsimp only at h
  split at h
  · cases h
  split at h
  · cases h
  · cases h
    rw [hget]
    rfl

omit [Names] [Primitives] in
theorem teamId_of_pushAccess {db : Db} {a : Access} (h : db.pushAccess auth vaultId = some a) :
  a.teamId = (db.vaults.get? vaultId).bind VaultRow.teamId
  := by
  rw [Db.pushAccess] at h
  split at h
  · have hwrite := toOption_eq_some.mp h
    rw [Db.requireWrite] at hwrite
    obtain ⟨a', haccess, hwrite⟩ := bind_eq_ok.mp hwrite
    have hself : a' = a := by
      split at hwrite
      · cases hwrite
      · cases hwrite
        rfl
    exact hself ▸ teamId_of_access haccess
  · cases h

omit [Primitives] in
/-- Where a user may write to a vault, a push sees the mode of each rule. -/
theorem pushAcl_current {a : Access} (haccess : s.current.pushAccess auth vaultId = some a)
    (hmode : s.directModes auth.userId vaultId entityId = some mode) :
  s.current.pushAcl auth vaultId entityId = some mode.str
  := by
  have hteam : a.teamId.isSome := by
    rw [teamId_of_pushAccess haccess]
    exact teamId_of_directModes hmode
  rw [Db.pushAcl, haccess, if_pos (by simpa using hteam)]
  change (s.directModes auth.userId vaultId entityId).map AclMode.str = _
  rw [hmode]
  rfl

/-- A change leaves an entity alone that a rule keeps the user from writing. -/
theorem rowIn_pushChange {c : EntityChange}
    (hmode : s.directModes auth.userId vaultId entityId = some mode)
    (hblocks : mode.blocksWrite = true)
    (h : Db.pushChange settings (s.current.pushAccess auth) (s.current.pushAcl auth) auth.deviceId
      now db c = .ok (r, db')) :
  rowIn db' vaultId entityId = rowIn db vaultId entityId
  := by
  have hne : mode.str ≠ "edit" := by
    rw [Ne, AclMode.str_eq_edit_iff, hblocks]
    simp
  by_cases hthis : c.id = entityId ∧ c.vaultId = vaultId
  · obtain ⟨rfl, rfl⟩ := hthis
    cases haccess : s.current.pushAccess auth c.vaultId with
    | none =>
        rw [Db.pushChange, haccess] at h
        cases h
        rfl
    | some a => rw [Db.pushChange_of_blocked (pushAcl_current haccess hmode) hne h]
  · rcases Db.pushChange_eq_ok h with ⟨rfl, -⟩ | ⟨rfl, -⟩ |
      ⟨e, -, hwrote, hid, hvault, -, -, -, -, hold⟩
    · rfl
    · rfl
    · apply rowIn_of_wrote hwrote
      intro heq
      have hother : c.vaultId ≠ vaultId := fun hv => hthis ⟨hid.symm.trans heq, hv⟩
      refine ⟨hvault ▸ hother, ?_⟩
      rw [← heq, hid]
      rcases hold with ⟨hnone, -⟩ | ⟨e₀, hget, hvault₀, -⟩
      · rw [rowIn, hnone]
        rfl
      · exact rowIn_eq_none hget (hvault₀ ▸ hother)

omit [Primitives] in
/-- A delete leaves an entity alone that a rule keeps the user from writing. -/
theorem rowIn_pushDelete {d : EntityDelete}
    (hmode : s.directModes auth.userId vaultId entityId = some mode)
    (hblocks : mode.blocksWrite = true)
    (h : Db.pushDelete (s.current.pushAccess auth) (s.current.pushAcl auth) auth.deviceId now db d
      = .ok (r, db')) :
  rowIn db' vaultId entityId = rowIn db vaultId entityId
  := by
  have hne : mode.str ≠ "edit" := by
    rw [Ne, AclMode.str_eq_edit_iff, hblocks]
    simp
  rcases Db.pushDelete_eq_ok h with ⟨rfl, -⟩ | ⟨rfl, -⟩ | ⟨rfl, -⟩ |
    ⟨e, e₀, -, hwrote, hget, hid, hvault, -⟩
  · rfl
  · rfl
  · rfl
  · by_cases hthis : d.id = entityId ∧ e₀.vaultId = vaultId
    · obtain ⟨rfl, rfl⟩ := hthis
      cases haccess : s.current.pushAccess auth e₀.vaultId with
      | none =>
          rw [Db.pushDelete, hget] at h
          simp only [haccess, Option.isNone_none, if_true] at h
          cases h
          rfl
      | some a => rw [Db.pushDelete_of_blocked hget (pushAcl_current haccess hmode) hne h]
    · apply rowIn_of_wrote hwrote
      intro heq
      have hother : e₀.vaultId ≠ vaultId := fun hv => hthis ⟨hid.symm.trans heq, hv⟩
      refine ⟨hvault ▸ hother, ?_⟩
      rw [← heq, hid]
      exact rowIn_eq_none hget hother

/-- A push leaves the entities alone that the rules keep the user from writing. -/
theorem rowIn_push {req : PushRequest} {results : List PushResult}
    (hmode : s.directModes auth.userId vaultId entityId = some mode)
    (hblocks : mode.blocksWrite = true)
    (h : s.current.push settings auth now req = .ok (results, db')) :
  rowIn db' vaultId entityId = rowIn s.db vaultId entityId
  := by
  rw [Db.push] at h
  split at h
  · cases h
  refine Db.pushTx_induction_items
    (I := fun db => rowIn db vaultId entityId = rowIn s.db vaultId entityId) ?_ ?_ ?_ h
  · intro db db' c r hI hc
    rw [rowIn_pushChange hmode hblocks hc, hI]
  · intro db db' d r hI hd
    rw [rowIn_pushDelete hmode hblocks hd, hI]
  · rfl

end

/-- The rules on the entities of a vault have one reading, in whatever order they come; no push
writes against it, and no pull looks at it. -/
structure Enforced [Primitives] (s : RuledStore) (settings : Settings) (auth : Auth)
    (now : DateTime) (vaultId entityId : Uuid) : Prop where
  resolved : ∀ rows, s.Selected auth.userId vaultId rows → ∀ mode,
    modeOf (resolveRules rows) entityId = some mode
      ↔ IsMode (s.selectRules auth.userId (some vaultId)) vaultId entityId mode
  pushed : ∀ mode, s.directModes auth.userId vaultId entityId = some mode →
    mode.blocksWrite = true → ∀ req results db',
    s.current.push settings auth now req = .ok (results, db') →
    rowIn db' vaultId entityId = rowIn s.db vaultId entityId
  pulled : ∀ req, s.current.pull auth req = s.db.pull auth req

theorem enforced [Primitives] (s : RuledStore) (settings : Settings) (auth : Auth) (now : DateTime)
    (vaultId entityId : Uuid) :
  s.Enforced settings auth now vaultId entityId
  := by
  constructor
  · intro rows hrows mode
    rw [← modeOf_eq_some_iff vaultId_of_mem_selectRules,
      modeOf_perm vaultId_of_mem_selectRules hrows.symm]
  · intro mode hmode hblocks req results db' h
    exact rowIn_push hmode hblocks h
  · intro req
    rfl

/-! ### A host hidden by a rule -/

open Symbolic

/-- Team 1 has a vault with a host. Its role lets a member edit the host, and a rule of the member's
own hides it. -/
def hiddenHost : RuledStore where
  db :=
    { users := ⟨[⟨7, "member", none, none, false, false, 0, 0⟩], by decide⟩
      vaults := ⟨[⟨3, .team, some 1, "Team", 1, 1, 0, false, false, false⟩], by decide⟩
      vaultMembers := ⟨[⟨3, 7, .editor, some "key", 1⟩], by decide⟩
      teamMembers := ⟨[⟨1, 7, "member", some []⟩], by decide⟩
      teamPolicies := .empty
      entities := ⟨[⟨none, 8, "host", 3, 1, 1, false, 1, "", 0, none⟩], by decide⟩
      historyEntries := .empty
      sessionLogs := .empty
      bridgeScope _ _ := false
      directModes _ _ _ := none }
  team := { newTeam with members := ⟨[⟨1, 7, "member", 12, "manual"⟩], by decide⟩ }
  grantedByGroup _ := none
  groups := .empty
  groupMembers := .empty
  groupVaults := .empty
  managedBy _ := none
  disabled _ := false
  rules := ⟨[⟨1, 3, 8, .host, .role 12, .edit⟩, ⟨1, 3, 8, .host, .member 7, .none⟩], by decide⟩
  ofTeams := by decide

omit [Names] in
/-- A pull returns a host that a rule hides. -/
theorem not_hidden_from_pull :
  ¬ ∀ (names : Names) (s : RuledStore) (auth : Auth) (req : PullRequest),
    ∀ e ∈ (@RuledStore.current names s |>.pull auth req).entities,
      @RuledStore.directModes names s auth.userId e.vaultId e.id ≠ some .none
  := by
  intro h
  have hmem : (⟨none, 8, "host", 3, 1, 1, false, 1, "", 0, none⟩ : SyncEntity)
      ∈ ((@RuledStore.current plainNames hiddenHost).pull ⟨7, 9, none⟩
        ⟨⟨[(3, 0)], by decide⟩, none⟩).entities := by
    decide +kernel
  exact h plainNames hiddenHost ⟨7, 9, none⟩ _ _ hmem (by decide +kernel)

end RuledStore

end Termoso.Server
