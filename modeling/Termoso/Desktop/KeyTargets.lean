import Termoso.Client.Hosts

/-!
# The hosts that log in with a key

A rotation of an SSH key installs the fresh key on the hosts that log in with the old one.  The
rotation finds these in the editor's form of each host and, where the form has no key, in what the
group of the host lets it inherit.  A connection takes the key from the resolved host instead,
which lays the settings of the host over those of its groups and then follows one identity.

Of a form and of what is inherited, this is what the rotation reads: the key and the identity.
-/

namespace Termoso.Desktop.KeyTargets

open Core

/-- What the editor's form of a host says of its SSH login. -/
structure LoginForm where
  groupId : Option Uuid
  sshKeyId : Option Uuid
  identityId : Option Uuid

/-- The login of a section of a form: the key of a hidden identity, or a visible identity. -/
structure FlatIdentity where
  identityId : Option Uuid
  sshKeyId : Option Uuid

/-- What hosts inside a group inherit. -/
structure Inherited where
  sshKeyId : Option Uuid
  identityId : Option Uuid
deriving DecidableEq

section
variable [Primitives] [ModelSerde] (s : Store)

/-- Fetch an entity, if one is named. -/
def follow (T : Type) [Payload T] : Option Uuid → Except CoreError (Option (Entity T))
  | some id => s.get T id
  | none => .ok none

/-- The login of the section whose config names an identity. -/
def flattenIdentity (id : Option Uuid) : Except CoreError FlatIdentity := do
  match ← follow s Identity id with
  | some i =>
    if i.data.isVisible then return { identityId := some i.id, sshKeyId := none }
    else return { identityId := none, sshKeyId := i.data.sshKeyId }
  | none => return { identityId := none, sshKeyId := none }

/-- Load the editor model for an existing host. -/
def form (id : Uuid) : Except CoreError LoginForm := do
  let host ← s.require Host id
  let ssh ← follow s SshConfig host.data.sshConfigId
  let telnetCfg ← follow s TelnetConfig host.data.telnetConfigId
  let webdavCfg ← follow s WebDavConfig host.data.webdavConfigId
  let sshLogin ← flattenIdentity s (ssh.bind (fun c => c.data.identityId))
  let _ ← flattenIdentity s (webdavCfg.bind (fun c => c.data.identityId))
  let _ ← flattenIdentity s (telnetCfg.bind (fun c => c.data.identityId))
  return {
    groupId := host.data.groupId
    sshKeyId := sshLogin.sshKeyId
    identityId := sshLogin.identityId }

/-- What hosts inside a group inherit. -/
def inherited : Option Uuid → Except CoreError Inherited
  | none => .ok { sshKeyId := none, identityId := none }
  | some gid => do
    let (ssh, _) ← s.resolveGroupSsh gid
    let identity ← follow s Identity ssh.identityId
    let keyId := identity.bind (fun i => i.data.sshKeyId)
    -- Its label is shown.
    let _ ← follow s SshKey keyId
    return {
      sshKeyId := keyId
      identityId := (identity.filter (fun i => i.data.isVisible)).map (fun i => i.id) }

/-- The key of an identity. -/
def keyOfIdentity (id : Option Uuid) : Except CoreError (Option Uuid) :=
  (follow s Identity id).map (fun e => e.bind (fun i => i.data.sshKeyId))

/-- The key that a login names, or that its identity has. -/
def keyOf (sshKeyId identityId : Option Uuid) : Except CoreError (Option Uuid) :=
  if sshKeyId = none then keyOfIdentity s identityId else .ok sshKeyId

/-- The key that the rotation takes a host to log in with. -/
def loginKey (id : Uuid) : Except CoreError (Option Uuid) := do
  let form ← form s id
  let k ← keyOf s form.sshKeyId form.identityId
  if k = none then
    let inh ← inherited s form.groupId
    keyOf s inh.sshKeyId inh.identityId
  else return k

/-- Those of some hosts whose login uses a key. -/
def collect (keyId : Uuid) : List ResolvedHost → Except CoreError (List (Uuid × String))
  | [] => .ok []
  | card :: cards => do
    let k ← loginKey s card.host.id
    let out ← collect keyId cards
    return if k = some keyId then (card.host.id, card.host.data.label) :: out else out

/-- Hosts of a vault whose effective SSH login uses a key. -/
def hostsUsingKey [Serde ConnectionHistory] (handle : Option String) (vaultId keyId : Uuid) :
    Except CoreError (List (Uuid × String)) := do
  let cards ← Client.cards handle (some vaultId) s
  collect s keyId cards

end

/-! ### Who logs in with a key -/

section
variable [Primitives] [ModelSerde] (s : Store) (handle : Option String) (vaultId keyId : Uuid)

/-- A host of the vault with an SSH section is resolved with the key. -/
def LogsInWith (id : Uuid) : Prop :=
  ∃ r, s.resolveHost handle id = .ok r ∧ r.host.vaultId = vaultId ∧
    r.host.data.sshConfigId.isSome ∧ ∃ k, r.key = some k ∧ k.id = keyId

/-- A rotation targets the hosts of the vault that log in with the key, and each once. -/
def Targets [Serde ConnectionHistory] : Prop :=
  ∃ out, hostsUsingKey s handle vaultId keyId = .ok out ∧ (out.map Prod.fst).Nodup ∧
    ∀ id, id ∈ out.map Prod.fst ↔ LogsInWith s handle vaultId keyId id

/-- The identity that a host names in settings of its own. -/
def ownIdentity (h : Entity Host) : Option Uuid :=
  (s.sshIn h.vaultId h.data.sshConfigId).bind SshConfig.identityId

/-- The key of an identity of a vault. -/
def identityKey (vaultId : Uuid) (id : Uuid) : Option Uuid :=
  (s.getIn Identity id vaultId).toOption.join.bind (fun i => i.data.sshKeyId)

/-- The key of the identity that a host names in settings of its own. -/
def ownKey (h : Entity Host) : Option Uuid := (ownIdentity s h).bind (identityKey s h.vaultId)

/-- The vault has the key. -/
def HasKey : Prop := ∃ k, s.getIn SshKey keyId vaultId = .ok (some k)

/-- The login of a host is not one that the rotation mistakes: its own identity has a key; or it has
an SSH section that names no identity and is in a group of its vault, or in none; or the key is not
inherited. A key that is named is one of the vault. -/
inductive Straight (h : Entity Host) : Prop
  | own {k : Uuid} : ownKey s h = some k → (k = keyId → HasKey s h.vaultId keyId) → Straight h
  | inherits : h.data.sshConfigId.isSome → ownIdentity s h = none →
    (∀ gid ∈ h.data.groupId, ∃ g, s.groupIn h.vaultId gid = some g) →
    (∀ inh, inherited s h.data.groupId = .ok inh → inh.sshKeyId = some keyId →
      HasKey s h.vaultId keyId) → Straight h
  | apart {inh : Inherited} : ownKey s h = none → inherited s h.data.groupId = .ok inh →
    inh.sshKeyId ≠ some keyId → Straight h

end

/-! ### What is fetched -/

section
variable [Primitives] {T : Type} [Payload T] {s : Store} {id vaultId : Uuid}

/-- What is found in a vault is found. -/
theorem get_of_getIn {o : Option (Entity T)} (h : s.getIn T id vaultId = .ok o) :
  s.get T id = .ok o
  := by
  rw [Store.getIn] at h
  rw [Store.get]
  cases hrow : s.row id with
  | none => simpa [hrow] using h
  | some row =>
      simp only [hrow] at h ⊢
      split at h
      · rename_i hthis
        rw [if_pos hthis]
        split at h
        · cases h
        · exact h
      · rename_i hnot
        rw [if_neg hnot]
        exact h

theorem follow_of_followIn {id : Option Uuid} {o : Option (Entity T)}
    (h : s.followIn T id vaultId = .ok o) :
  follow s T id = .ok o
  := by
  cases id with
  | none => exact h
  | some id => exact get_of_getIn h

theorem id_of_get {e : Entity T} (h : s.get T id = .ok (some e)) :
  e.id = id
  := by
  rw [Store.get] at h
  split at h
  · rename_i row hrow
    split at h
    · obtain ⟨e', hdec, he⟩ := map_eq_ok.mp h
      cases he
      exact (Store.decryptRow_eq_ok hdec).1.trans (Store.id_of_row hrow)
    · cases h
  · cases h

theorem id_of_followIn {e : Entity T} (h : s.followIn T (some id) vaultId = .ok (some e)) :
  e.id = id
  := id_of_get (get_of_getIn h)

/-- The entities of a listing have different identifiers. -/
theorem nodup_list {es : List (Entity T)} {vault : Option Uuid} (h : s.list T vault = .ok es) :
  (es.map Entity.id).Nodup
  := by
  have hrows : ((s.rows ⟨vault, some (Payload.KIND T), false⟩).map EntityRow.id).Nodup := by
    have hnodup := s.entities.nodup
    have hsorted : ((s.rows ⟨vault, some (Payload.KIND T), false⟩).map EntityRow.id).Perm
        ((s.entities.select _).map EntityRow.id) := (List.perm_insertionSort _ _).map _
    apply hsorted.nodup_iff.mpr
    exact hnodup.sublist (List.filter_sublist.map _)
  refine hrows.sublist ?_
  rw [Store.list] at h
  generalize s.rows ⟨vault, some (Payload.KIND T), false⟩ = rows at h
  induction rows generalizing es with
  | nil =>
      cases h
      exact List.Sublist.refl _
  | cons row rows ih =>
      rw [Store.decryptRows] at h
      split at h
      · rename_i e hdec
        obtain ⟨es', hes, rfl⟩ := map_eq_ok.mp h
        rw [List.map_cons, List.map_cons, (Store.decryptRow_eq_ok hdec).1]
        exact (ih hes).cons_cons _
      · exact (ih h).cons _
      · cases h

end

/-! ### What a connection takes -/

section
variable [Primitives] [ModelSerde] {s : Store} {handle : Option String} {id vaultId keyId : Uuid}
  {r : ResolvedHost} {h : Entity Host}

/-- Settings are merged in two goes as in one. -/
theorem mergeConfigs_append {ssh : SshConfig} {init : SshConfig} {ids ids' : List Uuid}
    (hssh : s.mergeConfigs mergeSsh vaultId init (ids ++ ids') = .ok ssh) :
  ∃ group, s.mergeConfigs mergeSsh vaultId init ids = .ok group ∧
    s.mergeConfigs mergeSsh vaultId group ids' = .ok ssh
  := by
  rw [Store.mergeConfigs, List.foldlM_append] at hssh
  exact bind_eq_ok.mp hssh

/-- The settings that a host inherits, as far as they are found. -/
def groupIds (s : Store) (h : Entity Host) : List Uuid :=
  ((s.groupsAbove h.vaultId 64 h.data.groupId).map
    (fun g => g.data.sshConfigId)).reduceOption.reverse

/-- The settings of a host over those it inherits. -/
theorem own_of_mergeConfigs {group ssh : SshConfig} {cid : Option Uuid}
    (hown : s.mergeConfigs mergeSsh vaultId group cid.toList = .ok ssh) :
  ∃ o, s.followIn SshConfig cid vaultId = .ok o ∧ s.sshIn vaultId cid = o.map Entity.data ∧
    ssh.identityId =
      ((s.sshIn vaultId cid).bind SshConfig.identityId).or group.identityId
  := by
  cases cid with
  | none =>
      cases hown
      exact ⟨none, rfl, rfl, rfl⟩
  | some cid =>
      rw [Option.toList_some, Store.mergeConfigs, List.foldlM_cons] at hown
      obtain ⟨c, hfirst, hown⟩ := bind_eq_ok.mp hown
      cases hown
      obtain ⟨o, hget, hmerge⟩ := bind_eq_ok.mp hfirst
      have hin : s.sshIn vaultId (some cid) = o.map Entity.data := by
        rw [Store.sshIn, Option.bind_some, hget]
        cases o <;> rfl
      refine ⟨o, hget, hin, ?_⟩
      rw [hin]
      cases o with
      | none =>
          cases hmerge
          rfl
      | some e =>
          cases hmerge
          rfl

/-- How a resolved host came by its key. -/
structure Login (s : Store) (r : ResolvedHost) (group : SshConfig) : Prop where
  host : s.hostAt r.host.id = some r.host
  groups : ∃ groups, s.list Group (some r.host.vaultId) = .ok groups
  held : ∃ key, s.vaultKey r.host.vaultId = .ok key
  own : ∃ o, s.followIn SshConfig r.host.data.sshConfigId r.host.vaultId = .ok o ∧
    s.sshIn r.host.vaultId r.host.data.sshConfigId = o.map Entity.data
  inherits : s.mergeConfigs mergeSsh r.host.vaultId .default (groupIds s r.host) = .ok group
  identityId : r.ssh.identityId = (ownIdentity s r.host).or group.identityId
  identity : r.host.data.sshConfigId.isSome →
    s.followIn Identity r.ssh.identityId r.host.vaultId = .ok r.identity
  key : s.followIn SshKey (r.identity.bind (fun i => i.data.sshKeyId)) r.host.vaultId = .ok r.key

theorem login_of_resolveHost (h : s.resolveHost handle id = .ok r) :
  r.host.id = id ∧ ∃ group, Login s r group
  := by
  rw [Store.resolveHost, Store.resolveHostIn] at h
  obtain ⟨host, hhost, h⟩ := bind_eq_ok.mp h
  obtain ⟨groups, hgroups, h⟩ := bind_eq_ok.mp h
  rw [Store.hostGroups_eq hgroups] at h
  dsimp only at h
  obtain ⟨ssh, hssh, h⟩ := bind_eq_ok.mp h
  obtain ⟨telnet, htelnet, h⟩ := bind_eq_ok.mp h
  obtain ⟨serial, hserial, h⟩ := bind_eq_ok.mp h
  obtain ⟨webdav, hwebdav, h⟩ := bind_eq_ok.mp h
  obtain ⟨webdavIdentity, hwebdavIdentity, h⟩ := bind_eq_ok.mp h
  obtain ⟨identity, hidentity, h⟩ := bind_eq_ok.mp h
  obtain ⟨key, hkey, h⟩ := bind_eq_ok.mp h
  obtain ⟨certificate, hcertificate, h⟩ := bind_eq_ok.mp h
  obtain ⟨proxy, hproxy, h⟩ := bind_eq_ok.mp h
  obtain ⟨hostChain, hhostChain, h⟩ := bind_eq_ok.mp h
  obtain ⟨chain, hchain, h⟩ := bind_eq_ok.mp h
  obtain ⟨links, hlinks, h⟩ := bind_eq_ok.mp h
  obtain ⟨tags, htags, h⟩ := bind_eq_ok.mp h
  cases h
  obtain ⟨hid, hheld⟩ := Store.requireHostIn_eq_ok hhost
  obtain ⟨group, hgroup, hown⟩ := mergeConfigs_append hssh
  have hget : s.get Host id = .ok (some host) := by
    rw [Store.requireHostIn, Store.require] at hhost
    obtain ⟨o, hget, hhost⟩ := bind_eq_ok.mp hhost
    cases o with
    | none => simp at hhost
    | some e =>
        cases hhost
        exact hget
  obtain ⟨o, hfollow, hin, hmerged⟩ := own_of_mergeConfigs hown
  refine ⟨hid, group, ?_⟩
  constructor
  case host => exact hid ▸ Store.hostAt_of_get hget
  case groups => exact ⟨groups, hgroups⟩
  case held => exact hheld
  case own => exact ⟨o, hfollow, hin⟩
  case inherits => exact hgroup
  case identityId => exact hmerged
  case identity =>
      intro hssh
      dsimp only at hssh
      rw [Option.isNone_eq_false_iff.mpr hssh, if_neg Bool.false_ne_true, Option.or_none]
        at hidentity
      exact hidentity
  case key => exact hkey

variable {group : SshConfig}

/-- A host with an SSH section has the key when its identity names one, of the vault. -/
theorem logsInWith_iff (hlogin : Login s r group) (hr : s.resolveHost handle r.host.id = .ok r) :
  LogsInWith s handle r.host.vaultId keyId r.host.id ↔
    r.host.data.sshConfigId.isSome ∧ r.identity.bind (fun i => i.data.sshKeyId) = some keyId ∧
      HasKey s r.host.vaultId keyId
  := by
  constructor
  · rintro ⟨r', hr', -, hsome, k, hk, hid⟩
    rw [hr] at hr'
    cases hr'
    have hkey := hlogin.key
    rw [hk] at hkey
    cases hnamed : r.identity.bind (fun i => i.data.sshKeyId) with
    | none =>
        rw [hnamed] at hkey
        cases hkey
    | some i =>
        rw [hnamed] at hkey
        have hik := id_of_followIn hkey
        rw [hid] at hik
        cases hik
        exact ⟨hsome, rfl, k, hkey⟩
  · rintro ⟨hsome, hnamed, k, hk⟩
    have hkey := hlogin.key
    rw [hnamed] at hkey
    have hfound : r.key = some k := Except.ok.inj (hkey.symm.trans hk)
    exact ⟨r, hr, rfl, hsome, k, hfound, id_of_followIn hk⟩

/-- The key of a host's own identity is that of the identity it is resolved with. -/
theorem ownKey_eq (hlogin : Login s r group) {i : Uuid} (hown : ownIdentity s r.host = some i) :
  s.getIn Identity i r.host.vaultId = .ok r.identity ∧
    ownKey s r.host = r.identity.bind (fun i => i.data.sshKeyId)
  := by
  have hsome : r.host.data.sshConfigId.isSome := by
    cases hid : r.host.data.sshConfigId with
    | none => simp [ownIdentity, hid, Store.sshIn] at hown
    | some _ => rfl
  have hidentity := hlogin.identity hsome
  rw [hlogin.identityId, hown, Option.some_or] at hidentity
  refine ⟨hidentity, ?_⟩
  rw [ownKey, hown, Option.bind_some, identityKey]
  have hget : s.getIn Identity i r.host.vaultId = .ok r.identity := hidentity
  rw [hget]
  rfl

/-- Without an identity of its own a host is resolved with the one it inherits. -/
theorem identityId_of_inherits (hlogin : Login s r group) (hown : ownIdentity s r.host = none) :
  r.ssh.identityId = group.identityId
  := by
  rw [hlogin.identityId, hown, Option.none_or]

/-- A host that is in no group of its vault inherits nothing. -/
theorem group_of_none (hlogin : Login s r group)
    (hnone : ∀ gid ∈ r.host.data.groupId, s.groupIn r.host.vaultId gid = none) :
  group = .default
  := by
  have hinherits := hlogin.inherits
  have habove : s.groupsAbove r.host.vaultId 64 r.host.data.groupId = [] := by
    cases hgid : r.host.data.groupId with
    | none => rfl
    | some gid => rw [Store.groupsAbove, Inherit.climb, hnone gid hgid]
  rw [groupIds, habove] at hinherits
  cases hinherits
  rfl

/-- What a host in a group of its vault inherits. -/
theorem inherited_of_group (hlogin : Login s r group) (hsome : r.host.data.sshConfigId.isSome)
    (hown : ownIdentity s r.host = none)
    (hgroups : ∀ gid ∈ r.host.data.groupId, ∃ g, s.groupIn r.host.vaultId gid = some g) :
  ∃ inh, inherited s r.host.data.groupId = .ok inh ∧
    inh.sshKeyId = r.identity.bind (fun i => i.data.sshKeyId)
  := by
  have hidentity := hlogin.identity hsome
  rw [identityId_of_inherits hlogin hown] at hidentity
  cases hgid : r.host.data.groupId with
  | none =>
      have hdefault := group_of_none hlogin (by simp [hgid])
      rw [hdefault] at hidentity
      have hnone : r.identity = none := (Except.ok.inj hidentity).symm
      exact ⟨_, rfl, by rw [hnone]; rfl⟩
  | some gid =>
      obtain ⟨g, hg⟩ := hgroups gid hgid
      obtain ⟨groups, hlist⟩ := hlogin.groups
      obtain ⟨key, hheld⟩ := hlogin.held
      obtain ⟨hvault, row, hrow, hrowVault, hlive, hkind⟩ := Store.lives_of_groupIn hg
      have hid : g.id = gid := by
        rw [Store.groupIn] at hg
        simpa using List.find?_some hg
      rw [hid] at hrow
      have hinherits := hlogin.inherits
      rw [groupIds, hgid] at hinherits
      have hgroup := Store.resolveGroupSsh_eq_ok hlist hheld hrow hrowVault hlive hkind hinherits
      rw [inherited, hgroup]
      simp only [bind, Except.bind, follow_of_followIn hidentity, follow_of_followIn hlogin.key]
      exact ⟨_, rfl, rfl⟩

/-- A host with a key resolved has an identity of its own or is in a group of its vault. -/
theorem straight_group (hlogin : Login s r group) (hsome : r.host.data.sshConfigId.isSome)
    (hown : ownIdentity s r.host = none)
    (hkey : r.identity.bind (fun i => i.data.sshKeyId) = some keyId) :
  ∀ gid ∈ r.host.data.groupId, ∃ g, s.groupIn r.host.vaultId gid = some g
  := by
  intro gid hgid
  by_contra hnone
  rw [not_exists] at hnone
  have hidentity := hlogin.identity hsome
  have hdefault := group_of_none hlogin (by
    intro gid' hgid'
    cases hgid.symm.trans hgid'
    exact Option.eq_none_iff_forall_ne_some.mpr hnone)
  rw [identityId_of_inherits hlogin hown, hdefault] at hidentity
  have hnone : r.identity = none := (Except.ok.inj hidentity).symm
  rw [hnone] at hkey
  cases hkey

/-! ### What the rotation takes -/

/-- The identity that is inherited has no key that the key inherited is not. -/
theorem keyOfIdentity_inherited {gid : Option Uuid} {inh : Inherited}
    (h : inherited s gid = .ok inh) (hnone : inh.sshKeyId = none) :
  keyOfIdentity s inh.identityId = .ok none
  := by
  cases gid with
  | none =>
      cases h
      rfl
  | some gid =>
      rw [inherited] at h
      obtain ⟨⟨ssh, path⟩, -, h⟩ := bind_eq_ok.mp h
      obtain ⟨identity, hidentity, h⟩ := bind_eq_ok.mp h
      obtain ⟨key, -, h⟩ := bind_eq_ok.mp h
      cases h
      cases identity with
      | none => rfl
      | some e =>
          cases hid : ssh.identityId with
          | none =>
              rw [hid] at hidentity
              cases hidentity
          | some i =>
              rw [hid] at hidentity
              have he := id_of_get hidentity
              dsimp only [Option.bind_some] at hnone
              by_cases hvisible : e.data.isVisible
              · simp only [Option.filter_some, hvisible, if_true, Option.map_some, he]
                rw [keyOfIdentity, hidentity]
                simp [Except.map, hnone]
              · simp only [Option.filter_some, hvisible]
                rfl

/-- What the form of a host says of its login. -/
theorem form_eq_ok (hlogin : Login s r group) {f : LoginForm} (h : form s r.host.id = .ok f) :
  f.groupId = r.host.data.groupId ∧
    flattenIdentity s (ownIdentity s r.host) = .ok ⟨f.identityId, f.sshKeyId⟩
  := by
  obtain ⟨o, hssh, hin⟩ := hlogin.own
  rw [form] at h
  obtain ⟨host, hhost, h⟩ := bind_eq_ok.mp h
  obtain ⟨ssh, hfollow, h⟩ := bind_eq_ok.mp h
  obtain ⟨telnet, -, h⟩ := bind_eq_ok.mp h
  obtain ⟨webdav, -, h⟩ := bind_eq_ok.mp h
  obtain ⟨login, hflat, h⟩ := bind_eq_ok.mp h
  obtain ⟨_, -, h⟩ := bind_eq_ok.mp h
  obtain ⟨_, -, h⟩ := bind_eq_ok.mp h
  cases h
  have hsame : host = r.host := by
    rw [Store.require] at hhost
    obtain ⟨e, hget, hhost⟩ := bind_eq_ok.mp hhost
    cases e with
    | none => simp at hhost
    | some e =>
        cases hhost
        exact Option.some.inj ((Store.hostAt_of_get hget).symm.trans hlogin.host)
  cases hsame
  rw [follow_of_followIn hssh] at hfollow
  cases hfollow
  refine ⟨rfl, ?_⟩
  have hnamed : ownIdentity s r.host = o.bind (fun c => c.data.identityId) := by
    rw [ownIdentity, hin, Option.bind_map]
    rfl
  rw [hnamed]
  exact hflat

/-- The rotation takes the key of the identity that a host has of its own, and else the one that
the host inherits. -/
theorem loginKey_eq (hlogin : Login s r group) {f : LoginForm} (h : form s r.host.id = .ok f) :
  loginKey s r.host.id =
    if ownKey s r.host = none then
      (inherited s r.host.data.groupId).map (fun inh => inh.sshKeyId)
    else .ok (ownKey s r.host)
  := by
  obtain ⟨hgroup, hflat⟩ := form_eq_ok hlogin h
  obtain ⟨groupId, sshKeyId, identityId⟩ := f
  have hown : keyOf s sshKeyId identityId = .ok (ownKey s r.host) := by
    rw [keyOf]
    cases hid : ownIdentity s r.host with
    | none =>
        rw [hid] at hflat
        cases hflat
        rw [ownKey, hid]
        rfl
    | some i =>
        obtain ⟨hget, hkey⟩ := ownKey_eq hlogin hid
        have hfound := get_of_getIn hget
        rw [hid, flattenIdentity, follow, hfound] at hflat
        rw [hkey]
        cases hidentity : r.identity with
        | none =>
            rw [hidentity] at hflat
            cases hflat
            rfl
        | some e =>
            rw [hidentity] at hflat hfound
            by_cases hvisible : e.data.isVisible
            · simp only [bind, Except.bind, hvisible, if_true] at hflat
              cases hflat
              rw [if_pos rfl, keyOfIdentity, follow, id_of_get hfound, hfound]
              rfl
            · simp only [bind, Except.bind, hvisible] at hflat
              cases hflat
              split
              · rename_i hnone
                simp [keyOfIdentity, follow, Except.map, hnone]
              · rfl
  have hinherited : ∀ inh, inherited s r.host.data.groupId = .ok inh →
      keyOf s inh.sshKeyId inh.identityId = .ok inh.sshKeyId := by
    intro inh hinh
    rw [keyOf]
    split
    · rename_i hnone
      rw [keyOfIdentity_inherited hinh hnone, hnone]
    · rfl
  dsimp only at hgroup
  rw [loginKey, h]
  simp only [bind, Except.bind, hown, hgroup]
  split
  · cases hinh : inherited s r.host.data.groupId with
    | error e => rfl
    | ok inh => exact hinherited inh hinh
  · rfl

/-- The rotation is right about a host whose form opens exactly when its login is straight. -/
theorem straight_iff (hlogin : Login s r group) (hr : s.resolveHost handle r.host.id = .ok r)
    {f : LoginForm} (hf : form s r.host.id = .ok f) :
  (∃ k, loginKey s r.host.id = .ok k ∧
      (k = some keyId ↔ LogsInWith s handle r.host.vaultId keyId r.host.id)) ↔
    Straight s keyId r.host
  := by
  rw [loginKey_eq hlogin hf, logsInWith_iff hlogin hr]
  have hsomeOf : ∀ i, ownIdentity s r.host = some i → r.host.data.sshConfigId.isSome := by
    intro i hown
    cases hid : r.host.data.sshConfigId with
    | none => simp [ownIdentity, hid, Store.sshIn] at hown
    | some _ => rfl
  -- A host that logs in with the key without one of its own inherits it.
  have hinherits : ownKey s r.host = none → r.host.data.sshConfigId.isSome →
      r.identity.bind (fun i => i.data.sshKeyId) = some keyId → ownIdentity s r.host = none := by
    intro hnone _ hkey
    cases hid : ownIdentity s r.host with
    | none => rfl
    | some i =>
        rw [(ownKey_eq hlogin hid).2, hkey] at hnone
        cases hnone
  constructor
  · rintro ⟨k, hk, hiff⟩
    split at hk
    · rename_i hnone
      obtain ⟨inh, hinh, rfl⟩ := map_eq_ok.mp hk
      by_cases hkey : inh.sshKeyId = some keyId
      · obtain ⟨hsome, hnamed, hhas⟩ := hiff.mp hkey
        have hown := hinherits hnone hsome hnamed
        exact .inherits hsome hown (straight_group hlogin hsome hown hnamed) (fun _ _ _ => hhas)
      · exact .apart hnone hinh hkey
    · rename_i hown
      cases hk
      obtain ⟨k, hk⟩ := Option.ne_none_iff_exists'.mp hown
      apply Straight.own hk
      rintro rfl
      exact (hiff.mp hk).2.2
  · intro hstraight
    cases hstraight with
    | @own k hown hhas =>
        refine ⟨some k, by rw [hown]; rfl, ?_⟩
        have hid : ∃ i, ownIdentity s r.host = some i := by
          cases hid : ownIdentity s r.host with
          | none =>
              rw [ownKey, hid] at hown
              cases hown
          | some i => exact ⟨i, rfl⟩
        obtain ⟨i, hid⟩ := hid
        rw [← (ownKey_eq hlogin hid).2, hown, Option.some.injEq]
        exact ⟨fun hk => ⟨hsomeOf i hid, hk, hhas hk⟩, fun h => h.2.1⟩
    | inherits hsome hown hgroups hhas =>
        obtain ⟨inh, hinh, hkey⟩ := inherited_of_group hlogin hsome hown hgroups
        have hnone : ownKey s r.host = none := by rw [ownKey, hown]; rfl
        refine ⟨inh.sshKeyId, by rw [if_pos hnone, hinh]; rfl, ?_⟩
        constructor
        · intro h
          exact ⟨hsome, hkey ▸ h, hhas inh hinh h⟩
        · rintro ⟨-, hnamed, -⟩
          exact hkey.trans hnamed
    | @apart inh hnone hinh hne =>
        refine ⟨inh.sshKeyId, by rw [if_pos hnone, hinh]; rfl, ?_⟩
        constructor
        · intro h
          exact absurd h hne
        · rintro ⟨hsome, hnamed, -⟩
          have hown := hinherits hnone hsome hnamed
          obtain ⟨inh', hinh', hkey⟩ :=
            inherited_of_group hlogin hsome hown (straight_group hlogin hsome hown hnamed)
          rw [hinh] at hinh'
          cases hinh'
          exact hkey.trans hnamed

end

/-! ### The targets of a rotation -/

section
variable [Primitives] [ModelSerde] {s : Store} {handle : Option String} {vaultId keyId : Uuid}

/-- The hosts collected are those whose login uses the key. -/
theorem collect_eq_ok {cards : List ResolvedHost} {out : List (Uuid × String)}
    (h : collect s keyId cards = .ok out) :
  (out.map Prod.fst).Sublist (cards.map (fun c => c.host.id)) ∧
    (∀ c ∈ cards, ∃ k, loginKey s c.host.id = .ok k) ∧
    ∀ id, id ∈ out.map Prod.fst ↔
      ∃ c ∈ cards, c.host.id = id ∧ loginKey s id = .ok (some keyId)
  := by
  induction cards generalizing out with
  | nil =>
      cases h
      simp
  | cons c cards ih =>
      rw [collect] at h
      obtain ⟨k, hk, h⟩ := bind_eq_ok.mp h
      obtain ⟨rest, hrest, h⟩ := bind_eq_ok.mp h
      obtain ⟨hsub, hkeys, hmem⟩ := ih hrest
      have hall : ∀ c' ∈ c :: cards, ∃ k, loginKey s c'.host.id = .ok k := by
        intro c' hc'
        rcases List.mem_cons.mp hc' with rfl | hc'
        · exact ⟨k, hk⟩
        · exact hkeys c' hc'
      by_cases hthis : k = some keyId
      · rw [if_pos hthis] at h
        cases h
        refine ⟨hsub.cons_cons _, hall, ?_⟩
        intro id
        rw [List.map_cons, List.mem_cons, hmem, List.exists_mem_cons_iff]
        constructor
        · rintro (rfl | h)
          · exact .inl ⟨rfl, hthis ▸ hk⟩
          · exact .inr h
        · rintro (⟨rfl, -⟩ | h)
          · exact .inl rfl
          · exact .inr h
      · rw [if_neg hthis] at h
        cases h
        refine ⟨hsub.cons _, hall, ?_⟩
        intro id
        rw [hmem, List.exists_mem_cons_iff]
        constructor
        · exact .inr
        · rintro (⟨rfl, hkey⟩ | h)
          · rw [hk] at hkey
            exact absurd (Except.ok.inj hkey) hthis
          · exact h

theorem collect_isOk (keyId : Uuid) {cards : List ResolvedHost}
    (h : ∀ c ∈ cards, ∃ k, loginKey s c.host.id = .ok k) :
  ∃ out, collect s keyId cards = .ok out
  := by
  induction cards with
  | nil => exact ⟨[], rfl⟩
  | cons c cards ih =>
      obtain ⟨k, hk⟩ := h c List.mem_cons_self
      obtain ⟨out, hout⟩ := ih (fun c hc => h c (List.mem_cons_of_mem _ hc))
      exact ⟨_, by rw [collect, hk, hout]; rfl⟩

variable [Serde ConnectionHistory]

/-- The cards of a vault are its hosts, resolved. -/
theorem cards_eq_ok {cards : List ResolvedHost}
    (h : Client.cards handle (some vaultId) s = .ok cards) :
  (cards.map (fun c => c.host.id)).Nodup ∧
    (∀ c ∈ cards, s.resolveHost handle c.host.id = .ok c ∧ c.host.vaultId = vaultId) ∧
    ∀ e, s.hostAt e.id = some e → e.vaultId = vaultId → ∃ c ∈ cards, c.host = e
  := by
  rw [Client.cards] at h
  obtain ⟨hosts, hlist, h⟩ := bind_eq_ok.mp h
  obtain ⟨_, -, h⟩ := bind_eq_ok.mp h
  have hmap := map_of_mapM_eq_ok h
  have hcard : ∀ c ∈ cards, ∃ e ∈ hosts, s.resolveHost handle e.id = .ok c ∧ c.host = e := by
    intro c hc
    obtain ⟨e, he, hr⟩ := List.mem_map.mp (hmap ▸ List.mem_map_of_mem hc)
    obtain ⟨hid, group, hlogin⟩ := login_of_resolveHost hr
    have hat := (Store.hostAt_of_mem_list hlist he).1
    have hhost := hlogin.host
    rw [hid, hat] at hhost
    exact ⟨e, he, hr, (Option.some.inj hhost).symm⟩
  refine ⟨?_, ?_, ?_⟩
  · have hids : hosts.map Entity.id = cards.map (fun c => c.host.id) := by
      apply List.map_injective_iff.mpr (Option.some_injective Uuid)
      have hboth := congrArg
        (List.map (fun x => x.toOption.map (fun c : ResolvedHost => c.host.id))) hmap
      rw [List.map_map, List.map_map] at hboth
      rw [List.map_map, List.map_map]
      refine Eq.trans (List.map_congr_left ?_) hboth
      intro e he
      obtain ⟨c, -, hr⟩ := List.mem_map.mp (hmap ▸ List.mem_map_of_mem he)
      have hid := (login_of_resolveHost hr.symm).1
      simp [← hr, Except.toOption, hid]
    rw [← hids]
    exact nodup_list hlist
  · intro c hc
    obtain ⟨e, he, hr, rfl⟩ := hcard c hc
    exact ⟨hr, (Store.hostAt_of_mem_list hlist he).2⟩
  · intro e he hvault
    have hmem := Store.mem_list_of_hostAt hlist he hvault
    obtain ⟨c, hc, hr⟩ := List.mem_map.mp (hmap ▸ List.mem_map_of_mem hmem)
    obtain ⟨hid, group, hlogin⟩ := login_of_resolveHost hr.symm
    have hhost := hlogin.host
    rw [hid, he] at hhost
    exact ⟨c, hc, (Option.some.inj hhost).symm⟩

/-- A rotation targets the hosts that log in with the key exactly when the cards of the vault can be
shown, the form of each host opens, and its login is straight. -/
theorem targets_iff (s : Store) (handle : Option String) (vaultId keyId : Uuid) :
  Targets s handle vaultId keyId ↔
    (∃ cards, Client.cards handle (some vaultId) s = .ok cards) ∧
      ∀ h, s.hostAt h.id = some h → h.vaultId = vaultId →
        (∃ f, form s h.id = .ok f) ∧ Straight s keyId h
  := by
  constructor
  · rintro ⟨out, hout, -, hiff⟩
    rw [hostsUsingKey] at hout
    obtain ⟨cards, hcards, hcollect⟩ := bind_eq_ok.mp hout
    obtain ⟨-, hresolved, hlisted⟩ := cards_eq_ok hcards
    obtain ⟨-, hkeys, hmem⟩ := collect_eq_ok hcollect
    refine ⟨⟨cards, hcards⟩, fun e he hvault => ?_⟩
    obtain ⟨c, hc, rfl⟩ := hlisted e he hvault
    obtain ⟨hr, -⟩ := hresolved c hc
    obtain ⟨-, group, hlogin⟩ := login_of_resolveHost hr
    obtain ⟨k, hk⟩ := hkeys c hc
    have hform : ∃ f, form s c.host.id = .ok f := by
      rw [loginKey] at hk
      obtain ⟨f, hf, -⟩ := bind_eq_ok.mp hk
      exact ⟨f, hf⟩
    obtain ⟨f, hf⟩ := hform
    refine ⟨⟨f, hf⟩, (straight_iff hlogin hr hf).mp ⟨k, hk, ?_⟩⟩
    rw [hvault, ← hiff, hmem]
    constructor
    · rintro rfl
      exact ⟨c, hc, rfl, hk⟩
    · rintro ⟨_, _, -, hkey⟩
      rw [hk] at hkey
      exact Except.ok.inj hkey
  · rintro ⟨⟨cards, hcards⟩, hall⟩
    obtain ⟨hnodup, hresolved, hlisted⟩ := cards_eq_ok hcards
    have hright : ∀ c ∈ cards, ∃ k, loginKey s c.host.id = .ok k ∧
        (k = some keyId ↔ LogsInWith s handle vaultId keyId c.host.id) := by
      intro c hc
      obtain ⟨hr, hvault⟩ := hresolved c hc
      obtain ⟨-, group, hlogin⟩ := login_of_resolveHost hr
      obtain ⟨⟨f, hf⟩, hstraight⟩ := hall c.host hlogin.host hvault
      rw [← hvault]
      exact (straight_iff hlogin hr hf).mpr hstraight
    obtain ⟨out, hcollect⟩ := collect_isOk keyId
      (fun c hc => (hright c hc).imp (fun _ h => h.1))
    obtain ⟨hsub, -, hmem⟩ := collect_eq_ok hcollect
    refine ⟨out, by rw [hostsUsingKey, hcards]; exact hcollect, hnodup.sublist hsub, ?_⟩
    intro id
    rw [hmem]
    constructor
    · rintro ⟨c, hc, rfl, hkey⟩
      obtain ⟨k, hk, hiff⟩ := hright c hc
      rw [hk] at hkey
      exact hiff.mp (Except.ok.inj hkey)
    · rintro hlogs
      have hsame := hlogs
      obtain ⟨r, hr, hvault, -⟩ := hsame
      obtain ⟨hid, group, hlogin⟩ := login_of_resolveHost hr
      obtain ⟨c, hc, hhost⟩ := hlisted r.host hlogin.host hvault
      obtain ⟨k, hk, hiff⟩ := hright c hc
      rw [hhost, hid] at hk hiff
      refine ⟨c, hc, hhost ▸ hid, ?_⟩
      rw [hk, hiff.mpr hlogs]

end

/-! ### A host without a key in a group with one -/

open Symbolic

/-- Payloads as texts, also of hidden identities and of keys. -/
@[reducible]
def keyed : ModelSerde :=
  { models with
    identity :=
      ⟨fun i => joinFields [i.label, i.username, marks i.sshKeyId],
      fun s => match splitFields [] s.toList with
        | [label, username, key] => some ⟨label, username, readMarks key, none, false, false⟩
        | _ => none⟩
    sshKey :=
      ⟨fun k => joinFields [k.label, k.privateKey],
      fun s => match splitFields [] s.toList with
        | [label, privateKey] => some ⟨label, privateKey⟩
        | _ => none⟩ }

attribute [local instance] keyed

def web : Host := ⟨"web", "lan", some 4, some 5, none, none, none, [], none, none, none⟩
def ops : Group := ⟨"Ops", none, some 6, none⟩
def webSsh : SshConfig := { SshConfig.default with identityId := some 7 }
def opsSsh : SshConfig := { SshConfig.default with identityId := some 8 }
def root : Identity := ⟨"web", "root", none, none, false, false⟩
def deploy : Identity := ⟨"Ops", "deploy", some 9, none, false, false⟩
def deployKey : SshKey := ⟨"deploy", "PEM"⟩

/-- A personal vault with a host that logs in as root without a key, in a group whose identity has
one. -/
def device : Store :=
  { Store.empty with
    vaults :=
      ⟨[⟨1, .personal, "Personal", none, .manager, some (vaultKey 7), 1, 0, false, 0, true⟩],
        (by decide : ([1] : List Uuid).Nodup)⟩
    entities := ⟨[rowIn 3 1 7 web, rowIn 4 1 7 ops, rowIn 5 1 7 webSsh, rowIn 6 1 7 opsSsh,
        rowIn 7 1 7 root, rowIn 8 1 7 deploy, rowIn 9 1 7 deployKey],
      (by decide : ([3, 4, 5, 6, 7, 8, 9] : List Uuid).Nodup)⟩ }

/-- An entity of the vault. -/
def entity {T : Type} (id : Uuid) (data : T) : Entity T := ⟨id, 1, 1, 0, false, data⟩

@[simp] theorem vaultId_entity {T : Type} {id : Uuid} {data : T} :
  (entity id data).vaultId = 1
  := rfl

@[simp] theorem data_entity {T : Type} {id : Uuid} {data : T} :
  (entity id data).data = data
  := rfl

/-- A store that has these entities. -/
structure Stocked (s : Store) : Prop where
  hosts : s.list Host (some 1) = .ok [entity 3 web]
  groups : s.list Group (some 1) = .ok [entity 4 ops]
  links : s.list TagHost (some 1) = .ok []
  tags : s.list Tag (some 1) = .ok []
  connections : s.connections 2000 = .ok []
  web : s.getIn Host 3 1 = .ok (some (entity 3 web))
  ops : s.getIn Group 4 1 = .ok (some (entity 4 ops))
  webSsh : s.getIn SshConfig 5 1 = .ok (some (entity 5 webSsh))
  opsSsh : s.getIn SshConfig 6 1 = .ok (some (entity 6 opsSsh))
  root : s.getIn Identity 7 1 = .ok (some (entity 7 root))
  deploy : s.getIn Identity 8 1 = .ok (some (entity 8 deploy))
  deployKey : s.getIn SshKey 9 1 = .ok (some (entity 9 deployKey))

/-- The host, resolved. -/
def resolvedWeb : ResolvedHost :=
  ⟨entity 3 web, webSsh, some (entity 7 root), none, none, none, none, [], none, none, none, none,
    ["Ops"], []⟩

section
variable {s : Store} (h : Stocked s)
include h

theorem require_web :
  s.require Host 3 = .ok (entity 3 web)
  := by
  rw [Store.require, get_of_getIn h.web]
  rfl

theorem resolveHost_web :
  s.resolveHost none 3 = .ok resolvedWeb
  := by
  have hpath : Store.hostGroups [entity 4 ops] 64 (some 4) = (["Ops"], [6], []) := rfl
  have hchain : ([6] : List Uuid).reverse ++ (some 5 : Option Uuid).toList = [6, 5] := rfl
  have hssh : s.mergeConfigs mergeSsh 1 .default [6, 5] = .ok webSsh := by
    simp only [Store.mergeConfigs, List.foldlM_cons, List.foldlM_nil, h.opsSsh, h.webSsh, bind,
      Except.bind]
    rfl
  have hweb : web.groupId = some 4 ∧ web.sshConfigId = some 5 ∧ web.telnetConfigId = none ∧
      web.serialConfigId = none ∧ web.webdavConfigId = none := ⟨rfl, rfl, rfl, rfl, rfl⟩
  have hwebSsh : webSsh.identityId = some 7 ∧ webSsh.proxyId = none ∧ webSsh.hostChainId = none :=
    ⟨rfl, rfl, rfl⟩
  have hroot : root.sshKeyId = none ∧ root.sshCertificateId = none ∧ root.sshId = false :=
    ⟨rfl, rfl, rfl⟩
  rw [Store.resolveHost, Store.resolveHostIn, Store.requireHostIn, require_web h]
  simp only [bind, Except.bind, vaultId_entity, data_entity, h.groups, hweb, hpath, hchain, hssh,
    Store.resolveTelnet, Store.followIn, hwebSsh, h.root, hroot, Store.resolveCertificate,
    Option.isSome_none, Option.isNone_some, Bool.false_eq_true, ne_eq, not_true_eq_false, or_self,
    if_false, Option.bind_none, Option.bind_some, Option.or_none, Option.map_none,
    Option.getD_none, Store.jumpHosts, Option.any_some, h.links, h.tags]
  rfl

theorem form_web :
  form s 3 = .ok ⟨some 4, none, none⟩
  := by
  have hweb : web.groupId = some 4 ∧ web.sshConfigId = some 5 ∧ web.telnetConfigId = none ∧
      web.webdavConfigId = none := ⟨rfl, rfl, rfl, rfl⟩
  have hwebSsh : webSsh.identityId = some 7 := rfl
  have hroot : root.isVisible = false ∧ root.sshKeyId = none := ⟨rfl, rfl⟩
  simp only [form, require_web h, bind, Except.bind, data_entity, hweb, follow,
    get_of_getIn h.webSsh, Option.bind_some, Option.bind_none, hwebSsh, flattenIdentity,
    get_of_getIn h.root, hroot, Bool.false_eq_true, if_false]
  rfl

theorem inherited_ops :
  inherited s (some 4) = .ok ⟨some 9, none⟩
  := by
  have hgroup : s.require Group 4 = .ok (entity 4 ops) := by
    rw [Store.require, get_of_getIn h.ops]
    rfl
  have hchain : Store.groupChain [entity 4 ops] 64 (some 4) = (["Ops"], [6]) := rfl
  have hssh : s.mergeConfigs mergeSsh 1 .default [6].reverse = .ok opsSsh := by
    simp only [List.reverse_singleton, Store.mergeConfigs, List.foldlM_cons, List.foldlM_nil,
      h.opsSsh, bind, Except.bind]
    rfl
  have hopsSsh : opsSsh.identityId = some 8 := rfl
  have hdeploy : deploy.sshKeyId = some 9 := rfl
  rw [inherited, Store.resolveGroupSsh_of hgroup h.groups hchain hssh]
  simp only [bind, Except.bind, hopsSsh, follow, get_of_getIn h.deploy, Option.bind_some,
    data_entity, hdeploy, get_of_getIn h.deployKey]
  rfl

theorem hostsUsingKey_web :
  hostsUsingKey s none 1 9 = .ok [(3, "web")]
  := by
  have hid : (entity 3 web).id = 3 ∧ resolvedWeb.host.id = 3 := ⟨rfl, rfl⟩
  have hcards : Client.cards none (some 1) s = .ok [resolvedWeb] := by
    rw [Client.cards, h.hosts]
    simp only [bind, Except.bind, h.connections, List.mapM_cons, List.mapM_nil, hid,
      resolveHost_web h]
    rfl
  have hkey : loginKey s 3 = .ok (some 9) := by
    rw [loginKey, form_web h]
    simp only [bind, Except.bind, keyOf, keyOfIdentity, follow, Except.map, inherited_ops h]
    rfl
  rw [hostsUsingKey, hcards]
  simp only [bind, Except.bind, collect, hid, hkey]
  rfl

end

theorem decryptRow_device {T : Type} [Payload T] {id : Uuid} {data : T}
    (hjson : Serde.fromJson (Serde.toJson data) = some data) :
  device.decryptRow T (rowIn id 1 7 data) = .ok (entity id data)
  := decryptRow_rowIn rfl hjson

theorem list_device {T : Type} [Payload T] {id : Uuid} {data : T}
    (hjson : Serde.fromJson (Serde.toJson data) = some data)
    (hrows : device.rows ⟨some 1, some (Payload.KIND T), false⟩ = [rowIn id 1 7 data]) :
  device.list T (some 1) = .ok [entity id data]
  := by
  rw [Store.list, hrows, Store.decryptRows, decryptRow_device hjson]
  rfl

theorem getIn_device {T : Type} [Payload T] {id : Uuid} {data : T}
    (hjson : Serde.fromJson (Serde.toJson data) = some data)
    (hrow : device.row id = some (rowIn id 1 7 data)) :
  device.getIn T id 1 = .ok (some (entity id data))
  := by
  rw [Store.getIn, hrow]
  dsimp only
  rw [if_pos ⟨rfl, rfl⟩, if_neg (fun hne => hne rfl), decryptRow_device hjson]
  rfl

theorem stocked_device :
  Stocked device
  where
  hosts := list_device (by decide) rfl
  groups := list_device (by decide) rfl
  links := rfl
  tags := rfl
  connections := rfl
  web := getIn_device (by decide) rfl
  ops := getIn_device (by decide) rfl
  webSsh := getIn_device (by decide) rfl
  opsSsh := getIn_device (by decide) rfl
  root := getIn_device (by decide) rfl
  deploy := getIn_device (by decide) rfl
  deployKey := getIn_device (by decide) rfl

/-- The host is a target of a rotation of the key of its group, with which it does not log in. -/
theorem not_targets_device :
  hostsUsingKey device none 1 9 = .ok [(3, "web")] ∧ ¬LogsInWith device none 1 9 3 ∧
    ¬Targets device none 1 9
  := by
  have htargets := hostsUsingKey_web stocked_device
  have hlogs : ¬LogsInWith device none 1 9 3 := by
    rintro ⟨r, hr, -, -, k, hk, -⟩
    rw [resolveHost_web stocked_device] at hr
    cases hr
    cases hk
  refine ⟨htargets, hlogs, ?_⟩
  rintro ⟨out, hout, -, hiff⟩
  rw [htargets] at hout
  cases hout
  exact hlogs ((hiff 3).mp (by simp))

end Termoso.Desktop.KeyTargets
