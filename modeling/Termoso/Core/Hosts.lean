import Termoso.Core.Entities
import Termoso.Lib.Inherit
import Mathlib.Data.List.Destutter

/-!
# Resolving hosts

A host refers to its configs, to a group, and through them to an identity, a key, a certificate, a
proxy and jump hosts.  Resolving a host follows these references.  A vault is a trust boundary: a
reference into another vault is refused.

The groups that a host inherits from are those of its own vault, sixty-four at most.
-/

namespace Termoso.Core

/-! ### Payloads -/

structure Group where
  label : String
  parentId : Option Uuid
  sshConfigId : Option Uuid
  telnetConfigId : Option Uuid
deriving DecidableEq

structure Host where
  label : String
  address : String
  groupId : Option Uuid
  sshConfigId : Option Uuid
  telnetConfigId : Option Uuid
  webdavConfigId : Option Uuid
  serialConfigId : Option Uuid
  tagIds : List Uuid
  /-- Detected OS name. -/
  osName : Option String
  /-- Cloud instance id, of an imported host. -/
  cloudInstanceId : Option String
  cloudInstanceType : Option String
deriving DecidableEq

/-- SSH connection settings; may be attached to a host or a group. -/
structure SshConfig where
  port : Option ℕ
  identityId : Option Uuid
  hostChainId : Option Uuid
  proxyId : Option Uuid
  portKnockingId : Option Uuid
  charset : Option String
  colorScheme : Option String
  fontSize : Option ℕ
  cursorBlink : Option Bool
  agentForwarding : Bool
  forwardX11 : Bool
  useMosh : Bool
  moshServerCommand : Option String
  envVariables : List (String × String)
  keepAliveInterval : Option ℕ
  timeout : Option ℕ
  extraOptions : List String
deriving DecidableEq

structure TelnetConfig where
  port : Option ℕ
  identityId : Option Uuid
  charset : Option String
  colorScheme : Option String
deriving DecidableEq

structure WebDavConfig where
  url : String
  identityId : Option Uuid
deriving DecidableEq

structure SerialConfig where
  path : String
  baudRate : ℕ
deriving DecidableEq

structure Identity where
  label : String
  username : String
  sshKeyId : Option Uuid
  sshCertificateId : Option Uuid
  isVisible : Bool
  sshId : Bool
deriving DecidableEq

structure SshKey where
  label : String
  privateKey : String
deriving DecidableEq

structure SshCertificate where
  label : String
  certificate : String
  sshKeyId : Option Uuid
deriving DecidableEq

structure Proxy where
  kind : String
  host : String
  port : ℕ
deriving DecidableEq

/-- Ordered list of jump hosts. -/
structure HostChain where
  label : String
  hostIds : List Uuid
deriving DecidableEq

structure Tag where
  label : String
deriving DecidableEq

/-- Host ↔ tag link. -/
structure TagHost where
  hostId : Uuid
  tagId : Uuid
deriving DecidableEq

/-- Host ↔ snippet link. -/
structure HostSnippet where
  hostId : Uuid
  snippetId : Uuid
deriving DecidableEq

/-- The JSON library, at the payloads. A host that is written is read back. -/
class ModelSerde where
  group : Serde Group
  host : Serde Host
  host_fromJson_toJson : ∀ h, host.fromJson (host.toJson h) = some h
  sshConfig : Serde SshConfig
  telnetConfig : Serde TelnetConfig
  webdavConfig : Serde WebDavConfig
  serialConfig : Serde SerialConfig
  identity : Serde Identity
  sshKey : Serde SshKey
  sshCertificate : Serde SshCertificate
  proxy : Serde Proxy
  hostChain : Serde HostChain
  tag : Serde Tag
  tagHost : Serde TagHost
  hostSnippet : Serde HostSnippet

section
variable [ModelSerde]

instance : Payload Group := { ModelSerde.group with KIND := "group" }
instance : Payload Host := { ModelSerde.host with KIND := "host" }
instance : Payload SshConfig := { ModelSerde.sshConfig with KIND := "ssh_config" }
instance : Payload TelnetConfig := { ModelSerde.telnetConfig with KIND := "telnet_config" }
instance : Payload WebDavConfig := { ModelSerde.webdavConfig with KIND := "webdav_config" }
instance : Payload SerialConfig := { ModelSerde.serialConfig with KIND := "serial_config" }
instance : Payload Identity := { ModelSerde.identity with KIND := "identity" }
instance : Payload SshKey := { ModelSerde.sshKey with KIND := "ssh_key" }
instance : Payload SshCertificate := { ModelSerde.sshCertificate with KIND := "ssh_certificate" }
instance : Payload Proxy := { ModelSerde.proxy with KIND := "proxy" }
instance : Payload HostChain := { ModelSerde.hostChain with KIND := "host_chain" }
instance : Payload Tag := { ModelSerde.tag with KIND := "tag" }
instance : Payload TagHost := { ModelSerde.tagHost with KIND := "tag_host" }
instance : Payload HostSnippet := { ModelSerde.hostSnippet with KIND := "host_snippet" }

@[simp]
theorem fromJson_toJson_host (h : Host) :
  (Serde.fromJson (Serde.toJson h) : Option Host) = some h
  := ModelSerde.host_fromJson_toJson h

end

/-- Everything needed to open a connection to a host. -/
structure ResolvedHost where
  host : Entity Host
  ssh : SshConfig
  identity : Option (Entity Identity)
  key : Option (Entity SshKey)
  certificate : Option (Entity SshCertificate)
  sshIdHandle : Option String
  proxy : Option (Entity Proxy)
  chain : List (Entity Host)
  telnet : Option TelnetConfig
  serial : Option SerialConfig
  webdav : Option WebDavConfig
  webdavIdentity : Option (Entity Identity)
  groupPath : List String
  tags : List String
deriving DecidableEq

/-! ### Merging settings -/

/-- No settings. -/
def SshConfig.default : SshConfig :=
  ⟨none, none, none, none, none, none, none, none, none, false, false, false, none, [], none, none,
    []⟩

/-- Lay settings over others. -/
def mergeSsh (into above : SshConfig) : SshConfig where
  port := above.port.or into.port
  identityId := above.identityId.or into.identityId
  hostChainId := above.hostChainId.or into.hostChainId
  proxyId := above.proxyId.or into.proxyId
  portKnockingId := above.portKnockingId.or into.portKnockingId
  charset := above.charset.or into.charset
  colorScheme := above.colorScheme.or into.colorScheme
  fontSize := above.fontSize.or into.fontSize
  cursorBlink := above.cursorBlink.or into.cursorBlink
  moshServerCommand := above.moshServerCommand.or into.moshServerCommand
  keepAliveInterval := above.keepAliveInterval.or into.keepAliveInterval
  timeout := above.timeout.or into.timeout
  agentForwarding := above.agentForwarding || into.agentForwarding
  forwardX11 := above.forwardX11 || into.forwardX11
  useMosh := above.useMosh || into.useMosh
  envVariables := if above.envVariables = [] then into.envVariables else above.envVariables
  extraOptions := if above.extraOptions = [] then into.extraOptions else above.extraOptions

/-- Lay settings over others. -/
def mergeTelnet (into above : TelnetConfig) : TelnetConfig where
  port := above.port.or into.port
  identityId := above.identityId.or into.identityId
  charset := above.charset.or into.charset
  colorScheme := above.colorScheme.or into.colorScheme

/-- The optional settings. -/
inductive SshField
  | port
  | identityId
  | hostChainId
  | proxyId
  | portKnockingId
  | charset
  | colorScheme
  | fontSize
  | cursorBlink
  | moshServerCommand
  | keepAliveInterval
  | timeout
deriving DecidableEq

namespace SshField

/-- What a setting is set to. -/
@[reducible]
def Value : SshField → Type
  | port | fontSize | keepAliveInterval | timeout => ℕ
  | identityId | hostChainId | proxyId | portKnockingId => Uuid
  | charset | colorScheme | moshServerCommand => String
  | cursorBlink => Bool

/-- What settings say about an optional setting. -/
def get : (f : SshField) → SshConfig → Option f.Value
  | port, c => c.port
  | identityId, c => c.identityId
  | hostChainId, c => c.hostChainId
  | proxyId, c => c.proxyId
  | portKnockingId, c => c.portKnockingId
  | charset, c => c.charset
  | colorScheme, c => c.colorScheme
  | fontSize, c => c.fontSize
  | cursorBlink, c => c.cursorBlink
  | moshServerCommand, c => c.moshServerCommand
  | keepAliveInterval, c => c.keepAliveInterval
  | timeout, c => c.timeout

@[simp]
theorem get_default (f : SshField) :
  f.get .default = none
  := by
  cases f <;> rfl

@[simp]
theorem get_mergeSsh (f : SshField) (into above : SshConfig) :
  f.get (mergeSsh into above) = Inherit.layer (f.get into) (f.get above)
  := by
  cases f <;> rfl

end SshField

/-! ### Following references -/

namespace Store

section
variable [Primitives] (T : Type) [Payload T] (s : Store)

/-- Fetch one entity. -/
def get (id : Uuid) : Except CoreError (Option (Entity T)) :=
  match s.row id with
  | some row =>
    if row.deleted = false ∧ row.kind = Payload.KIND T then (s.decryptRow T row).map some
    else .ok none
  | none => .ok none

/-- Fetch one entity or fail. -/
def require (id : Uuid) : Except CoreError (Entity T) := do
  match ← s.get T id with
  | some e => return e
  | none => throw (.notFound s!"{Payload.KIND T} {id}")

/-- Follow a reference held by an entity of a vault. A reference into another vault is refused, also
when that vault is locked. -/
def getIn (id vaultId : Uuid) : Except CoreError (Option (Entity T)) :=
  match s.row id with
  | some row =>
    if row.deleted = false ∧ row.kind = Payload.KIND T then
      if row.vaultId ≠ vaultId then
        .error (.invalid s!"{Payload.KIND T} {id} belongs to another vault")
      else (s.decryptRow T row).map some
    else .ok none
  | none => .ok none

/-- Follow a reference or fail. -/
def requireIn (id vaultId : Uuid) : Except CoreError (Entity T) := do
  match ← s.getIn T id vaultId with
  | some e => return e
  | none => throw (.notFound s!"{Payload.KIND T} {id}")

/-- Follow a reference, if there is one. -/
def followIn (id : Option Uuid) (vaultId : Uuid) : Except CoreError (Option (Entity T)) :=
  match id with
  | some id => s.getIn T id vaultId
  | none => .ok none

end

section
variable [Primitives] [ModelSerde] (s : Store)

/-- Fetch a host that is expected in a vault, if one is named. -/
def requireHostIn (hostId : Uuid) : Option Uuid → Except CoreError (Entity Host)
  | some v => s.requireIn Host hostId v
  | none => s.require Host hostId

/-- Lay the configs with some identifiers over each other, in order. -/
def mergeConfigs {C : Type} [Payload C] (merge : C → C → C) (vaultId : Uuid) (init : C)
    (ids : List Uuid) : Except CoreError C :=
  ids.foldlM (fun into cid => do
    match ← s.getIn C cid vaultId with
    | some c => return merge into c.data
    | none => return into) init

/-! ### Groups -/

/-- The labels of the groups upwards from one, and their SSH configs. -/
def groupChain (groups : List (Entity Group)) : ℕ → Option Uuid → List String × List Uuid
  | 0, _ => ([], [])
  | _ + 1, none => ([], [])
  | hops + 1, some gid =>
    match groups.find? (fun g => decide (g.id = gid)) with
    | none => ([], [])
    | some g =>
      let (path, chain) := groupChain groups hops g.data.parentId
      (g.data.label :: path, g.data.sshConfigId.toList ++ chain)

/-- The SSH settings that a host placed in a group inherits, and the labels of the groups from the
root to the leaf. -/
def resolveGroupSsh (groupId : Uuid) : Except CoreError (SshConfig × List String) := do
  let group ← s.require Group groupId
  let groups ← s.list Group (some group.vaultId)
  let (path, chain) := groupChain groups 64 (some groupId)
  let ssh ← s.mergeConfigs mergeSsh group.vaultId .default chain.reverse
  return (ssh, path.reverse)

/-- The labels of the groups upwards from one, their SSH configs and their telnet configs. -/
def hostGroups (groups : List (Entity Group)) :
    ℕ → Option Uuid → List String × List Uuid × List Uuid
  | 0, _ => ([], [], [])
  | _ + 1, none => ([], [], [])
  | hops + 1, some gid =>
    match groups.find? (fun g => decide (g.id = gid)) with
    | none => ([], [], [])
    | some g =>
      let (path, ssh, telnet) := hostGroups groups hops g.data.parentId
      (g.data.label :: path, g.data.sshConfigId.toList ++ ssh,
        g.data.telnetConfigId.toList ++ telnet)

/-! ### Hosts -/

/-- The jump hosts of a chain, but for the host itself. -/
def jumpHosts (hostId vaultId : Uuid) : List Uuid → Except CoreError (List (Entity Host))
  | [] => .ok []
  | hid :: hids =>
    if hid = hostId then jumpHosts hostId vaultId hids
    else do
      let h ← s.getIn Host hid vaultId
      let hs ← jumpHosts hostId vaultId hids
      return h.toList ++ hs

/-- The telnet settings of a host with a config of its own, if any, and those of its groups. -/
def resolveTelnet (vaultId : Uuid) (own : Option Uuid) (chain : List Uuid) :
    Except CoreError (Option TelnetConfig) :=
  if own.isSome ∨ chain ≠ [] then
    (s.mergeConfigs mergeTelnet vaultId ⟨none, none, none, none⟩ (chain.reverse ++ own.toList)).map
      some
  else .ok none

/-- The certificate that the identity names, or else the one attached to the key. -/
def resolveCertificate (vaultId : Uuid) (identity : Option (Entity Identity))
    (key : Option (Entity SshKey)) : Except CoreError (Option (Entity SshCertificate)) :=
  match identity.bind (fun i => i.data.sshCertificateId), key with
  | some id, _ => s.getIn SshCertificate id vaultId
  | none, some k =>
    (s.list SshCertificate (some vaultId)).map (fun cs =>
      cs.find? (fun c => decide (c.data.sshKeyId = some k.id)))
  | none, none => .ok none

/-- The labels of the tags of a host. -/
def hostTags (host : Entity Host) (links : List (Entity TagHost)) (tags : List (Entity Tag)) :
    List String :=
  let own := links.filter (fun l => decide (l.data.hostId = host.id))
  let linked := own.map (fun l => l.data.tagId)
  let labels := (host.data.tagIds ++ linked).filterMap (fun tid =>
    (tags.find? (fun t => decide (t.id = tid))).map (fun t => t.data.label))
  (labels.insertionSort (· ≤ ·)).destutter (· ≠ ·)

/-- Resolve everything needed to connect to a host, expected in a vault if one is named. Every
record that the host points at must be in the host's own vault. `handle` is the one stored for the
SSH ID of the account. -/
def resolveHostIn (handle : Option String) (hostId : Uuid) (vaultId : Option Uuid) :
    Except CoreError ResolvedHost := do
  let host ← s.requireHostIn hostId vaultId
  let vault := host.vaultId
  let groups ← s.list Group (some vault)
  let (path, chainSsh, chainTelnet) := hostGroups groups 64 host.data.groupId
  -- From the root group down to the host, so that nearer configs win.
  let ssh ← s.mergeConfigs mergeSsh vault .default
    (chainSsh.reverse ++ host.data.sshConfigId.toList)
  let telnet ← s.resolveTelnet vault host.data.telnetConfigId chainTelnet
  let serial ← s.followIn SerialConfig
    (if host.data.sshConfigId.isNone then host.data.serialConfigId else none) vault
  let webdav ← s.followIn WebDavConfig host.data.webdavConfigId vault
  let webdavIdentity ← s.followIn Identity (webdav.bind (fun w => w.data.identityId)) vault
  let identityId := ssh.identityId.or
    (if host.data.sshConfigId.isNone then telnet.bind TelnetConfig.identityId else none)
  let identity ← s.followIn Identity identityId vault
  let key ← s.followIn SshKey (identity.bind (fun i => i.data.sshKeyId)) vault
  let certificate ← s.resolveCertificate vault identity key
  let sshIdHandle := if identity.any (fun i => i.data.sshId) then handle else none
  let proxy ← s.followIn Proxy ssh.proxyId vault
  let hostChain ← s.followIn HostChain ssh.hostChainId vault
  let chain ← s.jumpHosts hostId vault ((hostChain.map (fun hc => hc.data.hostIds)).getD [])
  let links ← s.list TagHost (some vault)
  let tags ← s.list Tag (some vault)
  return {
    host, ssh, identity, key, certificate, sshIdHandle, proxy, chain, telnet
    serial := serial.map Entity.data
    webdav := webdav.map Entity.data
    webdavIdentity
    groupPath := path.reverse
    tags := hostTags host links tags }

/-- Resolve everything needed to connect to a host. -/
def resolveHost (handle : Option String) (hostId : Uuid) : Except CoreError ResolvedHost :=
  s.resolveHostIn handle hostId none

end

/-! ### Where an entity is -/

section
variable {T : Type} [Payload T]

/-- An entity is a live one of its kind, in a vault. -/
def Lives (s : Store) (vaultId : Uuid) (e : Entity T) : Prop :=
  e.vaultId = vaultId ∧ ∃ row, s.row e.id = some row ∧ row.vaultId = vaultId
    ∧ row.deleted = false ∧ row.kind = Payload.KIND T

/-- An identifier is that of a live entity of a kind, in another vault. -/
def Foreign (T : Type) [Payload T] (s : Store) (vaultId id : Uuid) : Prop :=
  ∃ row, s.row id = some row ∧ row.vaultId ≠ vaultId ∧ row.deleted = false
    ∧ row.kind = Payload.KIND T

variable [Primitives] {s : Store} {vaultId id : Uuid} {row : EntityRow} {e : Entity T}

theorem decryptRow_eq_ok (h : s.decryptRow T row = .ok e) :
  e.id = row.id ∧ e.vaultId = row.vaultId
  := by
  rw [decryptRow] at h
  obtain ⟨key, -, h⟩ := bind_eq_ok.mp h
  obtain ⟨text, -, h⟩ := bind_eq_ok.mp h
  split at h
  · cases h
    exact ⟨rfl, rfl⟩
  · cases h

/-- A row is skipped only when the key of its vault is not held. -/
theorem vaultKey_of_vaultLocked (h : s.decryptRow T row = .error (.vaultLocked id)) :
  s.vaultKey row.vaultId = .error (.vaultLocked id)
  := by
  rw [decryptRow] at h
  cases hkey : s.vaultKey row.vaultId with
  | error e =>
      rw [hkey] at h
      cases h
      rfl
  | ok key =>
      rw [hkey] at h
      cases hopen : decryptStr key (Aad.entity row.kind row.id) row.data with
      | error e => simp [hopen, CoreError.lift, Except.mapError, bind, Except.bind] at h
      | ok text =>
          simp only [hopen, CoreError.lift, Except.mapError, bind, Except.bind] at h
          split at h
          · cases h
          · cases h

/-- A row of a listing is in the list, unless it is skipped. -/
theorem decryptRows_eq_ok {rows : List EntityRow} {es : List (Entity T)}
    (h : s.decryptRows T rows = .ok es) :
  (∀ e ∈ es, ∃ row ∈ rows, s.decryptRow T row = .ok e)
    ∧ ∀ row ∈ rows, (∃ e ∈ es, s.decryptRow T row = .ok e)
      ∨ ∃ id, s.decryptRow T row = .error (.vaultLocked id)
  := by
  induction rows generalizing es with
  | nil =>
      cases h
      simp
  | cons row rows ih =>
      rw [decryptRows] at h
      split at h
      · rename_i e hrow
        obtain ⟨es', hrows, rfl⟩ := map_eq_ok.mp h
        obtain ⟨hfrom, hin⟩ := ih hrows
        constructor
        · intro e' he'
          rcases List.mem_cons.mp he' with rfl | he'
          · exact ⟨row, List.mem_cons_self, hrow⟩
          · obtain ⟨row', hmem, hrow'⟩ := hfrom e' he'
            exact ⟨row', List.mem_cons_of_mem _ hmem, hrow'⟩
        · intro row' hrow'
          rcases List.mem_cons.mp hrow' with rfl | hrow'
          · exact .inl ⟨e, List.mem_cons_self, hrow⟩
          · rcases hin row' hrow' with ⟨e', he', hdec⟩ | hlocked
            · exact .inl ⟨e', List.mem_cons_of_mem _ he', hdec⟩
            · exact .inr hlocked
      · rename_i id hrow
        obtain ⟨hfrom, hin⟩ := ih h
        constructor
        · intro e' he'
          obtain ⟨row', hmem, hrow'⟩ := hfrom e' he'
          exact ⟨row', List.mem_cons_of_mem _ hmem, hrow'⟩
        · intro row' hrow'
          rcases List.mem_cons.mp hrow' with rfl | hrow'
          · exact .inr ⟨id, hrow⟩
          · exact hin row' hrow'
      · cases h

omit [Payload T] [Primitives] in
/-- The rows of a listing in a vault. -/
theorem mem_rows_iff {kind : String} :
  row ∈ s.rows ⟨some vaultId, some kind, false⟩
    ↔ s.row row.id = some row ∧ row.vaultId = vaultId ∧ row.kind = kind ∧ row.deleted = false
  := by
  rw [mem_rows]
  simp [EntityFilter.accepts, and_assoc]

/-- What is listed in a vault lives there. -/
theorem lives_of_mem_list {es : List (Entity T)} (h : s.list T (some vaultId) = .ok es)
    (he : e ∈ es) :
  s.Lives vaultId e
  := by
  obtain ⟨row, hmem, hrow⟩ := (decryptRows_eq_ok h).1 e he
  obtain ⟨hget, hvault, hkind, hlive⟩ := mem_rows_iff.mp hmem
  obtain ⟨hid, hvault'⟩ := decryptRow_eq_ok hrow
  exact ⟨hvault'.trans hvault, row, hid ▸ hget, hvault, hlive, hkind⟩

/-- A reference that is followed is not one into another vault, and leads to what lives in the
vault. -/
theorem getIn_eq_ok {o : Option (Entity T)} (h : s.getIn T id vaultId = .ok o) :
  ¬ Foreign T s vaultId id ∧ ∀ e ∈ o, e.id = id ∧ s.Lives vaultId e
  := by
  rw [getIn] at h
  split at h
  · rename_i row hget
    split at h
    · rename_i hthis
      split at h
      · cases h
      · rename_i hvault
        rw [not_not] at hvault
        obtain ⟨e, hrow, rfl⟩ := map_eq_ok.mp h
        obtain ⟨hid, hvault'⟩ := decryptRow_eq_ok hrow
        have hrowId : row.id = id := id_of_row hget
        constructor
        · rintro ⟨row', hget', hne, -⟩
          rw [hget] at hget'
          cases hget'
          exact hne hvault
        · intro e' he'
          cases he'
          refine ⟨hid.trans hrowId, hvault'.trans hvault, row, ?_, hvault, hthis.1, hthis.2⟩
          rw [hid, hrowId]
          exact hget
    · rename_i hnot
      cases h
      constructor
      · rintro ⟨row', hget', -, hlive, hkind⟩
        rw [hget] at hget'
        cases hget'
        exact hnot ⟨hlive, hkind⟩
      · intro e he
        cases he
  · rename_i hnone
    cases h
    constructor
    · rintro ⟨row', hget', -⟩
      rw [hnone] at hget'
      cases hget'
    · intro e he
      cases he

theorem followIn_eq_ok {id : Option Uuid} {o : Option (Entity T)}
    (h : s.followIn T id vaultId = .ok o) :
  (∀ i ∈ id, ¬ Foreign T s vaultId i) ∧ ∀ e ∈ o, s.Lives vaultId e
  := by
  cases id with
  | none =>
      cases h
      simp
  | some i =>
      obtain ⟨hforeign, hlives⟩ := getIn_eq_ok h
      refine ⟨?_, fun e he => (hlives e he).2⟩
      intro i' hi'
      cases hi'
      exact hforeign

/-- A group, or another entity, of a vault whose key is held is the one listed under its
identifier. -/
theorem require_of_list {es : List (Entity T)} (h : s.list T (some vaultId) = .ok es)
    {key : SymmetricKey} (hkey : s.vaultKey vaultId = .ok key) (hget : s.row id = some row)
    (hvault : row.vaultId = vaultId) (hlive : row.deleted = false)
    (hkind : row.kind = Payload.KIND T) :
  ∃ e, s.require T id = .ok e ∧ e.vaultId = vaultId
  := by
  have hmem : row ∈ s.rows ⟨some vaultId, some (Payload.KIND T), false⟩ := by
    rw [mem_rows_iff, id_of_row hget]
    exact ⟨hget, hvault, hkind, hlive⟩
  rcases (decryptRows_eq_ok h).2 row hmem with ⟨e, -, hrow⟩ | ⟨locked, hrow⟩
  · refine ⟨e, ?_, (decryptRow_eq_ok hrow).2.trans hvault⟩
    rw [require, get, hget]
    dsimp only
    rw [if_pos ⟨hlive, hkind⟩, hrow]
    rfl
  · have hlocked := vaultKey_of_vaultLocked hrow
    rw [hvault, hkey] at hlocked
    cases hlocked

/-- The key of the vault of an entity that was fetched is held. -/
theorem vaultKey_of_decryptRow (h : s.decryptRow T row = .ok e) :
  ∃ key, s.vaultKey e.vaultId = .ok key
  := by
  rw [(decryptRow_eq_ok h).2]
  rw [decryptRow] at h
  obtain ⟨key, hkey, -⟩ := bind_eq_ok.mp h
  exact ⟨key, hkey⟩

end

/-! ### The groups above a host -/

section
variable [Primitives] [ModelSerde]

/-- The group of a vault with an identifier. -/
def groupIn (s : Store) (vaultId id : Uuid) : Option (Entity Group) :=
  ((s.list Group (some vaultId)).toOption.getD []).find? (fun g => decide (g.id = id))

/-- The groups from one upwards, so many at most. -/
def groupsAbove (s : Store) (vaultId : Uuid) (hops : ℕ) (start : Option Uuid) :
    List (Entity Group) :=
  Inherit.climb (s.groupIn vaultId) (fun g => g.data.parentId) hops start

/-- A group is so many steps above the one with an identifier. -/
def GroupAbove (s : Store) (vaultId : Uuid) : Option Uuid → ℕ → Entity Group → Prop :=
  Inherit.Above (s.groupIn vaultId) (fun g => g.data.parentId)

/-- The SSH settings with an identifier, in a vault. -/
def sshIn (s : Store) (vaultId : Uuid) (id : Option Uuid) : Option SshConfig :=
  id.bind (fun cid => ((s.getIn SshConfig cid vaultId).toOption.bind (fun c => c)).map Entity.data)

/-- The settings on the path of a host: its own at place zero, and those of the groups above it, the
nearest first, as far as the sixty-fourth. -/
inductive Layer (s : Store) (vaultId : Uuid) (host : Host) : ℕ → SshConfig → Prop
  | host {c : SshConfig} : s.sshIn vaultId host.sshConfigId = some c → Layer s vaultId host 0 c
  | group {i : ℕ} {g : Entity Group} {c : SshConfig} : i < 64 →
    s.GroupAbove vaultId host.groupId i g → s.sshIn vaultId g.data.sshConfigId = some c →
    Layer s vaultId host (i + 1) c

variable {s : Store} {vaultId id : Uuid} {groups : List (Entity Group)}

theorem groupIn_of_list (h : s.list Group (some vaultId) = .ok groups) :
  s.groupIn vaultId id = groups.find? (fun g => decide (g.id = id))
  := by
  rw [groupIn, h]
  rfl

theorem lives_of_groupIn {g : Entity Group} (h : s.groupIn vaultId id = some g) :
  s.Lives vaultId g
  := by
  rw [groupIn] at h
  cases hlist : s.list Group (some vaultId) with
  | error e =>
      rw [hlist] at h
      cases h
  | ok groups =>
      rw [hlist] at h
      exact lives_of_mem_list hlist (List.mem_of_find?_eq_some h)

/-- The walk of a group goes over the groups above it. -/
theorem groupChain_eq (h : s.list Group (some vaultId) = .ok groups) {hops : ℕ}
    {start : Option Uuid} :
  groupChain groups hops start
    = ((s.groupsAbove vaultId hops start).map (fun g => g.data.label),
      ((s.groupsAbove vaultId hops start).map (fun g => g.data.sshConfigId)).reduceOption)
  := by
  induction hops generalizing start with
  | zero => rfl
  | succ hops ih =>
      cases start with
      | none => rfl
      | some gid =>
          rw [groupChain, groupsAbove, Inherit.climb, groupIn_of_list h]
          cases groups.find? (fun g => decide (g.id = gid)) with
          | none => rfl
          | some g =>
              dsimp only
              rw [ih]
              cases hssh : g.data.sshConfigId <;>
                simp [groupsAbove, List.reduceOption, hssh]

/-- The walk of a host goes over the groups above it. -/
theorem hostGroups_eq (h : s.list Group (some vaultId) = .ok groups) {hops : ℕ}
    {start : Option Uuid} :
  hostGroups groups hops start
    = ((s.groupsAbove vaultId hops start).map (fun g => g.data.label),
      ((s.groupsAbove vaultId hops start).map (fun g => g.data.sshConfigId)).reduceOption,
      ((s.groupsAbove vaultId hops start).map (fun g => g.data.telnetConfigId)).reduceOption)
  := by
  induction hops generalizing start with
  | zero => rfl
  | succ hops ih =>
      cases start with
      | none => rfl
      | some gid =>
          rw [hostGroups, groupsAbove, Inherit.climb, groupIn_of_list h]
          cases groups.find? (fun g => decide (g.id = gid)) with
          | none => rfl
          | some g =>
              dsimp only
              rw [ih]
              cases hssh : g.data.sshConfigId <;> cases htelnet : g.data.telnetConfigId <;>
                simp [groupsAbove, List.reduceOption, hssh, htelnet]

/-! ### What is merged -/

omit [ModelSerde] in
/-- The configs that are merged are not in another vault. -/
theorem not_foreign_of_mergeConfigs {C : Type} [Payload C] {merge : C → C → C} {init c : C}
    {ids : List Uuid} (h : s.mergeConfigs merge vaultId init ids = .ok c) :
  ∀ cid ∈ ids, ¬ Foreign C s vaultId cid
  := by
  induction ids generalizing init with
  | nil => simp
  | cons cid ids ih =>
      rw [mergeConfigs, List.foldlM_cons] at h
      obtain ⟨c₁, hfirst, h⟩ := bind_eq_ok.mp h
      obtain ⟨o, hget, -⟩ := bind_eq_ok.mp hfirst
      intro cid' hcid'
      rcases List.mem_cons.mp hcid' with rfl | hcid'
      · exact (getIn_eq_ok hget).1
      · exact ih h cid' hcid'

/-- What the merged settings say about an optional setting. -/
theorem get_mergeConfigs {init ssh : SshConfig} {ids : List Uuid}
    (h : s.mergeConfigs mergeSsh vaultId init ids = .ok ssh) (f : SshField) :
  f.get ssh
    = (ids.map (fun cid => (s.sshIn vaultId (some cid)).bind f.get)).foldl Inherit.layer
      (f.get init)
  := by
  induction ids generalizing init with
  | nil =>
      cases h
      rfl
  | cons cid ids ih =>
      rw [mergeConfigs, List.foldlM_cons] at h
      obtain ⟨c₁, hfirst, h⟩ := bind_eq_ok.mp h
      obtain ⟨o, hget, hmerge⟩ := bind_eq_ok.mp hfirst
      rw [ih h, List.map_cons, List.foldl_cons]
      have hlayer : s.sshIn vaultId (some cid) = o.map Entity.data := by
        rw [sshIn, Option.bind_some, hget]
        cases o <;> rfl
      rw [hlayer]
      cases o with
      | none =>
          cases hmerge
          rfl
      | some c =>
          cases hmerge
          rw [SshField.get_mergeSsh]
          rfl

/-- The settings on the path of a host, place by place. -/
def layers (s : Store) (vaultId : Uuid) (host : Host) : List (Option SshConfig) :=
  s.sshIn vaultId host.sshConfigId
    :: (s.groupsAbove vaultId 64 host.groupId).map (fun g => s.sshIn vaultId g.data.sshConfigId)

theorem layer_iff {host : Host} {p : ℕ} {c : SshConfig} :
  s.Layer vaultId host p c ↔ (s.layers vaultId host)[p]? = some (some c)
  := by
  cases p with
  | zero =>
      rw [layers, List.getElem?_cons_zero, Option.some.injEq]
      constructor
      · rintro ⟨h⟩
        exact h
      · exact .host
  | succ i =>
      rw [layers, List.getElem?_cons_succ, List.getElem?_map, Option.map_eq_some_iff]
      constructor
      · rintro (_ | ⟨hi, habove, hssh⟩)
        exact ⟨_, Inherit.getElem?_climb.mpr ⟨hi, habove⟩, hssh⟩
      · rintro ⟨g, hg, hssh⟩
        obtain ⟨hi, habove⟩ := Inherit.getElem?_climb.mp hg
        exact .group hi habove hssh

/-- Merging from the root group down to the host leaves what the nearest settings say. -/
theorem get_eq_some_iff {host : Host} {ssh : SshConfig} {f : SshField} {v : f.Value}
    (h : s.mergeConfigs mergeSsh vaultId .default
      (((s.groupsAbove vaultId 64 host.groupId).map
        (fun g => g.data.sshConfigId)).reduceOption.reverse ++ host.sshConfigId.toList)
          = .ok ssh) :
  f.get ssh = some v
    ↔ ∃ p c, s.Layer vaultId host p c ∧ f.get c = some v
      ∧ ∀ q < p, ∀ c', s.Layer vaultId host q c' → f.get c' = none
  := by
  let ids : List (Option Uuid) := host.sshConfigId
    :: (s.groupsAbove vaultId 64 host.groupId).map (fun g => g.data.sshConfigId)
  have hids : ((s.groupsAbove vaultId 64 host.groupId).map
      (fun g => g.data.sshConfigId)).reduceOption.reverse ++ host.sshConfigId.toList
        = ids.reduceOption.reverse := by
    cases hown : host.sshConfigId <;> simp [ids, hown, List.reduceOption]
  have hlayers : (ids.map (fun x => x.bind (fun cid => (s.sshIn vaultId (some cid)).bind f.get)))
      = (s.layers vaultId host).map (fun x => x.bind f.get) := by
    have hone : ∀ x : Option Uuid, x.bind (fun cid => (s.sshIn vaultId (some cid)).bind f.get)
        = (s.sshIn vaultId x).bind f.get := by
      intro x
      cases x <;> rfl
    simp [ids, layers, hone]
  rw [get_mergeConfigs h f, hids, List.map_reverse, Inherit.foldl_layer_reverse,
    SshField.get_default, Option.or_none, Inherit.findSome?_reduceOption, hlayers,
    Inherit.findSome?_id_eq_some_iff]
  simp only [List.getElem?_map, layer_iff]
  apply exists_congr
  intro p
  constructor
  · rintro ⟨hp, hbefore⟩
    obtain ⟨x, hx, hval⟩ := Option.map_eq_some_iff.mp hp
    obtain ⟨c, rfl, hc⟩ := Option.bind_eq_some_iff.mp hval
    refine ⟨c, hx, hc, ?_⟩
    intro q hq c' hc'
    have := hbefore q hq
    rw [hc'] at this
    simpa using this
  · rintro ⟨c, hp, hc, hbefore⟩
    refine ⟨by rw [hp]; simpa using hc, ?_⟩
    intro q hq
    have hlt : q < (s.layers vaultId host).length :=
      hq.trans (List.getElem?_eq_some_iff.mp hp).1
    rw [List.getElem?_eq_getElem hlt, Option.map_some, Option.some.injEq]
    cases hx : (s.layers vaultId host)[q] with
    | none => rfl
    | some c' => exact hbefore q hq c' (by rw [List.getElem?_eq_getElem hlt, hx])

end

/-! ### What a resolved host has -/

/-- A host resolved within its vault: what it has lives there, no config on its path is in another
vault, each optional setting is what the nearest settings on the path say, and without settings of
its own a host has those of its group. -/
structure Resolves [Primitives] [ModelSerde] (s : Store) (hostId : Uuid) (r : ResolvedHost) :
    Prop where
  host : r.host.id = hostId
  identity : ∀ e ∈ r.identity, s.Lives r.host.vaultId e
  key : ∀ e ∈ r.key, s.Lives r.host.vaultId e
  certificate : ∀ e ∈ r.certificate, s.Lives r.host.vaultId e
  proxy : ∀ e ∈ r.proxy, s.Lives r.host.vaultId e
  chain : ∀ e ∈ r.chain, s.Lives r.host.vaultId e
  webdavIdentity : ∀ e ∈ r.webdavIdentity, s.Lives r.host.vaultId e
  sshConfig : ∀ cid ∈ r.host.data.sshConfigId, ¬ Foreign SshConfig s r.host.vaultId cid
  telnetConfig : ∀ cid ∈ r.host.data.telnetConfigId, ¬ Foreign TelnetConfig s r.host.vaultId cid
  webdavConfig : ∀ cid ∈ r.host.data.webdavConfigId, ¬ Foreign WebDavConfig s r.host.vaultId cid
  serialConfig : r.host.data.sshConfigId = none → ∀ cid ∈ r.host.data.serialConfigId,
    ¬ Foreign SerialConfig s r.host.vaultId cid
  groups : ∀ i < 64, ∀ g, s.GroupAbove r.host.vaultId r.host.data.groupId i g →
    s.Lives r.host.vaultId g
      ∧ (∀ cid ∈ g.data.sshConfigId, ¬ Foreign SshConfig s r.host.vaultId cid)
      ∧ ∀ cid ∈ g.data.telnetConfigId, ¬ Foreign TelnetConfig s r.host.vaultId cid
  nearest : ∀ (f : SshField) (v : f.Value), f.get r.ssh = some v
    ↔ ∃ p c, s.Layer r.host.vaultId r.host.data p c ∧ f.get c = some v
      ∧ ∀ q < p, ∀ c', s.Layer r.host.vaultId r.host.data q c' → f.get c' = none
  inherits : ∀ gid row, r.host.data.groupId = some gid → r.host.data.sshConfigId = none →
    s.row gid = some row → row.vaultId = r.host.vaultId → row.deleted = false →
    row.kind = Payload.KIND Group → s.resolveGroupSsh gid = .ok (r.ssh, r.groupPath)

section
variable [Primitives] [ModelSerde] {s : Store} {vaultId hostId : Uuid}

/-- The host that is fetched is the one asked for, and the key of its vault is held. -/
theorem requireHostIn_eq_ok {expected : Option Uuid} {host : Entity Host}
    (h : s.requireHostIn hostId expected = .ok host) :
  host.id = hostId ∧ ∃ key, s.vaultKey host.vaultId = .ok key
  := by
  have hrow : ∃ row, s.row hostId = some row ∧ s.decryptRow Host row = .ok host := by
    cases expected with
    | some v =>
        rw [requireHostIn, requireIn] at h
        obtain ⟨o, hget, h⟩ := bind_eq_ok.mp h
        rw [getIn] at hget
        split at hget
        · rename_i row hrow
          split at hget
          · split at hget
            · cases hget
            · obtain ⟨e, hdec, rfl⟩ := map_eq_ok.mp hget
              cases h
              exact ⟨row, hrow, hdec⟩
          · cases hget
            cases h
        · cases hget
          cases h
    | none =>
        rw [requireHostIn, require] at h
        obtain ⟨o, hget, h⟩ := bind_eq_ok.mp h
        rw [get] at hget
        split at hget
        · rename_i row hrow
          split at hget
          · obtain ⟨e, hdec, rfl⟩ := map_eq_ok.mp hget
            cases h
            exact ⟨row, hrow, hdec⟩
          · cases hget
            cases h
        · cases hget
          cases h
  obtain ⟨row, hrow, hdec⟩ := hrow
  exact ⟨(decryptRow_eq_ok hdec).1.trans (id_of_row hrow), vaultKey_of_decryptRow hdec⟩

theorem lives_of_jumpHosts {hids : List Uuid} {hs : List (Entity Host)}
    (h : s.jumpHosts hostId vaultId hids = .ok hs) :
  ∀ e ∈ hs, s.Lives vaultId e
  := by
  induction hids generalizing hs with
  | nil =>
      cases h
      simp
  | cons hid hids ih =>
      rw [jumpHosts] at h
      split at h
      · exact ih h
      · obtain ⟨o, hget, h⟩ := bind_eq_ok.mp h
        obtain ⟨hs', hrest, h⟩ := bind_eq_ok.mp h
        cases h
        intro e he
        rcases List.mem_append.mp he with he | he
        · exact ((getIn_eq_ok hget).2 e (Option.mem_toList.mp he)).2
        · exact ih hrest e he

theorem not_foreign_of_resolveTelnet {own : Option Uuid} {chain : List Uuid}
    {t : Option TelnetConfig} (h : s.resolveTelnet vaultId own chain = .ok t) :
  (∀ cid ∈ own, ¬ Foreign TelnetConfig s vaultId cid)
    ∧ ∀ cid ∈ chain, ¬ Foreign TelnetConfig s vaultId cid
  := by
  rw [resolveTelnet] at h
  split at h
  · obtain ⟨c, hmerge, rfl⟩ := map_eq_ok.mp h
    have hall := not_foreign_of_mergeConfigs hmerge
    constructor
    · intro cid hcid
      exact hall cid (List.mem_append_right _ (Option.mem_toList.mpr hcid))
    · intro cid hcid
      exact hall cid (List.mem_append_left _ (List.mem_reverse.mpr hcid))
  · rename_i hnone
    simp only [not_or, Option.not_isSome_iff_eq_none, not_not] at hnone
    rw [hnone.1, hnone.2]
    simp

theorem lives_of_resolveCertificate {identity : Option (Entity Identity)}
    {key : Option (Entity SshKey)} {c : Option (Entity SshCertificate)}
    (h : s.resolveCertificate vaultId identity key = .ok c) :
  ∀ e ∈ c, s.Lives vaultId e
  := by
  unfold resolveCertificate at h
  split at h
  · exact fun e he => ((getIn_eq_ok h).2 e he).2
  · obtain ⟨cs, hlist, rfl⟩ := map_eq_ok.mp h
    exact fun e he => lives_of_mem_list hlist (List.mem_of_find?_eq_some he)
  · cases h
    simp

/-- The settings of a group, from the steps that lead to them. -/
theorem resolveGroupSsh_of {gid : Uuid} {group : Entity Group}
    {groups : List (Entity Group)} {path : List String} {chain : List Uuid} {ssh : SshConfig}
    (hgroup : s.require Group gid = .ok group)
    (hgroups : s.list Group (some group.vaultId) = .ok groups)
    (hchain : groupChain groups 64 (some gid) = (path, chain))
    (hssh : s.mergeConfigs mergeSsh group.vaultId .default chain.reverse = .ok ssh) :
  s.resolveGroupSsh gid = .ok (ssh, path.reverse)
  := by
  rw [resolveGroupSsh, hgroup]
  simp only [bind, Except.bind, hgroups, hchain, hssh]
  rfl

/-- A group of a vault, in which the key is held, gives a host what it gives on its own. -/
theorem resolveGroupSsh_eq_ok {groups : List (Entity Group)} {gid : Uuid} {row : EntityRow}
    {key : SymmetricKey} {ssh : SshConfig} (hlist : s.list Group (some vaultId) = .ok groups)
    (hkey : s.vaultKey vaultId = .ok key) (hget : s.row gid = some row)
    (hvault : row.vaultId = vaultId) (hlive : row.deleted = false)
    (hkind : row.kind = Payload.KIND Group)
    (hssh : s.mergeConfigs mergeSsh vaultId .default
      ((s.groupsAbove vaultId 64 (some gid)).map
        (fun g => g.data.sshConfigId)).reduceOption.reverse = .ok ssh) :
  s.resolveGroupSsh gid
    = .ok (ssh, ((s.groupsAbove vaultId 64 (some gid)).map (fun g => g.data.label)).reverse)
  := by
  obtain ⟨e, hrequire, hevault⟩ := require_of_list hlist hkey hget hvault hlive hkind
  rw [← hevault] at hlist hssh
  rw [resolveGroupSsh_of hrequire hlist (groupChain_eq hlist) hssh, hevault]

/-- A host with no references but its group is resolved from the settings of its groups. -/
theorem resolveHost_of {host : Entity Host}
    {groups : List (Entity Group)} {path : List String} {chain : List Uuid} {ssh : SshConfig}
    (hhost : s.require Host hostId = .ok host)
    (hplain : host.data.sshConfigId = none ∧ host.data.telnetConfigId = none
      ∧ host.data.serialConfigId = none ∧ host.data.webdavConfigId = none)
    (hgroups : s.list Group (some host.vaultId) = .ok groups)
    (hpath : hostGroups groups 64 host.data.groupId = (path, chain, []))
    (hssh : s.mergeConfigs mergeSsh host.vaultId .default chain.reverse = .ok ssh)
    (hnone : ssh.identityId = none ∧ ssh.proxyId = none ∧ ssh.hostChainId = none)
    (hlinks : s.list TagHost (some host.vaultId) = .ok [])
    (htags : s.list Tag (some host.vaultId) = .ok []) :
  s.resolveHost none hostId
    = .ok ⟨host, ssh, none, none, none, none, none, [], none, none, none, none, path.reverse,
      hostTags host [] []⟩
  := by
  obtain ⟨hsshId, htelnet, hserial, hwebdav⟩ := hplain
  obtain ⟨hidentity, hproxy, hchain⟩ := hnone
  rw [resolveHost, resolveHostIn, requireHostIn, hhost]
  simp only [bind, Except.bind, hgroups, hpath, hsshId, htelnet, hserial, hwebdav, hidentity,
    hproxy, hchain, hlinks, htags, Option.toList_none, List.append_nil, hssh, resolveTelnet,
    followIn, resolveCertificate, Option.isSome_none, Bool.false_eq_true, ne_eq,
    not_true_eq_false, or_self, if_false, Option.isNone_none, if_true, Option.bind_none,
    Option.or_none, Option.map_none, Option.getD_none, jumpHosts, Option.any_none]
  rfl

/-- A host that is resolved is resolved within its vault. -/
theorem resolves_of_resolveHostIn {handle : Option String} {expected : Option Uuid}
    {r : ResolvedHost} (h : s.resolveHostIn handle hostId expected = .ok r) :
  s.Resolves hostId r
  := by
  rw [resolveHostIn] at h
  obtain ⟨host, hhost, h⟩ := bind_eq_ok.mp h
  obtain ⟨groups, hgroups, h⟩ := bind_eq_ok.mp h
  rw [hostGroups_eq hgroups] at h
  dsimp only at h
  obtain ⟨ssh, hssh, h⟩ := bind_eq_ok.mp h
  obtain ⟨telnet, htelnet, h⟩ := bind_eq_ok.mp h
  obtain ⟨serial, hserial, h⟩ := bind_eq_ok.mp h
  obtain ⟨webdav, hwebdav, h⟩ := bind_eq_ok.mp h
  obtain ⟨webdavIdentity, hwebdavIdentity, h⟩ := bind_eq_ok.mp h
  obtain ⟨identity, hidentity, h⟩ := bind_eq_ok.mp h
  obtain ⟨key, hkey, h⟩ := bind_eq_ok.mp h
  obtain ⟨certificate, hcertificate, h⟩ := bind_eq_ok.mp h
  obtain ⟨proxy, hproxy, h⟩ := bind_eq_ok.mp h
  obtain ⟨hostChain, hhostChain, h⟩ := bind_eq_ok.mp h
  obtain ⟨chain, hchain, h⟩ := bind_eq_ok.mp h
  obtain ⟨links, hlinks, h⟩ := bind_eq_ok.mp h
  obtain ⟨tags, htags, h⟩ := bind_eq_ok.mp h
  cases h
  obtain ⟨hid, k, hheld⟩ := requireHostIn_eq_ok hhost
  have hconfigs := not_foreign_of_mergeConfigs hssh
  obtain ⟨hown, hgroupTelnet⟩ := not_foreign_of_resolveTelnet htelnet
  have hmember : ∀ i < 64, ∀ g, s.GroupAbove host.vaultId host.data.groupId i g →
      g ∈ s.groupsAbove host.vaultId 64 host.data.groupId :=
    fun i hi g hg => Inherit.mem_climb.mpr ⟨i, hi, hg⟩
  constructor
  case host => exact hid
  case identity => exact (followIn_eq_ok hidentity).2
  case key => exact (followIn_eq_ok hkey).2
  case certificate => exact lives_of_resolveCertificate hcertificate
  case proxy => exact (followIn_eq_ok hproxy).2
  case chain => exact lives_of_jumpHosts hchain
  case webdavIdentity => exact (followIn_eq_ok hwebdavIdentity).2
  case sshConfig =>
      intro cid hcid
      exact hconfigs cid (List.mem_append_right _ (Option.mem_toList.mpr hcid))
  case telnetConfig => exact hown
  case webdavConfig => exact (followIn_eq_ok hwebdav).1
  case serialConfig =>
      intro hnone
      dsimp only at hnone
      rw [hnone, Option.isNone_none, if_pos rfl] at hserial
      exact (followIn_eq_ok hserial).1
  case groups =>
      intro i hi g hg
      obtain ⟨gid, hfound⟩ := Inherit.Above.found hg
      refine ⟨lives_of_groupIn hfound, ?_, ?_⟩
      · intro cid hcid
        apply hconfigs cid
        rw [List.mem_append, List.mem_reverse, List.reduceOption_mem_iff, List.mem_map]
        exact .inl ⟨g, hmember i hi g hg, hcid⟩
      · intro cid hcid
        apply hgroupTelnet cid
        rw [List.reduceOption_mem_iff, List.mem_map]
        exact ⟨g, hmember i hi g hg, hcid⟩
  case nearest =>
      intro f v
      exact get_eq_some_iff hssh
  case inherits =>
      intro gid row hgroup hnone hget hvault hlive hkind
      dsimp only at hgroup hnone hvault
      rw [hgroup, hnone, Option.toList_none, List.append_nil] at hssh
      rw [resolveGroupSsh_eq_ok hgroups hheld hget hvault hlive hkind hssh, hgroup]

/-- A host that is resolved is resolved within its vault. -/
theorem resolves_of_resolveHost {handle : Option String} {r : ResolvedHost}
    (h : s.resolveHost handle hostId = .ok r) :
  s.Resolves hostId r
  := by
  apply resolves_of_resolveHostIn
  apply h

end

end Store

end Termoso.Core

/-! ### A host in a group -/

namespace Termoso.Symbolic

open Core

/-- The fields of a text. -/
def splitFields (read : List Char) : List Char → List String
  | '|' :: c :: rest => splitFields (read ++ [c]) rest
  | ';' :: rest => String.ofList read :: splitFields [] rest
  | _ => []

/-- A text with some fields. -/
def joinFields (fields : List String) : String := String.ofList (fields.flatMap field)

theorem splitFields_append (read : List Char) (s : List Char) (rest : List Char) :
  splitFields read (s.flatMap (fun c => ['|', c]) ++ ';' :: rest)
    = String.ofList (read ++ s) :: splitFields [] rest
  := by
  induction s generalizing read with
  | nil => simp [splitFields]
  | cons c s ih =>
      simp only [List.flatMap_cons, List.cons_append, List.nil_append, splitFields, ih]
      simp

@[simp]
theorem splitFields_joinFields (fields : List String) :
  splitFields [] (joinFields fields).toList = fields
  := by
  rw [joinFields, String.toList_ofList]
  induction fields with
  | nil => rfl
  | cons s fields ih =>
      rw [List.flatMap_cons, field, List.append_assoc, List.singleton_append,
        splitFields_append, ih]
      simp

/-- A number, or none, in marks. -/
def marks : Option ℕ → String
  | none => ""
  | some n => String.ofList (List.replicate (n + 1) '1')

def readMarks (s : String) : Option ℕ :=
  match s.toList.length with
  | 0 => none
  | n + 1 => some n

@[simp]
theorem readMarks_marks (n : Option ℕ) :
  readMarks (marks n) = n
  := by
  cases n with
  | none => rfl
  | some n => simp [readMarks, marks]

/-- A text, or none, after a mark. -/
def markText : Option String → String
  | none => ""
  | some s => String.ofList ('=' :: s.toList)

def readText (s : String) : Option String :=
  match s.toList with
  | [] => none
  | _ :: cs => some (String.ofList cs)

@[simp]
theorem readText_markText (s : Option String) :
  readText (markText s) = s
  := by
  cases s with
  | none => rfl
  | some s => simp [readText, markText]

/-- Numbers, in marks. -/
def markAll (ns : List ℕ) : String := joinFields (ns.map (fun n => marks (some n)))

def readAll (s : String) : List ℕ := (splitFields [] s.toList).filterMap readMarks

@[simp]
theorem readAll_markAll (ns : List ℕ) :
  readAll (markAll ns) = ns
  := by
  simp [readAll, markAll, List.filterMap_map]

/-- Payloads that are not written. -/
@[reducible]
def unwritten {T : Type} : Serde T := ⟨fun _ => "null", fun _ => none⟩

/-- Payloads as texts with a field for each of theirs. -/
scoped instance models : ModelSerde where
  group :=
    ⟨fun g => joinFields [g.label, marks g.parentId, marks g.sshConfigId, marks g.telnetConfigId],
    fun s => match splitFields [] s.toList with
      | [label, parent, ssh, telnet] =>
        some ⟨label, readMarks parent, readMarks ssh, readMarks telnet⟩
      | _ => none⟩
  host :=
    ⟨fun h => joinFields [h.label, h.address, marks h.groupId, marks h.sshConfigId,
      marks h.telnetConfigId, marks h.webdavConfigId, marks h.serialConfigId, markAll h.tagIds,
      markText h.osName, markText h.cloudInstanceId, markText h.cloudInstanceType],
    fun s => match splitFields [] s.toList with
      | [label, address, group, ssh, telnet, webdav, serial, tags, os, instanceId, instanceType] =>
        some ⟨label, address, readMarks group, readMarks ssh, readMarks telnet, readMarks webdav,
          readMarks serial, readAll tags, readText os, readText instanceId, readText instanceType⟩
      | _ => none⟩
  host_fromJson_toJson h := by simp
  -- Of the settings, the port and the identity.
  sshConfig :=
    ⟨fun c => joinFields [marks c.port, marks c.identityId],
    fun s => match splitFields [] s.toList with
      | [port, identity] =>
        some { SshConfig.default with port := readMarks port, identityId := readMarks identity }
      | _ => none⟩
  telnetConfig := unwritten
  webdavConfig := unwritten
  serialConfig := unwritten
  identity := unwritten
  sshKey := unwritten
  sshCertificate := unwritten
  proxy := unwritten
  hostChain := unwritten
  tag := unwritten
  tagHost := unwritten
  hostSnippet := unwritten

/-- A row of an entity in a vault whose key has the number given. -/
def rowIn {T : Type} [Payload T] (id vaultId : Uuid) (n : UInt8) (data : T) : EntityRow where
  id := id
  kind := Payload.KIND T
  vaultId := vaultId
  version := 1
  seq := 1
  deleted := false
  keyVersion := 1
  data := encryptStr (vaultKey n) (Aad.entity (Payload.KIND T) id) nonce (Serde.toJson data)
  updatedAt := 0
  dirty := false

/-- A row opens under the key of its vault. -/
theorem decryptRow_rowIn {T : Type} [Payload T] {s : Store} {id vaultId : Uuid} {n : UInt8}
    {data : T} (hkey : s.vaultKey vaultId = .ok (vaultKey n))
    (hjson : Serde.fromJson (Serde.toJson data) = some data) :
  s.decryptRow T (rowIn id vaultId n data) = .ok ⟨id, vaultId, 1, 0, false, data⟩
  := by
  rw [Store.decryptRow]
  simp only [rowIn, hkey, CoreError.lift, decryptStr_encryptStr, Except.mapError, bind, Except.bind,
    hjson]
  rfl

end Termoso.Symbolic

namespace Termoso.Core

namespace Hosts

open Symbolic

/-- A host in a group. -/
def web : Host := ⟨"web", "lan", some 4, none, none, none, none, [], none, none, none⟩

/-- A group with SSH settings. -/
def ops : Group := ⟨"Ops", none, some 5, none⟩

/-- SSH settings with a port. -/
def port22 : SshConfig := { SshConfig.default with port := some 22 }

/-- A device with a personal vault that has a host, and a vault of a team.  The group of the host
and its settings are in the vault given. -/
def device (vaultId : Uuid) (n : UInt8) : Store :=
  { Store.empty with
    vaults := ⟨[⟨1, .personal, "Personal", none, .manager, some (vaultKey 7), 1, 0, false, 0, true⟩,
        ⟨2, .team, "Ops", some 9, .editor, some (vaultKey 8), 1, 0, false, 0, false⟩],
      (by decide : ([1, 2] : List Uuid).Nodup)⟩
    entities := ⟨[rowIn 3 1 7 web, rowIn 4 vaultId n ops, rowIn 5 vaultId n port22],
      (by decide : ([3, 4, 5] : List Uuid).Nodup)⟩ }

/-- The host, resolved. -/
def resolvedWeb (ssh : SshConfig) (groupPath : List String) : ResolvedHost :=
  ⟨⟨3, 1, 1, 0, false, web⟩, ssh, none, none, none, none, none, [], none, none, none, none,
    groupPath, []⟩

section
variable {vaultId : Uuid} {n : UInt8}

theorem require_web :
  (device vaultId n).require Host 3 = .ok ⟨3, 1, 1, 0, false, web⟩
  := by
  have hrow : (device vaultId n).row 3 = some (rowIn 3 1 7 web) := rfl
  have hget : (device vaultId n).get Host 3 = .ok (some ⟨3, 1, 1, 0, false, web⟩) := by
    rw [Store.get, hrow]
    dsimp only
    rw [if_pos ⟨rfl, rfl⟩, decryptRow_rowIn rfl (by simp)]
    rfl
  rw [Store.require, hget]
  rfl

variable (hkey : (device vaultId n).vaultKey vaultId = .ok (vaultKey n))
include hkey

theorem decryptRow_ops :
  (device vaultId n).decryptRow Group (rowIn 4 vaultId n ops) = .ok ⟨4, vaultId, 1, 0, false, ops⟩
  := decryptRow_rowIn hkey (by decide)

theorem mergeConfigs_port22 :
  (device vaultId n).mergeConfigs mergeSsh vaultId .default [5] = .ok port22
  := by
  have hrow : (device vaultId n).row 5 = some (rowIn 5 vaultId n port22) := rfl
  have hget : (device vaultId n).getIn SshConfig 5 vaultId
      = .ok (some ⟨5, vaultId, 1, 0, false, port22⟩) := by
    rw [Store.getIn, hrow]
    dsimp only
    rw [if_pos ⟨rfl, rfl⟩, if_neg (fun hne => hne rfl),
      decryptRow_rowIn hkey (by decide)]
    rfl
  simp only [Store.mergeConfigs, List.foldlM_cons, List.foldlM_nil, hget, bind, Except.bind]
  rfl

end

/-- A host in a group of its vault has the settings of the group. -/
theorem resolves_ops :
  (device 1 7).Resolves 3 (resolvedWeb port22 ["Ops"])
  := by
  have hrows : (device 1 7).rows ⟨some 1, some (Payload.KIND Group), false⟩
      = [rowIn 4 1 7 ops] := rfl
  have hgroups : (device 1 7).list Group (some 1) = .ok [⟨4, 1, 1, 0, false, ops⟩] := by
    rw [Store.list, hrows, Store.decryptRows, decryptRow_ops rfl]
    rfl
  have hpath : Store.hostGroups [⟨4, 1, 1, 0, false, ops⟩] 64 web.groupId = (["Ops"], [5], []) :=
    rfl
  have hmerge : (device 1 7).mergeConfigs mergeSsh 1 .default [5].reverse = .ok port22 := by
    rw [List.reverse_singleton, mergeConfigs_port22 rfl]
  have h := Store.resolveHost_of require_web ⟨rfl, rfl, rfl, rfl⟩ hgroups hpath hmerge
    ⟨rfl, rfl, rfl⟩ rfl rfl
  apply Store.resolves_of_resolveHost h

/-- A host in a group of another vault is resolved without the group, whose settings are found on
their own. -/
theorem not_inherits_foreign :
  ∃ r, (device 2 8).resolveHost none 3 = .ok r ∧ r.host.data.groupId = some 4
    ∧ r.host.data.sshConfigId = none
    ∧ (device 2 8).resolveGroupSsh 4 = .ok (port22, ["Ops"])
    ∧ r.ssh ≠ port22 ∧ r.groupPath ≠ ["Ops"]
  := by
  refine ⟨resolvedWeb .default [], ?_, rfl, rfl, ?_, by decide, by decide⟩
  · have hgroups : (device 2 8).list Group (some 1) = .ok [] := by
      have hrows : (device 2 8).rows ⟨some 1, some (Payload.KIND Group), false⟩ = [] := rfl
      rw [Store.list, hrows]
      rfl
    apply Store.resolveHost_of require_web ⟨rfl, rfl, rfl, rfl⟩ hgroups rfl rfl ⟨rfl, rfl, rfl⟩
      rfl rfl
  · have hrows : (device 2 8).rows ⟨some 2, some (Payload.KIND Group), false⟩
        = [rowIn 4 2 8 ops] := rfl
    have hgroups : (device 2 8).list Group (some 2) = .ok [⟨4, 2, 1, 0, false, ops⟩] := by
      rw [Store.list, hrows, Store.decryptRows, decryptRow_ops rfl]
      rfl
    have hgroup : (device 2 8).require Group 4 = .ok ⟨4, 2, 1, 0, false, ops⟩ := by
      have hrow : (device 2 8).row 4 = some (rowIn 4 2 8 ops) := rfl
      have hget : (device 2 8).get Group 4 = .ok (some ⟨4, 2, 1, 0, false, ops⟩) := by
        rw [Store.get, hrow]
        dsimp only
        rw [if_pos ⟨rfl, rfl⟩, decryptRow_ops rfl]
        rfl
      rw [Store.require, hget]
      rfl
    have hchain : Store.groupChain [⟨4, 2, 1, 0, false, ops⟩] 64 (some 4) = (["Ops"], [5]) := rfl
    have hmerge : (device 2 8).mergeConfigs mergeSsh 2 .default [5].reverse = .ok port22 := by
      rw [List.reverse_singleton, mergeConfigs_port22 rfl]
    rw [Store.resolveGroupSsh_of hgroup hgroups hchain hmerge]
    rfl

end Hosts

end Termoso.Core
