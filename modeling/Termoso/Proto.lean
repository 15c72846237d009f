import Termoso.Lib.Table
import Mathlib.Algebra.Ring.Int.Defs
import Mathlib.Algebra.Ring.Nat
import Mathlib.Data.Int.Order.Basic

/-!
# The wire protocol

The records the client and the server exchange: synced entities, the push and pull
requests of the sync protocol, history entries, session logs and vaults.  Payloads are
opaque: `data` and `metadata` are base64 texts of encrypted envelopes, and the empty text in
tombstones.
-/

namespace Termoso

/-- Identifiers of users, devices, teams, vaults, entities, history entries and logs. -/
abbrev Uuid := ℕ

/-- Instants, counted in ticks. -/
abbrev DateTime := ℤ

/-- Ticks in one day. -/
def day : ℤ := 86400 * 1000000000

/-! ### Texts -/

/-- Unicode white space. -/
def isWhitespace (c : Char) : Bool :=
  (9 ≤ c.toNat && c.toNat ≤ 13) || (0x2000 ≤ c.toNat && c.toNat ≤ 0x200A)
    || [0x20, 0x85, 0xA0, 0x1680, 0x2028, 0x2029, 0x202F, 0x205F, 0x3000].contains c.toNat

/-- Control characters. -/
def isControl (c : Char) : Bool := c.toNat < 0x20 || (0x7F ≤ c.toNat && c.toNat ≤ 0x9F)

/-- A text without leading and trailing white space. -/
def trim (s : String) : String :=
  String.ofList ((s.toList.dropWhile isWhitespace).reverse.dropWhile isWhitespace).reverse

/-! ### Entities -/

/-- Known entity kinds. The server rejects all others. -/
def KINDS : List String :=
  ["group", "host", "ssh_config", "telnet_config", "webdav_config", "serial_config", "identity",
    "ssh_key", "ssh_certificate", "known_host", "snippet", "snippet_package", "host_snippet",
    "pf_rule", "proxy", "host_chain", "tag", "tag_host", "port_knocking", "cloud_import",
    "workspace", "workspace_template", "log_bookmark", "color_scheme"]

/-- Whether `kind` is a known entity kind. -/
def isKnownKind (kind : String) : Bool := KINDS.contains kind

/-- Kinds that carry secrets a user may want to keep off the server. -/
def CREDENTIAL_KINDS : List String := ["identity", "ssh_key", "ssh_certificate"]

/-- Whether `kind` is one of `CREDENTIAL_KINDS`. -/
def isCredentialKind (kind : String) : Bool := CREDENTIAL_KINDS.contains kind

/-- Entity as stored and returned by the server. -/
structure SyncEntity where
  secretRotatedAt : Option DateTime
  id : Uuid
  kind : String
  vaultId : Uuid
  version : ℤ
  seq : ℤ
  deleted : Bool
  keyVersion : ℤ
  data : String
  updatedAt : DateTime
  updatedByDevice : Option Uuid
deriving DecidableEq

/-! ### Sync protocol -/

/-- Maximum number of items per push and per pull page. -/
def MAX_BATCH : ℕ := 500

/-- Create or update one entity. Without a base version it must not exist. -/
structure EntityChange where
  secretRotatedAt : Option DateTime
  id : Uuid
  kind : String
  vaultId : Uuid
  baseVersion : Option ℤ
  keyVersion : ℤ
  data : String
  updatedAt : DateTime
deriving DecidableEq

/-- Delete one entity. -/
structure EntityDelete where
  id : Uuid
  baseVersion : ℤ
deriving DecidableEq

structure PushRequest where
  changes : List EntityChange
  deletes : List EntityDelete
deriving DecidableEq

/-- Outcome of one item of a push. -/
inductive PushResult
  | ok (id : Uuid) (version seq : ℤ)
  | conflict (id : Uuid) (server : SyncEntity)
  | error (id : Uuid) (code : String)
deriving DecidableEq

/-- The item an outcome is about. -/
def PushResult.id : PushResult → Uuid
  | ok id _ _ => id
  | conflict id _ => id
  | error id _ => id

instance : Keyed (Uuid × ℤ) Uuid := ⟨Prod.fst⟩

/-- Cursors by vault. -/
abbrev Cursors := Table (Uuid × ℤ)

/-- Set the cursor of a vault. -/
def Cursors.put (c : Cursors) (vaultId : Uuid) (cursor : ℤ) : Cursors :=
  c.upsert (vaultId, cursor) (fun r => (r.1, cursor)) (fun _ => rfl)

structure PullRequest where
  cursors : Cursors
  limit : Option ℕ

structure PullResponse where
  entities : List SyncEntity
  cursors : Cursors
  hasMore : Bool

/-- The cursor of a vault after it, or another one, was set. -/
@[simp]
theorem Cursors.get?_put (c : Cursors) (vaultId vaultId' : Uuid) (cursor : ℤ) :
  (c.put vaultId cursor).get? vaultId'
    = if vaultId' = vaultId then some (vaultId, cursor) else c.get? vaultId'
  := by
  rw [put, Table.get?_upsert]
  have hkey : key (vaultId, cursor) = vaultId := rfl
  rw [hkey]
  split
  · rename_i heq
    subst heq
    cases hget : c.get? vaultId' with
    | none => rfl
    | some r =>
        have hr : r.1 = vaultId' := Table.key_of_get? hget
        simp [hr]
  · rfl

/-- The number of rows of a page: what the request asks for, between 1 and `MAX_BATCH`. -/
def clampLimit (limit : Option ℕ) : ℕ := max 1 (min (limit.getD MAX_BATCH) MAX_BATCH)

theorem one_le_clampLimit (limit : Option ℕ) :
  1 ≤ clampLimit limit
  := by
  unfold clampLimit
  omega

/-! ### History -/

inductive HistoryKind
  | command
  | connection
deriving DecidableEq

/-- Encrypted history record, under the personal vault key. -/
structure HistoryEntry where
  id : Uuid
  kind : HistoryKind
  data : String
  keyVersion : ℤ
  createdAt : DateTime
  seq : ℤ
  deleted : Bool
deriving DecidableEq

structure HistoryPullResponse where
  entries : List HistoryEntry
  since : ℤ
  hasMore : Bool
deriving DecidableEq

/-! ### Session logs -/

/-- Who recorded a log. -/
structure LogAuthor where
  userId : Uuid
  email : String
  displayName : Option String
  avatarTag : Option String
deriving DecidableEq

/-- Session log metadata. -/
structure SessionLog where
  id : Uuid
  vaultId : Uuid
  userId : Uuid
  author : Option LogAuthor
  metadata : String
  keyVersion : ℤ
  sizeBytes : ℤ
  completed : Bool
  createdAt : DateTime
  seq : ℤ
  deleted : Bool
  pinned : Bool
  note : String
  noteBy : Option Uuid
deriving DecidableEq

structure LogListResponse where
  logs : List SessionLog
  since : ℤ
  hasMore : Bool
deriving DecidableEq

/-- Longest team note accepted by the server. -/
def MAX_NOTE_CHARS : ℕ := 2000

structure CreateLogRequest where
  id : Uuid
  vaultId : Uuid
  metadata : String
  keyVersion : ℤ
  sizeBytes : ℤ
deriving DecidableEq

structure UpdateLogRequest where
  metadata : Option String
  sizeBytes : Option ℤ
  pinned : Option Bool
  note : Option String
deriving DecidableEq

/-! ### Vaults -/

inductive VaultKind
  | personal
  | team
deriving DecidableEq

/-- Role of a user inside a vault. -/
inductive VaultRole
  | viewer
  | editor
  | manager
deriving DecidableEq

namespace VaultRole

/-- Whether this role may write entities. -/
def canWrite : VaultRole → Bool
  | viewer => false
  | editor => true
  | manager => true

/-- Whether this role may manage members. -/
def canManage : VaultRole → Bool
  | manager => true
  | _ => false

end VaultRole

/-- A vault visible to the requesting user. -/
structure Vault where
  id : Uuid
  kind : VaultKind
  teamId : Option Uuid
  name : String
  myRole : VaultRole
  sealedKey : Option String
  keyVersion : ℤ
  sessionLogging : Bool
  isDefault : Bool
deriving DecidableEq

/-- Grant or change access. -/
structure VaultMemberUpsert where
  userId : Uuid
  role : VaultRole
  sealedKey : String
deriving DecidableEq

/-- A vault key sealed for a user. -/
structure SealedKeyFor where
  userId : Uuid
  sealedKey : String
deriving DecidableEq

/-- Install a new vault key. -/
structure RotateVaultKeyRequest where
  baseKeyVersion : ℤ
  members : List SealedKeyFor
deriving DecidableEq

/-- Replace the caller's own sealed copy of the current vault key. -/
structure ResealMyKeyRequest where
  keyVersion : ℤ
  sealedKey : String
deriving DecidableEq

end Termoso
