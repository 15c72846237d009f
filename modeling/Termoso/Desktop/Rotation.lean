import Termoso.Client.Keychain
import Termoso.Server.Rotation
import Termoso.Lib.Script

/-!
# Rotating an SSH key

A device makes a fresh key, lets it in on every host that uses the old one, takes the old one
from there, and stores the fresh key in the vault when this went well everywhere.  Until then
the fresh key is in the memory of the device only.
-/

namespace Termoso.Desktop

open Client

/-- The algorithm that makes a key of the same kind. -/
def algorithmOf (keyType : String) (bits : ℕ) : Except String KeyAlgorithm :=
  if keyType = "ssh-ed25519" then .ok .ed25519
  else if keyType = "ssh-rsa" then
    .ok (.rsa (if 2048 ≤ bits ∧ bits ≤ 8192 ∧ bits % 8 = 0 then bits else 3072))
  else if keyType = "ecdsa-sha2-nistp256" then .ok .ecdsaP256
  else if keyType = "ecdsa-sha2-nistp384" then .ok .ecdsaP384
  else if keyType = "ecdsa-sha2-nistp521" then .ok .ecdsaP521
  else .error (keyType ++ " keys cannot be regenerated here (security key or certificate); "
    ++ "rotate it by hand and mark the job done")

/-- How a host of a vault logs in: by a key or an identity of its own, or of its group. -/
structure HostLogin where
  id : Uuid
  label : String
  sshKeyId : Option Uuid
  identityId : Option Uuid
  inheritedKeyId : Option Uuid
  inheritedIdentityId : Option Uuid

/-- Hosts whose effective login uses a key. `keyOfIdentity` gives the key of each identity. -/
def hostsUsingKey (keyOfIdentity : Uuid → Option Uuid) (hosts : List HostLogin) (keyId : Uuid) :
    List (Uuid × String) :=
  (hosts.filter (fun h =>
    decide ((((h.sshKeyId.or (h.identityId.bind keyOfIdentity)).or h.inheritedKeyId).or
      (h.inheritedIdentityId.bind keyOfIdentity)) = some keyId))).map (fun h => (h.id, h.label))

/-- A key and its vault. -/
structure VaultKey where
  vaultId : Uuid
  data : SshKey

/-- The keys of the vaults of a device, and the keys each host lets in. -/
structure World where
  keys : Uuid → Option VaultKey
  hosts : Uuid → List String

namespace World

/-- Store a key. -/
def setKey (w : World) (keyId : Uuid) (key : VaultKey) : World :=
  { w with keys := Function.update w.keys keyId (some key) }

/-- Change the keys a host lets in. -/
def setHost (w : World) (hostId : Uuid) (f : List String → List String) : World :=
  { w with hosts := Function.update w.hosts hostId (f (w.hosts hostId)) }

end World

/-- What comes of a command on a host: it succeeds, or the device is told of an error, with or
without the command having done its work. -/
inductive CommandOutcome
  | succeeded
  | failed (effect : Bool) (error : String)
deriving DecidableEq

/-- Whether a command does its work. -/
def CommandOutcome.effect : CommandOutcome → Bool
  | .succeeded => true
  | .failed effect _ => effect

/-- What the device is told of a command. -/
def CommandOutcome.error : CommandOutcome → Option String
  | .succeeded => none
  | .failed _ e => some e

/-- What comes of the network steps on a host. -/
structure HostOutcome where
  connect : Except String Unit
  install : CommandOutcome
  remove : CommandOutcome

/-- Run a command on a host. -/
def command (hostId : Uuid) (f : List String → List String) (outcome : CommandOutcome) :
    Script World String (Option String) :=
  if outcome.effect then
    (Script.exec (fun w => w.setHost hostId f)).andThen (fun _ => Script.ret outcome.error)
  else Script.ret outcome.error

/-- Replace the old key on a host. The reason why it could not be, if it could not. -/
def rotateHost (freshPublic oldPublic : String) (outcome : HostOutcome) (hostId : Uuid) :
    Script World String (Option String) :=
  match outcome.connect with
  | .error e => Script.ret (some e)
  | .ok () =>
    (command hostId (exportKey freshPublic) outcome.install).andThen (fun added =>
      match added with
      | some e => Script.ret (some ("installing the new key: " ++ e))
      | none =>
        (command hostId (removeKey oldPublic) outcome.remove).andThen (fun removed =>
          Script.ret (removed.map (fun e => "new key installed, old one not removed: " ++ e))))

/-- Replace the old key on hosts, one after another. The hosts updated, and those that failed. -/
def rotateHosts (freshPublic oldPublic : String) (net : Uuid → HostOutcome) :
    List (Uuid × String) → List String × List (String × String) →
      Script World String (List String × List (String × String))
  | [], r => Script.ret r
  | (hostId, label) :: targets, (updated, failed) =>
    (rotateHost freshPublic oldPublic (net hostId) hostId).andThen (fun error =>
      rotateHosts freshPublic oldPublic net targets (match error with
        | none => (updated ++ [label], failed)
        | some e => (updated, failed ++ [(label, e)])))

section
variable [KeyLibrary]

/-- What a rotation starts from: the old key and its public half, and a fresh key. -/
def prepare (w : World) (keyId vaultId : Uuid) (random : ℕ) :
    Except String (SshKey × String × KeyMaterial) := do
  let key ← (w.keys keyId).elim (throw "not found") pure
  let old := key.data
  if key.vaultId ≠ vaultId then throw "the key is not in the job's vault"
  let oldPublic ← publicKey old
  let bits := ((KeyLibrary.inspect old.privateKey).map KeyInfo.bits).getD 0
  let algo ← algorithmOf old.keyType bits
  let comment := (old.publicKey.bind (fun p => (splitWhitespace p)[2]?)).getD old.label
  let fresh ← KeyLibrary.generate algo comment old.passphrase random
  return (old, oldPublic, fresh)

/-- The key with its halves replaced. -/
def replaced (old : SshKey) (fresh : KeyMaterial) : SshKey :=
  { old with
    privateKey := fresh.privateKey
    publicKey := some fresh.publicKey
    keyType := fresh.info.keyType }

/-- Replace a key on its hosts, and then in the vault. `stored` says whether the vault takes it. -/
def replaceKey (targets : List (Uuid × String)) (net : Uuid → HostOutcome)
    (stored : Except String Unit) (keyId vaultId : Uuid) (old : SshKey) (oldPublic : String)
    (fresh : KeyMaterial) : Script World String (List String × List (String × String)) :=
  (rotateHosts fresh.publicKey oldPublic net targets ([], [])).andThen (fun (updated, failed) =>
    if failed ≠ [] then Script.ret (updated, failed)
    else
      (Script.attempt (fun w => stored.map (fun _ =>
        w.setKey keyId ⟨vaultId, replaced old fresh⟩))).andThen (fun _ =>
          Script.ret (updated, failed)))

/-- Rotate a key. -/
def rotateKey (targets : List (Uuid × String)) (net : Uuid → HostOutcome)
    (stored : Except String Unit) (keyId vaultId : Uuid) (random : ℕ) :
    Script World String (List String × List (String × String)) :=
  Script.read.andThen (fun w =>
    (Script.lift (prepare w keyId vaultId random)).andThen (fun p =>
      replaceKey targets net stored keyId vaultId p.1 p.2.1 p.2.2))

end

/-! ### Jobs -/

/-- A request to update a job. -/
def updateRequest (status : String) (error : Option String) : Server.UpdateRotationJobRequest :=
  ⟨status, error⟩

/-- The job that a device is to run, among those it is given. Only SSH keys rotate automatically. -/
def acceptJob (jobs : List Server.RotationJob) (jobId : Uuid) : Except String Server.RotationJob :=
  match jobs.find? (fun j => decide (j.id = jobId)) with
  | none => .error "this job is not available to this device"
  | some job =>
    if job.entityKind ≠ "key" then
      .error "only SSH keys rotate automatically; replace this secret by hand and mark the job done"
    else .ok job

/-- What a device reports about a rotation. -/
def report : Except String (List String × List (String × String)) → Server.UpdateRotationJobRequest
  | .ok (_, []) => updateRequest "done" none
  | .ok (_, failed) =>
    updateRequest "failed" (some ("; ".intercalate (failed.map (fun f => f.1 ++ ": " ++ f.2))))
  | .error e => updateRequest "failed" (some e)

/-- The updates a device sends to run a job, when each is answered: a claim, and what came of the
rotation. -/
def runJob (jobs : List Server.RotationJob) (jobId : Uuid)
    (rotated : Server.RotationJob → Except String (List String × List (String × String))) :
    Except String (List Server.UpdateRotationJobRequest) :=
  (acceptJob jobs jobId).map (fun job => [updateRequest "running" none, report (rotated job)])

/-- The update a device sends for a secret that was replaced by hand. -/
def markDone : Server.UpdateRotationJobRequest := updateRequest "done" none

end Termoso.Desktop
