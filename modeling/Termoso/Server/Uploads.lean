import Termoso.Server.Writes
import Mathlib.Control.Traversable.Instances
import Mathlib.Data.Option.Basic

/-!
# Uploads of session logs

A recording reaches the server in three steps: its log is registered, its body is put into
object storage, and the log is marked completed, when the storage has an object of the size
declared.  This module has the handlers with the object storage next to the database, and what
each of them does to a log.
-/

namespace Termoso.Server

/-! ### Errors as answers -/

namespace Error

/-- The HTTP status of an error. -/
def status : Error → ℕ
  | notFound _ => 404
  | forbidden _ => 403
  | badRequest _ => 400
  | conflict _ => 409
  | tooLarge _ => 413
  | quotaExceeded _ => 507
  | mfaRequired _ _ => 403
  | internal => 500

/-- The machine-readable code of an error. -/
def code : Error → String
  | notFound _ => "not_found"
  | forbidden _ => "forbidden"
  | badRequest _ => "validation_failed"
  | conflict _ => "conflict"
  | tooLarge _ => "payload_too_large"
  | quotaExceeded _ => "quota_exceeded"
  | mfaRequired _ _ => "mfa_required"
  | internal => "internal_error"

end Error

/-! ### Refusals -/

/-- Refusals that concern one log and do not stall the rest of a pass. -/
def perLog (status : ℕ) : Bool := (decide (400 ≤ status) && decide (status < 500)) || status == 507

theorem perLog_of_ne_internal {e : Error} (h : e ≠ .internal) :
  perLog e.status = true
  := by
  cases e with
  | internal => exact absurd rfl h
  | notFound what => rfl
  | forbidden msg => rfl
  | badRequest msg => rfl
  | conflict msg => rfl
  | tooLarge msg => rfl
  | quotaExceeded msg => rfl
  | mfaRequired teamId level => rfl

/-! ### The handlers -/

/-- The database, and the objects in storage by author and log. -/
structure LogServer where
  db : Db
  objects : Uuid → Uuid → Option Bytes

namespace LogServer

/-- The row of a log. -/
def log (s : LogServer) (id : Uuid) : Option LogRow := s.db.sessionLogs.get? id

/-- Put an object into storage, or remove it. -/
def setObject (s : LogServer) (userId id : Uuid) (body : Option Bytes) : LogServer :=
  { s with objects := fun u l => if u = userId ∧ l = id then body else s.objects u l }

/-- The object of a log. -/
def object (s : LogServer) (id : Uuid) : Option Bytes :=
  (s.log id).bind (fun log => s.objects log.userId id)

/-- Remove the object of a log. -/
def removeObject (s : LogServer) (id : Uuid) : LogServer :=
  match s.log id with
  | some log => s.setObject log.userId id none
  | none => s

/-- Register a log. -/
def create [Primitives] (settings : Settings) (auth : Auth) (now : DateTime) (s : LogServer)
    (req : CreateLogRequest) : Except Error Unit × LogServer :=
  match s.db.logCreate settings auth now req with
  | .ok db => (.ok (), { s with db })
  | .error e => (.error e, s)

/-- Mark a log uploaded, with the exact size of its object. An object over the limit is removed. -/
def complete [Primitives] (settings : Settings) (auth : Auth) (s : LogServer) (id : Uuid)
    (size : ℤ) : Except Error ℤ × LogServer :=
  match s.db.logUpdate settings auth ((s.object id).map (fun b => (b.length : ℤ))) id
      ⟨none, some size, none, none⟩ with
  | .ok db => (.ok (((db.sessionLogs.get? id).map LogRow.seq).getD 0), { s with db })
  | .error (.tooLarge msg) => (.error (.tooLarge msg), s.removeObject id)
  | .error e => (.error e, s)

/-- Delete a log, after its object. -/
def delete (auth : Auth) (recordingRequired mayDelete : Bool) (s : LogServer) (id : Uuid) :
    Except Error Unit × LogServer :=
  match s.db.logDelete auth recordingRequired mayDelete id with
  | .ok db =>
    (.ok (), if (s.log id).any LogRow.deleted then s else { s.removeObject id with db })
  | .error .internal => (.error .internal, s.removeObject id)
  | .error e => (.error e, s)

end LogServer

/-! ### Access -/

/-- What decides about access is the same in both databases. -/
structure SameAccess (db db' : Db) : Prop where
  vaults : ∀ v, Option.Rel (fun a b => b.deleted = a.deleted ∧ b.kind = a.kind
    ∧ b.teamId = a.teamId ∧ b.keyVersion = a.keyVersion) (db.vaults.get? v) (db'.vaults.get? v)
  users : ∀ u, Option.Rel (fun a b => b.totpEnabled = a.totpEnabled ∧ b.passkey = a.passkey)
    (db.users.get? u) (db'.users.get? u)
  vaultMembers : db'.vaultMembers = db.vaultMembers
  teamMembers : db'.teamMembers = db.teamMembers
  teamPolicies : db'.teamPolicies = db.teamPolicies

section
variable {db db' : Db} {v u : Uuid}

theorem isSome_of_rel {α : Type} {p : α → α → Prop} {x y : Option α} (h : Option.Rel p x y) :
  y.isSome = x.isSome
  := by
  cases h with
  | some _ => rfl
  | none => rfl

theorem SameAccess.access (h : SameAccess db db') :
  db'.access v u = db.access v u
  := by
  have hfactors : (db'.users.get? u).any User.totpEnabled = (db.users.get? u).any User.totpEnabled
      ∧ (db'.users.get? u).any User.passkey = (db.users.get? u).any User.passkey := by
    have huser := h.users u
    generalize db.users.get? u = x at huser
    generalize db'.users.get? u = y at huser
    cases huser with
    | some hr => exact ⟨hr.1, hr.2⟩
    | none => exact ⟨rfl, rfl⟩
  have hvault := h.vaults v
  rw [Db.access, Db.access, h.vaultMembers, h.teamMembers, h.teamPolicies]
  generalize db.vaults.get? v = x at hvault
  generalize db'.vaults.get? v = y at hvault
  cases hvault with
  | none => rfl
  | @some a b hr =>
      obtain ⟨hdeleted, hkind, hteam, hversion⟩ := hr
      rw [Option.filter_some, Option.filter_some, hdeleted]
      cases a.deleted with
      | true => rfl
      | false => simp only [Bool.not_false, if_true, hkind, hteam, hversion, hfactors]

theorem SameAccess.refl :
  SameAccess db db
  := by
  refine ⟨fun v => ?_, fun u => ?_, rfl, rfl, rfl⟩
  · cases db.vaults.get? v with
    | none => exact .none
    | some a => exact .some ⟨rfl, rfl, rfl, rfl⟩
  · cases db.users.get? u with
    | none => exact .none
    | some a => exact .some ⟨rfl, rfl⟩

/-- Drawing numbers for a log changes nothing about access. -/
theorem sameAccess_of_nextSeqs {userId vaultId : Uuid} {seq vseq : ℤ}
    (h : db.nextSeqs userId vaultId = .ok (seq, vseq, db')) {logs : Table LogRow} :
  SameAccess db { db' with sessionLogs := logs }
  := by
  rw [Db.nextSeqs] at h
  split at h
  · cases h
    refine ⟨fun v => ?_, fun u => ?_, rfl, rfl, rfl⟩
    · rw [Table.get?_set]
      split
      · rename_i heq
        subst heq
        cases db.vaults.get? v with
        | none => exact .none
        | some a => exact .some ⟨rfl, rfl, rfl, rfl⟩
      · exact SameAccess.refl.vaults v
    · rw [Table.get?_set]
      split
      · rename_i heq
        subst heq
        cases db.users.get? u with
        | none => exact .none
        | some a => exact .some ⟨rfl, rfl⟩
      · exact SameAccess.refl.users u
  · cases h

end

/-! ### What the handlers do to a log -/

/-- The author and the vault of every log are there. -/
def Referenced (db : Db) : Prop :=
  ∀ id row, db.sessionLogs.get? id = some row →
    (db.users.get? row.userId).isSome ∧ (db.vaults.get? row.vaultId).isSome

namespace LogServer

variable {s s' : LogServer} {settings : Settings} {auth : Auth} {id : Uuid}

theorem nextSeqs_of_isSome {db : Db} {userId vaultId : Uuid} (hu : (db.users.get? userId).isSome)
    (hv : (db.vaults.get? vaultId).isSome) :
  ∃ seq vseq db', db.nextSeqs userId vaultId = .ok (seq, vseq, db')
  := by
  obtain ⟨u, hu⟩ := Option.isSome_iff_exists.mp hu
  obtain ⟨v, hv⟩ := Option.isSome_iff_exists.mp hv
  rw [Db.nextSeqs, hu, hv]
  exact ⟨_, _, _, rfl⟩

theorem isSome_of_nextSeqs {db db' : Db} {userId vaultId : Uuid} {seq vseq : ℤ}
    (h : db.nextSeqs userId vaultId = .ok (seq, vseq, db')) :
  (db.users.get? userId).isSome ∧ (db.vaults.get? vaultId).isSome
  := by
  rw [Db.nextSeqs] at h
  split at h
  · rename_i hu hv
    exact ⟨Option.isSome_of_eq_some hu, Option.isSome_of_eq_some hv⟩
  · cases h

/-- References stay when a log is written whose author and vault are there. -/
theorem referenced_of_wrote {row : LogRow} (h : Referenced s.db) (hsame : SameAccess s.db s'.db)
    (hrow : (s.db.users.get? row.userId).isSome ∧ (s.db.vaults.get? row.vaultId).isSome)
    (hlog : ∀ id', s'.log id' = if id' = id then some row else s.log id') :
  Referenced s'.db
  := by
  have hkept : ∀ userId vaultId : Uuid,
      (s.db.users.get? userId).isSome ∧ (s.db.vaults.get? vaultId).isSome →
        (s'.db.users.get? userId).isSome ∧ (s'.db.vaults.get? vaultId).isSome := by
    intro userId vaultId href
    rw [isSome_of_rel (hsame.users userId), isSome_of_rel (hsame.vaults vaultId)]
    exact href
  intro id' row' hrow'
  have hget := (hlog id').symm.trans hrow'
  split at hget
  · cases hget
    exact hkept _ _ hrow
  · exact hkept _ _ (h id' row' hget)

section
variable [Primitives]

/-- A log that is registered is new, and not completed. -/
theorem create_spec {now : DateTime} {req : CreateLogRequest}
    (h : s.create settings auth now req = (.ok (), s')) :
  s.log req.id = none ∧ req.sizeBytes ≤ settings.maxLogBytes ∧ s'.objects = s.objects
    ∧ SameAccess s.db s'.db ∧ ∃ row, row.userId = auth.userId ∧ row.vaultId = req.vaultId ∧ row.completed = false
        ∧ row.deleted = false
        ∧ ((s.db.users.get? row.userId).isSome ∧ (s.db.vaults.get? row.vaultId).isSome)
        ∧ ∀ id, s'.log id = if id = req.id then some row else s.log id
  := by
  rw [create] at h
  split at h
  · rename_i db hcreate
    cases h
    simp only [Db.logCreate, bind_eq_ok, check_eq_ok, Prod.exists] at hcreate
    obtain ⟨_, -, hsize, a, -, -, -, seq, vaultSeq, db₁, hseqs, hcreate⟩ := hcreate
    split at hcreate
    · rename_i logs hins
      obtain rfl := pure_eq_ok.mp hcreate
      obtain ⟨-, -, -, -, -, hrest⟩ := Db.nextSeqs_eq_ok hseqs
      have hlogs : db₁.sessionLogs = s.db.sessionLogs := by rw [hrest]
      rw [hlogs] at hins
      have hwithin : req.sizeBytes ≤ settings.maxLogBytes := by omega
      refine ⟨Table.insert_isSome_iff.mp (Option.isSome_of_eq_some hins), hwithin, rfl,
        sameAccess_of_nextSeqs hseqs, _, rfl, rfl, rfl, rfl, isSome_of_nextSeqs hseqs,
        Table.get?_insert hins⟩
    · exact absurd hcreate (by simp)
  · cases h

/-- A request that is refused registers nothing. -/
theorem create_error {now : DateTime} {req : CreateLogRequest} {e : Error}
    (h : s.create settings auth now req = (.error e, s')) :
  s' = s
  := by
  rw [create] at h
  split at h
  · cases h
  · cases h
    rfl

omit [Primitives] in
/-- Whoever has a grant for a log owns it when the log is theirs. -/
theorem owner_of_logGrant {db : Db} {grant : Grant} (h : db.logGrant auth id = .ok grant) :
  grant.owner = decide (grant.log.userId = auth.userId)
  := by
  rw [Db.logGrant] at h
  split at h
  · cases h
  dsimp only at h
  split at h
  · split at h
    · cases h
      rfl
    · cases h
  · split at h
    · split at h
      · cases h
        rfl
      · cases h
    · cases h
  · cases h

omit [Primitives] in
/-- An upload is accepted when the object is there, of the size declared and within the limit. -/
theorem checkUpload_eq_ok {declared size : ℤ} {actual : Option ℤ} :
  Db.checkUpload settings declared actual = .ok size
    ↔ actual = some declared ∧ declared ≤ settings.maxLogBytes ∧ size = declared
  := by
  cases actual with
  | none => simp [Db.checkUpload]
  | some actual =>
      rw [Db.checkUpload]
      split
      · rename_i hne
        simp [hne]
      · rename_i heq
        obtain rfl := not_not.mp heq
        split
        · rename_i hover
          simp [not_le.mpr hover]
        · rename_i hwithin
          simp [not_lt.mp hwithin, eq_comm]

omit [Primitives] in
/-- An upload that is too large is over the limit. -/
theorem over_of_checkUpload {declared actual : ℤ} {msg : String}
    (h : Db.checkUpload settings declared (some actual) = .error (.tooLarge msg)) :
  settings.maxLogBytes < actual
  := by
  rw [Db.checkUpload] at h
  split at h
  · cases h
  · split at h
    · assumption
    · cases h

omit [Primitives] in
theorem checkUpload_ne_internal {declared : ℤ} {actual : Option ℤ} :
  Db.checkUpload settings declared actual ≠ .error .internal
  := by
  intro h
  cases actual with
  | none => cases h
  | some actual =>
      rw [Db.checkUpload] at h
      split at h
      · cases h
      · split at h
        · cases h
        · cases h

/-- A log that is completed is one of the author, and its object is stored. -/
theorem complete_spec {size seq : ℤ} (h : s.complete settings auth id size = (.ok seq, s')) :
  s'.objects = s.objects ∧ SameAccess s.db s'.db
    ∧ ∃ log row body, s.log id = some log ∧ log.userId = auth.userId ∧ log.deleted = false
        ∧ s.objects auth.userId id = some body ∧ (body.length : ℤ) = size
        ∧ (body.length : ℤ) ≤ settings.maxLogBytes
        ∧ row.userId = log.userId ∧ row.vaultId = log.vaultId ∧ row.completed = true
        ∧ row.deleted = false ∧ ∀ id', s'.log id' = if id' = id then some row else s.log id'
  := by
  rw [complete] at h
  split at h
  · rename_i db hupdate
    cases h
    simp only [Db.logUpdate, bind_eq_ok, check_eq_ok, pure_eq_ok, Prod.exists] at hupdate
    obtain ⟨grant, hgrant, hdeleted, howner, -, _, -, note, -, uploaded, hsize, seq, vaultSeq, db₁,
      hseqs, hdb⟩ := hupdate
    have hlog : s.log id = some grant.log := Db.logGrant_eq_ok hgrant
    have hauthor : grant.log.userId = auth.userId := by
      simpa [owner_of_logGrant hgrant] using howner
    obtain ⟨size', hchecked, rfl⟩ : ∃ size', Db.checkUpload settings size
        ((s.object id).map (fun b => (b.length : ℤ))) = .ok size' ∧ some size' = uploaded := by
      cases hc : Db.checkUpload settings size ((s.object id).map (fun b => (b.length : ℤ))) with
      | error e => simp [hc, Option.mapM] at hsize
      | ok size' =>
          refine ⟨size', rfl, ?_⟩
          simpa [hc, Option.mapM] using hsize
    obtain ⟨hobject, hwithin, -⟩ := checkUpload_eq_ok.mp hchecked
    obtain ⟨body, hbody, rfl⟩ := Option.map_eq_some_iff.mp hobject
    rw [object, hlog, Option.bind_some, hauthor] at hbody
    obtain ⟨row, hwrote, huser, hvault, hcompleted, hlive, hid⟩ : ∃ row, Db.WroteLog s.db db row
        ∧ row.userId = grant.log.userId ∧ row.vaultId = grant.log.vaultId ∧ row.completed = true
        ∧ row.deleted = false ∧ row.id = id := by
      rw [← hdb]
      refine ⟨_, Db.wroteLog_of_set hlog hseqs rfl rfl, rfl, rfl, ?_, ?_, Table.key_of_get? hlog⟩
      · exact Bool.or_true _
      · exact Bool.eq_false_iff.mpr hdeleted
    refine ⟨rfl, hdb ▸ sameAccess_of_nextSeqs hseqs, grant.log, row, body, hlog, hauthor,
      Bool.eq_false_iff.mpr hdeleted, hbody, rfl, hwithin, huser, hvault, hcompleted, hlive, ?_⟩
    intro id'
    rw [← hid]
    exact hwrote.logs id'
  · cases h
  · cases h

omit [Primitives] in
/-- Access is refused as not found, or for want of a second factor. -/
theorem access_error {db : Db} {vaultId userId : Uuid} {e : Error}
    (h : db.access vaultId userId = .error e) :
  (∃ what, e = .notFound what) ∨ ∃ teamId level, e = .mfaRequired teamId level
  := by
  rw [Db.access] at h
  split at h
  · cases h
    exact .inl ⟨_, rfl⟩
  · dsimp only at h
    split at h
    · cases h
      exact .inr ⟨_, _, rfl⟩
    · split at h
      · cases h
        exact .inl ⟨_, rfl⟩
      · cases h

omit [Primitives] in
theorem logGrant_error {db : Db} {e : Error} (h : db.logGrant auth id = .error e) :
  (∃ what, e = .notFound what) ∨ ∃ teamId level, e = .mfaRequired teamId level
  := by
  rw [Db.logGrant] at h
  split at h
  · cases h
    exact .inl ⟨_, rfl⟩
  dsimp only at h
  split at h
  · split at h
    · cases h
    · cases h
      exact .inl ⟨_, rfl⟩
  · split at h
    · split at h
      · cases h
      · cases h
        exact .inl ⟨_, rfl⟩
    · cases h
      exact .inl ⟨_, rfl⟩
  · rename_i e' _ haccess
    cases h
    exact access_error haccess

omit [Primitives] in
theorem nextSeqs_error {db : Db} {userId vaultId : Uuid} {e : Error}
    (h : db.nextSeqs userId vaultId = .error e) :
  e = .internal
  := by
  rw [Db.nextSeqs] at h
  split at h
  · cases h
  · cases h
    rfl

/-- Why an upload is refused. -/
theorem upload_error {db : Db} {actual : Option ℤ} {size : ℤ} {e : Error}
    (h : db.logUpdate settings auth actual id ⟨none, some size, none, none⟩ = .error e) :
  (∃ what, e = .notFound what) ∨ (∃ teamId level, e = .mfaRequired teamId level)
    ∨ (∃ msg, e = .forbidden msg) ∨ Db.checkUpload settings size actual = .error e
    ∨ ∃ log, db.sessionLogs.get? id = some log ∧ db.nextSeqs log.userId log.vaultId = .error e
  := by
  simp only [Db.logUpdate, bind_eq_error, check_eq_error] at h
  rcases h with hgrant | ⟨grant, hgrant, ⟨-, rfl⟩ | ⟨-, ⟨-, rfl⟩ | ⟨-, ⟨-, rfl⟩ | ⟨-, h⟩⟩⟩⟩
  · rcases logGrant_error hgrant with hne | hne
    · exact .inl hne
    · exact .inr (.inl hne)
  · exact .inl ⟨_, rfl⟩
  · exact .inr (.inr (.inl ⟨_, rfl⟩))
  · exact .inr (.inr (.inl ⟨_, rfl⟩))
  · rcases h with hnone | ⟨_, -, hnone | ⟨note, -, hcheck | ⟨uploaded, -, hseqs | ⟨_, -, hnone⟩⟩⟩⟩
    · cases hnone
    · cases hnone
    · refine .inr (.inr (.inr (.inl ?_)))
      cases hc : Db.checkUpload settings size actual with
      | ok size' => simp [hc, Option.mapM] at hcheck
      | error e' => simpa [hc, Option.mapM] using hcheck
    · exact .inr (.inr (.inr (.inr ⟨grant.log, Db.logGrant_eq_ok hgrant, hseqs⟩)))
    · cases hnone

/-- The object of a log is removed by an upload that is refused only when it is over the limit. -/
theorem complete_error {size : ℤ} {e : Error}
    (h : s.complete settings auth id size = (.error e, s')) :
  s' = s ∨ ∃ body, s.object id = some body ∧ settings.maxLogBytes < body.length
    ∧ s' = s.removeObject id
  := by
  rw [complete] at h
  split at h
  · cases h
  · rename_i msg hupdate
    cases h
    right
    rcases upload_error hupdate with ⟨_, hne⟩ | ⟨_, _, hne⟩ | ⟨_, hne⟩ | hcheck | ⟨_, -, hseqs⟩
    · cases hne
    · cases hne
    · cases hne
    · cases hobject : s.object id with
      | none =>
          rw [hobject] at hcheck
          cases hcheck
      | some body =>
          rw [hobject] at hcheck
          exact ⟨body, rfl, over_of_checkUpload hcheck, rfl⟩
    · cases nextSeqs_error hseqs
  · cases h
    exact .inl rfl

omit [Primitives] in
theorem isSome_of_access {db : Db} {vaultId userId : Uuid} {a : Access}
    (h : db.access vaultId userId = .ok a) :
  (db.vaults.get? vaultId).isSome
  := by
  rw [Db.access] at h
  split at h
  · cases h
  · rename_i v hv
    obtain ⟨hget, -⟩ := Option.filter_eq_some_iff.mp hv
    exact Option.isSome_of_eq_some hget

omit [Primitives] in
theorem access_of_requireWrite {db : Db} {vaultId userId : Uuid} {a : Access}
    (h : db.requireWrite vaultId userId = .ok a) :
  db.access vaultId userId = .ok a
  := by
  rw [Db.requireWrite] at h
  obtain ⟨a', ha', h⟩ := bind_eq_ok.mp h
  obtain ⟨-, h⟩ := check_eq_ok.mp h
  exact pure_eq_ok.mp h ▸ ha'

/-- A registration is not refused for reasons of the server's own. -/
theorem create_ne_internal {now : DateTime} {req : CreateLogRequest} {e : Error}
    (huser : (s.db.users.get? auth.userId).isSome)
    (h : s.create settings auth now req = (.error e, s')) :
  e ≠ .internal
  := by
  rintro rfl
  rw [create] at h
  split at h
  · cases h
  · rename_i hcreate
    cases h
    simp only [Db.logCreate, bind_eq_error, check_eq_error] at hcreate
    rcases hcreate with hmeta | ⟨_, -, ⟨-, hne⟩ | ⟨-, hwrite | ⟨a, hwrite, ⟨-, hne⟩ | ⟨-, ⟨-, hne⟩ |
      ⟨-, hseqs | ⟨_, -, hinsert⟩⟩⟩⟩⟩⟩
    · rw [validateMeta] at hmeta
      split at hmeta
      · cases hmeta
      · cases hmeta
    · cases hne
    · simp only [Db.requireWrite, bind_eq_error, check_eq_error] at hwrite
      rcases hwrite with haccess | ⟨a, -, ⟨-, hne⟩ | ⟨-, hne⟩⟩
      · rcases access_error haccess with ⟨_, hne⟩ | ⟨_, _, hne⟩
        · cases hne
        · cases hne
      · cases hne
      · cases hne
    · cases hne
    · cases hne
    · obtain ⟨_, _, _, hok⟩ :=
        nextSeqs_of_isSome huser (isSome_of_access (access_of_requireWrite hwrite))
      rw [hok] at hseqs
      cases hseqs
    · split at hinsert
      · cases hinsert
      · cases hinsert

/-- Neither is a completion. -/
theorem complete_ne_internal {size : ℤ} {e : Error} (hreferenced : Referenced s.db)
    (h : s.complete settings auth id size = (.error e, s')) :
  e ≠ .internal
  := by
  rintro rfl
  rw [complete] at h
  split at h
  · cases h
  · cases h
  · rename_i hupdate
    cases h
    rcases upload_error hupdate with ⟨_, hne⟩ | ⟨_, _, hne⟩ | ⟨_, hne⟩ | hcheck | ⟨log, hlog, hseqs⟩
    · cases hne
    · cases hne
    · cases hne
    · exact checkUpload_ne_internal hcheck
    · obtain ⟨hu, hv⟩ := hreferenced id log hlog
      obtain ⟨_, _, _, hok⟩ := nextSeqs_of_isSome hu hv
      rw [hok] at hseqs
      cases hseqs

omit [Primitives] in
/-- A deletion leaves the log as it is, or a tombstone without an object. -/
theorem delete_spec {recordingRequired mayDelete : Bool} {answer : Except Error Unit}
    (hreferenced : Referenced s.db)
    (h : s.delete auth recordingRequired mayDelete id = (answer, s')) :
  s' = s ∨ SameAccess s.db s'.db ∧ ∃ log row, s.log id = some log
    ∧ s'.objects = (s.removeObject id).objects ∧ row.userId = log.userId
    ∧ row.vaultId = log.vaultId ∧ row.completed = log.completed ∧ row.deleted = true
    ∧ ∀ id', s'.log id' = if id' = id then some row else s.log id'
  := by
  rw [delete] at h
  split at h
  · rename_i db hdelete
    cases h
    simp only [Db.logDelete, bind_eq_ok] at hdelete
    obtain ⟨grant, hgrant, hdelete⟩ := hdelete
    have hlog : s.log id = some grant.log := Db.logGrant_eq_ok hgrant
    split at hdelete
    · rename_i hdeleted
      left
      rw [hlog, Option.any_some, if_pos hdeleted]
    · rename_i hlive
      right
      rw [hlog, Option.any_some, if_neg hlive]
      simp only [check_eq_ok, bind_eq_ok, pure_eq_ok, Prod.exists] at hdelete
      obtain ⟨-, -, seq, vaultSeq, db₁, hseqs, hdb⟩ := hdelete
      obtain ⟨row, hwrote, huser, hvault, hcompleted, hdeleted, hid⟩ : ∃ row,
          Db.WroteLog s.db db row ∧ row.userId = grant.log.userId
          ∧ row.vaultId = grant.log.vaultId ∧ row.completed = grant.log.completed
          ∧ row.deleted = true ∧ row.id = id := by
        rw [← hdb]
        exact ⟨_, Db.wroteLog_of_set hlog hseqs rfl rfl, rfl, rfl, rfl, rfl,
          Table.key_of_get? hlog⟩
      refine ⟨hdb ▸ sameAccess_of_nextSeqs hseqs, grant.log, row, rfl, rfl, huser, hvault,
        hcompleted, hdeleted, ?_⟩
      intro id'
      rw [← hid]
      exact hwrote.logs id'
  · rename_i hdelete
    exfalso
    simp only [Db.logDelete, bind_eq_error] at hdelete
    rcases hdelete with hgrant | ⟨grant, hgrant, hdelete⟩
    · rcases logGrant_error hgrant with ⟨_, hne⟩ | ⟨_, _, hne⟩
      · cases hne
      · cases hne
    · split at hdelete
      · cases hdelete
      · simp only [check_eq_error, bind_eq_error] at hdelete
        rcases hdelete with ⟨-, hne⟩ | ⟨-, ⟨-, hne⟩ | ⟨-, hseqs | ⟨_, -, hne⟩⟩⟩
        · cases hne
        · cases hne
        · obtain ⟨hu, hv⟩ := hreferenced id grant.log (Db.logGrant_eq_ok hgrant)
          obtain ⟨_, _, _, hok⟩ := nextSeqs_of_isSome hu hv
          rw [hok] at hseqs
          cases hseqs
        · cases hne
  · cases h
    exact .inl rfl

end

end LogServer

/-! ### Requests that are not refused -/

/-- What the live logs of an author take up. -/
def Db.usedBytes (db : Db) (userId : Uuid) : ℤ :=
  ((db.sessionLogs.select (fun r => decide (r.userId = userId) && !r.deleted)).map
    LogRow.sizeBytes).sum

/-- The server accepts a registration: the metadata and the size are within the limits, the author
may write to the vault and holds its current key, unless the log is registered already, and there
is room for the body. The log, if there is one, is not deleted, and within the author's reach. -/
structure Admits [Primitives] (settings : Settings) (auth : Auth) (db : Db)
    (req : CreateLogRequest) : Prop where
  metadata : validateMeta req.metadata settings.maxEntityBytes = .ok ()
  positive : 0 < req.sizeBytes
  within : req.sizeBytes ≤ settings.maxLogBytes
  write : ∃ a, db.requireWrite req.vaultId auth.userId = .ok a
    ∧ (a.keyVersion = req.keyVersion ∨ (db.sessionLogs.get? req.id).isSome)
    ∧ (a.keyVersion = req.keyVersion → 0 < settings.logQuotaBytes →
        db.usedBytes auth.userId + req.sizeBytes ≤ settings.logQuotaBytes)
  reach : ∀ log, db.sessionLogs.get? req.id = some log →
    log.deleted = false ∧ (db.logGrant auth req.id).isOk = true

namespace LogServer

variable {s s' : LogServer} {settings : Settings} {auth : Auth} {id : Uuid}

/-- A registration that is admitted is done, unless the log is registered already. -/
theorem create_of_admits [Primitives] (now : DateTime) {req : CreateLogRequest}
    (h : Admits settings auth s.db req) (huser : (s.db.users.get? auth.userId).isSome) :
  (∃ s', s.create settings auth now req = (.ok (), s'))
    ∨ (∃ msg, s.create settings auth now req = (.error (.conflict msg), s))
      ∧ (s.log req.id).isSome
  := by
  obtain ⟨a, hwrite, hversion, hquota⟩ := h.write
  have hsize : ¬ (req.sizeBytes ≤ 0 ∨ req.sizeBytes > settings.maxLogBytes) := by
    have := h.positive
    have := h.within
    omega
  obtain ⟨seq, vaultSeq, db₁, hseqs⟩ :=
    nextSeqs_of_isSome huser (isSome_of_access (access_of_requireWrite hwrite))
  obtain ⟨row, hrow⟩ : ∃ row : LogRow, row =
      { id := req.id, userId := auth.userId, vaultId := req.vaultId, metadata := req.metadata,
        keyVersion := req.keyVersion, sizeBytes := req.sizeBytes, completed := false,
        createdAt := now, seq, vaultSeq, deleted := false, pinned := false, note := "",
        noteBy := none } := ⟨_, rfl⟩
  have hrun : s.db.logCreate settings auth now req
      = if a.keyVersion ≠ req.keyVersion then .error (.conflict "Stale vault key version")
        else if settings.logQuotaBytes > 0 ∧ s.db.usedBytes auth.userId + req.sizeBytes
            > settings.logQuotaBytes then
          .error (.quotaExceeded "Session log storage quota exceeded")
        else (db₁.sessionLogs.insert row).elim (.error (.conflict "Log already exists"))
          (fun sessionLogs => .ok { db₁ with sessionLogs }) := by
    rw [Db.logCreate, h.metadata, if_neg hsize, hwrite, hrow]
    change (if a.keyVersion ≠ req.keyVersion then _ else _) = _
    split
    · rfl
    · change (if settings.logQuotaBytes > 0 ∧ s.db.usedBytes auth.userId + req.sizeBytes
          > settings.logQuotaBytes then _ else _) = _
      split
      · rfl
      · rw [hseqs, ← hrow]
        simp only [bind, Except.bind]
        rw [← hrow]
        cases db₁.sessionLogs.insert row <;> rfl
  have hid : row.id = req.id := by rw [hrow]
  rw [create, log, hrun]
  by_cases hstale : a.keyVersion = req.keyVersion
  · rw [if_neg (not_not.mpr hstale), if_neg]
    · obtain ⟨-, -, -, -, -, hrest⟩ := Db.nextSeqs_eq_ok hseqs
      have hlogs : db₁.sessionLogs = s.db.sessionLogs := by rw [hrest]
      rw [hlogs]
      cases hins : s.db.sessionLogs.insert row with
      | some logs => exact .inl ⟨_, rfl⟩
      | none =>
          refine .inr ⟨⟨_, rfl⟩, ?_⟩
          rw [Option.isSome_iff_ne_none]
          intro hnone
          rw [← hid, ← key_logRow, ← Table.insert_isSome_iff, hins] at hnone
          cases hnone
    · rintro ⟨hlimited, hover⟩
      have := hquota hstale hlimited
      omega
  · right
    rw [if_pos hstale]
    exact ⟨⟨_, rfl⟩, hversion.resolve_left hstale⟩

/-- A live log of the author, within reach, whose object is stored, is completed. -/
theorem complete_of_stored [Primitives] {log : LogRow} {body : Bytes}
    (hreferenced : Referenced s.db) (hlog : s.log id = some log)
    (hauthor : log.userId = auth.userId) (hlive : log.deleted = false)
    (hreach : (s.db.logGrant auth id).isOk = true)
    (hbody : s.objects auth.userId id = some body)
    (hwithin : (body.length : ℤ) ≤ settings.maxLogBytes) :
  ∃ seq s', s.complete settings auth id body.length = (.ok seq, s')
  := by
  obtain ⟨grant, hgrant⟩ : ∃ grant, s.db.logGrant auth id = .ok grant := by
    cases hgrant : s.db.logGrant auth id with
    | ok grant => exact ⟨grant, rfl⟩
    | error e =>
        rw [hgrant] at hreach
        cases hreach
  obtain rfl : log = grant.log := by
    have hget := Db.logGrant_eq_ok hgrant
    rw [LogServer.log] at hlog
    exact Option.some.inj (hlog.symm.trans hget)
  have howner : grant.owner = true := by
    rw [owner_of_logGrant hgrant, hauthor, decide_eq_true rfl]
  have hobject : s.object id = some body := by
    rw [object, hlog, Option.bind_some, hauthor, hbody]
  have hchecked : Db.checkUpload settings body.length
      (some (body.length : ℤ)) = .ok (body.length : ℤ) :=
    checkUpload_eq_ok.mpr ⟨rfl, hwithin, rfl⟩
  obtain ⟨hu, hv⟩ := hreferenced id grant.log hlog
  obtain ⟨seq, vaultSeq, db₁, hseqs⟩ := nextSeqs_of_isSome hu hv
  obtain ⟨db, hdb⟩ : ∃ db, s.db.logUpdate settings auth ((s.object id).map (fun b => (b.length : ℤ)))
      id ⟨none, some (body.length : ℤ), none, none⟩ = .ok db := by
    rw [Db.logUpdate, hgrant, hobject, Option.map_some]
    change ∃ db, (if grant.log.deleted = true then _ else _) = _
    rw [hlive, if_neg Bool.false_ne_true]
    change ∃ db, (if (true && !grant.owner) = true then _ else _) = _
    rw [howner, if_neg (by decide)]
    change ∃ db, ((Option.mapM (fun declared => Db.checkUpload settings declared
      (some (body.length : ℤ))) (some (body.length : ℤ))) >>= _) = _
    rw [Option.mapM_some, hchecked]
    change ∃ db, (s.db.nextSeqs grant.log.userId grant.log.vaultId >>= _) = _
    rw [hseqs]
    exact ⟨_, rfl⟩
  rw [complete, hdb]
  exact ⟨_, _, rfl⟩

end LogServer

end Termoso.Server
