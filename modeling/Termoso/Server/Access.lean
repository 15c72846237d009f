import Termoso.Lib.Locks
import Termoso.Lib.Threads
import Termoso.Server.Members
import Termoso.Server.Rotation

/-!
# Just-in-time access requests

A member of a team asks for temporary access to a vault.  Approval creates a pending membership
with an expiry; a manager seals the vault key to the requester as for any other member, and the
expiry pass removes the membership when its window closes.

The calls about one user and one vault run their statements one by one between those of the
others.  A transaction keeps what it writes to itself until it commits.  Statements that write a
request do not look at its status again, so they may overwrite what was decided meanwhile.
-/

namespace Termoso.Server

/-! ### Tables -/

inductive AccessStatus
  | pending
  | approved
  | denied
  | cancelled
  | revoked
  | expired
deriving DecidableEq

/-- The statuses in which a request is over. -/
def AccessStatus.closed : AccessStatus → Bool
  | .pending | .approved => false
  | .denied | .cancelled | .revoked | .expired => true

/-- A request of the user for the vault. -/
structure AccessRequestRow where
  id : Uuid
  teamId : Uuid
  role : String
  hours : ℤ
  reason : String
  status : AccessStatus
  decidedBy : Option Uuid
  decidedAt : Option DateTime
  decisionNote : Option String
  expiresAt : Option DateTime
  createdAt : DateTime
deriving DecidableEq

instance : Keyed AccessRequestRow Uuid := ⟨AccessRequestRow.id⟩

@[simp] theorem key_accessRequest (r : AccessRequestRow) : key r = r.id := rfl

/-- A request as it is answered. -/
structure AccessRequest extends AccessRequestRow where
  vaultId : Uuid
  vaultName : String
  userId : Uuid
  userEmail : String
deriving DecidableEq

structure DecideAccessRequest where
  hours : Option ℤ
  role : Option String
  note : Option String
deriving DecidableEq

/-- How a membership came about. -/
inductive Origin
  | approved (requestId : Uuid)
  | granted
deriving DecidableEq

/-- The expiry of the membership, beside the columns of `VaultMember`, and how it came about. -/
structure MemberColumns where
  expiresAt : Option DateTime
  origin : Origin
deriving DecidableEq

/-- The membership that a transaction inserts, the one it deletes, and a request it writes. -/
inductive AccessLock
  | newMember
  | member
  | request (id : Uuid)
deriving DecidableEq

instance : Lockable AccessLock := ⟨fun l l' => decide (l = l')⟩

/-- The tables as committed. `columns` belong to the membership of the user in the vault, when
there is one. `closed` are the requests that were over at some time, and `dropped` the memberships
that expiry passes removed. -/
structure AccessStore where
  db : Db
  columns : MemberColumns
  requests : Table AccessRequestRow
  locks : HeldLocks AccessLock
  closed : List Uuid
  dropped : List MemberColumns

/-! ### Checks -/

def ROLES : List String := ["viewer", "editor"]

def MAX_HOURS : ℤ := 720

def PERM : String := "access.approve"

def hour : ℤ := 3600 * 1000000000

def parseVaultRole (s : String) : VaultRole :=
  if s = "manager" then .manager else if s = "editor" then .editor else .viewer

/-- A note without the blanks around it, or none when nothing is left. -/
def clean (note : Option String) (max : ℕ) : Except Error (Option String) :=
  match note with
  | none => .ok none
  | some n =>
    let n := trim n
    if n.length > max then .error (.tooLarge s!"Text is limited to {max} characters")
    else .ok (if n.isEmpty then none else some n)

/-- What an approval writes. -/
structure Approval where
  teamId : Uuid
  requestId : Uuid
  role : String
  hours : ℤ
  decidedBy : Uuid
  note : Option String
  expiresAt : DateTime
  /-- The version of the vault key, as the membership is inserted. -/
  keyVersion : ℤ
  decidedAt : DateTime
deriving DecidableEq

/-- The checks of an approval. The key version and the time of the decision come with the
transaction. -/
def checkApproval (auth : Auth) (userId : Uuid) (cur : AccessRequest) (req : DecideAccessRequest)
    (now : DateTime) : Except Error Approval := do
  if cur.status ≠ .pending then throw (.conflict "Request already decided")
  if userId = auth.userId then throw (.forbidden "You cannot approve your own request")
  let hours := req.hours.getD cur.hours
  if ¬ (1 ≤ hours ∧ hours ≤ MAX_HOURS) then throw (.badRequest s!"hours must be 1..={MAX_HOURS}")
  let role := req.role.getD cur.role
  if role ∉ ROLES then throw (.badRequest "role must be viewer or editor")
  let note ← clean req.note 500
  return ⟨cur.teamId, cur.id, role, hours, auth.userId, note, now + hours * hour, 0, now⟩

/-! ### Statements -/

namespace AccessStore

section
variable (vaultId userId : Uuid) (s : AccessStore)

/-- Whether the user is a member of the vault. -/
def hasMember : Bool := (s.db.vaultMembers.get? (vaultId, userId)).isSome

/-- Whether the user is a member for a limited time. -/
def timeBoxed : Bool := s.hasMember vaultId userId && s.columns.expiresAt.isSome

def load (teamId rid : Uuid) : Except Error AccessRequest :=
  match (s.requests.get? rid).filter (fun r => decide (r.teamId = teamId)), s.db.vaults.get? vaultId,
      s.db.users.get? userId with
  | some r, some v, some u => .ok ⟨r, vaultId, v.name, userId, u.email⟩
  | _, _, _ => .error (.notFound "Access request")

omit vaultId userId s in
theorem key_upserted (m m' : VaultMember) :
  key { m' with role := m.role, sealedKey := m.sealedKey, keyVersion := m.keyVersion } = key m'
  := rfl

/-- Insert the membership, or set the role, sealed key and key version of the one there. The
expiry of one that is there stays. -/
def upserted (m : VaultMember) (columns : MemberColumns) : AccessStore :=
  { s with
    db := { s.db with
      vaultMembers := s.db.vaultMembers.upsert { m with vaultId := vaultId, userId := userId }
        (fun m' => { m' with role := m.role, sealedKey := m.sealedKey, keyVersion := m.keyVersion })
        (key_upserted m) }
    columns := if s.hasMember vaultId userId then s.columns else columns }

/-- Insert the membership, when there is none. -/
def inserted (m : VaultMember) (columns : MemberColumns) : AccessStore :=
  if s.hasMember vaultId userId then s else s.upserted vaultId userId m columns

/-- Delete the membership. -/
def removed : AccessStore :=
  { s with db := { s.db with vaultMembers := s.db.vaultMembers.erase (vaultId, userId) } }

end

variable (s : AccessStore)

/-- Set the status of a request, and whatever else `f` sets. -/
def decided (rid : Uuid) (status : AccessStatus) (f : AccessRequestRow → AccessRequestRow)
    (hf : ∀ r, key (f r) = key r) : AccessStore :=
  { s with
    requests := s.requests.set rid (fun r => { f r with status := status }) hf
    closed := if status.closed && (s.requests.get? rid).isSome then rid :: s.closed else s.closed }

/-- Whether the window of an approved request has closed. -/
def windowClosed (now : DateTime) (r : AccessRequestRow) : Bool :=
  decide (r.status = .approved) && r.expiresAt.any (fun t => decide (t < now))

/-- Mark the approved requests whose window has closed. -/
def expired (now : DateTime) : AccessStore :=
  { s with
    requests := s.requests.update (windowClosed now) (fun r => { r with status := .expired }) (fun _ => rfl)
    closed := (s.requests.select (windowClosed now)).map AccessRequestRow.id ++ s.closed }

/-- Take locks, and end a transaction. -/
def lock (i : ℕ) (ls : List AccessLock) : AccessStore := { s with locks := s.locks.take i ls }

def release (i : ℕ) : AccessStore := { s with locks := s.locks.release i }

end AccessStore

/-! ### Calls -/

inductive AccessAction
  | approve (req : DecideAccessRequest)
  | deny (req : DecideAccessRequest)
  | revoke

/-- How far a call has come. `done none` is a thread that has nothing to do. -/
inductive AccessCall
  | done (answer : Option (Except Error (Option AccessRequest)))
  | vaults (h : Handler)
  | require (auth : Auth) (teamId rid : Uuid) (action : AccessAction)
  | load (auth : Auth) (teamId rid : Uuid) (action : AccessAction)
  | approveInsert (g : Approval)
  | approveUpdate (g : Approval)
  | approveCommit (g : Approval)
  | denyUpdate (teamId rid decidedBy : Uuid) (note : Option String)
  | revokeDelete (teamId rid decidedBy : Uuid)
  /-- About to write the request, after the membership was deleted or was not there. -/
  | revokeUpdate (teamId rid decidedBy : Uuid) (deleted : Bool) (decidedAt : DateTime)
  | revokeCommit (teamId rid decidedBy : Uuid) (deleted : Bool) (decidedAt : DateTime)
  | reload (teamId rid : Uuid)
  | cancelLoad (auth : Auth) (teamId rid : Uuid)
  | cancelUpdate (rid : Uuid)
  | expiryDelete
  | expiryUpdate

/-- A call is made, drops out, or runs its next statement at some time. -/
inductive AccessStep
  | approve (auth : Auth) (teamId rid : Uuid) (req : DecideAccessRequest)
  | deny (auth : Auth) (teamId rid : Uuid) (req : DecideAccessRequest)
  | revoke (auth : Auth) (teamId rid : Uuid)
  | cancel (auth : Auth) (teamId rid : Uuid)
  | expiryPass
  | upsertMember (auth : Auth) (req : VaultMemberUpsert)
  | removeMember (auth : Auth)
  | drop
  | next (now : DateTime)

/-- What else happens: the user asks for access, joins the vault in another way or is removed from
it in another way, or something else about the database changes. -/
inductive AccessEvent
  | request (row : AccessRequestRow)
  | join (m : VaultMember)
  | remove
  | others (db : Db)

section
variable [Primitives] (vaultId userId : Uuid)

/-- What a call begins with. -/
def AccessStep.start : AccessStep → Option AccessCall
  | .approve auth teamId rid req => some (.require auth teamId rid (.approve req))
  | .deny auth teamId rid req => some (.require auth teamId rid (.deny req))
  | .revoke auth teamId rid => some (.require auth teamId rid .revoke)
  | .cancel auth teamId rid => some (.cancelLoad auth teamId rid)
  | .expiryPass => some .expiryDelete
  | .upsertMember auth req => some (.vaults (Server.upsertMember auth vaultId userId req))
  | .removeMember auth => some (.vaults (Server.removeMember auth vaultId userId))
  | .drop | .next _ => none

/-- Go on with the value that was read, or end with the error. -/
def AccessStore.read {α : Type} (s : AccessStore) (x : Except Error α) (k : α → AccessCall) :
    Option (AccessStore × AccessCall) :=
  match x with
  | .ok a => some (s, k a)
  | .error e => some (s, .done (some (.error e)))

/-- Read a value that passes a check, or end with the error. -/
def AccessCall.orFail {α : Type} (x : Except Error α) (k : α → AccessCall) : AccessCall :=
  match x with
  | .ok a => k a
  | .error e => .done (some (.error e))

/-- What follows when the request is known. -/
def AccessAction.loaded (auth : Auth) (cur : AccessRequest) (now : DateTime) :
    AccessAction → AccessCall
  | .approve req => .orFail (checkApproval auth cur.userId cur req now) .approveInsert
  | .deny req =>
    if cur.status ≠ .pending then .done (some (.error (.conflict "Request already decided")))
    else .orFail (clean req.note 500) (.denyUpdate cur.teamId cur.id auth.userId)
  | .revoke =>
    if cur.status ≠ .approved then
      .done (some (.error (.conflict "Only approved requests can be revoked")))
    else .revokeDelete cur.teamId cur.id auth.userId

/-- The next statement of a handler that writes members. -/
def Handler.nextAccess (i : ℕ) (s : AccessStore) : Handler → Option (AccessStore × Handler)
  | .select k => some (s, k s.db)
  | .upsertMember m k =>
    if s.locks.waits i .newMember || s.locks.waits i .member then none
    else if (s.db.vaults.get? vaultId).isNone then some (s, .done (.error .internal))
    else some (s.upserted vaultId userId m ⟨none, .granted⟩, k)
  | .deleteMember _ _ k =>
    if s.hasMember vaultId userId && s.locks.waits i .member then none
    else some (s.removed vaultId userId, k (if s.hasMember vaultId userId then 1 else 0))
  | _ => none

/-- The store after an approval has committed. -/
def Approval.committed (g : Approval) (s : AccessStore) : AccessStore :=
  (s.inserted vaultId userId ⟨vaultId, userId, parseVaultRole g.role, none, g.keyVersion⟩
      ⟨some g.expiresAt, .approved g.requestId⟩).decided g.requestId .approved
    (fun r => { r with role := g.role, hours := g.hours, decidedBy := some g.decidedBy,
                       decidedAt := some g.decidedAt, decisionNote := g.note,
                       expiresAt := some g.expiresAt }) (fun _ => rfl)

/-- The store after a request was denied. -/
def deniedRequest (rid decidedBy : Uuid) (note : Option String) (decidedAt : DateTime) (s : AccessStore) :
    AccessStore :=
  s.decided rid .denied
    (fun r => { r with decidedBy := some decidedBy, decidedAt := some decidedAt,
                       decisionNote := note }) (fun _ => rfl)

/-- The store after a revocation has committed. -/
def revokedRequest (rid decidedBy : Uuid) (deleted : Bool) (decidedAt : DateTime) (s : AccessStore) :
    AccessStore :=
  (if deleted then s.removed vaultId userId else s).decided rid .revoked
    (fun r => { r with decidedBy := some decidedBy, decidedAt := some decidedAt }) (fun _ => rfl)

/-- The next statement of a call about access. -/
def AccessCall.next (i : ℕ) (now : DateTime) (s : AccessStore) :
    AccessCall → Option (AccessStore × AccessCall)
  | .done _ => none
  | .vaults h => (h.nextAccess vaultId userId i s).map (fun q => (q.1, .vaults q.2))
  | .require auth teamId rid action =>
    s.read (s.db.require teamId auth.userId PERM) (fun _ => .load auth teamId rid action)
  | .load auth teamId rid action =>
    s.read (s.load vaultId userId teamId rid) (fun cur => action.loaded auth cur now)
  | .approveInsert g =>
    if s.locks.waits i .newMember || s.locks.waits i .member then none
    else
      match s.db.vaults.get? vaultId with
      | some v =>
        if s.hasMember vaultId userId then
          some (s, .done (some (.error (.conflict "The member already has access to this vault"))))
        else
          some (s.lock i [.newMember],
            .approveUpdate { g with keyVersion := v.keyVersion, decidedAt := now })
      | none =>
        some (s, .done (some (.error (.conflict "The member already has access to this vault"))))
  | .approveUpdate g =>
    if s.locks.waits i (.request g.requestId) then none
    else some (s.lock i [.request g.requestId], .approveCommit g)
  | .approveCommit g =>
    some ((g.committed vaultId userId s).release i, .reload g.teamId g.requestId)
  | .denyUpdate teamId rid decidedBy note =>
    if s.locks.waits i (.request rid) then none
    else
      some (deniedRequest rid decidedBy note now s, .reload teamId rid)
  | .revokeDelete teamId rid decidedBy =>
    if s.timeBoxed vaultId userId then
      if s.locks.waits i .member then none
      else some (s.lock i [.member], .revokeUpdate teamId rid decidedBy true now)
    else some (s, .revokeUpdate teamId rid decidedBy false now)
  | .revokeUpdate teamId rid decidedBy deleted decidedAt =>
    if s.locks.waits i (.request rid) then none
    else some (s.lock i [.request rid], .revokeCommit teamId rid decidedBy deleted decidedAt)
  | .revokeCommit teamId rid decidedBy deleted decidedAt =>
    some ((revokedRequest vaultId userId rid decidedBy deleted decidedAt s).release i, .reload teamId rid)
  | .reload teamId rid =>
    s.read (s.load vaultId userId teamId rid) (fun cur => .done (some (.ok (some cur))))
  | .cancelLoad auth teamId rid =>
    s.read (s.load vaultId userId teamId rid) (fun cur =>
      if cur.userId ≠ auth.userId then
        .done (some (.error (.forbidden "Only the requester can withdraw a request")))
      else if cur.status ≠ .pending then
        .done (some (.error (.conflict "Request already decided")))
      else .cancelUpdate rid)
  | .cancelUpdate rid =>
    if s.locks.waits i (.request rid) then none
    else some (s.decided rid .cancelled id (fun _ => rfl), .done (some (.ok none)))
  | .expiryDelete =>
    if s.hasMember vaultId userId && s.columns.expiresAt.any (fun t => decide (t < now)) then
      if s.locks.waits i .member then none
      else
        some ({ s.removed vaultId userId with
          dropped := s.columns :: s.dropped }, .expiryUpdate)
    else some (s, .expiryUpdate)
  | .expiryUpdate =>
    if s.requests.rows.any (fun r => AccessStore.windowClosed now r && s.locks.waits i (.request r.id)) then
      none
    else some (s.expired now, .done (some (.ok none)))

/-- A step of a call. One that drops out ends its transaction. -/
def AccessCall.exec (i : ℕ) : AccessStep → AccessStore → AccessCall → Option (AccessStore × AccessCall)
  | .next now, s, call => call.next vaultId userId i now s
  | .drop, s, _ => some (s.release i, .done none)
  | step, s, .done _ | step, s, .vaults (.done _) =>
    (step.start vaultId userId).map (fun call => (s, call))
  | _, _, _ => none

/-- What else happens. A statement waits for the rows that a transaction has locked. -/
def AccessEvent.apply (s : AccessStore) : AccessEvent → Option AccessStore
  | .request row =>
    if s.requests.rows.any (fun r => decide (r.status = .pending)) then none
    else (s.requests.insert { row with status := .pending, expiresAt := none }).map
      (fun requests => { s with requests := requests })
  | .join m =>
    if s.locks.blocks .newMember || s.locks.blocks .member then none
    else some (s.inserted vaultId userId m ⟨none, .granted⟩)
  | .remove => if s.locks.blocks .member then none else some (s.removed vaultId userId)
  | .others db =>
    if (db.vaultMembers.get? (vaultId, userId)).isSome = s.hasMember vaultId userId then
      some { s with db := db }
    else none

/-- The calls about the access of a user to a vault, from when there are no requests. -/
def accessCalls : Threads AccessStore AccessCall AccessStep AccessEvent where
  init s := s.requests.rows = [] ∧ (s.hasMember vaultId userId = true → s.columns = ⟨none, .granted⟩)
    ∧ s.locks = [] ∧ s.closed = [] ∧ s.dropped = []
  start call := call = .done none
  exec i := AccessCall.exec vaultId userId i
  env e s := e.apply vaultId userId s

end

/-! ### What is to hold -/

/-- The approved requests. -/
def AccessStore.approvedRequests (s : AccessStore) : List Uuid :=
  (s.requests.select (fun r => decide (r.status = .approved))).map AccessRequestRow.id

/-- A membership that expires is there only while one request is approved. A request that was over
once is not approved and its membership is gone. Expiry passes removed no membership but those
that an approval had created with an expiry. -/
structure AccessStore.Agrees (vaultId userId : Uuid) (s : AccessStore) : Prop where
  approved : s.timeBoxed vaultId userId = true → ∃ rid, s.approvedRequests = [rid]
  closed : ∀ rid ∈ s.closed, rid ∉ s.approvedRequests
    ∧ (s.hasMember vaultId userId = true → s.columns.origin ≠ .approved rid)
  dropped : ∀ c ∈ s.dropped, c.expiresAt.isSome = true ∧ ∃ rid, c.origin = .approved rid

/-! ### Writes that nothing has overtaken -/

/-- The membership that the approval of a request has created is there. -/
def AccessStore.grants (vaultId userId : Uuid) (s : AccessStore) (rid : Uuid) : Bool :=
  s.hasMember vaultId userId && decide (s.columns.origin = .approved rid)

/-- An approval commits while its request is not over and no other is approved. A request is
denied, cancelled or marked as expired while there is no membership from its approval, and revoked
when there is none but the one that the revocation deletes. -/
def AccessCall.NotOvertaken (vaultId userId : Uuid) (now : DateTime) (s : AccessStore) :
    AccessCall → Prop
  | .approveCommit g => (s.requests.get? g.requestId).any (fun r => !r.status.closed) = true
      ∧ ∀ rid ∈ s.approvedRequests, rid = g.requestId
  | .denyUpdate _ rid _ _ | .cancelUpdate rid => s.grants vaultId userId rid = false
  | .revokeCommit _ rid _ deleted _ => deleted = true ∨ s.grants vaultId userId rid = false
  | .expiryUpdate => ∀ r ∈ s.requests.rows, AccessStore.windowClosed now r = true →
      s.grants vaultId userId r.id = false
  | _ => True

def notOvertaken (vaultId userId : Uuid) (p : Pool AccessStore AccessCall) :
    PoolStep AccessStep AccessEvent → Prop
  | .run i (.next now) => (p.threads i).NotOvertaken vaultId userId now p.shared
  | _ => True

/-! ### The invariant -/

namespace AccessStore

/-- A request is approved, and no other is. -/
def OnlyApproved (s : AccessStore) (rid : Uuid) : Prop :=
  (∃ r, s.requests.get? rid = some r ∧ r.status = .approved)
    ∧ ∀ k r, s.requests.get? k = some r → r.status = .approved → k = rid

/-- What is kept of the store. -/
structure Sound (vaultId userId : Uuid) (s : AccessStore) : Prop where
  window : s.timeBoxed vaultId userId = true →
    ∃ rid, s.columns.origin = .approved rid ∧ s.OnlyApproved rid
  origin : s.hasMember vaultId userId = true → ∀ rid, s.columns.origin = .approved rid →
    s.columns.expiresAt.isSome = true
  closed : ∀ rid ∈ s.closed, ∃ r, s.requests.get? rid = some r ∧ r.status.closed = true
  dropped : ∀ c ∈ s.dropped, c.expiresAt.isSome = true ∧ ∃ rid, c.origin = .approved rid

variable {vaultId userId : Uuid} {s s' : AccessStore} {rid : Uuid}

theorem mem_approvedRequests :
  rid ∈ s.approvedRequests ↔ ∃ r, s.requests.get? rid = some r ∧ r.status = .approved
  := by
  constructor
  · intro h
    obtain ⟨r, hr, rfl⟩ := List.mem_map.mp h
    obtain ⟨hmem, hstatus⟩ := List.mem_filter.mp hr
    exact ⟨r, Table.get?_of_mem hmem, of_decide_eq_true hstatus⟩
  · rintro ⟨r, hr, hstatus⟩
    rw [← Table.key_of_get? hr]
    exact List.mem_map_of_mem (List.mem_filter.mpr
      ⟨Table.mem_of_get? hr, decide_eq_true hstatus⟩)

theorem OnlyApproved.approvedRequests_eq (h : s.OnlyApproved rid) :
  s.approvedRequests = [rid]
  := by
  have hnodup : s.approvedRequests.Nodup :=
    s.requests.nodup.sublist (List.filter_sublist.map key)
  apply List.perm_singleton.mp
  apply (List.perm_ext_iff_of_nodup hnodup (List.nodup_singleton rid)).mpr
  intro k
  rw [mem_approvedRequests, List.mem_singleton]
  constructor
  · rintro ⟨r, hr, hstatus⟩
    exact h.2 k r hr hstatus
  · rintro rfl
    exact h.1

/-- A membership from the approval of a request is there only while that request is approved. -/
theorem Sound.of_grants (h : s.Sound vaultId userId) (hgrants : s.grants vaultId userId rid = true) :
  s.OnlyApproved rid
  := by
  rw [grants, Bool.and_eq_true, decide_eq_true_eq] at hgrants
  obtain ⟨hmember, horigin⟩ := hgrants
  obtain ⟨rid', horigin', honly⟩ := h.window
    (Bool.and_eq_true _ _ ▸ ⟨hmember, h.origin hmember rid horigin⟩)
  cases horigin.symm.trans horigin'
  exact honly

/-- What is kept implies what is to hold. -/
theorem Sound.agrees (h : s.Sound vaultId userId) :
  s.Agrees vaultId userId
  := by
  refine ⟨?_, ?_, h.dropped⟩
  · intro hbox
    obtain ⟨rid, -, honly⟩ := h.window hbox
    exact ⟨rid, honly.approvedRequests_eq⟩
  · intro rid hclosed
    have hnot : rid ∉ s.approvedRequests := by
      intro hmem
      obtain ⟨r, hr, hstatus⟩ := mem_approvedRequests.mp hmem
      obtain ⟨r', hr', hover⟩ := h.closed rid hclosed
      cases hr.symm.trans hr'
      rw [hstatus] at hover
      cases hover
    refine ⟨hnot, ?_⟩
    intro hmember horigin
    have honly : s.OnlyApproved rid :=
      h.of_grants (Bool.and_eq_true _ _ ▸ ⟨hmember, decide_eq_true horigin⟩)
    exact hnot (mem_approvedRequests.mpr honly.1)

/-- Locks, and what the tables say of others, do not matter. -/
theorem Sound.of_eq (h : s.Sound vaultId userId)
    (hmember : s'.hasMember vaultId userId = s.hasMember vaultId userId)
    (hcolumns : s'.columns = s.columns) (hrequests : s'.requests = s.requests)
    (hclosed : s'.closed = s.closed) (hdropped : s'.dropped = s.dropped) :
  s'.Sound vaultId userId
  := by
  have hbox : s'.timeBoxed vaultId userId = s.timeBoxed vaultId userId := by
    rw [timeBoxed, timeBoxed, hmember, hcolumns]
  constructor
  · intro hb
    obtain ⟨rid, horigin, honly⟩ := h.window (hbox ▸ hb)
    refine ⟨rid, hcolumns ▸ horigin, ?_⟩
    unfold OnlyApproved
    rw [hrequests]
    exact honly
  · rw [hmember, hcolumns]
    exact h.origin
  · rw [hclosed, hrequests]
    exact h.closed
  · rw [hdropped]
    exact h.dropped

/-! ### What statements write -/

theorem hasMember_removed :
  (s.removed vaultId userId).hasMember vaultId userId = false
  := by simp [hasMember, removed]

theorem hasMember_upserted (m : VaultMember) (c : MemberColumns) :
  (s.upserted vaultId userId m c).hasMember vaultId userId = true
  := by
  simp only [hasMember, upserted, Table.get?_upsert, key_member, if_true]
  cases s.db.vaultMembers.get? (vaultId, userId) <;> rfl

/-- Removing the membership. -/
theorem Sound.removed (h : s.Sound vaultId userId) :
  (s.removed vaultId userId).Sound vaultId userId
  := by
  refine ⟨?_, ?_, h.closed, h.dropped⟩
  · intro hbox
    rw [timeBoxed, hasMember_removed] at hbox
    cases hbox
  · intro hmember
    rw [hasMember_removed] at hmember
    cases hmember

/-- A membership that was not there is granted for good; one that was there keeps its expiry. -/
theorem Sound.upserted (h : s.Sound vaultId userId) (m : VaultMember) :
  (s.upserted vaultId userId m ⟨none, .granted⟩).Sound vaultId userId
  := by
  cases hmember : s.hasMember vaultId userId with
  | true =>
      refine h.of_eq ?_ ?_ rfl rfl rfl
      · rw [hasMember_upserted, hmember]
      · simp [AccessStore.upserted, hmember]
  | false =>
      have hcolumns : (s.upserted vaultId userId m ⟨none, .granted⟩).columns = ⟨none, .granted⟩ := by
        simp [AccessStore.upserted, hmember]
      refine ⟨?_, ?_, h.closed, h.dropped⟩
      · rw [timeBoxed, hcolumns, Bool.and_eq_true]
        rintro ⟨-, hsome⟩
        cases hsome
      · rw [hcolumns]
        intro _ rid heq
        cases heq

theorem Sound.inserted (h : s.Sound vaultId userId) (m : VaultMember) :
  (s.inserted vaultId userId m ⟨none, .granted⟩).Sound vaultId userId
  := by
  unfold AccessStore.inserted
  split
  · exact h
  · exact h.upserted m

/-- The status a request is found with after it was set. -/
theorem get?_decided {status : AccessStatus} {f : AccessRequestRow → AccessRequestRow}
    {hf : ∀ r, key (f r) = key r} {k : Uuid} {r : AccessRequestRow}
    (hr : (s.decided rid status f hf).requests.get? k = some r) :
  (k = rid ∧ r.status = status) ∨ (k ≠ rid ∧ s.requests.get? k = some r)
  := by
  simp only [decided, Table.get?_set] at hr
  split at hr
  · rename_i hk
    obtain ⟨r', -, rfl⟩ := Option.map_eq_some_iff.mp hr
    exact .inl ⟨hk, rfl⟩
  · rename_i hk
    exact .inr ⟨hk, hr⟩

/-- A request is over, and there is no membership from its approval. -/
theorem Sound.decided (h : s.Sound vaultId userId) {status : AccessStatus}
    {f : AccessRequestRow → AccessRequestRow} {hf : ∀ r, key (f r) = key r}
    (hstatus : status.closed = true) (hgrants : s.grants vaultId userId rid = false) :
  (s.decided rid status f hf).Sound vaultId userId
  := by
  refine ⟨?_, h.origin, ?_, h.dropped⟩
  · intro hbox
    obtain ⟨rid', horigin, ⟨r, hr, hr'⟩, hothers⟩ := h.window hbox
    have hmember := (Bool.and_eq_true _ _ ▸ hbox : s.hasMember vaultId userId = true ∧ _).1
    have hne : rid' ≠ rid := by
      rintro rfl
      rw [grants, hmember, decide_eq_true horigin] at hgrants
      cases hgrants
    refine ⟨rid', horigin, ⟨r, ?_, hr'⟩, ?_⟩
    · simp only [AccessStore.decided, Table.get?_set, if_neg hne]
      exact hr
    · intro k r₁ hr₁ happroved
      rcases get?_decided hr₁ with ⟨-, heq⟩ | ⟨-, hget⟩
      · rw [← heq, happroved] at hstatus
        cases hstatus
      · exact hothers k r₁ hget happroved
  · intro rid' hclosed
    have hover : ∀ r, s.requests.get? rid' = some r → (rid' = rid ∨ r.status.closed = true) →
        ∃ r', (s.decided rid status f hf).requests.get? rid' = some r' ∧ r'.status.closed = true := by
      intro r hr hor
      simp only [AccessStore.decided, Table.get?_set]
      split
      · rename_i heq
        rw [← heq, hr]
        exact ⟨_, rfl, hstatus⟩
      · rename_i hne
        exact ⟨r, hr, hor.resolve_left hne⟩
    simp only [AccessStore.decided] at hclosed
    split at hclosed
    · rename_i hsome
      rw [Bool.and_eq_true] at hsome
      rcases List.mem_cons.mp hclosed with rfl | hclosed
      · obtain ⟨r, hr⟩ := Option.isSome_iff_exists.mp hsome.2
        exact hover r hr (.inl rfl)
      · obtain ⟨r, hr, hr'⟩ := h.closed rid' hclosed
        exact hover r hr (.inr hr')
    · obtain ⟨r, hr, hr'⟩ := h.closed rid' hclosed
      exact hover r hr (.inr hr')

/-- The windows of approved requests have closed, and there is no membership from their approval. -/
theorem Sound.expired (h : s.Sound vaultId userId) {now : DateTime}
    (hgrants : ∀ r ∈ s.requests.rows, windowClosed now r = true → s.grants vaultId userId r.id = false) :
  (s.expired now).Sound vaultId userId
  := by
  refine ⟨?_, h.origin, ?_, h.dropped⟩
  · intro hbox
    obtain ⟨rid, horigin, ⟨r, hr, happroved⟩, hothers⟩ := h.window hbox
    have hmember := (Bool.and_eq_true _ _ ▸ hbox : s.hasMember vaultId userId = true ∧ _).1
    have hopen : ¬ windowClosed now r = true := by
      intro hover
      have hnot := hgrants r (Table.mem_of_get? hr) hover
      have hkey : r.id = rid := Table.key_of_get? hr
      rw [grants, hmember, hkey, decide_eq_true horigin] at hnot
      cases hnot
    refine ⟨rid, horigin, ⟨r, ?_, happroved⟩, ?_⟩
    · simp only [AccessStore.expired, Table.get?_update, hr, Option.map_some, if_neg hopen]
    · intro k r₁ hr₁ happroved₁
      simp only [AccessStore.expired, Table.get?_update] at hr₁
      obtain ⟨r₂, hr₂, rfl⟩ := Option.map_eq_some_iff.mp hr₁
      split at happroved₁
      · cases happroved₁
      · exact hothers k r₂ hr₂ happroved₁
  · intro rid hclosed
    have hstays : ∀ r, s.requests.get? rid = some r → (windowClosed now r = true ∨ r.status.closed = true) →
        ∃ r', (s.expired now).requests.get? rid = some r' ∧ r'.status.closed = true := by
      intro r hr hor
      refine ⟨_, by rw [AccessStore.expired, Table.get?_update, hr]; rfl, ?_⟩
      dsimp only
      split
      · rfl
      · rename_i hopen
        exact hor.resolve_left hopen
    rcases List.mem_append.mp hclosed with hclosed | hclosed
    · obtain ⟨r, hr, rfl⟩ := List.mem_map.mp hclosed
      obtain ⟨hmem, hover⟩ := List.mem_filter.mp hr
      exact hstays r (Table.get?_of_mem hmem) (.inl hover)
    · obtain ⟨r, hr, hr'⟩ := h.closed rid hclosed
      exact hstays r hr (.inr hr')

theorem requests_inserted (vaultId userId : Uuid) (s : AccessStore) (m : VaultMember) (c : MemberColumns) :
  (s.inserted vaultId userId m c).requests = s.requests
    ∧ (s.inserted vaultId userId m c).closed = s.closed
    ∧ (s.inserted vaultId userId m c).dropped = s.dropped
  := by
  unfold AccessStore.inserted
  split <;> exact ⟨rfl, rfl, rfl⟩

/-- The membership after an insertion is the one that was there, or the new one. -/
theorem columns_inserted (vaultId userId : Uuid) (s : AccessStore) (m : VaultMember) (c : MemberColumns) :
  (s.hasMember vaultId userId = true ∧ (s.inserted vaultId userId m c).columns = s.columns)
    ∨ (s.inserted vaultId userId m c).columns = c
  := by
  unfold AccessStore.inserted
  cases hmember : s.hasMember vaultId userId with
  | true => exact .inl ⟨rfl, rfl⟩
  | false =>
      right
      simp [AccessStore.upserted, hmember]

/-- A request that is not over is approved, while no other is. -/
theorem Sound.committed (h : s.Sound vaultId userId) {g : Approval}
    (hopen : (s.requests.get? g.requestId).any (fun r => !r.status.closed) = true)
    (hothers : ∀ rid ∈ s.approvedRequests, rid = g.requestId) :
  (g.committed vaultId userId s).Sound vaultId userId
  := by
  obtain ⟨r₀, hr₀, hopen⟩ := Option.any_eq_true _ _ |>.mp hopen
  obtain ⟨hrequests, hclosed, hdropped⟩ := requests_inserted vaultId userId s
    ⟨vaultId, userId, parseVaultRole g.role, none, g.keyVersion⟩
      ⟨some g.expiresAt, .approved g.requestId⟩
  have hget : ∀ k r, (g.committed vaultId userId s).requests.get? k = some r →
      (k = g.requestId ∧ r.status = .approved) ∨ (k ≠ g.requestId ∧ s.requests.get? k = some r) := by
    intro k r hr
    rcases get?_decided hr with hr | ⟨hne, hr⟩
    · exact .inl hr
    · exact .inr ⟨hne, hrequests ▸ hr⟩
  have honly : (g.committed vaultId userId s).OnlyApproved g.requestId := by
    constructor
    · have hsome : ((g.committed vaultId userId s).requests.get? g.requestId).isSome = true := by
        simp only [Approval.committed, AccessStore.decided, Table.get?_set, if_true, hrequests, hr₀]
        rfl
      obtain ⟨r, hr⟩ := Option.isSome_iff_exists.mp hsome
      rcases hget _ _ hr with ⟨-, hstatus⟩ | ⟨hne, -⟩
      · exact ⟨r, hr, hstatus⟩
      · exact absurd rfl hne
    · intro k r hr hstatus
      rcases hget k r hr with ⟨hk, -⟩ | ⟨-, hr⟩
      · exact hk
      · exact hothers k (mem_approvedRequests.mpr ⟨r, hr, hstatus⟩)
  -- the membership is the new one, or one of a request that is approved and so this one
  have horigin : (∃ t, (g.committed vaultId userId s).columns = ⟨t, .approved g.requestId⟩
      ∧ t.isSome = true) ∨ ((g.committed vaultId userId s).columns = s.columns
        ∧ s.hasMember vaultId userId = true) := by
    rcases columns_inserted vaultId userId s
        ⟨vaultId, userId, parseVaultRole g.role, none, g.keyVersion⟩
        ⟨some g.expiresAt, .approved g.requestId⟩ with ⟨hmember, heq⟩ | heq
    · exact .inr ⟨heq, hmember⟩
    · exact .inl ⟨_, heq, rfl⟩
  refine ⟨?_, ?_, ?_, ?_⟩
  · intro hbox
    refine ⟨g.requestId, ?_, honly⟩
    rcases horigin with ⟨t, heq, -⟩ | ⟨heq, hmember⟩
    · rw [heq]
    · have hexpires := (Bool.and_eq_true _ _ ▸ hbox :
        _ ∧ (g.committed vaultId userId s).columns.expiresAt.isSome = true).2
      rw [heq] at hexpires ⊢
      obtain ⟨rid, horigin, happroved⟩ := h.window (Bool.and_eq_true _ _ ▸ ⟨hmember, hexpires⟩)
      rw [horigin, hothers rid (mem_approvedRequests.mpr happroved.1)]
  · intro _ rid hrid
    rcases horigin with ⟨t, heq, hsome⟩ | ⟨heq, hmember⟩
    · rw [heq]
      exact hsome
    · rw [heq] at hrid ⊢
      exact h.origin hmember rid hrid
  · intro rid hmem
    have hmem : rid ∈ s.closed := hclosed ▸ hmem
    obtain ⟨r, hr, hover⟩ := h.closed rid hmem
    have hne : rid ≠ g.requestId := by
      rintro rfl
      cases hr₀.symm.trans hr
      rw [hover] at hopen
      cases hopen
    refine ⟨r, ?_, hover⟩
    simp only [Approval.committed, AccessStore.decided, Table.get?_set, if_neg hne, hrequests]
    exact hr
  · intro c hc
    exact h.dropped c (hdropped ▸ hc)

end AccessStore

/-! ### Runs -/

section
variable {vaultId userId : Uuid} {s s' : AccessStore} {i : ℕ} {now : DateTime}
  {call call' : AccessCall}

theorem AccessStore.Sound.read {α : Type} (hs : s.Sound vaultId userId) {x : Except Error α}
    {k : α → AccessCall} (hread : s.read x k = some (s', call')) :
  s'.Sound vaultId userId
  := by
  cases x with
  | ok a =>
      cases hread
      exact hs
  | error e =>
      cases hread
      exact hs

/-- Ending a transaction, or taking locks, keeps what is kept of the store. -/
theorem AccessStore.Sound.release (hs : s.Sound vaultId userId) :
  (s.release i).Sound vaultId userId
  := hs.of_eq rfl rfl rfl rfl rfl

theorem AccessStore.Sound.lock (hs : s.Sound vaultId userId) (ls : List AccessLock) :
  (s.lock i ls).Sound vaultId userId
  := hs.of_eq rfl rfl rfl rfl rfl

/-- The statements of the handlers that write members. -/
theorem Handler.sound_nextAccess {h h' : Handler} (hs : s.Sound vaultId userId)
    (hnext : h.nextAccess vaultId userId i s = some (s', h')) :
  s'.Sound vaultId userId
  := by
  cases h with
  | select k =>
      cases hnext
      exact hs
  | upsertMember m k =>
      simp only [Handler.nextAccess] at hnext
      split at hnext
      · cases hnext
      · split at hnext
        · cases hnext
          exact hs
        · cases hnext
          exact hs.upserted m
  | deleteMember v u k =>
      simp only [Handler.nextAccess] at hnext
      split at hnext
      · cases hnext
      · cases hnext
        exact hs.removed
  | _ => cases hnext

/-- A revocation deletes the membership, or there is none from the approval. -/
theorem AccessStore.Sound.revoked (hs : s.Sound vaultId userId) {rid decidedBy : Uuid}
    {deleted : Bool} {decidedAt : DateTime}
    (hgrants : deleted = true ∨ s.grants vaultId userId rid = false) :
  (revokedRequest vaultId userId rid decidedBy deleted decidedAt s).Sound vaultId userId
  := by
  unfold revokedRequest
  cases deleted with
  | true =>
      apply hs.removed.decided rfl
      simp only [AccessStore.grants, AccessStore.hasMember_removed, Bool.false_and]
  | false => exact hs.decided rfl (hgrants.resolve_left Bool.false_ne_true)

/-- An expiry pass removes a membership that an approval has created. -/
theorem AccessStore.Sound.dropped_removed (hs : s.Sound vaultId userId)
    (hmember : s.hasMember vaultId userId = true) (hexpires : s.columns.expiresAt.isSome = true) :
  ({ s.removed vaultId userId with dropped := s.columns :: s.dropped }).Sound vaultId userId
  := by
  have hremoved := hs.removed
  refine ⟨hremoved.window, hremoved.origin, hremoved.closed, ?_⟩
  intro c hc
  rcases List.mem_cons.mp hc with rfl | hc
  · obtain ⟨rid, horigin, -⟩ := hs.window (Bool.and_eq_true _ _ ▸ ⟨hmember, hexpires⟩)
    exact ⟨hexpires, rid, horigin⟩
  · exact hs.dropped c hc

/-- The next statement of a call that nothing has overtaken keeps what is kept of the store. -/
theorem AccessCall.sound_next (hs : s.Sound vaultId userId)
    (hfree : call.NotOvertaken vaultId userId now s)
    (hnext : call.next vaultId userId i now s = some (s', call')) :
  s'.Sound vaultId userId
  := by
  cases call with
  | done answer => cases hnext
  | vaults h =>
      obtain ⟨⟨s₁, h₁⟩, hh, heq⟩ := Option.map_eq_some_iff.mp hnext
      cases heq
      exact Handler.sound_nextAccess hs hh
  | require auth teamId rid action => exact hs.read hnext
  | load auth teamId rid action => exact hs.read hnext
  | approveInsert g =>
      simp only [AccessCall.next] at hnext
      split at hnext
      · cases hnext
      · split at hnext
        · split at hnext
          · cases hnext
            exact hs
          · cases hnext
            exact hs.lock _
        · cases hnext
          exact hs
  | approveUpdate g =>
      simp only [AccessCall.next] at hnext
      split at hnext
      · cases hnext
      · cases hnext
        exact hs.lock _
  | approveCommit g =>
      cases hnext
      exact (hs.committed hfree.1 hfree.2).release
  | denyUpdate teamId rid decidedBy note =>
      simp only [AccessCall.next] at hnext
      split at hnext
      · cases hnext
      · cases hnext
        exact hs.decided rfl hfree
  | revokeDelete teamId rid decidedBy =>
      simp only [AccessCall.next] at hnext
      split at hnext
      · split at hnext
        · cases hnext
        · cases hnext
          exact hs.lock _
      · cases hnext
        exact hs
  | revokeUpdate teamId rid decidedBy deleted decidedAt =>
      simp only [AccessCall.next] at hnext
      split at hnext
      · cases hnext
      · cases hnext
        exact hs.lock _
  | revokeCommit teamId rid decidedBy deleted decidedAt =>
      cases hnext
      exact (hs.revoked hfree).release
  | reload teamId rid => exact hs.read hnext
  | cancelLoad auth teamId rid => exact hs.read hnext
  | cancelUpdate rid =>
      simp only [AccessCall.next] at hnext
      split at hnext
      · cases hnext
      · cases hnext
        exact hs.decided rfl hfree
  | expiryDelete =>
      simp only [AccessCall.next] at hnext
      split at hnext
      · rename_i hexpires
        split at hnext
        · cases hnext
        · cases hnext
          rw [Bool.and_eq_true] at hexpires
          obtain ⟨t, ht, -⟩ := Option.any_eq_true _ _ |>.mp hexpires.2
          exact hs.dropped_removed hexpires.1 (by rw [ht]; rfl)
      · cases hnext
        exact hs
  | expiryUpdate =>
      simp only [AccessCall.next] at hnext
      split at hnext
      · cases hnext
      · cases hnext
        exact hs.expired hfree

/-- What else happens keeps what is kept of the store. -/
theorem AccessEvent.sound_apply (hs : s.Sound vaultId userId) {e : AccessEvent}
    (h : e.apply vaultId userId s = some s') :
  s'.Sound vaultId userId
  := by
  cases e with
  | request row =>
      simp only [AccessEvent.apply] at h
      split at h
      · cases h
      · obtain ⟨requests, hins, rfl⟩ := Option.map_eq_some_iff.mp h
        have hget := Table.get?_insert hins
        have hnone := Table.insert_isSome_iff.mp (Option.isSome_iff_exists.mpr ⟨_, hins⟩)
        rw [key_accessRequest] at hnone
        refine ⟨?_, hs.origin, ?_, hs.dropped⟩
        · intro hbox
          obtain ⟨rid, horigin, ⟨r, hr, happroved⟩, hothers⟩ := hs.window hbox
          have hne : rid ≠ row.id := by
            rintro rfl
            rw [hr] at hnone
            cases hnone
          refine ⟨rid, horigin, ⟨r, ?_, happroved⟩, ?_⟩
          · rw [hget, key_accessRequest, if_neg hne]
            exact hr
          · intro k r₁ hr₁ happroved₁
            rw [hget] at hr₁
            split at hr₁
            · cases hr₁
              cases happroved₁
            · exact hothers k r₁ hr₁ happroved₁
        · intro rid hclosed
          obtain ⟨r, hr, hover⟩ := hs.closed rid hclosed
          have hne : rid ≠ row.id := by
            rintro rfl
            rw [hr] at hnone
            cases hnone
          refine ⟨r, ?_, hover⟩
          rw [hget, key_accessRequest, if_neg hne]
          exact hr
  | join m =>
      simp only [AccessEvent.apply] at h
      split at h
      · cases h
      · cases h
        exact hs.inserted m
  | remove =>
      simp only [AccessEvent.apply] at h
      split at h
      · cases h
      · cases h
        exact hs.removed
  | others db =>
      simp only [AccessEvent.apply] at h
      split at h
      · rename_i hsame
        cases h
        exact hs.of_eq hsame rfl rfl rfl rfl
      · cases h

end

section
variable [Primitives] {vaultId userId : Uuid}

/-- A step of a call that nothing has overtaken keeps what is kept of the store. -/
theorem AccessCall.sound_exec {s s' : AccessStore} {i : ℕ} {e : AccessStep}
    {call call' : AccessCall} (hs : s.Sound vaultId userId)
    (hfree : ∀ now, e = .next now → call.NotOvertaken vaultId userId now s)
    (hexec : call.exec vaultId userId i e s = some (s', call')) :
  s'.Sound vaultId userId
  := by
  cases e with
  | next now => exact AccessCall.sound_next hs (hfree now rfl) hexec
  | drop =>
      cases hexec
      exact hs.release
  | _ =>
      cases call with
      | done answer =>
          cases hexec
          exact hs
      | vaults h =>
          cases h with
          | done result =>
              cases hexec
              exact hs
          | _ => cases hexec
      | _ => cases hexec

end

/-! ### A window that closes, and a denial that comes too late -/

instance [Primitives] (vaultId userId : Uuid) (now : DateTime) (s : AccessStore) :
    ∀ call : AccessCall, Decidable (call.NotOvertaken vaultId userId now s)
  | .approveCommit _ => inferInstanceAs (Decidable (_ ∧ _))
  | .denyUpdate _ rid _ _ | .cancelUpdate rid =>
    inferInstanceAs (Decidable (s.grants vaultId userId rid = false))
  | .revokeCommit _ rid _ deleted _ =>
    inferInstanceAs (Decidable (deleted = true ∨ s.grants vaultId userId rid = false))
  | .expiryUpdate => inferInstanceAs (Decidable (∀ r ∈ s.requests.rows, _))
  | .done _ | .vaults _ | .require _ _ _ _ | .load _ _ _ _ | .approveInsert _ | .approveUpdate _
  | .revokeDelete _ _ _ | .revokeUpdate _ _ _ _ _ | .reload _ _ | .cancelLoad _ _ _
  | .expiryDelete => .isTrue trivial

instance [Primitives] (vaultId userId : Uuid) (p : Pool AccessStore AccessCall) :
    ∀ l : PoolStep AccessStep AccessEvent, Decidable (notOvertaken vaultId userId p l)
  | .run i (.next now) =>
    inferInstanceAs (Decidable ((p.threads i).NotOvertaken vaultId userId now p.shared))
  | .run _ (.approve _ _ _ _) | .run _ (.deny _ _ _ _) | .run _ (.revoke _ _ _)
  | .run _ (.cancel _ _ _) | .run _ .expiryPass | .run _ (.upsertMember _ _)
  | .run _ (.removeMember _) | .run _ .drop | .env _ => .isTrue trivial

open Symbolic

/-- A team vault. User 5 may approve requests, and user 7 asks for access. -/
def askedVault : AccessStore where
  db :=
    { users := ⟨[⟨5, "approver", none, none, false, false, 0, 0⟩,
        ⟨7, "member", none, none, false, false, 0, 0⟩], by decide⟩
      vaults := .single ⟨9, .team, some 3, "Shared", 1, 0, 0, false, false, false⟩
      vaultMembers := .empty
      teamMembers := ⟨[⟨3, 5, "admin", some ["access.approve"]⟩, ⟨3, 7, "member", some []⟩],
        by decide⟩
      teamPolicies := .empty
      entities := .empty
      historyEntries := .empty
      sessionLogs := .empty
      bridgeScope _ _ := false
      directModes _ _ _ := none }
  columns := ⟨none, .granted⟩
  requests := .empty
  locks := []
  closed := []
  dropped := []

def noAccessCalls : Pool AccessStore AccessCall := ⟨askedVault, fun _ => .done none⟩

theorem init_noAccessCalls :
  (accessCalls 9 7).system.init noAccessCalls
  := ⟨⟨rfl, fun _ => rfl, rfl, rfl, rfl⟩, fun _ => rfl⟩

/-- User 7 asks for an hour, and user 5 is about to approve it. -/
def askAndApprove : List (PoolStep AccessStep AccessEvent) :=
  [.env (.request ⟨100, 3, "viewer", 1, "", .pending, none, none, none, none, 0⟩),
    .run 0 (.approve ⟨5, 0, none⟩ 3 100 ⟨none, none, none⟩), .run 0 (.next 0), .run 0 (.next 0)]

/-- The rest of the approval. -/
def approveNow : List (PoolStep AccessStep AccessEvent) := List.replicate 4 (.run 0 (.next 0))

/-- An expiry pass after two hours. -/
def passLater : List (PoolStep AccessStep AccessEvent) :=
  [.run 1 .expiryPass, .run 1 (.next (2 * hour)), .run 1 (.next (2 * hour))]

/-- A denial that has read the request before the approval, and writes it afterwards. -/
def denyLate : List (PoolStep AccessStep AccessEvent) :=
  [.run 1 (.deny ⟨5, 0, none⟩ 3 100 ⟨none, none, none⟩), .run 1 (.next 0), .run 1 (.next 0)]
    ++ approveNow ++ [.run 1 (.next 0)]

end Termoso.Server
