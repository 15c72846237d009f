import Termoso.Desktop.Rotation

/-!
# One executor, one end

A job is to be taken by one member, and to end once.  An update looks at the job when it comes in
and writes it later, whatever has become of it meanwhile.  In the runs in which the job still
passes what was checked when it is written, a claim that is answered is the claim of the member
the job names, a job that has ended is not written again, and an entity is stamped by the update
that finishes its job.
-/

namespace Termoso.Server

/-- A pool of updates. -/
abbrev JobPool := Pool JobDb (Option UpdateThread)

abbrev JobPoolStep := PoolStep UpdateEvent JobEvent

/-! ### What is to hold -/

/-- When an entity was last rotated. -/
def JobDb.rotatedAt (s : JobDb) (entityId : Uuid) : Option DateTime :=
  (s.db.entities.get? entityId).bind SyncEntity.secretRotatedAt

/-- An update to `running` that was answered is that of the member whom the job names. -/
def ClaimsNamed (p : JobPool) : Prop :=
  ∀ i t, p.threads i = some t → t.req.asked = some .running → t.answered = true →
    (p.shared.jobs.get? t.id).bind RotationJob.claimedBy = some t.auth.userId

/-- A device that is given a job for an SSH key takes it. -/
def KeyJobsAccepted (s : JobDb) : Prop :=
  ∀ job ∈ s.jobs.rows, job.entityKind = "ssh_key" →
    ∃ accepted, Desktop.acceptJob s.jobs.rows job.id = .ok accepted

/-- Jobs that have ended keep their status and the time they ended at. -/
def EndsKept (s s' : JobDb) : Prop :=
  ∀ id job, s.jobs.get? id = some job → job.status.finished = true →
    ∃ job', s'.jobs.get? id = some job' ∧ job'.status = job.status
      ∧ job'.finishedAt = job.finishedAt

/-- An entity that is stamped has a job that is done now, and was not before. -/
def StampsFinish (s s' : JobDb) : Prop :=
  ∀ entityId, s'.rotatedAt entityId ≠ s.rotatedAt entityId →
    ∃ id job job', s.jobs.get? id = some job ∧ job.entityId = entityId
      ∧ job.status.finished = false ∧ s'.jobs.get? id = some job' ∧ job'.status = .done

/-! ### Updates that are not overtaken -/

/-- An update that writes a job finds it as it may: not finished, and not taken by another member if
it is a claim. -/
def UpdateThread.unraced (s : JobDb) (t : UpdateThread) : Bool :=
  match t.pc with
  | .write _ status => (s.jobs.get? t.id).all (fun job =>
      !job.status.finished && claimable job status t.auth.userId)
  | _ => true

/-- No update writes a job that was taken or finished since it was read, and no job is for an SSH
key. -/
def unraced (p : JobPool) : JobPoolStep → Bool
  | .run i (.next _) => (p.threads i).all (UpdateThread.unraced p.shared)
  | .env (.create _ _ req _ _) => (p.shared.db.rotatable req).all (fun e => decide (e.kind ≠ "ssh_key"))
  | _ => true

/-! ### The invariant -/

/-- A job that is pending is taken by nobody, one that runs is taken by somebody, and none is for an
SSH key. -/
structure RotationJob.Sound (job : RotationJob) : Prop where
  pending : job.status = .pending → job.claimedBy = none
  running : job.status = .running → job.claimedBy.isSome = true
  kind : job.entityKind ≠ "ssh_key"

/-- Every job is sound. -/
def JobDb.Sound (s : JobDb) : Prop := ∀ id job, s.jobs.get? id = some job → job.Sound

/-- The job that an update read is there, and about the same entity. -/
def UpdateThread.Found (s : JobDb) (t : UpdateThread) (cur : RotationJob) : Prop :=
  ∃ job, s.jobs.get? t.id = some job ∧ job.entityId = cur.entityId

/-- The job that an update has written, not committed, is open and names no other member. -/
def UpdateThread.Writes (s : JobDb) (t : UpdateThread) (status : JobStatus)
    (entityId : Option Uuid) : Prop :=
  ∃ job, s.jobs.get? t.id = some job ∧ job.status.finished = false
    ∧ claimable job status t.auth.userId = true ∧ ∀ e ∈ entityId, status = .done ∧ e = job.entityId

/-- A claim is that of the member whom the job names. -/
def UpdateThread.Named (s : JobDb) (t : UpdateThread) : Prop :=
  t.req.asked = some .running → (s.jobs.get? t.id).bind RotationJob.claimedBy = some t.auth.userId

/-- What an update relies on, at each of its statements. -/
def UpdateThread.Relies (s : JobDb) (t : UpdateThread) : Prop :=
  match t.pc with
  | .read => True
  | .authorize cur status => t.req.asked = some status ∧ t.Found s cur
  | .write cur status => t.req.asked = some status ∧ t.Found s cur
  | .stamp cur status _ => t.req.asked = some status ∧ t.Writes s status (some cur.entityId)
  | .commit status _ entityId => t.req.asked = some status ∧ t.Writes s status entityId
  | .reload => t.Named s
  | .done (.ok _) => t.Named s
  | .done (.error _) => True

/-- The jobs that a thread has locked: the one it updates, while its transaction lasts. -/
def Locks (i : ℕ) (s : JobDb) (t : Option UpdateThread) : Prop :=
  ∀ id, s.locks id = some i ↔ ∃ t' ∈ t, t'.id = id ∧ t'.pc.inTransaction = true

/-- What is known of a thread. -/
def Asserts (i : ℕ) (s : JobDb) (t : Option UpdateThread) : Prop :=
  Locks i s t ∧ ∀ t' ∈ t, t'.Relies s

/-! ### Steps of others -/

/-- What a step of another thread leaves to thread `i`: its locks, the jobs it has locked, and the
entities and members that jobs name. -/
structure Leaves (i : ℕ) (s s' : JobDb) : Prop where
  locks : ∀ id, s'.locks id = some i ↔ s.locks id = some i
  jobs : ∀ id job, s.jobs.get? id = some job → ∃ job', s'.jobs.get? id = some job'
    ∧ job'.entityId = job.entityId ∧ (∀ u, job.claimedBy = some u → job'.claimedBy = some u)
    ∧ (s.locks id = some i → job' = job)

section
variable {i : ℕ} {s s' : JobDb} {t : UpdateThread} {cur : RotationJob} {status : JobStatus}
  {entityId : Option Uuid}

theorem named_of_leaves (h : Leaves i s s') (ht : t.Named s) :
  t.Named s'
  := by
  intro hrunning
  obtain ⟨job, hjob, hclaimed⟩ := Option.bind_eq_some_iff.mp (ht hrunning)
  obtain ⟨job', hjob', -, hclaimed', -⟩ := h.jobs t.id job hjob
  rw [hjob']
  exact hclaimed' _ hclaimed

theorem found_of_leaves (h : Leaves i s s') (ht : t.Found s cur) :
  t.Found s' cur
  := by
  obtain ⟨job, hjob, hentity⟩ := ht
  obtain ⟨job', hjob', hentity', -, -⟩ := h.jobs t.id job hjob
  exact ⟨job', hjob', hentity'.trans hentity⟩

theorem writes_of_leaves (h : Leaves i s s') (hlock : s.locks t.id = some i)
    (ht : t.Writes s status entityId) :
  t.Writes s' status entityId
  := by
  obtain ⟨job, hjob, hwrites⟩ := ht
  obtain ⟨job', hjob', -, -, hsame⟩ := h.jobs t.id job hjob
  obtain rfl := hsame hlock
  exact ⟨job', hjob', hwrites⟩

/-- What is known of a thread stays so under the steps of others. -/
theorem asserts_of_leaves {t : Option UpdateThread} (h : Leaves i s s') (ht : Asserts i s t) :
  Asserts i s' t
  := by
  obtain ⟨hlocks, hrelies⟩ := ht
  refine ⟨fun id => (h.locks id).trans (hlocks id), ?_⟩
  intro t' ht'
  have hlocked : t'.pc.inTransaction = true → s.locks t'.id = some i := fun hin =>
    (hlocks t'.id).mpr ⟨t', ht', rfl, hin⟩
  have hrelies' := hrelies t' ht'
  rw [UpdateThread.Relies] at hrelies' ⊢
  cases hpc : t'.pc with
  | read => trivial
  | authorize cur status =>
      rw [hpc] at hrelies'
      exact ⟨hrelies'.1, found_of_leaves h hrelies'.2⟩
  | write cur status =>
      rw [hpc] at hrelies'
      exact ⟨hrelies'.1, found_of_leaves h hrelies'.2⟩
  | stamp cur status now =>
      rw [hpc] at hrelies' hlocked
      exact ⟨hrelies'.1, writes_of_leaves h (hlocked rfl) hrelies'.2⟩
  | commit status now entityId =>
      rw [hpc] at hrelies' hlocked
      exact ⟨hrelies'.1, writes_of_leaves h (hlocked rfl) hrelies'.2⟩
  | reload =>
      rw [hpc] at hrelies'
      exact named_of_leaves h hrelies'
  | done result =>
      rw [hpc] at hrelies'
      cases result with
      | error e => trivial
      | ok job => exact named_of_leaves h hrelies'

/-! ### What a step does -/

/-- What a step does to the shared state: it keeps jobs sound, it keeps ends, it stamps the entities
of jobs that it finishes, and leaves to other threads what they rely on. -/
structure Advances (others : ℕ → Prop) (s s' : JobDb) : Prop where
  sound : s'.Sound
  leaves : ∀ j, others j → Leaves j s s'
  ends : EndsKept s s'
  stamps : StampsFinish s s'

theorem leaves_of_jobs (hjobs : s'.jobs = s.jobs) (hlocks : ∀ id, s'.locks id = some i ↔ s.locks id = some i) :
  Leaves i s s'
  := by
  refine ⟨hlocks, fun id job hjob => ⟨job, ?_, rfl, fun _ h => h, fun _ => rfl⟩⟩
  rw [hjobs]
  exact hjob

variable {others : ℕ → Prop}

/-- A step that writes neither jobs nor entities. -/
theorem advances_of_jobs (hs : s.Sound) (hjobs : s'.jobs = s.jobs)
    (hentities : s'.db.entities = s.db.entities)
    (hlocks : ∀ j, others j → ∀ id, s'.locks id = some j ↔ s.locks id = some j) :
  Advances others s s'
  := by
  refine ⟨?_, fun j hj => leaves_of_jobs hjobs (hlocks j hj), ?_, ?_⟩
  · rw [JobDb.Sound, hjobs]
    exact hs
  · intro id job hjob _
    rw [hjobs]
    exact ⟨job, hjob, rfl, rfl⟩
  · intro entityId hne
    rw [JobDb.rotatedAt, hentities] at hne
    exact absurd rfl hne

theorem advances_self (hs : s.Sound) :
  Advances others s s
  := advances_of_jobs hs rfl rfl (fun _ _ _ => Iff.rfl)

/-- A lock taken or given up by thread `i` is no lock of another. -/
theorem locks_update {id : Uuid} {held : Option ℕ} (hbefore : s.locks id = none ∨ s.locks id = some i)
    (hheld : held = none ∨ held = some i) {j : ℕ} (hj : j ≠ i) (id' : Uuid) :
  Function.update s.locks id held id' = some j ↔ s.locks id' = some j
  := by
  by_cases hid : id' = id
  · subst hid
    rw [Function.update_self]
    rcases hbefore with h | h <;> rcases hheld with h' | h' <;> simp [h, h', hj.symm]
  · rw [Function.update_of_ne hid]

/-- A thread goes on in the state it is in. -/
theorem asserts_of_pc {pc : UpdateAt} (ht : Asserts i s (some t))
    (hin : pc.inTransaction = t.pc.inTransaction)
    (hrelies : UpdateThread.Relies s ⟨t.toUpdateCall, pc⟩) :
  Asserts i s (some ⟨t.toUpdateCall, pc⟩)
  := by
  refine ⟨fun id => ?_, ?_⟩
  · rw [ht.1 id]
    simp [hin]
  · rintro _ ⟨⟩
    exact hrelies

/-- A transaction that ends gives up its lock. -/
theorem locks_released {pc : UpdateAt} (ht : Asserts i s (some t)) (hout : pc.inTransaction = false)
    (hlocks : s'.locks = Function.update s.locks t.id none) :
  Locks i s' (some ⟨t.toUpdateCall, pc⟩)
  := by
  intro id
  rw [hlocks]
  by_cases hid : id = t.id
  · subst hid
    simp [hout]
  · rw [Function.update_of_ne hid, ht.1 id]
    simp [hout, Ne.symm hid]

theorem asked_ne_pending (h : t.req.asked = some status) :
  status ≠ .pending
  := by
  rw [UpdateRotationJobRequest.asked, Option.filter_eq_some_iff] at h
  simpa using h.2

/-- A job is open when it is pending or running. -/
theorem finished_eq_false_iff (status : JobStatus) :
  status.finished = false ↔ status = .pending ∨ status = .running
  := by
  cases status <;> decide

section
variable {job : RotationJob} {call : UpdateCall} {now : DateTime}

/-- A claim that a job lets through is named by the job after it. -/
theorem claimedBy_updated (hjob : job.Sound) (hopen : job.status.finished = false)
    (hclaim : claimable job .running call.auth.userId = true) :
  (job.updated call .running now).claimedBy = some call.auth.userId
  := by
  rcases (finished_eq_false_iff _).mp hopen with hpending | hrunning
  · simp [RotationJob.updated, hjob.pending hpending]
  · have hclaimed : job.claimedBy = some call.auth.userId := by
      simpa [claimable, hrunning] using hclaim
    simp [RotationJob.updated, hclaimed]

theorem sound_updated (hjob : job.Sound) (hstatus : status ≠ .pending) :
  (job.updated call status now).Sound
  := by
  refine ⟨fun h => absurd h hstatus, fun _ => ?_, hjob.kind⟩
  rw [RotationJob.updated]
  cases job.claimedBy <;> rfl

end

/-- The job with an identifier after a commit. -/
theorem get?_committed {call : UpdateCall} {now : DateTime} (id : Uuid) :
  (call.committed s status now entityId).jobs.get? id
    = if id = call.id then (s.jobs.get? call.id).map (fun job => job.updated call status now)
      else s.jobs.get? id
  := by
  rw [UpdateCall.committed, Table.get?_set]

/-- A commit of a job that is still open, by the thread that has locked it. -/
theorem advances_committed {now : DateTime} (hs : s.Sound) (hlock : s.locks t.id = some i)
    (hasked : t.req.asked = some status) (ht : t.Writes s status entityId) :
  Advances (· ≠ i) s (t.committed s status now entityId)
    ∧ t.Named (t.committed s status now entityId)
  := by
  obtain ⟨job, hjob, hopen, hclaim, hentity⟩ := ht
  have hget : (t.committed s status now entityId).jobs.get? t.id
      = some (job.updated t.toUpdateCall status now) := by
    rw [get?_committed, if_pos rfl, hjob, Option.map_some]
  have hother : ∀ id, id ≠ t.id →
      (t.committed s status now entityId).jobs.get? id = s.jobs.get? id := by
    intro id hid
    rw [get?_committed, if_neg hid]
  refine ⟨⟨?_, ?_, ?_, ?_⟩, ?_⟩
  · intro id job' hjob'
    by_cases hid : id = t.id
    · subst hid
      rw [hget] at hjob'
      cases hjob'
      exact sound_updated (hs _ job hjob) (asked_ne_pending hasked)
    · rw [hother id hid] at hjob'
      exact hs id job' hjob'
  · intro j hj
    refine ⟨locks_update (.inr hlock) (.inl rfl) hj, ?_⟩
    intro id job' hjob'
    by_cases hid : id = t.id
    · subst hid
      rw [hjob] at hjob'
      cases hjob'
      refine ⟨_, hget, rfl, ?_, ?_⟩
      · intro u hu
        simp [RotationJob.updated, hu]
      · intro hlock'
        rw [hlock] at hlock'
        exact absurd (Option.some.inj hlock').symm hj
    · rw [hother id hid]
      exact ⟨job', hjob', rfl, fun _ h => h, fun _ => rfl⟩
  · intro id job' hjob' hfinished
    by_cases hid : id = t.id
    · subst hid
      rw [hjob] at hjob'
      cases hjob'
      rw [hopen] at hfinished
      cases hfinished
    · rw [hother id hid]
      exact ⟨job', hjob', rfl, rfl⟩
  · intro e hne
    cases entityId with
    | none => exact absurd rfl hne
    | some e' =>
        obtain ⟨rfl, rfl⟩ := hentity e' rfl
        by_cases he : e = job.entityId
        · exact ⟨t.id, job, _, hjob, he.symm, hopen, hget, rfl⟩
        · apply absurd _ hne
          simp [JobDb.rotatedAt, UpdateCall.committed, Db.stampRotated, he]
  · intro hrunning
    rw [hget]
    rw [hasked] at hrunning
    cases hrunning
    exact claimedBy_updated (hs _ job hjob) hopen hclaim

theorem checkJob_eq_ok {row : Option RotationJob} (h : checkJob t.req row = .ok (cur, status)) :
  row = some cur ∧ t.req.asked = some status
  := by
  rw [checkJob] at h
  simp only [bind_eq_ok, check_eq_ok, pure_eq_ok, Prod.mk.injEq] at h
  obtain ⟨cur', hcur, status', hstatus, -, rfl, rfl⟩ := h
  cases row with
  | none => cases hcur
  | some job =>
      cases hcur
      cases hasked : t.req.asked with
      | none =>
          rw [hasked] at hstatus
          cases hstatus
      | some status =>
          rw [hasked] at hstatus
          cases hstatus
          exact ⟨rfl, rfl⟩

/-- Writing a job that is as it may be takes its lock. -/
theorem advances_write {now : DateTime} {pc : UpdateAt} (hs : s.Sound) (ht : Asserts i s (some t))
    (hpc : t.pc = .write cur status) (hunraced : t.unraced s = true)
    (hexec : t.exec i now s (.write cur status) = some (s', pc)) :
  Advances (· ≠ i) s s' ∧ Asserts i s' (some ⟨t.toUpdateCall, pc⟩)
  := by
  have hrelies := ht.2 t rfl
  rw [UpdateThread.Relies, hpc] at hrelies
  obtain ⟨hasked, job, hjob, hentity⟩ := hrelies
  rw [UpdateCall.exec] at hexec
  split at hexec
  · cases hexec
  rename_i hfree
  split at hexec
  · cases hexec
    exact ⟨advances_self hs, asserts_of_pc ht (by rw [hpc]; rfl) trivial⟩
  cases hexec
  rw [Bool.not_eq_true, Option.isSome_eq_false_iff, Option.isNone_iff_eq_none] at hfree
  rw [UpdateThread.unraced, hpc, hjob] at hunraced
  simp only [Option.all_some, Bool.and_eq_true, Bool.not_eq_true'] at hunraced
  refine ⟨advances_of_jobs hs rfl rfl (fun j hj => locks_update (.inl hfree) (.inr rfl) hj), ?_, ?_⟩
  · intro id
    have hin : ∀ pc : UpdateAt, pc.inTransaction = true →
        (Function.update s.locks t.id (some i) id = some i
          ↔ ∃ t' ∈ some (⟨t.toUpdateCall, pc⟩ : UpdateThread), t'.id = id
              ∧ t'.pc.inTransaction = true) := by
      intro pc hpc'
      by_cases hid : id = t.id
      · subst hid
        simp [hpc']
      · rw [Function.update_of_ne hid, ht.1 id]
        simp [hpc, UpdateAt.inTransaction, Ne.symm hid]
    split
    · exact hin _ rfl
    · exact hin _ rfl
  · rintro _ ⟨⟩
    split
    · rename_i hdone
      refine ⟨hasked, job, hjob, hunraced.1, hunraced.2, ?_⟩
      rintro _ ⟨⟩
      exact ⟨hdone, hentity.symm⟩
    · refine ⟨hasked, job, hjob, hunraced.1, hunraced.2, ?_⟩
      rintro _ ⟨⟩

/-- A statement of an update advances the jobs, and meets what its thread relies on next. -/
theorem advances_exec {now : DateTime} {pc : UpdateAt} (hs : s.Sound) (ht : Asserts i s (some t))
    (hunraced : t.unraced s = true) (hexec : t.exec i now s t.pc = some (s', pc)) :
  Advances (· ≠ i) s s' ∧ Asserts i s' (some ⟨t.toUpdateCall, pc⟩)
  := by
  have hrelies := ht.2 t rfl
  rw [UpdateThread.Relies] at hrelies
  cases hpc : t.pc with
  | read =>
      rw [hpc, UpdateCall.exec] at hexec
      split at hexec
      · cases hexec
        exact ⟨advances_self hs, asserts_of_pc ht (by rw [hpc]; rfl) trivial⟩
      · rename_i hcheck
        cases hexec
        obtain ⟨hjob, hasked⟩ := checkJob_eq_ok hcheck
        exact ⟨advances_self hs, asserts_of_pc ht (by rw [hpc]; rfl) ⟨hasked, _, hjob, rfl⟩⟩
  | authorize cur status =>
      rw [hpc] at hrelies
      rw [hpc, UpdateCall.exec] at hexec
      split at hexec
      · cases hexec
        exact ⟨advances_self hs, asserts_of_pc ht (by rw [hpc]; rfl) trivial⟩
      · cases hexec
        exact ⟨advances_self hs, asserts_of_pc ht (by rw [hpc]; rfl) hrelies⟩
  | write cur status =>
      rw [hpc] at hexec
      exact advances_write hs ht hpc hunraced hexec
  | stamp cur status now' =>
      rw [hpc] at hexec hrelies
      cases hexec
      exact ⟨advances_self hs, asserts_of_pc ht (by rw [hpc]; rfl) hrelies⟩
  | commit status now' entityId =>
      rw [hpc] at hexec hrelies
      cases hexec
      have hlock : s.locks t.id = some i := (ht.1 t.id).mpr ⟨t, rfl, rfl, by rw [hpc]; rfl⟩
      obtain ⟨hadvances, hnamed⟩ := advances_committed hs hlock hrelies.1 hrelies.2
      refine ⟨hadvances, ?_, ?_⟩
      · exact locks_released ht rfl rfl
      · rintro _ ⟨⟩
        exact hnamed
  | reload =>
      rw [hpc] at hexec hrelies
      cases hexec
      refine ⟨advances_self hs, asserts_of_pc ht (by rw [hpc]; rfl) ?_⟩
      cases hjob : s.jobs.get? t.id with
      | none => trivial
      | some job => exact hrelies
  | done result =>
      rw [hpc] at hexec
      cases hexec

/-- A statement that fails gives up the lock of its transaction. -/
theorem advances_fail (hs : s.Sound) (ht : Asserts i s (some t)) :
  Advances (· ≠ i) s (t.fail s t.pc).1
    ∧ Asserts i (t.fail s t.pc).1 (some ⟨t.toUpdateCall, (t.fail s t.pc).2⟩)
  := by
  rw [UpdateCall.fail]
  cases hin : t.pc.inTransaction with
  | false => exact ⟨advances_self hs, asserts_of_pc ht (by rw [hin]; rfl) trivial⟩
  | true =>
      have hlock : s.locks t.id = some i := (ht.1 t.id).mpr ⟨t, rfl, rfl, hin⟩
      rw [if_pos rfl]
      refine ⟨?_, locks_released ht rfl rfl, ?_⟩
      · exact advances_of_jobs hs rfl rfl (fun j hj => locks_update (.inr hlock) (.inl rfl) hj)
      · rintro _ ⟨⟩
        trivial

/-- A step of a thread advances the jobs, and meets what the thread relies on next. -/
theorem advances_run {e : UpdateEvent} {t t' : Option UpdateThread} (hs : s.Sound)
    (ht : Asserts i s t)
    (hunraced : ∀ now, e = .next now → t.all (UpdateThread.unraced s) = true)
    (hexec : updates.exec i e s t = some (s', t')) :
  Advances (· ≠ i) s s' ∧ Asserts i s' t'
  := by
  cases t with
  | none =>
      cases e with
      | receive call =>
          cases hexec
          refine ⟨advances_self hs, fun id => ?_, ?_⟩
          · rw [ht.1 id]
            simp [UpdateAt.inTransaction]
          · rintro _ ⟨⟩
            trivial
      | next now => cases hexec
      | fail => cases hexec
  | some t =>
      cases e with
      | receive call => cases hexec
      | next now =>
          obtain ⟨⟨s₁, pc⟩, hexec', heq⟩ := Option.map_eq_some_iff.mp hexec
          cases heq
          exact advances_exec hs ht (hunraced now rfl) hexec'
      | fail =>
          have hfail : some ((t.fail s t.pc).1, some (⟨t.toUpdateCall, (t.fail s t.pc).2⟩ : UpdateThread))
              = some (s', t') := by
            simp only [updates] at hexec
            split at hexec
            · cases hexec
            · exact hexec
          cases hfail
          exact advances_fail hs ht

/-! ### Creating jobs -/

/-- Inserting jobs leaves those there as they are, and adds pending ones of the kinds of their
entities. -/
theorem insertJobs_eq_ok {teamId userId : Uuid} {note : String} {now : DateTime}
    {targets : List (SyncEntity × Uuid)}
    (h : insertJobs teamId userId note now s targets = .ok s') :
  s'.db = s.db ∧ s'.locks = s.locks
    ∧ (∀ id job, s.jobs.get? id = some job → s'.jobs.get? id = some job)
    ∧ ∀ id job, s'.jobs.get? id = some job → s.jobs.get? id = some job
        ∨ job.status = .pending ∧ job.claimedBy = none ∧ ∃ t ∈ targets, job.entityKind = t.1.kind
  := by
  induction targets generalizing s with
  | nil =>
      cases h
      exact ⟨rfl, rfl, fun _ _ h => h, fun _ _ h => .inl h⟩
  | cons target targets ih =>
      obtain ⟨e, id⟩ := target
      rw [insertJobs] at h
      split at h
      · obtain ⟨hdb, hlocks, hkept, hnew⟩ := ih h
        refine ⟨hdb, hlocks, hkept, fun id' job hjob => (hnew id' job hjob).imp_right ?_⟩
        rintro ⟨hpending, hclaimed, t, ht, hkind⟩
        exact ⟨hpending, hclaimed, t, List.mem_cons_of_mem _ ht, hkind⟩
      · split at h
        · cases h
        · rename_i jobs hinsert
          obtain ⟨hdb, hlocks, hkept, hnew⟩ := ih h
          have hget := Table.get?_insert hinsert
          have hfresh : s.jobs.get? id = none :=
            Table.insert_isSome_iff.mp (Option.isSome_of_eq_some hinsert)
          refine ⟨hdb, hlocks, ?_, ?_⟩
          · intro id' job hjob
            apply hkept
            rw [hget, if_neg]
            · exact hjob
            · rintro rfl
              exact absurd (hfresh.symm.trans hjob) (Option.some_ne_none job).symm
          · intro id' job hjob
            rcases hnew id' job hjob with hold | ⟨hpending, hclaimed, t, ht, hkind⟩
            · rw [hget] at hold
              split at hold
              · cases hold
                exact .inr ⟨rfl, rfl, (e, id), List.mem_cons_self, rfl⟩
              · exact .inl hold
            · exact .inr ⟨hpending, hclaimed, t, List.mem_cons_of_mem _ ht, hkind⟩

/-- A step of the surroundings advances the jobs for every thread. -/
theorem advances_env {x : JobEvent} (hs : s.Sound)
    (hunraced : ∀ auth teamId req now fresh, x = .create auth teamId req now fresh →
      ∀ e ∈ s.db.rotatable req, e.kind ≠ "ssh_key")
    (henv : updates.env x s = some s') :
  Advances (fun _ => True) s s'
  := by
  cases x with
  | others db =>
      cases henv
      exact advances_of_jobs hs rfl rfl (fun _ _ _ => Iff.rfl)
  | create auth teamId req now fresh =>
      have hcreate := toOption_eq_some.mp henv
      rw [createJobs] at hcreate
      simp only [bind_eq_ok, check_eq_ok] at hcreate
      obtain ⟨_, -, -, -, -, -, hinsert⟩ := hcreate
      obtain ⟨hdb, hlocks, hkept, hnew⟩ := insertJobs_eq_ok hinsert
      refine ⟨?_, ?_, ?_, ?_⟩
      · intro id job hjob
        rcases hnew id job hjob with hold | ⟨hpending, hclaimed, t, ht, hkind⟩
        · exact hs id job hold
        · refine ⟨fun _ => hclaimed, ?_, ?_⟩
          · intro hrunning
            rw [hpending] at hrunning
            cases hrunning
          · rw [hkind]
            exact hunraced _ _ _ _ _ rfl t.1 (List.of_mem_zip ht).1
      · intro j _
        refine ⟨fun id => by rw [hlocks], ?_⟩
        exact fun id job hjob => ⟨job, hkept id job hjob, rfl, fun _ h => h, fun _ => rfl⟩
      · exact fun id job hjob _ => ⟨job, hkept id job hjob, rfl, rfl⟩
      · intro e hne
        rw [JobDb.rotatedAt, hdb] at hne
        exact absurd rfl hne

end

/-! ### Every run -/

section
variable {p p' : JobPool}

/-- In a run of updates that are not overtaken, jobs are sound, and each thread finds what it relies
on. -/
theorem holds_of_reaches (h : updates.system.Reaches (fun p l => unraced p l = true) p) :
  Threads.Holds JobDb.Sound Asserts p
  := by
  apply Threads.holds_of_reaches _ _ _ h
  · rintro s ⟨hjobs, hlocks⟩
    refine ⟨?_, ?_⟩
    · intro id job hjob
      rw [hjobs] at hjob
      cases hjob
    · rintro i t rfl
      refine ⟨fun id => ?_, ?_⟩
      · rw [hlocks]
        simp
      · rintro _ ⟨⟩
  · intro p i e s' t' hp hunraced hexec
    have hnext : ∀ now, e = .next now → (p.threads i).all (UpdateThread.unraced p.shared) = true := by
      rintro now rfl
      exact hunraced
    obtain ⟨hadvances, hasserts⟩ := advances_run hp.1 (hp.2 i) hnext hexec
    exact ⟨hadvances.sound, hasserts, fun j hj => asserts_of_leaves (hadvances.leaves j hj) (hp.2 j)⟩
  · intro p x s' hp hunraced henv
    have hadvances := advances_env hp.1 (by
      rintro auth teamId req now fresh rfl e he
      exact of_decide_eq_true (List.all_eq_true.mp hunraced e he)) henv
    exact ⟨hadvances.sound, fun j => asserts_of_leaves (hadvances.leaves j trivial) (hp.2 j)⟩

/-- A step keeps ends, and stamps the entities of jobs that it finishes. -/
theorem kept_of_step {l : JobPoolStep} (hp : Threads.Holds JobDb.Sound Asserts p)
    (hunraced : unraced p l = true) (hstep : updates.step p l = some p') :
  EndsKept p.shared p'.shared ∧ StampsFinish p.shared p'.shared
  := by
  cases l with
  | run i e =>
      obtain ⟨⟨s', t'⟩, hexec, rfl⟩ := Option.map_eq_some_iff.mp hstep
      have hnext : ∀ now, e = .next now →
          (p.threads i).all (UpdateThread.unraced p.shared) = true := by
        rintro now rfl
        exact hunraced
      obtain ⟨hadvances, -⟩ := advances_run hp.1 (hp.2 i) hnext hexec
      exact ⟨hadvances.ends, hadvances.stamps⟩
  | env x =>
      obtain ⟨s', henv, rfl⟩ := Option.map_eq_some_iff.mp hstep
      have hadvances := advances_env hp.1 (by
        rintro auth teamId req now fresh rfl e he
        exact of_decide_eq_true (List.all_eq_true.mp hunraced e he)) henv
      exact ⟨hadvances.ends, hadvances.stamps⟩

theorem EndsKept.trans {s s₁ s₂ : JobDb} (h : EndsKept s s₁) (h' : EndsKept s₁ s₂) :
  EndsKept s s₂
  := by
  intro id job hjob hfinished
  obtain ⟨job₁, hjob₁, hstatus₁, hat₁⟩ := h id job hjob hfinished
  obtain ⟨job₂, hjob₂, hstatus₂, hat₂⟩ := h' id job₁ hjob₁ (by rw [hstatus₁]; exact hfinished)
  exact ⟨job₂, hjob₂, hstatus₂.trans hstatus₁, hat₂.trans hat₁⟩

/-- A run keeps ends. -/
theorem endsKept_of_run (h : updates.system.Reaches (fun p l => unraced p l = true) p)
    {ls : List JobPoolStep}
    (hmeets : updates.system.Meets (fun p l => unraced p l = true) p ls)
    (hrun : updates.system.run p ls = some p') :
  EndsKept p.shared p'.shared
  := by
  induction ls generalizing p with
  | nil =>
      cases hrun
      exact fun _ job hjob _ => ⟨job, hjob, rfl, rfl⟩
  | cons l ls ih =>
      obtain ⟨p₁, hp₁, hrun⟩ := Option.bind_eq_some_iff.mp hrun
      have hkept := (kept_of_step (holds_of_reaches h) hmeets.1 hp₁).1
      exact hkept.trans (ih (.step h hmeets.1 hp₁) (hmeets.2 p₁ hp₁) hrun)

/-- In every run of updates that are not overtaken, on jobs that are not for SSH keys: a claim that
was answered is that of the member whom the job names, jobs for SSH keys are taken by the devices
given them, jobs keep their end for ever, and an entity is stamped by an update that finishes its
job. -/
theorem oneExecutor_of_reaches (h : updates.system.Reaches (fun p l => unraced p l = true) p) :
  ClaimsNamed p ∧ KeyJobsAccepted p.shared
    ∧ (∀ ls p', updates.system.Meets (fun p l => unraced p l = true) p ls →
        updates.system.run p ls = some p' → EndsKept p.shared p'.shared)
    ∧ ∀ l p', unraced p l = true → updates.system.step p l = some p' →
        StampsFinish p.shared p'.shared
  := by
  have hholds := holds_of_reaches h
  refine ⟨?_, ?_, fun ls p' hmeets hrun => endsKept_of_run h hmeets hrun,
    fun l p' hunraced hstep => (kept_of_step hholds hunraced hstep).2⟩
  · intro i t ht hrunning hanswered
    have hrelies := (hholds.2 i).2 t ht
    rw [UpdateThread.answered] at hanswered
    split at hanswered
    · rename_i job hdone
      rw [UpdateThread.Relies, hdone] at hrelies
      exact hrelies hrunning
    · cases hanswered
  · intro job hjob hkind
    exact absurd hkind (hholds.1 job.id job (Table.get?_of_mem hjob)).kind

end

/-! ### Two claims -/

/-- A team vault with two editors, and a host and an SSH key in it. -/
def jobVault : JobPool where
  shared :=
    { db :=
        { users := ⟨[⟨1, "ann", none, none, false, false, 0, 0⟩,
            ⟨2, "bob", none, none, false, false, 0, 0⟩], by decide⟩
          vaults := .single ⟨9, .team, some 3, "Shared", 1, 0, 0, false, false, false⟩
          vaultMembers := ⟨[⟨9, 1, .manager, some "k", 1⟩, ⟨9, 2, .editor, some "k", 1⟩], by decide⟩
          teamMembers := ⟨[⟨3, 1, "owner", some ["*"]⟩, ⟨3, 2, "member", some []⟩], by decide⟩
          teamPolicies := .empty
          entities := ⟨[⟨none, 21, "host", 9, 1, 1, false, 1, "", 0, none⟩,
            ⟨none, 22, "ssh_key", 9, 1, 2, false, 1, "", 0, none⟩], by decide⟩
          historyEntries := .empty
          sessionLogs := .empty
          bridgeScope _ _ := false
          directModes _ _ _ := none }
      jobs := .empty
      locks _ := none }
  threads _ := none

theorem init_jobVault :
  updates.system.init jobVault
  := ⟨⟨rfl, fun _ => rfl⟩, fun _ => rfl⟩

/-- A job is created for an entity. -/
def queue (entityId : Uuid) : JobPoolStep := .env (.create ⟨1, 1, none⟩ 3 ⟨9, [entityId], ""⟩ 5 [31])

/-- A member claims the job, up to the write. -/
def claimJob (thread : ℕ) (userId : Uuid) : List JobPoolStep :=
  [.run thread (.receive ⟨⟨userId, 1, none⟩, 31, ⟨"running", none⟩⟩), .run thread (.next 6),
    .run thread (.next 6)]

/-- The claim is written, committed and answered. -/
def writeClaim (thread : ℕ) : List JobPoolStep :=
  [.run thread (.next 7), .run thread (.next 7), .run thread (.next 7)]

/-- A claim of a job for a host, one after another. -/
theorem oneExecutor_claimed :
  ∃ p, updates.system.run jobVault (queue 21 :: claimJob 0 2 ++ writeClaim 0) = some p
    ∧ ClaimsNamed p
  := by
  have hsome : (updates.system.runMeeting (fun p l => unraced p l = true) jobVault
      (queue 21 :: claimJob 0 2 ++ writeClaim 0)).isSome := by decide +kernel
  obtain ⟨p, hrun⟩ := Option.isSome_iff_exists.mp hsome
  refine ⟨p, TransitionSystem.run_of_runMeeting hrun, ?_⟩
  exact (oneExecutor_of_reaches (TransitionSystem.reaches_runMeeting init_jobVault hrun)).1

/-- The pool after two members claimed a job for an SSH key, each having read it before the other's
claim was written. -/
def claimedTwice : JobPool :=
  (updates.system.run jobVault
    (queue 22 :: claimJob 0 1 ++ claimJob 1 2 ++ writeClaim 0 ++ writeClaim 1)).get (by decide +kernel)

/-- Two members claim a job that runs, and are both answered. A job for an SSH key is taken by no
device. -/
theorem claimedTwice_not_named :
  (¬ ∀ p, updates.system.Reachable p → ∀ i t, p.threads i = some t →
      t.req.asked = some .running → t.answered = true →
        ∀ cur, p.shared.jobs.get? t.id = some cur → cur.status = .running →
          cur.claimedBy = some t.auth.userId)
    ∧ ¬ ∀ p, updates.system.Reachable p → KeyJobsAccepted p.shared
  := by
  have hreach : updates.system.Reachable claimedTwice :=
    TransitionSystem.reachable_run init_jobVault _
  have hjob : claimedTwice.shared.jobs.get? 31
      = some ⟨31, 3, 9, 22, "ssh_key", .running, "", none, 1, some 1, 5, 7, none⟩ := by
    decide +kernel
  constructor
  · intro h
    have hclaimed : (claimedTwice.threads 1).any (fun t =>
        decide (t.id = 31 ∧ t.req.asked = some .running ∧ t.auth.userId = 2 ∧ t.answered = true))
          = true := by
      decide +kernel
    obtain ⟨t, ht, hclaimed⟩ := (Option.any_eq_true _ _).mp hclaimed
    obtain ⟨hid, hasked, huser, hanswered⟩ := of_decide_eq_true hclaimed
    have hnamed := h _ hreach 1 t ht hasked hanswered _ (by rw [hid]; exact hjob) rfl
    rw [huser] at hnamed
    cases hnamed
  · intro h
    obtain ⟨accepted, haccepted⟩ := h _ hreach _ (Table.mem_of_get? hjob) rfl
    have hrefused : (Desktop.acceptJob claimedTwice.shared.jobs.rows 31).isOk = false := by
      decide +kernel
    rw [haccepted] at hrefused
    cases hrefused

end Termoso.Server
