import Termoso.Server.StartOver

/-!
# Starting over as announced

The keys and data of an account are to be replaced with the finish token of the latest reset that was
scheduled and not called off, between the time it was announced for and the end of its grace period,
and not while the account is disabled.  A call to finish that fails is to have changed nothing.

The token is compared again when the keys are replaced, so a reset is neither finished with an older
token nor after it was called off.  But the devices have been signed out by then, the clock may have
left the grace period, and nobody looks whether the account is disabled.
-/

namespace Termoso.Server

/-! ### What is to hold -/

/-- A replacement was announced: its finish token is that of the reset that was scheduled last,
with nothing after, the clock showed a time between that announced and the end of the grace
period, and the account was not disabled. -/
structure Replacement.Announced (r : Replacement) : Prop where
  enabled : r.disabled = false
  inTime : ∃ scheduledFor earlier, r.log = .scheduled r.tokenHash scheduledFor :: earlier
    ∧ scheduledFor ≤ r.clock ∧ r.clock < scheduledFor + LINK_GRACE

/-- Every replacement was announced, the keys of an account are those it had or those a replacement
put, rows of an account are gone only where a replacement of its keys deleted them, and a call to
finish that failed has changed nothing. -/
structure AsAnnounced (p : Pool ResetStore ResetThread) : Prop where
  announced : ∀ r ∈ p.shared.replaced, r.Announced
  keys : ∀ k ∈ p.shared.assets.keys,
    k ∈ p.shared.firstKeys ∨ ∃ r ∈ p.shared.replaced, r.userId = k.1 ∧ r.keys = k.2
  data : ∀ row ∈ p.shared.stored,
    row ∈ p.shared.owned ∨ ∃ r ∈ p.shared.replaced, r.userId = row.userId ∧ row ∈ r.gone
  unchanged : ∀ i e, (p.threads i).call = .done (.error e) → (p.threads i).touched = false

/-! ### Calls that are not hindered -/

/-- The next statement of a call to finish finds things as the call found them: after it has
signed out a device, the token is still that of the reset; when the keys are replaced, the account
is not disabled, and the clock has neither gone back before the time the reset was announced for
nor left the grace period; the new device and session have ids of their own. -/
def ResetCall.Unhindered [TokenHash] (d : Drawn) (s : ResetStore) (touched : Bool) :
    ResetCall → Prop
  | .finishUpdate f => touched = true →
      (s.users.get? f.user.id).bind ResetRow.resetFinishHash
        = some (TokenHash.hashToken f.req.token)
  | .finishCommit f _ => (∀ u ∈ s.users.get? f.user.id, u.disabled = false)
      ∧ ∀ scheduledFor ∈ f.user.resetScheduledFor,
        (f.ready ≤ s.now ∨ scheduledFor ≤ s.now) ∧ s.now < scheduledFor + LINK_GRACE
  | .finishWrite _ deviceId true =>
      s.owned.all (fun row => decide (row.table ≠ .devices ∨ row.id ≠ deviceId)) = true
  | .finishInsert _ _ => (s.sessions.get? d.id).isNone = true
  | _ => True

/-- No call to finish is hindered, and none fails after it has changed something. -/
def unhindered [TokenHash] (p : Pool ResetStore ResetThread) : PoolStep ResetStep ResetEnv → Prop
  | .run i (.next d) => (p.threads i).call.Unhindered d p.shared (p.threads i).touched
  | .run i .fail => (p.threads i).touched = false
  | _ => True

/-! ### The invariant -/

/-- The row of a user says what happened to its reset last. -/
def ResetRow.Agrees (u : ResetRow) (drawn : List String) : List ResetEvent → Prop
  | .scheduled finishHash scheduledFor :: _ =>
    u.resetFinishHash = some finishHash ∧ u.resetScheduledFor = some scheduledFor
      ∧ finishHash ∈ drawn
  | _ => u.resetFinishHash = none ∧ u.resetScheduledFor = none

structure ResetStore.Sound (s : ResetStore) : Prop where
  agrees : ∀ u ∈ s.users.rows, u.Agrees s.drawn (s.log u.id)
  exclusive : ∀ id, s.locks.Exclusive id
  announced : ∀ r ∈ s.replaced, r.Announced
  keys : ∀ u ∈ s.users.rows, (u.id, u.keys) ∈ s.firstKeys
    ∨ ∃ r ∈ s.replaced, r.userId = u.id ∧ r.keys = u.keys
  data : ∀ row ∈ s.stored, row ∈ s.owned ∨ ∃ r ∈ s.replaced, r.userId = row.userId ∧ row ∈ r.gone

/-- A reset of a user with a finish token is scheduled for the time that was read, as long as it is
scheduled at all. -/
def ResetStore.StillRead (s : ResetStore) (finishHash : String) (user : ResetRow) : Prop :=
  finishHash ∈ s.drawn ∧ ∀ u, s.users.get? user.id = some u → u.resetFinishHash = some finishHash →
    u.resetScheduledFor = user.resetScheduledFor

section
variable [TokenHash]

/-- What a call to finish relies on since the reset was found to be ready. -/
structure Finishing.Ready (f : Finishing) (s : ResetStore) : Prop where
  read : s.StillRead (TokenHash.hashToken f.req.token) f.user
  ready : ∃ scheduledFor, f.user.resetScheduledFor = some scheduledFor ∧ scheduledFor ≤ f.ready

/-- What it relies on while it has locked the row of the user. -/
structure Finishing.Locked (f : Finishing) (i : ℕ) (s : ResetStore) (gone : List OwnedRow) : Prop
    extends f.Ready s where
  lock : (f.user.id, i) ∈ s.locks
  current : (s.users.get? f.user.id).bind ResetRow.resetFinishHash
    = some (TokenHash.hashToken f.req.token)
  gone : ∀ row ∈ gone, row.userId = f.user.id

/-- What a request relies on that is made with a finish token. -/
def Readied.Of (token : String) : Readied → Prop
  | .passwordStart _ => True
  | .finish req => req.token = token

/-- What a call relies on. -/
def ResetCall.Asserts (i : ℕ) (s : ResetStore) (touched : Bool) : ResetCall → Prop
  | .readySelect token what => touched = false ∧ what.Of token
  | .readyUser token _ what =>
    touched = false ∧ what.Of token ∧ TokenHash.hashToken token ∈ s.drawn
  | .readyNow token user what =>
    touched = false ∧ what.Of token ∧ s.StillRead (TokenHash.hashToken token) user
  | .finishRevoke f => touched = false ∧ f.Ready s
  | .finishUpdate f => f.Ready s
  | .finishDelete f _ gone | .finishCommit f gone => f.Locked i s gone
  | .finishUser userId _ => (s.users.get? userId).isSome
  | .finishDevice _ _ | .finishWrite _ _ _ | .finishSignOut _ _ | .finishInsert _ _ | .rest _
  | .done (.ok _) => True
  | .idle | .done (.error _) | .confirmFlow _ | .confirmUser _ _ | .confirmVerify _ _ _
  | .confirmDel _ _ | .confirmMfa _ _ | .confirmCheck _ | .confirmNow _ | .confirmUpdate _ _
  | .cancelSelect _ | .cancelUser _ | .accountUser _ | .clearUpdate _ => touched = false

/-- What the step of a call leaves to the others: no user is removed, a reset with a token that was
drawn before is scheduled only where it was, for the same time, and rows they have locked keep their
reset. -/
structure ResetStore.Later (i : ℕ) (s s' : ResetStore) : Prop where
  drawn : ∀ h ∈ s.drawn, h ∈ s'.drawn
  users : ∀ id, (s'.users.get? id).isSome = (s.users.get? id).isSome
  read : ∀ id u', s'.users.get? id = some u' → ∀ h ∈ s.drawn, u'.resetFinishHash = some h →
    ∃ u, s.users.get? id = some u ∧ u.resetFinishHash = some h
      ∧ u.resetScheduledFor = u'.resetScheduledFor
  locks : ∀ id j, j ≠ i → (id, j) ∈ s.locks → (id, j) ∈ s'.locks
    ∧ (s'.users.get? id).bind ResetRow.resetFinishHash
      = (s.users.get? id).bind ResetRow.resetFinishHash

end

/-! ### What other calls rely on -/

section
variable {s s' : ResetStore} {i j : ℕ}

theorem ResetStore.StillRead.later (hlater : s.Later i s') {h : String} {user : ResetRow}
    (hread : s.StillRead h user) :
  s'.StillRead h user
  := by
  obtain ⟨hdrawn, hread⟩ := hread
  refine ⟨hlater.drawn h hdrawn, ?_⟩
  intro u' hu' hhash
  obtain ⟨u, hu, hhash₀, hscheduled⟩ := hlater.read user.id u' hu' h hdrawn hhash
  rw [← hscheduled]
  exact hread u hu hhash₀

theorem Finishing.Ready.later [TokenHash] (hlater : s.Later i s') {f : Finishing} (h : f.Ready s) :
  f.Ready s'
  := ⟨h.read.later hlater, h.ready⟩

theorem Finishing.Locked.later [TokenHash] (hlater : s.Later i s') (hj : j ≠ i) {f : Finishing}
    {gone : List OwnedRow} (h : f.Locked j s gone) :
  f.Locked j s' gone
  := by
  obtain ⟨hlock, hhash⟩ := hlater.locks f.user.id j hj h.lock
  exact ⟨h.toReady.later hlater, hlock, hhash.trans h.current, h.gone⟩

/-- What another call relies on stays so. -/
theorem ResetCall.Asserts.later [TokenHash] (hlater : s.Later i s') (hj : j ≠ i) {touched : Bool}
    {call : ResetCall} (h : call.Asserts j s touched) :
  call.Asserts j s' touched
  := by
  cases call with
  | readyUser token userId what => exact ⟨h.1, h.2.1, hlater.drawn _ h.2.2⟩
  | readyNow token user what => exact ⟨h.1, h.2.1, h.2.2.later hlater⟩
  | finishRevoke f => exact ⟨h.1, h.2.later hlater⟩
  | finishUpdate f => exact Finishing.Ready.later hlater h
  | finishDelete f left gone => exact Finishing.Locked.later hlater hj h
  | finishCommit f gone => exact Finishing.Locked.later hlater hj h
  | finishUser userId device => exact (hlater.users userId).trans h
  | done answer => cases answer <;> exact h
  | idle | confirmFlow | confirmUser | confirmVerify | confirmDel | confirmMfa | confirmCheck
  | confirmNow | confirmUpdate | cancelSelect | cancelUser | accountUser | clearUpdate | readySelect
  | finishDevice | finishWrite | finishSignOut | finishInsert | rest => exact h

/-! ### Writes -/

/-- A write that leaves the rows of users and what belongs to them alone. -/
structure ResetStore.SameResets (s s' : ResetStore) : Prop where
  users : s'.users = s.users
  owned : s'.owned = s.owned
  drawn : s'.drawn = s.drawn
  log : s'.log = s.log
  replaced : s'.replaced = s.replaced
  firstKeys : s'.firstKeys = s.firstKeys
  stored : s'.stored = s.stored

theorem ResetStore.Later.of_users (husers : s'.users = s.users) (hdrawn : s'.drawn = s.drawn)
    (hlocks : ∀ id j, j ≠ i → (id, j) ∈ s.locks → (id, j) ∈ s'.locks) :
  s.Later i s'
  := by
  refine ⟨fun h hh => hdrawn ▸ hh, fun id => by rw [husers], ?_, ?_⟩
  · intro id u' hu' h hh hhash
    exact ⟨u', husers ▸ hu', hhash, rfl⟩
  · intro id j hj hlock
    exact ⟨hlocks id j hj hlock, by rw [husers]⟩

theorem ResetStore.Sound.same (h : s.Sound) (hsame : s.SameResets s')
    (hexclusive : ∀ id, s'.locks.Exclusive id) :
  s'.Sound
  := by
  obtain ⟨husers, howned, hdrawn, hlog, hreplaced, hfirst, hstored⟩ := hsame
  refine ⟨?_, hexclusive, hreplaced ▸ h.announced, ?_, ?_⟩
  · rw [husers, hdrawn, hlog]
    exact h.agrees
  · rw [husers, hfirst, hreplaced]
    exact h.keys
  · rw [hstored, howned, hreplaced]
    exact h.data

/-- A row put beside those there are is there. -/
theorem ResetStore.Sound.putOwned (h : s.Sound) (row : OwnedRow) :
  (s.putOwned row).Sound
  := by
  refine ⟨h.agrees, h.exclusive, h.announced, h.keys, ?_⟩
  intro x hx
  rcases List.mem_cons.mp hx with rfl | hx
  · exact .inl (List.mem_append_right _ List.mem_cons_self)
  · exact (h.data x hx).imp_left (List.mem_append_left _)

/-- The keys of the accounts do not change when rows of users are set without them. -/
theorem assets_set {f : ResetRow → ResetRow} (hf : ∀ u, key (f u) = key u)
    (hkeys : ∀ u, (f u).keys = u.keys) (userId : Uuid) :
  (s.users.set userId f hf).rows.map (fun u => (u.id, u.keys))
    = s.users.rows.map (fun u => (u.id, u.keys))
  := by
  rw [Table.set, Table.update, List.map_map]
  apply List.map_congr_left
  intro u _
  rw [Function.comp_apply]
  split
  · exact Prod.ext (hf u) (hkeys u)
  · rfl

theorem assets_schedule (userId : Uuid) (scheduledFor : DateTime) (finishHash cancelHash : String) :
  (s.schedule userId scheduledFor finishHash cancelHash).assets = s.assets
  := by
  unfold ResetStore.assets ResetStore.schedule
  dsimp only
  rw [assets_set]
  intro u
  rfl

theorem assets_clearReset (userId : Uuid) :
  (s.clearReset userId).assets = s.assets
  := by
  unfold ResetStore.assets ResetStore.clearReset
  dsimp only
  rw [assets_set]
  intro u
  rfl

/-- Rows agree with what happened to their resets after one of them is set. -/
theorem agrees_set {f : ResetRow → ResetRow} (hf : ∀ u, key (f u) = key u) {userId : Uuid}
    {drawn : List String} {log : Uuid → List ResetEvent}
    (h : ∀ u ∈ s.users.rows, u.Agrees s.drawn (s.log u.id)) (hdrawn : ∀ x ∈ s.drawn, x ∈ drawn)
    (hlog : ∀ id, id ≠ userId → log id = s.log id)
    (hset : ∀ u ∈ s.users.rows, u.id = userId → (f u).Agrees drawn (log userId)) :
  ∀ u ∈ (s.users.set userId f hf).rows, u.Agrees drawn (log u.id)
  := by
  refine Table.forall_set hf ?_ ?_
  · intro u hu hid
    rw [hlog u.id hid]
    have hagrees := h u hu
    revert hagrees
    cases s.log u.id with
    | nil => exact fun h => h
    | cons event earlier =>
      cases event with
      | scheduled finishHash scheduledFor => exact fun h => ⟨h.1, h.2.1, hdrawn _ h.2.2⟩
      | cancelled | finished => exact fun h => h
  · intro u hu hid
    have hkey : (f u).id = userId := (hf u).trans hid
    rw [hkey]
    exact hset u hu hid

/-- A row with a finish token says that its reset was scheduled last. -/
theorem ResetRow.Agrees.scheduled {u : ResetRow} {drawn : List String} {log : List ResetEvent}
    (h : u.Agrees drawn log) {finishHash : String} (hhash : u.resetFinishHash = some finishHash) :
  ∃ scheduledFor earlier, log = .scheduled finishHash scheduledFor :: earlier
    ∧ u.resetScheduledFor = some scheduledFor ∧ finishHash ∈ drawn
  := by
  cases log with
  | nil => cases hhash.symm.trans h.1
  | cons event earlier =>
    cases event with
    | scheduled finishHash' scheduledFor =>
      obtain ⟨hhash', hscheduled, hdrawn⟩ := h
      cases hhash.symm.trans hhash'
      exact ⟨scheduledFor, earlier, rfl, hscheduled, hdrawn⟩
    | cancelled | finished => cases hhash.symm.trans h.1

/-- Setting a row that no other call has locked leaves the others what they rely on, when it is not
given a token that was drawn before. -/
theorem later_set {f : ResetRow → ResetRow} (hf : ∀ u, key (f u) = key u) {userId : Uuid}
    (husers : s'.users = s.users.set userId f hf) (hdrawn : ∀ x ∈ s.drawn, x ∈ s'.drawn)
    (hread : ∀ u, ∀ x ∈ s.drawn, (f u).resetFinishHash = some x →
      u.resetFinishHash = some x ∧ u.resetScheduledFor = (f u).resetScheduledFor)
    (hfree : ∀ j, j ≠ i → (userId, j) ∉ s.locks)
    (hlocks : ∀ id j, j ≠ i → (id, j) ∈ s.locks → (id, j) ∈ s'.locks) :
  s.Later i s'
  := by
  refine ⟨hdrawn, fun id => by rw [husers, Table.isSome_get?_set], ?_, ?_⟩
  · intro id u' hu' h hh hhash
    rw [husers, Table.get?_set] at hu'
    split at hu'
    · rename_i hid
      subst hid
      obtain ⟨u, hu, rfl⟩ := Option.map_eq_some_iff.mp hu'
      obtain ⟨hhash', hscheduled⟩ := hread u h hh hhash
      exact ⟨u, hu, hhash', hscheduled⟩
    · exact ⟨u', hu', hhash, rfl⟩
  · intro id j hj hlock
    refine ⟨hlocks id j hj hlock, ?_⟩
    rw [husers, Table.get?_set, if_neg]
    rintro rfl
    exact hfree j hj hlock

/-- Setting what a row says of the reset of its user, without its keys. -/
theorem ResetStore.Sound.setRow (h : s.Sound) {f : ResetRow → ResetRow}
    (hf : ∀ u, key (f u) = key u) {userId : Uuid} (hkeys : ∀ u, (f u).keys = u.keys)
    {drawn : List String} {log : Uuid → List ResetEvent} (hdrawn : ∀ x ∈ s.drawn, x ∈ drawn)
    (hlog : ∀ id, id ≠ userId → log id = s.log id)
    (hset : ∀ u ∈ s.users.rows, u.id = userId → (f u).Agrees drawn (log userId)) :
  ResetStore.Sound { s with users := s.users.set userId f hf, drawn, log }
  := by
  refine ⟨agrees_set hf h.agrees hdrawn hlog hset, h.exclusive, h.announced, ?_, h.data⟩
  intro u hu
  rcases Table.mem_set hf hu with hu | ⟨u₀, hu₀, -, rfl⟩
  · exact h.keys u hu
  · have hid : (f u₀).id = u₀.id := hf u₀
    rw [hid, hkeys]
    exact h.keys u₀ hu₀

/-- Scheduling a reset with a token that was not drawn before. -/
theorem ResetStore.Sound.schedule (h : s.Sound) {userId : Uuid} {scheduledFor : DateTime}
    {finishHash cancelHash : String} (hfree : s.locks.waits i userId = false)
    (hfresh : finishHash ∉ s.drawn) :
  (s.schedule userId scheduledFor finishHash cancelHash).Sound
    ∧ s.Later i (s.schedule userId scheduledFor finishHash cancelHash)
  := by
  constructor
  · refine h.setRow ?_ ?_ ?_ ?_ ?_
    · exact fun _ => rfl
    · exact fun x hx => List.mem_cons_of_mem _ hx
    · exact fun id hid => Function.update_of_ne hid _ _
    · intro u hu hid
      rw [Function.update_self]
      exact ⟨rfl, rfl, List.mem_cons_self⟩
  · refine later_set (by intro x; rfl) rfl ?_ ?_ ?_ ?_
    · exact fun x hx => List.mem_cons_of_mem _ hx
    · rintro u x hx ⟨⟩
      exact absurd hx hfresh
    · exact fun j hj => HeldLocks.not_mem_of_waits hfree (decide_eq_true rfl) hj
    · exact fun _ _ _ hlock => hlock

/-- Clearing a reset. -/
theorem ResetStore.Sound.clearReset (h : s.Sound) {userId : Uuid}
    (hfree : s.locks.waits i userId = false) :
  (s.clearReset userId).Sound ∧ s.Later i (s.clearReset userId)
  := by
  constructor
  · refine h.setRow ?_ ?_ ?_ ?_ ?_
    · exact fun _ => rfl
    · exact fun x hx => hx
    · exact fun id hid => Function.update_of_ne hid _ _
    · intro u hu hid
      rw [Function.update_self]
      exact ⟨rfl, rfl⟩
  · refine later_set (by intro x; rfl) rfl ?_ ?_ ?_ ?_
    · exact fun x hx => hx
    · rintro u x hx ⟨⟩
    · exact fun j hj => HeldLocks.not_mem_of_waits hfree (decide_eq_true rfl) hj
    · exact fun _ _ _ hlock => hlock

/-- Replacing the keys of an account as announced, and deleting rows of it. -/
theorem ResetStore.Sound.commitFinish [TokenHash] (h : s.Sound) {f : Finishing}
    {gone : List OwnedRow} (vaultId : Uuid) (hlocked : f.Locked i s gone) {u : ResetRow}
    (hu : s.users.get? f.user.id = some u) (henabled : u.disabled = false)
    (hclock : ∀ scheduledFor ∈ f.user.resetScheduledFor,
      (f.ready ≤ s.now ∨ scheduledFor ≤ s.now) ∧ s.now < scheduledFor + LINK_GRACE) :
  (s.commitFinish i f gone vaultId u).Sound ∧ s.Later i (s.commitFinish i f gone vaultId u)
  := by
  have hid : u.id = f.user.id := Table.key_of_get? hu
  have hmem : u ∈ s.users.rows := Table.mem_of_get? hu
  have hhash : u.resetFinishHash = some (TokenHash.hashToken f.req.token) := by
    have := hlocked.current
    rw [hu] at this
    exact this
  obtain ⟨scheduledFor, hscheduled, hready⟩ := hlocked.ready
  have hread : u.resetScheduledFor = some scheduledFor :=
    (hlocked.read.2 u hu hhash).trans hscheduled
  obtain ⟨hnotBack, hgrace⟩ := hclock scheduledFor hscheduled
  -- the row still says what happened last, which is the reset of this token
  obtain ⟨scheduledFor', earlier, hlast, hread', -⟩ := (h.agrees u hmem).scheduled hhash
  cases hread.symm.trans hread'
  have hothers : ∀ j, j ≠ i → (u.id, j) ∉ s.locks := by
    intro j hj hlock
    exact hj (h.exclusive _ j i hlock (hid ▸ hlocked.lock))
  refine ⟨⟨?_, fun id => (h.exclusive id).release, ?_, ?_, ?_⟩, ?_⟩
  · refine agrees_set (by intro x; rfl) h.agrees (fun x hx => hx) ?_ ?_
    · exact fun id hne => Function.update_of_ne hne _ _
    · intro x hx hxid
      have hlog : (s.commitFinish i f gone vaultId u).log u.id = .finished :: s.log u.id :=
        Function.update_self _ _ _
      rw [hlog]
      exact ⟨rfl, rfl⟩
  · intro r hr
    rcases List.mem_cons.mp hr with rfl | hr
    · exact ⟨henabled, scheduledFor, earlier, hlast, hnotBack.elim hready.trans (fun h => h), hgrace⟩
    · exact h.announced r hr
  · refine Table.forall_set (by intro x; rfl) ?_ ?_
    · intro x hx _
      exact (h.keys x hx).imp_right (fun ⟨r, hr, hkeys⟩ => ⟨r, List.mem_cons_of_mem _ hr, hkeys⟩)
    · intro x hx hxid
      have heq : x = u := Table.eq_of_mem hx hmem hxid
      subst heq
      exact .inr ⟨_, List.mem_cons_self, rfl, rfl⟩
  · intro row hrow
    rcases List.mem_append.mp hrow with hrow | hrow
    · exact .inl (List.mem_append_right _ hrow)
    · rcases h.data row hrow with howned | ⟨r, hr, hgone⟩
      · by_cases hgone : row ∈ gone
        · exact .inr ⟨_, List.mem_cons_self, hid.trans (hlocked.gone row hgone).symm, hgone⟩
        · exact .inl (List.mem_append_left _ (List.mem_filter.mpr ⟨howned, decide_eq_true hgone⟩))
      · exact .inr ⟨r, List.mem_cons_of_mem _ hr, hgone⟩
  · refine later_set (by intro x; rfl) rfl ?_ ?_ ?_ ?_
    · exact fun x hx => hx
    · rintro x y hy ⟨⟩
    · exact hothers
    · exact fun _ j hj hlock => HeldLocks.mem_release hlock hj

end

/-! ### Statements -/

section
variable [TokenHash] [Primitives] [Opaque] {cfg : ResetConfig} {s s' : ResetStore} {i j : ℕ}

/-- What the statement of a call keeps: the invariant, what the others rely on, and what the call
relies on, whether it has changed anything or not. -/
structure KeepsResets (i : ℕ) (s : ResetStore) (touched : Bool) (s' : ResetStore)
    (call : ResetCall) : Prop where
  sound : s'.Sound
  later : s.Later i s'
  own : call.Asserts i s' (touched || decide (s'.assets ≠ s.assets))

omit [Primitives] [Opaque] in
/-- A statement that writes nothing. -/
theorem ResetStore.Sound.keeps_read (h : s.Sound) {touched : Bool} {call : ResetCall}
    (hcall : call.Asserts i s touched) :
  KeepsResets i s touched s call
  := by
  refine ⟨h, ResetStore.Later.of_users rfl rfl (fun _ _ _ hlock => hlock), ?_⟩
  rw [decide_eq_false (not_not_intro rfl), Bool.or_false]
  exact hcall

omit [Primitives] [Opaque] in
/-- A statement that writes no keys, sessions or data. -/
theorem keeps_write {touched : Bool} {call : ResetCall} (hsound : s'.Sound) (hlater : s.Later i s')
    (hassets : s'.assets = s.assets) (hcall : call.Asserts i s' touched) :
  KeepsResets i s touched s' call
  := by
  refine ⟨hsound, hlater, ?_⟩
  rw [decide_eq_false (not_not_intro hassets), Bool.or_false]
  exact hcall

theorem asserts_afterReady {user : ResetRow} {token : String} {what : Readied} (hwhat : what.Of token)
    (hread : s.StillRead (TokenHash.hashToken token) user) {scheduledFor ready : DateTime}
    (hscheduled : user.resetScheduledFor = some scheduledFor) (hready : scheduledFor ≤ ready) :
  (ResetCall.afterReady cfg user ready what).Asserts i s false
  := by
  cases what with
  | passwordStart request =>
    unfold ResetCall.afterReady
    dsimp only
    split
    · rfl
    · trivial
  | finish req =>
    unfold ResetCall.afterReady
    dsimp only
    split
    · rfl
    · have htoken : req.token = token := hwhat
      subst htoken
      exact ⟨rfl, hread, scheduledFor, hscheduled, hready⟩

/-- The next statement of a call. -/
theorem ResetStore.Sound.keeps_next (h : s.Sound) {touched : Bool} {call call' : ResetCall}
    {d : Drawn} (hcall : call.Asserts i s touched) (hfree : call.Unhindered d s touched)
    (hnext : call.next cfg i d s = some (s', call')) :
  KeepsResets i s touched s' call'
  := by
  cases call with
  | idle | done answer => cases hnext
  | confirmFlow req =>
    rw [ResetCall.next] at hnext
    split at hnext
    all_goals
      cases hnext
      exact h.keeps_read hcall
  | confirmUser req userId =>
    rw [ResetCall.next] at hnext
    split at hnext
    · cases hnext
      exact h.keeps_read hcall
    split at hnext
    all_goals
      cases hnext
      exact h.keeps_read hcall
  | confirmVerify req user call =>
    obtain ⟨r, -, hr⟩ := Option.map_eq_some_iff.mp hnext
    cases hr
    refine keeps_write (h.same (by constructor <;> rfl) h.exclusive)
      (.of_users rfl rfl (fun _ _ _ hlock => hlock)) rfl ?_
    unfold ResetCall.afterVerify
    split <;> exact hcall
  | confirmDel req user =>
    cases hnext
    exact keeps_write (h.same (by constructor <;> rfl) h.exclusive)
      (.of_users rfl rfl (fun _ _ _ hlock => hlock)) rfl hcall
  | confirmMfa req user =>
    rw [ResetCall.next] at hnext
    split at hnext
    · split at hnext
      all_goals
        cases hnext
        exact h.keeps_read hcall
    · cases hnext
      exact h.keeps_read hcall
  | confirmCheck userId =>
    rw [ResetCall.next] at hnext
    split at hnext
    all_goals
      cases hnext
      exact h.keeps_read hcall
  | confirmNow userId =>
    cases hnext
    exact h.keeps_read hcall
  | confirmUpdate userId scheduledFor =>
    rw [ResetCall.next] at hnext
    split at hnext
    · cases hnext
    rename_i hblocked
    rw [not_or, Bool.not_eq_true] at hblocked
    split at hnext
    · cases hnext
      exact h.keeps_read hcall
    · cases hnext
      obtain ⟨hsound, hlater⟩ := h.schedule (i := i) hblocked.1 hblocked.2
      exact keeps_write hsound hlater (assets_schedule _ _ _ _) trivial
  | cancelSelect token =>
    rw [ResetCall.next] at hnext
    split at hnext
    all_goals
      cases hnext
      exact h.keeps_read hcall
  | cancelUser userId =>
    rw [ResetCall.next] at hnext
    split at hnext
    · cases hnext
      exact h.keeps_read hcall
    split at hnext
    all_goals
      cases hnext
      exact h.keeps_read hcall
  | accountUser userId =>
    rw [ResetCall.next] at hnext
    split at hnext
    · cases hnext
      exact h.keeps_read hcall
    split at hnext
    · cases hnext
      exact h.keeps_read trivial
    · cases hnext
      exact h.keeps_read hcall
  | clearUpdate userId =>
    rw [ResetCall.next] at hnext
    split at hnext
    · cases hnext
    rename_i hblocked
    cases hnext
    obtain ⟨hsound, hlater⟩ := h.clearReset (i := i) (Bool.eq_false_iff.mpr hblocked)
    exact keeps_write hsound hlater (assets_clearReset _) trivial
  | readySelect token what =>
    rw [ResetCall.next] at hnext
    split at hnext
    · cases hnext
      exact h.keeps_read hcall.1
    · rename_i u hu
      cases hnext
      have hhash : u.resetFinishHash = some (TokenHash.hashToken token) := by
        have := List.find?_some hu
        exact of_decide_eq_true this
      obtain ⟨_, _, -, -, hdrawn⟩ := (h.agrees u (List.mem_of_find?_eq_some hu)).scheduled hhash
      exact h.keeps_read ⟨hcall.1, hcall.2, hdrawn⟩
  | readyUser token userId what =>
    obtain ⟨htouched, hwhat, hdrawn⟩ := hcall
    rw [ResetCall.next] at hnext
    split at hnext
    · cases hnext
      exact h.keeps_read htouched
    · rename_i u hu
      split at hnext
      · cases hnext
        refine h.keeps_read ⟨htouched, hwhat, hdrawn, ?_⟩
        intro u' hu' _
        have hid : u.id = userId := Table.key_of_get? hu
        rw [hid, hu] at hu'
        cases hu'
        rfl
      · cases hnext
        exact h.keeps_read htouched
  | readyNow token user what =>
    obtain ⟨htouched, hwhat, hread⟩ := hcall
    rw [ResetCall.next] at hnext
    split at hnext
    · cases hnext
      exact h.keeps_read htouched
    · rename_i scheduledFor hscheduled
      split at hnext
      · rename_i hready
        cases hnext
        subst htouched
        exact h.keeps_read (asserts_afterReady hwhat hread hscheduled hready)
      · cases hnext
        exact h.keeps_read htouched
  | finishRevoke f =>
    cases hnext
    exact ⟨h.same (by constructor <;> rfl) h.exclusive,
      .of_users rfl rfl (fun _ _ _ hlock => hlock), hcall.2.read, hcall.2.ready⟩
  | finishUpdate f =>
    rw [ResetCall.next] at hnext
    split at hnext
    · cases hnext
    rename_i hblocked
    split at hnext
    · rename_i hhash
      cases hnext
      refine ⟨?_, ?_, ?_⟩
      · refine h.same (by constructor <;> rfl) ?_
        intro id
        apply (h.exclusive id).take
        · exact decide_eq_true rfl
        · intro hmem
          rw [List.mem_singleton.mp hmem]
          exact Bool.eq_false_iff.mpr hblocked
      · exact .of_users rfl rfl (fun _ _ _ hlock => HeldLocks.mem_take_of_held hlock)
      · refine ⟨⟨hcall.read, hcall.ready⟩, HeldLocks.mem_take_of_mem List.mem_cons_self, hhash, ?_⟩
        intro row hrow
        cases hrow
    · rename_i hhash
      cases hnext
      apply h.keeps_read
      exact Bool.eq_false_iff.mpr (fun htouched => hhash (hfree htouched))
  | finishDelete f left gone =>
    cases left with
    | nil =>
      cases hnext
      exact h.keeps_read hcall
    | cons table left =>
      cases hnext
      refine h.keeps_read ⟨hcall.toReady, hcall.lock, hcall.current, ?_⟩
      intro row hrow
      rcases List.mem_append.mp hrow with hrow | hrow
      · exact (of_decide_eq_true (List.mem_filter.mp hrow).2).2
      · exact hcall.gone row hrow
  | finishCommit f gone =>
    obtain ⟨u, hu, heq⟩ := Option.map_eq_some_iff.mp hnext
    cases heq
    obtain ⟨hsound, hlater⟩ := h.commitFinish d.id hcall hu (hfree.1 u hu) hfree.2
    refine ⟨hsound, hlater, ?_⟩
    exact (hlater.users f.user.id).trans (Option.isSome_of_mem hu)
  | finishUser userId device =>
    rw [ResetCall.next] at hnext
    split at hnext
    · rename_i hnone
      rw [ResetCall.Asserts, hnone] at hcall
      cases hcall
    · cases hnext
      exact h.keeps_read trivial
  | finishDevice user device =>
    rw [ResetCall.next] at hnext
    split at hnext
    · cases hnext
      exact h.keeps_read trivial
    split at hnext
    · cases hnext
      exact h.keeps_read trivial
    split at hnext
    all_goals
      cases hnext
      exact h.keeps_read trivial
  | finishWrite userId deviceId fresh =>
    rw [ResetCall.next] at hnext
    split at hnext
    · rename_i hfresh
      subst hfresh
      split at hnext
      · rename_i htaken
        obtain ⟨row, hrow, hdevice⟩ := List.any_eq_true.mp htaken
        have hnot := List.all_eq_true.mp hfree row hrow
        simp only [decide_eq_true_eq] at hdevice hnot
        exact absurd hdevice (not_and_or.mpr hnot)
      · cases hnext
        exact ⟨h.putOwned _, .of_users rfl rfl (fun _ _ _ hlock => hlock), trivial⟩
    · cases hnext
      exact h.keeps_read trivial
  | finishSignOut userId deviceId =>
    cases hnext
    exact ⟨h.same (by constructor <;> rfl) h.exclusive,
      .of_users rfl rfl (fun _ _ _ hlock => hlock), trivial⟩
  | finishInsert userId deviceId =>
    rw [ResetCall.next] at hnext
    split at hnext
    · rename_i hnone
      have hget : s.sessions.get? d.id = none := Option.isNone_iff_eq_none.mp hfree
      unfold Table.insert at hnone
      split at hnone
      · cases hnone
      · rename_i htaken
        exact absurd hget htaken
    · cases hnext
      exact ⟨h.same (by constructor <;> rfl) h.exclusive,
        .of_users rfl rfl (fun _ _ _ hlock => hlock), trivial⟩
  | rest answer =>
    cases hnext
    exact h.keeps_read trivial

/-! ### Runs -/

omit [TokenHash] [Primitives] [Opaque] in
/-- A call that fails gives back its locks. -/
theorem ResetStore.Sound.release (h : s.Sound) :
  ResetStore.Sound { s with locks := s.locks.release i }
    ∧ s.Later i { s with locks := s.locks.release i }
  := by
  constructor
  · refine h.same (by constructor <;> rfl) ?_
    exact fun id => (h.exclusive id).release
  · exact .of_users rfl rfl (fun _ _ hj hlock => HeldLocks.mem_release hlock hj)

/-- A step of a call keeps the invariant, and what all calls rely on. -/
theorem ResetStore.Sound.keeps_exec (h : s.Sound) {step : ResetStep} {t t' : ResetThread}
    (hcall : t.call.Asserts i s t.touched)
    (hnext : ∀ d, step = .next d → t.call.Unhindered d s t.touched)
    (hfail : step = .fail → t.touched = false) (hexec : t.exec cfg i step s = some (s', t')) :
  s'.Sound ∧ s.Later i s' ∧ t'.call.Asserts i s' t'.touched
  := by
  obtain ⟨call, touched⟩ := t
  have hbegin : ∀ call₀, step.start = some call₀ → call₀.Asserts i s false := by
    intro call₀ hstart
    cases step with
    | confirm | cancel | cancelAuthenticated =>
      cases hstart
      rfl
    | passwordStart =>
      cases hstart
      exact ⟨rfl, trivial⟩
    | finish =>
      cases hstart
      exact ⟨rfl, rfl⟩
    | next | fail => cases hstart
  cases step with
  | next d =>
    obtain ⟨⟨s₁, call'⟩, hr, heq⟩ := Option.map_eq_some_iff.mp hexec
    cases heq
    obtain ⟨hsound, hlater, hown⟩ := h.keeps_next hcall (hnext d rfl) hr
    exact ⟨hsound, hlater, hown⟩
  | fail =>
    obtain ⟨hsound, hlater⟩ := h.release (i := i)
    have htouched := hfail rfl
    cases call with
    | idle | done => cases hexec
    | confirmFlow | confirmUser | confirmVerify | confirmDel | confirmMfa | confirmCheck | confirmNow
    | confirmUpdate | cancelSelect | cancelUser | accountUser | clearUpdate | readySelect | readyUser
    | readyNow | finishRevoke | finishUpdate | finishDelete | finishCommit | finishUser | finishDevice
    | finishWrite | finishSignOut | finishInsert | rest =>
      cases hexec
      exact ⟨hsound, hlater, htouched⟩
  | confirm req | cancel token | cancelAuthenticated userId | passwordStart token request
  | finish req =>
    cases call with
    | idle =>
      have htouched : touched = false := hcall
      subst htouched
      cases hexec
      exact ⟨h, .of_users rfl rfl (fun _ _ _ hlock => hlock), hbegin _ rfl⟩
    | done | confirmFlow | confirmUser | confirmVerify | confirmDel | confirmMfa | confirmCheck
    | confirmNow | confirmUpdate | cancelSelect | cancelUser | accountUser | clearUpdate | readySelect
    | readyUser | readyNow | finishRevoke | finishUpdate | finishDelete | finishCommit | finishUser
    | finishDevice | finishWrite | finishSignOut | finishInsert | rest => cases hexec

/-- What the surroundings do keeps the invariant, and what the calls rely on. -/
theorem ResetStore.Sound.keeps_env (h : s.Sound) {x : ResetEnv}
    (henv : (resetCalls cfg).env x s = some s') :
  s'.Sound ∧ ∀ i, s.Later i s'
  := by
  cases x with
  | clock now =>
    cases henv
    exact ⟨h.same (by constructor <;> rfl) h.exclusive,
      fun i => .of_users rfl rfl (fun _ _ _ hlock => hlock)⟩
  | disable userId disabled =>
    simp only [resetCalls] at henv
    split at henv
    · cases henv
    rename_i hblocked
    cases henv
    constructor
    · refine h.setRow ?_ ?_ ?_ ?_ ?_
      · exact fun _ => rfl
      · exact fun x hx => hx
      · exact fun _ _ => rfl
      · intro u hu hid
        have hagrees := h.agrees u hu
        rw [hid] at hagrees
        exact hagrees
    · intro i
      refine later_set (by intro x; rfl) rfl ?_ ?_ ?_ ?_
      · exact fun x hx => hx
      · exact fun u x _ hhash => ⟨hhash, rfl⟩
      · intro j _
        exact HeldLocks.not_mem_of_blocks (Bool.eq_false_iff.mpr hblocked) (decide_eq_true rfl)
      · exact fun _ _ _ hlock => hlock
  | request token userId codes =>
    cases henv
    exact ⟨h.same (by constructor <;> rfl) h.exclusive,
      fun i => .of_users rfl rfl (fun _ _ _ hlock => hlock)⟩
  | signIn r =>
    obtain ⟨sessions, -, rfl⟩ := Option.map_eq_some_iff.mp henv
    exact ⟨h.same (by constructor <;> rfl) h.exclusive,
      fun i => .of_users rfl rfl (fun _ _ _ hlock => hlock)⟩
  | store row =>
    cases henv
    exact ⟨h.putOwned row, fun i => .of_users rfl rfl (fun _ _ _ hlock => hlock)⟩

/-- Starting over happens as announced in runs in which no call to finish is hindered, and none
fails after it has changed something. -/
theorem asAnnounced_of_reaches {p : Pool ResetStore ResetThread}
    (h : (resetCalls cfg).system.Reaches unhindered p) :
  AsAnnounced p
  := by
  have hholds : Threads.Holds ResetStore.Sound (fun i s t => t.call.Asserts i s t.touched) p := by
    apply Threads.holds_of_reaches _ _ _ h
    · rintro s ⟨husers, hlocks, hdrawn, hlog, hreplaced, hfirst, hstored⟩
      refine ⟨⟨?_, ?_, ?_, ?_, ?_⟩, ?_⟩
      · intro u hu
        rw [hlog]
        exact (husers u hu).symm
      · rw [hlocks]
        intro id i j hi
        cases hi
      · rw [hreplaced]
        intro r hr
        cases hr
      · intro u hu
        rw [hfirst]
        exact .inl (List.mem_map_of_mem hu)
      · rw [hstored]
        exact fun row hrow => .inl hrow
      · rintro i t rfl
        rfl
    · intro p i step s' t' ⟨hsound, hcalls⟩ hfree hexec
      obtain ⟨hsound', hlater, hown⟩ := hsound.keeps_exec (hcalls i)
        (by rintro d rfl; exact hfree) (by rintro rfl; exact hfree) hexec
      exact ⟨hsound', hown, fun j hj => (hcalls j).later hlater hj⟩
    · intro p x s' ⟨hsound, hcalls⟩ _ henv
      obtain ⟨hsound', hlater⟩ := hsound.keeps_env henv
      exact ⟨hsound', fun j => (hcalls j).later (hlater (j + 1)) (Nat.succ_ne_self j).symm⟩
  obtain ⟨hsound, hcalls⟩ := hholds
  refine ⟨hsound.announced, ?_, hsound.data, ?_⟩
  · intro k hk
    obtain ⟨u, hu, rfl⟩ := List.mem_map.mp hk
    exact hsound.keys u hu
  · intro i e he
    have hcall : (p.threads i).call.Asserts i p.shared (p.threads i).touched := hcalls i
    rw [he] at hcall
    exact hcall

end

/-! ### A reset that is called off while it is finished -/

instance [TokenHash] (d : Drawn) (s : ResetStore) (touched : Bool) :
    ∀ call : ResetCall, Decidable (call.Unhindered d s touched)
  | .finishUpdate _ => inferInstanceAs (Decidable (_ → _))
  | .finishCommit f _ => inferInstanceAs (Decidable ((∀ u ∈ s.users.get? f.user.id,
        u.disabled = false)
      ∧ ∀ scheduledFor ∈ f.user.resetScheduledFor,
        (f.ready ≤ s.now ∨ scheduledFor ≤ s.now) ∧ s.now < scheduledFor + LINK_GRACE))
  | .finishWrite _ _ true | .finishInsert _ _ => inferInstanceAs (Decidable (_ = true))
  | .finishWrite _ _ false | .idle | .done _ | .confirmFlow _ | .confirmUser _ _
  | .confirmVerify _ _ _ | .confirmDel _ _ | .confirmMfa _ _ | .confirmCheck _ | .confirmNow _
  | .confirmUpdate _ _ | .cancelSelect _ | .cancelUser _ | .accountUser _ | .clearUpdate _
  | .readySelect _ _ | .readyUser _ _ _ | .readyNow _ _ _ | .finishRevoke _ | .finishDelete _ _ _
  | .finishUser _ _ | .finishDevice _ _ | .finishSignOut _ _ | .rest _ => .isTrue trivial

instance [TokenHash] (p : Pool ResetStore ResetThread) :
    ∀ l : PoolStep ResetStep ResetEnv, Decidable (unhindered p l)
  | .run i (.next d) =>
    inferInstanceAs (Decidable ((p.threads i).call.Unhindered d p.shared (p.threads i).touched))
  | .run i .fail => inferInstanceAs (Decidable ((p.threads i).touched = false))
  | .run _ (.confirm _) | .run _ (.cancel _) | .run _ (.cancelAuthenticated _)
  | .run _ (.passwordStart _ _) | .run _ (.finish _) | .env _ => .isTrue trivial

open Symbolic

/-- A reset is delayed by an hour. -/
def hourly : ResetConfig := ⟨3600, 86400, "1.0.0"⟩

/-- An account with a device that is signed in, and a code for its reset. -/
def lostAccount : Pool ResetStore ResetThread where
  shared :=
    { now := 0
      users := ⟨[⟨⟨1, "a", some "old", "w", "p", "v", "rw", false, 0, true, false⟩, 1, none, none,
        none⟩], by decide⟩
      sessions := ⟨[⟨5, 1, 4, "t", 86400, none, none, false⟩], by decide⟩
      owned := [⟨.devices, 4, 1, ""⟩, ⟨.personalVaults, 9, 1, "Personal"⟩]
      flows := fun token => if token = "r" then some (some 1) else none
      codes := fun _ => ⟨0, some ⟨"123456", 1, 900, 0⟩, none, 1, 0, 0, fun _ => none, []⟩
      locks := []
      drawn := []
      log := fun _ => []
      replaced := []
      firstKeys := [(1, ⟨some "old", "p", "w", "rw", "v", 1⟩)]
      stored := [⟨.devices, 4, 1, ""⟩, ⟨.personalVaults, 9, 1, "Personal"⟩] }
  threads _ := ⟨.idle, false⟩

theorem init_lostAccount :
  (@resetCalls plainHash _ plainOpaque hourly).system.init lostAccount
  := by
  refine ⟨⟨?_, rfl, rfl, fun _ => rfl, rfl, rfl, rfl⟩, fun _ => rfl⟩
  intro u hu
  rw [List.mem_singleton.mp hu]
  exact ⟨rfl, rfl⟩

/-- Some statements of a call. -/
def statements (i n : ℕ) : List (PoolStep ResetStep ResetEnv) :=
  List.replicate n (.run i (.next ⟨"finish", "cancel", 7, 8, true⟩))

/-- The reset is confirmed, and an hour passes. -/
def confirmReset : List (PoolStep ResetStep ResetEnv) :=
  .run 0 (.confirm ⟨"r", "123456", none⟩) :: statements 0 10 ++ [.env (.clock 3600)]

/-- A key of 32 bytes. -/
def keyText : String := "@@@@@@@@@@@@@@@@@@@@@@@@@@@@@@@@"

def finishReset : PoolStep ResetStep ResetEnv :=
  .run 1 (.finish ⟨"finish", "new", ⟨keyText, keyText, keyText, keyText, keyText⟩,
    ⟨⟨none⟩, "phone", .web, "1.0.0"⟩⟩)

/-- A reset that is finished undisturbed is finished as announced. -/
theorem asAnnounced_finished :
  ∃ p, (@resetCalls plainHash _ plainOpaque hourly).system.run lostAccount
      (confirmReset ++ [finishReset] ++ statements 1 21) = some p
    ∧ AsAnnounced p ∧ p.shared.replaced.length = 1
  := by
  have hsome : ((@resetCalls plainHash _ plainOpaque hourly).system.runMeeting (@unhindered plainHash)
      lostAccount (confirmReset ++ [finishReset] ++ statements 1 21)).any
        (fun p => decide (p.shared.replaced.length = 1)) := by
    decide +kernel
  obtain ⟨p, hrun, hreplaced⟩ := (Option.any_eq_true _ _).mp hsome
  refine ⟨p, TransitionSystem.run_of_runMeeting hrun, ?_, of_decide_eq_true hreplaced⟩
  exact @asAnnounced_of_reaches plainHash _ plainOpaque hourly p
    (TransitionSystem.reaches_runMeeting init_lostAccount hrun)

/-- The pool when the reset is called off after it was found to be ready. -/
def calledOff : Pool ResetStore ResetThread :=
  ((@resetCalls plainHash _ plainOpaque hourly).system.run lostAccount
    (confirmReset ++ [finishReset] ++ statements 1 3 ++ [.run 2 (.cancelAuthenticated 1)]
      ++ statements 2 3 ++ statements 1 2)).get (by decide +kernel)

/-- When a reset is called off after it was found to be ready, the call to finish fails, but has
signed out the device. -/
theorem not_asAnnounced_calledOff :
  ¬ ∀ p : Pool ResetStore ResetThread,
    (@resetCalls plainHash _ plainOpaque hourly).system.Reachable p → AsAnnounced p
  := by
  intro h
  have hreach : (@resetCalls plainHash _ plainOpaque hourly).system.Reachable calledOff :=
    TransitionSystem.reachable_run init_lostAccount _
  have hcall : (calledOff.threads 1).call = .done (.error .tokenExpired) := by rfl
  have htouched : (calledOff.threads 1).touched = true := by decide +kernel
  rw [(h calledOff hreach).unchanged 1 _ hcall] at htouched
  cases htouched

end Termoso.Server
