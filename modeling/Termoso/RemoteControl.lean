import Termoso.LiveRelay

/-!
# Remote control

What a viewer types, or sizes its terminal to, while it has no control is not to reach the terminal of
the host.  The relay looks at the permission it has cached for the connection, which follows the hash
only by way of the bus.  As long as a frame is read while the cached permission is that of the hash,
and before control is given back, the viewer stays out.
-/

namespace Termoso.Live

/-- Nothing was done to the terminal of the host that a viewer sent while it was without control. -/
def OnlyControlled (r : Relay) : Prop := ∀ e ∈ r.terminal, e.revoked = false

/-- A viewer may write, by the hash. -/
def Relay.permits (r : Relay) (userId : Uuid) : Bool :=
  (r.presence.get? userId).any Presence.canWrite

/-- A connection that may write, as far as it knows, reads a frame that drives the terminal only
while the hash permits it, and not when control was given back since the frame was sent. -/
def Viewer.UpToDate (v : Viewer) (r : Relay) : Prop :=
  ∀ f ∈ v.socket.head?, f.payload.drives = true → v.canWrite = true →
    r.permits v.userId = true ∧ (f.revoked = true → r.revoked v.userId = true)

instance (v : Viewer) (r : Relay) : Decidable (v.UpToDate r) :=
  inferInstanceAs (Decidable (∀ f ∈ v.socket.head?, _))

/-- Connections are up to date when they read a frame. -/
def upToDate (p : Pool Relay Viewer) : PoolStep ViewerStep HostStep → Prop
  | .run i .socket => (p.threads i).UpToDate p.shared
  | _ => True

/-! ### The invariant -/

/-- A frame that does not drive the terminal, or whose sender had control. -/
def LiveFrame.Allowed (f : LiveFrame) : Prop := f.payload.drives = true → f.revoked = false

def HostMsg.Allowed : HostMsg → Prop
  | .frame f | .direct _ f => f.Allowed
  | .control _ _ => True

def RelayMsg.Allowed : RelayMsg → Prop
  | .frame f => f.Allowed
  | .participants _ => True

def BusFrame.Allowed (x : BusFrame) : Prop :=
  match x.kind with
  | .data f => f.Allowed
  | .presence | .control _ => True

/-- A change of control that is under way: who is given control is not without it any more, and it
is not that of the host. -/
def SetControl.Sound (r : Relay) : SetControl → Prop
  | .get userId enabled => enabled = true → r.revoked userId = false
  | .set p enabled => p.isHost = false ∧ (enabled = true → r.revoked p.userId = false)
  | .idle | .announce => True

/-- The hash permits nobody who is without control, and what is under way to the host was allowed.
-/
structure Relay.Guarded (r : Relay) : Prop where
  host : ∀ p ∈ r.presence.rows, p.isHost = true → p.userId = r.hostId
  hash : ∀ u, u ≠ r.hostId → r.revoked u = true → r.permits u = false
  call : r.hostCall.Sound r
  toRelay : ∀ m ∈ r.toRelay, m.Allowed
  bus : ∀ x ∈ r.bus, x.Allowed
  toHost : ∀ m ∈ r.toHost, m.Allowed
  terminal : OnlyControlled r

section
variable {r r' : Relay} {v v' : Viewer}

/-! ### The host -/

theorem allowed_cmd (h : HostLoop) (c : HostCmd) :
  ∀ m ∈ (h.cmd c).2, m.Allowed
  := by
  intro m hm
  cases c with
  | output | resize | title | typing =>
    rw [List.mem_singleton.mp hm]
    exact fun _ => rfl
  | control =>
    rw [List.mem_singleton.mp hm]
    trivial

theorem allowed_greet (h : HostLoop) (p : Presence) :
  ∀ m ∈ (h.greet p).2, m.Allowed
  := by
  unfold HostLoop.greet
  split
  · exact fun _ hm => nomatch hm
  · intro m hm
    rcases List.mem_cons.mp hm with rfl | hm
    · exact fun _ => rfl
    · split at hm
      · cases hm
      · rw [List.mem_singleton.mp hm]
        exact fun _ => rfl

theorem allowed_greetAll (h : HostLoop) (ps : List Presence) :
  ∀ m ∈ (h.greetAll ps).2, m.Allowed
  := by
  induction ps generalizing h with
  | nil => exact fun _ hm => nomatch hm
  | cons p ps ih =>
    intro m hm
    rcases List.mem_append.mp hm with hm | hm
    · exact allowed_greet h p m hm
    · exact ih _ m hm

/-- What the host sends is its own, and what it lets through was allowed. -/
theorem allowed_recv (h : HostLoop) {m : RelayMsg} (hm : m.Allowed) :
  (∀ x ∈ (h.recv m).2.1, x.Allowed) ∧ ∀ e ∈ (h.recv m).2.2, e.revoked = false
  := by
  cases m with
  | participants ps =>
    exact ⟨allowed_greetAll h ps, fun _ he => nomatch he⟩
  | frame f =>
    obtain ⟨payload, revoked, seen⟩ := f
    cases payload with
    | input data =>
      refine ⟨(fun _ hx => nomatch hx), ?_⟩
      intro e he
      rw [List.mem_singleton.mp he]
      exact hm rfl
    | typing userId =>
      refine ⟨?_, fun _ he => nomatch he⟩
      intro x hx
      dsimp only [HostLoop.recv, HostLoop.openFrame] at hx
      split at hx
      · rw [List.mem_singleton.mp hx]
        exact fun _ => rfl
      · cases hx
    | resize userId size =>
      dsimp only [HostLoop.recv, HostLoop.openFrame]
      split
      · constructor
        · intro x hx
          rw [List.mem_singleton.mp hx]
          exact fun _ => rfl
        · intro e he
          rw [List.mem_singleton.mp he]
          exact hm rfl
      · exact ⟨(fun _ hx => nomatch hx), fun _ he => nomatch he⟩
    | output | info => exact ⟨(fun _ hx => nomatch hx), fun _ he => nomatch he⟩

/-! ### The relay -/

theorem key_presence (p : Presence) :
  key p = p.userId
  := rfl

theorem permits_hset (p : Presence) (u : Uuid) :
  (r.hset p).permits u = if u = p.userId then p.canWrite else r.permits u
  := by
  unfold Relay.permits Relay.hset
  dsimp only
  rw [Table.get?_upsert, key_presence]
  by_cases hu : u = p.userId
  · rw [if_pos hu, if_pos hu]
    cases r.presence.get? u <;> rfl
  · rw [if_neg hu, if_neg hu]

theorem permits_hdel (userId u : Uuid) :
  (r.hdel userId).permits u = if u = userId then false else r.permits u
  := by
  unfold Relay.permits Relay.hdel
  dsimp only
  rw [Table.get?_erase]
  split <;> rfl

theorem Relay.Guarded.publish (h : r.Guarded) {x : BusFrame} (hx : x.Allowed) :
  (r.publish x).Guarded
  := by
  refine ⟨h.host, h.hash, h.call, h.toRelay, ?_, h.toHost, h.terminal⟩
  intro y hy
  rcases List.mem_append.mp hy with hy | hy
  · exact h.bus y hy
  · rw [List.mem_singleton.mp hy]
    exact hx

/-- Writing an entry that permits nobody who is without control. -/
theorem Relay.Guarded.hset (h : r.Guarded) {p : Presence} (hhost : p.isHost = false)
    (hp : p.userId ≠ r.hostId → r.revoked p.userId = true → p.canWrite = false) :
  (r.hset p).Guarded
  := by
  refine ⟨?_, ?_, h.call, h.toRelay, h.bus, h.toHost, h.terminal⟩
  · intro q hq hisHost
    have hget := Table.get?_of_mem hq
    unfold Relay.hset at hget
    dsimp only at hget
    rw [Table.get?_upsert] at hget
    split at hget
    · cases hold : r.presence.get? (key q) <;> rw [hold] at hget <;> cases hget <;>
        cases hhost.symm.trans hisHost
    · exact h.host q (Table.mem_of_get? hget) hisHost
  · intro u hu hrevoked
    rw [permits_hset]
    split
    · rename_i heq
      exact hp (heq ▸ hu) (heq ▸ hrevoked)
    · exact h.hash u hu hrevoked

theorem Relay.Guarded.hdel (h : r.Guarded) (userId : Uuid) :
  (r.hdel userId).Guarded
  := by
  refine ⟨?_, ?_, h.call, h.toRelay, h.bus, h.toHost, h.terminal⟩
  · intro q hq
    exact h.host q (Table.mem_delete.mp hq).1
  · intro u hu hrevoked
    rw [permits_hdel]
    split
    · rfl
    · exact h.hash u hu hrevoked

/-- A change of control ends: nobody is permitted whom it leaves without control. -/
theorem Relay.Guarded.controlled (h : r.Guarded) {userId : Uuid} {enabled : Bool} {call : SetControl}
    (hcall : call = .idle ∨ call = .announce)
    (hpermits : enabled = false → userId ≠ r.hostId → r.permits userId = false) :
  (r.controlled userId enabled call).Guarded
  := by
  refine ⟨h.host, ?_, ?_, h.toRelay, h.bus, h.toHost, h.terminal⟩
  · intro u hu hrevoked
    cases enabled with
    | true => exact h.hash u hu hrevoked
    | false =>
      have hrevoked : Function.update r.revoked userId true u = true := hrevoked
      by_cases heq : u = userId
      · rw [heq]
        exact hpermits rfl (heq ▸ hu)
      · rw [Function.update_of_ne heq] at hrevoked
        exact h.hash u hu hrevoked
  · rcases hcall with rfl | rfl <;> trivial

/-- The next statement of a change of control. -/
theorem Relay.Guarded.setControl (h : r.Guarded) (hstep : r.setControl = some r') :
  r'.Guarded
  := by
  have hcall := h.call
  unfold Relay.setControl at hstep
  split at hstep
  · cases hstep
  · rename_i userId enabled heq
    rw [heq] at hcall
    split at hstep
    · rename_i hnone
      cases hstep
      apply h.controlled (.inl rfl)
      intro _ _
      rw [Relay.permits, hnone]
      rfl
    · rename_i p hp
      have hid : p.userId = userId := Table.key_of_get? hp
      split at hstep
      · rename_i hsame
        cases hstep
        apply h.controlled (.inl rfl)
        rintro rfl hne
        rcases hsame with hhost | hsame
        · exact absurd (hid ▸ h.host p (Table.mem_of_get? hp) hhost) hne
        · rw [Relay.permits, hp]
          exact hsame
      · rename_i hdiffers
        cases hstep
        refine ⟨h.host, h.hash, ⟨?_, ?_⟩, h.toRelay, h.bus, h.toHost, h.terminal⟩
        · exact Bool.eq_false_iff.mpr (fun hhost => hdiffers (.inl hhost))
        · rw [hid]
          exact hcall
  · rename_i p enabled heq
    rw [heq] at hcall
    cases hstep
    have hset : (r.hset { p with canWrite := enabled }).Guarded := by
      refine h.hset ?_ ?_
      · exact hcall.1
      intro _ hrevoked
      cases enabled with
      | false => rfl
      | true => cases (hcall.2 rfl).symm.trans hrevoked
    apply hset.controlled (.inr rfl)
    rintro rfl _
    rw [permits_hset]
    exact if_pos rfl
  · cases hstep
    have hpublish := h.publish (x := ⟨r.hostId, none, .presence⟩) trivial
    exact ⟨hpublish.host, hpublish.hash, trivial, hpublish.toRelay, hpublish.bus, hpublish.toHost,
      hpublish.terminal⟩

/-- The relay reads a message of the host. -/
theorem Relay.Guarded.fromHost (h : r.Guarded) {m : HostMsg} (hm : m.Allowed) :
  (r.fromHost m).Guarded
  := by
  cases m with
  | frame f => exact h.publish hm
  | direct userId f => exact h.publish hm
  | control userId enabled =>
    cases enabled with
    | false => exact ⟨h.host, h.hash, fun h => (by cases h), h.toRelay, h.bus, h.toHost, h.terminal⟩
    | true =>
      refine ⟨h.host, ?_, fun _ => Function.update_self _ _ _, h.toRelay, h.bus, h.toHost,
        h.terminal⟩
      intro u hu hrevoked
      have hrevoked : Function.update r.revoked userId false u = true := hrevoked
      by_cases heq : u = userId
      · rw [heq, Function.update_self] at hrevoked
        cases hrevoked
      · rw [Function.update_of_ne heq] at hrevoked
        exact h.hash u hu hrevoked

theorem allowed_forHost {f : BusFrame} (hf : f.Allowed) :
  ∀ m ∈ r.forHost f, m.Allowed
  := by
  obtain ⟨sender, dest, kind⟩ := f
  intro m hm
  cases kind with
  | data lf =>
    dsimp only [Relay.forHost] at hm
    split at hm
    · rw [List.mem_singleton.mp hm]
      exact hf
    · cases hm
  | presence =>
    rw [List.mem_singleton.mp hm]
    trivial
  | control => cases hm

/-- A step of the host, or of the relay's side of its connection. -/
theorem Relay.Guarded.host_exec (h : r.Guarded) {step : HostStep} (hstep : step.exec r = some r') :
  r'.Guarded ∧ r'.hostId = r.hostId
  := by
  cases step with
  | cmd c =>
    cases hstep
    refine ⟨⟨h.host, h.hash, h.call, ?_, h.bus, h.toHost, h.terminal⟩, rfl⟩
    intro m hm
    rcases List.mem_append.mp hm with hm | hm
    · exact h.toRelay m hm
    · exact allowed_cmd r.host c m hm
  | recv =>
    rw [HostStep.exec] at hstep
    split at hstep
    · cases hstep
    rename_i m rest heq
    have hm : m.Allowed := h.toHost m (heq ▸ List.mem_cons_self)
    obtain ⟨hmsgs, hevents⟩ := allowed_recv r.host hm
    cases hstep
    refine ⟨⟨h.host, h.hash, h.call, ?_, h.bus, ?_, ?_⟩, rfl⟩
    · intro x hx
      rcases List.mem_append.mp hx with hx | hx
      · exact h.toRelay x hx
      · exact hmsgs x hx
    · exact fun x hx => h.toHost x (heq ▸ List.mem_cons_of_mem _ hx)
    · intro e he
      rcases List.mem_append.mp he with he | he
      · exact hevents e he
      · exact h.terminal e he
  | relay =>
    rw [HostStep.exec] at hstep
    split at hstep
    · split at hstep
      · cases hstep
      rename_i m rest heq
      have hm : m.Allowed := h.toRelay m (heq ▸ List.mem_cons_self)
      have hrest : Relay.Guarded { r with toRelay := rest } :=
        ⟨h.host, h.hash, h.call, fun x hx => h.toRelay x (heq ▸ List.mem_cons_of_mem _ hx), h.bus,
          h.toHost, h.terminal⟩
      cases hstep
      refine ⟨hrest.fromHost hm, ?_⟩
      cases m <;> rfl
    · cases hstep
  | control =>
    refine ⟨h.setControl hstep, ?_⟩
    rw [HostStep.exec, Relay.setControl] at hstep
    split at hstep
    · cases hstep
    · split at hstep
      · cases hstep
        rfl
      · split at hstep
        all_goals
          cases hstep
          rfl
    all_goals
      cases hstep
      rfl
  | bus =>
    rw [HostStep.exec] at hstep
    split at hstep
    · obtain ⟨f, hf, rfl⟩ := Option.map_eq_some_iff.mp hstep
      refine ⟨⟨h.host, h.hash, h.call, h.toRelay, h.bus, ?_, h.terminal⟩, rfl⟩
      intro m hm
      rcases List.mem_append.mp hm with hm | hm
      · exact h.toHost m hm
      · exact allowed_forHost (h.bus f (List.mem_of_getElem? hf)) m hm
    · cases hstep
  | lag n =>
    rw [HostStep.exec] at hstep
    split at hstep
    · cases hstep
      exact ⟨⟨h.host, h.hash, h.call, h.toRelay, h.bus, h.toHost, h.terminal⟩, rfl⟩
    · cases hstep

/-- A step of a connection that is up to date. -/
theorem Relay.Guarded.viewer_exec (h : r.Guarded) {step : ViewerStep}
    (hv : v.stage ≠ .idle → v.userId ≠ r.hostId) (hup : step = .socket → v.UpToDate r)
    (hstep : v.exec r step = some (r', v')) :
  r'.Guarded ∧ r'.hostId = r.hostId ∧ (v'.stage ≠ .idle → v'.userId ≠ r.hostId)
  := by
  cases step with
  | join userId conn joinedAt =>
    rw [Viewer.exec] at hstep
    split at hstep
    · rename_i hidle
      cases hstep
      exact ⟨h.hset rfl (fun _ _ => rfl), rfl, fun _ => hidle.2⟩
    · cases hstep
  | send p =>
    rw [Viewer.exec] at hstep
    split at hstep
    · cases hstep
    · cases hstep
      exact ⟨h, rfl, hv⟩
  | next pos =>
    rw [Viewer.exec, Viewer.next] at hstep
    have hne : v.stage ≠ .idle := by
      intro hidle
      rw [hidle] at hstep
      cases hstep
    split at hstep
    · split at hstep
      · cases hstep
        exact ⟨h, rfl, fun _ => hv hne⟩
      · cases hstep
    · cases hstep
      exact ⟨h.publish trivial, rfl, fun _ => hv hne⟩
    · cases hstep
      exact ⟨h, rfl, fun _ => hv hne⟩
    · split at hstep
      all_goals
        cases hstep
        exact ⟨h, rfl, fun _ => hv hne⟩
    · cases hstep
      exact ⟨h.hdel v.userId, rfl, fun _ => hv hne⟩
    · cases hstep
      exact ⟨h.publish trivial, rfl, fun _ => hv hne⟩
    all_goals cases hstep
  | bus =>
    rw [Viewer.exec] at hstep
    split at hstep
    · rename_i hpump
      obtain ⟨f, -, heq⟩ := Option.map_eq_some_iff.mp hstep
      cases heq
      refine ⟨h, rfl, fun _ => ?_⟩
      have huser : (v.handle r f).userId = v.userId := by
        unfold Viewer.handle
        repeat' split
        all_goals rfl
      exact huser.symm ▸ hv (by rw [hpump]; decide)
    · cases hstep
  | socket =>
    rw [Viewer.exec] at hstep
    split at hstep
    · rename_i hpump
      have hne : v.userId ≠ r.hostId := hv (by rw [hpump]; decide)
      split at hstep
      · cases hstep
      · rename_i f rest heq
        cases hstep
        unfold Viewer.fromViewer
        split
        · rename_i hwrite
          refine ⟨h.publish ?_, rfl, fun _ => hne⟩
          intro hdrives
          obtain ⟨hpermits, hback⟩ := hup rfl f (by rw [heq]; rfl) hdrives hwrite
          by_contra hrevoked
          rw [Bool.not_eq_false] at hrevoked
          cases (h.hash v.userId hne (hback hrevoked)).symm.trans hpermits
        · exact ⟨h, rfl, fun _ => hne⟩
    · cases hstep
  | lag n =>
    rw [Viewer.exec] at hstep
    split at hstep
    · cases hstep
      exact ⟨h, rfl, hv⟩
    · cases hstep
  | close =>
    rw [Viewer.exec] at hstep
    split at hstep
    · rename_i hpump
      cases hstep
      exact ⟨h, rfl, fun _ => hv (by rw [hpump]; decide)⟩
    · cases hstep
  | fail =>
    rw [Viewer.exec] at hstep
    have hne : v.stage ≠ .idle := by
      intro hidle
      rw [hidle] at hstep
      cases hstep
    split at hstep
    · cases hstep
    · cases hstep
    all_goals
      cases hstep
      exact ⟨h, rfl, fun _ => hv hne⟩

end

/-! ### Runs -/

/-- Viewers without control never drive the host, in runs in which connections are up to date when
they read a frame. -/
theorem onlyControlled_of_upToDate {p : Pool Relay Viewer} (h : shared.system.Reaches upToDate p) :
  OnlyControlled p.shared
  := by
  have hholds : Threads.Holds Relay.Guarded
      (fun _ r v => v.stage ≠ .idle → v.userId ≠ r.hostId) p := by
    apply Threads.holds_of_reaches _ _ _ h
    · rintro r ⟨hhost, -, -, htoRelay, htoHost, hbus, -, hcall, hrevoked, hterminal, -⟩
      refine ⟨⟨fun q hq _ => hhost q hq, ?_, ?_, ?_, ?_, ?_, ?_⟩, ?_⟩
      · intro u hu _
        cases hget : r.presence.get? u with
        | none =>
          rw [Relay.permits, hget]
          rfl
        | some q =>
          have hid : q.userId = u := Table.key_of_get? hget
          exact absurd (hid ▸ hhost q (Table.mem_of_get? hget)) hu
      · rw [hcall]
        trivial
      · rw [htoRelay]
        exact fun _ hm => nomatch hm
      · rw [hbus]
        exact fun _ hm => nomatch hm
      · rw [htoHost]
        exact fun _ hm => nomatch hm
      · unfold OnlyControlled
        rw [hterminal]
        exact fun _ he => nomatch he
      · rintro i v rfl hne
        exact absurd rfl hne
    · intro p i step r' v' ⟨hguarded, hviewers⟩ hup hexec
      obtain ⟨hguarded', hid, hviewer⟩ := hguarded.viewer_exec (hviewers i)
        (by rintro rfl; exact hup) hexec
      refine ⟨hguarded', hid ▸ hviewer, fun j _ => ?_⟩
      rw [hid]
      exact hviewers j
    · intro p step r' ⟨hguarded, hviewers⟩ _ henv
      obtain ⟨hguarded', hid⟩ := hguarded.host_exec henv
      refine ⟨hguarded', fun j => ?_⟩
      rw [hid]
      exact hviewers j
  exact hholds.1.terminal

/-! ### A viewer that misses the news -/

instance (p : Pool Relay Viewer) : ∀ l : PoolStep ViewerStep HostStep, Decidable (upToDate p l)
  | .run i .socket => inferInstanceAs (Decidable ((p.threads i).UpToDate p.shared))
  | .run _ (.join _ _ _) | .run _ (.send _) | .run _ (.next _) | .run _ .bus | .run _ (.lag _)
  | .run _ .close | .run _ .fail | .env _ => .isTrue trivial

/-- A shared terminal of a host on its own. -/
def hostAlone : Pool Relay Viewer where
  shared :=
    { hostId := 1
      host := ⟨1, ⟨80, 24⟩, "shell", [], [], []⟩
      toRelay := []
      toHost := []
      presence := ⟨[⟨1, true, true, 10, 0⟩], by decide⟩
      bus := []
      hostPos := 0
      hostCall := .idle
      revoked := fun _ => true
      terminal := []
      produced := []
      learnedAt := fun _ => 0 }
  threads _ := unused

theorem init_hostAlone :
  shared.system.init hostAlone
  := by
  refine ⟨⟨?_, rfl, rfl, rfl, rfl, rfl, rfl, rfl, fun _ => rfl, rfl, rfl⟩, fun _ => rfl⟩
  intro p hp
  rw [List.mem_singleton.mp hp]
  rfl

/-- A viewer joins. -/
def joins : List (PoolStep ViewerStep HostStep) :=
  [.run 0 (.join 2 20 1), .run 0 (.next 0), .run 0 (.next 0), .run 0 (.next 0)]

/-- The host changes the control of the viewer. -/
def control (enabled : Bool) : List (PoolStep ViewerStep HostStep) :=
  [.env (.cmd (.control 2 enabled)), .env .relay, .env .control, .env .control, .env .control]

/-- The viewer types, and what it types goes to the host. -/
def types (news : ℕ) : List (PoolStep ViewerStep HostStep) :=
  [.run 0 (.send (.input [97])), .run 0 .socket] ++ List.replicate (news + 1) (.env .bus)
    ++ List.replicate (news + 1) (.env .recv)

/-- A viewer that was given control, and knows it, types. -/
theorem onlyControlled_types :
  ∃ p, shared.system.run hostAlone
      (joins ++ control true ++ [.run 0 .bus, .run 0 .bus] ++ types 2) = some p
    ∧ OnlyControlled p.shared ∧ p.shared.terminal = [.write [97] false]
  := by
  have hsome : (shared.system.runMeeting upToDate hostAlone
      (joins ++ control true ++ [.run 0 .bus, .run 0 .bus] ++ types 2)).any
        (fun p => decide (p.shared.terminal = [.write [97] false])) := by
    decide +kernel
  obtain ⟨p, hrun, hterminal⟩ := (Option.any_eq_true _ _).mp hsome
  refine ⟨p, TransitionSystem.run_of_runMeeting hrun, ?_, of_decide_eq_true hterminal⟩
  exact onlyControlled_of_upToDate (TransitionSystem.reaches_runMeeting init_hostAlone hrun)

/-- The terminal when a viewer, whose connection skips the news that control was taken from it,
types after that. -/
def missedNews : Pool Relay Viewer :=
  (shared.system.run hostAlone
    (joins ++ control true ++ [.run 0 .bus, .run 0 .bus] ++ control false ++ [.run 0 (.lag 1)]
      ++ types 3)).get (by decide +kernel)

/-- What the viewer types after control was taken from it reaches the terminal. -/
theorem not_onlyControlled_missedNews :
  ¬ ∀ p : Pool Relay Viewer, shared.system.Reachable p → OnlyControlled p.shared
  := by
  intro h
  have hreach : shared.system.Reachable missedNews :=
    TransitionSystem.reachable_run init_hostAlone _
  have hterminal : missedNews.shared.terminal = [.write [97] true] := by decide +kernel
  have hallowed := h missedNews hreach (.write [97] true) (hterminal ▸ List.mem_cons_self)
  cases hallowed

end Termoso.Live
