import Termoso.RemoteControl
import Mathlib.Data.List.Infix

/-!
# The output of a shared terminal

A viewer that joins is to be handed the scrollback of the host as it was at some moment, and then the
output since, once and without gaps.  The host sends the scrollback when it first sees the viewer,
while its output is already handed to everyone who has subscribed.  Between the subscription and that
moment no output may reach the viewer, and the scrollback may not have been sent before.
-/

namespace Termoso.Live

/-! ### What is to hold -/

/-- What a viewer was handed of the output. -/
def Viewer.delivered (v : Viewer) : List UInt8 := v.received.flatMap Payload.bytes

/-- The scrollback of the host at a moment, and the output since. -/
def Relay.outputFrom (r : Relay) (moment : ℕ) : List UInt8 :=
  lastBytes REPLAY_BYTES (r.produced.take moment) ++ r.produced.drop moment

/-- All the host has sent was read from the bus by a connection that the host has seen. -/
structure Viewer.Settled (v : Viewer) (r : Relay) : Prop where
  stage : v.stage = .pump
  seen : v.userId ∈ r.host.seen
  read : v.pos = r.bus.length
  sent : r.toRelay = []

/-- A viewer was handed the scrollback at some moment and the output since, as far as it has come.
-/
def Viewer.Seamless (v : Viewer) (r : Relay) : Prop :=
  ∃ moment ≤ r.produced.length, v.delivered <+: r.outputFrom moment
    ∧ (v.Settled r → v.delivered = r.outputFrom moment)

/-- Every viewer whose connection did not skip a part of the bus sees the output once and without
gaps. -/
def SeamlessOutput (p : Pool Relay Viewer) : Prop :=
  ∀ i, (p.threads i).lagged = false → (p.threads i).Seamless p.shared

/-! ### Joins that go undisturbed -/

/-- The output in a frame for a viewer that the host had seen when it sent the frame. -/
def BusFrame.bytesFor (hostId userId : Uuid) (x : BusFrame) : List UInt8 :=
  match x.kind with
  | .data f =>
    match x.dest with
    | some dest => if dest = userId ∧ x.sender ≠ userId then f.payload.bytes else []
    | none => if x.sender = hostId ∧ userId ∈ f.seen then f.payload.bytes else []
  | .presence | .control _ => []

/-- The output for a viewer in some frames on the bus. -/
def Relay.busBytes (r : Relay) (frames : List BusFrame) (userId : Uuid) : List UInt8 :=
  frames.flatMap (BusFrame.bytesFor r.hostId userId)

/-- A frame of the host holds no output, or was sent after the host had seen a viewer. -/
def BusFrame.AfterSeen (x : BusFrame) (userId : Uuid) : Prop :=
  match x.kind with
  | .data f => x.dest = none → f.payload.bytes ≠ [] → userId ∈ f.seen
  | .presence | .control _ => True

/-- A connection subscribes before the host has sent the scrollback to its user, and is handed no
output that the host sent before that. -/
def Viewer.Undisturbed (v : Viewer) (r : Relay) : ViewerStep → Prop
  | .next pos => v.stage = .subscribe → r.busBytes (r.bus.take pos) v.userId = []
  | .bus => ∀ x ∈ r.bus[v.pos]?, x.AfterSeen v.userId
  | _ => True

/-- Connections that did not skip a part of the bus are not disturbed as they join. -/
def undisturbedJoins (p : Pool Relay Viewer) : PoolStep ViewerStep HostStep → Prop
  | .run i step => (p.threads i).lagged = false → (p.threads i).Undisturbed p.shared step
  | .env _ => True

/-! ### The scrollback -/

theorem lastBytes_eq (n : ℕ) (bytes : List UInt8) :
  lastBytes n bytes = bytes.drop (bytes.length - n)
  := by
  unfold lastBytes
  split
  · rfl
  · rw [Nat.sub_eq_zero_of_le (by omega), List.drop_zero]

theorem lastBytes_append (n : ℕ) (xs ys : List UInt8) :
  lastBytes n (lastBytes n xs ++ ys) = lastBytes n (xs ++ ys)
  := by
  rw [lastBytes_eq, lastBytes_eq, lastBytes_eq]
  by_cases hle : xs.length ≤ n
  · rw [Nat.sub_eq_zero_of_le hle, List.drop_zero]
  · have hlength : (xs.drop (xs.length - n)).length = n := by
      rw [List.length_drop]
      omega
    rw [List.length_append, hlength, List.length_append, ← List.drop_append_of_le_length (by omega),
      List.drop_drop]
    congr 1
    omega

theorem outputFrom_append {produced bytes : List UInt8} {moment : ℕ} (h : moment ≤ produced.length) :
  lastBytes REPLAY_BYTES ((produced ++ bytes).take moment) ++ (produced ++ bytes).drop moment
    = lastBytes REPLAY_BYTES (produced.take moment) ++ produced.drop moment ++ bytes
  := by
  rw [List.take_append_of_le_length h, List.drop_append_of_le_length h, List.append_assoc]

/-! ### The host -/

/-- The output in a message of the host for a viewer that it had seen. -/
def HostMsg.bytesFor (userId : Uuid) : HostMsg → List UInt8
  | .frame f => if userId ∈ f.seen then f.payload.bytes else []
  | .direct dest f => if dest = userId then f.payload.bytes else []
  | .control _ _ => []

/-- The output for a viewer in some messages of the host. -/
def msgBytes (msgs : List HostMsg) (userId : Uuid) : List UInt8 :=
  msgs.flatMap (HostMsg.bytesFor userId)

section
variable {r r' : Relay} {v v' : Viewer} {u : Uuid}

theorem msgBytes_append (msgs msgs' : List HostMsg) :
  msgBytes (msgs ++ msgs') u = msgBytes msgs u ++ msgBytes msgs' u
  := List.flatMap_append

theorem msgBytes_singleton (m : HostMsg) :
  msgBytes [m] u = m.bytesFor u
  := List.append_nil _

/-- A frame without output has none for anyone. -/
theorem bytesFor_frame {f : LiveFrame} (h : f.payload.bytes = []) :
  HostMsg.bytesFor u (.frame f) = []
  := by
  rw [HostMsg.bytesFor, h, ite_self]

theorem bytesFor_direct {f : LiveFrame} (h : f.payload.bytes = []) (dest : Uuid) :
  HostMsg.bytesFor u (.direct dest f) = []
  := by
  rw [HostMsg.bytesFor, h, ite_self]

theorem msgBytes_cmd (h : HostLoop) (c : HostCmd) :
  msgBytes (h.cmd c).2 u = if u ∈ h.seen then c.bytes else []
  := by
  cases c with
  | output bytes => exact msgBytes_singleton _
  | resize | title | typing =>
    rw [HostCmd.bytes, ite_self]
    exact (msgBytes_singleton _).trans (bytesFor_frame rfl)
  | control => exact (ite_self _).symm

theorem seen_cmd (h : HostLoop) (c : HostCmd) :
  (h.cmd c).1.seen = h.seen
  := by
  unfold HostLoop.cmd
  split <;> rfl

/-- A participant that is greeted is sent the scrollback when it was not seen before. -/
theorem msgBytes_greet (h : HostLoop) (p : Presence) :
  (h.greet p).1.replay = h.replay
    ∧ (u ∈ h.seen → u ∈ (h.greet p).1.seen ∧ msgBytes (h.greet p).2 u = [])
    ∧ (u ∉ h.seen → msgBytes (h.greet p).2 u = if u ∈ (h.greet p).1.seen then h.replay else [])
  := by
  unfold HostLoop.greet
  split
  · exact ⟨rfl, fun hu => ⟨hu, rfl⟩, fun hu => (if_neg hu).symm⟩
  · rename_i hfresh
    have hmsgs : ∀ info f, info.payload.bytes = [] → f.payload.bytes = h.replay →
        msgBytes (.direct p.userId info :: if h.replay = [] then [] else [.direct p.userId f]) u
          = if p.userId = u then h.replay else [] := by
      intro info f hinfo hf
      unfold msgBytes
      rw [List.flatMap_cons, bytesFor_direct hinfo, List.nil_append]
      by_cases hempty : h.replay = []
      · rw [if_pos hempty, hempty, ite_self]
        rfl
      · rw [if_neg hempty, ← hf]
        exact msgBytes_singleton _
    refine ⟨rfl, ?_, ?_⟩
    · intro hu
      refine ⟨List.mem_cons_of_mem _ hu, (hmsgs _ _ rfl rfl).trans (if_neg ?_)⟩
      rintro rfl
      exact hfresh (.inr hu)
    · intro hu
      refine (hmsgs _ _ rfl rfl).trans ?_
      by_cases heq : p.userId = u
      · rw [if_pos heq, if_pos (heq ▸ List.mem_cons_self)]
      · rw [if_neg heq, if_neg (List.not_mem_cons_of_ne_of_not_mem (Ne.symm heq) hu)]

theorem msgBytes_greetAll (h : HostLoop) (ps : List Presence) :
  (h.greetAll ps).1.replay = h.replay
    ∧ (u ∈ h.seen → u ∈ (h.greetAll ps).1.seen ∧ msgBytes (h.greetAll ps).2 u = [])
    ∧ (u ∉ h.seen →
      msgBytes (h.greetAll ps).2 u = if u ∈ (h.greetAll ps).1.seen then h.replay else [])
  := by
  induction ps generalizing h with
  | nil => exact ⟨rfl, fun hu => ⟨hu, rfl⟩, fun hu => (if_neg hu).symm⟩
  | cons p ps ih =>
    obtain ⟨hreplay, hseen, hnew⟩ := msgBytes_greet (u := u) h p
    obtain ⟨hreplay', hseen', hnew'⟩ := ih (h.greet p).1
    have hmsgs : msgBytes (h.greetAll (p :: ps)).2 u
        = msgBytes (h.greet p).2 u ++ msgBytes ((h.greet p).1.greetAll ps).2 u :=
      msgBytes_append _ _
    refine ⟨hreplay'.trans hreplay, ?_, ?_⟩
    · intro hu
      obtain ⟨hu', hnone⟩ := hseen hu
      obtain ⟨hu'', hnone'⟩ := hseen' hu'
      refine ⟨hu'', ?_⟩
      rw [hmsgs, hnone, hnone']
      rfl
    · intro hu
      rw [hmsgs, hnew hu]
      by_cases hu' : u ∈ (h.greet p).1.seen
      · obtain ⟨hu'', hnone'⟩ := hseen' hu'
        rw [if_pos hu', hnone', List.append_nil]
        exact (if_pos hu'').symm
      · rw [if_neg hu', hnew' hu', hreplay]
        rfl

theorem msgBytes_openFrame (h : HostLoop) (f : LiveFrame) :
  msgBytes (h.openFrame f).2.1 u = [] ∧ (h.openFrame f).1.seen = h.seen
    ∧ (h.openFrame f).1.replay = h.replay
  := by
  unfold HostLoop.openFrame
  split
  · exact ⟨rfl, rfl, rfl⟩
  · refine ⟨?_, rfl, rfl⟩
    dsimp only
    split
    · exact (msgBytes_singleton _).trans (bytesFor_frame rfl)
    · rfl
  · dsimp only
    split
    · exact ⟨(msgBytes_singleton _).trans (bytesFor_frame rfl), rfl, rfl⟩
    · exact ⟨rfl, rfl, rfl⟩
  · exact ⟨rfl, rfl, rfl⟩
  · exact ⟨rfl, rfl, rfl⟩

/-! ### The invariant -/

/-- What was sent for a viewer, whether it was relayed or not, is the scrollback at the moment at
which the host first saw it, and the output since; nothing was sent for those it has not seen. -/
structure Relay.Accounted (r : Relay) : Prop where
  replay : r.host.replay = lastBytes REPLAY_BYTES r.produced
  learned : ∀ u ∈ r.host.seen, r.learnedAt u ≤ r.produced.length
  sent : ∀ u, u ≠ r.hostId → r.busBytes r.bus u ++ msgBytes r.toRelay u
    = if u ∈ r.host.seen then r.outputFrom (r.learnedAt u) else []

/-- A connection that did not skip a part of the bus was handed what is for it of the part it has
read. -/
structure Viewer.Reading (r : Relay) (v : Viewer) : Prop where
  user : v.stage ≠ .idle → v.userId ≠ r.hostId
  unread : v.stage = .idle ∨ v.stage = .subscribe → v.pos = 0
  pos : v.pos ≤ r.bus.length
  delivered : v.lagged = false → v.delivered = r.busBytes (r.bus.take v.pos) v.userId

/-- The bus only grows. -/
structure Relay.Grows (r r' : Relay) : Prop where
  hostId : r'.hostId = r.hostId
  bus : r.bus <+: r'.bus

theorem Viewer.Reading.grows (h : v.Reading r) (hgrows : r.Grows r') :
  v.Reading r'
  := by
  obtain ⟨hid, frames, hbus⟩ := hgrows
  refine ⟨?_, h.unread, ?_, ?_⟩
  · rw [hid]
    exact h.user
  · rw [← hbus, List.length_append]
    exact h.pos.trans (Nat.le_add_right _ _)
  · intro hlagged
    rw [h.delivered hlagged, Relay.busBytes, Relay.busBytes, hid, ← hbus,
      List.take_append_of_le_length h.pos]

/-! ### Steps -/

theorem busBytes_publish (x : BusFrame) :
  (r.publish x).busBytes (r.publish x).bus u = r.busBytes r.bus u ++ x.bytesFor r.hostId u
  := by
  unfold Relay.busBytes Relay.publish
  rw [List.flatMap_append, List.flatMap_singleton]

/-- Publishing a frame that holds nothing for viewers. -/
theorem Relay.Accounted.publish (h : r.Accounted) {x : BusFrame}
    (hx : ∀ u, u ≠ r.hostId → x.bytesFor r.hostId u = []) :
  (r.publish x).Accounted
  := by
  refine ⟨h.replay, h.learned, ?_⟩
  intro u hu
  rw [busBytes_publish, hx u hu, List.append_nil]
  exact h.sent u hu

theorem grows_publish (x : BusFrame) :
  r.Grows (r.publish x)
  := ⟨rfl, List.prefix_append _ _⟩

/-- A frame for the host holds nothing for viewers. -/
theorem bytesFor_toHost {sender : Uuid} {kind : BusKind} (hu : u ≠ r.hostId) :
  BusFrame.bytesFor r.hostId u ⟨sender, some r.hostId, kind⟩ = []
  := by
  cases kind with
  | data f => exact if_neg (fun h => hu h.1.symm)
  | presence | control => rfl

/-- What the relay publishes of a message of the host is for the viewers that it is for. -/
theorem busBytes_fromHost (m : HostMsg) (hu : u ≠ r.hostId) :
  (r.fromHost m).busBytes (r.fromHost m).bus u = r.busBytes r.bus u ++ m.bytesFor u
  := by
  cases m with
  | frame f =>
    refine (busBytes_publish _).trans (congrArg _ ?_)
    exact if_congr (and_iff_right rfl) rfl rfl
  | direct dest f =>
    refine (busBytes_publish _).trans (congrArg _ ?_)
    exact if_congr (and_iff_left (Ne.symm hu)) rfl rfl
  | control => exact (List.append_nil _).symm

/-- A message that was read by the relay is accounted for on the bus. -/
theorem Relay.Accounted.fromHost (h : r.Accounted) {m : HostMsg} {rest : List HostMsg}
    (hm : r.toRelay = m :: rest) :
  (Relay.fromHost { r with toRelay := rest } m).Accounted
    ∧ r.Grows (Relay.fromHost { r with toRelay := rest } m)
  := by
  have hsent : ∀ u, u ≠ r.hostId →
      (Relay.fromHost { r with toRelay := rest } m).busBytes
        (Relay.fromHost { r with toRelay := rest } m).bus u ++ msgBytes rest u
          = if u ∈ r.host.seen then r.outputFrom (r.learnedAt u) else [] := by
    intro u hu
    rw [busBytes_fromHost (r := { r with toRelay := rest }) m hu, List.append_assoc, ← h.sent u hu, hm]
    rfl
  cases m with
  | frame f => exact ⟨⟨h.replay, h.learned, hsent⟩, rfl, List.prefix_append _ _⟩
  | direct dest f => exact ⟨⟨h.replay, h.learned, hsent⟩, rfl, List.prefix_append _ _⟩
  | control => exact ⟨⟨h.replay, h.learned, hsent⟩, rfl, List.prefix_refl _⟩

/-- A command: its output is sent to everyone the host has seen. -/
theorem Relay.Accounted.cmd (h : r.Accounted) (c : HostCmd) :
  Relay.Accounted { r with
    host := (r.host.cmd c).1
    toRelay := r.toRelay ++ (r.host.cmd c).2
    produced := r.produced ++ c.bytes }
  := by
  refine ⟨?_, ?_, ?_⟩
  · cases c with
    | output bytes =>
      have hreplay : (r.host.cmd (.output bytes)).1.replay
          = lastBytes REPLAY_BYTES (r.host.replay ++ bytes) := rfl
      dsimp only
      rw [hreplay, h.replay, lastBytes_append]
      rfl
    | resize | title | typing | control =>
      rw [HostCmd.bytes, List.append_nil]
      exact h.replay
  · intro u hu
    rw [seen_cmd] at hu
    dsimp only
    rw [List.length_append]
    exact (h.learned u hu).trans (Nat.le_add_right _ _)
  · intro u hu
    have hsent := h.sent u hu
    dsimp only
    rw [msgBytes_append, ← List.append_assoc, msgBytes_cmd, seen_cmd]
    by_cases hseen : u ∈ r.host.seen
    · rw [if_pos hseen] at hsent ⊢
      rw [if_pos hseen, Relay.outputFrom, outputFrom_append (h.learned u hseen)]
      exact congrArg (· ++ c.bytes) hsent
    · rw [if_neg hseen] at hsent ⊢
      rw [if_neg hseen, List.append_nil]
      exact hsent

/-- A message of the relay: participants that were not seen before are sent the scrollback. -/
theorem Relay.Accounted.recv (h : r.Accounted) (m : RelayMsg) (rest : List RelayMsg)
    (events : List TermEvent) :
  Relay.Accounted { r with
    host := (r.host.recv m).1
    toHost := rest
    toRelay := r.toRelay ++ (r.host.recv m).2.1
    terminal := events
    learnedAt := fun u =>
      if u ∈ (r.host.recv m).1.seen ∧ u ∉ r.host.seen then r.produced.length else r.learnedAt u }
  := by
  have hrecv : (r.host.recv m).1.replay = r.host.replay
      ∧ (∀ u, u ∈ r.host.seen → u ∈ (r.host.recv m).1.seen ∧ msgBytes (r.host.recv m).2.1 u = [])
      ∧ ∀ u, u ∉ r.host.seen → msgBytes (r.host.recv m).2.1 u
        = if u ∈ (r.host.recv m).1.seen then r.host.replay else [] := by
    cases m with
    | frame f =>
      refine ⟨(msgBytes_openFrame (u := 0) r.host f).2.2, ?_, ?_⟩
      · intro u hu
        obtain ⟨hbytes, hseen, -⟩ := msgBytes_openFrame (u := u) r.host f
        exact ⟨hseen.symm ▸ hu, hbytes⟩
      · intro u hu
        obtain ⟨hbytes, hseen, -⟩ := msgBytes_openFrame (u := u) r.host f
        exact hbytes.trans (if_neg (hseen.symm ▸ hu)).symm
    | participants ps =>
      refine ⟨(msgBytes_greetAll (u := 0) r.host ps).1, ?_, ?_⟩
      · exact fun u => (msgBytes_greetAll r.host ps).2.1
      · exact fun u => (msgBytes_greetAll r.host ps).2.2
  obtain ⟨hreplay, hold, hnew⟩ := hrecv
  refine ⟨hreplay.trans h.replay, ?_, ?_⟩
  · intro u hu
    dsimp only
    split
    · exact le_refl _
    · rename_i hseen
      exact h.learned u (by_contra (fun hnot => hseen ⟨hu, hnot⟩))
  · intro u hu
    have hsent := h.sent u hu
    dsimp only
    rw [msgBytes_append, ← List.append_assoc]
    by_cases hseen : u ∈ r.host.seen
    · obtain ⟨hseen', hbytes⟩ := hold u hseen
      rw [if_pos hseen] at hsent
      rw [hbytes, List.append_nil, if_pos hseen', if_neg (fun hand => hand.2 hseen)]
      exact hsent
    · rw [if_neg hseen] at hsent
      rw [hnew u hseen]
      by_cases hseen' : u ∈ (r.host.recv m).1.seen
      · rw [if_pos hseen', if_pos hseen', if_pos ⟨hseen', hseen⟩, Relay.outputFrom, h.replay,
          List.take_length, List.drop_length, List.append_nil]
        exact congrArg (· ++ lastBytes REPLAY_BYTES r.produced) hsent
      · rw [if_neg hseen', if_neg hseen', List.append_nil]
        exact hsent

/-- A step of the host, or of the relay's side of its connection. -/
theorem Relay.Accounted.host_exec (h : r.Accounted) {step : HostStep}
    (hstep : step.exec r = some r') :
  r'.Accounted ∧ r.Grows r'
  := by
  cases step with
  | cmd c =>
    cases hstep
    exact ⟨h.cmd c, rfl, List.prefix_refl _⟩
  | recv =>
    rw [HostStep.exec] at hstep
    split at hstep
    · cases hstep
    rename_i m rest _
    cases hstep
    exact ⟨h.recv m rest _, rfl, List.prefix_refl _⟩
  | relay =>
    rw [HostStep.exec] at hstep
    split at hstep
    · split at hstep
      · cases hstep
      rename_i m rest hm
      cases hstep
      exact h.fromHost hm
    · cases hstep
  | control =>
    rw [HostStep.exec, Relay.setControl] at hstep
    split at hstep
    · cases hstep
    · split at hstep
      · cases hstep
        exact ⟨⟨h.replay, h.learned, h.sent⟩, rfl, List.prefix_refl _⟩
      · split at hstep
        all_goals
          cases hstep
          exact ⟨⟨h.replay, h.learned, h.sent⟩, rfl, List.prefix_refl _⟩
    · cases hstep
      exact ⟨⟨h.replay, h.learned, h.sent⟩, rfl, List.prefix_refl _⟩
    · cases hstep
      have hpublish := h.publish (x := ⟨r.hostId, none, .presence⟩) (fun _ _ => rfl)
      exact ⟨⟨hpublish.replay, hpublish.learned, hpublish.sent⟩, rfl, List.prefix_append _ _⟩
  | bus =>
    rw [HostStep.exec] at hstep
    split at hstep
    · obtain ⟨f, hf, rfl⟩ := Option.map_eq_some_iff.mp hstep
      exact ⟨⟨h.replay, h.learned, h.sent⟩, rfl, List.prefix_refl _⟩
    · cases hstep
  | lag n =>
    rw [HostStep.exec] at hstep
    split at hstep
    · cases hstep
      exact ⟨⟨h.replay, h.learned, h.sent⟩, rfl, List.prefix_refl _⟩
    · cases hstep

theorem bytesFor_handle {x : BusFrame} (hafter : x.AfterSeen v.userId) :
  (v.handle r x).delivered = v.delivered ++ x.bytesFor r.hostId v.userId
  := by
  obtain ⟨sender, dest, kind⟩ := x
  cases kind with
  | presence =>
    unfold Viewer.handle
    dsimp only
    split <;> exact (List.append_nil _).symm
  | control enabled =>
    unfold Viewer.handle
    dsimp only
    split <;> exact (List.append_nil _).symm
  | data f =>
    have hreceived : ({ v with received := v.received ++ [f.payload] } : Viewer).delivered
        = v.delivered ++ f.payload.bytes := by
      unfold Viewer.delivered
      rw [List.flatMap_append, List.flatMap_singleton]
    unfold Viewer.handle
    dsimp only
    cases dest with
    | some dest =>
      by_cases hforMe : dest = v.userId ∧ sender ≠ v.userId
      · rw [if_pos (by simpa [Viewer.forMe] using hforMe), hreceived]
        exact congrArg _ (if_pos hforMe).symm
      · rw [if_neg (by simpa [Viewer.forMe] using hforMe)]
        exact ((congrArg _ (if_neg hforMe)).trans (List.append_nil _)).symm
    | none =>
      by_cases hsender : sender = r.hostId
      · rw [if_pos (by simpa [Viewer.forMe] using hsender), hreceived]
        refine congrArg _ ?_
        by_cases hbytes : f.payload.bytes = []
        · rw [hbytes]
          exact ((congrArg (ite _ · _) hbytes).trans (ite_self _)).symm
        · exact (if_pos ⟨hsender, hafter rfl hbytes⟩).symm
      · rw [if_neg (by simpa [Viewer.forMe] using hsender)]
        exact ((congrArg _ (if_neg (fun h => hsender h.1))).trans (List.append_nil _)).symm

/-- A connection goes on to a stage after it has subscribed. -/
theorem Viewer.Reading.goOn (hv : v.Reading r) {stage : Stage} (hne : v.stage ≠ .idle)
    (hlate : stage ≠ .idle ∧ stage ≠ .subscribe) :
  Viewer.Reading r { v with stage }
  := by
  refine ⟨fun _ => hv.user hne, ?_, hv.pos, hv.delivered⟩
  rintro (hearly | hearly)
  · exact absurd hearly hlate.1
  · exact absurd hearly hlate.2

/-- A step of a connection that is not disturbed as it joins. -/
theorem Relay.Accounted.viewer_exec (h : r.Accounted) (hv : v.Reading r) {step : ViewerStep}
    (hfree : v.lagged = false → v.Undisturbed r step) (hstep : v.exec r step = some (r', v')) :
  r'.Accounted ∧ r.Grows r' ∧ v'.Reading r'
  := by
  cases step with
  | join userId conn joinedAt =>
    rw [Viewer.exec] at hstep
    split at hstep
    · rename_i hidle
      cases hstep
      have hpos : v.pos = 0 := hv.unread (.inl hidle.1)
      refine ⟨⟨h.replay, h.learned, h.sent⟩, ⟨rfl, List.prefix_refl _⟩, fun _ => hidle.2,
        fun _ => hpos, hv.pos, ?_⟩
      intro hlagged
      have hnone := hv.delivered hlagged
      rw [hpos] at hnone
      refine Eq.trans hnone ?_
      dsimp only
      rw [hpos]
      rfl
    · cases hstep
  | send p =>
    rw [Viewer.exec] at hstep
    split at hstep
    · cases hstep
    · cases hstep
      exact ⟨h, ⟨rfl, List.prefix_refl _⟩, hv.user, hv.unread, hv.pos, hv.delivered⟩
  | next pos =>
    rw [Viewer.exec, Viewer.next] at hstep
    have hne : v.stage ≠ .idle := by
      intro hidle
      rw [hidle] at hstep
      cases hstep
    have hgoOn : ∀ stage, stage ≠ Stage.idle ∧ stage ≠ .subscribe →
        Viewer.Reading r { v with stage } := fun stage hlate => hv.goOn hne hlate
    split at hstep
    · rename_i hsubscribe
      split at hstep
      · rename_i hpos
        cases hstep
        refine ⟨h, ⟨rfl, List.prefix_refl _⟩, fun _ => hv.user hne, ?_, hpos, ?_⟩
        · rintro (hearly | hearly) <;> cases hearly
        · intro hlagged
          have hnone := hv.delivered hlagged
          rw [hv.unread (.inr hsubscribe)] at hnone
          exact hnone.trans (hfree hlagged hsubscribe).symm
      · cases hstep
    · cases hstep
      exact ⟨h.publish (fun _ _ => rfl), grows_publish _,
        (hgoOn _ (by decide)).grows (grows_publish _)⟩
    · cases hstep
      exact ⟨h, ⟨rfl, List.prefix_refl _⟩, hgoOn _ (by decide)⟩
    · split at hstep
      all_goals
        cases hstep
        exact ⟨h, ⟨rfl, List.prefix_refl _⟩, hgoOn _ (by decide)⟩
    · cases hstep
      have hgrows : r.Grows (r.hdel v.userId) := ⟨rfl, List.prefix_refl _⟩
      exact ⟨⟨h.replay, h.learned, h.sent⟩, hgrows, (hgoOn _ (by decide)).grows hgrows⟩
    · cases hstep
      exact ⟨h.publish (fun _ _ => rfl), grows_publish _,
        (hgoOn _ (by decide)).grows (grows_publish _)⟩
    all_goals cases hstep
  | bus =>
    rw [Viewer.exec] at hstep
    split at hstep
    · rename_i hpump
      obtain ⟨x, hx, heq⟩ := Option.map_eq_some_iff.mp hstep
      cases heq
      have hkeeps : (v.handle r x).stage = v.stage ∧ (v.handle r x).userId = v.userId
          ∧ (v.handle r x).lagged = v.lagged := by
        unfold Viewer.handle
        repeat' split
        all_goals exact ⟨rfl, rfl, rfl⟩
      obtain ⟨hstage, huser, hlag⟩ := hkeeps
      refine ⟨h, ⟨rfl, List.prefix_refl _⟩, ?_, ?_, ?_, ?_⟩
      · intro hne
        exact huser.symm ▸ hv.user (hstage ▸ hne)
      · intro hearly
        have hearly : v.stage = .idle ∨ v.stage = .subscribe := hstage ▸ hearly
        rw [hpump] at hearly
        rcases hearly with hearly | hearly <;> cases hearly
      · exact (List.getElem?_eq_some_iff.mp hx).1
      · intro hlagged
        have hlagged : v.lagged = false := hlag ▸ hlagged
        have hdelivered := bytesFor_handle (r := r) (hfree hlagged x hx)
        refine Eq.trans hdelivered ?_
        dsimp only
        rw [huser, hv.delivered hlagged, Relay.busBytes, Relay.busBytes, List.take_add_one, hx,
          List.flatMap_append]
        exact congrArg _ (List.flatMap_singleton _ _).symm
    · cases hstep
  | socket =>
    rw [Viewer.exec] at hstep
    split at hstep
    · rename_i hpump
      have hne : v.userId ≠ r.hostId := hv.user (by rw [hpump]; decide)
      split at hstep
      · cases hstep
      · rename_i f rest heq
        cases hstep
        have hkeeps : (v.fromViewer r f).Accounted ∧ r.Grows (v.fromViewer r f) := by
          unfold Viewer.fromViewer
          split
          · exact ⟨h.publish (fun u hu => bytesFor_toHost hu), grows_publish _⟩
          · exact ⟨h, rfl, List.prefix_refl _⟩
        obtain ⟨haccounted, hgrows⟩ := hkeeps
        have hreading := hv.grows hgrows
        exact ⟨haccounted, hgrows, hreading.user, hreading.unread, hreading.pos, hreading.delivered⟩
    · cases hstep
  | lag n =>
    rw [Viewer.exec] at hstep
    split at hstep
    · rename_i hlag
      cases hstep
      refine ⟨h, ⟨rfl, List.prefix_refl _⟩, hv.user, ?_, hlag.2, ?_⟩
      · rintro (hearly | hearly)
        · cases hlag.1.symm.trans hearly
        · cases hlag.1.symm.trans hearly
      · intro hlagged
        obtain ⟨hlagged, hn⟩ := Bool.or_eq_false_iff.mp hlagged
        have hn : n = 0 := Nat.eq_zero_of_not_pos (of_decide_eq_false hn)
        rw [hn]
        exact hv.delivered hlagged
    · cases hstep
  | close =>
    rw [Viewer.exec] at hstep
    split at hstep
    · rename_i hpump
      cases hstep
      exact ⟨h, ⟨rfl, List.prefix_refl _⟩, hv.goOn (by rw [hpump]; decide) (by decide)⟩
    · cases hstep
  | fail =>
    rw [Viewer.exec] at hstep
    have hne : v.stage ≠ .idle := by
      intro hidle
      rw [hidle] at hstep
      cases hstep
    split at hstep
    · cases hstep
    · cases hstep
    all_goals
      cases hstep
      exact ⟨h, ⟨rfl, List.prefix_refl _⟩, hv.goOn hne (by decide)⟩

/-! ### Runs -/

/-- A connection that reads what was sent for its user sees the output once and without gaps. -/
theorem Viewer.Reading.seamless (hv : v.Reading r) (h : r.Accounted) (hlagged : v.lagged = false) :
  v.Seamless r
  := by
  have hdelivered := hv.delivered hlagged
  by_cases hidle : v.stage = .idle
  · refine ⟨0, Nat.zero_le _, ?_, fun hsettled => ?_⟩
    · rw [hdelivered, hv.unread (.inl hidle)]
      exact List.nil_prefix
    · cases hidle.symm.trans hsettled.stage
  have hsent := h.sent v.userId (hv.user hidle)
  -- what was read is a part of what was sent
  have hread : v.delivered <+: r.busBytes r.bus v.userId ++ msgBytes r.toRelay v.userId := by
    rw [hdelivered]
    refine List.IsPrefix.trans ?_ (List.prefix_append _ _)
    exact List.IsPrefix.flatMap (List.take_prefix _ _) _
  rw [hsent] at hread
  by_cases hseen : v.userId ∈ r.host.seen
  · rw [if_pos hseen] at hread hsent
    refine ⟨r.learnedAt v.userId, h.learned _ hseen, hread, fun hsettled => ?_⟩
    rw [← hsent, hsettled.sent, hdelivered, hsettled.read, List.take_length]
    exact (List.append_nil _).symm
  · rw [if_neg hseen] at hread
    rw [Viewer.Seamless, List.prefix_nil.mp hread]
    exact ⟨0, Nat.zero_le _, List.nil_prefix, fun hsettled => absurd hsettled.seen hseen⟩

end

/-- Viewers see the output of the host once and without gaps, in runs in which connections are not
disturbed as they join. -/
theorem seamlessOutput_of_undisturbed {p : Pool Relay Viewer}
    (h : shared.system.Reaches undisturbedJoins p) :
  SeamlessOutput p
  := by
  have hholds : Threads.Holds Relay.Accounted (fun _ r v => v.Reading r) p := by
    apply Threads.holds_of_reaches _ _ _ h
    · rintro r ⟨-, hseen, hreplay, htoRelay, -, hbus, -, -, -, -, hproduced⟩
      refine ⟨⟨?_, ?_, ?_⟩, ?_⟩
      · rw [hreplay, hproduced]
        rfl
      · rw [hseen]
        exact fun _ hu => nomatch hu
      · intro u _
        rw [hseen, hbus, htoRelay]
        rfl
      · rintro i v rfl
        exact ⟨fun hne => absurd rfl hne, fun _ => rfl, Nat.zero_le _, fun _ => rfl⟩
    · intro p i step r' v' ⟨haccounted, hviewers⟩ hfree hexec
      obtain ⟨haccounted', hgrows, hviewer⟩ := haccounted.viewer_exec (hviewers i) hfree hexec
      exact ⟨haccounted', hviewer, fun j _ => (hviewers j).grows hgrows⟩
    · intro p step r' ⟨haccounted, hviewers⟩ _ henv
      obtain ⟨haccounted', hgrows⟩ := haccounted.host_exec henv
      exact ⟨haccounted', fun j => (hviewers j).grows hgrows⟩
  exact fun i hlagged => (hholds.2 i).seamless hholds.1 hlagged

/-! ### Output while a viewer joins -/

instance (x : BusFrame) (userId : Uuid) : Decidable (x.AfterSeen userId) :=
  match x with
  | ⟨_, _, .data _⟩ => inferInstanceAs (Decidable (_ → _ → _))
  | ⟨_, _, .presence⟩ | ⟨_, _, .control _⟩ => .isTrue trivial

instance (v : Viewer) (r : Relay) : ∀ step : ViewerStep, Decidable (v.Undisturbed r step)
  | .next _ => inferInstanceAs (Decidable (_ → _))
  | .bus => inferInstanceAs (Decidable (∀ x ∈ r.bus[v.pos]?, x.AfterSeen v.userId))
  | .join _ _ _ | .send _ | .socket | .lag _ | .close | .fail => .isTrue trivial

instance (p : Pool Relay Viewer) :
    ∀ l : PoolStep ViewerStep HostStep, Decidable (undisturbedJoins p l)
  | .run _ _ => inferInstanceAs (Decidable (_ → _))
  | .env _ => .isTrue trivial

/-- The host puts out some bytes. -/
def output (bytes : List UInt8) : List (PoolStep ViewerStep HostStep) :=
  [.env (.cmd (.output bytes)), .env .relay]

/-- The host is told of those who take part, and sends its size and the scrollback. -/
def greets : List (PoolStep ViewerStep HostStep) :=
  [.env .bus, .env .recv, .env .relay, .env .relay]

/-- A viewer joins after some output, and the host puts out more when it has seen the viewer. -/
theorem seamlessOutput_greets :
  ∃ p, shared.system.run hostAlone
      (output [97] ++ [.run 0 (.join 2 20 1), .run 0 (.next 1), .run 0 (.next 0), .run 0 (.next 0),
          .env .bus] ++ greets ++ output [98] ++ List.replicate 4 (.run 0 .bus)) = some p
    ∧ SeamlessOutput p ∧ (p.threads 0).delivered = [97, 98]
  := by
  have hsome : (shared.system.runMeeting undisturbedJoins hostAlone
      (output [97] ++ [.run 0 (.join 2 20 1), .run 0 (.next 1), .run 0 (.next 0), .run 0 (.next 0),
          .env .bus] ++ greets ++ output [98] ++ List.replicate 4 (.run 0 .bus))).any
        (fun p => decide ((p.threads 0).delivered = [97, 98])) := by
    decide +kernel
  obtain ⟨p, hrun, hdelivered⟩ := (Option.any_eq_true _ _).mp hsome
  refine ⟨p, TransitionSystem.run_of_runMeeting hrun, ?_, of_decide_eq_true hdelivered⟩
  exact seamlessOutput_of_undisturbed (TransitionSystem.reaches_runMeeting init_hostAlone hrun)

/-- The terminal when the host puts out bytes after a viewer has subscribed, and before it sees the
viewer. -/
def shownTwice : Pool Relay Viewer :=
  (shared.system.run hostAlone
    (joins ++ output [97, 98] ++ greets ++ List.replicate 4 (.run 0 .bus))).get (by decide +kernel)

/-- The viewer is handed the bytes once as they come, and once more with the scrollback. -/
theorem not_seamlessOutput_shownTwice :
  ¬ ∀ p : Pool Relay Viewer, shared.system.Reachable p → SeamlessOutput p
  := by
  intro h
  have hreach : shared.system.Reachable shownTwice :=
    TransitionSystem.reachable_run init_hostAlone _
  have hdelivered : (shownTwice.threads 0).delivered = [97, 98, 97, 98] := by decide +kernel
  have hproduced : shownTwice.shared.produced = [97, 98] := by decide +kernel
  obtain ⟨moment, -, hprefix, -⟩ := h shownTwice hreach 0 (by decide +kernel)
  -- whatever the moment, there are two bytes to hand out
  have hlength := hprefix.length_le
  rw [hdelivered, Relay.outputFrom, hproduced, lastBytes_eq, List.length_append, List.length_drop,
    List.length_drop, List.length_take] at hlength
  simp only [List.length_cons, List.length_nil] at hlength
  omega

end Termoso.Live
