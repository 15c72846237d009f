import Termoso.Server.Db
import Termoso.Lib.Threads
import Mathlib.Data.List.Dedup

/-!
# Webhooks

An audit event is written together with a delivery for each hook that wants it.  Workers claim
the deliveries that are due, up to five hundred at once, and send them in batches of one hook,
statement by statement.  A worker runs on each replica; any statement may fail, and a replica
may crash between two of them.

The database also records here what no statement reads: the batches sent, the hooks that were
switched off at some time, and the worker that has a delivery in its batches.
-/

namespace Termoso.Server

def BATCH : ℕ := 100

def MAX_ATTEMPTS : ℤ := 6

def DISABLE_AFTER : ℤ := 50

def BACKOFF_SECS : List ℤ := [30, 60, 300, 1800, 7200, 21600]

/-- Ticks in a second. -/
def second : ℤ := 1000000000

structure Webhook where
  id : Uuid
  teamId : Uuid
  url : String
  kind : String
  secretEnc : String
  actions : Option (List String)
  enabled : Bool
  lastStatus : Option ℤ
  lastError : Option String
  lastDeliveredAt : Option DateTime
  failures : ℤ
deriving DecidableEq

instance : Keyed Webhook Uuid := ⟨Webhook.id⟩

structure AuditEvent where
  id : ℕ
  teamId : Uuid
  action : String
  details : String
deriving DecidableEq

instance : Keyed AuditEvent ℕ := ⟨AuditEvent.id⟩

inductive DeliveryStatus
  | pending
  | sending
  | ok
  | dead
deriving DecidableEq

/-- A delivery of an event to a hook. -/
structure Delivery where
  id : ℕ
  webhookId : Uuid
  eventId : ℕ
  attempt : ℤ
  nextAt : DateTime
  status : DeliveryStatus
  responseStatus : Option ℤ
  responseBody : Option String
  deliveredAt : Option DateTime
deriving DecidableEq

instance : Keyed Delivery ℕ := ⟨Delivery.id⟩

@[simp] theorem key_webhook (h : Webhook) : key h = h.id := rfl
@[simp] theorem key_auditEvent (e : AuditEvent) : key e = e.id := rfl
@[simp] theorem key_delivery (d : Delivery) : key d = d.id := rfl

/-- What came of sending a batch. -/
structure SendResult where
  status : Option ℤ
  snippet : String
  ok : Bool
deriving DecidableEq

/-- A batch that was sent: the hook, the events in it, and whether it was taken. -/
structure Sent where
  webhookId : Uuid
  events : List ℕ
  ok : Bool
deriving DecidableEq

/-- The outbox. -/
structure Outbox where
  hooks : Table Webhook
  events : Table AuditEvent
  deliveries : Table Delivery
  nextEvent : ℕ
  nextDelivery : ℕ
  sent : List Sent
  switchedOff : Uuid → Bool
  holder : ℕ → Option ℕ

/-! ### Recording an event -/

/-- Whether a text starts with a pattern, in which an underscore stands for any character. -/
def likePrefix : List Char → List Char → Bool
  | [], _ => true
  | p :: ps, c :: cs => (decide (p = '_') || decide (p = c)) && likePrefix ps cs
  | _ :: _, [] => false

/-- Whether the filter of a hook lets an action through. -/
def Webhook.wants (h : Webhook) (action : String) : Bool :=
  h.actions.all (fun actions => actions.any (fun a =>
    decide (a = action)
      || (decide (a.toList.getLast? = some '.') && likePrefix a.toList action.toList)))

namespace Outbox

/-- Insert a delivery for each of some hooks. -/
def enqueue (eventId : ℕ) (now : DateTime) : Outbox → List Webhook → Outbox
  | s, [] => s
  | s, h :: hs =>
    match s.deliveries.insert ⟨s.nextDelivery, h.id, eventId, 0, now, .pending, none, none, none⟩ with
    | none => s
    | some deliveries =>
      enqueue eventId now { s with deliveries, nextDelivery := s.nextDelivery + 1 } hs

/-- Record an event, with a delivery for every enabled hook of the team that wants it. -/
def record (s : Outbox) (teamId : Uuid) (action details : String) (now : DateTime) : Outbox :=
  match s.events.insert ⟨s.nextEvent, teamId, action, details⟩ with
  | none => s
  | some events =>
    enqueue s.nextEvent now { s with events, nextEvent := s.nextEvent + 1 }
      (s.hooks.select (fun h => decide (h.teamId = teamId) && h.enabled && h.wants action))

/-! ### Hooks -/

/-- What an update of a hook sets. -/
structure HookUpdate where
  url : String
  kind : String
  actions : Option (List String)
  enabled : Bool
  secretEnc : Option String

/-- Write the settings of a hook. -/
def updateHook (s : Outbox) (teamId id : Uuid) (u : HookUpdate) : Outbox :=
  { s with
    hooks := s.hooks.update (fun h => decide (h.teamId = teamId) && decide (h.id = id))
      (fun h => { h with
        url := u.url
        kind := u.kind
        actions := u.actions
        enabled := u.enabled
        secretEnc := u.secretEnc.getD h.secretEnc
        failures := if u.enabled && !h.enabled then 0 else h.failures
        lastError := if u.enabled && !h.enabled then none else h.lastError })
      (fun _ => rfl)
    switchedOff := fun w => s.switchedOff w || (decide (w = id) && !u.enabled) }

/-- Delete a hook, and its deliveries with it. -/
def deleteHook (s : Outbox) (teamId id : Uuid) : Outbox :=
  if (s.hooks.get? id).any (fun h => decide (h.teamId = teamId)) then
    { s with
      hooks := s.hooks.erase id
      deliveries := s.deliveries.delete (fun d => decide (d.webhookId = id)) }
  else s

end Outbox

/-! ### Batches -/

/-- A delivery as it was claimed. -/
structure Claim where
  id : ℕ
  webhookId : Uuid
  eventId : ℕ
  attempt : ℤ
deriving DecidableEq

/-- What a pass gets of a delivery that it claims. -/
def Delivery.claim (d : Delivery) : Claim := ⟨d.id, d.webhookId, d.eventId, d.attempt⟩

/-- A delivery after a failed send: scheduled for its next attempt, or given up. -/
def Delivery.retried (d : Delivery) (nextAttempt : ℤ) (result : SendResult) (now : DateTime) :
    Delivery :=
  if nextAttempt ≥ MAX_ATTEMPTS then
    { d with
      status := .dead
      attempt := nextAttempt
      responseStatus := result.status
      responseBody := some result.snippet }
  else
    { d with
      status := .pending
      attempt := nextAttempt
      responseStatus := result.status
      responseBody := some result.snippet
      nextAt := now + (BACKOFF_SECS.getD (min nextAttempt.toNat (BACKOFF_SECS.length - 1)) 0)
        * second }

theorem Delivery.key_retried (d : Delivery) (nextAttempt : ℤ) (result : SendResult) (now : DateTime) :
  key (d.retried nextAttempt result now) = key d
  := by
  rw [Delivery.retried]
  split
  · rfl
  · rfl

/-- Deliveries of one hook, to be sent together. -/
structure Batch where
  webhookId : Uuid
  rows : List Claim
deriving DecidableEq

/-- Pieces of at most `n` elements, in order, `fuel` at most. -/
def chunksFuel {α : Type} (n : ℕ) : ℕ → List α → List (List α)
  | 0, _ => []
  | _ + 1, [] => []
  | fuel + 1, a :: as => (a :: as).take n :: chunksFuel n fuel ((a :: as).drop n)

/-- Pieces of at most `n` elements, in order. -/
def chunks {α : Type} (n : ℕ) (l : List α) : List (List α) := chunksFuel n l.length l

/-- Group what was claimed by hook, and cut it into batches. -/
def batches (claimed : List Claim) : List Batch :=
  (((claimed.map Claim.webhookId).dedup).insertionSort (· ≤ ·)).flatMap (fun w =>
    (chunks BATCH (claimed.filter (fun c => decide (c.webhookId = w)))).map (Batch.mk w))

/-! ### Workers -/

/-- The statement that a batch is at. -/
inductive BatchAt
  /-- Read the hook. -/
  | load
  /-- Give up the deliveries of a hook that is off or gone. -/
  | bury
  /-- Decrypt the secret, and read the events. -/
  | fetch (hook : Webhook)
  /-- Send the events. -/
  | send (hook : Webhook) (events : List AuditEvent)
  /-- Mark the deliveries as delivered. -/
  | markOk (result : SendResult)
  /-- Note the delivery with the hook. -/
  | markHook (result : SendResult)
  /-- Schedule the next attempts, for the rows left. -/
  | retry (hook : Webhook) (result : SendResult) (left : List Claim)
  /-- Count the failure against the hook. -/
  | countFailure (hook : Webhook) (result : SendResult)
  /-- Record that the hook was switched off. -/
  | announce (hook : Webhook) (result : SendResult)
  /-- Put the rows back after an error. -/
  | putBack
deriving DecidableEq

/-- Where a worker is: about to claim, in a batch with others to come, or done. -/
inductive PassAt
  | claim (only : Option Uuid)
  | batch (b : Batch) (pc : BatchAt) (rest : List Batch)
  | done
deriving DecidableEq

/-- A pass starts, its next statement succeeds, a batch is answered, a statement fails, or the
replica crashes. `skipped` are the rows that others have locked. -/
inductive PassEvent
  | start (only : Option Uuid)
  | next (now : DateTime) (skipped : List ℕ)
  | answered (result : SendResult)
  | error
  | crash

/-- The identifiers of the deliveries in batches. -/
def idsOf (bs : List Batch) : List ℕ := bs.flatMap (fun b => b.rows.map Claim.id)

/-- The deliveries in the batches of a pass, the one it is in and those to come. -/
def PassAt.held : PassAt → List ℕ
  | .batch b _ rest => idsOf (b :: rest)
  | _ => []

/-- Go on with the next batch. -/
def nextBatch : List Batch → PassAt
  | [] => .done
  | b :: rest => .batch b .load rest

namespace Outbox

/-- Change the deliveries with some identifiers. -/
def setRows (s : Outbox) (ids : List ℕ) (f : Delivery → Delivery) (hf : ∀ d, key (f d) = key d) :
    Outbox :=
  { s with deliveries := s.deliveries.update (fun d => decide (d.id ∈ ids)) f hf }

/-- Note who has deliveries in its batches. -/
def hold (s : Outbox) (ids : List ℕ) (thread : Option ℕ) : Outbox :=
  { s with holder := fun id => if id ∈ ids then thread else s.holder id }

/-- The deliveries to claim: pending and due, the oldest five hundred that nobody has locked. -/
def due (s : Outbox) (only : Option Uuid) (now : DateTime) (skipped : List ℕ) : List Delivery :=
  ((s.deliveries.select (fun d => decide (d.status = .pending) && decide (d.nextAt ≤ now)
    && only.all (fun w => decide (d.webhookId = w)) && decide (d.id ∉ skipped))).insertionSort
      (fun d e => d.id ≤ e.id)).take 500

/-- Claim deliveries. -/
def claimed (s : Outbox) (thread : ℕ) (rows : List Delivery) : Outbox :=
  (s.setRows (rows.map Delivery.id) (fun d => { d with status := .sending })
    (fun _ => rfl)).hold (rows.map Delivery.id) (some thread)

/-- Schedule the next attempt at a delivery, or give it up. -/
def retried (s : Outbox) (c : Claim) (result : SendResult) (now : DateTime) : Outbox :=
  s.setRows [c.id] (fun d => d.retried (c.attempt + 1) result now)
    (fun d => d.key_retried (c.attempt + 1) result now)

/-- Count a failure against a hook, and switch it off after too many. -/
def failureCounted (s : Outbox) (hook : Webhook) (result : SendResult) : Outbox :=
  let failures := hook.failures + 1
  let disable := decide (failures ≥ DISABLE_AFTER)
  { s with
    hooks := s.hooks.set hook.id (fun h => { h with
        lastStatus := result.status
        lastError := some (result.status.elim result.snippet (fun n => "HTTP " ++ toString n))
        failures
        enabled := if disable then false else h.enabled })
      (fun _ => rfl)
    switchedOff := fun w => s.switchedOff w || (decide (w = hook.id) && disable) }

end Outbox

namespace Batch

variable (b : Batch)

/-- The identifiers of the deliveries of a batch. -/
def ids : List ℕ := b.rows.map Claim.id

/-- Leave a batch, and go on with the next one. -/
def finish (s : Outbox) (rest : List Batch) : Outbox × PassAt :=
  (s.hold b.ids none, nextBatch rest)

/-- Run the next statement of a batch. -/
def exec (s : Outbox) (now : DateTime) (rest : List Batch) : BatchAt → Option (Outbox × PassAt)
  | .load =>
    match s.hooks.get? b.webhookId with
    | none => some (s, .batch b .bury rest)
    | some hook =>
      if !hook.enabled then some (s, .batch b .bury rest)
      else some (s, .batch b (.fetch hook) rest)
  | .bury => some (b.finish (s.setRows b.ids (fun d => { d with status := .dead }) (fun _ => rfl)) rest)
  | .fetch hook =>
    some (s, .batch b (.send hook
      ((s.events.select (fun e => decide (e.id ∈ b.rows.map Claim.eventId))).insertionSort
        (fun e f => e.id ≤ f.id))) rest)
  | .send _ _ => none
  | .markOk result =>
    some (s.setRows b.ids (fun d => { d with
        status := .ok
        attempt := d.attempt + 1
        responseStatus := result.status
        responseBody := some result.snippet
        deliveredAt := some now }) (fun _ => rfl), .batch b (.markHook result) rest)
  | .markHook result =>
    some (b.finish { s with
      hooks := s.hooks.set b.webhookId (fun h => { h with
        lastStatus := result.status
        lastError := none
        lastDeliveredAt := some now
        failures := 0 }) (fun _ => rfl) } rest)
  | .retry hook result [] => some (s, .batch b (.countFailure hook result) rest)
  | .retry hook result (c :: left) =>
    some (s.retried c result now, .batch b (.retry hook result left) rest)
  | .countFailure hook result =>
    if hook.failures + 1 ≥ DISABLE_AFTER then
      some (s.failureCounted hook result, .batch b (.announce hook result) rest)
    else some (b.finish (s.failureCounted hook result) rest)
  | .announce hook _ => some (b.finish (s.record hook.teamId "webhook.disabled" hook.url now) rest)
  | .putBack =>
    some (b.finish (s.setRows b.ids (fun d => { d with
      status := .pending
      nextAt := now + 60 * second }) (fun _ => rfl)) rest)

/-- Take the answer to a batch that was sent. -/
def answer (s : Outbox) (rest : List Batch) (events : List AuditEvent) (hook : Webhook)
    (result : SendResult) : Outbox × PassAt :=
  ({ s with sent := s.sent ++ [⟨b.webhookId, events.map AuditEvent.id, result.ok⟩] },
    .batch b (if result.ok then .markOk result else .retry hook result b.rows) rest)

/-- A statement of a batch fails: the rows are put back, and the pass ends when that fails. A failed
record of an event is only logged. -/
def fail (s : Outbox) (rest : List Batch) : BatchAt → Option (Outbox × PassAt)
  | .send _ _ => none
  | .announce _ _ => some (b.finish s rest)
  | .putBack => some (s.hold (idsOf (b :: rest)) none, .done)
  | _ => some (s, .batch b .putBack rest)

end Batch

/-- A step of a pass. -/
def deliverPass (thread : ℕ) (e : PassEvent) (s : Outbox) (t : PassAt) : Option (Outbox × PassAt) :=
  match e, t with
  | .start only, .done => some (s, .claim only)
  | .next now skipped, .claim only =>
    let rows := s.due only now skipped
    some (s.claimed thread rows, nextBatch (batches (rows.map Delivery.claim)))
  | .next now _, .batch b pc rest => b.exec s now rest pc
  | .answered result, .batch b (.send hook events) rest => some (b.answer s rest events hook result)
  | .error, .claim _ => some (s, .done)
  | .error, .batch b pc rest => b.fail s rest pc
  | .crash, .claim _ => some (s, .done)
  | .crash, .batch b _ rest => some (s.hold (idsOf (b :: rest)) none, .done)
  | _, _ => none

/-- An event is recorded, or a hook is updated or deleted. -/
inductive OutboxEvent
  | record (teamId : Uuid) (action details : String) (now : DateTime)
  | updateHook (teamId id : Uuid) (u : Outbox.HookUpdate)
  | deleteHook (teamId id : Uuid)

/-- Passes of any number of replicas, beside other requests. At first there are hooks, and nothing
is recorded. -/
def passes : Threads Outbox PassAt PassEvent OutboxEvent where
  init s := s.events = .empty ∧ s.deliveries = .empty ∧ s.sent = []
    ∧ (∀ h ∈ s.hooks.rows, h.enabled = false → s.switchedOff h.id = true) ∧ ∀ id, s.holder id = none
  start t := t = .done
  exec := deliverPass
  env e s :=
    match e with
    | .record teamId action details now => some (s.record teamId action details now)
    | .updateHook teamId id u => some (s.updateHook teamId id u)
    | .deleteHook teamId id => some (s.deleteHook teamId id)

end Termoso.Server
