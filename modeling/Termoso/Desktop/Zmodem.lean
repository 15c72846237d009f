import Termoso.Client.Hosts
import Termoso.Lib.Needle
import Termoso.Lib.Transition

/-!
# ZMODEM in a terminal tab

The remote opens a transfer with a header in its output.  The pump of a tab looks for the header,
hides it and what follows, and asks the user; a transfer then runs as a task of its own, which
reads the output of the remote from a channel, the wire, until it is over.  The slot of a tab is
what the pump, the commands of the user and the tasks share: it does not say which transfer a task
that finishes has been.

The screen is compared with the output of the remote since the last offer or transfer was over.
-/

namespace Termoso.Desktop.Zmodem

open Client Needle

/-- The direction of a transfer: the remote runs `sz`, so that files come to this machine, or it
runs `rz`. -/
inductive Kind
  | receive
  | send
deriving DecidableEq

/-- `sz` opens with `**`, and this. -/
def zrqInit : Bytes := [0x18, 0x42, 0x30, 0x30]

/-- `rz` opens with `**`, and this. -/
def zrInit : Bytes := [0x18, 0x42, 0x30, 0x31]

/-- Protocol bytes kept while the user decides. -/
def offerBufferCap : ℕ := 64 * 1024

/-- The first of the openings, with what it announces. -/
def opening (data : Bytes) : Option (ℕ × Kind) :=
  let rq := (firstAt zrqInit data).map (fun i => (i, Kind.receive))
  let ri := (firstAt zrInit data).map (fun i => (i, Kind.send))
  match rq, ri with
  | some a, some b => if a.1 ≤ b.1 then some a else some b
  | some a, none => some a
  | none, some b => some b
  | none, none => none

/-- Where a header starts whose opening is at `i`: at the `**` before it, if there is one. -/
def startOf (data : Bytes) (i : ℕ) : ℕ :=
  if 2 ≤ i ∧ (data.drop (i - 2)).take 2 = [0x2a, 0x2a] then i - 2 else i

/-- Where a ZMODEM header starts in `data`, with what it announces. -/
def findHeader (data : Bytes) : Option (ℕ × Kind) :=
  (opening data).map (fun (i, kind) => (startOf data i, kind))

/-- The opening of a header. -/
def needle : Kind → Bytes
  | .receive => zrqInit
  | .send => zrInit

section
variable {data more front : Bytes} {i j start : ℕ} {kind k : Kind}

theorem needle_ne_nil (kind : Kind) :
  needle kind ≠ []
  := by
  cases kind with
  | receive => exact List.cons_ne_nil _ _
  | send => exact List.cons_ne_nil _ _

theorem length_needle (kind : Kind) :
  (needle kind).length = 4
  := by
  cases kind with
  | receive => rfl
  | send => rfl

theorem needle_injective :
  Function.Injective needle
  := by
  intro k k' h
  cases k with
  | receive =>
      cases k' with
      | receive => rfl
      | send => exact absurd h (by decide)
  | send =>
      cases k' with
      | receive => exact absurd h (by decide)
      | send => rfl

/-- The first opening in some data. -/
structure Opens (data : Bytes) (i : ℕ) (kind : Kind) : Prop where
  here : OccursAt (needle kind) data i
  first : ∀ {j k}, OccursAt (needle k) data j → i ≤ j

theorem Opens.unique (h : Opens data i kind) (h' : Opens data j k) :
  i = j ∧ kind = k
  := by
  obtain rfl : i = j := Nat.le_antisymm (h.first h'.here) (h'.first h.here)
  have hlen : (needle kind).length = (needle k).length := by rw [length_needle, length_needle]
  exact ⟨rfl, needle_injective (h.here.unique h'.here hlen)⟩

/-- The opening found is the first. -/
theorem opens_of_opening (h : opening data = some (i, kind)) :
  Opens data i kind
  := by
  have hnone : ∀ {k}, firstAt (needle k) data = none → ∀ j, ¬ OccursAt (needle k) data j :=
    fun h => (firstAt_eq_none_iff (needle_ne_nil _)).mp h
  have hsome : ∀ {k i}, firstAt (needle k) data = some i →
      OccursAt (needle k) data i ∧ ∀ j, OccursAt (needle k) data j → i ≤ j := by
    intro k i h
    obtain ⟨hhere, hfirst⟩ := (firstAt_eq_some_iff (needle_ne_nil _)).mp h
    exact ⟨hhere, fun j hj => Nat.le_of_not_lt (fun hlt => hfirst j hlt hj)⟩
  unfold opening at h
  cases hrq : firstAt zrqInit data with
  | none =>
      cases hri : firstAt zrInit data with
      | none => simp [hrq, hri] at h
      | some b =>
          obtain ⟨rfl, rfl⟩ : b = i ∧ Kind.send = kind := by simpa [hrq, hri] using h
          obtain ⟨hhere, hfirst⟩ := hsome (k := .send) hri
          refine ⟨hhere, fun {j k} hj => ?_⟩
          cases k with
          | receive => exact absurd hj (hnone (k := .receive) hrq j)
          | send => exact hfirst j hj
  | some a =>
      obtain ⟨hherea, hfirsta⟩ := hsome (k := .receive) hrq
      cases hri : firstAt zrInit data with
      | none =>
          obtain ⟨rfl, rfl⟩ : a = i ∧ Kind.receive = kind := by simpa [hrq, hri] using h
          refine ⟨hherea, fun {j k} hj => ?_⟩
          cases k with
          | receive => exact hfirsta j hj
          | send => exact absurd hj (hnone (k := .send) hri j)
      | some b =>
          obtain ⟨hhereb, hfirstb⟩ := hsome (k := .send) hri
          simp only [hrq, hri, Option.map_some] at h
          split at h
          · rename_i hle
            obtain ⟨rfl, rfl⟩ : a = i ∧ Kind.receive = kind := by simpa using h
            refine ⟨hherea, fun {j k} hj => ?_⟩
            cases k with
            | receive => exact hfirsta j hj
            | send => exact hle.trans (hfirstb j hj)
          · rename_i hlt
            obtain ⟨rfl, rfl⟩ : b = i ∧ Kind.send = kind := by simpa using h
            refine ⟨hhereb, fun {j k} hj => ?_⟩
            cases k with
            | receive => exact (Nat.le_of_not_le hlt).trans (hfirsta j hj)
            | send => exact hfirstb j hj

theorem opening_eq_none_iff :
  opening data = none ↔ ∀ i k, ¬ OccursAt (needle k) data i
  := by
  have hneedle : ∀ k, firstAt (needle k) data = none ↔ ∀ i, ¬ OccursAt (needle k) data i :=
    fun k => firstAt_eq_none_iff (needle_ne_nil k)
  have hboth : opening data = none
      ↔ firstAt (needle .receive) data = none ∧ firstAt (needle .send) data = none := by
    simp only [opening, needle]
    cases firstAt zrqInit data with
    | none =>
        cases firstAt zrInit data with
        | none => simp
        | some b => simp
    | some a =>
        cases firstAt zrInit data with
        | none => simp
        | some b =>
            simp only [Option.map_some, reduceCtorEq, and_self, iff_false]
            split
            · simp
            · simp
  rw [hboth, hneedle, hneedle]
  constructor
  · rintro ⟨hrq, hri⟩ i (_ | _)
    · exact hrq i
    · exact hri i
  · exact fun h => ⟨fun i => h i _, fun i => h i _⟩

theorem opening_eq_some_iff :
  opening data = some (i, kind) ↔ Opens data i kind
  := by
  refine ⟨opens_of_opening, fun h => ?_⟩
  cases hopening : opening data with
  | none => exact absurd h.here (opening_eq_none_iff.mp hopening _ _)
  | some found =>
      obtain ⟨j, k⟩ := found
      obtain ⟨rfl, rfl⟩ := h.unique (opens_of_opening hopening)
      rfl

/-- What is put behind leaves the first opening. -/
theorem Opens.append (h : Opens data i kind) (more : Bytes) :
  Opens (data ++ more) i kind
  := by
  refine ⟨h.here.append more, fun {j k} hj => Nat.le_of_not_lt (fun hlt => ?_)⟩
  have hle := h.here.length_le (needle_ne_nil kind)
  have hj' : OccursAt (needle k) data j := by
    apply hj.of_append
    rw [length_needle] at hle ⊢
    omega
  have := h.first hj'
  omega

/-- An opening that is first with something put before it is first without. -/
theorem Opens.of_append (h : Opens (front ++ data) (front.length + i) kind) :
  Opens data i kind
  := by
  refine ⟨(occursAt_append_left front).mp h.here, fun hj => ?_⟩
  have := h.first ((occursAt_append_left front).mpr hj)
  omega

theorem findHeader_eq_some_iff :
  findHeader data = some (start, kind) ↔ ∃ i, Opens data i kind ∧ startOf data i = start
  := by
  rw [findHeader, Option.map_eq_some_iff]
  constructor
  · rintro ⟨⟨i, k⟩, h, heq⟩
    obtain ⟨hstart, rfl⟩ := Prod.mk.inj heq
    exact ⟨i, opening_eq_some_iff.mp h, hstart⟩
  · rintro ⟨i, h, rfl⟩
    exact ⟨(i, kind), opening_eq_some_iff.mpr h, rfl⟩

theorem startOf_le (data : Bytes) (i : ℕ) :
  startOf data i ≤ i
  := by
  unfold startOf
  split
  · omega
  · exact le_rfl

theorem startOf_append (h : i ≤ data.length) (more : Bytes) :
  startOf (data ++ more) i = startOf data i
  := by
  by_cases hi : 2 ≤ i
  · have htake : ((data ++ more).drop (i - 2)).take 2 = (data.drop (i - 2)).take 2 := by
      rw [List.drop_append_of_le_length (by omega), List.take_append_of_le_length]
      rw [List.length_drop]
      omega
    rw [startOf, startOf, htake]
  · rw [startOf, startOf, if_neg (fun h => hi h.1), if_neg (fun h => hi h.1)]

/-- A header does not move when it starts behind what is put before it. -/
theorem startOf_append_left (h : front.length ≤ startOf (front ++ data) (front.length + i)) :
  startOf (front ++ data) (front.length + i) = front.length + startOf data i
  := by
  by_cases hi : 2 ≤ i
  · have hdrop : (front ++ data).drop (front.length + i - 2) = data.drop (i - 2) := by
      rw [Nat.add_sub_assoc hi, List.drop_append]
      simp
    rw [startOf, startOf, hdrop]
    by_cases hstars : (data.drop (i - 2)).take 2 = [0x2a, 0x2a]
    · rw [if_pos ⟨by omega, hstars⟩, if_pos ⟨hi, hstars⟩]
      omega
    · rw [if_neg (fun h => hstars h.2), if_neg (fun h => hstars h.2)]
  · have hstart : startOf data i = i := if_neg (fun hstars => hi hstars.1)
    rw [hstart]
    unfold startOf at h ⊢
    split
    · rename_i hstars
      rw [if_pos hstars] at h
      omega
    · rfl

theorem findHeader_nil :
  findHeader [] = none
  := rfl

/-- The header found stays where it is, whatever comes later. -/
theorem findHeader_append (h : findHeader data = some (start, kind)) (more : Bytes) :
  findHeader (data ++ more) = some (start, kind) ∧ start ≤ data.length
  := by
  obtain ⟨i, hopens, rfl⟩ := findHeader_eq_some_iff.mp h
  have hle := hopens.here.length_le (needle_ne_nil kind)
  refine ⟨findHeader_eq_some_iff.mpr ⟨i, hopens.append more, startOf_append (by omega) more⟩, ?_⟩
  have := startOf_le data i
  omega

/-- Without what came before there is no header that was not there with it. -/
theorem findHeader_none_of_append (h : findHeader (front ++ data) = none) :
  findHeader data = none
  := by
  rw [findHeader, Option.map_eq_none_iff, opening_eq_none_iff] at h ⊢
  exact fun i k hi => h (front.length + i) k ((occursAt_append_left front).mpr hi)

/-- A header that starts behind what came before is found without it. -/
theorem findHeader_of_append (h : findHeader (front ++ data) = some (start, kind))
    (hle : front.length ≤ start) :
  findHeader data = some (start - front.length, kind)
  := by
  obtain ⟨i, hopens, rfl⟩ := findHeader_eq_some_iff.mp h
  obtain ⟨j, rfl⟩ := Nat.exists_eq_add_of_le (hle.trans (startOf_le _ _))
  rw [startOf_append_left hle, Nat.add_sub_cancel_left]
  exact findHeader_eq_some_iff.mpr ⟨j, hopens.of_append, rfl⟩

end

/-- What a slot is doing. -/
inductive State
  /-- Nothing: the end of the last chunk is kept, so that a header split between chunks is seen. -/
  | idle (tail : Bytes)
  /-- A header was seen and the user asked; protocol bytes are held back until the answer. -/
  | offered (kind : Kind) (held : Bytes)
  /-- A transfer runs. -/
  | running (n : ℕ)
deriving DecidableEq

/-- A transfer: its wire and its cancellation token, what its task has taken from the wire and not
given to the protocol yet, what the task returned, and whether the slot was told. -/
structure Transfer where
  kind : Kind
  wire : List Bytes
  inbuf : Bytes
  cancelled : Bool
  returned : Option (Except String ℕ)
  finished : Bool
deriving DecidableEq

namespace Transfer

/-- The task read the end of the session. -/
def completed (x : Transfer) : Bool :=
  match x.returned with
  | some (.ok _) => true
  | _ => false

/-- What the task has not given to the protocol. -/
def left (x : Transfer) : Bytes := x.inbuf ++ x.wire.flatten

/-- The task takes a chunk from the wire. -/
def recv (x : Transfer) : Option Transfer :=
  match x.wire with
  | [] => none
  | b :: wire => some { x with wire, inbuf := x.inbuf ++ b }

/-- The protocol takes the next `k` bytes. -/
def submitWire (k : ℕ) (x : Transfer) : Option Transfer :=
  if k ≤ x.inbuf.length then some { x with inbuf := x.inbuf.drop k } else none

end Transfer

/-- What the interface is told. -/
inductive SessionEvent
  | zmodem (id : Uuid) (kind : Kind)
  | zmodemDone (id : Uuid) (ok : Bool) (files : ℕ) (error : Option String)
deriving DecidableEq

/-- A tab: its slot, its transfers so far, the events and the terminal input sent. -/
structure Tab where
  id : Uuid
  slot : State
  transfers : List Transfer
  emitted : List SessionEvent
  written : List Bytes
deriving DecidableEq

namespace Tab

variable (t : Tab)

/-- The slot of a tab is idle. -/
def isIdle : Bool :=
  match t.slot with
  | .idle _ => true
  | _ => false

/-- A transfer has read the end of its session. -/
def completed (n : ℕ) : Bool := (t.transfers[n]?).any Transfer.completed

/-- Change a transfer. -/
def setTransfer (n : ℕ) (x : Transfer) : Tab := { t with transfers := t.transfers.set n x }

@[simp]
theorem slot_setTransfer (n : ℕ) (x : Transfer) :
  (t.setTransfer n x).slot = t.slot
  := rfl

/-- A step of the task of a transfer, which is over when it has returned. -/
def task (n : ℕ) (f : Transfer → Option Transfer) : Option Tab :=
  (t.transfers[n]?).bind (fun x =>
    if x.returned.isSome then none
    else (f x).map (t.setTransfer n))

/-- Send a chunk down a wire. A wire is closed when the task that reads it has returned. -/
def send (n : ℕ) (bytes : Bytes) : Option Tab :=
  t.task n (fun x => some { x with wire := x.wire ++ [bytes] })

/-- Called by the pump for every chunk. Returns what the screen should see. -/
def filter (bytes : Bytes) : Option Bytes × Tab :=
  match t.slot with
  | .running n => (none, (t.send n bytes).getD { t with slot := .idle [] })
  | .offered kind held =>
    (none, if held.length < offerBufferCap then { t with slot := .offered kind (held ++ bytes) }
      else t)
  | .idle tail =>
    let probe := tail ++ bytes
    match findHeader probe with
    | some (start, kind) =>
      (some (bytes.take (start - tail.length)), { t with
        slot := .offered kind (probe.drop start)
        emitted := t.emitted ++ [.zmodem t.id kind] })
    | none =>
      let keep := min probe.length (zrqInit.length + 1)
      (some bytes, { t with slot := .idle (probe.drop (probe.length - keep)) })

/-- Start the transfer that was offered. -/
def beginTransfer (kind : Kind) : Except ClientError (ℕ × Tab) :=
  match t.slot with
  | .offered k held =>
    if k = kind then
      let n := t.transfers.length
      .ok (n, { t with
        slot := .running n
        transfers := t.transfers
          ++ [⟨kind, if held = [] then [] else [held], [], false, none, false⟩] })
    else .error (.invalid "the remote asked for the other direction")
  | .running _ => .error (.invalid "a transfer is already running")
  | .idle _ => .error (.invalid "no ZMODEM request pending")

/-- Cancel the token of a transfer. -/
def stop (n : ℕ) : Tab :=
  { t with transfers := t.transfers.modify n (fun x => { x with cancelled := true }) }

/-- CAN and BS, eight times each. -/
def abortSequence : Bytes := List.replicate 8 0x18 ++ List.replicate 8 0x08

/-- Decline the offer or abort a running transfer. -/
def cancel : Tab :=
  match t.slot with
  | .running n => { t.stop n with slot := .idle [] }
  | .offered _ _ => { t with
      slot := .idle []
      written := t.written ++ [abortSequence]
      emitted := t.emitted ++ [.zmodemDone t.id false 0 (some "cancelled")] }
  | .idle _ => { t with slot := .idle [] }

/-- Stop whatever runs; used when the session goes away. -/
def shutdown : Tab :=
  match t.slot with
  | .running n => { t.stop n with slot := .idle [] }
  | _ => { t with slot := .idle [] }

/-- The task of a transfer tells the slot what it returned. -/
def finish (n : ℕ) (res : Except String ℕ) : Tab :=
  { t with
    slot := .idle []
    transfers := t.transfers.modify n (fun x => { x with finished := true })
    emitted := t.emitted ++ [match res with
      | .ok files => .zmodemDone t.id true files none
      | .error e => .zmodemDone t.id false 0 (some e)] }

/-- The output belongs on the screen, unless a header follows: nothing is offered, and no transfer
runs that has not read the end of its session. -/
def watches : Bool :=
  match t.slot with
  | .idle _ => true
  | .offered _ _ => false
  | .running n => t.completed n

/-- Nothing is left unread in the wire of a transfer that has read the end of its session. -/
def NothingLeft : Prop := ∀ x ∈ t.transfers, x.completed = true → x.left = []

end Tab

/-- A tab, what has come from the remote since the last offer or transfer was over, and what of it
is on the screen. -/
structure Screen where
  tab : Tab
  came : Bytes
  shown : Bytes
deriving DecidableEq

/-- What happens to a tab. -/
inductive Label
  /-- The pump is given a chunk. -/
  | chunk (bytes : Bytes)
  /-- The user accepts an offer. -/
  | begin (kind : Kind)
  | cancel
  | shutdown
  /-- The task of a transfer reads its wire, the protocol takes bytes, the task returns, and tells
  the slot. -/
  | recv (n : ℕ)
  | submitWire (n k : ℕ)
  | return (n : ℕ) (res : Except String ℕ)
  | finish (n : ℕ)

namespace Screen

variable (s : Screen)

/-- The screen after a step. It is compared from here on when an offer or a transfer was over with
the step, unless the session ended before. -/
def move (t : Tab) (came shown : Bytes) : Screen :=
  if s.tab.watches || !t.isIdle then ⟨t, s.came ++ came, s.shown ++ shown⟩ else ⟨t, [], []⟩

/-- The task of a transfer returns. What it has not given to the protocol came after the end. -/
def taskReturns (n : ℕ) (res : Except String ℕ) (x : Transfer) (t : Tab) : Screen :=
  match res with
  | .ok _ => if s.tab.slot = .running n then ⟨t, x.left, []⟩ else s.move t [] []
  | .error _ => s.move t [] []

/-- Take a step. -/
def step : Label → Option Screen
  | .chunk bytes =>
    let (shown, t) := s.tab.filter bytes
    some (s.move t bytes (shown.getD []))
  | .begin kind =>
    match s.tab.beginTransfer kind with
    | .ok (_, t) => some (s.move t [] [])
    | .error _ => some s
  | .cancel => some (s.move s.tab.cancel [] [])
  | .shutdown => some (s.move s.tab.shutdown [] [])
  | .recv n => (s.tab.task n Transfer.recv).map (fun t => s.move t [] [])
  | .submitWire n k => (s.tab.task n (Transfer.submitWire k)).map (fun t => s.move t [] [])
  | .return n res =>
    (s.tab.transfers[n]?).bind (fun x =>
      (s.tab.task n (fun x => some { x with returned := some res })).map (s.taskReturns n res x))
  | .finish n =>
    (s.tab.transfers[n]?).bind (fun x =>
      if x.finished then none
      else x.returned.map (fun res => s.move (s.tab.finish n res) [] []))

/-- What is on the screen is what has come, up to the header of an offer or a transfer: a header
that has come is found, with the direction it announces. -/
def Showing : Prop :=
  match s.tab.slot with
  | .idle _ => findHeader s.came = none ∧ s.shown = s.came
  | .offered kind _ => ∃ start, findHeader s.came = some (start, kind)
      ∧ s.shown = s.came.take start
  | .running n => if s.tab.completed n then s.shown = s.came
      else ∃ start kind, findHeader s.came = some (start, kind) ∧ s.shown = s.came.take start

/-- A task that tells the slot what it returned leaves the offer or the transfer of another. -/
def KeepsOthers : Prop :=
  ∀ n s', s.step (.finish n) = some s' →
    (∀ kind held, s.tab.slot = .offered kind held → s'.tab.slot = s.tab.slot)
      ∧ ∀ m, m ≠ n → s.tab.slot = .running m → s'.tab.slot = s.tab.slot

/-- The output of the remote is on the screen, except for the protocol: up to each header, and from
the end of each transfer. -/
structure Faithful : Prop where
  showing : s.Showing
  nothingLeft : s.tab.NothingLeft
  keepsOthers : s.KeepsOthers

/-- What keeps the output on the screen. A header does not start in a chunk and end in another, and
comes when each transfer so far has told the slot that it is over. The end of a session is the end
of the chunks that its task has been sent, and there is no output from then until the slot is
told. -/
def Orderly : Label → Prop
  | .chunk bytes =>
    (s.tab.isIdle = true → ∀ h ∈ findHeader (s.came ++ bytes),
        s.came.length ≤ h.1 ∧ ∀ x ∈ s.tab.transfers, x.finished = true)
      ∧ (s.tab.watches = true → s.tab.isIdle = false → bytes = [])
  | .return n (.ok _) => ∀ x ∈ s.tab.transfers[n]?, x.left = []
  | _ => True

instance : DecidablePred s.Orderly
  | .chunk _ => inferInstanceAs (Decidable (_ ∧ _))
  | .begin _ | .cancel | .shutdown | .recv _ | .submitWire _ _ | .finish _ => isTrue trivial
  | .return _ (.ok _) => inferInstanceAs (Decidable (∀ _ ∈ _, _))
  | .return _ (.error _) => isTrue trivial

/-- What holds between steps that keep the output on the screen: besides, the transfers are over
except for the one that runs, and nothing has come since it has been completed. -/
structure Sound : Prop where
  showing : s.Showing
  nothingLeft : s.tab.NothingLeft
  suffix : ∀ tail, s.tab.slot = .idle tail → tail <:+ s.came
  alone : s.tab.isIdle = false → ∀ m x, s.tab.transfers[m]? = some x → s.tab.slot ≠ .running m →
    x.finished = true
  ended : ∀ n, s.tab.slot = .running n → s.tab.completed n = true → s.came = []

variable {s : Screen} {t t' : Tab} {came shown : Bytes}

theorem isIdle_of_not_watches (h : t.watches = false) :
  t.isIdle = false
  := by
  unfold Tab.watches at h
  unfold Tab.isIdle
  cases ht : t.slot with
  | idle tail =>
      rw [ht] at h
      cases h
  | offered kind held => rfl
  | running n => rfl

theorem move_of_watches (h : s.tab.watches = true) (t : Tab) (came shown : Bytes) :
  s.move t came shown = ⟨t, s.came ++ came, s.shown ++ shown⟩
  := by
  rw [move, h]
  rfl

theorem move_of_busy (h : t.isIdle = false) (came shown : Bytes) :
  s.move t came shown = ⟨t, s.came ++ came, s.shown ++ shown⟩
  := by
  rw [move, h, Bool.not_false, Bool.or_true]
  rfl

theorem tab_move (t : Tab) (came shown : Bytes) :
  (s.move t came shown).tab = t
  := by
  rw [move]
  split
  · rfl
  · rfl

/-- While output belongs on the screen, all of it is there. -/
theorem Sound.watched (h : s.Sound) (hw : s.tab.watches = true) :
  findHeader s.came = none ∧ s.shown = s.came
  := by
  have hshowing := h.showing
  unfold Showing at hshowing
  cases hslot : s.tab.slot with
  | idle tail =>
      rw [hslot] at hshowing
      exact hshowing
  | offered kind held =>
      rw [Tab.watches, hslot] at hw
      cases hw
  | running n =>
      rw [Tab.watches, hslot] at hw
      rw [hslot] at hshowing
      simp only [hw, if_true] at hshowing
      rw [h.ended n hslot hw]
      exact ⟨findHeader_nil, hshowing.trans (h.ended n hslot hw)⟩

/-- The slot gets idle, and nothing has come that belongs on the screen. -/
theorem Sound.toIdle (h : s.Sound) (hslot : t.slot = .idle []) (hleft : t.NothingLeft)
    (hcame : s.tab.watches = true → came = []) :
  (s.move t came []).Sound
  := by
  have hidle : t.isIdle = true := by rw [Tab.isIdle, hslot]
  have hshowing : (s.move t came []).Showing := by
    by_cases hw : s.tab.watches = true
    · obtain ⟨hnone, hshown⟩ := h.watched hw
      rw [move_of_watches hw, hcame hw, List.append_nil, List.append_nil, Showing]
      simp only [hslot]
      exact ⟨hnone, hshown⟩
    · rw [move, if_neg (by simp [hw, hidle]), Showing]
      simp only [hslot]
      exact ⟨findHeader_nil, trivial⟩
  refine ⟨hshowing, ?_, ?_, ?_, ?_⟩
  · rw [tab_move]
    exact hleft
  · intro tail htail
    rw [tab_move, hslot] at htail
    cases htail
    apply List.nil_suffix
  · intro hbusy
    rw [tab_move, hidle] at hbusy
    cases hbusy
  · intro n hrunning
    rw [tab_move, hslot] at hrunning
    cases hrunning

/-- While the protocol goes on, the screen shows what came before its header. -/
theorem Showing.header (h : s.Showing) (hw : s.tab.watches = false) :
  ∃ start kind, findHeader s.came = some (start, kind) ∧ s.shown = s.came.take start
    ∧ ∀ k held, s.tab.slot = .offered k held → k = kind
  := by
  unfold Showing at h
  unfold Tab.watches at hw
  cases hslot : s.tab.slot with
  | idle tail =>
      rw [hslot] at hw
      cases hw
  | offered kind held =>
      simp only [hslot] at h
      obtain ⟨start, hheader, hshown⟩ := h
      refine ⟨start, kind, hheader, hshown, ?_⟩
      rintro k _ ⟨⟩
      rfl
  | running n =>
      simp only [hslot] at h hw
      simp only [hw, Bool.false_eq_true, if_false] at h
      obtain ⟨start, kind, hheader, hshown⟩ := h
      exact ⟨start, kind, hheader, hshown, by rintro k _ ⟨⟩⟩

/-- The protocol goes on: nothing is shown, whatever comes. -/
theorem Sound.goesOn (h : s.Sound) (hw : s.tab.watches = false) (hnot : t.watches = false)
    (hoffer : ∀ kind held, t.slot = .offered kind held → ∃ held', s.tab.slot = .offered kind held')
    (hleft : t.NothingLeft)
    (halone : ∀ m x, t.transfers[m]? = some x → t.slot ≠ .running m → x.finished = true)
    (came : Bytes) :
  (s.move t came []).Sound
  := by
  have hbusy := isIdle_of_not_watches hnot
  obtain ⟨start, kind, hheader, hshown, hkind⟩ := h.showing.header hw
  obtain ⟨hheader', hle⟩ := findHeader_append hheader came
  have hshown' : s.shown = (s.came ++ came).take start := by
    rw [List.take_append_of_le_length hle, hshown]
  rw [move_of_busy hbusy, List.append_nil]
  refine ⟨?_, hleft, ?_, fun _ => halone, ?_⟩
  · unfold Showing
    cases hslot : t.slot with
    | idle tail =>
        rw [Tab.isIdle, hslot] at hbusy
        cases hbusy
    | offered k held =>
        obtain ⟨held', hslot'⟩ := hoffer k held hslot
        rw [hkind k held' hslot']
        exact ⟨start, hheader', hshown'⟩
    | running n =>
        rw [Tab.watches, hslot] at hnot
        simp only [hnot, Bool.false_eq_true, if_false]
        exact ⟨start, kind, hheader', hshown'⟩
  · intro tail htail
    rw [Tab.isIdle, htail] at hbusy
    cases hbusy
  · intro n hrunning hcompleted
    rw [Tab.watches, hrunning] at hnot
    exact absurd hcompleted (by simp [hnot])

/-- What a step of a task comes to. -/
theorem task_eq_some {f : Transfer → Option Transfer} {n : ℕ} (h : t.task n f = some t') :
  ∃ x x', t.transfers[n]? = some x ∧ x.returned = none ∧ f x = some x'
    ∧ t' = t.setTransfer n x'
  := by
  obtain ⟨x, hx, h⟩ := Option.bind_eq_some_iff.mp h
  split at h
  · cases h
  · rename_i hopen
    obtain ⟨x', hf, rfl⟩ := Option.map_eq_some_iff.mp h
    exact ⟨x, x', hx, by simpa using hopen, hf, rfl⟩

/-- Change a transfer, but not whether the one that runs has been completed. -/
theorem Sound.setTransfer (h : s.Sound) {n : ℕ} {x x' : Transfer}
    (hx : s.tab.transfers[n]? = some x) (hfinished : x'.finished = x.finished)
    (hsame : s.tab.slot = .running n → x'.completed = x.completed)
    (hleft : x'.completed = true → x'.left = []) (came : Bytes)
    (hcame : s.tab.watches = true → came = []) :
  (s.move (s.tab.setTransfer n x') came []).Sound
  := by
  have hget : ∀ m y, (s.tab.transfers.set n x')[m]? = some y →
      s.tab.transfers[m]? = some y ∨ m = n ∧ y = x' := by
    intro m y hy
    rw [List.getElem?_set] at hy
    split at hy
    · rename_i hnm
      split at hy
      · exact .inr ⟨hnm.symm, (Option.some.inj hy).symm⟩
      · cases hy
    · exact .inl hy
  have hcompleted : ∀ m, s.tab.slot = .running m →
      (s.tab.setTransfer n x').completed m = s.tab.completed m := by
    intro m hm
    rw [Tab.completed, Tab.completed, Tab.setTransfer, List.getElem?_set]
    split
    · rename_i hnm
      subst hnm
      obtain ⟨hlt, -⟩ := List.getElem?_eq_some_iff.mp hx
      rw [if_pos hlt, hx, Option.any_some, Option.any_some, hsame hm]
    · rfl
  have hwatches : (s.tab.setTransfer n x').watches = s.tab.watches := by
    rw [Tab.watches, Tab.watches, Tab.slot_setTransfer]
    cases hslot : s.tab.slot with
    | idle tail => rfl
    | offered kind held => rfl
    | running m => exact hcompleted m hslot
  have hnothing : (s.tab.setTransfer n x').NothingLeft := by
    intro y hy hdone
    obtain ⟨m, hm⟩ := List.mem_iff_getElem?.mp hy
    rcases hget m y hm with hy | ⟨-, rfl⟩
    · exact h.nothingLeft y (List.mem_of_getElem? hy) hdone
    · exact hleft hdone
  have halone : s.tab.isIdle = false → ∀ m y, (s.tab.transfers.set n x')[m]? = some y →
      s.tab.slot ≠ .running m → y.finished = true := by
    intro hbusy m y hy hslot
    rcases hget m y hy with hy | ⟨rfl, rfl⟩
    · exact h.alone hbusy m y hy hslot
    · rw [hfinished]
      exact h.alone hbusy m x hx hslot
  by_cases hw : s.tab.watches = true
  · obtain ⟨hnone, hshown⟩ := h.watched hw
    rw [move_of_watches hw, hcame hw, List.append_nil, List.append_nil]
    refine ⟨?_, hnothing, h.suffix, halone, ?_⟩
    · have hw' := hwatches.trans hw
      rw [Tab.watches, Tab.slot_setTransfer] at hw'
      rw [Showing]
      simp only [Tab.slot_setTransfer]
      cases hslot : s.tab.slot with
      | idle tail => exact ⟨hnone, hshown⟩
      | offered kind held =>
          rw [hslot] at hw'
          cases hw'
      | running m =>
          rw [hslot] at hw'
          simp only [hw', if_true]
          exact hshown
    · intro m hrunning hdone
      rw [hcompleted m hrunning] at hdone
      exact h.ended m hrunning hdone
  · have hnot : s.tab.watches = false := by simpa using hw
    apply h.goesOn hnot (hwatches.trans hnot) (fun _ held hslot => ⟨held, hslot⟩) hnothing
    apply halone (isIdle_of_not_watches hnot)

theorem completed_of_open {x : Transfer} (h : x.returned = none) :
  x.completed = false
  := by
  rw [Transfer.completed, h]

/-- A step of the task of a transfer that does not return. -/
theorem Sound.works (h : s.Sound) {n : ℕ} {f : Transfer → Option Transfer}
    (hf : ∀ x x', f x = some x' → x'.returned = x.returned ∧ x'.finished = x.finished)
    (htask : s.tab.task n f = some t) (came : Bytes) (hcame : s.tab.watches = true → came = []) :
  (s.move t came []).Sound
  := by
  obtain ⟨x, x', hx, hopen, hstep, rfl⟩ := task_eq_some htask
  obtain ⟨hreturned, hfinished⟩ := hf x x' hstep
  have hopen' := completed_of_open (hreturned.trans hopen)
  apply h.setTransfer hx hfinished _ _ came hcame
  · exact fun _ => hopen'.trans (completed_of_open hopen).symm
  · intro hdone
    rw [hopen'] at hdone
    cases hdone

/-- A chunk that comes while nothing is offered and no transfer runs. -/
theorem Sound.chunk_idle (h : s.Sound) {tail bytes : Bytes} (hslot : s.tab.slot = .idle tail)
    (horderly : s.Orderly (.chunk bytes)) :
  (s.move (s.tab.filter bytes).2 bytes ((s.tab.filter bytes).1.getD [])).Sound
  := by
  have hw : s.tab.watches = true := by rw [Tab.watches, hslot]
  have hidle : s.tab.isIdle = true := by rw [Tab.isIdle, hslot]
  obtain ⟨hnone, hshown⟩ := h.watched hw
  obtain ⟨front, hfront⟩ := h.suffix tail hslot
  have hcame : s.came ++ bytes = front ++ (tail ++ bytes) := by
    rw [← hfront, List.append_assoc]
  have hlen : s.came.length = front.length + tail.length := by
    rw [← hfront, List.length_append]
  rw [move_of_watches hw, Tab.filter, hslot]
  cases hheader : findHeader (s.came ++ bytes) with
  | none =>
      have hprobe : findHeader (tail ++ bytes) = none := by
        rw [hcame] at hheader
        apply findHeader_none_of_append hheader
      simp only [hprobe, Option.getD_some]
      refine ⟨⟨hheader, by rw [hshown]⟩, h.nothingLeft, ?_, ?_, ?_⟩
      · rintro _ ⟨⟩
        rw [hcame]
        apply List.IsSuffix.trans (List.drop_suffix _ _) (List.suffix_append _ _)
      · rintro ⟨⟩
      · rintro n ⟨⟩
  | some found =>
      obtain ⟨start, kind⟩ := found
      obtain ⟨hle, hfinished⟩ := horderly.1 hidle (start, kind) hheader
      have hprobe : findHeader (tail ++ bytes) = some (start - front.length, kind) := by
        rw [hcame] at hheader
        apply findHeader_of_append hheader
        dsimp only at hle
        omega
      simp only [hprobe, Option.getD_some]
      refine ⟨⟨start, hheader, ?_⟩, h.nothingLeft, ?_, ?_, ?_⟩
      · dsimp only at hle ⊢
        rw [hshown, List.take_append, List.take_of_length_le hle, hlen, Nat.sub_sub]
      · rintro _ ⟨⟩
      · intro _ m x hx _
        exact hfinished x (List.mem_of_getElem? hx)
      · rintro n ⟨⟩

/-- A chunk that comes while a transfer is offered is kept, or dropped, but not shown. -/
theorem Sound.chunk_offered (h : s.Sound) {kind : Kind} {held : Bytes}
    (hslot : s.tab.slot = .offered kind held) (bytes : Bytes) :
  (s.move (s.tab.filter bytes).2 bytes ((s.tab.filter bytes).1.getD [])).Sound
  := by
  have hw : s.tab.watches = false := by rw [Tab.watches, hslot]
  have hidle : s.tab.isIdle = false := by rw [Tab.isIdle, hslot]
  have halone : ∀ (m : ℕ) (x : Transfer), s.tab.transfers[m]? = some x → x.finished = true := by
    intro m x hx
    apply h.alone hidle m x hx
    rw [hslot]
    rintro ⟨⟩
  simp only [Tab.filter, hslot, Option.getD_none]
  split
  · apply @Sound.goesOn s { s.tab with slot := .offered kind (held ++ bytes) } h hw rfl ?_
      h.nothingLeft (fun m x hx _ => halone m x hx)
    rintro _ _ ⟨⟩
    exact ⟨held, hslot⟩
  · apply h.goesOn hw hw (fun _ held hslot => ⟨held, hslot⟩) h.nothingLeft
    exact fun m x hx _ => halone m x hx

/-- A chunk that comes while a transfer runs goes down its wire. -/
theorem Sound.chunk_running (h : s.Sound) {n : ℕ} {bytes : Bytes}
    (hslot : s.tab.slot = .running n) (horderly : s.Orderly (.chunk bytes)) :
  (s.move (s.tab.filter bytes).2 bytes ((s.tab.filter bytes).1.getD [])).Sound
  := by
  have hidle : s.tab.isIdle = false := by rw [Tab.isIdle, hslot]
  have hbytes : s.tab.watches = true → bytes = [] := fun hw => horderly.2 hw hidle
  simp only [Tab.filter, hslot, Option.getD_none]
  cases hsend : s.tab.send n bytes with
  | none => exact @Sound.toIdle s { s.tab with slot := .idle [] } bytes h rfl h.nothingLeft hbytes
  | some t =>
      apply h.works _ hsend bytes hbytes
      rintro x _ ⟨⟩
      exact ⟨rfl, rfl⟩

/-- The user accepts an offer. -/
theorem Sound.begin (h : s.Sound) {kind : Kind} {n : ℕ}
    (hbegin : s.tab.beginTransfer kind = .ok (n, t)) :
  (s.move t [] []).Sound
  := by
  unfold Tab.beginTransfer at hbegin
  cases hslot : s.tab.slot with
  | idle tail => simp [hslot] at hbegin
  | running m => simp [hslot] at hbegin
  | offered k held =>
      have hw : s.tab.watches = false := by rw [Tab.watches, hslot]
      have hidle : s.tab.isIdle = false := by rw [Tab.isIdle, hslot]
      simp only [hslot] at hbegin
      split at hbegin
      · obtain ⟨rfl, rfl⟩ := Prod.mk.inj (Except.ok.inj hbegin)
        apply h.goesOn hw
        · simp [Tab.watches, Tab.completed, Transfer.completed]
        · rintro _ _ ⟨⟩
        · intro x hx hdone
          rcases List.mem_append.mp hx with hx | hx
          · exact h.nothingLeft x hx hdone
          · rw [List.mem_singleton.mp hx] at hdone
            cases hdone
        · intro m x hx hm
          rcases Nat.lt_or_ge m s.tab.transfers.length with hlt | hge
          · rw [List.getElem?_append_left hlt] at hx
            apply h.alone hidle m x hx
            rw [hslot]
            rintro ⟨⟩
          · have hlt := (List.getElem?_eq_some_iff.mp hx).1
            rw [List.length_append, List.length_singleton] at hlt
            exact absurd (congrArg State.running (by omega : s.tab.transfers.length = m)) hm
      · cases hbegin

/-- The task of a transfer returns. -/
theorem Sound.returns (h : s.Sound) {n : ℕ} {res : Except String ℕ} {x : Transfer}
    (hx : s.tab.transfers[n]? = some x) (horderly : s.Orderly (.return n res))
    (htask : s.tab.task n (fun x => some { x with returned := some res }) = some t) :
  (s.taskReturns n res x t).Sound
  := by
  obtain ⟨y, x', hy, hopen, hstep, rfl⟩ := task_eq_some htask
  cases hx.symm.trans hy
  have hfinished : x'.finished = x.finished := by cases hstep; rfl
  have hleft : x'.left = x.left := by cases hstep; rfl
  have hreturned : x'.returned = some res := by cases hstep; rfl
  cases res with
  | error e =>
      have hfailed : x'.completed = false := by rw [Transfer.completed, hreturned]
      rw [taskReturns]
      apply h.setTransfer hx hfinished _ _ [] (fun _ => rfl)
      · exact fun _ => hfailed.trans (completed_of_open hopen).symm
      · intro hdone
        rw [hfailed] at hdone
        cases hdone
  | ok files =>
      have hnone : x.left = [] := horderly x hx
      rw [taskReturns]
      split
      · rename_i hslot
        rw [hnone]
        refine ⟨?_, ?_, ?_, ?_, fun _ _ _ => rfl⟩
        · have hdone : (s.tab.setTransfer n x').completed n = true := by
            have hlt := (List.getElem?_eq_some_iff.mp hx).1
            rw [Tab.completed, Tab.setTransfer, List.getElem?_set_self hlt, Option.any_some,
              Transfer.completed, hreturned]
          rw [Showing]
          simp only [Tab.slot_setTransfer, hslot, hdone, if_true]
        · intro z hz hdone
          rcases List.mem_or_eq_of_mem_set hz with hz | rfl
          · exact h.nothingLeft z hz hdone
          · rw [hleft, hnone]
        · intro tail htail
          cases hslot.symm.trans htail
        · intro _ m z hz hm
          have hne : n ≠ m := by
            rintro rfl
            exact hm hslot
          rw [Tab.setTransfer, List.getElem?_set_ne hne] at hz
          apply h.alone (by rw [Tab.isIdle, hslot]) m z hz hm
      · rename_i hslot
        apply h.setTransfer hx hfinished (fun hrunning => absurd hrunning hslot) _ [] (fun _ => rfl)
        exact fun _ => hleft.trans hnone

theorem nothingLeft_modify {n : ℕ} {f : Transfer → Transfer} (h : s.tab.NothingLeft)
    (hf : ∀ x, (f x).completed = x.completed ∧ (f x).left = x.left) :
  ∀ x ∈ s.tab.transfers.modify n f, x.completed = true → x.left = []
  := by
  intro x hx hdone
  obtain ⟨m, hm⟩ := List.mem_iff_getElem?.mp hx
  rw [List.getElem?_modify] at hm
  obtain ⟨y, hy, rfl⟩ := Option.map_eq_some_iff.mp hm
  have hy := h y (List.mem_of_getElem? hy)
  split at hdone
  · rw [if_pos ‹_›, (hf y).2]
    exact hy ((hf y).1 ▸ hdone)
  · rw [if_neg ‹_›]
    exact hy hdone

/-- The user cancels, the session goes away, or a task tells the slot that it is over. -/
theorem Sound.cancel (h : s.Sound) :
  (s.move s.tab.cancel [] []).Sound
  := by
  apply h.toIdle _ _ (fun _ => rfl)
  · unfold Tab.cancel
    split
    · rfl
    · rfl
    · rfl
  · unfold Tab.cancel
    split
    · exact nothingLeft_modify h.nothingLeft (fun _ => ⟨rfl, rfl⟩)
    · exact h.nothingLeft
    · exact h.nothingLeft

theorem Sound.shutdown (h : s.Sound) :
  (s.move s.tab.shutdown [] []).Sound
  := by
  apply h.toIdle _ _ (fun _ => rfl)
  · unfold Tab.shutdown
    split
    · rfl
    · rfl
  · unfold Tab.shutdown
    split
    · exact nothingLeft_modify h.nothingLeft (fun _ => ⟨rfl, rfl⟩)
    · exact h.nothingLeft

theorem Sound.finish (h : s.Sound) (n : ℕ) (res : Except String ℕ) :
  (s.move (s.tab.finish n res) [] []).Sound
  := by
  apply h.toIdle rfl _ (fun _ => rfl)
  exact nothingLeft_modify h.nothingLeft (fun _ => ⟨rfl, rfl⟩)

/-- An orderly step keeps the output on the screen. -/
theorem Sound.step (h : s.Sound) {l : Label} {s' : Screen} (horderly : s.Orderly l)
    (hstep : s.step l = some s') :
  s'.Sound
  := by
  cases l with
  | chunk bytes =>
      change some (s.move (s.tab.filter bytes).2 bytes ((s.tab.filter bytes).1.getD [])) = _
        at hstep
      cases Option.some.inj hstep
      cases hslot : s.tab.slot with
      | idle tail => exact h.chunk_idle hslot horderly
      | offered kind held => exact h.chunk_offered hslot bytes
      | running n => exact h.chunk_running hslot horderly
  | begin kind =>
      rw [Screen.step] at hstep
      split at hstep
      · cases hstep
        exact h.begin ‹_›
      · cases hstep
        exact h
  | cancel =>
      cases hstep
      exact h.cancel
  | shutdown =>
      cases hstep
      exact h.shutdown
  | recv n =>
      obtain ⟨t, htask, rfl⟩ := Option.map_eq_some_iff.mp hstep
      apply h.works _ htask [] (fun _ => rfl)
      intro x x' hrecv
      unfold Transfer.recv at hrecv
      split at hrecv
      · cases hrecv
      · cases hrecv
        exact ⟨rfl, rfl⟩
  | submitWire n k =>
      obtain ⟨t, htask, rfl⟩ := Option.map_eq_some_iff.mp hstep
      apply h.works _ htask [] (fun _ => rfl)
      intro x x' hsubmit
      unfold Transfer.submitWire at hsubmit
      split at hsubmit
      · cases hsubmit
        exact ⟨rfl, rfl⟩
      · cases hsubmit
  | «return» n res =>
      obtain ⟨x, hx, hstep⟩ := Option.bind_eq_some_iff.mp hstep
      obtain ⟨t, htask, rfl⟩ := Option.map_eq_some_iff.mp hstep
      exact h.returns hx horderly htask
  | finish n =>
      obtain ⟨x, hx, hstep⟩ := Option.bind_eq_some_iff.mp hstep
      split at hstep
      · cases hstep
      · obtain ⟨res, -, rfl⟩ := Option.map_eq_some_iff.mp hstep
        exact h.finish n res

/-- A task that is not over tells the slot only while nobody else has it. -/
theorem Sound.keepsOthers (h : s.Sound) :
  s.KeepsOthers
  := by
  intro n s' hstep
  obtain ⟨x, hx, hstep⟩ := Option.bind_eq_some_iff.mp hstep
  split at hstep
  · cases hstep
  rename_i hnot
  constructor
  · intro kind held hslot
    refine absurd (h.alone ?_ n x hx ?_) hnot
    · rw [Tab.isIdle, hslot]
    · rw [hslot]
      rintro ⟨⟩
  · intro m hm hslot
    refine absurd (h.alone ?_ n x hx ?_) hnot
    · rw [Tab.isIdle, hslot]
    · rw [hslot]
      rintro ⟨⟩
      exact hm rfl

end Screen

/-- A tab that is opened. -/
def opened (id : Uuid) : Screen := ⟨⟨id, .idle [], [], [], []⟩, [], []⟩

/-- The runs of a tab, in any order of what happens to it. -/
def tabs : TransitionSystem Screen Label where
  init s := ∃ id, s = opened id
  step := Screen.step

theorem init_opened (id : Uuid) :
  tabs.init (opened id)
  := ⟨id, rfl⟩

theorem sound_opened (id : Uuid) :
  (opened id).Sound
  := by
  refine ⟨⟨findHeader_nil, rfl⟩, ?_, ?_, ?_, ?_⟩
  · intro x hx
    cases hx
  · rintro _ ⟨⟩
    exact List.suffix_rfl
  · rintro ⟨⟩
  · rintro n ⟨⟩

/-- In every run whose steps are orderly, the output of the remote is on the screen up to each
header and from the end of each transfer, however it is cut into chunks, and no task disturbs the
offer or the transfer of another. -/
theorem faithful_of_reaches (s : Screen) (h : tabs.Reaches Screen.Orderly s) :
  s.Faithful
  := by
  have hsound : s.Sound := by
    apply h.invariant
    · rintro _ ⟨id, rfl⟩
      exact sound_opened id
    · exact fun _ _ _ hs horderly hstep => hs.step horderly hstep
  exact ⟨hsound.showing, hsound.nothingLeft, hsound.keepsOthers⟩

/-- What `sz` sends first. -/
def header : Bytes := [0x2a, 0x2a] ++ zrqInit

/-- A prompt of the shell. -/
def prompt : Bytes := [0x24, 0x20]

/-- A file is received, and the prompt that follows is shown. -/
def received : List Label :=
  [.chunk prompt, .chunk header, .begin .receive, .recv 0, .submitWire 0 6, .return 0 (.ok 1),
    .finish 0, .chunk prompt]

theorem faithful_received :
  ∃ s, tabs.run (opened 0) received = some s ∧ s.shown = prompt ∧ s.Faithful
  := by
  obtain ⟨s, hrun, hshown⟩ : ∃ s, tabs.runMeeting Screen.Orderly (opened 0) received = some s
      ∧ s.shown = prompt := ⟨_, rfl, by decide⟩
  refine ⟨s, TransitionSystem.run_of_runMeeting hrun, hshown, ?_⟩
  exact faithful_of_reaches s (TransitionSystem.reaches_runMeeting (init_opened 0) hrun)

/-- The `**` of a header is shown when the chunk ends there; what follows the end of a session in
its last chunk is lost; and the task of a transfer that was cancelled takes away the offer that was
made since. -/
theorem not_faithful_of_reachable :
  (¬ ∀ s, tabs.Reachable s → s.Showing)
    ∧ (¬ ∀ s, tabs.Reachable s → s.tab.NothingLeft)
    ∧ ¬ ∀ s, tabs.Reachable s → s.KeepsOthers
  := by
  have hreach : ∀ ls s, tabs.run (opened 0) ls = some s → tabs.Reachable s := fun ls s hrun =>
    TransitionSystem.Reaches.run (.init (init_opened 0)) (TransitionSystem.meets_true _ ls) hrun
  refine ⟨fun h => ?_, fun h => ?_, fun h => ?_⟩
  · obtain ⟨start, hheader, hshown⟩ := h
      ⟨⟨0, .offered .receive header, [], [.zmodem 0 .receive], []⟩, header, [0x2a, 0x2a]⟩
      (hreach [.chunk [0x2a, 0x2a], .chunk zrqInit] _ rfl)
    have hzero : findHeader header = some (0, .receive) := by decide
    cases hzero.symm.trans hheader
    exact absurd hshown (by decide)
  · have hleft := h
      ⟨⟨0, .running 0, [⟨.receive, [], prompt, false, some (.ok 1), false⟩],
        [.zmodem 0 .receive], []⟩, prompt, []⟩
      (hreach [.chunk (header ++ prompt), .begin .receive, .recv 0, .submitWire 0 6,
        .return 0 (.ok 1)] _ rfl)
    exact absurd (hleft _ (List.mem_singleton_self _) rfl) (by decide)
  · have hkeeps := h _ (hreach [.chunk header, .begin .receive, .cancel, .chunk header,
        .return 0 (.error "cancelled")] _ rfl)
    have hslot := (hkeeps 0 _ rfl).1 .receive header rfl
    cases hslot

end Termoso.Desktop.Zmodem
