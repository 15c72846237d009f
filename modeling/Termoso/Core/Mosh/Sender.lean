import Termoso.Core.Mosh.Proto
import Termoso.Lib.Transition
import Mathlib.Data.List.InsertIdx
import Mathlib.Data.List.TakeWhile
import Mathlib.Logic.Function.Basic
import Mathlib.Algebra.Order.Group.Nat

/-!
# The sender of keystrokes

The sender keeps a log of what was typed, and the states of it that the server may hold: each a
number and the length of the log it stands for.  It assumes that the server holds one of them, and
sends what was typed since, as an instruction from that state to the latest one.  The log is cut
where every state starts, and a state in the middle is dropped when there are too many.

An instruction is right when its diff is what was typed between the states it names.  A server that
applies such instructions, in any order and any number of times, holds what was typed.
-/

namespace Termoso.Core.Mosh

open Wire (Bytes)

def ACK_INTERVAL : ℕ := 3000
def ACK_DELAY : ℕ := 100
def SEND_MINDELAY : ℕ := 8
def SHUTDOWN_RETRIES : ℕ := 16
def ACTIVE_RETRY_TIMEOUT : ℕ := 10000
def MAX_SENT_STATES : ℕ := 32

/-- A state of the user-input log the server may hold: the log prefix of length `len`, numbered
`num`. -/
structure SentState where
  num : ℕ
  timestamp : ℕ
  len : ℕ
deriving DecidableEq

/-- The log from its position `base` on, the states sent, and the timers. -/
structure Sender where
  log : List UserInstruction
  base : ℕ
  sent : List SentState
  assumed : ℕ
  ackNum : ℕ
  pendingDataAck : Bool
  nextAckTime : ℕ
  nextSendTime : Option ℕ
  mindelayClock : Option ℕ
  lastHeard : ℕ
  shutdownInProgress : Bool
  shutdownTries : ℕ
  shutdownStart : ℕ
  lastAckSent : ℕ
deriving DecidableEq

namespace Sender

def new (now : ℕ) : Sender where
  log := []
  base := 0
  sent := [⟨0, now, 0⟩]
  assumed := 0
  ackNum := 0
  pendingDataAck := false
  nextAckTime := now
  nextSendTime := some now
  mindelayClock := none
  lastHeard := 0
  shutdownInProgress := false
  shutdownTries := 0
  shutdownStart := 0
  lastAckSent := 0

variable (s : Sender)

def currentLen : ℕ := s.base + s.log.length

def push (inst : UserInstruction) : Sender := { s with log := s.log ++ [inst] }

def diffFrom (len : ℕ) : Bytes :=
  if s.currentLen ≤ len then [] else encodeUserMessage (s.log.drop (len - s.base))

/-- Assume the latest of the states sent, after the first, that were all sent recently. -/
def updateAssumedReceiverState (now rto : ℕ) : Sender :=
  { s with
    assumed := (s.sent.tail.takeWhile
      (fun st => decide (now - st.timestamp < rto + ACK_DELAY))).length }

/-- Forget log entries every sent state already includes. -/
def rationalizeStates : Option Sender :=
  s.sent.head?.map fun front =>
    { s with
      log := s.log.drop (front.len - s.base)
      base := s.base + min (front.len - s.base) s.log.length }

/-- Choose the assumed state and set the timers. The clock is read twice. -/
def calculateTimers (t : ℕ → ℕ) (rto sendInterval : ℕ) : Option Sender := do
  let now := t 0
  let s ← (s.updateAssumedReceiverState (t 1) rto).rationalizeStates
  let nextAckTime :=
    if s.pendingDataAck && decide (now + ACK_DELAY < s.nextAckTime) then now + ACK_DELAY
    else s.nextAckTime
  let back ← s.sent.getLast?
  let front ← s.sent.head?
  let assumed ← s.sent[s.assumed]?
  let heardRecently := decide (now < s.lastHeard + ACTIVE_RETRY_TIMEOUT)
  let timers :=
    if s.currentLen ≠ back.len then
      let md := s.mindelayClock.getD now
      (some md, some (max (md + SEND_MINDELAY) (back.timestamp + sendInterval)))
    else if s.currentLen ≠ assumed.len && heardRecently then
      let sendTime := back.timestamp + sendInterval
      (s.mindelayClock,
        some (s.mindelayClock.elim sendTime (fun md => max sendTime (md + SEND_MINDELAY))))
    else if s.currentLen ≠ front.len && heardRecently then
      (s.mindelayClock, some (back.timestamp + rto + ACK_DELAY))
    else (s.mindelayClock, none)
  return { s with
    mindelayClock := timers.1
    nextSendTime := timers.2
    nextAckTime :=
      if s.shutdownInProgress || decide (s.ackNum = SHUTDOWN_NUM) then back.timestamp + sendInterval
      else nextAckTime }

/-- Add a state, and drop one from the middle when there are too many, so that the oldest and the
newest both survive. -/
def addSentState (timestamp num len : ℕ) : Sender :=
  let sent := s.sent ++ [⟨num, timestamp, len⟩]
  if MAX_SENT_STATES < sent.length then
    let sent := sent.eraseIdx (sent.length - 16)
    { s with sent := sent, assumed := min s.assumed (sent.length - 1) }
  else { s with sent := sent }

/-- Put an instruction on the wire, from the assumed state. -/
def sendInFragments (diff : Bytes) (newNum : ℕ) (chaff : Bytes) : Option (Sender × Instruction) :=
  do
    let assumed ← s.sent[s.assumed]?
    let front ← s.sent.head?
    return ({ s with
      shutdownTries := if newNum = SHUTDOWN_NUM then s.shutdownTries + 1 else s.shutdownTries
      lastAckSent := s.ackNum },
      ⟨PROTOCOL_VERSION, assumed.num, newNum, s.ackNum, front.num, diff, chaff⟩)

/-- The number after one. -/
def nextNum (num : ℕ) : ℕ := (num + 1) % 2 ^ 64

def sendEmptyAck (now : ℕ) (chaff : Bytes) : Option (Sender × Instruction) := do
  let back ← s.sent.getLast?
  let newNum := if s.shutdownInProgress then SHUTDOWN_NUM else nextNum back.num
  let (s, inst) ← (s.addSentState now newNum s.currentLen).sendInFragments [] newNum chaff
  return ({ s with nextAckTime := now + ACK_INTERVAL, nextSendTime := none }, inst)

def sendToReceiver (now : ℕ) (diff chaff : Bytes) : Option (Sender × Instruction) := do
  let back ← s.sent.getLast?
  let newNum :=
    if s.shutdownInProgress then SHUTDOWN_NUM
    else if s.currentLen = back.len then back.num
    else nextNum back.num
  let s :=
    if newNum = back.num then
      { s with sent := s.sent.dropLast ++ [{ back with timestamp := now }] }
    else s.addSentState now newNum s.currentLen
  let (s, inst) ← s.sendInFragments diff newNum chaff
  return ({ s with
    assumed := s.sent.length - 1
    nextAckTime := now + ACK_INTERVAL
    nextSendTime := none }, inst)

def sendDue (now : ℕ) : Bool := s.nextSendTime.any (fun t => decide (t ≤ now))

def ackDue (now : ℕ) : Bool := decide (s.nextAckTime ≤ now)

/-- Send an empty acknowledgement, when one is due. -/
def ackWhenDue (now sendNow : ℕ) (chaff : Bytes) : Option (Sender × Option Instruction) :=
  if s.ackDue now then
    (s.sendEmptyAck sendNow chaff).map (fun r => ({ r.1 with mindelayClock := none }, some r.2))
  else some (s, none)

/-- Send what is due, when the timers are set. -/
def sendWhenDue (now sendNow : ℕ) (chaff : Bytes) : Option (Sender × Option Instruction) := do
  if !s.ackDue now && !s.sendDue now then return (s, none)
  let assumed ← s.sent[s.assumed]?
  let diff := s.diffFrom assumed.len
  if diff = [] then
    let r ← s.ackWhenDue now sendNow chaff
    return (if s.sendDue now then { r.1 with nextSendTime := none, mindelayClock := none } else r.1,
      r.2)
  else
    let r ← s.sendToReceiver sendNow diff chaff
    return ({ r.1 with mindelayClock := none }, some r.2)

/-- Set the timers and send what is due. A send that fails ends the connection. -/
def tick (t : ℕ → ℕ) (rto sendInterval : ℕ) (chaff : Bytes) : Option (Sender × Option Instruction) :=
  (s.calculateTimers t rto sendInterval).bind (fun s => s.sendWhenDue (t 2) (t 3) chaff)

def processAcknowledgmentThrough (ackNum : ℕ) : Sender :=
  if s.sent.any (fun st => decide (st.num = ackNum)) then
    let sent := s.sent.dropWhile (fun st => decide (st.num < ackNum))
    { s with sent := sent, assumed := min s.assumed (sent.length - 1) }
  else s

def startShutdown (now : ℕ) : Sender :=
  if s.shutdownInProgress then s else { s with shutdownInProgress := true, shutdownStart := now }

/-- An instruction of the server was applied. -/
def applied (num now : ℕ) (data : Bool) : Sender :=
  { s with
    pendingDataAck := s.pendingDataAck || data
    ackNum := num
    lastHeard := now }

end Sender

/-! ### The sender and a server -/

/-- The lengths recorded, with that of the latest state. -/
def Sender.recorded (s : Sender) (lens : ℕ → Option ℕ) : ℕ → Option ℕ :=
  s.sent.getLast?.elim lens (fun back => Function.update lens back.num (some back.len))

/-- An instruction put on the wire, with the numbers of the states that are still sent. -/
structure Sending where
  inst : Instruction
  sentNums : List ℕ
deriving DecidableEq

/-- The sender, all that was typed, the length of the log recorded for each state, what was put on
the wire, and the states that a server holds. -/
structure Link where
  sender : Sender
  typed : List UserInstruction
  lens : ℕ → Option ℕ
  wire : List Sending
  held : ℕ → Option (List Input)

inductive LinkStep
  | push (inst : UserInstruction)
  | waitTime (t : ℕ → ℕ) (rto sendInterval : ℕ)
  | tick (t : ℕ → ℕ) (rto sendInterval : ℕ) (chaff : Bytes)
  | acknowledge (ackNum : ℕ)
  | applied (num now : ℕ) (data : Bool)
  | startShutdown (now : ℕ)
  /-- The server applies an instruction that was put on the wire, when it holds the state before. -/
  | deliver (i : ℕ)
  /-- The server drops a state. -/
  | drop (num : ℕ)

namespace Link

variable (w : Link)

/-- The sender took a step, and the length of its latest state is recorded. -/
def record (s : Sender) : Link := { w with sender := s, lens := s.recorded w.lens }

/-- Put an instruction on the wire. -/
def put (inst : Instruction) : Link :=
  { w with wire := ⟨inst, w.sender.sent.map SentState.num⟩ :: w.wire }

/-- Apply an instruction to the states a server holds. -/
def receive (inst : Instruction) : Link :=
  match w.held inst.oldNum, readUserMessage inst.diff with
  | some l, some l' =>
    if inst.newNum = SHUTDOWN_NUM then w
    else { w with held := Function.update w.held inst.newNum (some (l ++ l')) }
  | _, _ => w

def step : LinkStep → Option Link
  | .push inst => some { w with sender := w.sender.push inst, typed := w.typed ++ [inst] }
  | .waitTime t rto sendInterval =>
    (w.sender.calculateTimers t rto sendInterval).map (fun s => { w with sender := s })
  | .tick t rto sendInterval chaff =>
    (w.sender.tick t rto sendInterval chaff).map
      (fun r => r.2.elim (w.record r.1) (w.record r.1).put)
  | .acknowledge ackNum => some { w with sender := w.sender.processAcknowledgmentThrough ackNum }
  | .applied num now data => some { w with sender := w.sender.applied num now data }
  | .startShutdown now => some { w with sender := w.sender.startShutdown now }
  | .deliver i => w.wire[i]?.map (fun x => w.receive x.inst)
  | .drop num => some { w with held := Function.update w.held num none }

end Link

/-- Runs of a sender and a server. At first nothing was typed, and both have state 0. -/
def link : TransitionSystem Link LinkStep where
  init w := (∃ now, w.sender = .new now) ∧ w.typed = []
    ∧ w.lens = Function.update (fun _ : ℕ => none) 0 (some 0) ∧ w.wire = []
    ∧ w.held = Function.update (fun _ : ℕ => none) 0 (some [])
  step := Link.step

/-! ### What is to hold -/

/-- An instruction that is not the shutdown starts from a state that is still sent, and its diff
is what was typed between the states it names; the states that the server holds are what was typed
up to them. -/
structure Link.Correct (w : Link) : Prop where
  diffs : ∀ x ∈ w.wire, x.inst.newNum ≠ SHUTDOWN_NUM → x.inst.oldNum ∈ x.sentNums
    ∧ ∃ a b, w.lens x.inst.oldNum = some a ∧ w.lens x.inst.newNum = some b ∧ a ≤ b
      ∧ x.inst.diff = encodeUserMessage ((w.typed.take b).drop a)
  input : ∀ n l, w.held n = some l → ∃ b, w.lens n = some b ∧ l = inputs (w.typed.take b)

/-! ### Ticks that name the state they start from -/

/-- Where a state is dropped from, when there are too many. -/
def DROPPED : ℕ := MAX_SENT_STATES + 1 - 16

/-- When as many states are sent as can be, and a new one is added, the assumed state keeps its
place, or nothing was typed between it and the one that takes its place. The numbers are not used
up. -/
def Sender.Fits (s : Sender) (now : ℕ) : Prop :=
  (s.ackDue now || s.sendDue now) = true → s.shutdownInProgress = false →
    (∀ back ∈ s.sent.getLast?, back.num + 1 < SHUTDOWN_NUM)
    ∧ (s.sent.length = MAX_SENT_STATES → DROPPED ≤ s.assumed →
      (∀ back ∈ s.sent.getLast?, s.currentLen ≠ back.len) → ∀ st ∈ s.sent[s.assumed]?,
        inputs ((s.log.drop (st.len - s.base)).take
          ((s.sent[s.assumed + 1]?.elim s.currentLen SentState.len) - st.len)) = [])

def linkFits (w : Link) : LinkStep → Prop
  | .tick t rto sendInterval _ =>
    ∀ s ∈ w.sender.calculateTimers t rto sendInterval, s.Fits (t 2)
  | _ => True

/-! ### The invariant -/

/-- The states sent, without their times. -/
def Sender.marks (s : Sender) : List (ℕ × ℕ) := s.sent.map (fun st => (st.num, st.len))

/-- What is kept of the sender, of what was typed and of the lengths recorded: the log is what was
typed from its base on, the states are prefixes of it that grow, each is recorded, and the number
of the latest is the greatest. -/
structure Sender.Sound (s : Sender) (typed : List UserInstruction) (lens : ℕ → Option ℕ) : Prop where
  ne : s.marks ≠ []
  assumed : s.assumed < s.marks.length
  bounded : s.marks.length ≤ MAX_SENT_STATES
  log : s.log = typed.drop s.base
  within : ∀ m ∈ s.marks, s.base ≤ m.2 ∧ m.2 ≤ typed.length
  sorted : s.marks.Pairwise (fun m m' => m.2 ≤ m'.2)
  recorded : ∀ m ∈ s.marks, m.1 ≠ SHUTDOWN_NUM → lens m.1 = some m.2
  running : s.shutdownInProgress = false → ∀ m ∈ s.marks, m.1 ≠ SHUTDOWN_NUM
  fresh : s.shutdownInProgress = false → ∀ n l, lens n = some l →
    ∀ m ∈ s.marks.getLast?, n ≤ m.1
  typed : ∀ n l, lens n = some l → l ≤ typed.length

namespace Sender

variable {s s' : Sender} {typed : List UserInstruction} {lens : ℕ → Option ℕ}

@[simp]
theorem length_marks :
  s.marks.length = s.sent.length
  := List.length_map _

theorem mem_marks {st : SentState} (h : st ∈ s.sent) :
  (st.num, st.len) ∈ s.marks
  := List.mem_map_of_mem h

theorem getLast?_marks :
  s.marks.getLast? = s.sent.getLast?.map (fun st => (st.num, st.len))
  := List.getLast?_map

/-- The invariant does not speak of the timers. -/
theorem Sound.of_eq (h : s.Sound typed lens) (hmarks : s'.marks = s.marks)
    (hassumed : s'.assumed < s.marks.length) (hlog : s'.log = s.log) (hbase : s'.base = s.base)
    (hshutdown : s'.shutdownInProgress = false → s.shutdownInProgress = false) :
  s'.Sound typed lens
  := by
  refine ⟨?_, ?_, ?_, ?_, ?_, ?_, ?_, ?_, ?_, h.typed⟩
  · rw [hmarks]
    exact h.ne
  · rw [hmarks]
    exact hassumed
  · rw [hmarks]
    exact h.bounded
  · rw [hlog, hbase]
    exact h.log
  · rw [hmarks, hbase]
    exact h.within
  · rw [hmarks]
    exact h.sorted
  · rw [hmarks]
    exact h.recorded
  · rw [hmarks]
    exact fun hs => h.running (hshutdown hs)
  · rw [hmarks]
    exact fun hs => h.fresh (hshutdown hs)

theorem Sound.currentLen (h : s.Sound typed lens) :
  s.currentLen = typed.length
  := by
  obtain ⟨m, hm⟩ := List.exists_mem_of_ne_nil _ h.ne
  have hbase : s.base ≤ typed.length := (h.within m hm).1.trans (h.within m hm).2
  rw [Sender.currentLen, h.log, List.length_drop]
  omega

theorem Sound.diffFrom (h : s.Sound typed lens) {st : SentState} (hst : st ∈ s.sent) :
  s.diffFrom st.len = encodeUserMessage (typed.drop st.len)
  := by
  have hbase : s.base ≤ st.len := (h.within _ (mem_marks hst)).1
  unfold Sender.diffFrom
  split
  · rename_i hle
    rw [h.currentLen] at hle
    rw [List.drop_eq_nil_of_le hle]
    rfl
  · rw [h.log, List.drop_drop, Nat.add_sub_cancel' hbase]

/-- Typing adds to the log and to what was typed. -/
theorem Sound.push (h : s.Sound typed lens) (inst : UserInstruction) :
  (s.push inst).Sound (typed ++ [inst]) lens
  := by
  obtain ⟨m, hm⟩ := List.exists_mem_of_ne_nil _ h.ne
  have hbase : s.base ≤ typed.length := (h.within m hm).1.trans (h.within m hm).2
  have hlen : typed.length ≤ (typed ++ [inst]).length := by simp
  refine ⟨h.ne, h.assumed, h.bounded, ?_, ?_, h.sorted, h.recorded, h.running, h.fresh, ?_⟩
  · change s.log ++ [inst] = (typed ++ [inst]).drop s.base
    rw [List.drop_append_of_le_length hbase, h.log]
  · intro m hm
    exact ⟨(h.within m hm).1, (h.within m hm).2.trans hlen⟩
  · intro n l hl
    exact (h.typed n l hl).trans hlen

/-- Acknowledged states are dropped from the front. -/
theorem Sound.processAcknowledgmentThrough (h : s.Sound typed lens) (ackNum : ℕ) :
  (s.processAcknowledgmentThrough ackNum).Sound typed lens
  := by
  unfold Sender.processAcknowledgmentThrough
  split
  · rename_i hany
    obtain ⟨st, hst, hnum⟩ := List.any_eq_true.mp hany
    have hsuffix : s.sent.dropWhile (fun st => decide (st.num < ackNum)) <:+ s.sent :=
      List.dropWhile_suffix _
    have hne : s.sent.dropWhile (fun st => decide (st.num < ackNum)) ≠ [] := by
      intro hnil
      have hlt := List.dropWhile_eq_nil_iff.mp hnil st hst
      rw [decide_eq_true_eq] at hlt hnum
      omega
    have hmarks : (s.sent.dropWhile (fun st => decide (st.num < ackNum))).map
        (fun st => (st.num, st.len)) <:+ s.marks := hsuffix.map _
    refine ⟨?_, ?_, ?_, h.log, ?_, h.sorted.sublist hmarks.sublist, ?_, ?_, ?_, h.typed⟩
    · exact fun hnil => hne (List.map_eq_nil_iff.mp hnil)
    · have hpos := List.length_pos_iff.mpr hne
      simp only [length_marks]
      omega
    · exact hmarks.length_le.trans h.bounded
    · exact fun m hm => h.within m (hmarks.subset hm)
    · exact fun m hm => h.recorded m (hmarks.subset hm)
    · exact fun hs m hm => h.running hs m (hmarks.subset hm)
    · intro hs n l hl m hm
      apply h.fresh hs n l hl m
      obtain ⟨before, hbefore⟩ := hmarks
      have hlast : ((s.sent.dropWhile (fun st => decide (st.num < ackNum))).map
          (fun st => (st.num, st.len))).getLast? = some m := hm
      rw [← hbefore, List.getLast?_append, hlast]
      rfl
  · exact h

/-- Setting the timers chooses an assumed state and cuts the log. -/
theorem Sound.calculateTimers (h : s.Sound typed lens) {t : ℕ → ℕ} {rto sendInterval : ℕ}
    (htimers : s.calculateTimers t rto sendInterval = some s') :
  s'.Sound typed lens
  := by
  obtain ⟨s₁, hs₁, htimers⟩ := Option.bind_eq_some_iff.mp htimers
  obtain ⟨back, -, htimers⟩ := Option.bind_eq_some_iff.mp htimers
  obtain ⟨front, -, htimers⟩ := Option.bind_eq_some_iff.mp htimers
  obtain ⟨assumed, -, htimers⟩ := Option.bind_eq_some_iff.mp htimers
  obtain ⟨front, hfront, rfl⟩ := Option.map_eq_some_iff.mp hs₁
  have hmem : (front.num, front.len) ∈ s.marks := mem_marks (List.mem_of_mem_head? hfront)
  have hfirst : ∀ m ∈ s.marks, front.len ≤ m.2 := by
    intro m hm
    have hhead : s.marks.head? = some (front.num, front.len) := by
      rw [marks, List.head?_map]
      exact congrArg _ hfront
    cases hmarks : s.marks with
    | nil => exact absurd hmarks h.ne
    | cons m₀ ms =>
        rw [hmarks] at hhead hm
        cases hhead
        have hsorted := h.sorted
        rw [hmarks] at hsorted
        rcases List.mem_cons.mp hm with rfl | hm
        · exact le_rfl
        · exact (List.pairwise_cons.mp hsorted).1 m hm
  have hpos : 0 < s.sent.length := by
    rw [← length_marks]
    exact List.length_pos_iff.mpr h.ne
  -- the first state is within the log, so that the log is cut where it starts
  have hcut : s.base + min (front.len - s.base) s.log.length = front.len := by
    have hlog : s.log.length = typed.length - s.base := by
      rw [h.log, List.length_drop]
    obtain ⟨hlo, hhi⟩ := h.within _ hmem
    simp only at hlo hhi
    omega
  have hsound : Sound { (s.updateAssumedReceiverState (t 1) rto) with
      log := s.log.drop (front.len - s.base)
      base := s.base + min (front.len - s.base) s.log.length } typed lens := by
    refine ⟨h.ne, ?_, h.bounded, ?_, ?_, h.sorted, h.recorded, h.running, h.fresh, h.typed⟩
    · have hle : (s.sent.tail.takeWhile
          (fun st => decide (t 1 - st.timestamp < rto + ACK_DELAY))).length ≤ s.sent.tail.length :=
        (List.takeWhile_prefix _).length_le
      rw [List.length_tail] at hle
      change _ < s.marks.length
      rw [length_marks]
      simp only [updateAssumedReceiverState]
      omega
    · simp only [h.log, List.drop_drop]
      congr 1
      rw [← h.log, hcut]
      have := (h.within _ hmem).1
      simp only at this
      omega
    · intro m hm
      rw [hcut]
      exact ⟨hfirst m hm, (h.within m hm).2⟩
  cases htimers
  exact hsound.of_eq rfl hsound.assumed rfl rfl (fun hs => hs)

end Sender

/-! ### Adding a state -/

namespace Sender

variable {s s' : Sender} {typed : List UserInstruction} {lens : ℕ → Option ℕ}

/-- A new state is the shutdown, or has a number of its own. -/
structure NewNum (s : Sender) (num : ℕ) : Prop where
  shutdown : num = SHUTDOWN_NUM ↔ s.shutdownInProgress = true
  running : s.shutdownInProgress = false → ∀ m ∈ s.marks.getLast?, m.1 < num

/-- The states after one was added are the states before and the new one, but for one from the
middle. -/
theorem marks_addSentState (h : s.marks.length ≤ MAX_SENT_STATES) (now num len : ℕ) :
  (s.addSentState now num len).marks = if s.marks.length = MAX_SENT_STATES
    then (s.marks ++ [(num, len)]).eraseIdx DROPPED else s.marks ++ [(num, len)]
  := by
  have hlen : (s.sent ++ [(⟨num, now, len⟩ : SentState)]).length = s.marks.length + 1 := by simp
  unfold addSentState
  simp only [hlen]
  split
  · rename_i hlt
    have hmax : s.marks.length = MAX_SENT_STATES := le_antisymm h (Nat.le_of_lt_succ hlt)
    have hcut : s.marks.length + 1 - 16 = DROPPED := by
      rw [hmax]
      rfl
    rw [if_pos hmax, ← hcut]
    simp only [marks, ← List.eraseIdx_map, List.map_append]
    rfl
  · rename_i hle
    have hne : s.marks.length ≠ MAX_SENT_STATES := by omega
    rw [if_neg hne]
    simp [marks]

/-- The new state is the latest. -/
theorem getLast?_addSentState (h : s.marks.length ≤ MAX_SENT_STATES) (now num len : ℕ) :
  (s.addSentState now num len).marks.getLast? = some (num, len)
  := by
  rw [marks_addSentState h]
  split
  · rename_i hmax
    rw [List.eraseIdx_append_of_lt_length (by rw [hmax]; decide), List.getLast?_concat]
  · rw [List.getLast?_concat]

/-- The assumed state keeps its place, unless it comes after the one dropped. -/
theorem assumed_addSentState (h : s.Sound typed lens) (now num len : ℕ) :
  (s.addSentState now num len).marks[(s.addSentState now num len).assumed]?
    = if s.marks.length = MAX_SENT_STATES ∧ DROPPED ≤ s.assumed
      then (s.marks ++ [(num, len)])[s.assumed + 1]? else s.marks[s.assumed]?
  := by
  have hlt := h.assumed
  have hassumed : (s.addSentState now num len).assumed = s.assumed := by
    have hbounded := h.bounded
    unfold addSentState
    simp only [List.length_append, List.length_singleton, ← length_marks]
    split
    · rename_i hmax
      simp only [List.length_eraseIdx, List.length_append, List.length_singleton, ← length_marks]
      split <;> omega
    · rfl
  rw [hassumed, marks_addSentState h.bounded]
  by_cases hmax : s.marks.length = MAX_SENT_STATES
  · rw [if_pos hmax, List.getElem?_eraseIdx]
    by_cases hle : DROPPED ≤ s.assumed
    · rw [if_neg (not_lt.mpr hle), if_pos ⟨hmax, hle⟩]
    · rw [if_pos (not_le.mp hle), if_neg (fun hboth => hle hboth.2),
        List.getElem?_append_left hlt]
  · rw [if_neg hmax, if_neg (fun hboth => hmax hboth.1), List.getElem?_append_left hlt]

/-- Adding a state of what was typed, under a number of its own, and recording its length. -/
theorem Sound.addSentState (h : s.Sound typed lens) {num : ℕ} (hnum : s.NewNum num) (now : ℕ) :
  (s.addSentState now num s.currentLen).Sound typed
    (Function.update lens num (some s.currentLen))
  := by
  have hsub : (s.addSentState now num s.currentLen).marks.Sublist (s.marks ++ [(num, s.currentLen)]) := by
    rw [marks_addSentState h.bounded]
    split
    · exact List.eraseIdx_sublist _ _
    · exact List.Sublist.refl _
  have hmem : ∀ m ∈ (s.addSentState now num s.currentLen).marks,
      m ∈ s.marks ∨ m = (num, s.currentLen) := by
    intro m hm
    rcases List.mem_append.mp (hsub.subset hm) with hm | hm
    · exact .inl hm
    · exact .inr (List.mem_singleton.mp hm)
  have hlast := getLast?_addSentState h.bounded now num s.currentLen
  obtain ⟨m₀, hm₀⟩ := List.exists_mem_of_ne_nil _ h.ne
  have hbase : s.base ≤ typed.length := (h.within m₀ hm₀).1.trans (h.within m₀ hm₀).2
  have hfields : (s.addSentState now num s.currentLen).log = s.log
      ∧ (s.addSentState now num s.currentLen).base = s.base
      ∧ (s.addSentState now num s.currentLen).shutdownInProgress = s.shutdownInProgress := by
    simp only [Sender.addSentState]
    split <;> exact ⟨rfl, rfl, rfl⟩
  obtain ⟨hlog, hbase', hshutdown⟩ := hfields
  -- the number of the new state is greater than any that was recorded
  have hfresh : s.shutdownInProgress = false → ∀ n l, lens n = some l → n < num := by
    intro hs n l hl
    obtain ⟨m, hm⟩ := Option.isSome_iff_exists.mp (List.getLast?_isSome.mpr h.ne)
    exact (h.fresh hs n l hl m hm).trans_lt (hnum.running hs m hm)
  refine ⟨?_, ?_, ?_, ?_, ?_, ?_, ?_, ?_, ?_, ?_⟩
  · intro hnil
    rw [hnil] at hlast
    cases hlast
  · have hget := assumed_addSentState h now num s.currentLen
    by_contra hle
    rw [List.getElem?_eq_none (not_lt.mp hle)] at hget
    have hlt := h.assumed
    split at hget
    · have hin : s.assumed + 1 < (s.marks ++ [(num, s.currentLen)]).length := by
        rw [List.length_append]
        exact Nat.succ_lt_succ hlt
      rw [List.getElem?_eq_getElem hin] at hget
      cases hget
    · rw [List.getElem?_eq_getElem hlt] at hget
      cases hget
  · have hbounded := h.bounded
    rw [marks_addSentState h.bounded]
    split
    · rename_i hmax
      rw [List.length_eraseIdx_of_lt, List.length_append]
      · exact hbounded
      · have hlt : DROPPED < MAX_SENT_STATES + 1 := by decide
        rw [List.length_append, hmax]
        exact hlt
    · rw [List.length_append]
      exact Nat.lt_of_le_of_ne hbounded (by assumption)
  · rw [hlog, hbase']
    exact h.log
  · intro m hm
    rw [hbase']
    rcases hmem m hm with hm | rfl
    · exact h.within m hm
    · rw [h.currentLen]
      exact ⟨hbase, le_rfl⟩
  · apply List.Pairwise.sublist hsub
    apply List.pairwise_append.mpr
    refine ⟨h.sorted, List.pairwise_singleton _ _, ?_⟩
    intro m hm m' hm'
    rw [List.mem_singleton.mp hm', h.currentLen]
    exact (h.within m hm).2
  · intro m hm hne
    rcases hmem m hm with hm | rfl
    · have hrecorded := h.recorded m hm hne
      by_cases heq : m.1 = num
      · cases hs : s.shutdownInProgress with
        | true => exact absurd (heq.trans (hnum.shutdown.mpr hs)) hne
        | false => exact absurd (hfresh hs _ _ hrecorded) (heq ▸ lt_irrefl _)
      · rw [Function.update_of_ne heq]
        exact hrecorded
    · exact Function.update_self _ _ _
  · intro hs m hm
    rw [hshutdown] at hs
    rcases hmem m hm with hm | rfl
    · exact h.running hs m hm
    · intro heq
      rw [hnum.shutdown.mp heq] at hs
      cases hs
  · intro hs n l hl m hm
    rw [hshutdown] at hs
    rw [hlast] at hm
    cases hm
    by_cases heq : n = num
    · exact heq.le
    · rw [Function.update_of_ne heq] at hl
      exact (hfresh hs n l hl).le
  · intro n l hl
    by_cases heq : n = num
    · subst heq
      rw [Function.update_self] at hl
      cases hl
      exact h.currentLen.le
    · rw [Function.update_of_ne heq] at hl
      exact h.typed n l hl

end Sender

/-! ### Sending -/

/-- Instructions without input make no difference in what is written. -/
theorem encodeUserMessage_drop {l : List UserInstruction} {a b : ℕ} (hab : a ≤ b)
    (h : inputs ((l.drop a).take (b - a)) = []) :
  encodeUserMessage (l.drop a) = encodeUserMessage (l.drop b)
  := by
  have hsplit : l.drop a = (l.drop a).take (b - a) ++ l.drop b := by
    conv_lhs => rw [← List.take_append_drop (b - a) (l.drop a), List.drop_drop,
      Nat.add_sub_cancel' hab]
  rw [hsplit]
  exact encodeAfter_append h [] _

/-- Instructions that are written as nothing have no input. -/
theorem inputs_of_encodeUserMessage {l : List UserInstruction} (h : encodeUserMessage l = []) :
  inputs l = []
  := by
  have hread := readUserMessage_encodeUserMessage l
  rw [h] at hread
  exact (Option.some.inj hread).symm

namespace Sender

variable {s s' : Sender} {typed : List UserInstruction} {lens : ℕ → Option ℕ}

/-- An instruction that is not the shutdown starts from a state still sent, and its diff is what was
typed between the states it names. -/
def Right (s : Sender) (typed : List UserInstruction) (lens : ℕ → Option ℕ) (inst : Instruction) :
    Prop :=
  inst.newNum ≠ SHUTDOWN_NUM → inst.oldNum ≠ SHUTDOWN_NUM ∧ inst.oldNum ∈ s.sent.map SentState.num
    ∧ ∃ a b, lens inst.oldNum = some a ∧ lens inst.newNum = some b ∧ a ≤ b
      ∧ inst.diff = encodeUserMessage ((typed.take b).drop a)

/-- What sending does: the invariant is kept with the length of the latest state recorded, what was
recorded stays, and the instruction is right. -/
structure Sends (s' : Sender) (typed : List UserInstruction) (lens : ℕ → Option ℕ)
    (out : Option Instruction) : Prop where
  sound : s'.Sound typed (s'.recorded lens)
  kept : ∀ n l, n ≠ SHUTDOWN_NUM → lens n = some l → s'.recorded lens n = some l
  right : ∀ inst ∈ out, s'.Right typed (s'.recorded lens) inst

theorem recorded_eq {n l : ℕ} (h : s.marks.getLast? = some (n, l)) :
  s.recorded lens = Function.update lens n (some l)
  := by
  rw [getLast?_marks] at h
  obtain ⟨back, hback, heq⟩ := Option.map_eq_some_iff.mp h
  cases heq
  rw [recorded, hback]
  rfl

/-- The latest state is recorded already. -/
theorem Sound.recorded_latest (h : s.Sound typed lens) :
  s.Sound typed (s.recorded lens)
    ∧ ∀ n l, n ≠ SHUTDOWN_NUM → lens n = some l → s.recorded lens n = some l
  := by
  obtain ⟨⟨num, len⟩, hlast⟩ := Option.isSome_iff_exists.mp (List.getLast?_isSome.mpr h.ne)
  have hmem : (num, len) ∈ s.marks := List.mem_of_getLast? hlast
  rw [recorded_eq hlast]
  have hsame : ∀ n l, n ≠ SHUTDOWN_NUM → lens n = some l →
      Function.update lens num (some len) n = some l := by
    intro n l hne hl
    by_cases heq : n = num
    · subst heq
      rw [Function.update_self, ← hl]
      exact (h.recorded _ hmem hne).symm
    · rw [Function.update_of_ne heq]
      exact hl
  refine ⟨⟨h.ne, h.assumed, h.bounded, h.log, h.within, h.sorted, ?_, h.running, ?_, ?_⟩, hsame⟩
  · exact fun m hm hne => hsame _ _ hne (h.recorded m hm hne)
  · intro hs n l hl m hm
    by_cases heq : n = num
    · rw [hlast] at hm
      cases hm
      exact heq.le
    · rw [Function.update_of_ne heq] at hl
      exact h.fresh hs n l hl m hm
  · intro n l hl
    by_cases heq : n = num
    · subst heq
      rw [Function.update_self] at hl
      cases hl
      exact (h.within _ hmem).2
    · rw [Function.update_of_ne heq] at hl
      exact h.typed n l hl

/-- Only timers and the assumed state change. -/
theorem Sends.of_eq {out : Option Instruction} (h : s.Sends typed lens out)
    (hsent : s'.sent = s.sent) (hassumed : s'.assumed < s.sent.length) (hlog : s'.log = s.log)
    (hbase : s'.base = s.base) (hshutdown : s'.shutdownInProgress = s.shutdownInProgress) :
  s'.Sends typed lens out
  := by
  have hmarks : s'.marks = s.marks := by rw [marks, hsent, marks]
  have hrecorded : s'.recorded lens = s.recorded lens := by rw [recorded, hsent, recorded]
  refine ⟨?_, ?_, ?_⟩
  · rw [hrecorded]
    exact h.sound.of_eq hmarks (by rw [length_marks]; exact hassumed) hlog hbase
      (fun hs => hshutdown ▸ hs)
  · rw [hrecorded]
    exact h.kept
  · rw [hrecorded]
    unfold Right
    rw [hsent]
    exact h.right

/-- An instruction put on the wire starts from the assumed state. -/
theorem sendInFragments_eq {diff chaff : Bytes} {newNum : ℕ} {inst : Instruction}
    (h : s.sendInFragments diff newNum chaff = some (s', inst)) :
  ∃ st, s.sent[s.assumed]? = some st ∧ inst.oldNum = st.num ∧ inst.newNum = newNum
    ∧ inst.diff = diff ∧ s'.sent = s.sent ∧ s'.assumed = s.assumed ∧ s'.log = s.log
    ∧ s'.base = s.base ∧ s'.shutdownInProgress = s.shutdownInProgress
  := by
  obtain ⟨st, hst, h⟩ := Option.bind_eq_some_iff.mp h
  obtain ⟨front, -, h⟩ := Option.bind_eq_some_iff.mp h
  cases h
  exact ⟨st, hst, rfl, rfl, rfl, rfl, rfl, rfl, rfl, rfl⟩

/-- The state that takes the place of the assumed one stands for the same input. -/
theorem Sound.encode_assumed (h : s.Sound typed lens) {num now : ℕ} {st : SentState}
    (hst : s.sent[s.assumed]? = some st) {m : ℕ × ℕ}
    (hm : (s.addSentState now num s.currentLen).marks[(s.addSentState now num s.currentLen).assumed]?
      = some m)
    (hfits : s.sent.length = MAX_SENT_STATES → DROPPED ≤ s.assumed →
      inputs ((s.log.drop (st.len - s.base)).take
        ((s.sent[s.assumed + 1]?.elim s.currentLen SentState.len) - st.len)) = []) :
  st.len ≤ m.2 ∧ m.2 ≤ typed.length
    ∧ encodeUserMessage (typed.drop st.len) = encodeUserMessage (typed.drop m.2)
  := by
  have hmem : (st.num, st.len) ∈ s.marks := mem_marks (List.mem_of_getElem? hst)
  have hget : s.marks[s.assumed]? = some (st.num, st.len) := by
    rw [marks, List.getElem?_map, hst]
    rfl
  have hwithin := h.within _ hmem
  rw [assumed_addSentState h] at hm
  split at hm
  · rename_i hmax
    have hdrop : s.log.drop (st.len - s.base) = typed.drop st.len := by
      rw [h.log, List.drop_drop, Nat.add_sub_cancel' hwithin.1]
    -- the state in its place is the next one, or the new one
    have hnext : s.sent[s.assumed + 1]?.elim s.currentLen SentState.len = m.2 ∧ st.len ≤ m.2
        ∧ m.2 ≤ typed.length := by
      cases hsome : s.sent[s.assumed + 1]? with
      | some next =>
          have hnext : s.marks[s.assumed + 1]? = some (next.num, next.len) := by
            rw [marks, List.getElem?_map, hsome]
            rfl
          obtain ⟨hlt, heq⟩ := List.getElem?_eq_some_iff.mp hnext
          obtain ⟨hlt₀, heq₀⟩ := List.getElem?_eq_some_iff.mp hget
          rw [List.getElem?_append_left hlt, hnext] at hm
          cases hm
          refine ⟨rfl, ?_, (h.within _ (List.mem_of_getElem? hnext)).2⟩
          have hle := List.pairwise_iff_getElem.mp h.sorted s.assumed (s.assumed + 1) hlt₀ hlt
            (Nat.lt_succ_self _)
          rw [heq, heq₀] at hle
          exact hle
      | none =>
          have hle : s.marks.length ≤ s.assumed + 1 := by
            rw [length_marks]
            exact List.getElem?_eq_none_iff.mp hsome
          have hlen : s.assumed + 1 = s.marks.length := le_antisymm h.assumed hle
          rw [hlen, List.getElem?_concat_length] at hm
          cases hm
          refine ⟨rfl, ?_, h.currentLen.le⟩
          rw [h.currentLen]
          exact hwithin.2
    have hnone := hfits (length_marks ▸ hmax.1) hmax.2
    rw [hdrop, hnext.1] at hnone
    exact ⟨hnext.2.1, hnext.2.2, encodeUserMessage_drop hnext.2.1 hnone⟩
  · rw [hget] at hm
    cases hm
    exact ⟨le_rfl, hwithin.2, rfl⟩

/-- Adding a state and sending an instruction to it, whose diff is what was typed since the assumed
state. -/
theorem Sound.sends_addSentState (h : s.Sound typed lens) {num now : ℕ} (hnum : s.NewNum num)
    {st : SentState} (hst : s.sent[s.assumed]? = some st) {chaff : Bytes} {inst : Instruction}
    (hsend : (s.addSentState now num s.currentLen).sendInFragments
      (encodeUserMessage (typed.drop st.len)) num chaff = some (s', inst))
    (hfits : s.shutdownInProgress = false → s.sent.length = MAX_SENT_STATES → DROPPED ≤ s.assumed →
      inputs ((s.log.drop (st.len - s.base)).take
        ((s.sent[s.assumed + 1]?.elim s.currentLen SentState.len) - st.len)) = []) :
  s'.Sends typed lens (some inst)
  := by
  obtain ⟨st', hst', hold, hnew, hdiff, hsent, hassumed, hlog, hbase, hshutdown⟩ :=
    sendInFragments_eq hsend
  have hsound := h.addSentState hnum now
  have hlast := getLast?_addSentState h.bounded now num s.currentLen
  have hrecorded : (s.addSentState now num s.currentLen).recorded lens
      = Function.update lens num (some s.currentLen) := recorded_eq hlast
  rw [← hrecorded] at hsound
  apply Sends.of_eq _ hsent (hassumed ▸ length_marks ▸ hsound.assumed) hlog hbase hshutdown
  refine ⟨hsound, ?_, ?_⟩
  · intro n l hne hl
    rw [hrecorded]
    by_cases heq : n = num
    · cases hs : s.shutdownInProgress with
      | true => exact absurd (heq.trans (hnum.shutdown.mpr hs)) hne
      | false =>
          obtain ⟨m, hm⟩ := Option.isSome_iff_exists.mp (List.getLast?_isSome.mpr h.ne)
          have hlt := (h.fresh hs n l hl m hm).trans_lt (hnum.running hs m hm)
          exact absurd hlt (heq ▸ lt_irrefl _)
    · rw [Function.update_of_ne heq]
      exact hl
  · rintro _ ⟨⟩ hne
    rw [hnew] at hne
    have hs : s.shutdownInProgress = false := by
      by_contra hs
      exact hne (hnum.shutdown.mpr (eq_true_of_ne_false hs))
    have hmem : st' ∈ (s.addSentState now num s.currentLen).sent := List.mem_of_getElem? hst'
    have hm : (s.addSentState now num s.currentLen).marks[
        (s.addSentState now num s.currentLen).assumed]? = some (st'.num, st'.len) := by
      rw [marks, List.getElem?_map, hst']
      rfl
    obtain ⟨-, hle, hencode⟩ := h.encode_assumed hst hm (hfits hs)
    have hrunning : (s.addSentState now num s.currentLen).shutdownInProgress = false := by
      simp only [Sender.addSentState]
      split <;> exact hs
    have hold' : st'.num ≠ SHUTDOWN_NUM := hsound.running hrunning _ (mem_marks hmem)
    refine ⟨hold ▸ hold', hold ▸ List.mem_map_of_mem hmem, st'.len, s.currentLen, ?_, ?_, ?_, ?_⟩
    · rw [hold]
      exact hsound.recorded _ (mem_marks hmem) hold'
    · rw [hnew, hrecorded, Function.update_self]
    · rw [h.currentLen]
      exact hle
    · rw [hdiff, hencode, h.currentLen, List.take_length]

end Sender

/-! ### Ticks -/

namespace Sender

variable {s s' : Sender} {typed : List UserInstruction} {lens : ℕ → Option ℕ}

/-- The number after the latest is one of its own, unless the sender is shutting down. -/
theorem newNum_of_getLast? {back : SentState} (hback : s.sent.getLast? = some back)
    (hnums : s.shutdownInProgress = false → back.num + 1 < SHUTDOWN_NUM) :
  s.NewNum (if s.shutdownInProgress then SHUTDOWN_NUM else nextNum back.num)
  := by
  cases hs : s.shutdownInProgress with
  | true => exact ⟨by simp [hs], by simp [hs]⟩
  | false =>
      have hlt := hnums hs
      have hnext : nextNum back.num = back.num + 1 := by
        unfold nextNum
        unfold SHUTDOWN_NUM at hlt
        omega
      rw [if_neg Bool.false_ne_true, hnext]
      refine ⟨⟨fun heq => absurd heq hlt.ne, fun htrue => ?_⟩, ?_⟩
      · rw [hs] at htrue
        cases htrue
      · intro _ m hm
        rw [getLast?_marks, hback] at hm
        cases hm
        exact Nat.lt_succ_self _

/-- Sending nothing. -/
theorem Sound.sends_none (h : s.Sound typed lens) :
  s.Sends typed lens none
  := ⟨h.recorded_latest.1, h.recorded_latest.2, fun _ hinst => nomatch hinst⟩

/-- An empty acknowledgement is sent when nothing was typed since the assumed state. -/
theorem Sound.sendEmptyAck (h : s.Sound typed lens)
    (hnums : s.shutdownInProgress = false → ∀ back ∈ s.sent.getLast?, back.num + 1 < SHUTDOWN_NUM)
    {st : SentState} (hst : s.sent[s.assumed]? = some st) (hnone : s.diffFrom st.len = [])
    {now : ℕ} {chaff : Bytes} {inst : Instruction}
    (hsend : s.sendEmptyAck now chaff = some (s', inst)) :
  s'.Sends typed lens (some inst)
  := by
  have hmem : st ∈ s.sent := List.mem_of_getElem? hst
  obtain ⟨back, hback, hsend⟩ := Option.bind_eq_some_iff.mp hsend
  obtain ⟨⟨s₁, inst₁⟩, hfragments, hsend⟩ := Option.bind_eq_some_iff.mp hsend
  cases hsend
  rw [h.diffFrom hmem] at hnone
  rw [← hnone] at hfragments
  have hsends := h.sends_addSentState (newNum_of_getLast? hback (fun hs => hnums hs back hback)) hst hfragments
    (fun _ _ _ => by
      have hdrop : s.log.drop (st.len - s.base) = typed.drop st.len := by
        rw [h.log, List.drop_drop, Nat.add_sub_cancel' (h.within _ (mem_marks hmem)).1]
      have hinputs := inputs_of_encodeUserMessage hnone
      rw [hdrop]
      rw [← List.take_append_drop ((s.sent[s.assumed + 1]?.elim s.currentLen SentState.len) - st.len)
        (typed.drop st.len), inputs_append] at hinputs
      exact (List.append_eq_nil_iff.mp hinputs).1)
  exact hsends.of_eq rfl (length_marks ▸ hsends.sound.assumed) rfl rfl rfl

/-- A diff is sent, to the latest state or to a new one. -/
theorem Sound.sendToReceiver (h : s.Sound typed lens)
    (hnums : s.shutdownInProgress = false → ∀ back ∈ s.sent.getLast?, back.num + 1 < SHUTDOWN_NUM)
    {st : SentState} (hst : s.sent[s.assumed]? = some st)
    (hfits : s.shutdownInProgress = false → s.sent.length = MAX_SENT_STATES → DROPPED ≤ s.assumed →
      (∀ back ∈ s.sent.getLast?, s.currentLen ≠ back.len) →
        inputs ((s.log.drop (st.len - s.base)).take
          ((s.sent[s.assumed + 1]?.elim s.currentLen SentState.len) - st.len)) = [])
    {now : ℕ} {chaff : Bytes} {inst : Instruction}
    (hsend : s.sendToReceiver now (s.diffFrom st.len) chaff = some (s', inst)) :
  s'.Sends typed lens (some inst)
  := by
  have hmem : st ∈ s.sent := List.mem_of_getElem? hst
  obtain ⟨back, hback, hsend⟩ := Option.bind_eq_some_iff.mp hsend
  obtain ⟨⟨s₁, inst₁⟩, hfragments, hsend⟩ := Option.bind_eq_some_iff.mp hsend
  cases hsend
  have hbackMem : (back.num, back.len) ∈ s.marks := mem_marks (List.mem_of_getLast? hback)
  rw [h.diffFrom hmem] at hfragments
  have hlatest : ∀ {s₁ : Sender}, s₁.Sends typed lens (some inst) →
      ({ s₁ with
        assumed := s₁.sent.length - 1
        nextAckTime := now + ACK_INTERVAL
        nextSendTime := none } : Sender).Sends typed lens (some inst) := by
    intro s₁ hsends
    have hpos := List.length_pos_iff.mpr hsends.sound.ne
    rw [length_marks] at hpos
    exact hsends.of_eq rfl (Nat.sub_lt hpos Nat.one_pos) rfl rfl rfl
  apply hlatest
  generalize hnewNum : (if s.shutdownInProgress then SHUTDOWN_NUM
    else if s.currentLen = back.len then back.num else nextNum back.num) = newNum at hfragments
  by_cases hsame : newNum = back.num
  · rw [if_pos hsame] at hfragments
    obtain ⟨st', hst', hold, hnew, hdiff, hsent, hassumed, hlog, hbase, hshutdown⟩ :=
      sendInFragments_eq hfragments
    have hmarks : (s.sent.dropLast ++ [{ back with timestamp := now }]).map
        (fun st : SentState => (st.num, st.len)) = s.marks := by
      have hsplit : s.sent.dropLast ++ [back] = s.sent := by
        obtain ⟨before, hbefore⟩ := List.getLast?_eq_some_iff.mp hback
        rw [hbefore, List.dropLast_concat]
      rw [marks, ← hsplit, List.map_append, List.map_append, List.dropLast_concat]
      rfl
    have hmarks' : s₁.marks = s.marks := by
      rw [marks, hsent]
      exact hmarks
    have hsound : s₁.Sound typed lens := h.of_eq hmarks' (hassumed ▸ h.assumed) hlog hbase
      (fun hs => hshutdown ▸ hs)
    refine ⟨hsound.recorded_latest.1, hsound.recorded_latest.2, ?_⟩
    rintro _ ⟨⟩ hne
    rw [hnew] at hne
    have hs : s.shutdownInProgress = false := by
      by_contra hs
      rw [eq_true_of_ne_false hs, if_pos rfl] at hnewNum
      exact hne hnewNum.symm
    have hlen : s.currentLen = back.len := by
      by_contra hlen
      rw [hs, if_neg Bool.false_ne_true, if_neg hlen, hsame] at hnewNum
      have hlt := hnums hs back hback
      unfold nextNum at hnewNum
      unfold SHUTDOWN_NUM at hlt
      omega
    -- the state that starts the instruction is the assumed one, up to its time
    have hst₁ : s₁.sent[s.assumed]? = some st' := hsent ▸ hst'
    have heq : (st'.num, st'.len) = (st.num, st.len) := by
      have hget : s₁.marks[s.assumed]? = some (st'.num, st'.len) := by
        rw [marks, List.getElem?_map, hst₁]
        rfl
      have hget' : s.marks[s.assumed]? = some (st.num, st.len) := by
        rw [marks, List.getElem?_map, hst]
        rfl
      rw [hmarks', hget'] at hget
      exact (Option.some.inj hget).symm
    obtain ⟨hnum, hlen'⟩ := Prod.mk.inj heq
    have hrun := h.running hs
    have hnumNe : st.num ≠ SHUTDOWN_NUM := hrun _ (mem_marks hmem)
    have hkept := hsound.recorded_latest.2
    refine ⟨?_, ?_, st.len, typed.length, ?_, ?_, (h.within _ (mem_marks hmem)).2, ?_⟩
    · rw [hold, hnum]
      exact hnumNe
    · rw [hold]
      exact List.mem_map_of_mem (List.mem_of_getElem? hst₁)
    · rw [hold, hnum]
      exact hkept _ _ hnumNe (h.recorded _ (mem_marks hmem) hnumNe)
    · rw [hnew, hsame, ← h.currentLen, hlen]
      exact hkept _ _ (hrun _ hbackMem) (h.recorded _ hbackMem (hrun _ hbackMem))
    · rw [hdiff, List.take_length]
  · rw [if_neg hsame] at hfragments
    have hlen : s.shutdownInProgress = false → s.currentLen ≠ back.len := by
      intro hs hlen
      rw [hs, if_neg Bool.false_ne_true, if_pos hlen] at hnewNum
      exact hsame hnewNum.symm
    have hnum : s.NewNum newNum := by
      have hnew := newNum_of_getLast? hback (fun hs => hnums hs back hback)
      cases hs : s.shutdownInProgress with
      | true =>
          rw [hs, if_pos rfl] at hnew hnewNum
          exact hnewNum ▸ hnew
      | false =>
          rw [hs, if_neg Bool.false_ne_true] at hnew hnewNum
          rw [if_neg (hlen hs)] at hnewNum
          exact hnewNum ▸ hnew
    apply h.sends_addSentState hnum hst hfragments
    intro hs hmax hle
    apply hfits hs hmax hle
    intro back' hback'
    cases hback.symm.trans hback'
    exact hlen hs

/-- What is sent when it is due is right. -/
theorem Sound.sendWhenDue (h : s.Sound typed lens) {now sendNow : ℕ} (hfits : s.Fits now)
    {chaff : Bytes} {out : Option Instruction}
    (hsend : s.sendWhenDue now sendNow chaff = some (s', out)) :
  s'.Sends typed lens out
  := by
  unfold Sender.sendWhenDue at hsend
  split at hsend
  · cases hsend
    exact h.sends_none
  · rename_i hdue
    have hdue' : (s.ackDue now || s.sendDue now) = true := by
      revert hdue
      cases s.ackDue now <;> cases s.sendDue now <;> simp
    have hnums := fun hs => (hfits hdue' hs).1
    obtain ⟨st, hst, hsend⟩ := Option.bind_eq_some_iff.mp hsend
    simp only at hsend
    split at hsend
    · rename_i hnone
      obtain ⟨⟨s₁, out₁⟩, hack, hsend⟩ := Option.bind_eq_some_iff.mp hsend
      have hsends : s₁.Sends typed lens out₁ := by
        unfold Sender.ackWhenDue at hack
        split at hack
        · obtain ⟨⟨s₂, inst⟩, hempty, heq⟩ := Option.map_eq_some_iff.mp hack
          cases heq
          have hsends := h.sendEmptyAck hnums hst hnone hempty
          exact hsends.of_eq rfl (length_marks ▸ hsends.sound.assumed) rfl rfl rfl
        · cases hack
          exact h.sends_none
      cases hsend
      split
      · exact hsends.of_eq rfl (length_marks ▸ hsends.sound.assumed) rfl rfl rfl
      · exact hsends
    · obtain ⟨⟨s₁, inst⟩, hsent, hsend⟩ := Option.bind_eq_some_iff.mp hsend
      cases hsend
      have hsends := h.sendToReceiver hnums hst
        (fun hs hmax hle hnew => (hfits hdue' hs).2 hmax hle hnew st hst) hsent
      exact hsends.of_eq rfl (length_marks ▸ hsends.sound.assumed) rfl rfl rfl

end Sender

/-! ### Runs -/

/-- What is kept of a sender and a server: what was put on the wire is right, and the server holds
what was typed up to the states it has. -/
structure Link.Sound (w : Link) : Prop where
  sender : w.sender.Sound w.typed w.lens
  diffs : ∀ x ∈ w.wire, x.inst.newNum ≠ SHUTDOWN_NUM → x.inst.oldNum ≠ SHUTDOWN_NUM
    ∧ x.inst.oldNum ∈ x.sentNums ∧ ∃ a b, w.lens x.inst.oldNum = some a
      ∧ w.lens x.inst.newNum = some b ∧ a ≤ b
      ∧ x.inst.diff = encodeUserMessage ((w.typed.take b).drop a)
  input : ∀ n l, w.held n = some l → n ≠ SHUTDOWN_NUM
    ∧ ∃ b, w.lens n = some b ∧ l = inputs (w.typed.take b)

namespace Link

variable {w w' : Link}

/-- Another state of the sender, in which what was recorded stays and what was typed goes on. -/
theorem Sound.of_sender (h : w.Sound) {s : Sender} {lens : ℕ → Option ℕ} {l : List UserInstruction}
    (hsender : s.Sound (w.typed ++ l) lens)
    (hkept : ∀ n b, n ≠ SHUTDOWN_NUM → w.lens n = some b → lens n = some b) :
  { w with sender := s, typed := w.typed ++ l, lens := lens }.Sound
  := by
  have htake : ∀ {n b}, w.lens n = some b → (w.typed ++ l).take b = w.typed.take b := fun hb =>
    List.take_append_of_le_length (h.sender.typed _ _ hb)
  refine ⟨hsender, ?_, ?_⟩
  · intro x hx hne
    obtain ⟨hold, hmem, a, b, ha, hb, hle, hdiff⟩ := h.diffs x hx hne
    refine ⟨hold, hmem, a, b, hkept _ _ hold ha, hkept _ _ hne hb, hle, ?_⟩
    rw [hdiff, htake hb]
  · intro n x hx
    obtain ⟨hne, b, hb, heq⟩ := h.input n x hx
    refine ⟨hne, b, hkept _ _ hne hb, ?_⟩
    rw [heq, htake hb]

/-- The server applies an instruction that is right. -/
theorem Sound.receive (h : w.Sound) {x : Sending} (hx : x ∈ w.wire) :
  (w.receive x.inst).Sound
  := by
  unfold Link.receive
  split
  · rename_i l l' hheld hread
    split
    · exact h
    · rename_i hne
      obtain ⟨hold, hmem, a, b, ha, hb, hle, hdiff⟩ := h.diffs x hx hne
      obtain ⟨-, a', ha', hl⟩ := h.input _ _ hheld
      cases ha.symm.trans ha'
      rw [hdiff, readUserMessage_encodeUserMessage] at hread
      cases hread
      refine ⟨h.sender, h.diffs, ?_⟩
      intro n y hy
      simp only at hy ⊢
      by_cases heq : n = x.inst.newNum
      · subst heq
        rw [Function.update_self] at hy
        cases hy
        refine ⟨hne, b, hb, ?_⟩
        have hsplit : w.typed.take b = w.typed.take a ++ (w.typed.take b).drop a := by
          conv_lhs => rw [← List.take_append_drop a (w.typed.take b), List.take_take, min_eq_left hle]
        rw [hl, ← inputs_append, ← hsplit]
      · rw [Function.update_of_ne heq] at hy
        exact h.input n y hy
  · exact h

/-- A step keeps what holds of the sender and the server, when a tick names the state it starts
from. -/
theorem Sound.step (h : w.Sound) {l : LinkStep} (hfits : linkFits w l) (hstep : w.step l = some w') :
  w'.Sound
  := by
  have hsame : ∀ {s : Sender}, s.Sound w.typed w.lens → { w with sender := s }.Sound := by
    intro s hs
    have hnil : s.Sound (w.typed ++ []) w.lens := by
      rw [List.append_nil]
      exact hs
    have hsound := h.of_sender hnil (fun _ _ _ hb => hb)
    simp only [List.append_nil] at hsound
    exact hsound
  cases l with
  | push inst =>
      cases hstep
      exact h.of_sender (h.sender.push inst) (fun _ _ _ hb => hb)
  | waitTime t rto sendInterval =>
      obtain ⟨s, hs, rfl⟩ := Option.map_eq_some_iff.mp hstep
      exact hsame (h.sender.calculateTimers hs)
  | tick t rto sendInterval chaff =>
      obtain ⟨⟨s, out⟩, htick, rfl⟩ := Option.map_eq_some_iff.mp hstep
      obtain ⟨s₁, htimers, hsend⟩ := Option.bind_eq_some_iff.mp htick
      have hsends := (h.sender.calculateTimers htimers).sendWhenDue (hfits s₁ htimers) hsend
      have hnil : s.Sound (w.typed ++ []) (s.recorded w.lens) := by
        rw [List.append_nil]
        exact hsends.sound
      have hsound := h.of_sender hnil hsends.kept
      simp only [List.append_nil] at hsound
      cases out with
      | none => exact hsound
      | some inst =>
          refine ⟨hsound.sender, ?_, hsound.input⟩
          intro x hx
          rcases List.mem_cons.mp hx with rfl | hx
          · exact hsends.right inst rfl
          · exact hsound.diffs x hx
  | acknowledge ackNum =>
      cases hstep
      exact hsame (h.sender.processAcknowledgmentThrough ackNum)
  | applied num now data =>
      cases hstep
      exact hsame (h.sender.of_eq rfl h.sender.assumed rfl rfl (fun hs => hs))
  | startShutdown now =>
      cases hstep
      apply hsame
      unfold Sender.startShutdown
      split
      · exact h.sender
      · rename_i hs
        exact h.sender.of_eq rfl h.sender.assumed rfl rfl (fun _ => eq_false_of_ne_true hs)
  | deliver i =>
      obtain ⟨x, hx, rfl⟩ := Option.map_eq_some_iff.mp hstep
      exact h.receive (List.mem_of_getElem? hx)
  | drop num =>
      cases hstep
      refine ⟨h.sender, h.diffs, ?_⟩
      intro n y hy
      simp only at hy
      by_cases heq : n = num
      · rw [heq, Function.update_self] at hy
        cases hy
      · rw [Function.update_of_ne heq] at hy
        exact h.input n y hy

end Link

/-- At first nothing was typed, and state 0 stands for it. -/
theorem sound_of_init {w : Link} (h : link.init w) :
  w.Sound
  := by
  obtain ⟨⟨now, hsender⟩, htyped, hlens, hwire, hheld⟩ := h
  have hmarks : (Sender.new now).marks = [(0, 0)] := rfl
  refine ⟨?_, ?_, ?_⟩
  · rw [hsender, htyped, hlens]
    have hrecorded : ∀ n l, Function.update (fun _ : ℕ => (none : Option ℕ)) 0 (some 0) n = some l →
        n = 0 ∧ l = 0 := by
      intro n l hl
      by_cases heq : n = 0
      · rw [heq, Function.update_self] at hl
        exact ⟨heq, (Option.some.inj hl).symm⟩
      · rw [Function.update_of_ne heq] at hl
        cases hl
    refine ⟨by simp [hmarks], Nat.one_pos, Nat.succ_le_succ (Nat.zero_le _), rfl, ?_,
      by simp [hmarks], ?_, ?_, ?_, ?_⟩
    · intro m hm
      cases List.mem_singleton.mp (hmarks ▸ hm)
      exact ⟨le_rfl, le_rfl⟩
    · intro m hm _
      cases List.mem_singleton.mp (hmarks ▸ hm)
      exact Function.update_self _ _ _
    · intro _ m hm
      cases List.mem_singleton.mp (hmarks ▸ hm)
      decide
    · intro _ n l hl m _
      exact (hrecorded n l hl).1.le.trans (Nat.zero_le _)
    · intro n l hl
      exact (hrecorded n l hl).2.le
  · rw [hwire]
    exact fun x hx => absurd hx List.not_mem_nil
  · intro n l hl
    rw [hheld] at hl
    by_cases heq : n = 0
    · subst heq
      cases (Function.update_self _ _ _).symm.trans hl
      refine ⟨by decide, 0, ?_, rfl⟩
      rw [hlens]
      exact Function.update_self _ _ _
    · rw [Function.update_of_ne heq] at hl
      cases hl

/-- In runs whose ticks name the state they start from every diff is what was typed between the
states it names, and the server holds what was typed. -/
theorem correct_of_reaches {w : Link} (h : link.Reaches linkFits w) :
  w.Correct
  := by
  have hsound : w.Sound := h.invariant (fun _ => sound_of_init)
    (fun _ _ _ hw hfits hstep => hw.step hfits hstep)
  refine ⟨?_, fun n l hl => (hsound.input n l hl).2⟩
  intro x hx hne
  exact (hsound.diffs x hx hne).2

/-! ### A loss, and a burst -/

instance (s : Sender) (now : ℕ) : Decidable (s.Fits now) := by
  unfold Sender.Fits
  infer_instance

instance (w : Link) : ∀ l : LinkStep, Decidable (linkFits w l)
  | .tick t rto sendInterval _ => by
    unfold linkFits
    infer_instance
  | .push _ | .waitTime _ _ _ | .acknowledge _ | .applied _ _ _ | .startShutdown _ | .deliver _
  | .drop _ => .isTrue trivial

/-- Nothing typed yet. -/
def untyped : Link :=
  ⟨.new 0, [], Function.update (fun _ => none) 0 (some 0), [],
    Function.update (fun _ => none) 0 (some [])⟩

theorem init_untyped :
  link.init untyped
  := ⟨⟨0, rfl⟩, rfl, rfl, rfl, rfl⟩

/-- Type a key, and send it. -/
def typeKey (now rto : ℕ) (b : UInt8) : List LinkStep :=
  [.push (.keystroke [b]), .waitTime (fun _ => now) rto 20, .tick (fun _ => now + 8) rto 20 []]

/-- Three keys are typed, the third a while later; the second instruction is lost, and the third
arrives twice. -/
def typeThree : List LinkStep :=
  typeKey 20 50 97 ++ typeKey 40 50 98 ++ typeKey 400 50 99 ++ [.deliver 2, .deliver 0, .deliver 0]

/-- The server holds all three. -/
theorem correct_typeThree :
  ∃ w : Link, w.held 3 = some [.key 97, .key 98, .key 99] ∧ w.Correct
  := by
  have hrun : (link.runMeeting linkFits untyped typeThree).map (fun w => w.held 3)
      = some (some [.key 97, .key 98, .key 99]) := by
    decide +kernel
  obtain ⟨w, hw, hheld⟩ := Option.map_eq_some_iff.mp hrun
  exact ⟨w, hheld, correct_of_reaches (TransitionSystem.reaches_runMeeting init_untyped hw)⟩

/-- Keys are typed until as many states are sent as can be, and one more is sent when the round trip
takes long. -/
def typeBurst : List LinkStep :=
  (List.range 31).flatMap (fun k => typeKey (20 * (k + 1)) 50 97) ++ typeKey 640 1000 98

/-- The last instruction starts from the state it is to lead to. -/
theorem not_correct_typeBurst :
  ∃ w, link.Reachable w ∧ ¬ w.Correct
  := by
  have hrun : (link.run untyped typeBurst).map (fun w => w.wire.head?.map
      (fun x => (x.inst.oldNum, x.inst.newNum, x.inst.diff)))
      = some (some (32, 32, encodeUserMessage [.keystroke [98]])) := by
    decide +kernel
  obtain ⟨w, hw, hwire⟩ := Option.map_eq_some_iff.mp hrun
  obtain ⟨x, hx, heq⟩ := Option.map_eq_some_iff.mp hwire
  simp only [Prod.mk.injEq] at heq
  obtain ⟨hold, hnew, hdiff⟩ := heq
  refine ⟨w, TransitionSystem.Reaches.run (.init init_untyped)
    (TransitionSystem.meets_true untyped typeBurst) hw, ?_⟩
  intro hcorrect
  have hmem : x ∈ w.wire := List.mem_of_mem_head? hx
  have hne : x.inst.newNum ≠ SHUTDOWN_NUM := by
    rw [hnew]
    decide
  obtain ⟨-, a, b, ha, hb, -, hright⟩ := hcorrect.diffs x hmem hne
  rw [hold] at ha
  rw [hnew, ha] at hb
  cases hb
  rw [hdiff, List.drop_eq_nil_of_le (List.length_take_le _ _)] at hright
  exact absurd hright (by decide +kernel)

end Termoso.Core.Mosh
