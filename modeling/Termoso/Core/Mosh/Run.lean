import Termoso.Core.Mosh.Client

/-!
# The loop of a mosh connection

The terminal layer holds a handle, through which it sends commands into a channel.  The loop takes
them out: what is written and the sizes of the terminal enter the user-input log, and closing starts
the shutdown.  After a write the loop looks for more writes, so that a burst becomes one
instruction.  It takes a command out of the channel before it knows that it is a write, and lets go
of any other.

So a command is lost exactly when it is the one that ends a burst.
-/

namespace Termoso.Core.Mosh

open Wire (Bytes)

/-- Mention lost contact to the user after this long without a packet. -/
def SILENCE_NOTICE : ℕ := 15000

structure TermSize where
  cols : UInt16
  rows : UInt16
deriving DecidableEq

inductive Command
  | write (data : Bytes)
  | resize (size : TermSize)
  | close
deriving DecidableEq

/-- What is to enter the user-input log for a command. -/
def Command.entry : Command → Option UserInstruction
  | .write data => some (.keystroke data)
  | .resize size => some (.resize size.cols.toUInt32.toInt32 size.rows.toUInt32.toInt32)
  | .close => none

namespace Sender

variable (s : Sender)

def shutdownAcknowledged : Bool := s.sent.head?.any (fun front => decide (front.num = SHUTDOWN_NUM))

def shutdownAckTimedOut (now : ℕ) : Bool :=
  s.shutdownInProgress && (decide (SHUTDOWN_RETRIES ≤ s.shutdownTries)
    || decide (ACTIVE_RETRY_TIMEOUT ≤ now - s.shutdownStart))

def counterpartyShutdownAckSent : Bool := decide (s.lastAckSent = SHUTDOWN_NUM)

end Sender

/-- How the loop ends. -/
inductive Ending
  | ok
  | error (e : MoshError)
  | socket (text : String)
deriving DecidableEq

/-- Where the loop is. -/
inductive Stage
  | top
  | waiting
  | coalescing
  | checking
  | ended (ending : Ending)
deriving DecidableEq

/-- The handle and the loop.  A call at the handle looks whether it is closed, and then sends its
command.  Beside the state of the code stand the commands sent, those taken out of the channel, those
of them that were taken to coalesce a burst, and all that entered the log. -/
structure Loop where
  closed : Bool
  calls : List Command
  handles : Bool
  commands : List Command
  client : Client
  stage : Stage
  silentSinceNotice : Bool
  notices : List String
  sent : List Command
  taken : List Command
  coalesced : List Command
  typed : List UserInstruction

inductive LoopStep
  | write (data : Bytes)
  | resize (size : TermSize)
  | close
  /-- A call that found the handle open sends its command. -/
  | send (i : ℕ)
  /-- The last handle is dropped. -/
  | drop
  | waitTime (t : ℕ → ℕ) (rto sendInterval : ℕ)
  /-- A datagram, and the instruction it completes, if any; or the reader has stopped. -/
  | datagram (d : Option (Option Arrival))
  | recv (now : ℕ)
  | tryRecv
  | sleep
  /-- The end of a turn; a send of it may fail. -/
  | turn (t : ℕ → ℕ) (rto sendInterval : ℕ) (chaff : Bytes) (failure : Option Ending)

namespace Loop

variable (l : Loop)

/-- Call the handle, while there is one. Closing marks it as closed. -/
def call (c : Command) : Option Loop :=
  if l.handles = false then none
  else if l.closed then some l
  else some { l with closed := decide (c = .close), calls := l.calls ++ [c] }

/-- Send into the channel, which is there as long as the loop is. -/
def send (c : Command) : Loop :=
  match l.stage with
  | .ended _ => l
  | _ => { l with commands := l.commands ++ [c], sent := l.sent ++ [c] }

/-- Enter an instruction in the user-input log. -/
def push (inst : UserInstruction) : Loop :=
  { l with
    client := { l.client with sender := l.client.sender.push inst }
    typed := l.typed ++ [inst] }

def startShutdown (now : ℕ) : Loop :=
  { l with client := { l.client with sender := l.client.sender.startShutdown now } }

/-- A command is out of the channel. -/
def take (c : Command) (commands : List Command) : Loop :=
  { l with commands := commands, taken := l.taken ++ [c] }

/-- Go on at a stage of the loop. -/
def goTo (stage : Stage) : Loop := { l with stage := stage }

/-- Receive a command, once there is one. -/
def recv (now : ℕ) : Option Loop :=
  match l.commands with
  | .write data :: commands =>
    some (((l.take (.write data) commands).push (.keystroke data)).goTo .coalescing)
  | .resize size :: commands =>
    some (((l.take (.resize size) commands).push
      (.resize size.cols.toUInt32.toInt32 size.rows.toUInt32.toInt32)).goTo .checking)
  | .close :: commands => some (((l.take .close commands).startShutdown now).goTo .checking)
  | [] => if l.handles then none else some ((l.startShutdown now).goTo .checking)

/-- A command is taken to coalesce a burst. -/
def coalesce (c : Command) : Loop := { l with coalesced := l.coalesced ++ [c] }

/-- Coalesce a burst of input into one instruction. -/
def tryRecv : Loop :=
  match l.commands with
  | .write more :: commands =>
    ((l.coalesce (.write more)).take (.write more) commands).push (.keystroke more)
  -- the pattern of the loop fails after the command was taken
  | c :: commands => ((l.coalesce c).take c commands).goTo .checking
  | [] => l.goTo .checking

def datagram : Option (Option Arrival) → Loop
  | none => l.goTo (.ended (.socket "socket reader stopped"))
  | some none => l.goTo .checking
  | some (some a) =>
    match l.client.process a.inst a.now a.listening with
    | (client, some e) => { l with client := client, stage := .ended (.error e) }
    | (client, none) => { l with client := client, stage := .checking }

/-- Tell the user that contact is lost, or restored. -/
def notice (now : ℕ) : Loop :=
  let silence := now - l.client.remoteTimestamp
  if SILENCE_NOTICE < silence ∧ l.silentSinceNotice = false then
    { l with
      silentSinceNotice := true
      notices := l.notices ++ ["mosh: no contact with the server for " ++ toString (silence / 1000)
        ++ " s — still trying"] }
  else if silence ≤ SILENCE_NOTICE ∧ l.silentSinceNotice = true then
    { l with
      silentSinceNotice := false
      notices := l.notices ++ ["mosh: connection restored"] }
  else l

/-- Send what is due. -/
def tick (t : ℕ → ℕ) (rto sendInterval : ℕ) (chaff : Bytes) (failure : Option Ending) :
    Option Loop :=
  (l.client.sender.tick t rto sendInterval chaff).map fun (sender, inst) =>
    { l with
      client := { l.client with sender := sender }
      stage :=
        match inst, failure with
        | some _, some ending => .ended ending
        | _, _ => .top }

/-- The end of a turn. -/
def turn (t : ℕ → ℕ) (rto sendInterval : ℕ) (chaff : Bytes) (failure : Option Ending) :
    Option Loop :=
  if l.client.sender.shutdownInProgress
      && (l.client.sender.shutdownAcknowledged || l.client.sender.shutdownAckTimedOut (t 0)) then
    some (l.goTo (.ended (.error .closed)))
  else if l.client.sender.counterpartyShutdownAckSent then some (l.goTo (.ended .ok))
  else (l.notice (t 1)).tick (fun k => t (k + 2)) rto sendInterval chaff failure

def step : LoopStep → Option Loop
  | .write data => l.call (.write data)
  | .resize size => l.call (.resize size)
  | .close => l.call .close
  | .send i => l.calls[i]?.map (fun c => { l with calls := l.calls.eraseIdx i }.send c)
  | .drop => if l.calls = [] then some { l with handles := false } else none
  | .waitTime t rto sendInterval =>
    if l.stage = .top then
      (l.client.sender.calculateTimers t rto sendInterval).map
        (fun s => { l with client := { l.client with sender := s }, stage := .waiting })
    else none
  | .datagram d => if l.stage = .waiting then some (l.datagram d) else none
  | .recv now => if l.stage = .waiting then l.recv now else none
  | .tryRecv => if l.stage = .coalescing then some l.tryRecv else none
  | .sleep => if l.stage = .waiting then some (l.goTo .checking) else none
  | .turn t rto sendInterval chaff failure =>
    if l.stage = .checking then l.turn t rto sendInterval chaff failure else none

end Loop

/-- The log of a sender, from its base on, is the end of what was typed. -/
def Sender.Logs (s : Sender) (typed : List UserInstruction) : Prop :=
  s.log = typed.drop s.base ∧ s.base ≤ typed.length

/-- Runs of the loop. At first the connection is open, what was typed while it opened is in the log,
and no command was sent. -/
def loop (opened : List UserInstruction) : TransitionSystem Loop LoopStep where
  init l := l.closed = false ∧ l.calls = [] ∧ l.handles = true ∧ l.commands = [] ∧ l.stage = .top ∧ l.sent = []
    ∧ l.taken = [] ∧ l.coalesced = [] ∧ l.typed = opened ∧ l.client.sender.Logs opened
  step := Loop.step

/-! ### What is to hold -/

/-- Commands are taken in the order they were sent; those taken are in the user-input log, in that
order, but for a close, which starts the shutdown; and only writes are taken to coalesce a burst. -/
structure Loop.Received (l : Loop) (opened : List UserInstruction) : Prop where
  order : l.sent = l.taken ++ l.commands
  typed : l.typed = opened ++ l.taken.filterMap Command.entry
  log : l.client.sender.Logs l.typed
  close : Command.close ∈ l.taken → l.client.sender.shutdownInProgress = true
  coalesced : ∀ c ∈ l.coalesced, ∃ data, c = .write data

/-- When the loop looks for more to coalesce, it finds a write or nothing. -/
def Loop.Bursts (l : Loop) : LoopStep → Prop
  | .tryRecv => ∀ c ∈ l.commands.head?, ∃ data, c = .write data
  | _ => True

/-! ### The log of a sender -/

/-- A sender goes on with its log, and shuts down or not as before. -/
structure Sender.Continues (s s' : Sender) : Prop where
  shutdown : s'.shutdownInProgress = s.shutdownInProgress
  logs : ∀ typed, s.Logs typed → s'.Logs typed

namespace Sender

variable {s s' : Sender}

theorem Continues.of_eq (hlog : s'.log = s.log) (hbase : s'.base = s.base)
    (hshutdown : s'.shutdownInProgress = s.shutdownInProgress) :
  s.Continues s'
  := by
  apply Continues.mk hshutdown
  intro typed h
  rw [Logs, hlog, hbase]
  apply h

theorem Continues.trans {s'' : Sender} (h : s.Continues s') (h' : s'.Continues s'') :
  s.Continues s''
  := by
  apply Continues.mk
  · rw [h'.shutdown, h.shutdown]
  · intro typed hs
    apply h'.logs
    apply h.logs typed hs

theorem Logs.push {typed : List UserInstruction} (h : s.Logs typed) (inst : UserInstruction) :
  (s.push inst).Logs (typed ++ [inst])
  := by
  constructor
  · change s.log ++ [inst] = (typed ++ [inst]).drop s.base
    rw [List.drop_append_of_le_length h.2, h.1]
  · change s.base ≤ (typed ++ [inst]).length
    rw [List.length_append]
    apply h.2.trans (Nat.le_add_right _ _)

theorem continues_processAcknowledgmentThrough (ackNum : ℕ) :
  s.Continues (s.processAcknowledgmentThrough ackNum)
  := by
  unfold processAcknowledgmentThrough
  simp only
  split
  · exact .of_eq rfl rfl rfl
  · exact .of_eq rfl rfl rfl

/-- Setting the timers cuts the log where it starts. -/
theorem continues_calculateTimers {t : ℕ → ℕ} {rto sendInterval : ℕ}
    (h : s.calculateTimers t rto sendInterval = some s') :
  s.Continues s'
  := by
  obtain ⟨s₁, hs₁, h⟩ := Option.bind_eq_some_iff.mp h
  obtain ⟨back, -, h⟩ := Option.bind_eq_some_iff.mp h
  obtain ⟨front, -, h⟩ := Option.bind_eq_some_iff.mp h
  obtain ⟨assumed, -, h⟩ := Option.bind_eq_some_iff.mp h
  obtain ⟨first, -, rfl⟩ := Option.map_eq_some_iff.mp hs₁
  cases h
  apply Continues.mk
  · rfl
  · rintro typed ⟨hlog, hbase⟩
    have hlen : s.log.length = typed.length - s.base := by
      rw [hlog, List.length_drop]
    have hcut : ∀ k, s.log.drop k = typed.drop (s.base + min k s.log.length) := by
      intro k
      rw [hlog, List.drop_drop, ← hlog]
      rcases le_total k s.log.length with hle | hle
      · rw [min_eq_left hle]
      · rw [min_eq_right hle, List.drop_eq_nil_of_le (by omega),
          List.drop_eq_nil_of_le (by omega)]
    constructor
    · apply hcut
    · change s.base + min (first.len - s.base) s.log.length ≤ typed.length
      omega

theorem continues_addSentState (timestamp num len : ℕ) :
  s.Continues (s.addSentState timestamp num len)
  := by
  unfold addSentState
  simp only
  split
  · exact .of_eq rfl rfl rfl
  · exact .of_eq rfl rfl rfl

theorem continues_sendInFragments {diff chaff : Bytes} {newNum : ℕ} {inst : Instruction}
    (h : s.sendInFragments diff newNum chaff = some (s', inst)) :
  s.Continues s'
  := by
  obtain ⟨_, _, _, _, _, _, _, hlog, hbase, hshutdown⟩ := sendInFragments_eq h
  apply Continues.of_eq hlog hbase hshutdown

theorem continues_sendEmptyAck {now : ℕ} {chaff : Bytes} {inst : Instruction}
    (h : s.sendEmptyAck now chaff = some (s', inst)) :
  s.Continues s'
  := by
  obtain ⟨back, -, h⟩ := Option.bind_eq_some_iff.mp h
  obtain ⟨⟨s₁, inst₁⟩, hsend, h⟩ := Option.bind_eq_some_iff.mp h
  cases h
  apply (continues_addSentState _ _ _).trans
  apply (continues_sendInFragments hsend).trans
  exact .of_eq rfl rfl rfl

theorem continues_sendToReceiver {now : ℕ} {diff chaff : Bytes} {inst : Instruction}
    (h : s.sendToReceiver now diff chaff = some (s', inst)) :
  s.Continues s'
  := by
  obtain ⟨back, -, h⟩ := Option.bind_eq_some_iff.mp h
  obtain ⟨⟨s₁, inst₁⟩, hsend, h⟩ := Option.bind_eq_some_iff.mp h
  cases h
  generalize (if s.shutdownInProgress then SHUTDOWN_NUM
    else if s.currentLen = back.len then back.num else nextNum back.num) = newNum at hsend
  have hstart : s.Continues (if newNum = back.num then
      { s with sent := s.sent.dropLast ++ [{ back with timestamp := now }] }
      else s.addSentState now newNum s.currentLen) := by
    split
    · exact .of_eq rfl rfl rfl
    · apply continues_addSentState
  apply (hstart.trans (continues_sendInFragments hsend)).trans
  exact .of_eq rfl rfl rfl

theorem continues_sendWhenDue {now sendNow : ℕ} {chaff : Bytes} {out : Option Instruction}
    (h : s.sendWhenDue now sendNow chaff = some (s', out)) :
  s.Continues s'
  := by
  unfold sendWhenDue at h
  split at h
  · cases h
    exact .of_eq rfl rfl rfl
  · obtain ⟨st, -, h⟩ := Option.bind_eq_some_iff.mp h
    simp only at h
    split at h
    · obtain ⟨⟨s₁, out₁⟩, hack, h⟩ := Option.bind_eq_some_iff.mp h
      have hacked : s.Continues s₁ := by
        unfold ackWhenDue at hack
        split at hack
        · obtain ⟨⟨s₂, inst⟩, hempty, heq⟩ := Option.map_eq_some_iff.mp hack
          cases heq
          apply (continues_sendEmptyAck hempty).trans
          exact .of_eq rfl rfl rfl
        · cases hack
          exact .of_eq rfl rfl rfl
      cases h
      apply hacked.trans
      split
      · exact .of_eq rfl rfl rfl
      · exact .of_eq rfl rfl rfl
    · obtain ⟨⟨s₁, inst⟩, hsent, h⟩ := Option.bind_eq_some_iff.mp h
      cases h
      apply (continues_sendToReceiver hsent).trans
      exact .of_eq rfl rfl rfl

theorem continues_tick {t : ℕ → ℕ} {rto sendInterval : ℕ} {chaff : Bytes}
    {out : Option Instruction} (h : s.tick t rto sendInterval chaff = some (s', out)) :
  s.Continues s'
  := by
  obtain ⟨s₁, htimers, h⟩ := Option.bind_eq_some_iff.mp h
  apply (continues_calculateTimers htimers).trans
  apply continues_sendWhenDue h

end Sender

/-- What is received does not touch the log. -/
theorem Client.continues_process (c : Client) (inst : Instruction) (now : ℕ) (listening : Bool) :
  c.sender.Continues (c.process inst now listening).1.sender
  := by
  have hack := Sender.continues_processAcknowledgmentThrough (s := c.sender) inst.ackNum
  unfold Client.process
  split
  · exact .of_eq rfl rfl rfl
  · simp only
    split
    · apply hack
    · split
      · apply hack
      · have hshown : ∀ c' e, (c.acknowledged inst.ackNum).shown inst.diff listening = (c', e) →
            (c.acknowledged inst.ackNum).sender.Continues c'.sender := by
          intro c' e h
          unfold Client.shown at h
          split at h
          · cases h
            exact .of_eq rfl rfl rfl
          · split at h
            · cases h
              exact .of_eq rfl rfl rfl
            · simp only at h
              split at h
              · cases h
                exact .of_eq rfl rfl rfl
              · cases h
                exact .of_eq rfl rfl rfl
        split
        · rename_i c' e h
          apply hack.trans (hshown _ _ h)
        · rename_i c' h
          apply (hack.trans (hshown _ _ h)).trans
          exact .of_eq rfl rfl rfl

/-! ### Steps -/

namespace Loop

variable {l l' : Loop} {s : LoopStep} {c : Command} {commands : List Command}
  {opened : List UserInstruction}

/-- Nothing is sent or taken, and the log goes on. -/
structure Idles (l l' : Loop) : Prop where
  sent : l'.sent = l.sent
  taken : l'.taken = l.taken
  commands : l'.commands = l.commands
  coalesced : l'.coalesced = l.coalesced
  typed : l'.typed = l.typed
  sender : l.client.sender.Continues l'.client.sender

theorem Idles.of_client (client : Client) (hsender : l.client.sender.Continues client.sender)
    (silent : Bool) (notices : List String) (stage : Stage) :
  l.Idles { l with
    client := client, silentSinceNotice := silent, notices := notices, stage := stage }
  := ⟨rfl, rfl, rfl, rfl, rfl, hsender⟩

theorem idles_goTo (stage : Stage) :
  l.Idles (l.goTo stage)
  := ⟨rfl, rfl, rfl, rfl, rfl, .of_eq rfl rfl rfl⟩

theorem idles_call (h : l.call c = some l') :
  l.Idles l'
  := by
  unfold Loop.call at h
  split at h
  · cases h
  · split at h
    · cases h
      exact ⟨rfl, rfl, rfl, rfl, rfl, .of_eq rfl rfl rfl⟩
    · cases h
      exact ⟨rfl, rfl, rfl, rfl, rfl, .of_eq rfl rfl rfl⟩

theorem idles_datagram (d : Option (Option Arrival)) :
  l.Idles (l.datagram d)
  := by
  match d with
  | none => apply idles_goTo
  | some none => apply idles_goTo
  | some (some a) =>
      have hprocess := l.client.continues_process a.inst a.now a.listening
      rw [Loop.datagram]
      split
      · rename_i client e heq
        rw [heq] at hprocess
        apply Idles.of_client _ hprocess
      · rename_i client heq
        rw [heq] at hprocess
        apply Idles.of_client _ hprocess

theorem notice_eq (now : ℕ) :
  ∃ silent notices, l.notice now = { l with silentSinceNotice := silent, notices := notices }
  := by
  unfold Loop.notice
  simp only
  split
  · exact ⟨_, _, rfl⟩
  · split
    · exact ⟨_, _, rfl⟩
    · exact ⟨_, _, rfl⟩

theorem idles_turn {t : ℕ → ℕ} {rto sendInterval : ℕ} {chaff : Bytes} {failure : Option Ending}
    (h : l.turn t rto sendInterval chaff failure = some l') :
  l.Idles l'
  := by
  unfold Loop.turn at h
  split at h
  · cases h
    apply idles_goTo
  · split at h
    · cases h
      apply idles_goTo
    · obtain ⟨silent, notices, hnotice⟩ := l.notice_eq (t 1)
      rw [hnotice] at h
      obtain ⟨⟨sender, inst⟩, htick, heq⟩ := Option.map_eq_some_iff.mp h
      subst heq
      apply Idles.of_client { l.client with sender := sender }
      apply Sender.continues_tick htick

/-- A step leaves the commands and the log alone, or sends a command, or receives one, or looks for
one to coalesce. -/
theorem step_cases (h : l.step s = some l') :
  l.Idles l'
    ∨ (∃ l₁ c, l.Idles l₁ ∧ l' = l₁.send c)
    ∨ (∃ now, l.recv now = some l')
    ∨ s = .tryRecv ∧ l' = l.tryRecv
  := by
  cases s with
  | write data => apply Or.inl (idles_call h)
  | resize size => apply Or.inl (idles_call h)
  | close => apply Or.inl (idles_call h)
  | send i =>
      obtain ⟨c, -, rfl⟩ := Option.map_eq_some_iff.mp h
      right; left
      use { l with calls := l.calls.eraseIdx i }, c
      exact ⟨⟨rfl, rfl, rfl, rfl, rfl, .of_eq rfl rfl rfl⟩, rfl⟩
  | drop =>
      rw [Loop.step] at h
      split at h
      · cases h
        exact .inl ⟨rfl, rfl, rfl, rfl, rfl, .of_eq rfl rfl rfl⟩
      · cases h
  | waitTime t rto sendInterval =>
      rw [Loop.step] at h
      split at h
      · obtain ⟨sender, htimers, rfl⟩ := Option.map_eq_some_iff.mp h
        left
        apply Idles.of_client { l.client with sender := sender }
        apply Sender.continues_calculateTimers htimers
      · cases h
  | datagram d =>
      rw [Loop.step] at h
      split at h
      · cases h
        apply Or.inl (idles_datagram d)
      · cases h
  | recv now =>
      rw [Loop.step] at h
      split at h
      · right; right; left
        use now
      · cases h
  | tryRecv =>
      rw [Loop.step] at h
      split at h
      · cases h
        exact .inr (.inr (.inr ⟨rfl, rfl⟩))
      · cases h
  | sleep =>
      rw [Loop.step] at h
      split at h
      · cases h
        apply Or.inl (idles_goTo _)
      · cases h
  | turn t rto sendInterval chaff failure =>
      rw [Loop.step] at h
      split at h
      · apply Or.inl (idles_turn h)
      · cases h

/-! ### What the steps keep -/

theorem Received.idles (h : l.Received opened) (hidle : l.Idles l') :
  l'.Received opened
  := by
  constructor
  · rw [hidle.sent, hidle.taken, hidle.commands]
    apply h.order
  · rw [hidle.typed, hidle.taken]
    apply h.typed
  · rw [hidle.typed]
    apply hidle.sender.logs _ h.log
  · rw [hidle.taken, hidle.sender.shutdown]
    apply h.close
  · rw [hidle.coalesced]
    apply h.coalesced

theorem Received.send (h : l.Received opened) (c : Command) :
  (l.send c).Received opened
  := by
  unfold Loop.send
  split
  · apply h
  · constructor
    · change l.sent ++ [c] = l.taken ++ (l.commands ++ [c])
      rw [h.order, List.append_assoc]
    · apply h.typed
    · apply h.log
    · apply h.close
    · apply h.coalesced

/-- A command that is taken enters the log, or starts the shutdown. -/
theorem Received.of_take (h : l.Received opened) (hc : l.commands = c :: commands)
    (hsent : l'.sent = l.sent) (htaken : l'.taken = l.taken ++ [c])
    (hcommands : l'.commands = commands) (htyped : l'.typed = l.typed ++ c.entry.toList)
    (hlog : l'.client.sender.Logs l'.typed)
    (hshutdown : l.client.sender.shutdownInProgress = true ∨ c = .close →
      l'.client.sender.shutdownInProgress = true)
    (hcoalesced : ∀ c ∈ l'.coalesced, ∃ data, c = .write data) :
  l'.Received opened
  := by
  constructor
  · rw [hsent, htaken, hcommands, h.order, hc, List.append_assoc, List.singleton_append]
  · rw [htyped, htaken, h.typed, List.filterMap_append, List.append_assoc]
    cases c <;> rfl
  · apply hlog
  · intro hclose
    rw [htaken, List.mem_append, List.mem_singleton] at hclose
    apply hshutdown
    apply hclose.imp h.close Eq.symm
  · apply hcoalesced

/-- Starting the shutdown leaves the log alone. -/
theorem Received.startShutdown (h : l.Received opened) (now : ℕ) :
  (l.client.sender.startShutdown now).Logs l.typed
    ∧ (l.client.sender.startShutdown now).shutdownInProgress = true
  := by
  unfold Sender.startShutdown
  split
  · rename_i hshutdown
    exact ⟨h.log, hshutdown⟩
  · exact ⟨h.log, rfl⟩

theorem Received.recv {now : ℕ} (h : l.Received opened) (hrecv : l.recv now = some l') :
  l'.Received opened
  := by
  obtain ⟨hlog, hshutdown⟩ := h.startShutdown now
  unfold Loop.recv at hrecv
  split at hrecv
  · rename_i data commands hc
    cases hrecv
    refine h.of_take hc rfl rfl rfl rfl (h.log.push _) ?_ h.coalesced
    intro hor
    apply hor.resolve_right
    apply Command.noConfusion
  · rename_i size commands hc
    cases hrecv
    refine h.of_take hc rfl rfl rfl rfl (h.log.push _) ?_ h.coalesced
    intro hor
    apply hor.resolve_right
    apply Command.noConfusion
  · rename_i commands hc
    cases hrecv
    exact h.of_take hc rfl rfl rfl (List.append_nil _).symm hlog (fun _ => hshutdown) h.coalesced
  · split at hrecv
    · cases hrecv
    · cases hrecv
      exact ⟨h.order, h.typed, hlog, fun _ => hshutdown, h.coalesced⟩

/-- A write that is taken to coalesce a burst is received. -/
theorem Received.tryRecv (h : l.Received opened) (hburst : l.Bursts .tryRecv) :
  l.tryRecv.Received opened
  := by
  unfold Loop.tryRecv
  split
  · rename_i more commands hc
    refine h.of_take hc rfl rfl rfl rfl (h.log.push _) ?_ ?_
    · intro hor
      apply hor.resolve_right
      apply Command.noConfusion
    · intro c hmem
      rcases List.mem_append.mp hmem with hmem | hmem
      · apply h.coalesced c hmem
      · use more
        apply List.mem_singleton.mp hmem
  · rename_i c commands hne hc
    obtain ⟨data, rfl⟩ := hburst c (by rw [hc]; rfl)
    apply absurd rfl (hne data)
  · apply h.idles (idles_goTo _)

/-- A step that looks for more and finds a write or nothing, or does not look for more, loses no
command. -/
theorem Received.step (h : l.Received opened) (hburst : l.Bursts s) (hstep : l.step s = some l') :
  l'.Received opened
  := by
  rcases step_cases hstep with hidle | ⟨l₁, c, hidle, rfl⟩ | ⟨now, hrecv⟩ | ⟨rfl, rfl⟩
  · apply h.idles hidle
  · apply (h.idles hidle).send
  · apply h.recv hrecv
  · apply h.tryRecv hburst

/-- What was taken to coalesce a burst is known for ever. -/
theorem coalesced_step (hstep : l.step s = some l') :
  l.coalesced ⊆ l'.coalesced
  := by
  rcases step_cases hstep with hidle | ⟨l₁, c, hidle, rfl⟩ | ⟨now, hrecv⟩ | ⟨rfl, rfl⟩
  · rw [hidle.coalesced]
    apply List.Subset.refl
  · rw [← hidle.coalesced]
    unfold Loop.send
    split
    · apply List.Subset.refl
    · apply List.Subset.refl
  · unfold Loop.recv at hrecv
    split at hrecv
    · cases hrecv
      apply List.Subset.refl
    · cases hrecv
      apply List.Subset.refl
    · cases hrecv
      apply List.Subset.refl
    · split at hrecv
      · cases hrecv
      · cases hrecv
        apply List.Subset.refl
  · unfold Loop.tryRecv
    split
    · apply List.subset_append_left
    · apply List.subset_append_left
    · apply List.Subset.refl

/-- When only writes were taken to coalesce bursts, the last look found a write or nothing. -/
theorem bursts_of_coalesced (hstep : l.step s = some l')
    (h : ∀ c ∈ l'.coalesced, ∃ data, c = .write data) :
  l.Bursts s
  := by
  match s with
  | .tryRecv =>
      rw [Loop.step] at hstep
      split at hstep
      · cases hstep
        intro c hc
        apply h
        unfold Loop.tryRecv
        split
        · rename_i more commands heq
          rw [heq] at hc
          cases hc
          apply List.mem_append_right _ (List.mem_singleton_self _)
        · rename_i c' commands hne heq
          rw [heq] at hc
          cases hc
          apply List.mem_append_right _ (List.mem_singleton_self _)
        · rename_i heq
          rw [heq] at hc
          cases hc
      · cases hstep
  | .write _ | .resize _ | .close | .send _ | .drop | .waitTime _ _ _ | .datagram _ | .recv _
  | .sleep | .turn _ _ _ _ _ => trivial

end Loop

/-! ### Runs -/

theorem coalesced_run {opened : List UserInstruction} {l l' : Loop} {steps : List LoopStep}
    (hrun : (loop opened).run l steps = some l') :
  l.coalesced ⊆ l'.coalesced
  := by
  induction steps generalizing l with
  | nil =>
      cases hrun
      apply List.Subset.refl
  | cons s steps ih =>
      obtain ⟨l₁, hstep, hrun⟩ := Option.bind_eq_some_iff.mp hrun
      apply List.Subset.trans (Loop.coalesced_step hstep) (ih hrun)

/-- A run loses no command exactly when every look for more to coalesce finds a write or nothing. -/
theorem received_iff {opened : List UserInstruction} {l l' : Loop} (hinit : (loop opened).init l)
    {steps : List LoopStep} (hrun : (loop opened).run l steps = some l') :
  l'.Received opened ↔ (loop opened).Meets Loop.Bursts l steps
  := by
  have hreceived : l.Received opened := by
    obtain ⟨-, -, -, hcommands, -, hsent, htaken, hcoalesced, htyped, hlog⟩ := hinit
    constructor
    · rw [hsent, htaken, hcommands, List.append_nil]
    · rw [htyped, htaken, List.filterMap_nil, List.append_nil]
    · rw [htyped]
      apply hlog
    · rw [htaken]
      intro h
      cases h
    · rw [hcoalesced]
      intro c h
      cases h
  clear hinit
  induction steps generalizing l with
  | nil =>
      cases hrun
      exact ⟨fun _ => trivial, fun _ => hreceived⟩
  | cons s steps ih =>
      obtain ⟨l₁, hstep, hrun⟩ := Option.bind_eq_some_iff.mp hrun
      constructor
      · intro h
        have hburst : l.Bursts s := by
          apply Loop.bursts_of_coalesced hstep
          intro c hc
          apply h.coalesced c (coalesced_run hrun hc)
        constructor
        · apply hburst
        · intro l₂ hstep'
          cases hstep.symm.trans hstep'
          apply (ih hrun (hreceived.step hburst hstep)).mp h
      · rintro ⟨hburst, hrest⟩
        apply (ih hrun (hreceived.step hburst hstep)).mpr
        apply hrest l₁ hstep

/-- A loop at its start, nothing typed. -/
def Loop.opened : Loop where
  closed := false
  calls := []
  handles := true
  commands := []
  client := .new 0
  stage := .top
  silentSinceNotice := false
  notices := []
  sent := []
  taken := []
  coalesced := []
  typed := []

theorem init_opened :
  (loop []).init Loop.opened
  := ⟨rfl, rfl, rfl, rfl, rfl, rfl, rfl, rfl, rfl, rfl, Nat.zero_le _⟩

/-- One turn of the loop that receives a command, with so many looks for more. -/
def turnWith (looks : ℕ) : List LoopStep :=
  [.waitTime (fun _ => 20) 50 20, .recv 20] ++ List.replicate looks .tryRecv
    ++ [.turn (fun _ => 20) 50 20 [] none]

/-- Two keys and a size are sent, and received in turns of their own, but for the second key. -/
def typeAndResize : List LoopStep :=
  [.write [97], .send 0, .write [98], .send 0] ++ turnWith 2
    ++ [.resize ⟨80, 24⟩, .send 0, .close, .send 0] ++ turnWith 0 ++ turnWith 0

instance : ∀ (l : Loop) (s : LoopStep), Decidable (l.Bursts s)
  | l, .tryRecv =>
    match hc : l.commands.head? with
    | none => .isTrue (fun _ h => nomatch hc.symm.trans h)
    | some (.write data) => .isTrue (fun _ h => ⟨data, (Option.some.inj (hc.symm.trans h)).symm⟩)
    | some (.resize _) => .isFalse (fun h => nomatch h _ hc)
    | some .close => .isFalse (fun h => nomatch h _ hc)
  | _, .write _ | _, .resize _ | _, .close | _, .send _ | _, .drop | _, .waitTime _ _ _
  | _, .datagram _ | _, .recv _ | _, .sleep | _, .turn _ _ _ _ _ => .isTrue trivial

/-- Two keys, a size and a close, none of them the end of a burst, are received. -/
theorem received_typeAndResize :
  ∃ l, (loop []).run Loop.opened typeAndResize = some l ∧ l.Received []
    ∧ l.typed = [.keystroke [97], .keystroke [98], .resize 80 24]
    ∧ l.client.sender.shutdownInProgress = true
  := by
  have hrun : ((loop []).runMeeting Loop.Bursts Loop.opened typeAndResize).map
      (fun l => (l.typed, l.client.sender.shutdownInProgress))
      = some ([.keystroke [97], .keystroke [98], .resize 80 24], true) := by
    decide +kernel
  obtain ⟨l, hl, heq⟩ := Option.map_eq_some_iff.mp hrun
  obtain ⟨htyped, hshutdown⟩ := Prod.mk.inj heq
  have hl' := TransitionSystem.run_of_runMeeting hl
  use l
  refine ⟨hl', ?_, htyped, hshutdown⟩
  apply (received_iff init_opened hl').mpr
  apply TransitionSystem.meets_of_runMeeting hl

/-- A key and a command are sent, and the loop takes both in one turn. -/
def typeThen (c : LoopStep) : List LoopStep :=
  [.write [97], .send 0, c, .send 0] ++ turnWith 1

/-- A size that ends a burst does not enter the log, and a close that ends one does not start the
shutdown. -/
theorem not_received_typeThen :
  (∃ l, (loop []).run Loop.opened (typeThen (.resize ⟨80, 24⟩)) = some l ∧ ¬ l.Received []
      ∧ l.taken = [.write [97], .resize ⟨80, 24⟩] ∧ l.typed = [.keystroke [97]])
    ∧ ∃ l, (loop []).run Loop.opened (typeThen .close) = some l ∧ ¬ l.Received []
      ∧ l.taken = [.write [97], .close] ∧ l.client.sender.shutdownInProgress = false
  := by
  have hresize : ((loop []).run Loop.opened (typeThen (.resize ⟨80, 24⟩))).map
      (fun l => (l.taken, l.typed))
      = some ([.write [97], .resize ⟨80, 24⟩], [.keystroke [97]]) := by
    decide +kernel
  have hclose : ((loop []).run Loop.opened (typeThen .close)).map
      (fun l => (l.taken, l.client.sender.shutdownInProgress))
      = some ([.write [97], .close], false) := by
    decide +kernel
  constructor
  · obtain ⟨l, hl, heq⟩ := Option.map_eq_some_iff.mp hresize
    obtain ⟨htaken, htyped⟩ := Prod.mk.inj heq
    use l
    refine ⟨hl, ?_, htaken, htyped⟩
    intro h
    have hentries := h.typed
    rw [htaken, htyped] at hentries
    exact absurd hentries (by decide)
  · obtain ⟨l, hl, heq⟩ := Option.map_eq_some_iff.mp hclose
    obtain ⟨htaken, hshutdown⟩ := Prod.mk.inj heq
    use l
    refine ⟨hl, ?_, htaken, hshutdown⟩
    intro h
    have hstarted := h.close (by rw [htaken]; decide)
    rw [hshutdown] at hstarted
    cases hstarted

end Termoso.Core.Mosh
