import Termoso.Core.Mosh.Sender

/-!
# The receiver of terminal output

The client shows the state of the server with the number `remoteNum`.  An instruction from that
state to a later one is applied: its host bytes go to the terminal, and the new state is
acknowledged.  Every other instruction is passed over, but for what it acknowledges.

The instructions applied form a chain from state 0.
-/

namespace Termoso.Core.Mosh

open Wire (Bytes)

/-- What the receiver keeps. Beside it stand the instructions that were applied, the latest last. -/
structure Client where
  sender : Sender
  remoteNum : ℕ
  remoteTimestamp : ℕ
  serverSize : Option (Int32 × Int32)
  lastRoundtripSuccess : ℕ
  output : Bytes
  applied : List Instruction
deriving DecidableEq

/-- The bytes for the terminal in a host message. -/
def hostBytes (hosts : List HostInstruction) : Bytes :=
  hosts.flatMap (fun | .hostBytes b => b | _ => [])

/-- The size of the terminal after a host message. -/
def sizeAfter (size : Option (Int32 × Int32)) (hosts : List HostInstruction) :
    Option (Int32 × Int32) :=
  hosts.foldl (fun size => fun | .resize width height => some (width, height) | _ => size) size

namespace Client

/-- At first state 0 is shown. -/
def new (now : ℕ) : Client where
  sender := .new now
  remoteNum := 0
  remoteTimestamp := 0
  serverSize := none
  lastRoundtripSuccess := 0
  output := []
  applied := []

variable (c : Client)

/-- What an instruction acknowledges. -/
def acknowledged (ackNum : ℕ) : Client :=
  let sender := c.sender.processAcknowledgmentThrough ackNum
  { c with
    sender := sender
    lastRoundtripSuccess := sender.sent.head?.elim c.lastRoundtripSuccess SentState.timestamp }

/-- Show the diff of an instruction, while somebody listens. -/
def shown (diff : Bytes) (listening : Bool) : Client × Option MoshError :=
  if diff = [] then (c, none)
  else
    match decodeHostMessage diff with
    | .error e => (c, some e)
    | .ok hosts =>
      let out := hostBytes hosts
      let c := { c with serverSize := sizeAfter c.serverSize hosts }
      if out ≠ [] ∧ listening = false then (c, some .closed)
      else ({ c with
        output := c.output ++ out
        sender := { c.sender with pendingDataAck := true } }, none)

/-- Apply one decrypted server instruction: the client after it, and the error, if any. -/
def process (inst : Instruction) (now : ℕ) (listening : Bool) : Client × Option MoshError :=
  if inst.protocolVersion ≠ PROTOCOL_VERSION then (c, some (.version inst.protocolVersion))
  else
    let c := c.acknowledged inst.ackNum
    if inst.newNum ≠ SHUTDOWN_NUM ∧ inst.newNum ≤ c.remoteNum then (c, none)
    else if inst.oldNum ≠ c.remoteNum then (c, none)
    else
      match c.shown inst.diff listening with
      | (c, some e) => (c, some e)
      | (c, none) =>
        ({ c with
          remoteNum := inst.newNum
          remoteTimestamp := now
          sender := { c.sender with ackNum := inst.newNum, lastHeard := now }
          applied := c.applied ++ [inst] }, none)

end Client

/-- An instruction that arrives, at a time, while somebody listens to the events or not. Its numbers
are of 64 bits. -/
structure Arrival where
  inst : Instruction
  now : ℕ
  listening : Bool
  newNum_le : inst.newNum ≤ SHUTDOWN_NUM

/-- Process the instructions that arrive, one after the other. -/
def Client.processAll (c : Client) (arrivals : List Arrival) : Client :=
  arrivals.foldl (fun c a => (c.process a.inst a.now a.listening).1) c

/-! ### What is to hold -/

/-- The bytes for the terminal that an instruction brings. -/
def Instruction.shown (inst : Instruction) : Bytes :=
  match decodeHostMessage inst.diff with
  | .ok hosts => hostBytes hosts
  | .error _ => []

/-- Instructions lead from a state on, each from where the one before it led to; their numbers
increase up to the shutdown number, which may follow itself. -/
def Chained : ℕ → List Instruction → Prop
  | _, [] => True
  | n, inst :: l => inst.oldNum = n
    ∧ (n < inst.newNum ∨ n = SHUTDOWN_NUM ∧ inst.newNum = SHUTDOWN_NUM) ∧ Chained inst.newNum l

/-- Where instructions lead to from a state. -/
def endNum (n : ℕ) (l : List Instruction) : ℕ := (l.getLast?.map Instruction.newNum).getD n

/-- The instructions applied form a chain from state 0, the terminal was given their bytes, and
the last of them is what is shown and acknowledged. -/
structure Client.InOrder (c : Client) : Prop where
  chain : Chained 0 c.applied
  output : c.output = c.applied.flatMap Instruction.shown
  remote : c.remoteNum = endNum 0 c.applied
  ack : c.sender.ackNum = c.remoteNum

/-! ### Runs -/

@[simp]
theorem endNum_append (n : ℕ) (l : List Instruction) (inst : Instruction) :
  endNum n (l ++ [inst]) = inst.newNum
  := by
  simp [endNum]

theorem endNum_cons (n : ℕ) (inst : Instruction) (l : List Instruction) :
  endNum n (inst :: l) = endNum inst.newNum l
  := by
  unfold endNum
  rw [List.getLast?_cons]
  cases l.getLast? <;> rfl

/-- A chain goes on where it ends. -/
theorem Chained.append {n : ℕ} {l : List Instruction} {inst : Instruction} (h : Chained n l)
    (hold : inst.oldNum = endNum n l)
    (hnew : endNum n l < inst.newNum ∨ endNum n l = SHUTDOWN_NUM ∧ inst.newNum = SHUTDOWN_NUM) :
  Chained n (l ++ [inst])
  := by
  induction l generalizing n with
  | nil => exact ⟨hold, hnew, trivial⟩
  | cons inst' l ih =>
      rw [endNum_cons] at hold hnew
      exact ⟨h.1, h.2.1, ih h.2.2 hold hnew⟩

namespace Client

variable {c c' : Client} {inst : Instruction} {now : ℕ} {listening : Bool} {e : MoshError}

/-- What is acknowledged changes nothing of what is shown. -/
theorem InOrder.acknowledged (h : c.InOrder) (ackNum : ℕ) :
  (c.acknowledged ackNum).InOrder
  := by
  have hack : (c.sender.processAcknowledgmentThrough ackNum).ackNum = c.sender.ackNum := by
    unfold Sender.processAcknowledgmentThrough
    split <;> rfl
  exact ⟨h.chain, h.output, h.remote, hack.trans h.ack⟩

/-- A diff that is shown adds its bytes to the output, and nothing else that is kept in order. -/
theorem shown_eq (h : c.shown inst.diff listening = (c', none)) :
  c'.output = c.output ++ inst.shown ∧ c'.applied = c.applied ∧ c'.remoteNum = c.remoteNum
  := by
  unfold Client.shown at h
  split at h
  · rename_i hnil
    cases h
    refine ⟨?_, rfl, rfl⟩
    rw [Instruction.shown, hnil]
    exact (List.append_nil _).symm
  · cases hdecode : decodeHostMessage inst.diff with
    | error e =>
        rw [hdecode] at h
        cases h
    | ok hosts =>
        rw [hdecode] at h
        simp only at h
        split at h
        · cases h
        · cases h
          refine ⟨?_, rfl, rfl⟩
          rw [Instruction.shown, hdecode]

/-- A diff that is not shown leaves what is shown and acknowledged as it was. -/
theorem shown_error (h : c.shown inst.diff listening = (c', some e)) :
  c'.output = c.output ∧ c'.applied = c.applied ∧ c'.remoteNum = c.remoteNum
    ∧ c'.sender = c.sender
  := by
  unfold Client.shown at h
  split at h
  · cases h
  · cases hdecode : decodeHostMessage inst.diff with
    | error e =>
        rw [hdecode] at h
        cases h
        exact ⟨rfl, rfl, rfl, rfl⟩
    | ok hosts =>
        rw [hdecode] at h
        simp only at h
        split at h
        · cases h
          exact ⟨rfl, rfl, rfl, rfl⟩
        · cases h

/-- An instruction is processed in order. -/
theorem InOrder.process (now : ℕ) (listening : Bool) (h : c.InOrder)
    (hremote : c.remoteNum ≤ SHUTDOWN_NUM) (hinst : inst.newNum ≤ SHUTDOWN_NUM) :
  (c.process inst now listening).1.InOrder
    ∧ (c.process inst now listening).1.remoteNum ≤ SHUTDOWN_NUM
  := by
  have hack := h.acknowledged inst.ackNum
  unfold Client.process
  split
  · exact ⟨h, hremote⟩
  · simp only
    split
    · exact ⟨hack, hremote⟩
    · rename_i hnew
      split
      · exact ⟨hack, hremote⟩
      · rename_i hold
        have hold' : inst.oldNum = c.remoteNum := not_not.mp hold
        cases hshown : (c.acknowledged inst.ackNum).shown inst.diff listening with
        | mk c' error =>
            cases error with
            | some e =>
                obtain ⟨houtput, happlied, hremote', hsender⟩ := shown_error hshown
                refine ⟨⟨?_, ?_, ?_, ?_⟩, ?_⟩
                · rw [happlied]
                  exact hack.chain
                · rw [houtput, happlied]
                  exact hack.output
                · rw [hremote', happlied]
                  exact hack.remote
                · rw [hsender, hremote']
                  exact hack.ack
                · rw [hremote']
                  exact hremote
            | none =>
                obtain ⟨houtput, happlied, hremote'⟩ := shown_eq hshown
                have hend : endNum 0 c.applied = c.remoteNum := h.remote.symm
                refine ⟨⟨?_, ?_, ?_, rfl⟩, hinst⟩
                · simp only [happlied]
                  apply hack.chain.append
                  · exact hold'.trans hend.symm
                  · change endNum 0 c.applied < _ ∨ endNum 0 c.applied = _ ∧ _
                    rw [hend]
                    by_cases hshutdown : inst.newNum = SHUTDOWN_NUM
                    · rcases hremote.lt_or_eq with hlt | heq
                      · exact .inl (hshutdown ▸ hlt)
                      · exact .inr ⟨heq, hshutdown⟩
                    · exact .inl (not_le.mp (fun hle => hnew ⟨hshutdown, hle⟩))
                · simp only [houtput, happlied, List.flatMap_append, hack.output]
                  simp
                · simp only [happlied, endNum_append]

/-- An instruction whose diff cannot be read leaves what is shown and acknowledged as it was. -/
theorem process_of_error (h : decodeHostMessage inst.diff = .error e) :
  (c.process inst now listening).1.remoteNum = c.remoteNum
    ∧ (c.process inst now listening).1.sender.ackNum = c.sender.ackNum
  := by
  have hack : (c.sender.processAcknowledgmentThrough inst.ackNum).ackNum = c.sender.ackNum := by
    unfold Sender.processAcknowledgmentThrough
    split <;> rfl
  unfold Client.process
  split
  · exact ⟨rfl, rfl⟩
  · simp only
    split
    · exact ⟨rfl, hack⟩
    · split
      · exact ⟨rfl, hack⟩
      · have hne : inst.diff ≠ [] := by
          intro hnil
          rw [hnil] at h
          cases h
        have hshown : (c.acknowledged inst.ackNum).shown inst.diff listening
            = (c.acknowledged inst.ackNum, some e) := by
          unfold Client.shown
          rw [if_neg hne, h]
        rw [hshown]
        exact ⟨rfl, hack⟩

end Client

/-- However instructions arrive, the ones applied form a chain, the terminal was given their
bytes, the last of them is shown and acknowledged, and one whose diff cannot be read changes
neither. -/
theorem inOrder_processAll (now : ℕ) (arrivals : List Arrival) :
  ((Client.new now).processAll arrivals).InOrder
    ∧ ∀ (a : Arrival) (e : MoshError), decodeHostMessage a.inst.diff = .error e →
      ((Client.new now).processAll (arrivals ++ [a])).remoteNum
          = ((Client.new now).processAll arrivals).remoteNum
        ∧ ((Client.new now).processAll (arrivals ++ [a])).sender.ackNum
          = ((Client.new now).processAll arrivals).sender.ackNum
  := by
  have hrun : ∀ (arrivals : List Arrival) (c : Client), c.InOrder → c.remoteNum ≤ SHUTDOWN_NUM →
      (c.processAll arrivals).InOrder := by
    intro arrivals
    induction arrivals with
    | nil => exact fun c h _ => h
    | cons a arrivals ih =>
        intro c h hremote
        obtain ⟨hc, hremote'⟩ := h.process a.now a.listening hremote a.newNum_le
        exact ih _ hc hremote'
  refine ⟨hrun arrivals _ ⟨trivial, rfl, rfl, rfl⟩ (Nat.zero_le _), ?_⟩
  intro a e he
  simp only [Client.processAll, List.foldl_append, List.foldl_cons, List.foldl_nil]
  exact Client.process_of_error he

/-- An instruction with the byte `a` for the terminal. -/
def screen (oldNum newNum : ℕ) : Instruction :=
  ⟨PROTOCOL_VERSION, oldNum, newNum, 0, 0, putBytes 1 (putBytes 2 (putBytes 4 [97])), []⟩

/-- An instruction whose diff ends too early. -/
def truncated : Arrival := ⟨{ screen 1 2 with diff := [10] }, 20, true, by decide⟩

/-- After one instruction was applied, one whose diff ends too early is not. -/
theorem inOrder_truncated :
  ((Client.new 0).processAll [⟨screen 0 1, 10, true, by decide⟩]).InOrder
    ∧ ((Client.new 0).processAll [⟨screen 0 1, 10, true, by decide⟩, truncated]).remoteNum = 1
    ∧ ((Client.new 0).processAll [⟨screen 0 1, 10, true, by decide⟩, truncated]).sender.ackNum = 1
  := by
  obtain ⟨horder, hrejected⟩ := inOrder_processAll 0 [⟨screen 0 1, 10, true, by decide⟩]
  obtain ⟨hremote, hack⟩ := hrejected truncated .protobuf rfl
  exact ⟨horder, hremote.trans (by decide +kernel), hack.trans (by decide +kernel)⟩

/-! ### The shutdown number, and instructions without a diff -/

/-- Instructions lead from a state on, each to a greater number. -/
def Increasing : ℕ → List Instruction → Prop
  | _, [] => True
  | n, inst :: l => inst.oldNum = n ∧ n < inst.newNum ∧ Increasing inst.newNum l

/-- The instructions applied whose diff was shown. -/
def Client.emitted (c : Client) : List Instruction :=
  c.applied.filter (fun inst => decide (inst.diff ≠ []))

/-- The server shuts down, and its instruction from the shutdown state to itself arrives twice. -/
def shutdownTwice : List Arrival :=
  [⟨screen 0 SHUTDOWN_NUM, 10, true, by decide⟩,
    ⟨screen SHUTDOWN_NUM SHUTDOWN_NUM, 20, true, by decide⟩,
    ⟨screen SHUTDOWN_NUM SHUTDOWN_NUM, 30, true, by decide⟩]

/-- An instruction without a diff, and one with a diff from where it leads. -/
def emptyThenScreen : List Arrival :=
  [⟨{ screen 0 1 with diff := [] }, 10, true, by decide⟩, ⟨screen 1 2, 20, true, by decide⟩]

/-- What is shown twice from the shutdown state does not increase, and what is shown first need
not start from state 0. -/
theorem not_increasing_emitted :
  ¬ Increasing 0 ((Client.new 0).processAll shutdownTwice).emitted
    ∧ ¬ Increasing 0 ((Client.new 0).processAll emptyThenScreen).emitted
  := by
  have htwice : ((Client.new 0).processAll shutdownTwice).emitted
      = [screen 0 SHUTDOWN_NUM, screen SHUTDOWN_NUM SHUTDOWN_NUM,
        screen SHUTDOWN_NUM SHUTDOWN_NUM] := by
    decide +kernel
  have hempty : ((Client.new 0).processAll emptyThenScreen).emitted = [screen 1 2] := by
    decide +kernel
  rw [htwice, hempty]
  refine ⟨fun h => ?_, fun h => ?_⟩
  · exact lt_irrefl _ h.2.2.2.1
  · cases h.1

end Termoso.Core.Mosh
