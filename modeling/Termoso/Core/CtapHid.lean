import Termoso.Core.Mosh.Fragment

/-!
# Messages in reports of a security key

A message is cut into reports of sixty-four bytes.  The first one announces the length of the
message, and the others have numbers.  The other side collects the reports of one channel; it ignores
those of other channels, and what comes before a first report.

The source takes slices and subtracts lengths, which panics where a bound is missed.  Here such a
step yields nothing, and the results say that none does.
-/

namespace Termoso.Core.CtapHid

open Wire (Bytes putFixed getFixed)
open Mosh (chunks)

/-- HID report size every authenticator uses. -/
def PACKET_SIZE : ℕ := 64

def INIT_DATA : ℕ := PACKET_SIZE - 7

def CONT_DATA : ℕ := PACKET_SIZE - 5

inductive Fido2Error
  | other (message : String)
deriving DecidableEq

/-! ### Cutting -/

/-- Fill a report up with zeros. -/
def resize (p : Bytes) : Bytes := (p ++ List.replicate (PACKET_SIZE - p.length) 0).take PACKET_SIZE

/-- The first report of a message, with the part of the message that fits into it. -/
def initPacket (cid : UInt32) (cmd : UInt8) (length : ℕ) (part : Bytes) : Bytes :=
  resize (putFixed 4 cid.toNat ++ ((0x80 ||| cmd) :: putFixed 2 (length % 2 ^ 16)) ++ part)

/-- A further report. -/
def contPacket (cid : UInt32) (seq : ℕ) (chunk : Bytes) : Bytes :=
  resize (putFixed 4 cid.toNat ++ [UInt8.ofNat seq] ++ chunk)

/-- Split a message into an init packet and continuation packets. -/
def frame (cid : UInt32) (cmd : UInt8) (data : Bytes) : List Bytes :=
  let first := min data.length INIT_DATA
  initPacket cid cmd data.length (data.take first)
    :: (chunks CONT_DATA (data.drop first)).mapIdx (contPacket cid)

/-- The reports that are written for a message. -/
def writeMessage (cid : UInt32) (cmd : UInt8) (data : Bytes) : Except Fido2Error (List Bytes) :=
  if 7609 < data.length then .error (.other "CTAPHID message too large")
  else .ok (frame cid cmd data)

/-! ### Collecting -/

/-- A slice of a text, in bounds. -/
def slice (p : Bytes) (start stop : ℕ) : Option Bytes :=
  if start ≤ stop ∧ stop ≤ p.length then some ((p.take stop).drop start) else none

/-- A difference that is no underflow. -/
def checkedSub (a b : ℕ) : Option ℕ := if b ≤ a then some (a - b) else none

/-- Reassembles one message. -/
structure Reassembler where
  cid : UInt32
  cmd : UInt8
  len : ℕ
  data : Bytes
  seq : UInt8
  started : Bool
deriving DecidableEq

/-- What a report leads to: an error, nothing yet, or a message. -/
abbrev Pushed := Except Fido2Error (Option (UInt8 × Bytes))

namespace Reassembler

/-- Collect packets for a channel. -/
def new (cid : UInt32) : Reassembler := ⟨cid, 0, 0, [], 0, false⟩

/-- Hand a message out when it is complete. -/
def complete (r : Reassembler) : Reassembler × Pushed :=
  if r.len ≤ r.data.length then
    ({ r with started := false, data := [] }, .ok (some (r.cmd, r.data)))
  else (r, .ok none)

/-- Feed one report. -/
def push (r : Reassembler) (packet : Bytes) : Option (Reassembler × Pushed) :=
  if packet.length < 5 then some (r, .error (.other "short HID report"))
  else do
    let cid ← slice packet 0 4
    let kind ← packet[4]?
    if UInt32.ofNat (getFixed cid) ≠ r.cid then some (r, .ok none)
    else if kind &&& 0x80 ≠ 0 then
      if packet.length < 7 then some (r, .error (.other "short HID report"))
      else do
        let len ← slice packet 5 7
        let room ← checkedSub packet.length 7
        let data ← slice packet 7 (7 + min (getFixed len) room)
        some (complete { r with
          cmd := kind &&& 0x7F, len := getFixed len, data := data, seq := 0, started := true })
    else if ¬ r.started then some (r, .ok none)
    else if kind ≠ r.seq then
      some ({ r with started := false }, .error (.other "CTAPHID sequence error"))
    else do
      let missing ← checkedSub r.len r.data.length
      let room ← checkedSub packet.length 5
      let more ← slice packet 5 (5 + min missing room)
      some (complete { r with seq := r.seq + 1, data := r.data ++ more })

/-- Feed reports, one after the other, also after an error or a message. -/
def feed (r : Reassembler) : List Bytes → Option (List Pushed × Reassembler)
  | [] => some ([], r)
  | packet :: packets => do
    let (r, out) ← r.push packet
    let (outs, r) ← r.feed packets
    some (out :: outs, r)

end Reassembler

/-- A report is one of a channel. -/
def OnChannel (cid : UInt32) (packet : Bytes) : Prop :=
  5 ≤ packet.length ∧ UInt32.ofNat (getFixed (packet.take 4)) = cid

instance (cid : UInt32) : DecidablePred (OnChannel cid) :=
  fun packet => inferInstanceAs (Decidable (5 ≤ packet.length ∧ _))

/-- The length that a report announces, if it is an initialisation packet of a channel. -/
def announces (cid : UInt32) (packet : Bytes) : Option ℕ :=
  if OnChannel cid packet ∧ 7 ≤ packet.length
      ∧ packet[4]?.any (fun k => decide (k &&& 0x80 ≠ 0)) then
    some (getFixed ((packet.drop 5).take 2))
  else none

/-- The length announced by the last initialisation packet of a channel. -/
def announced (cid : UInt32) (packets : List Bytes) : Option ℕ :=
  (packets.filterMap (announces cid)).getLast?

/-! ### Any reports -/

namespace Reassembler

variable {cid : UInt32} {r : Reassembler} {packet : Bytes} {packets : List Bytes} {ann : Option ℕ}

/-- While a message is being collected, some of the length that was announced last is missing. -/
structure Collecting (r : Reassembler) (cid : UInt32) (ann : Option ℕ) : Prop where
  cid : r.cid = cid
  missing : r.started = true → ann = some r.len ∧ r.data.length < r.len

theorem slice_eq_some {p : Bytes} {start stop : ℕ} (h : start ≤ stop) (h' : stop ≤ p.length) :
  slice p start stop = some ((p.take stop).drop start)
  := if_pos ⟨h, h'⟩

theorem checkedSub_eq_some {a b : ℕ} (h : b ≤ a) :
  checkedSub a b = some (a - b)
  := if_pos h

/-- A report of another channel changes nothing. -/
theorem push_of_not_onChannel (hlen : 5 ≤ packet.length) (h : ¬ OnChannel r.cid packet) :
  r.push packet = some (r, .ok none)
  := by
  have hcid : UInt32.ofNat (getFixed (packet.take 4)) ≠ r.cid := fun heq => h ⟨hlen, heq⟩
  rw [push, if_neg (by omega), slice_eq_some (by omega) (by omega), List.drop_zero,
    List.getElem?_eq_getElem (by omega)]
  simp only [bind, Option.bind, if_pos hcid]

/-- An initialisation packet of the channel starts a message. -/
theorem push_init {kind : UInt8} (h : OnChannel r.cid packet) (hlen : 7 ≤ packet.length)
    (hkind : packet[4]? = some kind) (hinit : kind &&& 0x80 ≠ 0) :
  r.push packet = some (complete { r with
    cmd := kind &&& 0x7F
    len := getFixed ((packet.drop 5).take 2)
    data := (packet.drop 7).take (min (getFixed ((packet.drop 5).take 2)) (packet.length - 7))
    seq := 0
    started := true })
  := by
  have hfixed : (packet.take 7).drop 5 = (packet.drop 5).take 2 := List.drop_take ..
  have hdata : ∀ n, (packet.take (7 + n)).drop 7 = (packet.drop 7).take n := by
    intro n
    rw [List.drop_take, Nat.add_sub_cancel_left]
  rw [push, if_neg (by omega), slice_eq_some (by omega) (by omega), List.drop_zero, hkind]
  simp only [bind, Option.bind]
  rw [if_neg (not_not.mpr h.2), if_pos hinit, if_neg (by omega),
    slice_eq_some (by omega) (by omega), checkedSub_eq_some hlen, hfixed]
  dsimp only
  rw [slice_eq_some (by omega) (by omega), hdata]

/-- A continuation packet of the channel, with the number that is due, continues a message. -/
theorem push_cont (h : OnChannel r.cid packet) (hkind : packet[4]? = some r.seq)
    (hcont : r.seq &&& 0x80 = 0) (hstarted : r.started = true) (hmissing : r.data.length ≤ r.len) :
  r.push packet = some (complete { r with
    seq := r.seq + 1
    data := r.data ++ (packet.drop 5).take (min (r.len - r.data.length) (packet.length - 5)) })
  := by
  have hlen := h.1
  have hdata : ∀ n, (packet.take (5 + n)).drop 5 = (packet.drop 5).take n := by
    intro n
    rw [List.drop_take, Nat.add_sub_cancel_left]
  rw [push, if_neg (by omega), slice_eq_some (by omega) (by omega), List.drop_zero, hkind]
  simp only [bind, Option.bind]
  rw [if_neg (not_not.mpr h.2), if_neg (not_not.mpr hcont), if_neg (not_not.mpr hstarted),
    if_neg (not_not.mpr rfl), checkedSub_eq_some hmissing, checkedSub_eq_some hlen]
  dsimp only
  rw [slice_eq_some (by omega) (by omega), hdata]

/-- What is handed out has the length announced, and what is not is still missing some. -/
theorem complete_collecting (hcid : r.cid = cid) (hann : ann = some r.len)
    (hlen : r.data.length ≤ r.len) :
  r.complete.1.Collecting cid ann
    ∧ ∀ cmd data, r.complete.2 = .ok (some (cmd, data)) → ann = some data.length
  := by
  rw [complete]
  split
  · rename_i hfull
    constructor
    · exact ⟨hcid, fun h => absurd h Bool.false_ne_true⟩
    · intro cmd data h
      cases h
      rw [hann, le_antisymm hfull hlen]
  · rename_i hmore
    constructor
    · exact ⟨hcid, fun _ => ⟨hann, not_le.mp hmore⟩⟩
    · rintro cmd data ⟨⟩

/-- No report makes the collector panic, and a message has the length announced last. -/
theorem push_collecting (h : r.Collecting cid ann) (packet : Bytes) :
  ∃ r' out, r.push packet = some (r', out) ∧ r'.Collecting cid ((announces cid packet).or ann)
    ∧ ∀ cmd data, out = .ok (some (cmd, data)) →
      (announces cid packet).or ann = some data.length
  := by
  have hsame : announces cid packet = none → r.Collecting cid ((announces cid packet).or ann) := by
    intro hnone
    rw [hnone]
    exact h
  by_cases hshort : packet.length < 5
  · have hnone : announces cid packet = none := if_neg (fun hall => by have := hall.1.1; omega)
    exact ⟨r, _, if_pos hshort, hsame hnone, by rintro cmd data ⟨⟩⟩
  by_cases hchannel : OnChannel cid packet
  swap
  · have hnone : announces cid packet = none := if_neg (fun hall => hchannel hall.1)
    refine ⟨r, _, push_of_not_onChannel (by omega) (h.cid.symm ▸ hchannel), hsame hnone, ?_⟩
    rintro cmd data ⟨⟩
  have hon : OnChannel r.cid packet := h.cid.symm ▸ hchannel
  have hfive : 4 < packet.length := by omega
  have hkind : packet[4]? = some packet[4] := List.getElem?_eq_getElem hfive
  generalize packet[4] = kind at hkind
  by_cases hinit : kind &&& 0x80 ≠ 0
  · by_cases hlen : 7 ≤ packet.length
    · have hann : announces cid packet = some (getFixed ((packet.drop 5).take 2)) :=
        if_pos ⟨hchannel, hlen, by simpa [hkind] using hinit⟩
      refine ⟨(complete _).1, (complete _).2, push_init hon hlen hkind hinit, ?_⟩
      rw [hann, Option.some_or]
      apply complete_collecting
      · exact h.cid
      · rfl
      · simp
    · have hnone : announces cid packet = none := if_neg (fun hall => hlen hall.2.1)
      refine ⟨r, .error (.other "short HID report"), ?_, hsame hnone, by rintro cmd data ⟨⟩⟩
      rw [push, if_neg hshort, slice_eq_some (by omega) (by omega), List.drop_zero, hkind]
      simp only [bind, Option.bind]
      rw [if_neg (not_not.mpr hon.2), if_pos hinit, if_pos (by omega)]
  · have hnone : announces cid packet = none := by
      apply if_neg
      rintro ⟨-, -, hany⟩
      rw [hkind] at hany
      simp only [Option.any_some, decide_eq_true_eq] at hany
      exact hinit hany
    rw [not_not] at hinit
    by_cases hstarted : r.started = true
    · obtain ⟨hann, hmissing⟩ := h.missing hstarted
      by_cases hseq : kind = r.seq
      · subst hseq
        refine ⟨(complete _).1, (complete _).2, push_cont hon hkind hinit hstarted hmissing.le, ?_⟩
        rw [hnone, Option.none_or]
        apply complete_collecting
        · exact h.cid
        · exact hann
        · simp only [List.length_append, List.length_take]
          omega
      · refine ⟨{ r with started := false }, .error (.other "CTAPHID sequence error"), ?_, ?_, ?_⟩
        · rw [push, if_neg hshort, slice_eq_some (by omega) (by omega), List.drop_zero, hkind]
          simp only [bind, Option.bind]
          rw [if_neg (not_not.mpr hon.2), if_neg (not_not.mpr hinit), if_neg (not_not.mpr hstarted),
            if_pos hseq]
        · exact ⟨h.cid, fun h => absurd h Bool.false_ne_true⟩
        · rintro cmd data ⟨⟩
    · refine ⟨r, .ok none, ?_, hsame hnone, by rintro cmd data ⟨⟩⟩
      rw [push, if_neg hshort, slice_eq_some (by omega) (by omega), List.drop_zero, hkind]
      simp only [bind, Option.bind]
      rw [if_neg (not_not.mpr hon.2), if_neg (not_not.mpr hinit), if_pos hstarted]

/-- No reports make the collector panic, and every message has the length announced last. -/
theorem feed_collecting (h : r.Collecting cid ann) (packets : List Bytes) :
  ∃ outs r', r.feed packets = some (outs, r')
    ∧ ∀ i cmd data, outs[i]? = some (.ok (some (cmd, data))) →
      (announced cid (packets.take (i + 1))).or ann = some data.length
  := by
  induction packets generalizing r ann with
  | nil => exact ⟨[], r, rfl, by simp⟩
  | cons packet packets ih =>
      obtain ⟨r₁, out, hpush, hcollecting, hout⟩ := push_collecting h packet
      obtain ⟨outs, r₂, hfeed, houts⟩ := ih hcollecting
      refine ⟨out :: outs, r₂, ?_, ?_⟩
      · rw [feed, hpush]
        simp only [bind, Option.bind, hfeed]
      · have hlast : ∀ ps, (announced cid (packet :: ps)).or ann
            = (announced cid ps).or ((announces cid packet).or ann) := by
          intro ps
          rw [announced, announced, List.filterMap_cons]
          cases announces cid packet with
          | none => rfl
          | some n =>
              dsimp only
              rw [List.getLast?_cons]
              cases (ps.filterMap (announces cid)).getLast? <;> rfl
        intro i cmd data hi
        rw [List.take_succ_cons, hlast]
        cases i with
        | zero =>
            rw [List.getElem?_cons_zero, Option.some.injEq] at hi
            rw [List.take_zero]
            exact hout cmd data hi
        | succ i =>
            rw [List.getElem?_cons_succ] at hi
            exact houts i cmd data hi

end Reassembler

/-! ### The reports of a message -/

theorem resize_of_length_le {p : Bytes} (h : p.length ≤ PACKET_SIZE) :
  resize p = p ++ List.replicate (PACKET_SIZE - p.length) 0
  := by
  rw [resize]
  apply List.take_of_length_le
  rw [List.length_append, List.length_replicate]
  omega

/-- What the first report of a message says. -/
theorem initPacket_spec (cid : UInt32) (cmd : UInt8) (length : ℕ) {part : Bytes}
    (h : part.length ≤ INIT_DATA) :
  OnChannel cid (initPacket cid cmd length part) ∧ (initPacket cid cmd length part).length = 64
    ∧ (initPacket cid cmd length part)[4]? = some (0x80 ||| cmd)
    ∧ getFixed (((initPacket cid cmd length part).drop 5).take 2) = length % 2 ^ 16
    ∧ (initPacket cid cmd length part).drop 7 = part ++ List.replicate (57 - part.length) 0
  := by
  have hcid : (putFixed 4 cid.toNat).length = 4 := Wire.length_putFixed 4 _
  have hfixed : (putFixed 2 (length % 2 ^ 16)).length = 2 := Wire.length_putFixed 2 _
  have hpart : part.length ≤ 57 := h
  have heq : initPacket cid cmd length part
      = putFixed 4 cid.toNat ++ (0x80 ||| cmd) :: (putFixed 2 (length % 2 ^ 16)
        ++ (part ++ List.replicate (57 - part.length) 0)) := by
    rw [initPacket, resize_of_length_le]
    · have : PACKET_SIZE - (4 + (2 + part.length + 1)) = 57 - part.length := by
        rw [PACKET_SIZE]
        omega
      simp [hcid, this]
    · simp only [List.length_append, List.length_cons, hcid, hfixed, PACKET_SIZE]
      omega
  have hlength : (initPacket cid cmd length part).length = 64 := by
    rw [heq]
    simp only [List.length_append, List.length_cons, List.length_replicate, hcid, hfixed]
    omega
  refine ⟨⟨by omega, ?_⟩, hlength, ?_, ?_, ?_⟩
  · rw [heq, List.take_left' hcid, Wire.getFixed_putFixed cid.toNat_lt, UInt32.ofNat_toNat]
  · rw [heq, List.getElem?_append_right hcid.le, hcid]
    rfl
  · have hdrop : (initPacket cid cmd length part).drop 5
        = putFixed 2 (length % 2 ^ 16) ++ (part ++ List.replicate (57 - part.length) 0) := by
      rw [heq, ← List.singleton_append, ← List.append_assoc]
      exact List.drop_left' (by rw [List.length_append, hcid]; rfl)
    rw [hdrop, List.take_left' hfixed]
    exact Wire.getFixed_putFixed (Nat.mod_lt _ (by norm_num))
  · rw [heq, ← List.singleton_append, ← List.append_assoc, ← List.append_assoc]
    exact List.drop_left' (by rw [List.length_append, List.length_append, hcid, hfixed]; rfl)

/-- What a further report of a message says. -/
theorem contPacket_spec (cid : UInt32) (seq : ℕ) {chunk : Bytes} (h : chunk.length ≤ CONT_DATA) :
  OnChannel cid (contPacket cid seq chunk) ∧ (contPacket cid seq chunk).length = 64
    ∧ (contPacket cid seq chunk)[4]? = some (UInt8.ofNat seq)
    ∧ (contPacket cid seq chunk).drop 5 = chunk ++ List.replicate (59 - chunk.length) 0
  := by
  have hcid : (putFixed 4 cid.toNat).length = 4 := Wire.length_putFixed 4 _
  have hchunk : chunk.length ≤ 59 := h
  have heq : contPacket cid seq chunk
      = putFixed 4 cid.toNat
        ++ UInt8.ofNat seq :: (chunk ++ List.replicate (59 - chunk.length) 0) := by
    rw [contPacket, resize_of_length_le]
    · have : PACKET_SIZE - (4 + (chunk.length + 1)) = 59 - chunk.length := by
        rw [PACKET_SIZE]
        omega
      simp [hcid, this]
    · simp only [List.length_append, List.length_singleton, hcid, PACKET_SIZE]
      omega
  have hlength : (contPacket cid seq chunk).length = 64 := by
    rw [heq]
    simp only [List.length_append, List.length_cons, List.length_replicate, hcid]
    omega
  refine ⟨⟨by omega, ?_⟩, hlength, ?_, ?_⟩
  · rw [heq, List.take_left' hcid, Wire.getFixed_putFixed cid.toNat_lt, UInt32.ofNat_toNat]
  · rw [heq, List.getElem?_append_right hcid.le, hcid]
    rfl
  · rw [heq, ← List.singleton_append, ← List.append_assoc]
    exact List.drop_left' (by rw [List.length_append, hcid]; rfl)

/-- The bit of an initialisation packet is set over a command, and taken off again. -/
theorem command_bits {cmd : UInt8} (h : cmd < 0x80) :
  (0x80 ||| cmd) &&& 0x80 ≠ 0 ∧ (0x80 ||| cmd) &&& 0x7F = cmd
  := by
  have hbits : ∀ x : BitVec 8, x < 128#8 →
      (128#8 ||| x) &&& 128#8 ≠ 0#8 ∧ (128#8 ||| x) &&& 127#8 = x := by decide
  obtain ⟨hset, hoff⟩ := hbits cmd.toBitVec h
  constructor
  · intro heq
    exact hset (congrArg UInt8.toBitVec heq)
  · exact UInt8.toBitVec_inj.mp hoff

/-- A number of seven bits is no initialisation packet's. -/
theorem seq_bits {seq : ℕ} (h : seq < 128) :
  UInt8.ofNat seq &&& 0x80 = 0
  := by
  have hbits : ∀ x : BitVec 8, x < 128#8 → x &&& 128#8 = 0#8 := by decide
  apply UInt8.toBitVec_inj.mp
  apply hbits
  rw [BitVec.lt_def]
  change (UInt8.ofNat seq).toNat < 128
  rw [UInt8.toNat_ofNat']
  omega

namespace Reassembler

variable {cid : UInt32} {cmd : UInt8} {r : Reassembler} {packets : List Bytes}

/-- Reports of other channels change nothing. -/
theorem feed_others (h : ∀ p ∈ packets, 5 ≤ p.length)
    (hother : packets.filter (OnChannel r.cid) = []) :
  r.feed packets = some (List.replicate packets.length (.ok none), r)
  := by
  induction packets with
  | nil => rfl
  | cons p ps ih =>
      have hp : ¬ OnChannel r.cid p := by
        intro hon
        rw [List.filter_cons_of_pos (by simpa using hon)] at hother
        cases hother
      rw [List.filter_cons_of_neg (by simpa using hp)] at hother
      rw [feed, push_of_not_onChannel (h p List.mem_cons_self) hp]
      simp only [bind, Option.bind, ih (fun q hq => h q (List.mem_cons_of_mem _ hq)) hother]
      rfl

/-- A message comes out with the last of its reports, and nothing before or after it. -/
def Yields (r : Reassembler) (packets : List Bytes) (cmd : UInt8) (data : Bytes) : Prop :=
  ∃ before last after r', packets = before ++ last :: after
    ∧ OnChannel r.cid last ∧ after.filter (OnChannel r.cid) = []
    ∧ r.feed packets = some (List.replicate before.length (.ok none)
      ++ .ok (some (cmd, data)) :: List.replicate after.length (.ok none), r')

theorem Yields.cons {r' : Reassembler} {p : Bytes} {data : Bytes}
    (hpush : r.push p = some (r', .ok none)) (hcid : r'.cid = r.cid)
    (h : r'.Yields packets cmd data) :
  r.Yields (p :: packets) cmd data
  := by
  obtain ⟨before, last, after, r'', rfl, hlast, hafter, hfeed⟩ := h
  refine ⟨p :: before, last, after, r'', rfl, hcid ▸ hlast, hcid ▸ hafter, ?_⟩
  rw [feed, hpush]
  simp only [bind, Option.bind, hfeed]
  rfl

theorem Yields.last {r' : Reassembler} {p : Bytes} {data : Bytes}
    (hpush : r.push p = some (r', .ok (some (cmd, data)))) (hcid : r'.cid = r.cid)
    (hon : OnChannel r.cid p) (h : ∀ p ∈ packets, 5 ≤ p.length) (hother : packets.filter (OnChannel r.cid) = []) :
  r.Yields (p :: packets) cmd data
  := by
  refine ⟨[], p, packets, r', rfl, hon, hother, ?_⟩
  rw [feed, hpush]
  simp only [bind, Option.bind, feed_others h (hcid ▸ hother)]
  rfl

/-- The reports still to come of a message yield it, whatever of other channels comes between. -/
theorem yields_rest {rest : Bytes} {seq : ℕ} (hstarted : r.started = true) (hcmd : r.cmd = cmd)
    (hlen : r.len = r.data.length + rest.length) (hseq : r.seq = UInt8.ofNat seq)
    (hrest : rest ≠ []) (hseqs : seq * CONT_DATA + rest.length ≤ 128 * CONT_DATA)
    (hpackets : ∀ p ∈ packets, 5 ≤ p.length)
    (hframe : packets.filter (OnChannel r.cid)
      = (chunks CONT_DATA rest).mapIdx (fun i => contPacket r.cid (seq + i))) :
  r.Yields packets cmd (r.data ++ rest)
  := by
  rw [Mosh.chunks_of_ne_nil (by decide) hrest, List.mapIdx_cons, Nat.add_zero] at hframe
  induction packets generalizing r rest seq with
  | nil => cases hframe
  | cons p ps ih =>
      have hps : ∀ q ∈ ps, 5 ≤ q.length := fun q hq => hpackets q (List.mem_cons_of_mem _ hq)
      by_cases hp : OnChannel r.cid p
      swap
      · rw [List.filter_cons_of_neg (by simpa using hp)] at hframe
        apply Yields.cons (push_of_not_onChannel (hpackets p List.mem_cons_self) hp) rfl
        exact ih hstarted hcmd hlen hseq hrest hseqs hps hframe
      rw [List.filter_cons_of_pos (by simpa using hp), List.cons.injEq] at hframe
      obtain ⟨rfl, hframe⟩ := hframe
      have hpos : 0 < rest.length := List.length_pos_iff.mpr hrest
      have hfit : (rest.take CONT_DATA).length ≤ CONT_DATA := by
        rw [List.length_take]
        omega
      have hbound : seq < 128 := by
        by_contra hge
        have := Nat.mul_le_mul_right CONT_DATA (not_lt.mp hge)
        omega
      obtain ⟨hon, hsize, hkind, hdata⟩ := contPacket_spec r.cid seq hfit
      have hpush := push_cont hon (hseq ▸ hkind) (hseq ▸ seq_bits hbound) hstarted (by omega)
      have hmore : ((contPacket r.cid seq (rest.take CONT_DATA)).drop 5).take
          (min (r.len - r.data.length) ((contPacket r.cid seq (rest.take CONT_DATA)).length - 5))
            = rest.take CONT_DATA := by
        rw [hdata, hsize]
        apply List.take_left'
        rw [List.length_take, hlen, Nat.add_sub_cancel_left, min_comm]
        rfl
      rw [hmore, complete] at hpush
      dsimp only at hpush
      by_cases hlast : rest.length ≤ CONT_DATA
      · -- The last report: nothing of the channel follows.
        rw [List.take_of_length_le hlast] at hpush hon ⊢
        rw [if_pos (by rw [List.length_append]; omega), hcmd] at hpush
        rw [List.drop_of_length_le hlast] at hframe
        exact Yields.last hpush rfl hon hps hframe
      · rw [if_neg (by rw [List.length_append, List.length_take]; omega)] at hpush
        apply Yields.cons hpush rfl
        have hsplit : r.data ++ rest = r.data ++ rest.take CONT_DATA ++ rest.drop CONT_DATA := by
          rw [List.append_assoc, List.take_append_drop]
        have hlen' : r.len
            = (r.data ++ rest.take CONT_DATA).length + (rest.drop CONT_DATA).length := by
          rw [hlen, ← List.length_append, ← List.length_append, hsplit]
        have hseq' : r.seq + 1 = UInt8.ofNat (seq + 1) := by
          rw [hseq, UInt8.ofNat_add]
          rfl
        have hrest' : rest.drop CONT_DATA ≠ [] := by
          rw [ne_eq, List.drop_eq_nil_iff]
          exact hlast
        have hseqs' : (seq + 1) * CONT_DATA + (rest.drop CONT_DATA).length ≤ 128 * CONT_DATA := by
          rw [List.length_drop, Nat.succ_mul]
          omega
        rw [Mosh.chunks_of_ne_nil (by decide) hrest', List.mapIdx_cons] at hframe
        rw [hsplit]
        refine ih (r := { r with data := r.data ++ rest.take CONT_DATA, seq := r.seq + 1 }) hstarted
          hcmd hlen' hseq' hrest' hseqs' hps ?_
        rw [hframe]
        simp only [Nat.add_assoc, Nat.add_comm 1, Nat.zero_add]

/-- The reports of a message yield it, whatever of other channels comes between. -/
theorem yields_frame {data : Bytes} (hcmd : cmd < 0x80) (hdata : data.length ≤ 7609)
    (hpackets : ∀ p ∈ packets, 5 ≤ p.length)
    (hframe : packets.filter (OnChannel r.cid) = frame r.cid cmd data) :
  r.Yields packets cmd data
  := by
  rw [frame] at hframe
  induction packets with
  | nil => cases hframe
  | cons p ps ih =>
      have hps : ∀ q ∈ ps, 5 ≤ q.length := fun q hq => hpackets q (List.mem_cons_of_mem _ hq)
      by_cases hp : OnChannel r.cid p
      swap
      · rw [List.filter_cons_of_neg (by simpa using hp)] at hframe
        apply Yields.cons (push_of_not_onChannel (hpackets p List.mem_cons_self) hp) rfl
        exact ih hps hframe
      rw [List.filter_cons_of_pos (by simpa using hp), List.cons.injEq] at hframe
      obtain ⟨rfl, hframe⟩ := hframe
      have hlength : data.length % 2 ^ 16 = data.length := Nat.mod_eq_of_lt (by omega)
      generalize hfirst : min data.length INIT_DATA = first at hp hpackets hframe ⊢
      have hsize : (data.take first).length = first := by
        rw [List.length_take]
        omega
      obtain ⟨hon, hpacket, hkind, hlen, hrest⟩ :=
        initPacket_spec r.cid cmd data.length (show (data.take first).length ≤ INIT_DATA by omega)
      obtain ⟨hset, hoff⟩ := command_bits hcmd
      have hpush := push_init hon (by omega) hkind hset
      have hpart : ((initPacket r.cid cmd data.length (data.take first)).drop 7).take
          (min data.length ((initPacket r.cid cmd data.length (data.take first)).length - 7))
            = data.take first := by
        rw [hrest, hpacket]
        apply List.take_left'
        rw [hsize, ← hfirst]
        rfl
      rw [hlen, hlength, hpart, hoff, complete] at hpush
      dsimp only at hpush
      by_cases hlast : data.length ≤ first
      · rw [List.take_of_length_le hlast] at hpush hon ⊢
        rw [if_pos le_rfl] at hpush
        rw [List.drop_of_length_le hlast] at hframe
        exact Yields.last hpush rfl hon hps hframe
      · rw [if_neg (by omega)] at hpush
        apply Yields.cons hpush rfl
        have hsplit : data.length = (data.take first).length + (data.drop first).length := by
          rw [← List.length_append, List.take_append_drop]
        have hrest : data.drop first ≠ [] := by
          rw [ne_eq, List.drop_eq_nil_iff]
          exact hlast
        have hseqs : 0 * CONT_DATA + (data.drop first).length ≤ 128 * CONT_DATA := by
          have hinit : INIT_DATA = 57 := rfl
          have hcont : CONT_DATA = 59 := rfl
          rw [List.length_drop]
          omega
        have := yields_rest (r := ⟨r.cid, cmd, data.length, data.take first, 0, true⟩) rfl rfl
          hsplit (by rfl) hrest hseqs hps (by simpa only [Nat.zero_add] using hframe)
        rwa [List.take_append_drop] at this

end Reassembler

/-! ### Both -/

open Reassembler

/-- A message that is framed comes out of a collector for its channel, with the last of its
reports and not before, whatever of other channels comes between. And no reports make a collector
panic; each message has the length that the last initialisation packet of the channel announced.
-/
theorem yields_and_collecting {r : Reassembler} {cmd : UInt8} {data : Bytes} {packets : List Bytes}
    (hcmd : cmd < 0x80) (hdata : data.length ≤ 7609) (hpackets : ∀ p ∈ packets, 5 ≤ p.length)
    (hframe : packets.filter (OnChannel r.cid) = frame r.cid cmd data) :
  r.Yields packets cmd data
    ∧ ∀ (cid : UInt32) (packets : List Bytes), ∃ outs r', (new cid).feed packets = some (outs, r')
      ∧ ∀ i cmd data, outs[i]? = some (.ok (some (cmd, data))) →
        announced cid (packets.take (i + 1)) = some data.length
  := by
  constructor
  · exact yields_frame hcmd hdata hpackets hframe
  · intro cid packets
    have hnew : (new cid).Collecting cid none := ⟨rfl, fun h => absurd h Bool.false_ne_true⟩
    obtain ⟨outs, r', hfeed, houts⟩ := feed_collecting hnew packets
    refine ⟨outs, r', hfeed, ?_⟩
    intro i cmd data hi
    rw [← houts i cmd data hi, Option.or_none]

/-- A message of two reports, with a report of another channel between them. -/
theorem yields_and_collecting_two :
  (new 1).Yields ((frame 1 0x10 (List.replicate 60 7)).intersperse (List.replicate 64 2)) 0x10
    (List.replicate 60 7)
  := by
  refine (yields_and_collecting ?_ ?_ ?_ ?_).1
  · decide
  · decide
  · decide +kernel
  · decide +kernel

end Termoso.Core.CtapHid
