import Termoso.Core.Mosh.Instructions
import Mathlib.Data.List.Basic

/-!
# Fragments of an instruction

An instruction is compressed, and cut into pieces that fit into datagrams.  A piece carries the
number of the instruction, its own number, and a mark when it is the last.  The other side collects
the pieces of one instruction, in whatever order they arrive and however often.
-/

namespace Termoso.Core.Mosh

open Wire (Bytes putFixed getFixed)

/-- Compression: what a text is compressed to, and the first so many bytes of what a compressed text
stands for. -/
class Zlib where
  deflate : Bytes → Option Bytes
  inflate : ℕ → Bytes → Option Bytes

/-- A text that is compressed comes back when it is inflated. -/
def Zlib.RoundTrips [Zlib] : Prop :=
  ∀ data z, Zlib.deflate data = some z → ∀ n, Zlib.inflate n z = some (data.take n)

def HEADER_LEN : ℕ := 8 + 2

/-- Upper bound on a reassembled instruction (the reference uses 4 MiB). -/
def MAX_ASSEMBLED : ℕ := 4 * 1024 * 1024

structure Fragment where
  id : UInt64
  num : UInt16
  final : Bool
  contents : Bytes
deriving DecidableEq

namespace Fragment

/-- The number of a fragment under the mark of the last one. -/
def combined (f : Fragment) : UInt16 :=
  ((if f.final then (1 : UInt16) else 0) <<< 15) ||| (f.num &&& 0x7fff)

def toWire (f : Fragment) : Bytes :=
  putFixed 8 f.id.toNat ++ putFixed 2 f.combined.toNat ++ f.contents

def fromWire (buf : Bytes) : Except MoshError Fragment :=
  if buf.length < HEADER_LEN then .error .fragment
  else
    let combined := UInt16.ofNat (getFixed ((buf.drop 8).take 2))
    .ok ⟨UInt64.ofNat (getFixed (buf.take 8)), combined &&& 0x7fff, decide (combined &&& 0x8000 ≠ 0),
      buf.drop HEADER_LEN⟩

theorem toNat_combined {f : Fragment} (h : f.num.toNat < 2 ^ 15) :
  f.combined.toNat = 2 ^ 15 * (if f.final then 1 else 0) + f.num.toNat
  := by
  have hmark : ((if f.final then (1 : UInt16) else 0) <<< 15).toNat
      = 2 ^ 15 * (if f.final then 1 else 0) := by
    cases f.final <;> rfl
  have hnum : (f.num &&& 0x7fff).toNat = f.num.toNat := by
    rw [UInt16.toNat_and]
    exact (Nat.and_two_pow_sub_one_eq_mod f.num.toNat 15).trans (Nat.mod_eq_of_lt h)
  rw [combined, UInt16.toNat_or, hmark, hnum, ← Nat.two_pow_add_eq_or_of_lt h]

/-- A fragment with a number of 15 bits is read as it was written. -/
theorem fromWire_toWire {f : Fragment} (h : f.num.toNat < 2 ^ 15) :
  fromWire f.toWire = .ok f
  := by
  have hid : UInt64.ofNat (getFixed (f.toWire.take 8)) = f.id := by
    have htake : f.toWire.take 8 = putFixed 8 f.id.toNat := by
      rw [toWire, List.append_assoc]
      exact List.take_left' (Wire.length_putFixed _ _)
    rw [htake, Wire.getFixed_putFixed f.id.toNat_lt, UInt64.ofNat_toNat]
  have hcombined : UInt16.ofNat (getFixed ((f.toWire.drop 8).take 2)) = f.combined := by
    have hdrop : f.toWire.drop 8 = putFixed 2 f.combined.toNat ++ f.contents := by
      rw [toWire, List.append_assoc]
      exact List.drop_left' (Wire.length_putFixed _ _)
    have htake : (f.toWire.drop 8).take 2 = putFixed 2 f.combined.toNat := by
      rw [hdrop]
      exact List.take_left' (Wire.length_putFixed _ _)
    rw [htake, Wire.getFixed_putFixed f.combined.toNat_lt, UInt16.ofNat_toNat]
  have hcontents : f.toWire.drop HEADER_LEN = f.contents := by
    apply List.drop_left'
    rw [List.length_append, Wire.length_putFixed, Wire.length_putFixed, HEADER_LEN]
  have hlength : ¬ f.toWire.length < HEADER_LEN := by
    rw [toWire, List.length_append, List.length_append, Wire.length_putFixed, Wire.length_putFixed,
      HEADER_LEN]
    omega
  have hnum : f.combined &&& 0x7fff = f.num := by
    apply UInt16.toNat_inj.mp
    rw [UInt16.toNat_and, toNat_combined h]
    refine (Nat.and_two_pow_sub_one_eq_mod _ 15).trans ?_
    rw [Nat.mul_add_mod, Nat.mod_eq_of_lt h]
  have hfinal : decide (f.combined &&& 0x8000 ≠ 0) = f.final := by
    have hbit : (f.combined &&& 0x8000).toNat
        = ((2 ^ 15 * (if f.final then 1 else 0) + f.num.toNat).testBit 15).toNat * 2 ^ 15 := by
      rw [UInt16.toNat_and, toNat_combined h]
      exact Nat.and_two_pow _ 15
    have hdiv : (2 ^ 15 * (if f.final then 1 else 0) + f.num.toNat) / 2 ^ 15
        = if f.final then 1 else 0 := by
      cases f.final <;> simp only [Bool.false_eq_true, if_false, if_true] <;> omega
    rw [Bool.eq_iff_iff, decide_eq_true_iff, ne_eq, ← UInt16.toNat_inj, hbit,
      Nat.testBit_eq_decide_div_mod_eq, hdiv]
    cases f.final <;> simp
  rw [fromWire, if_neg hlength]
  simp only [hid, hcombined, hnum, hfinal, hcontents]

end Fragment

/-! ### Cutting -/

/-- Cut a list into pieces of a length, the last of which may be shorter. -/
def chunks (n : ℕ) (l : Bytes) : List Bytes :=
  (List.range ((l.length + n - 1) / n)).map (fun i => (l.drop (i * n)).take n)

theorem flatten_chunks {n : ℕ} (hn : 0 < n) (l : Bytes) :
  (chunks n l).flatten = l
  := by
  have htake : ∀ m, ((List.range m).map (fun i => (l.drop (i * n)).take n)).flatten
      = l.take (m * n) := by
    intro m
    induction m with
    | zero => simp
    | succ m ih =>
        rw [List.range_succ, List.map_append, List.flatten_append, ih, Nat.succ_mul, List.take_add]
        simp
  rw [chunks, htake]
  apply List.take_of_length_le
  have hdiv := Nat.div_add_mod (l.length + n - 1) n
  have hmod := Nat.mod_lt (l.length + n - 1) hn
  rw [Nat.mul_comm]
  omega

/-- What is cut begins with a piece of the length, or is cut into one piece. -/
theorem chunks_of_ne_nil {n : ℕ} (hn : 0 < n) {l : Bytes} (hl : l ≠ []) :
  chunks n l = l.take n :: chunks n (l.drop n)
  := by
  have hpos : 0 < l.length := List.length_pos_iff.mpr hl
  have hnumber : (l.length + n - 1) / n = ((l.drop n).length + n - 1) / n + 1 := by
    rw [List.length_drop]
    by_cases hlong : n ≤ l.length
    · have : l.length + n - 1 = (l.length - n + n - 1) + n := by omega
      rw [this, Nat.add_div_right _ hn]
    · have hzero : l.length - n + n - 1 < n := by omega
      have hone : l.length + n - 1 = (l.length - 1) + n := by omega
      rw [Nat.div_eq_of_lt hzero, hone, Nat.add_div_right _ hn, Nat.div_eq_of_lt (by omega)]
  rw [chunks, chunks, hnumber, List.range_succ_eq_map, List.map_cons, List.map_map, Nat.zero_mul,
    List.drop_zero]
  congr 1
  apply List.map_congr_left
  intro i _
  rw [Function.comp_apply, List.drop_drop, Nat.succ_mul, Nat.add_comm]

/-- A piece of an instruction as a fragment. -/
def fragmentOf (id : UInt64) (pieces : List Bytes) (i : ℕ) (p : Bytes) : Fragment :=
  ⟨id, UInt16.ofNat i, decide (i + 1 = pieces.length), p⟩

/-- Outgoing side: compress, then cut into `mtu`-sized pieces. -/
structure Fragmenter where
  nextId : UInt64

section
variable [Zlib]

def compress (data : Bytes) : Except MoshError Bytes :=
  (Zlib.deflate data).elim (.error .compression) .ok

def decompress (data : Bytes) : Except MoshError Bytes :=
  match Zlib.inflate (MAX_ASSEMBLED + 1) data with
  | none => .error .compression
  | some out => if MAX_ASSEMBLED < out.length then .error .compression else .ok out

/-- Cut an instruction into fragments. -/
def Fragmenter.make (fr : Fragmenter) (inst : Instruction) (mtu : ℕ) :
    Fragmenter × Except MoshError (List Fragment) :=
  match compress inst.encode with
  | .error e => (fr, .error e)
  | .ok payload =>
    let chunk := max (mtu - HEADER_LEN) 1
    let pieces := if payload = [] then [[]] else chunks chunk payload
    (⟨fr.nextId + 1⟩,
      if 0x8000 < pieces.length then .error .fragment
      else .ok (pieces.mapIdx (fun i p =>
        ⟨fr.nextId, UInt16.ofNat i, decide (i + 1 = pieces.length), p⟩)))

/-- The fragments of an instruction are the pieces of what it is compressed to. -/
theorem make_eq_ok {fr : Fragmenter} {inst : Instruction} {mtu : ℕ} {frags : List Fragment}
    (h : (fr.make inst mtu).2 = .ok frags) :
  ∃ payload pieces, Zlib.deflate inst.encode = some payload ∧ pieces ≠ [] ∧ pieces.length ≤ 2 ^ 15
    ∧ pieces.flatten = payload ∧ frags = pieces.mapIdx (fragmentOf fr.nextId pieces)
  := by
  unfold Fragmenter.make compress at h
  cases hdeflate : Zlib.deflate inst.encode with
  | none =>
      rw [hdeflate] at h
      cases h
  | some payload =>
      rw [hdeflate] at h
      dsimp only [Option.elim_some] at h
      generalize hpieces : (if payload = [] then [[]] else chunks (max (mtu - HEADER_LEN) 1) payload)
        = pieces at h
      have hflatten : pieces.flatten = payload ∧ pieces ≠ [] := by
        rw [← hpieces]
        split
        · rename_i hnil
          exact ⟨hnil.symm, List.cons_ne_nil _ _⟩
        · rename_i hne
          have hflat := flatten_chunks (Nat.lt_of_lt_of_le Nat.zero_lt_one
            (Nat.le_max_right (mtu - HEADER_LEN) 1)) payload
          refine ⟨hflat, ?_⟩
          intro hnil
          rw [hnil] at hflat
          exact hne hflat.symm
      split at h
      · cases h
      · rename_i hlength
        cases h
        exact ⟨payload, pieces, rfl, hflatten.2, Nat.not_lt.mp hlength, hflatten.1, rfl⟩

end

/-! ### Collecting -/

/-- Incoming side: collects fragments of the current id. -/
structure Assembly where
  currentId : Option UInt64
  pieces : List (Option Bytes)
  arrived : ℕ
  total : Option ℕ
deriving DecidableEq

namespace Assembly

/-- A fragment with a new id discards whatever was pending. -/
def restart (a : Assembly) (id : UInt64) : Assembly :=
  if a.currentId = some id then a else ⟨some id, [], 0, none⟩

/-- Put a piece in its place. -/
def place (a : Assembly) (idx : ℕ) (contents : Bytes) : Assembly × Except MoshError Unit :=
  let a : Assembly :=
    { a with pieces := a.pieces ++ List.replicate (idx + 1 - a.pieces.length) none }
  match a.pieces[idx]?.join with
  | some existing => (a, if existing ≠ contents then .error .fragment else .ok ())
  | none => ({ a with pieces := a.pieces.set idx (some contents), arrived := a.arrived + 1 }, .ok ())

variable {a : Assembly} {id : UInt64} {pieces : List Bytes} {seen : List ℕ} {i : ℕ} {p : Bytes}

/-- Some of the pieces of one instruction have arrived. -/
structure Collects (a : Assembly) (id : UInt64) (pieces : List Bytes) (seen : List ℕ) : Prop where
  currentId : a.currentId = some id
  short : a.pieces.length ≤ pieces.length
  piece : ∀ i : ℕ, a.pieces[i]?.join = if i ∈ seen then pieces[i]? else none
  arrived : a.arrived = a.pieces.countP Option.isSome
  total : a.total = if pieces.length - 1 ∈ seen then some pieces.length else none

/-- All pieces have arrived. -/
def Complete (pieces : List Bytes) (seen : List ℕ) : Prop := ∀ i < pieces.length, i ∈ seen

theorem collects_restart (h : a.currentId ≠ some id) :
  (a.restart id).Collects id pieces []
  := by
  rw [restart, if_neg h]
  exact ⟨rfl, Nat.zero_le _, fun i => by simp, rfl, by simp⟩

theorem Collects.restart (h : a.Collects id pieces seen) :
  a.restart id = a
  := if_pos h.currentId

/-- A piece put in its place. -/
theorem Collects.place (h : a.Collects id pieces seen) (hp : pieces[i]? = some p) :
  ∃ a', a.place i p = (a', .ok ()) ∧ a'.currentId = some id ∧ a'.pieces.length ≤ pieces.length
    ∧ i < a'.pieces.length
    ∧ (∀ j : ℕ, a'.pieces[j]?.join = if j ∈ i :: seen then pieces[j]? else none)
    ∧ a'.arrived = a'.pieces.countP Option.isSome ∧ a'.total = a.total
  := by
  have hlt : i < pieces.length := (List.getElem?_eq_some_iff.mp hp).1
  have hjoin : ∀ j : ℕ, (a.pieces ++ List.replicate (i + 1 - a.pieces.length) none)[j]?.join
      = if j ∈ seen then pieces[j]? else none := by
    intro j
    rw [← h.piece j]
    by_cases hj : j < a.pieces.length
    · rw [List.getElem?_append_left hj]
    · rw [List.getElem?_append_right (Nat.not_lt.mp hj), List.getElem?_eq_none (Nat.not_lt.mp hj)]
      rw [List.getElem?_replicate]
      split <;> rfl
  have hcount : (a.pieces ++ List.replicate (i + 1 - a.pieces.length) none).countP Option.isSome
      = a.pieces.countP Option.isSome := by
    simp [List.countP_replicate]
  have hlength : (a.pieces ++ List.replicate (i + 1 - a.pieces.length) none).length
      = max a.pieces.length (i + 1) := by
    rw [List.length_append, List.length_replicate]
    omega
  unfold Assembly.place
  generalize a.pieces ++ List.replicate (i + 1 - a.pieces.length) none = resized at *
  have hshort : resized.length ≤ pieces.length := by
    have := h.short
    omega
  have hin : i < resized.length := by omega
  dsimp only
  by_cases hseen : i ∈ seen
  · have hi : resized[i]?.join = some p := by rw [hjoin, if_pos hseen, hp]
    rw [hi]
    refine ⟨{ a with pieces := resized }, by simp, h.currentId, hshort, hin, ?_, ?_, rfl⟩
    · intro j
      rw [hjoin]
      by_cases hj : j = i
      · simp [hj, hseen]
      · simp [hj]
    · rw [hcount]
      exact h.arrived
  · have hi : resized[i]?.join = none := by rw [hjoin, if_neg hseen]
    rw [hi]
    have hslot : resized[i] = none := by
      rwa [List.getElem?_eq_getElem hin, Option.join_some] at hi
    refine ⟨_, rfl, h.currentId, ?_, ?_, ?_, ?_, rfl⟩
    · rwa [List.length_set]
    · rwa [List.length_set]
    · intro j
      by_cases hj : i = j
      · subst hj
        rw [List.getElem?_set_self hin]
        simp [hp]
      · rw [List.getElem?_set_ne hj, hjoin]
        simp [Ne.symm hj]
    · rw [List.countP_set hin, hslot, hcount, h.arrived]
      rfl

section
variable [Zlib]

/-- Put the pieces together, once all have arrived. -/
def assemble (a : Assembly) : Assembly × Except MoshError (Option Instruction) :=
  if a.total ≠ some a.arrived then (a, .ok none)
  else
    match a.pieces.mapM (fun p => p) with
    | none => ({ a with pieces := [] }, .error .fragment)
    | some pieces => (⟨none, [], 0, none⟩,
        (decompress pieces.flatten).bind (fun data => (Instruction.decode data).map some))

/-- Feed one fragment; returns the decoded instruction once complete. -/
def add (a : Assembly) (frag : Fragment) : Assembly × Except MoshError (Option Instruction) :=
  let idx := frag.num.toNat
  let a := a.restart frag.id
  if a.total.any (· ≤ idx) then (a, .error .fragment)
  else
    match a.place idx frag.contents with
    | (a, .error e) => (a, .error e)
    | (a, .ok ()) =>
      if frag.final then
        if idx + 1 < a.pieces.length then (a, .error .fragment)
        else assemble { a with total := some (idx + 1) }
      else a.assemble

/-- Take a datagram apart and feed the fragment. -/
def receive (a : Assembly) (wire : Bytes) : Assembly × Except MoshError (Option Instruction) :=
  match Fragment.fromWire wire with
  | .error e => (a, .error e)
  | .ok frag => a.add frag

/-- What comes out as datagrams arrive. -/
def outputs : Assembly → List Bytes → List (Except MoshError (Option Instruction))
  | _, [] => []
  | a, wire :: wires => (a.receive wire).2 :: outputs (a.receive wire).1 wires

/-- A fragment fed to pieces that are collected is put among them. -/
theorem Collects.add (h : (a.restart id).Collects id pieces seen) (hp : pieces[i]? = some p)
    (hlength : pieces.length ≤ 2 ^ 15) :
  ∃ a' : Assembly, a'.Collects id pieces (i :: seen) ∧ a.add (fragmentOf id pieces i p) = a'.assemble
  := by
  have hlt : i < pieces.length := (List.getElem?_eq_some_iff.mp hp).1
  have hnum : (fragmentOf id pieces i p).num.toNat = i := by
    change (UInt16.ofNat i).toNat = i
    rw [UInt16.toNat_ofNat']
    omega
  have htotal : ¬ (a.restart id).total.any (· ≤ i) = true := by
    rw [h.total]
    split
    · simpa using hlt
    · simp
  obtain ⟨a', hplace, hid, hshort, hin, hpiece, harrived, hkept⟩ := h.place hp
  have hadd : a.add (fragmentOf id pieces i p)
      = if i + 1 = pieces.length then
          if i + 1 < a'.pieces.length then (a', .error .fragment)
          else assemble { a' with total := some (i + 1) }
        else a'.assemble := by
    unfold Assembly.add
    rw [hnum]
    change (if (a.restart id).total.any (· ≤ i) = true then (a.restart id, .error .fragment) else
      match (a.restart id).place i p with
      | (a, .error e) => (a, .error e)
      | (a, .ok ()) => if decide (i + 1 = pieces.length) = true then
          if i + 1 < a.pieces.length then (a, .error .fragment)
          else assemble { a with total := some (i + 1) }
        else a.assemble) = _
    rw [if_neg htotal, hplace]
    simp only [decide_eq_true_eq]
  rw [hadd]
  by_cases hfinal : i + 1 = pieces.length
  · rw [if_pos hfinal, if_neg (by omega)]
    refine ⟨{ a' with total := some (i + 1) }, ⟨hid, hshort, hpiece, harrived, ?_⟩, rfl⟩
    have hlast : pieces.length - 1 = i := by omega
    rw [hlast, if_pos List.mem_cons_self, hfinal]
  · rw [if_neg hfinal]
    refine ⟨a', ⟨hid, hshort, hpiece, harrived, ?_⟩, rfl⟩
    have hne : pieces.length - 1 ≠ i := by omega
    rw [hkept, h.total]
    simp [hne]

omit [Zlib] in
theorem Collects.pieces_eq (h : a.Collects id pieces seen) (hcomplete : Complete pieces seen) :
  a.pieces = pieces.map some
  := by
  apply List.ext_getElem?
  intro i
  rw [List.getElem?_map]
  by_cases hi : i < pieces.length
  · have hpiece := h.piece i
    rw [if_pos (hcomplete i hi), List.getElem?_eq_getElem hi] at hpiece
    rw [List.getElem?_eq_getElem hi, Option.join_eq_some_iff.mp hpiece]
    rfl
  · have hshort := h.short
    rw [List.getElem?_eq_none (by omega), List.getElem?_eq_none (by omega)]
    rfl

omit [Zlib] in
/-- All pieces have arrived exactly when as many have as there are. -/
theorem Collects.total_eq_arrived_iff (h : a.Collects id pieces seen) (hne : pieces ≠ []) :
  a.total = some a.arrived ↔ Complete pieces seen
  := by
  have hpos := List.length_pos_iff.mpr hne
  constructor
  · intro htotal i hi
    rw [h.total] at htotal
    split at htotal
    · have hcount : a.pieces.countP Option.isSome = pieces.length :=
        h.arrived.symm.trans (Option.some.inj htotal).symm
      have hshort := h.short
      have hle : a.pieces.countP Option.isSome ≤ a.pieces.length := List.countP_le_length
      have hall := List.countP_eq_length.mp (show a.pieces.countP Option.isSome = a.pieces.length by
        omega)
      have hin : i < a.pieces.length := by omega
      have hsome := hall a.pieces[i] (List.getElem_mem hin)
      by_contra hnot
      have hpiece := h.piece i
      rw [if_neg hnot, List.getElem?_eq_getElem hin, Option.join_some] at hpiece
      rw [hpiece] at hsome
      cases hsome
    · cases htotal
  · intro hcomplete
    rw [h.total, if_pos (hcomplete _ (by omega)), h.arrived, h.pieces_eq hcomplete]
    rw [List.countP_map]
    congr 1
    exact (List.countP_eq_length.mpr fun _ _ => rfl).symm

/-- Pieces that are not all there are kept, and those that are all there are put together. -/
theorem Collects.assemble (h : a.Collects id pieces seen) (hne : pieces ≠ []) :
  (¬ Complete pieces seen → a.assemble = (a, .ok none))
    ∧ (Complete pieces seen → a.assemble = (⟨none, [], 0, none⟩,
        (decompress pieces.flatten).bind (fun data => (Instruction.decode data).map some)))
  := by
  constructor
  · intro hnot
    rw [Assembly.assemble, if_pos (mt (h.total_eq_arrived_iff hne).mp hnot)]
  · intro hcomplete
    have hall : ∀ l : List Bytes, (l.map some).mapM (fun p => p) = some l := by
      intro l
      induction l with
      | nil => rfl
      | cons p l ih => simp [ih]
    rw [Assembly.assemble, if_neg (not_not.mpr ((h.total_eq_arrived_iff hne).mpr hcomplete)),
      h.pieces_eq hcomplete, hall]

/-- A fragment taken apart is the one that was written. -/
theorem receive_fragmentOf (hp : pieces[i]? = some p) (hlength : pieces.length ≤ 2 ^ 15) :
  a.receive (fragmentOf id pieces i p).toWire = a.add (fragmentOf id pieces i p)
  := by
  have hlt : i < pieces.length := (List.getElem?_eq_some_iff.mp hp).1
  have hnum : (fragmentOf id pieces i p).num.toNat < 2 ^ 15 := by
    change (UInt16.ofNat i).toNat < 2 ^ 15
    rw [UInt16.toNat_ofNat']
    omega
  rw [receive, Fragment.fromWire_toWire hnum]

omit [Zlib] in
/-- Fragments of one instruction with the same bytes have the same number. -/
theorem eq_of_toWire_eq {j : ℕ} {q : Bytes} (hp : pieces[i]? = some p) (hq : pieces[j]? = some q)
    (hlength : pieces.length ≤ 2 ^ 15)
    (h : (fragmentOf id pieces i p).toWire = (fragmentOf id pieces j q).toWire) :
  i = j
  := by
  have hnum : ∀ k r, pieces[k]? = some r → (fragmentOf id pieces k r).num.toNat = k ∧ k < 2 ^ 15 := by
    intro k r hr
    have hlt : k < pieces.length := (List.getElem?_eq_some_iff.mp hr).1
    refine ⟨?_, by omega⟩
    change (UInt16.ofNat k).toNat = k
    rw [UInt16.toNat_ofNat']
    omega
  obtain ⟨hi, hilt⟩ := hnum i p hp
  obtain ⟨hj, hjlt⟩ := hnum j q hq
  have hread := Fragment.fromWire_toWire (f := fragmentOf id pieces i p) (by rwa [hi])
  rw [h, Fragment.fromWire_toWire (by rwa [hj])] at hread
  rw [← hi, ← hj, Except.ok.inj hread]

/-- All fragments are among those seen and the datagrams. -/
def Covers (id : UInt64) (pieces : List Bytes) (seen : List ℕ) (wires : List Bytes) : Prop :=
  ∀ i p, pieces[i]? = some p → i ∈ seen ∨ (fragmentOf id pieces i p).toWire ∈ wires

omit [Zlib] in
theorem covers_nil_iff :
  Covers id pieces seen [] ↔ Complete pieces seen
  := by
  constructor
  · intro h i hi
    exact (h i pieces[i] (List.getElem?_eq_getElem hi)).resolve_right List.not_mem_nil
  · intro h i p hp
    exact .inl (h i (List.getElem?_eq_some_iff.mp hp).1)

omit [Zlib] in
theorem covers_cons_iff {wires : List Bytes} (hp : pieces[i]? = some p)
    (hlength : pieces.length ≤ 2 ^ 15) :
  Covers id pieces seen ((fragmentOf id pieces i p).toWire :: wires)
    ↔ Covers id pieces (i :: seen) wires
  := by
  constructor
  · intro h j q hq
    rcases h j q hq with hseen | hmem
    · exact .inl (List.mem_cons_of_mem i hseen)
    · rcases List.mem_cons.mp hmem with heq | hmem
      · rw [eq_of_toWire_eq hq hp hlength heq]
        exact .inl List.mem_cons_self
      · exact .inr hmem
  · intro h j q hq
    rcases h j q hq with hseen | hmem
    · rcases List.mem_cons.mp hseen with rfl | hseen
      · rw [hp] at hq
        cases hq
        exact .inr List.mem_cons_self
      · exact .inl hseen
    · exact .inr (List.mem_cons_of_mem _ hmem)

/-- As the fragments of an instruction arrive, nothing comes out before the last one that was missing,
and then the instruction does. -/
theorem outputs_of_collects {wires : List Bytes} {data : Bytes} {inst : Instruction}
    (h : (a.restart id).Collects id pieces seen) (hnot : ¬ Complete pieces seen)
    (hne : pieces ≠ []) (hlength : pieces.length ≤ 2 ^ 15)
    (hdata : decompress pieces.flatten = .ok data) (hinst : Instruction.decode data = .ok inst)
    (honly : ∀ w ∈ wires, ∃ i p, pieces[i]? = some p ∧ w = (fragmentOf id pieces i p).toWire)
    (hall : Covers id pieces seen wires) :
  ∃ before w after, wires = before ++ w :: after ∧ ¬ Covers id pieces seen before
    ∧ Covers id pieces seen (before ++ [w])
    ∧ a.outputs (before ++ [w]) = List.replicate before.length (.ok none) ++ [.ok (some inst)]
  := by
  induction wires generalizing a seen with
  | nil => exact absurd (covers_nil_iff.mp hall) hnot
  | cons w wires ih =>
      obtain ⟨i, p, hp, rfl⟩ := honly w List.mem_cons_self
      obtain ⟨a', hcollects, hadd⟩ := h.add hp hlength
      have hreceive : a.receive (fragmentOf id pieces i p).toWire = a'.assemble :=
        (receive_fragmentOf hp hlength).trans hadd
      obtain ⟨hkept, hdone⟩ := hcollects.assemble hne
      by_cases hcomplete : Complete pieces (i :: seen)
      · refine ⟨[], _, wires, rfl, mt covers_nil_iff.mp hnot, ?_, ?_⟩
        · exact (covers_cons_iff hp hlength).mpr (covers_nil_iff.mpr hcomplete)
        · rw [List.nil_append, outputs, hreceive, hdone hcomplete, hdata]
          change [(Instruction.decode data).map some] = [.ok (some inst)]
          rw [hinst]
          rfl
      · obtain ⟨before, w, after, rfl, hbefore, hlast, hout⟩ := ih (hcollects.restart.symm ▸ hcollects)
          hcomplete (fun w hw => honly w (List.mem_cons_of_mem _ hw))
          ((covers_cons_iff hp hlength).mp hall)
        refine ⟨_ :: before, w, after, rfl, mt (covers_cons_iff hp hlength).mp hbefore,
          (covers_cons_iff hp hlength).mpr hlast, ?_⟩
        rw [List.cons_append, outputs, hreceive, hkept hcomplete]
        change .ok none :: a'.outputs (before ++ [w]) = _
        rw [hout]
        rfl

end

end Assembly

/-- An instruction is read as it was written.  Cut into fragments and put together from datagrams that
hold all of them, in any order and with any duplicates, it comes out with the fragment that was the
last one missing, and nothing comes out before. -/
theorem fragments_roundTrip [Zlib] (hzlib : Zlib.RoundTrips) (inst : Instruction) (hfits : inst.Fits) :
  Instruction.decode inst.encode = .ok inst
    ∧ ∀ (fr : Fragmenter) (mtu : ℕ) (frags : List Fragment) (a : Assembly) (wires : List Bytes),
      inst.encode.length ≤ MAX_ASSEMBLED → (fr.make inst mtu).2 = .ok frags →
      a.currentId ≠ some fr.nextId → (∀ f ∈ frags, f.toWire ∈ wires) →
      (∀ w ∈ wires, ∃ f ∈ frags, w = f.toWire) →
      ∃ before w after, wires = before ++ w :: after
        ∧ (¬ ∀ f ∈ frags, f.toWire ∈ before) ∧ (∀ f ∈ frags, f.toWire ∈ before ++ [w])
        ∧ a.outputs (before ++ [w]) = List.replicate before.length (.ok none) ++ [.ok (some inst)]
  := by
  have hdecode := Instruction.decode_encode hfits
  refine ⟨hdecode, ?_⟩
  intro fr mtu frags a wires hsize hmake hid hall honly
  obtain ⟨payload, pieces, hdeflate, hne, hlength, hflatten, rfl⟩ := make_eq_ok hmake
  have hdata : decompress pieces.flatten = .ok inst.encode := by
    have htake : inst.encode.take (MAX_ASSEMBLED + 1) = inst.encode :=
      List.take_of_length_le (by omega)
    rw [hflatten, decompress, hzlib _ _ hdeflate, htake]
    exact if_neg (Nat.not_lt.mpr hsize)
  have hcovers : ∀ ws : List Bytes, Assembly.Covers fr.nextId pieces [] ws
      ↔ ∀ f ∈ pieces.mapIdx (fragmentOf fr.nextId pieces), f.toWire ∈ ws := by
    intro ws
    constructor
    · intro h f hf
      obtain ⟨i, hi, rfl⟩ := List.mem_mapIdx.mp hf
      exact (h i pieces[i] (List.getElem?_eq_getElem hi)).resolve_left List.not_mem_nil
    · intro h i p hp
      obtain ⟨hi, rfl⟩ := List.getElem?_eq_some_iff.mp hp
      exact .inr (h _ (List.mem_mapIdx.mpr ⟨i, hi, rfl⟩))
  have hnot : ¬ Assembly.Complete pieces [] := by
    intro hcomplete
    exact List.not_mem_nil (hcomplete 0 (List.length_pos_iff.mpr hne))
  have honly' : ∀ w ∈ wires, ∃ i p, pieces[i]? = some p
      ∧ w = (fragmentOf fr.nextId pieces i p).toWire := by
    intro w hw
    obtain ⟨f, hf, rfl⟩ := honly w hw
    obtain ⟨i, hi, rfl⟩ := List.mem_mapIdx.mp hf
    exact ⟨i, pieces[i], List.getElem?_eq_getElem hi, rfl⟩
  obtain ⟨before, w, after, hwires, hbefore, hlast, hout⟩ := Assembly.outputs_of_collects
    (Assembly.collects_restart hid) hnot hne hlength hdata hdecode honly' ((hcovers wires).mpr hall)
  exact ⟨before, w, after, hwires, mt (hcovers before).mpr hbefore, (hcovers _).mp hlast, hout⟩

/-! ### Three fragments -/

/-- A step from state 1 to state 2. -/
def stepTwo : Instruction := ⟨2, 1, 2, 3, 1, [104, 105], [9, 9]⟩

/-- What the step is written as. -/
def stepBytes : Bytes := [8, 2, 16, 1, 24, 2, 32, 3, 40, 1, 50, 2, 104, 105, 58, 2, 9, 9]

/-- What zlib compresses it to. -/
def stepCompressed : Bytes := [120, 156, 227, 96, 18, 96, 148, 96, 82, 96, 214, 96, 52, 98, 202, 200,
  180, 98, 226, 228, 4, 0, 13, 155, 1, 213]

/-- Compression that is that of zlib on the step, and marks other texts only. -/
@[reducible]
def stepZlib : Zlib where
  deflate data := some (if data = stepBytes then stepCompressed else 0 :: data)
  inflate n z :=
    if z = stepCompressed then some (stepBytes.take n)
    else if z.head? = some 0 then some (z.tail.take n) else none

theorem roundTrips_stepZlib :
  @Zlib.RoundTrips stepZlib
  := by
  intro data z hz n
  change some (if data = stepBytes then stepCompressed else 0 :: data) = some z at hz
  change (if z = stepCompressed then some (stepBytes.take n)
    else if z.head? = some 0 then some (z.tail.take n) else none) = some (data.take n)
  rw [← Option.some.inj hz]
  by_cases hdata : data = stepBytes
  · rw [if_pos hdata, if_pos rfl, hdata]
  · have hne : 0 :: data ≠ stepCompressed := by
      intro h
      cases h
    rw [if_neg hdata, if_neg hne]
    exact if_pos rfl

/-- The fragments of the step, with at most ten bytes of contents each. -/
def stepFragments : List Fragment := [
  ⟨1, 0, false, [120, 156, 227, 96, 18, 96, 148, 96, 82, 96]⟩,
  ⟨1, 1, false, [214, 96, 52, 98, 202, 200, 180, 98, 226, 228]⟩,
  ⟨1, 2, true, [4, 0, 13, 155, 1, 213]⟩]

/-- The last fragment arrives first and the first one last, with the others twice, after one fragment
of another instruction. -/
theorem fragments_roundTrip_step :
  ∃ before w after, [2, 1, 2, 0, 1].filterMap (fun i => stepFragments[i]?.map Fragment.toWire)
      = before ++ w :: after
    ∧ (¬ ∀ f ∈ stepFragments, f.toWire ∈ before)
    ∧ (∀ f ∈ stepFragments, f.toWire ∈ before ++ [w])
    ∧ @Assembly.outputs stepZlib ⟨some 7, [none, some [1]], 1, none⟩ (before ++ [w])
      = List.replicate before.length (.ok none) ++ [.ok (some stepTwo)]
  := by
  apply (@fragments_roundTrip stepZlib roundTrips_stepZlib stepTwo
    ⟨by decide, by decide, by decide, by decide, by decide, by decide, by decide⟩).2 ⟨1⟩ 20
  · decide +kernel
  · decide +kernel
  · decide
  · decide +kernel
  · decide +kernel

end Termoso.Core.Mosh
