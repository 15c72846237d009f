import Termoso.Core.HistorySync
import Termoso.Server.History
import Termoso.Lib.Journal

/-!
# Unpushed history changes

A device edits its history while a pass pushes and pulls it.  A journal notes the last change
of each row that the server has not received: what was saved, a tombstone, or the removal of a
row the device never saw numbered.

The answer for an entry says that the row is as pushed, and marks it clean even when it was
edited meanwhile; an entry pulled replaces the row, dirty or not.  Runs in which neither
happens to a row with another change keep the journal.
-/

namespace Termoso.Core

/-! ### Changes -/

/-- A change of a history row that the server is to receive. -/
inductive HistoryChange
  | saved (data : String) (keyVersion : ℤ)
  | tombstone
  | removed
deriving DecidableEq

/-- The change in a dirty row. -/
def HistoryRow.change (r : HistoryRow) : Option HistoryChange :=
  if !r.dirty then none
  else if r.deleted then some .tombstone
  else some (.saved r.data r.keyVersion)

/-- The change that the server has when it has an entry. -/
def change (e : HistoryEntry) : HistoryChange :=
  if e.deleted then .tombstone else .saved e.data e.keyVersion

namespace Store

/-- The change waiting under an identifier: none under a clean row, and a removal where there is
no row. -/
def historyChange (s : Store) (id : Uuid) : Option HistoryChange :=
  match s.historyRow id with
  | some r => r.change
  | none => some .removed

/-- The change waiting in a row. -/
def dirtyChange (s : Store) (id : Uuid) : Option HistoryChange :=
  (s.historyRow id).bind HistoryRow.change

section
variable {s s' : Store} {id : Uuid}

theorem historyChange_congr (h : s'.historyRow id = s.historyRow id) :
  s'.historyChange id = s.historyChange id
  := by
  rw [historyChange, h, historyChange]

/-- A change waits in a dirty row, or is the removal of the row. -/
theorem historyChange_eq_some {c : HistoryChange} (h : s.historyChange id = some c) :
  (s.historyRow id = none ∧ c = .removed)
    ∨ ∃ r, s.historyRow id = some r ∧ r.dirty = true ∧ r.change = some c
  := by
  rw [historyChange] at h
  cases hrow : s.historyRow id with
  | none =>
      rw [hrow] at h
      cases h
      exact .inl ⟨rfl, rfl⟩
  | some r =>
      rw [hrow] at h
      refine .inr ⟨r, rfl, ?_, h⟩
      by_contra hdirty
      simp [HistoryRow.change, hdirty] at h

end

end Store

/-! ### Journaled runs -/

/-- A device with the journal of its unpushed changes. -/
structure JournaledHistory where
  device : HistoryDevice
  journal : Journal Uuid HistoryChange

/-- What an answer or a pulled entry settles: the change it shows, and every change when it is
pulled as a tombstone. -/
def settled (e : HistoryEntry) : Journal Uuid HistoryChange → Journal Uuid HistoryChange :=
  Journal.settle e.id (fun c => decide (c = change e))

def settledByPull (e : HistoryEntry) : Journal Uuid HistoryChange → Journal Uuid HistoryChange :=
  Journal.settle e.id (fun c => e.deleted || decide (c = change e))

/-- The journal after a step: an operation of the user notes the rows it edits, a mark settles the
change in its entry, and a page those in its entries. -/
def journalAfter (d : JournaledHistory) (s' : Store) : HistoryStep → Journal Uuid HistoryChange
  | .edit _ =>
    d.journal.record (fun id => s'.historyRow id ≠ d.device.store.historyRow id) s'.historyChange
  | .mark =>
    match d.device.phase with
    | .marking (e :: _) _ _ => settled e d.journal
    | _ => d.journal
  | .pulled resp => resp.entries.foldl (fun j e => settledByPull e j) d.journal
  | _ => d.journal

/-- The runs of a device, from any store. At the start the journal has the changes waiting in its
dirty rows. -/
def historySystem [Primitives] [Serde CommandHistory] [Serde ConnectionHistory] :
    TransitionSystem JournaledHistory HistoryStep where
  init d := d.device.phase = .idle ∧ d.journal = d.device.store.dirtyChange
  step d l := (d.device.step l).map (fun d' => ⟨d', journalAfter d d'.store l⟩)

/-- A row shows an entry: it is not dirty, or dirty with the change in the entry. -/
def Shows (s : Store) (e : HistoryEntry) : Prop :=
  ∀ r, s.historyRow e.id = some r → r.dirty = true → r.change = some (change e)

/-- A step spares the unpushed changes: an entry marked is still what its row shows, and an entry
pulled, unless a tombstone, is what its row shows, and not about a row removed by the user. -/
def SparesHistory (d : JournaledHistory) : HistoryStep → Prop
  | .mark => ∀ e answered rest since, d.device.phase = .marking (e :: answered) rest since →
      Shows d.device.store e
  | .pulled resp => ∀ e ∈ resp.entries, e.deleted = false →
      Shows d.device.store e ∧ d.journal e.id ≠ some .removed
  | _ => True

/-- Every unpushed change is still waiting in its row. -/
def HistoryKept (d : JournaledHistory) : Prop :=
  d.journal.Kept d.device.store.historyChange

/-! ### One step -/

section
variable {s : Store} {j : Journal Uuid HistoryChange} {e : HistoryEntry}

/-- Marking an entry that its row still shows keeps the journal. -/
theorem kept_mark (h : j.Kept s.historyChange) (hshows : Shows s e) :
  (settled e j).Kept (s.markHistoryPushed [e.id] e.seq).historyChange
  := by
  apply h.settle
  · intro id c hne hc
    rw [Store.historyChange, Store.historyRow_markHistoryPushed, if_neg hne]
    rcases Store.historyChange_eq_some hc with ⟨hnone, rfl⟩ | ⟨r, hrow, hdirty, hchange⟩
    · rw [hnone]
      rfl
    · rw [hrow, Option.filter_some]
      simp only [hdirty, Bool.not_true, Bool.and_false, Bool.not_false, if_true]
      exact hchange
  · intro c hc _ hcov
    rcases Store.historyChange_eq_some hc with ⟨hnone, rfl⟩ | ⟨r, hrow, hdirty, hchange⟩
    · rw [Store.historyChange, Store.historyRow_markHistoryPushed, if_pos rfl, hnone]
      rfl
    · have := hshows r hrow hdirty
      rw [hchange, Option.some_inj] at this
      simp [this] at hcov

/-- Applying an entry that its row shows, and that the user did not remove, keeps the journal. -/
theorem kept_applyRemoteEntry {personal : Uuid} (h : j.Kept s.historyChange)
    (hspares : e.deleted = false → Shows s e ∧ j e.id ≠ some .removed) :
  (settledByPull e j).Kept (Store.applyRemoteEntry personal s e).historyChange
  := by
  apply h.settle
  · intro id c hne hc
    rw [Store.historyChange_congr, hc]
    rw [Store.historyRow_applyRemoteEntry, if_neg hne]
  · intro c hc hj hcov
    simp only [Bool.or_eq_false_iff, decide_eq_false_iff_not] at hcov
    obtain ⟨hshows, hremoved⟩ := hspares hcov.1
    rcases Store.historyChange_eq_some hc with ⟨-, rfl⟩ | ⟨r, hrow, hdirty, hchange⟩
    · exact absurd hj hremoved
    · have := hshows r hrow hdirty
      rw [hchange, Option.some_inj] at this
      exact absurd this hcov.2

/-- An entry applied makes no row dirty: a dirty row was dirty before, and is as it was. -/
theorem historyRow_of_dirty {personal id : Uuid} {r : HistoryRow}
    (h : (Store.applyRemoteEntry personal s e).historyRow id = some r) (hdirty : r.dirty = true) :
  s.historyRow id = some r
  := by
  rw [Store.historyRow_applyRemoteEntry] at h
  split at h
  · rename_i hid
    split at h
    · cases h
    split at h
    · rw [hid, h]
    · cases hrow : s.historyRow e.id with
      | none =>
          rw [hrow] at h
          cases h
          cases hdirty
      | some r' =>
          rw [hrow] at h
          cases h
          cases hdirty
  · exact h

/-- Applying a page whose entries their rows show keeps the journal. -/
theorem kept_applyRemoteHistory {entries : List HistoryEntry} (h : j.Kept s.historyChange)
    (hspares : ∀ e ∈ entries, e.deleted = false → Shows s e ∧ j e.id ≠ some .removed) :
  (entries.foldl (fun j e => settledByPull e j) j).Kept (s.applyRemoteHistory entries).historyChange
  := by
  have hnone : ∀ (entries : List HistoryEntry) (j : Journal Uuid HistoryChange),
      j.Kept s.historyChange →
      (entries.foldl (fun j e => settledByPull e j) j).Kept s.historyChange := by
    intro entries
    induction entries with
    | nil => exact fun j h => h
    | cons e entries ih =>
        intro j h
        apply ih
        exact h.settle (fun _ _ _ hc => hc) (fun _ hc _ _ => hc)
  rw [Store.applyRemoteHistory]
  split
  · exact hnone entries j h
  rename_i personal hpersonal
  clear hnone hpersonal
  induction entries generalizing s j with
  | nil => exact h
  | cons e entries ih =>
      rw [List.foldl_cons, List.foldl_cons]
      apply ih
      · exact kept_applyRemoteEntry h (hspares e List.mem_cons_self)
      · intro e' he' hdel
        obtain ⟨hshows, hremoved⟩ := hspares e' (List.mem_cons_of_mem _ he') hdel
        constructor
        · intro r hrow hdirty
          exact hshows r (historyRow_of_dirty hrow hdirty) hdirty
        · intro hj
          exact hremoved (Journal.of_settle hj)

end

/-! ### Every run -/

section
variable [Primitives] [Serde CommandHistory] [Serde ConnectionHistory]

/-- A step that spares the unpushed changes keeps them. -/
theorem historyKept_step {d d' : JournaledHistory} {l : HistoryStep} (h : HistoryKept d)
    (hspares : SparesHistory d l) (hstep : historySystem.step d l = some d') :
  HistoryKept d'
  := by
  obtain ⟨device, hdevice, rfl⟩ := Option.map_eq_some_iff.mp hstep
  rw [HistoryKept]
  cases l with
  | edit op =>
      obtain ⟨s, -, rfl⟩ := Option.map_eq_some_iff.mp hdevice
      apply h.record
      intro id hid
      exact Store.historyChange_congr (not_not.mp hid)
  | start batch =>
      rw [HistoryDevice.step] at hdevice
      split at hdevice
      · cases hdevice
        exact h
      · cases hdevice
  | pushed seqs =>
      rw [HistoryDevice.step] at hdevice
      split at hdevice
      · split at hdevice
        · cases hdevice
          exact h
        · cases hdevice
      · cases hdevice
  | mark =>
      rw [HistoryDevice.step] at hdevice
      split at hdevice
      · rename_i e answered rest since hphase
        cases hdevice
        dsimp only [journalAfter]
        rw [hphase]
        exact kept_mark h (hspares e answered rest since hphase)
      · cases hdevice
  | pulled resp =>
      rw [HistoryDevice.step] at hdevice
      split at hdevice
      · cases hdevice
        have hkept := kept_applyRemoteHistory h hspares
        intro id c hc
        rw [← hkept id c hc]
        apply Store.historyChange_congr
        exact Store.historyRow_pulledPage
      · cases hdevice
  | abort =>
      cases hdevice
      exact h

/-- In every run whose marks and pulls spare the unpushed changes, every unpushed change is waiting
in its row in every state reached. -/
theorem historyKept_of_reaches {d : JournaledHistory} (h : historySystem.Reaches SparesHistory d) :
  HistoryKept d
  := by
  apply h.invariant
  · rintro d ⟨-, hjournal⟩ id c hc
    rw [hjournal, Store.dirtyChange] at hc
    obtain ⟨r, hrow, hchange⟩ := Option.bind_eq_some_iff.mp hc
    rw [Store.historyChange, hrow]
    exact hchange
  · intro d l d' h hspares hstep
    exact historyKept_step h hspares hstep

end

/-! ### Deleting what is being pushed -/

open Symbolic

/-- A device about to push an edited connection that the server knows under number five. -/
def editedConnection : JournaledHistory where
  device :=
    { store :=
        { vaults := .empty, entities := .empty
          history := ⟨[⟨7, .connection, 2, "edited", 1, 0, 5, false, true⟩], by decide⟩
          sessionLogs := .empty, account := some ⟨1, "user", none, none, 5, 0⟩, files _ := none }
      phase := .idle }
  journal id := if id = 7 then some (.saved "edited" 1) else none

theorem init_editedConnection :
  historySystem.init editedConnection
  := by
  refine ⟨rfl, ?_⟩
  funext id
  by_cases hid : id = 7
  · subst hid
    rfl
  · have hrow : editedConnection.device.store.historyRow id = none := by
      apply Table.get?_eq_none_iff.mpr
      intro r hr
      rw [List.mem_singleton.mp hr]
      exact Ne.symm hid
    rw [Store.dirtyChange, hrow]
    exact if_neg hid

/-- The journal is kept when the user deletes the connection before a pass pushes the
tombstone, and the answer is marked. -/
theorem historyKept_deletedConnection :
  ∃ d, historySystem.run editedConnection
      [.edit (.deleteHistory 7), .start 500, .pushed [6], .mark] = some d ∧ HistoryKept d
  := by
  obtain ⟨d, hrun⟩ : ∃ d, historySystem.run editedConnection
      [.edit (.deleteHistory 7), .start 500, .pushed [6], .mark] = some d := ⟨_, rfl⟩
  refine ⟨d, hrun, ?_⟩
  apply historyKept_of_reaches
  apply TransitionSystem.Reaches.run (.init init_editedConnection) _ hrun
  refine ⟨trivial, fun d₁ h₁ => ⟨trivial, fun d₂ h₂ => ⟨trivial, fun d₃ h₃ => ⟨?_, ?_⟩⟩⟩⟩
  · obtain rfl := Option.some.inj h₁
    obtain rfl := Option.some.inj h₂
    obtain rfl := Option.some.inj h₃
    intro e answered rest since hphase
    cases hphase
    intro r hrow _
    cases hrow
    rfl
  · exact fun _ _ => trivial

/-- The user deletes the connection while it is pushed, and the answer is marked. -/
def lostConnection : JournaledHistory :=
  (historySystem.run editedConnection
    [.start 500, .edit (.deleteHistory 7), .pushed [6], .mark]).get (by decide)

/-- The mark erases the tombstone that the server has not received. -/
theorem not_historyKept_lostConnection :
  ¬ ∀ d : JournaledHistory, historySystem.Reachable d → HistoryKept d
  := by
  intro h
  have hreach : historySystem.Reachable lostConnection :=
    TransitionSystem.reachable_run init_editedConnection _
  have hkept := h lostConnection hreach 7 .tombstone (by decide)
  exact absurd hkept (by decide)

end Termoso.Core
