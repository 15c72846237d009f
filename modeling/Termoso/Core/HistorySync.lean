import Termoso.Core.History
import Termoso.Lib.Paging
import Termoso.Lib.Transition

/-!
# Synchronizing history

A device pushes its dirty history rows in chunks, marks the rows of each answer clean, and
pulls pages from its cursor until the server has no more.
-/

namespace Termoso.Core

/-! ### The pull loop -/

/-- The cursor after a pulled page. -/
def nextSince (since : ℤ) (resp : HistoryPullResponse) : ℤ :=
  max (((resp.entries.map HistoryEntry.seq).max?).getD since) resp.since

/-- Whether the pull loop stops after a page. -/
def lastPage (resp : HistoryPullResponse) : Bool := !resp.hasMore || resp.entries.isEmpty

namespace Store

/-- Apply a pulled page, and move the cursor past it. -/
def pulledPage (s : Store) (since : ℤ) (resp : HistoryPullResponse) : Store × ℤ :=
  let s := s.applyRemoteHistory resp.entries
  let next := nextSince since resp
  if next > since then (s.setAccountCursors (some next) none, next) else (s, since)

/-- Pull pages from a cursor until the server has no more. At most `fuel` pages are pulled; the
result is `none` when they do not suffice. -/
def pullHistory (pull : ℤ → HistoryPullResponse) : ℕ → ℤ → Store → Option Store
  | 0, _, _ => none
  | fuel + 1, since, s =>
    let page := s.pulledPage since (pull since)
    if lastPage (pull since) then some page.1 else pullHistory pull fuel page.2 page.1

section
variable {s : Store} {since : ℤ} {id : Uuid}

@[simp]
theorem vaults_setAccountCursors {history logs : Option ℤ} :
  (s.setAccountCursors history logs).vaults = s.vaults
  := rfl

@[simp]
theorem historyRow_setAccountCursors {history logs : Option ℤ} :
  (s.setAccountCursors history logs).historyRow id = s.historyRow id
  := rfl

@[simp]
theorem vaults_applyRemoteHistory {entries : List HistoryEntry} :
  (s.applyRemoteHistory entries).vaults = s.vaults
  := by
  rw [applyRemoteHistory]
  split
  · rfl
  · rename_i personal _
    induction entries generalizing s with
    | nil => rfl
    | cons e entries ih =>
        rw [List.foldl_cons, ih, vaults_applyRemoteEntry]
        rw [personalVault, listVaults, vaults_applyRemoteEntry]
        assumption

theorem vaults_pulledPage {resp : HistoryPullResponse} :
  (s.pulledPage since resp).1.vaults = s.vaults
  := by
  rw [pulledPage]
  split
  · rw [vaults_setAccountCursors, vaults_applyRemoteHistory]
  · rw [vaults_applyRemoteHistory]

/-- The personal vault depends on the vaults only. -/
theorem personalVault_congr {s' : Store} (h : s'.vaults = s.vaults) :
  s'.personalVault = s.personalVault
  := by
  rw [personalVault, listVaults, h]
  rfl

/-- Entries that mention a row only to delete it leave it gone when they mention it, and as it was
otherwise. -/
theorem historyRow_applyRemoteHistory_of_deleted {personal : LocalVault}
    (hpersonal : s.personalVault = some personal) {entries : List HistoryEntry}
    (h : ∀ e ∈ entries, e.id = id → e.deleted = true) :
  (s.applyRemoteHistory entries).historyRow id
    = if ∃ e ∈ entries, e.id = id then none else s.historyRow id
  := by
  rw [applyRemoteHistory, hpersonal]
  dsimp only
  clear hpersonal
  induction entries generalizing s with
  | nil => simp
  | cons e entries ih =>
      rw [List.foldl_cons, ih (fun e' he' => h e' (List.mem_cons_of_mem _ he')),
        historyRow_applyRemoteEntry]
      by_cases hid : id = e.id
      · have hdel := h e List.mem_cons_self hid.symm
        simp [hid, hdel]
      · simp [hid, Ne.symm hid]

theorem historyRow_pulledPage {resp : HistoryPullResponse} :
  (s.pulledPage since resp).1.historyRow id = (s.applyRemoteHistory resp.entries).historyRow id
  := by
  rw [pulledPage]
  split <;> rfl

end

/-! ### The pull loop and its pages -/

/-- A server that answers in order: a page never goes back, its cursor is the largest number on
it, and an empty page is the last. -/
structure InOrder (pull : ℤ → HistoryPullResponse) : Prop where
  next : ∀ since, nextSince since (pull since) = (pull since).since
  le : ∀ since, since ≤ (pull since).since
  empty : ∀ since, (pull since).entries = [] → (pull since).hasMore = false

/-- The answers of a server as pages. -/
def pages (pull : ℤ → HistoryPullResponse) (since : ℤ) : List HistoryEntry × ℤ × Bool :=
  ((pull since).entries, (pull since).since, (pull since).hasMore)

section
variable {pull : ℤ → HistoryPullResponse} (hpull : InOrder pull) {s : Store} {since : ℤ}
include hpull

theorem pulledPage_since :
  (s.pulledPage since (pull since)).2 = (pull since).since
  := by
  have hle := hpull.le since
  rw [pulledPage, hpull.next]
  split
  · rfl
  · exact le_antisymm hle (not_lt.mp (by assumption))

theorem lastPage_iff :
  lastPage (pull since) = true ↔ (pull since).hasMore = false
  := by
  rw [lastPage, Bool.or_eq_true, Bool.not_eq_true', List.isEmpty_iff]
  exact ⟨fun h => h.elim (fun h => h) (hpull.empty since), .inl⟩

/-- The loop ends where reading the pages ends, with the rows that the entries read delete gone and
the others as they were. -/
theorem pullHistory_of_pullAll {personal : LocalVault} (hpersonal : s.personalVault = some personal)
    {fuel : ℕ} {got : List HistoryEntry} (h : Paging.pullAll (pages pull) fuel since = some got) :
  ∃ s', s.pullHistory pull fuel since = some s'
    ∧ ∀ id, (∀ e ∈ got, e.id = id → e.deleted = true) →
        s'.historyRow id = if ∃ e ∈ got, e.id = id then none else s.historyRow id
  := by
  induction fuel generalizing s since got with
  | zero => cases h
  | succ fuel ih =>
      rw [pullHistory]
      cases hmore : (pull since).hasMore with
      | false =>
          have hlast : (pages pull since).2.2 = false := hmore
          rw [Paging.pullAll_last hlast] at h
          cases h
          rw [if_pos ((lastPage_iff hpull).mpr hmore)]
          refine ⟨_, rfl, ?_⟩
          intro id hdel
          rw [historyRow_pulledPage]
          exact historyRow_applyRemoteHistory_of_deleted hpersonal hdel
      | true =>
          have hnext : (pages pull since).2.2 = true := hmore
          rw [Paging.pullAll_next hnext, Option.map_eq_some_iff] at h
          obtain ⟨rest, hrest, rfl⟩ := h
          have hnot : ¬ lastPage (pull since) = true := by
            rw [lastPage_iff hpull, hmore]
            simp
          rw [if_neg hnot, pulledPage_since hpull]
          have hpersonal' : (s.pulledPage since (pull since)).1.personalVault = some personal := by
            rw [personalVault_congr vaults_pulledPage, hpersonal]
          obtain ⟨s', hs', hrow⟩ := ih hpersonal' hrest
          refine ⟨s', hs', ?_⟩
          intro id hdel
          have hfirst : ∀ e ∈ (pull since).entries, e.id = id → e.deleted = true :=
            fun e he => hdel e (List.mem_append_left _ he)
          rw [hrow id (fun e he => hdel e (List.mem_append_right _ he)), historyRow_pulledPage,
            historyRow_applyRemoteHistory_of_deleted hpersonal hfirst]
          have hsplit : (∃ e ∈ (pages pull since).1 ++ rest, e.id = id)
              ↔ (∃ e ∈ (pull since).entries, e.id = id) ∨ ∃ e ∈ rest, e.id = id := by
            simp only [pages, List.mem_append, or_and_right, exists_or]
          by_cases hpage : ∃ e ∈ (pull since).entries, e.id = id
          · rw [if_pos hpage, if_pos (hsplit.mpr (.inl hpage)), ite_self]
          · rw [if_neg hpage]
            congr 1
            rw [hsplit]
            simp only [hpage, false_or]

end

/-- Pull loops that end, end in the same store. -/
theorem pullHistory_unique {pull : ℤ → HistoryPullResponse} {fuel fuel' : ℕ} {since : ℤ}
    {s s₁ s₂ : Store} (h : s.pullHistory pull fuel since = some s₁)
    (h' : s.pullHistory pull fuel' since = some s₂) :
  s₁ = s₂
  := by
  induction fuel generalizing fuel' since s with
  | zero => cases h
  | succ fuel ih =>
      cases fuel' with
      | zero => cases h'
      | succ fuel' =>
          rw [pullHistory] at h h'
          split at h
          · rename_i hlast
            rw [if_pos hlast] at h'
            cases h
            cases h'
            rfl
          · rename_i hlast
            rw [if_neg hlast] at h'
            exact ih h h'

end Store

/-! ### A pass, step by step -/

/-- Where a pass stands. -/
inductive HistoryPhase
  /-- No pass is running. -/
  | idle
  /-- A chunk of the snapshot is with the server. -/
  | pushing (chunk : List HistoryEntry) (rest : List (List HistoryEntry)) (since : ℤ)
  /-- The rows of an answer are being marked. -/
  | marking (answered : List HistoryEntry) (rest : List (List HistoryEntry)) (since : ℤ)
  /-- A page past a cursor is asked for. -/
  | pulling (since : ℤ)
deriving DecidableEq

namespace HistoryPhase

/-- Push the next chunk, or start to pull. -/
def next : List (List HistoryEntry) → ℤ → HistoryPhase
  | [], since => .pulling since
  | chunk :: rest, since => .pushing chunk rest since

/-- Mark what is left of an answer, or go on. -/
def marks : List HistoryEntry → List (List HistoryEntry) → ℤ → HistoryPhase
  | [], rest, since => next rest since
  | e :: answered, rest, since => .marking (e :: answered) rest since

end HistoryPhase

/-- A device and its pass. -/
structure HistoryDevice where
  store : Store
  phase : HistoryPhase

/-- An operation of the user on history. -/
inductive HistoryOp
  | recordCommand (data : CommandHistory) (id : Uuid) (now : DateTime) (nonce : Nonce)
  | recordConnection (data : ConnectionHistory) (id : Uuid) (now : DateTime) (nonce : Nonce)
  | updateConnection (id : Uuid) (data : ConnectionHistory) (nonce : Nonce)
  | deleteHistory (id : Uuid)
  | clearHistory (kind : Option HistoryKind)

/-- A step of the device: an operation of the user, or a step of the pass. The server answers a
chunk with its entries under their new numbers. -/
inductive HistoryStep
  | edit (op : HistoryOp)
  | start (batch : ℕ)
  | pushed (seqs : List ℤ)
  | mark
  | pulled (resp : HistoryPullResponse)
  | abort

section
variable [Primitives] [Serde CommandHistory] [Serde ConnectionHistory]

/-- The store after an operation of the user. -/
def Store.editHistory (s : Store) : HistoryOp → Except CoreError Store
  | .recordCommand data id now nonce => s.recordCommand data id now nonce
  | .recordConnection data id now nonce => s.recordConnection data id now nonce
  | .updateConnection id data nonce => s.updateConnection id data nonce
  | .deleteHistory id => .ok (s.deleteHistory id)
  | .clearHistory kind => .ok (s.clearHistory kind)

/-- The device after a step, when the step is possible. -/
def HistoryDevice.step (d : HistoryDevice) : HistoryStep → Option HistoryDevice
  | .edit op => (d.store.editHistory op).toOption.map (fun s => { d with store := s })
  | .start batch =>
    match d.phase, d.store.account with
    | .idle, some account =>
      some { d with
        phase := .next (d.store.dirtyHistory.toChunks (clampLimit (some batch)))
          account.historyCursor }
    | _, _ => none
  | .pushed seqs =>
    match d.phase with
    | .pushing chunk rest since =>
      if seqs.length = chunk.length then
        some { d with phase := .marks (chunk.zipWith (fun e seq => { e with seq }) seqs) rest since }
      else none
    | _ => none
  | .mark =>
    match d.phase with
    | .marking (e :: answered) rest since =>
      some ⟨d.store.markHistoryPushed [e.id] e.seq, .marks answered rest since⟩
    | _ => none
  | .pulled resp =>
    match d.phase with
    | .pulling since =>
      let (s, since) := d.store.pulledPage since resp
      some ⟨s, if lastPage resp then .idle else .pulling since⟩
    | _ => none
  | .abort => some { d with phase := .idle }

end

end Termoso.Core
