import Termoso.Server.Feeds
import Termoso.Core.HistorySync

/-!
# Clearing history on every device

The server clears the history of a user, or one kind of it, and a device then pulls from its
cursor until nothing is left.  The device learns of the clear from the tombstones it pulls.

A clear purges the tombstones of entries made more than thirty days ago together with those
it has just made, and gives all it makes one sequence number.  So a device drops its clean
copies of the cleared entries exactly when none of them is that old and no page ends between
two tombstones of one number.
-/

namespace Termoso

open Server (Db)

namespace Server.Db

/-! ### The rows after a clear -/

/-- Whether a clear is about the entries of a kind. -/
def ofKind (kind : Option HistoryKind) (r : HistoryRow) : Bool :=
  kind.all (fun k => decide (r.kind = k))

/-- A row after a clear: a tombstone under the number of the clear, when it was live and of the
kind cleared. -/
def clearedRow (kind : Option HistoryKind) (seq : ℤ) (r : HistoryRow) : HistoryRow :=
  if !r.deleted && ofKind kind r then { r with deleted := true, data := "", seq } else r

/-- Whether a clear purges a tombstone of this age. -/
def purged (now : DateTime) (r : HistoryRow) : Bool := decide (r.createdAt < now - 30 * day)

/-- The rows of a user after a clear. -/
def afterClear (db : Db) (userId : Uuid) (kind : Option HistoryKind) (now : DateTime) :
    List HistoryRow :=
  ((db.userHistory userId).map (clearedRow kind (db.userHistorySeq userId + 1))).filter
    (fun r => !(r.deleted && purged now r))

section
variable {db db' : Db} {userId : Uuid} {kind : Option HistoryKind} {now : DateTime}

theorem id_clearedRow (seq : ℤ) (r : HistoryRow) :
  (clearedRow kind seq r).id = r.id
  := by
  rw [clearedRow]
  split <;> rfl

theorem createdAt_clearedRow (seq : ℤ) (r : HistoryRow) :
  (clearedRow kind seq r).createdAt = r.createdAt
  := by
  rw [clearedRow]
  split <;> rfl

/-- A row of the kind cleared is a tombstone. -/
theorem deleted_clearedRow (seq : ℤ) {r : HistoryRow} (h : ofKind kind r = true) :
  (clearedRow kind seq r).deleted = true
  := by
  rw [clearedRow, h, Bool.and_true]
  cases hdel : r.deleted with
  | true => simpa using hdel
  | false => rfl

/-- A statement that changes the rows of one user, and keeps their user, changes them alone. -/
theorem filter_map_filter {R : Type*} {u p q : R → Bool} {f g : R → R} {rows : List R}
    (hu : ∀ r, u (f r) = u r) (hf : ∀ r, u r = true → f r = g r)
    (hp : ∀ r, u r = true → p (g r) = q (g r)) :
  ((rows.map f).filter p).filter u = ((rows.filter u).map g).filter q
  := by
  induction rows with
  | nil => rfl
  | cons r rows ih =>
      cases hr : u r with
      | true =>
          rw [List.map_cons, List.filter_cons_of_pos hr, List.map_cons, List.filter_cons,
            List.filter_cons, ← hp r hr, hf r hr]
          cases p (g r) with
          | true =>
              have hg : u (g r) = true := by rw [← hf r hr, hu, hr]
              simp only [if_true]
              rw [List.filter_cons_of_pos hg, ih]
          | false => simpa using ih
      | false =>
          have hfr : ¬ u (f r) = true := by simp [hu, hr]
          have hr : ¬ u r = true := by simp [hr]
          rw [List.map_cons, List.filter_cons_of_neg hr, List.filter_cons, ← ih]
          cases p (f r) with
          | true => simp only [if_true, List.filter_cons_of_neg hfr]
          | false => rfl

/-- A clear leaves the rows described. -/
theorem userHistory_historyClear (h : db.historyClear userId kind now = .ok db') :
  db'.userHistory userId = db.afterClear userId kind now
  := by
  simp only [historyClear, bind_eq_ok, pure_eq_ok, Prod.exists] at h
  obtain ⟨seq, db₁, hseq, rfl⟩ := h
  obtain ⟨hnext, -, -, hrest⟩ := nextHistorySeq_eq_ok hseq
  have hrows : db₁.historyEntries = db.historyEntries := by rw [hrest]
  rw [afterClear, userHistory, userHistory, ← hnext]
  simp only [Table.select, Table.delete, Table.update, hrows]
  apply filter_map_filter
  · intro r
    split <;> rfl
  · intro r huser
    simp only [huser, Bool.true_and]
    rfl
  · intro r huser
    have hcleared : decide ((clearedRow kind seq r).userId = userId) = true := by
      rw [← huser, clearedRow]
      split <;> rfl
    simp only [hcleared, Bool.true_and, purged]

/-- The answers of the history feed are the pages of a feed. -/
theorem pages_historyPull (db : Db) (userId : Uuid) (limit : Option ℕ) :
  Core.Store.pages (fun since => db.historyPull userId since limit)
    = db.historyPages userId (clampLimit limit)
  := rfl

/-- The history feed answers in order. -/
theorem inOrder_historyPull (db : Db) (userId : Uuid) (limit : Option ℕ) :
  Core.Store.InOrder (fun since => db.historyPull userId since limit)
  := by
  have hpage (since : ℤ) := historyPages_eq db (clampLimit limit) userId since
  have hentries : ∀ since, (db.historyPull userId since limit).entries
      = (Paging.page HistoryRow.seq (db.userHistory userId) (clampLimit limit) since).1.map
          HistoryRow.toEntry :=
    fun since => congrArg Prod.fst (hpage since)
  have hsince : ∀ since, (db.historyPull userId since limit).since
      = (Paging.page HistoryRow.seq (db.userHistory userId) (clampLimit limit) since).2.1 :=
    fun since => congrArg (fun p => p.2.1) (hpage since)
  have hmore : ∀ since, (db.historyPull userId since limit).hasMore
      = (Paging.page HistoryRow.seq (db.userHistory userId) (clampLimit limit) since).2.2 :=
    fun since => congrArg (fun p => p.2.2) (hpage since)
  have hle : ∀ since, since
      ≤ (Paging.page HistoryRow.seq (db.userHistory userId) (clampLimit limit) since).2.1 := by
    intro since
    apply Paging.le_cursorAfter
    intro r hr
    exact le_of_lt (Paging.mem_newer.mp (List.mem_of_mem_take hr)).2
  constructor
  · intro since
    rw [Core.nextSince, hsince, hentries, List.map_map]
    apply max_eq_right
    cases hmax : (List.map (HistoryEntry.seq ∘ HistoryRow.toEntry)
        (Paging.page HistoryRow.seq (db.userHistory userId) (clampLimit limit) since).1).max? with
    | none => exact hle since
    | some m =>
        obtain ⟨r, hr, rfl⟩ := List.mem_map.mp (List.max?_mem hmax)
        apply Paging.seq_le_cursorAfter _ since hr
        exact (Paging.newer_pairwise _ _ _).sublist (List.take_sublist _ _)
  · intro since
    rw [hsince]
    exact hle since
  · intro since hnil
    rw [hentries, List.map_eq_nil_iff] at hnil
    rw [hmore]
    have hpos := one_le_clampLimit limit
    have hlength := congrArg List.length hnil
    simp only [Paging.page, List.length_take, List.length_nil] at hlength ⊢
    rw [decide_eq_false_iff_not]
    omega

end

end Server.Db

/-! ### Clearing -/

open Core (Store)

/-- The history of a device is consistent with its cursor: the account is signed in, the cursor is a
number the server gave out, and no entry that the server deleted up to the cursor is held clean. -/
structure Consistent (db : Db) (userId : Uuid) (s : Store) (since : ℤ) : Prop where
  signedIn : s.personalVault.isSome
  cursor : since ≤ db.userHistorySeq userId
  gone : ∀ e ∈ db.historyEntries.rows, e.userId = userId → e.deleted = true → e.seq ≤ since →
    ∀ r, s.historyRow e.id = some r → r.dirty = true

/-- A device holds no clean copy of an entry of a kind that a user has on the server. -/
def HoldsNone (db : Db) (userId : Uuid) (kind : Option HistoryKind) (s : Store) : Prop :=
  ∀ e ∈ db.historyEntries.rows, e.userId = userId → Server.Db.ofKind kind e = true →
    ∀ r, s.historyRow e.id = some r → r.dirty = true

/-- The clear of a user's history, or of one kind of it, reaches a device that pulls from its
cursor until the server has no more. -/
def ClearReaches (db db' : Db) (userId : Uuid) (kind : Option HistoryKind) (limit : Option ℕ)
    (s : Store) (since : ℤ) : Prop :=
  ∃ fuel s', s.pullHistory (fun since => db'.historyPull userId since limit) fuel since = some s'
    ∧ HoldsNone db userId kind s'

/-- A row of the cleared history with the identifier of an entry is that entry, cleared. -/
theorem eq_clearedRow {db : Db} {userId : Uuid} {kind : Option HistoryKind} {now : DateTime}
    {e r : Server.HistoryRow} (he : e ∈ db.historyEntries.rows)
    (hr : r ∈ db.afterClear userId kind now) (hid : r.id = e.id) :
  r = Server.Db.clearedRow kind (db.userHistorySeq userId + 1) e
  := by
  obtain ⟨r', hr', rfl⟩ := List.mem_map.mp (List.mem_filter.mp hr).1
  rw [Server.Db.id_clearedRow] at hid
  rw [Table.eq_of_mem (List.mem_filter.mp hr').1 he hid]

/-- The tombstone of an entry that a consistent device holds clean is in the feed past its cursor,
unless the entry is so old that the clear purges it. -/
theorem mem_newer_clearedRow {db : Db} {userId : Uuid} {kind : Option HistoryKind} {now : DateTime}
    {s : Store} {since : ℤ} (hs : Consistent db userId s since) {e : Server.HistoryRow}
    (he : e ∈ db.historyEntries.rows) (huser : e.userId = userId)
    (hkind : Server.Db.ofKind kind e = true) {r : Core.HistoryRow}
    (hrow : s.historyRow e.id = some r) (hclean : r.dirty = false) :
  Server.Db.clearedRow kind (db.userHistorySeq userId + 1) e
      ∈ Paging.newer Server.HistoryRow.seq (db.afterClear userId kind now) since
    ↔ now - 30 * day ≤ e.createdAt
  := by
  have hmem : e ∈ db.userHistory userId := List.mem_filter.mpr ⟨he, by simpa using huser⟩
  have hseq : since < (Server.Db.clearedRow kind (db.userHistorySeq userId + 1) e).seq := by
    rw [Server.Db.clearedRow, hkind, Bool.and_true]
    cases hdel : e.deleted with
    | true =>
        by_contra hge
        have := hs.gone e he huser hdel (not_lt.mp hge) r hrow
        rw [hclean] at this
        cases this
    | false =>
        have := hs.cursor
        change since < db.userHistorySeq userId + 1
        omega
  rw [Paging.mem_newer, Server.Db.afterClear, List.mem_filter, Server.Db.deleted_clearedRow _ hkind,
    Bool.true_and, Server.Db.purged, Server.Db.createdAt_clearedRow]
  simp only [Bool.not_eq_true', decide_eq_false_iff_not, not_lt]
  constructor
  · rintro ⟨⟨-, hold⟩, -⟩
    exact hold
  · intro hold
    exact ⟨⟨List.mem_map_of_mem hmem, hold⟩, hseq⟩

/-- The clear reaches the device if and only if every entry of the kind that the device holds clean
was made in the last thirty days, and its tombstone is not passed over in the feed. -/
theorem clearReaches_iff {db db' : Db} {userId : Uuid} {kind : Option HistoryKind} {now : DateTime}
    {s : Store} {since : ℤ} (hs : Consistent db userId s since)
    (hclear : db.historyClear userId kind now = .ok db') (limit : Option ℕ) :
  ClearReaches db db' userId kind limit s since
    ↔ ∀ e ∈ db.historyEntries.rows, e.userId = userId → Server.Db.ofKind kind e = true →
        ∀ r, s.historyRow e.id = some r → r.dirty = false →
          now - 30 * day ≤ e.createdAt
          ∧ ¬ Paging.Passed Server.HistoryRow.seq (clampLimit limit)
              (Paging.newer Server.HistoryRow.seq (db.afterClear userId kind now) since)
              (Server.Db.clearedRow kind (db.userHistorySeq userId + 1) e)
  := by
  obtain ⟨personal, hpersonal⟩ := Option.isSome_iff_exists.mp hs.signedIn
  have hpos := one_le_clampLimit limit
  have hafter := Server.Db.userHistory_historyClear hclear
  have hnodup : (db'.userHistory userId).Nodup := List.Nodup.filter _ db'.historyEntries.nodup.of_map
  obtain ⟨rows, hrows, -, -, -⟩ := Paging.mem_pullAll_iff_unsplit hnodup hpos since
    (Nat.lt_succ_self (Paging.newer Server.HistoryRow.seq (db'.userHistory userId) since).length)
  have hread := Paging.mem_pullAll_iff_not_passed hnodup hpos hrows
  rw [hafter] at hread
  have hgot := Paging.pullAll_map Server.HistoryRow.toEntry
    (Server.Db.historyPages_eq db' (clampLimit limit) userId)
    (Paging.newer Server.HistoryRow.seq (db'.userHistory userId) since).length.succ since
  rw [hrows, ← Server.Db.pages_historyPull, Option.map_some] at hgot
  obtain ⟨s', hs', hrow⟩ := Core.Store.pullHistory_of_pullAll
    (Server.Db.inOrder_historyPull db' userId limit) hpersonal hgot
  have hrow : ∀ e ∈ db.historyEntries.rows, e.userId = userId → Server.Db.ofKind kind e = true →
      s'.historyRow e.id
        = if Server.Db.clearedRow kind (db.userHistorySeq userId + 1) e ∈ rows then none
          else s.historyRow e.id := by
    intro e he huser hkind
    have hcleared : ∀ r ∈ rows, r.id = e.id →
        r = Server.Db.clearedRow kind (db.userHistorySeq userId + 1) e := by
      intro r hr hid
      exact eq_clearedRow he (Paging.mem_newer.mp ((hread r).mp hr).1).1 hid
    rw [hrow e.id]
    · congr 1
      apply propext
      constructor
      · rintro ⟨g, hg, hid⟩
        obtain ⟨r, hr, rfl⟩ := List.mem_map.mp hg
        rw [← hcleared r hr hid]
        exact hr
      · intro hr
        exact ⟨_, List.mem_map_of_mem hr, Server.Db.id_clearedRow _ _⟩
    · intro g hg hid
      obtain ⟨r, hr, rfl⟩ := List.mem_map.mp hg
      rw [hcleared r hr hid]
      exact Server.Db.deleted_clearedRow _ hkind
  constructor
  · rintro ⟨fuel, s'', hs'', hnone⟩ e he huser hkind r hr hclean
    rw [Core.Store.pullHistory_unique hs'' hs'] at hnone
    have hdelivered : Server.Db.clearedRow kind (db.userHistorySeq userId + 1) e ∈ rows := by
      by_contra hlost
      have hkept := hrow e he huser hkind
      rw [if_neg hlost, hr] at hkept
      have := hnone e he huser hkind r hkept
      rw [hclean] at this
      cases this
    obtain ⟨hnewer, hnot⟩ := (hread _).mp hdelivered
    exact ⟨(mem_newer_clearedRow hs he huser hkind hr hclean).mp hnewer, hnot⟩
  · intro hall
    refine ⟨_, s', hs', ?_⟩
    intro e he huser hkind r hr
    by_contra hdirty
    have hclean : r.dirty = false := by simpa using hdirty
    rw [hrow e he huser hkind] at hr
    split at hr
    · cases hr
    · rename_i hlost
      obtain ⟨hold, hnot⟩ := hall e he huser hkind r hr hclean
      apply hlost
      exact (hread _).mpr ⟨(mem_newer_clearedRow hs he huser hkind hr hclean).mpr hold, hnot⟩

/-! ### One command -/

/-- A server with one command of one user, made at time zero. -/
def oneCommand : Db :=
  { Server.Db.blank with
    users := ⟨[⟨1, "user", none, none, false, false, 1, 0⟩], by decide⟩
    historyEntries := ⟨[⟨1, 1, .command, "", 1, 0, 1, false⟩], by decide⟩ }

/-- The server after the command is cleared a month later. -/
def purgedCommand : Db :=
  { oneCommand with
    users := ⟨[⟨1, "user", none, none, false, false, 2, 0⟩], by decide⟩
    historyEntries := .empty }

/-- The device that pulled the command. -/
def pulledCommand : Store where
  vaults := ⟨[⟨2, .personal, "Personal", none, .manager, none, 1, 0, false, 0, true⟩], by decide⟩
  entities := .empty
  history := ⟨[⟨1, .command, 2, "", 1, 0, 1, false, false⟩], by decide⟩
  sessionLogs := .empty
  account := some ⟨1, "user", none, none, 1, 0⟩
  files _ := none

theorem consistent_pulledCommand :
  Consistent oneCommand 1 pulledCommand 1
  := by
  constructor
  · decide
  · decide
  · intro e he _ hdel
    rw [List.mem_singleton.mp he] at hdel
    cases hdel

/-- A command cleared on the day it was made is gone from the device. -/
theorem clearReaches_oneCommand :
  ∃ db', oneCommand.historyClear 1 none 0 = .ok db'
    ∧ ClearReaches oneCommand db' 1 none none pulledCommand 1
  := by
  have hclear : oneCommand.historyClear 1 none 0 = .ok _ := rfl
  refine ⟨_, hclear, ?_⟩
  apply (clearReaches_iff consistent_pulledCommand hclear none).mpr
  intro e he _ _ r _ _
  refine ⟨?_, ?_⟩
  · rw [List.mem_singleton.mp he]
    decide
  · apply Paging.not_passed_of_length_le
    decide

/-- A command cleared a month after it was made stays on the device. -/
theorem not_clearReaches_oneCommand :
  ¬ ∀ (db db' : Db) (userId : Uuid) (kind : Option HistoryKind) (now : DateTime) (s : Store)
      (since : ℤ) (limit : Option ℕ), Consistent db userId s since →
      db.historyClear userId kind now = .ok db' → ClearReaches db db' userId kind limit s since
  := by
  intro h
  obtain ⟨fuel, s', hs', hnone⟩ := h oneCommand purgedCommand 1 none (31 * day) pulledCommand 1 none
    consistent_pulledCommand rfl
  have hpull : pulledCommand.pullHistory (fun since => purgedCommand.historyPull 1 since none) 1 1
      = some pulledCommand := rfl
  rw [Core.Store.pullHistory_unique hs' hpull] at hnone
  have := hnone _ List.mem_cons_self rfl rfl _ rfl
  cases this

end Termoso
