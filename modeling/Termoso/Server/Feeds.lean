import Termoso.Server.Writes
import Mathlib.Algebra.BigOperators.Group.List.Basic

/-!
# Reading the feeds page by page

The server has three kinds of feeds: the entities of a vault, the history of a user, and the
session logs of a user or of a vault.  A client pulls pages of a feed until the server says
that none is left.

Entities and logs are stamped with distinct numbers in every database the write handlers can
make, so their feeds are read completely.  The entries tombstoned by one history clear share a
number; the history feed is read completely exactly when no page ends between two of them.
-/

namespace Termoso.Server

/-! ### A page over several vaults -/

namespace Db

variable {db : Db} {auth : Auth} {limit : ℕ}

/-- The rows of a vault that a page can show to a user: those newer than a cursor, when the
user can read the vault. -/
def shown (db : Db) (auth : Auth) (vaultId : Uuid) (since : ℤ) : List SyncEntity :=
  if db.readable auth vaultId then Paging.newer SyncEntity.seq (db.vaultEntities vaultId) since
  else []

theorem mem_shown {vaultId : Uuid} {since : ℤ} {e : SyncEntity} :
  e ∈ db.shown auth vaultId since
    ↔ db.readable auth vaultId = true ∧ e ∈ db.entities.rows ∧ e.vaultId = vaultId
      ∧ since < e.seq
  := by
  rw [shown]
  split
  · rename_i hread
    rw [Paging.mem_newer, vaultEntities, Table.select, List.mem_filter]
    simp [hread, and_assoc]
  · rename_i hread
    simp [hread]

/-- Rows of one vault have distinct sequence numbers. -/
def EntitySeqsDistinct (db : Db) : Prop :=
  ∀ vaultId, ((db.vaultEntities vaultId).map SyncEntity.seq).Nodup

/-- A page holds at most `limit` rows, and is full when more is left. -/
def PullState.Full (limit : ℕ) (st : PullState) : Prop :=
  st.entities.length ≤ limit ∧ (st.hasMore = true → st.entities.length = limit)

theorem full_empty (limit : ℕ) :
  PullState.Full limit ⟨.empty, [], false⟩
  := ⟨Nat.zero_le _, fun h => by cases h⟩

/-- One vault adds to a page the first of its rows, and the cursor returned leaves the others;
when the page says that nothing is left, none is. -/
theorem pullVault_spec (auth : Auth) (hdistinct : db.EntitySeqsDistinct) {st : PullState} (hfull : st.Full limit)
    (vaultId : Uuid) (since : ℤ) :
  ∃ rows next,
    (db.pullVault auth limit st (vaultId, since)).entities = st.entities ++ rows
    ∧ rows ++ db.shown auth vaultId next = db.shown auth vaultId since
    ∧ (∀ u, (db.pullVault auth limit st (vaultId, since)).cursors.get? u
        = if u = vaultId then some (vaultId, next) else st.cursors.get? u)
    ∧ (db.pullVault auth limit st (vaultId, since)).Full limit
    ∧ (st.hasMore = true → (db.pullVault auth limit st (vaultId, since)).hasMore = true)
    ∧ ((db.pullVault auth limit st (vaultId, since)).hasMore = false →
        db.shown auth vaultId next = [])
  := by
  unfold pullVault
  dsimp only
  by_cases hmore : st.hasMore = true
  · rw [if_pos hmore]
    refine ⟨[], since, by simp, by simp, ?_, hfull, fun h => h, ?_⟩
    · intro u
      exact Cursors.get?_put _ _ _ _
    · intro h
      simp [hmore] at h
  rw [if_neg hmore]
  by_cases hread : db.readable auth vaultId = true
  swap
  · rw [if_pos (by simpa using hread)]
    refine ⟨[], since, by simp, by simp, ?_, hfull, fun h => h, ?_⟩
    · intro u
      exact Cursors.get?_put _ _ _ _
    · intro _
      simp [shown, hread]
  rw [if_neg (by simpa using hread)]
  by_cases hzero : limit - st.entities.length = 0
  · rw [if_pos hzero]
    refine ⟨[], since, by simp, by simp, ?_, ⟨hfull.1, ?_⟩, fun _ => rfl, fun h => by simp at h⟩
    · intro u
      exact Cursors.get?_put _ _ _ _
    · intro _
      have := hfull.1
      dsimp only
      omega
  rw [if_neg hzero]
  have hpos : 1 ≤ limit - st.entities.length := by omega
  have hnewer := Paging.newer_after_take (hdistinct vaultId) hpos since
  have htake : ((Paging.newer SyncEntity.seq (db.vaultEntities vaultId) since).take
      (limit - st.entities.length + 1)).take (limit - st.entities.length)
        = (Paging.newer SyncEntity.seq (db.vaultEntities vaultId) since).take
            (limit - st.entities.length) := by
    rw [List.take_take, Nat.min_eq_left (Nat.le_succ _)]
  rw [htake]
  generalize hrows : Paging.newer SyncEntity.seq (db.vaultEntities vaultId) since = rows at *
  generalize hremaining : limit - st.entities.length = remaining at *
  refine ⟨rows.take remaining, Paging.cursorAfter SyncEntity.seq since (rows.take remaining), rfl,
    ?_, ?_, ⟨?_, ?_⟩, fun h => absurd h hmore, ?_⟩
  · rw [shown, shown, if_pos hread, if_pos hread, hnewer, hrows, List.take_append_drop]
  · intro u
    dsimp only
    rw [Paging.cursorAfter]
    cases hlast : (rows.take remaining).getLast? with
    | none => exact Cursors.get?_put _ _ _ _
    | some last =>
        rw [Cursors.get?_put, Cursors.get?_put]
        split <;> rfl
  · dsimp only
    rw [List.length_append, List.length_take]
    omega
  · dsimp only
    intro h
    rw [decide_eq_true_eq, List.length_take] at h
    rw [List.length_append, List.length_take]
    have := hfull.1
    omega
  · dsimp only
    intro h
    rw [decide_eq_false_iff_not, List.length_take] at h
    rw [shown, if_pos hread, hnewer, List.drop_eq_nil_iff]
    omega

/-- A page over several vaults adds to each the first of its rows. -/
theorem foldl_pullVault (auth : Auth) (hdistinct : db.EntitySeqsDistinct) (wanted : List (Uuid × ℤ))
    (hnodup : (wanted.map Prod.fst).Nodup) {st : PullState} (hfull : st.Full limit) :
  ∃ (rows : Uuid → List SyncEntity) (next : Uuid → ℤ),
    (wanted.foldl (db.pullVault auth limit) st).entities
        = st.entities ++ wanted.flatMap (fun w => rows w.1)
    ∧ (∀ w ∈ wanted, rows w.1 ++ db.shown auth w.1 (next w.1) = db.shown auth w.1 w.2
        ∧ (wanted.foldl (db.pullVault auth limit) st).cursors.get? w.1 = some (w.1, next w.1))
    ∧ (∀ u, u ∉ wanted.map Prod.fst →
        (wanted.foldl (db.pullVault auth limit) st).cursors.get? u = st.cursors.get? u)
    ∧ (wanted.foldl (db.pullVault auth limit) st).Full limit
    ∧ (st.hasMore = true → (wanted.foldl (db.pullVault auth limit) st).hasMore = true)
    ∧ ((wanted.foldl (db.pullVault auth limit) st).hasMore = false →
        ∀ w ∈ wanted, db.shown auth w.1 (next w.1) = [])
  := by
  induction wanted generalizing st with
  | nil => exact ⟨fun _ => [], fun _ => 0, by simp, by simp, by simp, hfull, fun h => h, by simp⟩
  | cons w wanted ih =>
      obtain ⟨vaultId, since⟩ := w
      rw [List.map_cons, List.nodup_cons] at hnodup
      obtain ⟨hnotin, hnodup⟩ := hnodup
      dsimp only at hnotin
      obtain ⟨page, c, hpage, hsplit, hcursors, hfull', hkeep, hdone⟩ :=
        pullVault_spec auth hdistinct hfull vaultId since
      obtain ⟨rows, next, hent, hall, hother, hfull'', hkeep', hdone'⟩ := ih hnodup hfull'
      rw [List.foldl_cons]
      have hne : ∀ w ∈ wanted, w.1 ≠ vaultId := by
        intro w hw heq
        rw [← heq] at hnotin
        exact hnotin (List.mem_map_of_mem hw)
      have hmore : ((wanted.foldl (db.pullVault auth limit)
          (db.pullVault auth limit st (vaultId, since))).hasMore = false) →
          (db.pullVault auth limit st (vaultId, since)).hasMore = false := by
        intro h
        by_contra hcontra
        rw [hkeep' (by simpa using hcontra)] at h
        cases h
      refine ⟨Function.update rows vaultId page, Function.update next vaultId c, ?_, ?_, ?_, hfull'',
        fun h => hkeep' (hkeep h), ?_⟩
      · rw [hent, hpage, List.flatMap_cons, List.append_assoc]
        congr 2
        · simp
        · apply List.flatMap_congr
          intro w hw
          simp [hne w hw]
      · intro w hw
        rcases List.mem_cons.mp hw with rfl | hw
        · simp only [Function.update_self]
          refine ⟨hsplit, ?_⟩
          rw [hother _ hnotin, hcursors, if_pos rfl]
        · simp only [Function.update_of_ne (hne w hw)]
          exact hall w hw
      · intro u hu
        rw [List.map_cons, List.mem_cons, not_or] at hu
        rw [hother u hu.2, hcursors, if_neg hu.1]
      · intro h w hw
        rcases List.mem_cons.mp hw with rfl | hw
        · simp only [Function.update_self]
          exact hdone (hmore h)
        · simp only [Function.update_of_ne (hne w hw)]
          exact hdone' h w hw

/-- Among rows listed by vault, those of one vault. -/
theorem filter_vault {rows : Uuid → List SyncEntity} {wanted : List (Uuid × ℤ)}
    (hkeys : (wanted.map Prod.fst).Nodup)
    (hvault : ∀ w ∈ wanted, ∀ e ∈ rows w.1, e.vaultId = w.1) {v : Uuid} :
  (wanted.flatMap (fun w => rows w.1)).filter (fun e => decide (e.vaultId = v))
    = if v ∈ wanted.map Prod.fst then rows v else []
  := by
  induction wanted with
  | nil => rfl
  | cons w wanted ih =>
      rw [List.map_cons, List.nodup_cons] at hkeys
      have hrow := hvault w List.mem_cons_self
      rw [List.flatMap_cons, List.filter_append, List.map_cons,
        ih hkeys.2 (fun w' hw' => hvault w' (List.mem_cons_of_mem _ hw'))]
      by_cases hv : w.1 = v
      · subst hv
        rw [List.filter_eq_self.mpr (by simpa using hrow), if_neg hkeys.1]
        simp
      · rw [List.filter_eq_nil_iff.mpr]
        · simp only [List.mem_cons, Ne.symm hv, false_or, List.nil_append]
        · intro e he
          rw [hrow e he]
          simpa using hv

/-- The number of rows left to show from the cursors, for the vaults in `keys`. -/
def left (db : Db) (auth : Auth) (keys : List Uuid) (cursors : Cursors) : ℕ :=
  (keys.map (fun v => (db.shown auth v (((cursors.get? v).map Prod.snd).getD 0)).length)).sum

/-- A page gives to each vault asked for the first of its rows, returns the cursor that leaves
the others, and is full or complete. -/
theorem pullPage_spec (auth : Auth) (limit : ℕ) (hdistinct : db.EntitySeqsDistinct) (cursors : Cursors) :
  ∃ (rows : Uuid → List SyncEntity) (next : Uuid → ℤ),
    (∀ v, (db.pullPage auth limit cursors).cursors.get? v
        = (cursors.get? v).map (fun _ => (v, next v)))
    ∧ (∀ v since, cursors.get? v = some (v, since) →
        rows v ++ db.shown auth v (next v) = db.shown auth v since)
    ∧ (∀ v, (db.pullPage auth limit cursors).entities.filter (fun e => decide (e.vaultId = v))
        = if (cursors.get? v).isSome then rows v else [])
    ∧ ((db.pullPage auth limit cursors).hasMore = true →
        (db.pullPage auth limit cursors).entities.length = limit)
    ∧ ((db.pullPage auth limit cursors).hasMore = false →
        ∀ v, (cursors.get? v).isSome → db.shown auth v (next v) = [])
    ∧ (db.pullPage auth limit cursors).entities.length
        = ((cursors.rows.map Prod.fst).map (fun v => (rows v).length)).sum
  := by
  set wanted := cursors.rows.insertionSort (fun c c' => c.1 < c'.1 ∨ c.1 = c'.1 ∧ c.2 ≤ c'.2)
    with hwanted
  have hperm : wanted.Perm cursors.rows := List.perm_insertionSort _ _
  have hmem : ∀ v since, cursors.get? v = some (v, since) ↔ (v, since) ∈ wanted := by
    intro v since
    rw [Table.get?_eq_some_iff, hperm.mem_iff]
    exact ⟨fun h => h.1, fun h => ⟨h, rfl⟩⟩
  have hkeys : (wanted.map Prod.fst).Nodup := (hperm.map Prod.fst).nodup_iff.mpr cursors.nodup
  have hget : ∀ v, (cursors.get? v).isSome ↔ v ∈ wanted.map Prod.fst := by
    intro v
    rw [Option.isSome_iff_exists]
    constructor
    · rintro ⟨w, hw⟩
      have hv : w.1 = v := Table.key_of_get? hw
      rw [← hv] at hw ⊢
      exact List.mem_map_of_mem ((hmem w.1 w.2).mp hw)
    · intro hv
      obtain ⟨w, hw, rfl⟩ := List.mem_map.mp hv
      exact ⟨w, (hmem w.1 w.2).mpr hw⟩
  obtain ⟨rows, next, hent, hall, hother, hfull, -, hdone⟩ :=
    foldl_pullVault auth hdistinct wanted hkeys (full_empty limit)
  have hvault : ∀ w ∈ wanted, ∀ e ∈ rows w.1, e.vaultId = w.1 := by
    intro w hw e he
    have : e ∈ db.shown auth w.1 w.2 := by
      rw [← (hall w hw).1]
      exact List.mem_append_left _ he
    exact (mem_shown.mp this).2.2.1
  refine ⟨rows, next, ?_, ?_, ?_, ?_, ?_, ?_⟩
  · intro v
    cases hv : cursors.get? v with
    | none =>
        have hnotin : v ∉ wanted.map Prod.fst := by
          rw [← hget, hv]
          simp
        exact hother v hnotin
    | some w =>
        have hw : w.1 = v := Table.key_of_get? hv
        rw [← hw] at hv ⊢
        exact (hall w ((hmem w.1 w.2).mp hv)).2
  · intro v since hv
    exact (hall (v, since) ((hmem v since).mp hv)).1
  · intro v
    change ((wanted.foldl (db.pullVault auth limit) ⟨.empty, [], false⟩).entities).filter _ = _
    rw [hent, List.nil_append, filter_vault hkeys hvault]
    simp only [← hget]
  · exact hfull.2
  · intro h v hv
    obtain ⟨w, hw, rfl⟩ := List.mem_map.mp ((hget v).mp hv)
    exact hdone h w hw
  · change (wanted.foldl (db.pullVault auth limit) ⟨.empty, [], false⟩).entities.length = _
    rw [hent, List.nil_append, List.length_flatMap, List.map_map]
    exact (hperm.map _).sum_nat

/-- The pages of the entity feeds. -/
def entityPages (db : Db) (auth : Auth) (limit : ℕ) (cursors : Cursors) :
    List SyncEntity × Cursors × Bool :=
  let page := db.pullPage auth limit cursors
  (page.entities, page.cursors, page.hasMore)

/-- A page leaves as many rows fewer as it holds. -/
theorem left_pullPage (auth : Auth) (limit : ℕ) (hdistinct : db.EntitySeqsDistinct) {cursors : Cursors} {keys : List Uuid}
    (hnodup : keys.Nodup) (hkeys : ∀ v, (cursors.get? v).isSome ↔ v ∈ keys) :
  db.left auth keys cursors
    = (db.pullPage auth limit cursors).entities.length
      + db.left auth keys (db.pullPage auth limit cursors).cursors
  := by
  obtain ⟨rows, next, hcursors, hsplit, -, -, -, hlength⟩ :=
    pullPage_spec auth limit hdistinct cursors
  have hperm : (cursors.rows.map Prod.fst).Perm keys := by
    have hrows : (cursors.rows.map Prod.fst).Nodup := cursors.nodup
    apply (List.perm_ext_iff_of_nodup hrows hnodup).mpr
    intro v
    rw [← hkeys, Option.isSome_iff_exists]
    constructor
    · intro hv
      obtain ⟨w, hw, rfl⟩ := List.mem_map.mp hv
      exact ⟨w, Table.get?_of_mem hw⟩
    · rintro ⟨w, hw⟩
      have hv : w.1 = v := Table.key_of_get? hw
      rw [← hv]
      exact List.mem_map_of_mem (Table.mem_of_get? hw)
  rw [hlength, (hperm.map _).sum_nat, left, left, ← List.sum_map_add]
  congr 1
  apply List.map_congr_left
  intro v hv
  obtain ⟨w, hw⟩ := Option.isSome_iff_exists.mp ((hkeys v).mpr hv)
  have hwv : w.1 = v := Table.key_of_get? hw
  have hw' : cursors.get? v = some (v, w.2) := by rw [hw, ← hwv]
  rw [hcursors, hw', ← List.length_append]
  simp only [Option.map_some, Option.getD_some]
  rw [hsplit v w.2 hw']

/-- Pulling the entity feeds of several vaults ends, and gives for each vault the rows newer than
its cursor, in order. -/
theorem pullAll_entities (auth : Auth) (hdistinct : db.EntitySeqsDistinct) (hlimit : 1 ≤ limit)
    {keys : List Uuid} (hnodup : keys.Nodup) {fuel : ℕ} {cursors : Cursors}
    (hkeys : ∀ v, (cursors.get? v).isSome ↔ v ∈ keys) (hfuel : db.left auth keys cursors < fuel) :
  ∃ got, Paging.pullAll (db.entityPages auth limit) fuel cursors = some got
    ∧ ∀ v since, cursors.get? v = some (v, since) →
        got.filter (fun e => decide (e.vaultId = v)) = db.shown auth v since
  := by
  induction fuel generalizing cursors with
  | zero => omega
  | succ fuel ih =>
      obtain ⟨rows, next, hcursors, hsplit, hfilter, hfull, hdone, -⟩ :=
        pullPage_spec auth limit hdistinct cursors
      have hleft := left_pullPage auth limit hdistinct hnodup hkeys
      cases hmore : (db.pullPage auth limit cursors).hasMore with
      | false =>
          have hlast : (db.entityPages auth limit cursors).2.2 = false := hmore
          refine ⟨_, Paging.pullAll_last hlast, ?_⟩
          intro v since hv
          have hnone := hdone hmore v (by simp [hv])
          have hrows := hsplit v since hv
          rw [hnone, List.append_nil] at hrows
          rw [← hrows]
          have := hfilter v
          rw [hv] at this
          exact this
      | true =>
          have hnext : (db.entityPages auth limit cursors).2.2 = true := hmore
          have hkeys' : ∀ v, ((db.pullPage auth limit cursors).cursors.get? v).isSome
              ↔ v ∈ keys := by
            intro v
            rw [hcursors, Option.isSome_map, hkeys]
          have hlength := hfull hmore
          obtain ⟨got, hgot, hall⟩ := ih hkeys' (by omega)
          refine ⟨(db.pullPage auth limit cursors).entities ++ got, ?_, ?_⟩
          · rw [Paging.pullAll_next hnext]
            simp only [entityPages, Option.map_eq_some_iff]
            exact ⟨got, hgot, rfl⟩
          · intro v since hv
            have hv' : (db.pullPage auth limit cursors).cursors.get? v = some (v, next v) := by
              rw [hcursors, hv]
              rfl
            rw [List.filter_append, hall v _ hv', hfilter v, hv]
            simpa using hsplit v since hv

/-- A page large enough for all rows of a single vault shows them. -/
theorem pullPage_single (hdistinct : db.EntitySeqsDistinct) {v : Uuid} {since : ℤ}
    (hlimit : db.entities.rows.length < limit) :
  (db.pullPage auth limit (Cursors.put .empty v since)).entities = db.shown auth v since
  := by
  have hrows : (Cursors.put .empty v since).rows = [(v, since)] := rfl
  have hpage : (db.pullPage auth limit (Cursors.put .empty v since)).entities
      = (db.pullVault auth limit ⟨.empty, [], false⟩ (v, since)).entities := by
    rw [pullPage, hrows]
    rfl
  obtain ⟨rows, next, hent, hsplit, -, hfull, -, hdone⟩ :=
    pullVault_spec auth hdistinct (full_empty limit) v since
  rw [hpage, hent, List.nil_append]
  rw [List.nil_append] at hent
  have hle : (db.shown auth v since).length ≤ db.entities.rows.length := by
    rw [shown]
    split
    · rw [Paging.newer]
      apply (List.length_filter_le _ _).trans
      rw [List.length_insertionSort]
      exact List.length_filter_le _ _
    · exact Nat.zero_le _
  have hmore : (db.pullVault auth limit ⟨.empty, [], false⟩ (v, since)).hasMore = false := by
    by_contra h
    have hlength := hfull.2 (by simpa using h)
    rw [hent] at hlength
    rw [← hsplit, List.length_append] at hle
    omega
  rw [hdone hmore, List.append_nil] at hsplit
  exact hsplit

/-! ### Pages of one feed -/

/-- The pages of the history feed of a user. -/
def historyPages (db : Db) (userId : Uuid) (limit : ℕ) (since : ℤ) :
    List HistoryEntry × ℤ × Bool :=
  let page := db.historyPage userId limit since
  (page.entries, page.since, page.hasMore)

/-- The pages of the log feed of a user. -/
def logPages (db : Db) (auth : Auth) (limit : ℕ) (since : ℤ) : List SessionLog × ℤ × Bool :=
  let page := db.logList auth limit since
  (page.logs, page.since, page.hasMore)

/-- The pages of the log feed of a vault. A refused request ends the reading. -/
def vaultLogPages (db : Db) (auth : Auth) (vaultId : Uuid) (limit : ℕ) (since : ℤ) :
    List SessionLog × ℤ × Bool :=
  match db.logListVault auth vaultId limit since with
  | .ok page => (page.logs, page.since, page.hasMore)
  | .error _ => ([], since, false)

theorem historyPages_eq (db : Db) (limit : ℕ) (userId : Uuid) (since : ℤ) :
  db.historyPages userId limit since
    = ((Paging.page HistoryRow.seq (db.userHistory userId) limit since).1.map HistoryRow.toEntry,
        (Paging.page HistoryRow.seq (db.userHistory userId) limit since).2)
  := by
  rw [Paging.page_eq, historyPages, historyPage]
  simp only [List.getLast?_map, Option.map_map, Paging.cursorAfter]
  rfl

theorem logPages_eq (since : ℤ) :
  db.logPages auth limit since
    = ((Paging.page LogRow.seq (db.authorLogs auth.userId) limit since).1.map
          (toLog db.users .author),
        (Paging.page LogRow.seq (db.authorLogs auth.userId) limit since).2)
  := by
  rw [Paging.page_eq, logPages, logList, logPage]
  simp only [List.getLast?_map, Option.map_map, Paging.cursorAfter]
  rfl

theorem vaultLogPages_eq {vaultId : Uuid} {a : Access}
    (ha : db.access vaultId auth.userId = .ok a) (hpending : a.pending = false) (since : ℤ) :
  db.vaultLogPages auth vaultId limit since
    = ((Paging.page LogRow.vaultSeq (db.vaultLogs vaultId) limit since).1.map
          (toLog db.users .vault),
        (Paging.page LogRow.vaultSeq (db.vaultLogs vaultId) limit since).2)
  := by
  rw [Paging.page_eq, vaultLogPages, logListVault, ha]
  simp only [bind, Except.bind, hpending, logPage, List.getLast?_map, Option.map_map,
    Paging.cursorAfter]
  rfl

/-! ### Complete feeds -/

/-- Reading every feed of a user page by page ends and gives every row newer than the cursors,
and the shared pages of several vaults give what each vault gives alone. -/
structure FeedsLossless (db : Db) (auth : Auth) (limit : ℕ) (cursors : Cursors) (since : ℤ) :
    Prop where
  entities : ∃ fuel got, Paging.pullAll (db.entityPages auth limit) fuel cursors = some got
    ∧ (∀ v c, cursors.get? v = some (v, c) → db.readable auth v = true →
        ∀ e ∈ db.entities.rows, e.vaultId = v → c < e.seq → e ∈ got)
    ∧ ∀ v c n, cursors.get? v = some (v, c) → db.entities.rows.length < n →
        got.filter (fun e => decide (e.vaultId = v))
          = (db.pullPage auth n (Cursors.put .empty v c)).entities
  history : ∃ fuel got, Paging.pullAll (db.historyPages auth.userId limit) fuel since = some got
    ∧ ∀ r ∈ db.historyEntries.rows, r.userId = auth.userId → since < r.seq → r.toEntry ∈ got
  logs : ∃ fuel got, Paging.pullAll (db.logPages auth limit) fuel since = some got
    ∧ ∀ r ∈ db.sessionLogs.rows, r.userId = auth.userId → since < r.seq →
        toLog db.users .author r ∈ got
  vaultLogs : ∀ v a, db.access v auth.userId = .ok a → a.pending = false →
    ∃ fuel got, Paging.pullAll (db.vaultLogPages auth v limit) fuel since = some got
      ∧ ∀ r ∈ db.sessionLogs.rows, r.vaultId = v → since < r.vaultSeq →
          toLog db.users .vault r ∈ got

theorem entitySeqsDistinct_of_numbered (h : Numbered db) :
  db.EntitySeqsDistinct
  := fun vaultId => h.entities.nodup_select vaultId

/-- The entity feeds are complete. -/
theorem entities_lossless (auth : Auth) (hdistinct : db.EntitySeqsDistinct) (hlimit : 1 ≤ limit)
    (cursors : Cursors) :
  ∃ fuel got, Paging.pullAll (db.entityPages auth limit) fuel cursors = some got
    ∧ (∀ v c, cursors.get? v = some (v, c) → db.readable auth v = true →
        ∀ e ∈ db.entities.rows, e.vaultId = v → c < e.seq → e ∈ got)
    ∧ ∀ v c n, cursors.get? v = some (v, c) → db.entities.rows.length < n →
        got.filter (fun e => decide (e.vaultId = v))
          = (db.pullPage auth n (Cursors.put .empty v c)).entities
  := by
  have hkeys : ∀ v, (cursors.get? v).isSome ↔ v ∈ cursors.rows.map Prod.fst := by
    intro v
    rw [Option.isSome_iff_exists]
    constructor
    · rintro ⟨w, hw⟩
      have hv : w.1 = v := Table.key_of_get? hw
      rw [← hv]
      exact List.mem_map_of_mem (Table.mem_of_get? hw)
    · intro hv
      obtain ⟨w, hw, rfl⟩ := List.mem_map.mp hv
      exact ⟨w, Table.get?_of_mem hw⟩
  obtain ⟨got, hgot, hall⟩ := pullAll_entities auth hdistinct hlimit cursors.nodup hkeys
    (Nat.lt_succ_self _)
  refine ⟨_, got, hgot, ?_, ?_⟩
  · intro v c hv hread e he hvault hseq
    have : e ∈ db.shown auth v c := mem_shown.mpr ⟨hread, he, hvault, hseq⟩
    rw [← hall v c hv] at this
    exact List.mem_of_mem_filter this
  · intro v c n hv hn
    rw [hall v c hv, pullPage_single hdistinct hn]

/-- The history feed is complete exactly when no page splits a sequence number. -/
theorem history_lossless_iff (hlimit : 1 ≤ limit) (userId : Uuid) (since : ℤ) :
  (∃ fuel got, Paging.pullAll (db.historyPages userId limit) fuel since = some got
      ∧ ∀ r ∈ db.historyEntries.rows, r.userId = userId → since < r.seq → r.toEntry ∈ got)
    ↔ Paging.Unsplit HistoryRow.seq limit
        (Paging.newer HistoryRow.seq (db.userHistory userId) since)
  := by
  have hnodup : (db.userHistory userId).Nodup := List.Nodup.filter _ db.historyEntries.nodup.of_map
  have hmem : ∀ r, r ∈ Paging.newer HistoryRow.seq (db.userHistory userId) since
      ↔ r ∈ db.historyEntries.rows ∧ r.userId = userId ∧ since < r.seq := by
    intro r
    rw [Paging.mem_newer, userHistory, Table.select, List.mem_filter]
    simp [and_assoc]
  obtain ⟨rows, hrows, hsub, hiff, -⟩ := Paging.mem_pullAll_iff_unsplit hnodup hlimit since
    (Nat.lt_succ_self (Paging.newer HistoryRow.seq (db.userHistory userId) since).length)
  have hpages := Paging.pullAll_map HistoryRow.toEntry (historyPages_eq db limit userId)
    (Paging.newer HistoryRow.seq (db.userHistory userId) since).length.succ since
  rw [hrows] at hpages
  rw [← hiff]
  constructor
  · rintro ⟨fuel, got, hgot, hall⟩ r hr
    obtain ⟨hrow, huser, hseq⟩ := (hmem r).mp hr
    have hentry := hall r hrow huser hseq
    rw [Paging.pullAll_unique hgot hpages] at hentry
    obtain ⟨r', hr', heq⟩ := List.mem_map.mp hentry
    have hid : r'.id = r.id := congrArg HistoryEntry.id heq
    rwa [← Table.eq_of_mem ((hmem r').mp (hsub r' hr')).1 hrow hid]
  · intro hall
    refine ⟨_, rows.map HistoryRow.toEntry, hpages, ?_⟩
    intro r hr huser hseq
    exact List.mem_map_of_mem (hall r ((hmem r).mpr ⟨hr, huser, hseq⟩))

/-- A feed of logs numbered distinctly is complete. -/
theorem logs_lossless {seq : LogRow → ℤ} {rows : List LogRow} (hnodup : (rows.map seq).Nodup)
    (hlimit : 1 ≤ limit) {f : LogRow → SessionLog} {pages : ℤ → List SessionLog × ℤ × Bool}
    (hpages : ∀ since, pages since
      = ((Paging.page seq rows limit since).1.map f, (Paging.page seq rows limit since).2))
    (since : ℤ) :
  ∃ fuel got, Paging.pullAll pages fuel since = some got
    ∧ ∀ r ∈ rows, since < seq r → f r ∈ got
  := by
  refine ⟨(Paging.newer seq rows since).length.succ, (Paging.newer seq rows since).map f, ?_, ?_⟩
  · rw [Paging.pullAll_map f hpages, Paging.pullAll_page hnodup hlimit since (Nat.lt_succ_self _)]
    rfl
  · intro r hr hseq
    exact List.mem_map_of_mem (Paging.mem_newer.mpr ⟨hr, hseq⟩)

/-- In every database the write handlers make, and for every user, page limit and cursors, the
feeds are read completely if and only if no page of the history feed ends between two entries
that share a sequence number. -/
theorem feedsLossless_iff_unsplit [Primitives] (h : feedSystem.Reachable db) (hlimit : 1 ≤ limit)
    (auth : Auth) (cursors : Cursors) (since : ℤ) :
  FeedsLossless db auth limit cursors since
    ↔ Paging.Unsplit HistoryRow.seq limit
        (Paging.newer HistoryRow.seq (db.userHistory auth.userId) since)
  := by
  have hnum := numbered_of_reachable h
  rw [← history_lossless_iff hlimit]
  constructor
  · intro hall
    exact hall.history
  · intro hhistory
    refine ⟨entities_lossless auth (entitySeqsDistinct_of_numbered hnum) hlimit cursors, hhistory, ?_, ?_⟩
    · obtain ⟨fuel, got, hgot, hall⟩ := logs_lossless (hnum.authorLogs.nodup_select auth.userId)
        hlimit logPages_eq since
      refine ⟨fuel, got, hgot, ?_⟩
      intro r hr huser hseq
      exact hall r (List.mem_filter.mpr ⟨hr, by simpa using huser⟩) hseq
    · intro v a ha hpending
      obtain ⟨fuel, got, hgot, hall⟩ := logs_lossless (hnum.vaultLogs.nodup_select v)
        hlimit (vaultLogPages_eq ha hpending) since
      refine ⟨fuel, got, hgot, ?_⟩
      intro r hr hvault hseq
      exact hall r (List.mem_filter.mpr ⟨hr, by simpa using hvault⟩) hseq

/-! ### A cleared history -/

open Symbolic

/-- A database with a single user, who has stored nothing. -/
def blank : Db where
  users := .single ⟨1, "user", none, none, false, false, 0, 0⟩
  vaults := .empty
  vaultMembers := .empty
  teamMembers := .empty
  teamPolicies := .empty
  entities := .empty
  historyEntries := .empty
  sessionLogs := .empty
  bridgeScope _ _ := false
  directModes _ _ _ := none

/-- The user pushes two commands and clears the history. -/
def clearTwo : List Write :=
  let command (id : Uuid) : HistoryEntry := ⟨id, .command, "", 1, 0, 0, false⟩
  [.historyPush ⟨1000, 0, 0⟩ 1 [command 1, command 2], .historyClear 1 none 0]

/-- The database after two commands are cleared. -/
def cleared : Db := (feedSystem.run blank clearTwo).get (by decide)

theorem reachable_cleared :
  feedSystem.Reachable cleared
  := by
  apply TransitionSystem.reachable_run
  exact ⟨rfl, rfl, rfl⟩

/-- In pages of two the cleared history is read completely. -/
theorem feedsLossless_cleared :
  FeedsLossless cleared ⟨1, 1, none⟩ 2 .empty 0
  := by
  apply (feedsLossless_iff_unsplit reachable_cleared (by decide) ⟨1, 1, none⟩ .empty 0).mpr
  intro i hdvd hpos hlt
  have hle := Nat.le_of_dvd hpos hdvd
  have hlength : (Paging.newer HistoryRow.seq (cleared.userHistory 1) 0).length = 2 := by decide
  exact absurd (hlt.trans_eq hlength) (not_lt.mpr hle)

/-- In pages of one the second of two cleared commands is never read. -/
theorem not_feedsLossless_cleared :
  ¬ ∀ db : Db, feedSystem.Reachable db → ∀ limit, 1 ≤ limit → ∀ auth cursors since,
    FeedsLossless db auth limit cursors since
  := by
  intro h
  have hhistory := (h cleared reachable_cleared 1 (by decide) ⟨1, 1, none⟩ .empty 0).history
  exact (history_lossless_iff (by decide) 1 0).mp hhistory 1 (by decide) (by decide) (by decide)
    (by decide)

end Db

end Termoso.Server
