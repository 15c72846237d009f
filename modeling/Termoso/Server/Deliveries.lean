import Termoso.Server.Webhooks

/-!
# No delivery is lost

A delivery that a pass has claimed is written again by that pass, unless the replica crashes or
the statement that puts it back fails.  In runs where this does not happen, where no statement
fails once a batch was marked as delivered, and where no pass claims deliveries that are still in
a batch of another one, every delivery is pending, with a running pass, delivered by a send of
its event, or given up after as many failed sends as are tried.
-/

namespace Termoso.Server

/-- A pool of passes. -/
abbrev PassPool := Pool Outbox PassAt

abbrev PassPoolStep := PoolStep PassEvent OutboxEvent

namespace Outbox

/-- The failed sends of an event to a hook. -/
def failures (s : Outbox) (webhookId : Uuid) (eventId : ℕ) : ℤ :=
  (s.sent.filter (fun x =>
    !x.ok && decide (x.webhookId = webhookId) && decide (eventId ∈ x.events))).length

/-- An event was sent to a hook with success. -/
def Delivered (s : Outbox) (webhookId : Uuid) (eventId : ℕ) : Prop :=
  ∃ x ∈ s.sent, x.webhookId = webhookId ∧ eventId ∈ x.events ∧ x.ok = true

/-- Whether a delivery is being sent. -/
def isSending (s : Outbox) (id : ℕ) : Bool :=
  (s.deliveries.get? id).any (fun d => decide (d.status = .sending))

end Outbox

/-! ### What is to hold -/

/-- No delivery is lost: one that is being sent is in a batch of a pass that runs, one that is
delivered was sent with success, and one of a hook that stayed on is given up only after as many
failed sends as are tried. -/
structure NoneLost (p : PassPool) : Prop where
  sending : ∀ id d, p.shared.deliveries.get? id = some d → d.status = .sending →
    ∃ i, id ∈ (p.threads i).held
  ok : ∀ id d, p.shared.deliveries.get? id = some d → d.status = .ok →
    p.shared.Delivered d.webhookId d.eventId
  dead : ∀ id d, p.shared.deliveries.get? id = some d → d.status = .dead →
    p.shared.switchedOff d.webhookId = false →
      MAX_ATTEMPTS ≤ p.shared.failures d.webhookId d.eventId

/-- No delivery is in the batches of two passes. -/
def OneHolder (p : PassPool) : Prop :=
  ∀ i j id, id ∈ (p.threads i).held → id ∈ (p.threads j).held → i = j

/-- A step that loses nothing: a pass ends early only when none of its deliveries is being sent, no
statement fails between marking a batch as delivered and its end, and deliveries are claimed
only when they are in no batch. -/
def undisturbed (p : PassPool) : PassPoolStep → Bool
  | .run i (.next now skipped) =>
    match p.threads i with
    | .claim only => (p.shared.due only now skipped).all (fun d => (p.shared.holder d.id).isNone)
    | _ => true
  | .run i .error =>
    match p.threads i with
    | .batch _ (.markHook _) _ => false
    | .batch b .putBack rest => (idsOf (b :: rest)).all (fun id => !p.shared.isSending id)
    | _ => true
  | .run i .crash => (p.threads i).held.all (fun id => !p.shared.isSending id)
  | _ => true

/-! ### Batches of what was claimed -/

section
variable {α : Type} {n : ℕ}

theorem flatten_chunksFuel (hn : 0 < n) (fuel : ℕ) (l : List α) (hl : l.length ≤ fuel) :
  (chunksFuel n fuel l).flatten = l
  := by
  induction fuel generalizing l with
  | zero =>
      rw [List.length_eq_zero_iff.mp (Nat.le_zero.mp hl)]
      rfl
  | succ fuel ih =>
      cases l with
      | nil => rfl
      | cons a as =>
          have hshorter : ((a :: as).drop n).length ≤ fuel := by
            rw [List.length_drop]
            simp only [List.length_cons] at hl ⊢
            omega
          rw [chunksFuel, List.flatten_cons, ih _ hshorter, List.take_append_drop]

/-- The pieces of a list make up the list. -/
theorem flatten_chunks (hn : 0 < n) (l : List α) :
  (chunks n l).flatten = l
  := flatten_chunksFuel hn l.length l le_rfl

end

/-- The claims in batches. -/
def rowsOf (bs : List Batch) : List Claim := bs.flatMap Batch.rows

theorem idsOf_eq (bs : List Batch) :
  idsOf bs = (rowsOf bs).map Claim.id
  := by
  rw [idsOf, rowsOf, List.map_flatMap]

/-- The claims in the batches, hook by hook. -/
theorem rowsOf_batches (claimed : List Claim) :
  rowsOf (batches claimed)
    = (((claimed.map Claim.webhookId).dedup).insertionSort (· ≤ ·)).flatMap (fun w =>
        claimed.filter (fun c => decide (c.webhookId = w)))
  := by
  rw [rowsOf, batches, List.flatMap_assoc]
  congr 1
  funext w
  rw [List.flatMap_map]
  change (chunks BATCH _).flatMap id = _
  rw [List.flatMap_id, flatten_chunks (by decide)]

theorem mem_rowsOf_batches {claimed : List Claim} {c : Claim} :
  c ∈ rowsOf (batches claimed) ↔ c ∈ claimed
  := by
  rw [rowsOf_batches, List.mem_flatMap]
  constructor
  · rintro ⟨w, -, hc⟩
    exact (List.mem_filter.mp hc).1
  · intro hc
    refine ⟨c.webhookId, ?_, List.mem_filter.mpr ⟨hc, decide_eq_true rfl⟩⟩
    rw [List.mem_insertionSort, List.mem_dedup]
    exact List.mem_map_of_mem hc

theorem webhookId_of_mem_batches {claimed : List Claim} {b : Batch} (hb : b ∈ batches claimed)
    {c : Claim} (hc : c ∈ b.rows) :
  c.webhookId = b.webhookId
  := by
  obtain ⟨w, -, hb⟩ := List.mem_flatMap.mp hb
  obtain ⟨l, hl, rfl⟩ := List.mem_map.mp hb
  have hmem : c ∈ (chunks BATCH (claimed.filter (fun c => decide (c.webhookId = w)))).flatten :=
    List.mem_flatten.mpr ⟨l, hl, hc⟩
  rw [flatten_chunks (by decide)] at hmem
  exact of_decide_eq_true (List.mem_filter.mp hmem).2

/-- What is claimed once is in one batch once. -/
theorem nodup_idsOf_batches {claimed : List Claim} (h : (claimed.map Claim.id).Nodup) :
  (idsOf (batches claimed)).Nodup
  := by
  have hclaimed : claimed.Nodup := h.of_map _
  rw [idsOf_eq]
  apply List.Nodup.map_on
  · intro c hc c' hc' heq
    rw [mem_rowsOf_batches] at hc hc'
    exact List.inj_on_of_nodup_map h hc hc' heq
  · rw [rowsOf_batches, List.nodup_flatMap]
    refine ⟨fun w _ => hclaimed.filter _, ?_⟩
    have hnodup : (((claimed.map Claim.webhookId).dedup).insertionSort (· ≤ ·)).Nodup :=
      (List.perm_insertionSort _ _).nodup_iff.mpr (List.nodup_dedup _)
    apply hnodup.imp
    intro w w' hne c hc hc'
    rw [← of_decide_eq_true (List.mem_filter.mp hc).2, of_decide_eq_true (List.mem_filter.mp hc').2]
      at hne
    exact hne rfl

/-! ### The invariant -/

/-- What is known of a delivery. -/
structure RowSound (s : Outbox) (d : Delivery) : Prop where
  fresh : d.id < s.nextDelivery
  hook : (s.hooks.get? d.webhookId).isSome = true
  event : (s.events.get? d.eventId).isSome = true
  held : d.status = .sending → (s.holder d.id).isSome = true
  attempts : d.status ≠ .ok → d.attempt ≤ s.failures d.webhookId d.eventId
  delivered : d.status = .ok → s.Delivered d.webhookId d.eventId
  dead : d.status = .dead → s.switchedOff d.webhookId = true
    ∨ MAX_ATTEMPTS ≤ s.failures d.webhookId d.eventId

/-- What is known of the outbox. -/
structure Outbox.Sound (s : Outbox) : Prop where
  rows : ∀ id d, s.deliveries.get? id = some d → RowSound s d
  hooks : ∀ id h, s.hooks.get? id = some h → h.enabled = false → s.switchedOff id = true
  holders : ∀ id i, s.holder id = some i → id < s.nextDelivery

/-- The claims of a batch are of its hook, their events are there, and their deliveries are still
about them. -/
def Known (s : Outbox) (b : Batch) : Prop :=
  ∀ c ∈ b.rows, c.webhookId = b.webhookId ∧ (s.events.get? c.eventId).isSome = true
    ∧ ∀ d, s.deliveries.get? c.id = some d → d.webhookId = c.webhookId ∧ d.eventId = c.eventId

/-- The deliveries of a batch are as they were claimed. -/
def Unwritten (s : Outbox) (b : Batch) : Prop :=
  ∀ c ∈ b.rows, ∀ d, s.deliveries.get? c.id = some d → d.status = .sending ∧ d.attempt = c.attempt

/-- The deliveries of a batch are not delivered, and those being sent are among the ones left. -/
def Settled (s : Outbox) (b : Batch) (left : List Claim) : Prop :=
  ∀ c ∈ b.rows, ∀ d, s.deliveries.get? c.id = some d →
    d.status ≠ .ok ∧ (d.status = .sending → c ∈ left)

/-- What a batch relies on, at each of its statements. -/
def AtPc (s : Outbox) (b : Batch) : BatchAt → Prop
  | .load => Unwritten s b
  | .bury => Unwritten s b
      ∧ (s.switchedOff b.webhookId = true ∨ s.hooks.get? b.webhookId = none)
  | .fetch _ => Unwritten s b
  | .send _ events => Unwritten s b ∧ ∀ c ∈ b.rows, c.eventId ∈ events.map AuditEvent.id
  | .markOk _ => Unwritten s b ∧ ∀ c ∈ b.rows, s.Delivered c.webhookId c.eventId
  | .markHook _ => ∀ c ∈ b.rows, ∀ d, s.deliveries.get? c.id = some d → d.status ≠ .sending
  | .retry _ _ left => Settled s b left ∧ ∀ c ∈ left, c ∈ b.rows
      ∧ ∀ d, s.deliveries.get? c.id = some d → c.attempt + 1 ≤ s.failures d.webhookId d.eventId
  | .countFailure _ _ => Settled s b []
  | .announce _ _ => Settled s b []
  | .putBack => Settled s b b.rows

/-- What a pass relies on. -/
def Relies (s : Outbox) : PassAt → Prop
  | .batch b pc rest => (idsOf (b :: rest)).Nodup ∧ (∀ b' ∈ b :: rest, Known s b')
      ∧ (∀ b' ∈ rest, Unwritten s b') ∧ AtPc s b pc
  | _ => True

/-- What is known of a pass: it holds the deliveries in its batches, and finds what it relies on. -/
def PassAsserts (i : ℕ) (s : Outbox) (t : PassAt) : Prop :=
  (∀ id, s.holder id = some i ↔ id ∈ t.held) ∧ Relies s t

/-! ### What is left alone -/

/-- A step leaves some deliveries as they are, or deletes them, takes no event or send away, and
brings no hook back. -/
structure Keeps (ids : ℕ → Prop) (s s' : Outbox) : Prop where
  rows : ∀ id d, ids id → s'.deliveries.get? id = some d → s.deliveries.get? id = some d
  events : ∀ e, (s.events.get? e).isSome = true → (s'.events.get? e).isSome = true
  sent : s.sent <+: s'.sent
  switchedOff : ∀ w, s.switchedOff w = true → s'.switchedOff w = true
  hooks : ∀ w, s.hooks.get? w = none → s'.hooks.get? w = none

section
variable {ids : ℕ → Prop} {s s' : Outbox} {b : Batch} {w : Uuid} {e : ℕ} {left : List Claim}
  {pc : BatchAt}

theorem Keeps.refl :
  Keeps ids s s
  := ⟨fun _ _ _ h => h, fun _ h => h, List.prefix_rfl, fun _ h => h, fun _ h => h⟩

theorem Keeps.mono {ids' : ℕ → Prop} (h : Keeps ids s s') (hids : ∀ id, ids' id → ids id) :
  Keeps ids' s s'
  := ⟨fun id d hid => h.rows id d (hids id hid), h.events, h.sent, h.switchedOff, h.hooks⟩

theorem Keeps.failures (h : Keeps ids s s') :
  s.failures w e ≤ s'.failures w e
  := by
  rw [Outbox.failures, Outbox.failures]
  exact Int.ofNat_le.mpr (h.sent.sublist.filter _).length_le

theorem Keeps.delivered (h : Keeps ids s s') (hd : s.Delivered w e) :
  s'.Delivered w e
  := by
  obtain ⟨x, hx, hsent⟩ := hd
  exact ⟨x, h.sent.subset hx, hsent⟩

theorem Keeps.known (h : Keeps ids s s') (hb : ∀ c ∈ b.rows, ids c.id) (hknown : Known s b) :
  Known s' b
  := by
  intro c hc
  obtain ⟨hhook, hevent, hrow⟩ := hknown c hc
  exact ⟨hhook, h.events _ hevent, fun d hd => hrow d (h.rows _ d (hb c hc) hd)⟩

theorem Keeps.unwritten (h : Keeps ids s s') (hb : ∀ c ∈ b.rows, ids c.id)
    (hunwritten : Unwritten s b) :
  Unwritten s' b
  := fun c hc d hd => hunwritten c hc d (h.rows _ d (hb c hc) hd)

theorem Keeps.settled (h : Keeps ids s s') (hb : ∀ c ∈ b.rows, ids c.id)
    (hsettled : Settled s b left) :
  Settled s' b left
  := fun c hc d hd => hsettled c hc d (h.rows _ d (hb c hc) hd)

theorem Keeps.atPc (h : Keeps ids s s') (hb : ∀ c ∈ b.rows, ids c.id) (hpc : AtPc s b pc) :
  AtPc s' b pc
  := by
  cases pc with
  | load => exact h.unwritten hb hpc
  | bury => exact ⟨h.unwritten hb hpc.1, hpc.2.imp (h.switchedOff _) (h.hooks _)⟩
  | fetch hook => exact h.unwritten hb hpc
  | send hook events => exact ⟨h.unwritten hb hpc.1, hpc.2⟩
  | markOk result => exact ⟨h.unwritten hb hpc.1, fun c hc => h.delivered (hpc.2 c hc)⟩
  | markHook result => exact fun c hc d hd => hpc c hc d (h.rows _ d (hb c hc) hd)
  | retry hook result left =>
      refine ⟨h.settled hb hpc.1, fun c hc => ?_⟩
      obtain ⟨hmem, hfailures⟩ := hpc.2 c hc
      refine ⟨hmem, fun d hd => ?_⟩
      exact (hfailures d (h.rows _ d (hb c hmem) hd)).trans h.failures
  | countFailure hook result => exact h.settled hb hpc
  | announce hook result => exact h.settled hb hpc
  | putBack => exact h.settled hb hpc

theorem mem_idsOf {bs : List Batch} (hb : b ∈ bs) {c : Claim} (hc : c ∈ b.rows) :
  c.id ∈ idsOf bs
  := List.mem_flatMap.mpr ⟨b, hb, List.mem_map_of_mem hc⟩

/-- What a pass relies on stays so, when its deliveries are left alone. -/
theorem Keeps.relies {t : PassAt} (h : Keeps ids s s') (ht : ∀ id ∈ t.held, ids id)
    (hrelies : Relies s t) :
  Relies s' t
  := by
  cases t with
  | claim only => trivial
  | done => trivial
  | batch b pc rest =>
      obtain ⟨hnodup, hknown, hunwritten, hpc⟩ := hrelies
      refine ⟨hnodup, fun b' hb' => ?_, fun b' hb' => ?_, ?_⟩
      · exact h.known (fun c hc => ht _ (mem_idsOf hb' hc)) (hknown b' hb')
      · exact h.unwritten (fun c hc => ht _ (mem_idsOf (List.mem_cons_of_mem _ hb') hc))
          (hunwritten b' hb')
      · exact h.atPc (fun c hc => ht _ (mem_idsOf List.mem_cons_self hc)) hpc

/-- What a step leaves to pass `i`: its deliveries, and that it holds them. -/
def LeavesPass (i : ℕ) (s s' : Outbox) : Prop :=
  (∀ id, s'.holder id = some i ↔ s.holder id = some i)
    ∧ Keeps (fun id => s.holder id = some i) s s'

/-- What is known of a pass stays so under the steps of others. -/
theorem passAsserts_of_leaves {i : ℕ} {t : PassAt} (h : LeavesPass i s s') (ht : PassAsserts i s t) :
  PassAsserts i s' t
  := by
  refine ⟨fun id => (h.1 id).trans (ht.1 id), ?_⟩
  exact h.2.relies (fun id hid => (ht.1 id).mpr hid) ht.2

end

/-! ### The statements -/

section
variable {s s' : Outbox} {ids : List ℕ} {f : Delivery → Delivery}
  {hf : ∀ d, key (f d) = key d}

theorem get?_setRows (id : ℕ) :
  (s.setRows ids f hf).deliveries.get? id
    = (s.deliveries.get? id).map (fun d => if id ∈ ids then f d else d)
  := by
  rw [Outbox.setRows, Table.get?_update]
  apply Option.map_congr
  intro d hd
  have hkey : d.id = id := Table.key_of_get? hd
  simp [hkey]

/-- A delivery after it was changed. -/
theorem exists_of_get?_setRows {id : ℕ} {d : Delivery} (hid : id ∈ ids)
    (hd : (s.setRows ids f hf).deliveries.get? id = some d) :
  ∃ d', s.deliveries.get? id = some d' ∧ d = f d'
  := by
  rw [get?_setRows] at hd
  obtain ⟨d', hd', rfl⟩ := Option.map_eq_some_iff.mp hd
  exact ⟨d', hd', if_pos hid⟩

theorem keeps_setRows :
  Keeps (· ∉ ids) s (s.setRows ids f hf)
  := by
  refine ⟨?_, fun _ h => h, List.prefix_rfl, fun _ h => h, fun _ h => h⟩
  intro id d hid hd
  rw [get?_setRows] at hd
  obtain ⟨d', hd', rfl⟩ := Option.map_eq_some_iff.mp hd
  rw [if_neg hid]
  exact hd'

/-- Changing deliveries keeps the outbox sound, when each is sound as it is changed. -/
theorem sound_setRows (hs : s.Sound)
    (hrows : ∀ id d, id ∈ ids → s.deliveries.get? id = some d → RowSound s (f d)) :
  (s.setRows ids f hf).Sound
  := by
  refine ⟨?_, hs.hooks, hs.holders⟩
  intro id d hd
  rw [get?_setRows] at hd
  obtain ⟨d', hd', rfl⟩ := Option.map_eq_some_iff.mp hd
  have hrow : RowSound s (if id ∈ ids then f d' else d') := by
    split
    · rename_i hid
      exact hrows id d' hid hd'
    · exact hs.rows id d' hd'
  exact ⟨hrow.fresh, hrow.hook, hrow.event, hrow.held, hrow.attempts, hrow.delivered, hrow.dead⟩

/-- Batches are left when none of their deliveries is being sent. -/
theorem sound_released (hs : s.Sound)
    (hids : ∀ id ∈ ids, ∀ d, s.deliveries.get? id = some d → d.status ≠ .sending) :
  (s.hold ids none).Sound
  := by
  refine ⟨?_, hs.hooks, ?_⟩
  · intro id d hd
    have hrow := hs.rows id d hd
    refine ⟨hrow.fresh, hrow.hook, hrow.event, ?_, hrow.attempts, hrow.delivered, hrow.dead⟩
    intro hsending
    have hkey : d.id = id := Table.key_of_get? hd
    have hnot : d.id ∉ ids := fun hid => hids id (hkey ▸ hid) d hd hsending
    simp only [Outbox.hold, if_neg hnot]
    exact hrow.held hsending
  · intro id i hholder
    rw [Outbox.hold] at hholder
    dsimp only at hholder
    split at hholder
    · cases hholder
    · exact hs.holders id i hholder

/-- Changing hooks keeps the outbox sound, when those switched off are noted. -/
theorem sound_hooks {hooks : Table Webhook} {off : Uuid → Bool} (hs : s.Sound)
    (hthere : ∀ w, (s.hooks.get? w).isSome = true → (hooks.get? w).isSome = true)
    (hoff : ∀ w, s.switchedOff w = true → off w = true)
    (hhooks : ∀ id h, hooks.get? id = some h → h.enabled = false → off id = true) :
  ({ s with hooks, switchedOff := off } : Outbox).Sound
  := by
  refine ⟨?_, hhooks, hs.holders⟩
  intro id d hd
  have hrow := hs.rows id d hd
  exact ⟨hrow.fresh, hthere _ hrow.hook, hrow.event, hrow.held, hrow.attempts, hrow.delivered,
    fun hdead => (hrow.dead hdead).imp_left (hoff _)⟩

theorem keeps_hooks {hooks : Table Webhook} {off : Uuid → Bool} {ids : ℕ → Prop}
    (hthere : ∀ w, s.hooks.get? w = none → hooks.get? w = none)
    (hoff : ∀ w, s.switchedOff w = true → off w = true) :
  Keeps ids s { s with hooks, switchedOff := off }
  := ⟨fun _ _ _ h => h, fun _ h => h, List.prefix_rfl, hoff, hthere⟩

section
variable {id : Uuid} {g : Webhook → Webhook} {hg : ∀ h, key (g h) = key h} {off : Uuid → Bool}

/-- Changing a hook keeps the outbox sound, when it is noted if that switches it off. -/
theorem sound_setHook (hs : s.Sound) (hoff : ∀ w, s.switchedOff w = true → off w = true)
    (henabled : ∀ h, s.hooks.get? id = some h → (g h).enabled = false → off id = true) :
  ({ s with hooks := s.hooks.set id g hg, switchedOff := off } : Outbox).Sound
  := by
  apply sound_hooks hs
  · intro w hw
    rw [Table.isSome_get?_set]
    exact hw
  · exact hoff
  · intro w hook hget hdisabled
    rw [Table.get?_set] at hget
    split at hget
    · rename_i heq
      obtain ⟨hook', hget', rfl⟩ := Option.map_eq_some_iff.mp hget
      rw [heq]
      exact henabled hook' hget' hdisabled
    · exact hoff w (hs.hooks w hook hget hdisabled)

theorem keeps_setHook {ids : ℕ → Prop} (hoff : ∀ w, s.switchedOff w = true → off w = true) :
  Keeps ids s { s with hooks := s.hooks.set id g hg, switchedOff := off }
  := by
  apply keeps_hooks _ hoff
  intro w hw
  rw [← Option.isNone_iff_eq_none, ← Option.isSome_eq_false_iff, Table.isSome_get?_set, hw]
  rfl

end

/-! ### Recording an event -/

/-- Inserting deliveries of an event to hooks that are there keeps the outbox sound, and leaves the
deliveries there as they are. -/
theorem sound_enqueue {eventId : ℕ} (now : DateTime) {hs : List Webhook} (h : s.Sound)
    (hevent : (s.events.get? eventId).isSome = true)
    (hhooks : ∀ hook ∈ hs, (s.hooks.get? hook.id).isSome = true) :
  (s.enqueue eventId now hs).Sound ∧ (s.enqueue eventId now hs).holder = s.holder
    ∧ Keeps (fun id => id < s.nextDelivery) s (s.enqueue eventId now hs)
  := by
  induction hs generalizing s with
  | nil => exact ⟨h, rfl, Keeps.refl⟩
  | cons hook hs ih =>
      rw [Outbox.enqueue]
      split
      · exact ⟨h, rfl, Keeps.refl⟩
      · rename_i deliveries hinsert
        have hget := Table.get?_insert hinsert
        have hsound : ({ s with deliveries, nextDelivery := s.nextDelivery + 1 } : Outbox).Sound := by
          refine ⟨?_, h.hooks, fun id i hi => (h.holders id i hi).trans (Nat.lt_succ_self _)⟩
          intro id d hd
          change deliveries.get? id = some d at hd
          rw [hget] at hd
          split at hd
          · cases hd
            refine ⟨Nat.lt_succ_self _, hhooks hook List.mem_cons_self, hevent, ?_, ?_, ?_, ?_⟩
            · rintro ⟨⟩
            · exact fun _ => Int.natCast_nonneg _
            · rintro ⟨⟩
            · rintro ⟨⟩
          · have hrow := h.rows id d hd
            exact ⟨hrow.fresh.trans (Nat.lt_succ_self _), hrow.hook, hrow.event, hrow.held,
              hrow.attempts, hrow.delivered, hrow.dead⟩
        obtain ⟨hsound', hholder, hkeeps⟩ := ih hsound hevent
          (fun hook' hhook' => hhooks hook' (List.mem_cons_of_mem _ hhook'))
        refine ⟨hsound', hholder, ?_, hkeeps.events, hkeeps.sent, hkeeps.switchedOff, hkeeps.hooks⟩
        intro id d hid hd
        have hd' := hkeeps.rows id d (hid.trans (Nat.lt_succ_self _)) hd
        change deliveries.get? id = some d at hd'
        have hne : id ≠ s.nextDelivery := Nat.ne_of_lt hid
        rw [hget, key_delivery, if_neg hne] at hd'
        exact hd'

theorem sound_record (h : s.Sound) (teamId : Uuid) (action details : String) (now : DateTime) :
  (s.record teamId action details now).Sound
    ∧ (s.record teamId action details now).holder = s.holder
    ∧ Keeps (fun id => id < s.nextDelivery) s (s.record teamId action details now)
  := by
  rw [Outbox.record]
  split
  · exact ⟨h, rfl, Keeps.refl⟩
  · rename_i events hinsert
    have hget := Table.get?_insert hinsert
    have hevents : ∀ e, (s.events.get? e).isSome = true → (events.get? e).isSome = true := by
      intro e he
      rw [hget]
      split
      · rfl
      · exact he
    have hsound : ({ s with events, nextEvent := s.nextEvent + 1 } : Outbox).Sound := by
      refine ⟨?_, h.hooks, h.holders⟩
      intro id d hd
      have hrow := h.rows id d hd
      exact ⟨hrow.fresh, hrow.hook, hevents _ hrow.event, hrow.held, hrow.attempts, hrow.delivered,
        hrow.dead⟩
    have hevent : (events.get? s.nextEvent).isSome = true := by
      rw [hget]
      simp
    have hhooks : ∀ hook ∈ s.hooks.select (fun h =>
        decide (h.teamId = teamId) && h.enabled && h.wants action),
          (s.hooks.get? hook.id).isSome = true := by
      intro hook hhook
      exact Option.isSome_of_eq_some (Table.get?_of_mem (List.mem_filter.mp hhook).1)
    obtain ⟨hsound', hholder, hkeeps⟩ := sound_enqueue now hsound hevent hhooks
    exact ⟨hsound', hholder, hkeeps.rows, fun e he => hkeeps.events e (hevents e he), hkeeps.sent,
      hkeeps.switchedOff, hkeeps.hooks⟩

end

/-! ### Steps of a pass -/

section
variable {i : ℕ} {s s' : Outbox} {b : Batch} {pc pc' : BatchAt} {rest : List Batch}

theorem Batch.mem_ids (b : Batch) {c : Claim} (hc : c ∈ b.rows) :
  c.id ∈ b.ids
  := List.mem_map_of_mem hc

theorem idsOf_cons :
  idsOf (b :: rest) = b.ids ++ idsOf rest
  := List.flatMap_cons

/-- The deliveries of later batches are not in this one. -/
theorem not_mem_ids (hnodup : (idsOf (b :: rest)).Nodup) {id : ℕ} (hid : id ∈ idsOf rest) :
  id ∉ b.ids
  := by
  rw [idsOf_cons, List.nodup_append] at hnodup
  exact fun hb => hnodup.2.2 id hb id hid rfl

/-- A pass holds the deliveries of its batch. -/
theorem holder_of_mem_ids (ht : PassAsserts i s (.batch b pc rest)) {id : ℕ} (hid : id ∈ b.ids) :
  s.holder id = some i
  := by
  rw [ht.1 id, PassAt.held, idsOf_cons]
  exact List.mem_append_left _ hid

/-- The deliveries of later batches are held, and not in this one. -/
theorem later_of_mem (ht : PassAsserts i s (.batch b pc rest)) {b' : Batch} (hb' : b' ∈ rest)
    {c : Claim} (hc : c ∈ b'.rows) :
  (s.holder c.id).isSome = true ∧ c.id ∉ b.ids
  := by
  have hheld := (ht.1 c.id).mpr (mem_idsOf (List.mem_cons_of_mem _ hb') hc)
  exact ⟨Option.isSome_of_eq_some hheld, not_mem_ids ht.2.1 (mem_idsOf hb' hc)⟩

/-- What is held by another pass is not in this batch. -/
theorem not_mem_ids_of_holder (ht : PassAsserts i s (.batch b pc rest)) {j : ℕ} (hj : j ≠ i)
    {id : ℕ} (hid : s.holder id = some j) :
  (s.holder id).isSome = true ∧ id ∉ b.ids
  := by
  refine ⟨Option.isSome_of_eq_some hid, fun hb => hj ?_⟩
  rw [holder_of_mem_ids ht hb] at hid
  exact (Option.some.inj hid).symm

/-- A step that writes no deliveries but those of the batch of the pass, and keeps the pass in the
batch. -/
theorem passAsserts_batch (ht : PassAsserts i s (.batch b pc rest)) (hholder : s'.holder = s.holder)
    (hkeeps : Keeps (fun id => (s.holder id).isSome = true ∧ id ∉ b.ids) s s')
    (hknown : Known s' b) (hpc : AtPc s' b pc') :
  PassAsserts i s' (.batch b pc' rest) ∧ ∀ j, j ≠ i → LeavesPass j s s'
  := by
  have ⟨hholds, hnodup, hknown', hunwritten, _⟩ := ht
  refine ⟨⟨?_, hnodup, ?_, ?_, hpc⟩, fun j hj => ⟨?_, ?_⟩⟩
  · rw [hholder]
    exact hholds
  · intro b' hb'
    obtain rfl | hb' := List.mem_cons.mp hb'
    · exact hknown
    · exact hkeeps.known (fun c hc => later_of_mem ht hb' hc) (hknown' b' (List.mem_cons_of_mem _ hb'))
  · intro b' hb'
    exact hkeeps.unwritten (fun c hc => later_of_mem ht hb' hc) (hunwritten b' hb')
  · rw [hholder]
    exact fun _ => Iff.rfl
  · exact hkeeps.mono (fun id hid => not_mem_ids_of_holder ht hj hid)

theorem keeps_hold {ids : ℕ → Prop} (h : Keeps ids s s') (held : List ℕ) (thread : Option ℕ) :
  Keeps ids s (s'.hold held thread)
  := ⟨h.rows, h.events, h.sent, h.switchedOff, h.hooks⟩

/-- The end of a batch. -/
theorem passAsserts_finish (ht : PassAsserts i s (.batch b pc rest)) (hholder : s'.holder = s.holder)
    (hkeeps : Keeps (fun id => (s.holder id).isSome = true ∧ id ∉ b.ids) s s') :
  PassAsserts i (b.finish s' rest).1 (b.finish s' rest).2
    ∧ ∀ j, j ≠ i → LeavesPass j s (b.finish s' rest).1
  := by
  have hkeeps' := keeps_hold hkeeps b.ids none
  have ⟨hholds, hnodup, hknown, hunwritten, _⟩ := ht
  have hheld : (nextBatch rest).held = idsOf rest := by
    cases rest with
    | nil => rfl
    | cons b' rest => rfl
  refine ⟨⟨fun id => ?_, ?_⟩, fun j hj => ⟨fun id => ?_, ?_⟩⟩
  · simp only [Batch.finish, Outbox.hold, hheld, hholder]
    split
    · rename_i hb
      constructor
      · rintro ⟨⟩
      · exact fun hid => absurd hb (not_mem_ids hnodup hid)
    · rename_i hb
      rw [hholds id, PassAt.held, idsOf_cons, List.mem_append]
      exact or_iff_right hb
  · cases rest with
    | nil => trivial
    | cons b' rest =>
        have hnodup' := hnodup
        rw [idsOf_cons, List.nodup_append] at hnodup'
        refine ⟨hnodup'.2.1, fun b₁ hb₁ => ?_, fun b₁ hb₁ => ?_, ?_⟩
        · exact hkeeps'.known (fun c hc => later_of_mem ht hb₁ hc)
            (hknown b₁ (List.mem_cons_of_mem _ hb₁))
        · have hlater := List.mem_cons_of_mem b' hb₁
          exact hkeeps'.unwritten (fun c hc => later_of_mem ht hlater hc) (hunwritten b₁ hlater)
        · exact hkeeps'.unwritten (fun c hc => later_of_mem ht List.mem_cons_self hc)
            (hunwritten b' List.mem_cons_self)
  · simp only [Batch.finish, Outbox.hold, hholder]
    split
    · rename_i hb
      rw [holder_of_mem_ids ht hb]
      simp [hj.symm]
    · exact Iff.rfl
  · exact hkeeps'.mono (fun id hid => not_mem_ids_of_holder ht hj hid)

/-- What a step of a pass brings about. -/
def Goes (i : ℕ) (s : Outbox) (q : Outbox × PassAt) : Prop :=
  q.1.Sound ∧ PassAsserts i q.1 q.2 ∧ ∀ j, j ≠ i → LeavesPass j s q.1

/-- The deliveries of a batch, where it relies on the claims being of its hook. -/
theorem known_setRows {f : Delivery → Delivery} {hf : ∀ d, key (f d) = key d} {ids : List ℕ}
    (hknown : Known s b) (hsame : ∀ d, (f d).webhookId = d.webhookId ∧ (f d).eventId = d.eventId) :
  Known (s.setRows ids f hf) b
  := by
  intro c hc
  obtain ⟨hhook, hevent, hrow⟩ := hknown c hc
  refine ⟨hhook, hevent, fun d hd => ?_⟩
  rw [get?_setRows] at hd
  obtain ⟨d', hd', rfl⟩ := Option.map_eq_some_iff.mp hd
  split
  · rw [(hsame d').1, (hsame d').2]
    exact hrow d' hd'
  · exact hrow d' hd'

/-- A statement that only reads. -/
theorem goes_read (hs : s.Sound) (ht : PassAsserts i s (.batch b pc rest)) (hpc : AtPc s b pc') :
  Goes i s (s, .batch b pc' rest)
  := by
  refine ⟨hs, passAsserts_batch ht rfl Keeps.refl ?_ hpc⟩
  exact ht.2.2.1 b List.mem_cons_self

/-- Writing the deliveries of a batch, and going on in it. -/
theorem goes_setRows {ids : List ℕ} {f : Delivery → Delivery} {hf : ∀ d, key (f d) = key d}
    (hs : s.Sound) (ht : PassAsserts i s (.batch b pc rest)) (hids : ∀ id ∈ ids, id ∈ b.ids)
    (hsame : ∀ d, (f d).webhookId = d.webhookId ∧ (f d).eventId = d.eventId)
    (hrows : ∀ id d, id ∈ ids → s.deliveries.get? id = some d → RowSound s (f d))
    (hpc : AtPc (s.setRows ids f hf) b pc') :
  Goes i s (s.setRows ids f hf, .batch b pc' rest)
  := by
  refine ⟨sound_setRows hs hrows, passAsserts_batch ht rfl ?_ ?_ hpc⟩
  · exact keeps_setRows.mono (fun id hid hmem => hid.2 (hids id hmem))
  · exact known_setRows (ht.2.2.1 b List.mem_cons_self) hsame

/-- The end of a batch, when none of its deliveries is being sent. -/
theorem goes_finish (hs' : s'.Sound) (ht : PassAsserts i s (.batch b pc rest))
    (hholder : s'.holder = s.holder)
    (hkeeps : Keeps (fun id => (s.holder id).isSome = true ∧ id ∉ b.ids) s s')
    (hwritten : ∀ c ∈ b.rows, ∀ d, s'.deliveries.get? c.id = some d → d.status ≠ .sending) :
  Goes i s (b.finish s' rest)
  := by
  refine ⟨?_, passAsserts_finish ht hholder hkeeps⟩
  apply sound_released hs'
  intro id hid d hd
  obtain ⟨c, hc, rfl⟩ := List.mem_map.mp hid
  exact hwritten c hc d hd

/-- A delivery of a batch that is as it was claimed. -/
theorem claim_of_mem_ids {id : ℕ} (hid : id ∈ b.ids) (hunwritten : Unwritten s b)
    (hknown : Known s b) {d : Delivery} (hd : s.deliveries.get? id = some d) :
  ∃ c ∈ b.rows, c.id = id ∧ d.status = .sending ∧ d.webhookId = b.webhookId
    ∧ d.webhookId = c.webhookId ∧ d.eventId = c.eventId
  := by
  obtain ⟨c, hc, rfl⟩ := List.mem_map.mp hid
  obtain ⟨hhook, -, hrow⟩ := hknown c hc
  obtain ⟨hwebhook, hevent⟩ := hrow d hd
  exact ⟨c, hc, rfl, (hunwritten c hc d hd).1, hwebhook.trans hhook, hwebhook, hevent⟩

theorem goes_load (hs : s.Sound) (ht : PassAsserts i s (.batch b .load rest)) {now : DateTime}
    {q : Outbox × PassAt} (h : b.exec s now rest .load = some q) :
  Goes i s q
  := by
  have hunwritten : Unwritten s b := ht.2.2.2.2
  rw [Batch.exec] at h
  split at h
  · rename_i hnone
    cases h
    exact goes_read hs ht ⟨hunwritten, .inr hnone⟩
  · rename_i hook hhook
    split at h
    · rename_i hoff
      cases h
      rw [Bool.not_eq_true'] at hoff
      exact goes_read hs ht ⟨hunwritten, .inl (hs.hooks _ hook hhook hoff)⟩
    · cases h
      exact goes_read hs ht hunwritten

/-- Deliveries are given up when their hook is off. -/
theorem goes_bury (hs : s.Sound) (ht : PassAsserts i s (.batch b .bury rest)) :
  Goes i s (b.finish (s.setRows b.ids (fun d => { d with status := .dead }) (fun _ => rfl)) rest)
  := by
  obtain ⟨hunwritten, hoff⟩ := ht.2.2.2.2
  have hknown : Known s b := ht.2.2.1 b List.mem_cons_self
  refine goes_finish ?_ ht rfl (keeps_setRows.mono (fun id hid => hid.2)) ?_
  · apply sound_setRows hs
    intro id d hid hd
    obtain ⟨c, -, -, hsending, hwebhook, -, -⟩ := claim_of_mem_ids hid hunwritten hknown hd
    have hrow := hs.rows id d hd
    refine ⟨hrow.fresh, hrow.hook, hrow.event, ?_, ?_, ?_, ?_⟩
    · rintro ⟨⟩
    · intro _
      apply hrow.attempts
      rw [hsending]
      rintro ⟨⟩
    · rintro ⟨⟩
    · intro _
      left
      rcases hoff with hoff | hnone
      · rw [hwebhook]
        exact hoff
      · have hhook := hrow.hook
        rw [hwebhook, hnone] at hhook
        cases hhook
  · intro c hc d hd
    obtain ⟨d', -, rfl⟩ := exists_of_get?_setRows (b.mem_ids hc) hd
    rintro ⟨⟩

/-- The events of the claims are among those read. -/
theorem goes_fetch (hs : s.Sound) {hook : Webhook} (ht : PassAsserts i s (.batch b (.fetch hook) rest))
    {now : DateTime} {q : Outbox × PassAt} (h : b.exec s now rest (.fetch hook) = some q) :
  Goes i s q
  := by
  cases h
  apply goes_read hs ht
  refine ⟨ht.2.2.2.2, fun c hc => ?_⟩
  obtain ⟨-, hevent, -⟩ := ht.2.2.1 b List.mem_cons_self c hc
  obtain ⟨e, he⟩ := Option.isSome_iff_exists.mp hevent
  have hkey : e.id = c.eventId := Table.key_of_get? he
  apply List.mem_map.mpr
  refine ⟨e, ?_, hkey⟩
  rw [List.mem_insertionSort]
  apply List.mem_filter.mpr
  refine ⟨Table.mem_of_get? he, decide_eq_true ?_⟩
  rw [hkey]
  exact List.mem_map_of_mem hc

/-- Deliveries of a batch that was taken are marked as delivered. -/
theorem goes_markOk (hs : s.Sound) {result : SendResult}
    (ht : PassAsserts i s (.batch b (.markOk result) rest)) {now : DateTime} {q : Outbox × PassAt}
    (h : b.exec s now rest (.markOk result) = some q) :
  Goes i s q
  := by
  cases h
  obtain ⟨hunwritten, hdelivered⟩ := ht.2.2.2.2
  have hknown : Known s b := ht.2.2.1 b List.mem_cons_self
  refine goes_setRows hs ht (fun _ hid => hid) (fun _ => ⟨rfl, rfl⟩) ?_ ?_
  · intro id d hid hd
    obtain ⟨c, hc, -, -, -, hwebhook, hevent⟩ := claim_of_mem_ids hid hunwritten hknown hd
    have hrow := hs.rows id d hd
    refine ⟨hrow.fresh, hrow.hook, hrow.event, ?_, fun hne => absurd rfl hne, ?_, ?_⟩
    · rintro ⟨⟩
    · intro _
      change s.Delivered d.webhookId d.eventId
      rw [hwebhook, hevent]
      exact hdelivered c hc
    · rintro ⟨⟩
  · intro c hc d hd
    obtain ⟨d', -, rfl⟩ := exists_of_get?_setRows (b.mem_ids hc) hd
    rintro ⟨⟩

/-- A delivery is noted with the hook, and the batch is done. -/
theorem goes_markHook (hs : s.Sound) {result : SendResult}
    (ht : PassAsserts i s (.batch b (.markHook result) rest)) {now : DateTime}
    {q : Outbox × PassAt} (h : b.exec s now rest (.markHook result) = some q) :
  Goes i s q
  := by
  cases h
  refine goes_finish ?_ ht rfl (keeps_setHook (fun _ h => h)) ht.2.2.2.2
  exact sound_setHook hs (fun _ h => h) (fun hook hget hoff => hs.hooks _ hook hget hoff)

section
variable (d : Delivery) (n : ℤ) (result : SendResult) (now : DateTime)

theorem Delivery.webhookId_retried :
  (d.retried n result now).webhookId = d.webhookId
  := by
  rw [retried]
  split <;> rfl

theorem Delivery.eventId_retried :
  (d.retried n result now).eventId = d.eventId
  := by
  rw [retried]
  split <;> rfl

theorem Delivery.attempt_retried :
  (d.retried n result now).attempt = n
  := by
  rw [retried]
  split <;> rfl

/-- A delivery is given up when it was tried often enough, and is pending otherwise. -/
theorem Delivery.status_retried :
  (d.retried n result now).status = .dead ∧ MAX_ATTEMPTS ≤ n
    ∨ (d.retried n result now).status = .pending
  := by
  rw [retried]
  split
  · rename_i h
    exact .inl ⟨rfl, h⟩
  · exact .inr rfl

theorem Delivery.status_retried_ne_ok :
  (d.retried n result now).status ≠ .ok
  := by
  rcases d.status_retried n result now with ⟨h, -⟩ | h <;> simp [h]

theorem Delivery.status_retried_ne_sending :
  (d.retried n result now).status ≠ .sending
  := by
  rcases d.status_retried n result now with ⟨h, -⟩ | h <;> simp [h]

variable {d n result now}

/-- A failed send of its event lets a delivery count one attempt more. -/
theorem rowSound_retried (hrow : RowSound s d) (hfailures : n ≤ s.failures d.webhookId d.eventId) :
  RowSound s (d.retried n result now)
  := by
  have hkey : (d.retried n result now).id = d.id := d.key_retried n result now
  refine ⟨?_, ?_, ?_, ?_, ?_, ?_, ?_⟩
  · rw [hkey]
    exact hrow.fresh
  · rw [d.webhookId_retried]
    exact hrow.hook
  · rw [d.eventId_retried]
    exact hrow.event
  · exact fun h => absurd h (d.status_retried_ne_sending _ _ _)
  · intro _
    rw [d.attempt_retried, d.webhookId_retried, d.eventId_retried]
    exact hfailures
  · exact fun h => absurd h (d.status_retried_ne_ok _ _ _)
  · intro hdead
    rw [d.webhookId_retried, d.eventId_retried]
    rcases d.status_retried n result now with ⟨-, hmax⟩ | hpending
    · exact .inr (hmax.trans hfailures)
    · rw [hpending] at hdead
      cases hdead

end

/-- An attempt that failed is counted: the delivery is tried again, or given up after as many failed
sends as are tried. -/
theorem goes_retry (hs : s.Sound) {hook : Webhook} {result : SendResult} {c : Claim}
    {left : List Claim} (ht : PassAsserts i s (.batch b (.retry hook result (c :: left)) rest))
    (now : DateTime) :
  Goes i s (s.retried c result now, .batch b (.retry hook result left) rest)
  := by
  obtain ⟨hsettled, hleft⟩ := ht.2.2.2.2
  obtain ⟨hmem, hfailures⟩ := hleft c List.mem_cons_self
  refine goes_setRows hs ht ?_ ?_ ?_ ⟨?_, ?_⟩
  · intro id hid
    rw [List.mem_singleton.mp hid]
    exact b.mem_ids hmem
  · exact fun d => ⟨d.webhookId_retried _ _ _, d.eventId_retried _ _ _⟩
  · intro id d hid hd
    rw [List.mem_singleton.mp hid] at hd
    exact rowSound_retried (hs.rows _ d hd) (hfailures d hd)
  · intro c' hc' d hd
    by_cases hsame : c'.id = c.id
    · obtain ⟨d', -, rfl⟩ := exists_of_get?_setRows (List.mem_singleton.mpr hsame) hd
      exact ⟨d'.status_retried_ne_ok _ _ _, fun h => absurd h (d'.status_retried_ne_sending _ _ _)⟩
    · rw [get?_setRows, Option.map_eq_some_iff] at hd
      obtain ⟨d', hd', rfl⟩ := hd
      rw [if_neg (fun h => hsame (List.mem_singleton.mp h))]
      obtain ⟨hok, hsending⟩ := hsettled c' hc' d' hd'
      refine ⟨hok, fun h => ?_⟩
      obtain rfl | hlater := List.mem_cons.mp (hsending h)
      · exact absurd rfl hsame
      · exact hlater
  · intro c' hc'
    obtain ⟨hmem', hfailures'⟩ := hleft c' (List.mem_cons_of_mem _ hc')
    refine ⟨hmem', fun d hd => ?_⟩
    rw [get?_setRows, Option.map_eq_some_iff] at hd
    obtain ⟨d', hd', rfl⟩ := hd
    have hcount := hfailures' d' hd'
    split
    · rw [d'.webhookId_retried, d'.eventId_retried]
      exact hcount
    · exact hcount

/-- The deliveries of a batch whose attempts are all counted are not being sent. -/
theorem written_of_settled (h : Settled s b []) :
  ∀ c ∈ b.rows, ∀ d, s.deliveries.get? c.id = some d → d.status ≠ .sending
  := by
  intro c hc d hd hsending
  exact absurd ((h c hc d hd).2 hsending) List.not_mem_nil

/-- A failure is counted against the hook, which is switched off after too many. -/
theorem goes_countFailure (hs : s.Sound) {hook : Webhook} {result : SendResult}
    (ht : PassAsserts i s (.batch b (.countFailure hook result) rest)) {now : DateTime}
    {q : Outbox × PassAt} (h : b.exec s now rest (.countFailure hook result) = some q) :
  Goes i s q
  := by
  have hsettled : Settled s b [] := ht.2.2.2.2
  have hoff : ∀ w, s.switchedOff w = true → (s.failureCounted hook result).switchedOff w = true := by
    intro w hw
    simp [Outbox.failureCounted, hw]
  have hsound : (s.failureCounted hook result).Sound := by
    apply sound_setHook hs hoff
    intro h hget hdisabled
    dsimp only at hdisabled
    split at hdisabled
    · rename_i hdisable
      simp only [Outbox.failureCounted, hdisable, decide_true, Bool.and_true, Bool.or_true]
    · exact hoff _ (hs.hooks _ h hget hdisabled)
  have hkeeps : ∀ ids, Keeps ids s (s.failureCounted hook result) := fun ids => keeps_setHook hoff
  rw [Batch.exec] at h
  split at h
  · cases h
    refine ⟨hsound, passAsserts_batch ht rfl (hkeeps _) ?_ hsettled⟩
    exact ht.2.2.1 b List.mem_cons_self
  · cases h
    exact goes_finish hsound ht rfl (hkeeps _) (written_of_settled hsettled)

/-- The event of a hook that was switched off is recorded. -/
theorem goes_announce (hs : s.Sound) {hook : Webhook} {result : SendResult}
    (ht : PassAsserts i s (.batch b (.announce hook result) rest)) (now : DateTime) :
  Goes i s (b.finish (s.record hook.teamId "webhook.disabled" hook.url now) rest)
  := by
  obtain ⟨hsound, hholder, hkeeps⟩ :=
    sound_record hs hook.teamId "webhook.disabled" hook.url now
  refine goes_finish hsound ht hholder ?_ ?_
  · apply hkeeps.mono
    intro id hid
    obtain ⟨j, hj⟩ := Option.isSome_iff_exists.mp hid.1
    exact hs.holders id j hj
  · intro c hc d hd
    have hlt := hs.holders c.id i (holder_of_mem_ids ht (b.mem_ids hc))
    exact written_of_settled ht.2.2.2.2 c hc d (hkeeps.rows c.id d hlt hd)

/-- Rows that are put back are pending. -/
theorem goes_putBack (hs : s.Sound) (ht : PassAsserts i s (.batch b .putBack rest)) {now : DateTime}
    {q : Outbox × PassAt} (h : b.exec s now rest .putBack = some q) :
  Goes i s q
  := by
  cases h
  have hsettled : Settled s b b.rows := ht.2.2.2.2
  refine goes_finish ?_ ht rfl (keeps_setRows.mono (fun id hid => hid.2)) ?_
  · apply sound_setRows hs
    intro id d hid hd
    obtain ⟨c, hc, rfl⟩ := List.mem_map.mp hid
    have hrow := hs.rows _ d hd
    refine ⟨hrow.fresh, hrow.hook, hrow.event, ?_, ?_, ?_, ?_⟩
    · rintro ⟨⟩
    · exact fun _ => hrow.attempts (hsettled c hc d hd).1
    · rintro ⟨⟩
    · rintro ⟨⟩
  · intro c hc d hd
    obtain ⟨d', -, rfl⟩ := exists_of_get?_setRows (b.mem_ids hc) hd
    rintro ⟨⟩

/-- A failed send of an event counts. -/
theorem failures_append {w : Uuid} {e : ℕ} {events : List ℕ} {ok : Bool} (hok : ok = false)
    (he : e ∈ events) :
  ({ s with sent := s.sent ++ [⟨w, events, ok⟩] } : Outbox).failures w e = s.failures w e + 1
  := by
  simp [Outbox.failures, List.filter_append, hok, he]

/-- A batch is answered: its deliveries are delivered, or count a failed send more. -/
theorem goes_answer (hs : s.Sound) {hook : Webhook} {events : List AuditEvent}
    (ht : PassAsserts i s (.batch b (.send hook events) rest)) (result : SendResult) :
  Goes i s (b.answer s rest events hook result)
  := by
  obtain ⟨hunwritten, hevents⟩ := ht.2.2.2.2
  have hknown : Known s b := ht.2.2.1 b List.mem_cons_self
  have hkeeps : ∀ ids, Keeps ids s (b.answer s rest events hook result).1 := fun ids =>
    ⟨fun _ _ _ h => h, fun _ h => h, List.prefix_append _ _, fun _ h => h, fun _ h => h⟩
  refine ⟨?_, passAsserts_batch ht rfl (hkeeps _) hknown ?_⟩
  · refine ⟨?_, hs.hooks, hs.holders⟩
    intro id d hd
    have hrow := hs.rows id d hd
    refine ⟨hrow.fresh, hrow.hook, hrow.event, hrow.held, ?_, ?_, ?_⟩
    · exact fun hne => (hrow.attempts hne).trans (hkeeps (fun _ => True)).failures
    · exact fun hok => (hkeeps (fun _ => True)).delivered (hrow.delivered hok)
    · exact fun hdead => (hrow.dead hdead).imp_right
        (fun h => h.trans (hkeeps (fun _ => True)).failures)
  · cases hok : result.ok with
    | true =>
        refine ⟨hunwritten, fun c hc => ?_⟩
        refine ⟨⟨b.webhookId, events.map AuditEvent.id, result.ok⟩, ?_, ?_, hevents c hc, hok⟩
        · exact List.mem_append_right _ (List.mem_singleton_self _)
        · exact (hknown c hc).1.symm
    | false =>
        refine ⟨?_, fun c hc => ⟨hc, fun d hd => ?_⟩⟩
        · intro c hc d hd
          have hsending := (hunwritten c hc d hd).1
          refine ⟨?_, fun _ => hc⟩
          rw [hsending]
          rintro ⟨⟩
        · obtain ⟨hsending, hattempt⟩ := hunwritten c hc d hd
          obtain ⟨hwebhook, hevent⟩ := (hknown c hc).2.2 d hd
          have hattempts := (hs.rows _ d hd).attempts (by
            rw [hsending]
            rintro ⟨⟩)
          have hsent : (b.answer s rest events hook result).1.failures d.webhookId d.eventId
              = s.failures d.webhookId d.eventId + 1 := by
            rw [hwebhook, hevent, (hknown c hc).1]
            apply failures_append hok
            exact hevents c hc
          rw [hsent, ← hattempt]
          exact Int.add_le_add_right hattempts 1

/-- The deliveries of a batch that were not written can be put back. -/
theorem Unwritten.settled (h : Unwritten s b) :
  Settled s b b.rows
  := by
  intro c hc d hd
  refine ⟨?_, fun _ => hc⟩
  rw [(h c hc d hd).1]
  rintro ⟨⟩

theorem Settled.rows {left : List Claim} (h : Settled s b left) :
  Settled s b b.rows
  := fun c hc d hd => ⟨(h c hc d hd).1, fun _ => hc⟩

/-- A pass leaves its batches, when none of their deliveries is being sent. -/
theorem goes_abandon (hs : s.Sound) (ht : PassAsserts i s (.batch b pc rest))
    (hids : ∀ id ∈ idsOf (b :: rest), s.isSending id = false) :
  Goes i s (s.hold (idsOf (b :: rest)) none, .done)
  := by
  refine ⟨?_, ⟨fun id => ?_, trivial⟩, fun j hj => ⟨fun id => ?_, keeps_hold Keeps.refl _ _⟩⟩
  · apply sound_released hs
    intro id hid d hd hsending
    have hnot := hids id hid
    rw [Outbox.isSending, hd, Option.any_some, hsending] at hnot
    cases hnot
  · simp only [Outbox.hold, PassAt.held, List.not_mem_nil, iff_false]
    split
    · rintro ⟨⟩
    · rename_i hid
      exact fun h => hid ((ht.1 id).mp h)
  · simp only [Outbox.hold]
    split
    · rename_i hid
      rw [(ht.1 id).mpr hid]
      simp [hj.symm]
    · exact Iff.rfl

/-- A statement of a batch fails. -/
theorem goes_fail (hs : s.Sound) (ht : PassAsserts i s (.batch b pc rest))
    {p : PassPool} (hp : p.threads i = .batch b pc rest) (hshared : p.shared = s)
    (hG : undisturbed p (.run i .error) = true) {q : Outbox × PassAt}
    (h : b.fail s rest pc = some q) :
  Goes i s q
  := by
  have hpc : AtPc s b pc := ht.2.2.2.2
  rw [undisturbed] at hG
  simp only [hp, hshared] at hG
  cases pc with
  | load =>
      cases h
      exact goes_read hs ht (Unwritten.settled hpc)
  | bury =>
      cases h
      exact goes_read hs ht hpc.1.settled
  | fetch hook =>
      cases h
      exact goes_read hs ht (Unwritten.settled hpc)
  | send hook events => cases h
  | markOk result =>
      cases h
      exact goes_read hs ht hpc.1.settled
  | markHook result => cases hG
  | retry hook result left =>
      cases h
      exact goes_read hs ht hpc.1.rows
  | countFailure hook result =>
      cases h
      exact goes_read hs ht (Settled.rows hpc)
  | announce hook result =>
      cases h
      exact goes_finish hs ht rfl Keeps.refl (written_of_settled hpc)
  | putBack =>
      cases h
      apply goes_abandon hs ht
      intro id hid
      have hnot := List.all_eq_true.mp hG id hid
      rw [Bool.not_eq_true'] at hnot
      exact hnot

/-- The next statement of a batch. -/
theorem goes_exec (hs : s.Sound) (ht : PassAsserts i s (.batch b pc rest)) {now : DateTime}
    {q : Outbox × PassAt} (h : b.exec s now rest pc = some q) :
  Goes i s q
  := by
  cases pc with
  | load => exact goes_load hs ht h
  | bury =>
      cases h
      exact goes_bury hs ht
  | fetch hook => exact goes_fetch hs ht h
  | send hook events => cases h
  | markOk result => exact goes_markOk hs ht h
  | markHook result => exact goes_markHook hs ht h
  | retry hook result left =>
      cases left with
      | nil =>
          cases h
          exact goes_read hs ht ht.2.2.2.2.1
      | cons c left =>
          cases h
          exact goes_retry hs ht now
  | countFailure hook result => exact goes_countFailure hs ht h
  | announce hook result =>
      cases h
      exact goes_announce hs ht now
  | putBack => exact goes_putBack hs ht h

/-! ### Claiming -/

section
variable {only : Option Uuid} {now : DateTime} {skipped : List ℕ}

/-- What is due is a pending delivery. -/
theorem pending_of_mem_due {d : Delivery} (hd : d ∈ s.due only now skipped) :
  s.deliveries.get? d.id = some d ∧ d.status = .pending
  := by
  have hmem := List.mem_of_mem_take hd
  rw [List.mem_insertionSort] at hmem
  obtain ⟨hrow, hdue⟩ := List.mem_filter.mp hmem
  simp only [Bool.and_eq_true, decide_eq_true_eq] at hdue
  exact ⟨Table.get?_of_mem hrow, hdue.1.1.1⟩

/-- What is due is due once. -/
theorem nodup_due :
  ((s.due only now skipped).map Delivery.id).Nodup
  := by
  have hselected : ((s.deliveries.select (fun d => decide (d.status = .pending)
      && decide (d.nextAt ≤ now) && only.all (fun w => decide (d.webhookId = w))
        && decide (d.id ∉ skipped))).map key).Nodup :=
    s.deliveries.nodup.sublist (List.filter_sublist.map key)
  have hsorted := ((List.perm_insertionSort (fun d e : Delivery => d.id ≤ e.id) _).map
    key).nodup_iff.mpr hselected
  exact hsorted.sublist ((List.take_sublist 500 _).map key)

theorem get?_claimed (rows : List Delivery) (id : ℕ) :
  (s.claimed i rows).deliveries.get? id = (s.deliveries.get? id).map (fun d =>
    if id ∈ rows.map Delivery.id then { d with status := .sending } else d)
  := by
  rw [Outbox.claimed]
  apply get?_setRows
  intro d
  rfl

/-- What a pass claims is a delivery that was due, and is being sent now. -/
theorem exists_of_claimed {c : Claim}
    (hc : c ∈ (s.due only now skipped).map Delivery.claim) :
  ∃ d ∈ s.due only now skipped, c = d.claim ∧ ∀ d',
    (s.claimed i (s.due only now skipped)).deliveries.get? c.id = some d' →
      d' = { d with status := .sending }
  := by
  obtain ⟨d, hd, rfl⟩ := List.mem_map.mp hc
  refine ⟨d, hd, rfl, fun d' hd' => ?_⟩
  change (s.claimed i _).deliveries.get? d.id = some d' at hd'
  rw [get?_claimed, (pending_of_mem_due hd).1, Option.map_some,
    if_pos (List.mem_map_of_mem hd)] at hd'
  exact (Option.some.inj hd').symm

/-- The batches of what was claimed are as a pass relies on. -/
theorem relies_batches (hs : s.Sound) :
  Relies (s.claimed i (s.due only now skipped))
    (nextBatch (batches ((s.due only now skipped).map Delivery.claim)))
  := by
  have hknown : ∀ b ∈ batches ((s.due only now skipped).map Delivery.claim),
      Known (s.claimed i (s.due only now skipped)) b := by
    intro b hb c hc
    have hmem := mem_rowsOf_batches.mp (List.mem_flatMap.mpr ⟨b, hb, hc⟩)
    refine ⟨webhookId_of_mem_batches hb hc, ?_, fun d' hd' => ?_⟩
    · obtain ⟨d, hd, rfl, -⟩ := exists_of_claimed (i := i) hmem
      exact (hs.rows _ d (pending_of_mem_due hd).1).event
    · obtain ⟨d, -, rfl, hclaimed⟩ := exists_of_claimed (i := i) hmem
      rw [hclaimed d' hd']
      exact ⟨rfl, rfl⟩
  have hunwritten : ∀ b ∈ batches ((s.due only now skipped).map Delivery.claim),
      Unwritten (s.claimed i (s.due only now skipped)) b := by
    intro b hb c hc d' hd'
    have hmem := mem_rowsOf_batches.mp (List.mem_flatMap.mpr ⟨b, hb, hc⟩)
    obtain ⟨d, -, rfl, hclaimed⟩ := exists_of_claimed (i := i) hmem
    rw [hclaimed d' hd']
    exact ⟨rfl, rfl⟩
  have hnodup : (idsOf (batches ((s.due only now skipped).map Delivery.claim))).Nodup := by
    apply nodup_idsOf_batches
    rw [List.map_map]
    exact nodup_due
  revert hknown hunwritten hnodup
  cases batches ((s.due only now skipped).map Delivery.claim) with
  | nil => exact fun _ _ _ => trivial
  | cons b rest =>
      intro hknown hunwritten hnodup
      refine ⟨hnodup, hknown, fun b' hb' => hunwritten b' (List.mem_cons_of_mem _ hb'), ?_⟩
      exact hunwritten b List.mem_cons_self

/-- Claiming deliveries that are in no batch. -/
theorem goes_claim (hs : s.Sound) (ht : PassAsserts i s (.claim only))
    (hfree : ∀ d ∈ s.due only now skipped, s.holder d.id = none) :
  Goes i s (s.claimed i (s.due only now skipped),
    nextBatch (batches ((s.due only now skipped).map Delivery.claim)))
  := by
  have hheld : ∀ id, id ∈ (nextBatch (batches ((s.due only now skipped).map Delivery.claim))).held
      ↔ id ∈ (s.due only now skipped).map Delivery.id := by
    intro id
    have hids : (nextBatch (batches ((s.due only now skipped).map Delivery.claim))).held
        = idsOf (batches ((s.due only now skipped).map Delivery.claim)) := by
      cases batches ((s.due only now skipped).map Delivery.claim) with
      | nil => rfl
      | cons b rest => rfl
    rw [hids, idsOf_eq, List.mem_map, List.mem_map]
    constructor
    · rintro ⟨c, hc, rfl⟩
      obtain ⟨d, hd, rfl⟩ := List.mem_map.mp (mem_rowsOf_batches.mp hc)
      exact ⟨d, hd, rfl⟩
    · rintro ⟨d, hd, rfl⟩
      exact ⟨d.claim, mem_rowsOf_batches.mpr (List.mem_map_of_mem hd), rfl⟩
  have hnone : ∀ id ∈ (s.due only now skipped).map Delivery.id, s.holder id = none := by
    intro id hid
    obtain ⟨d, hd, rfl⟩ := List.mem_map.mp hid
    exact hfree d hd
  refine ⟨⟨?_, hs.hooks, ?_⟩, ⟨fun id => ?_, relies_batches hs⟩, fun j hj => ⟨fun id => ?_, ?_⟩⟩
  · intro id d' hd'
    change (s.claimed i _).deliveries.get? id = some d' at hd'
    rw [get?_claimed] at hd'
    obtain ⟨d, hd, rfl⟩ := Option.map_eq_some_iff.mp hd'
    have hrow := hs.rows id d hd
    have hkey : d.id = id := Table.key_of_get? hd
    by_cases hid : id ∈ (s.due only now skipped).map Delivery.id
    · rw [if_pos hid]
      obtain ⟨d₁, hd₁, hid₁⟩ := List.mem_map.mp hid
      obtain ⟨hget, hpending⟩ := pending_of_mem_due hd₁
      rw [hid₁, hd] at hget
      cases hget
      refine ⟨hrow.fresh, hrow.hook, hrow.event, fun _ => ?_, fun _ => hrow.attempts ?_, ?_, ?_⟩
      · simp only [Outbox.claimed, Outbox.hold]
        rw [if_pos (hkey ▸ hid)]
        rfl
      · rw [hpending]
        rintro ⟨⟩
      · rintro ⟨⟩
      · rintro ⟨⟩
    · rw [if_neg hid]
      refine ⟨hrow.fresh, hrow.hook, hrow.event, fun hsending => ?_, hrow.attempts,
        hrow.delivered, hrow.dead⟩
      simp only [Outbox.claimed, Outbox.hold]
      rw [if_neg (hkey ▸ hid)]
      exact hrow.held hsending
  · intro id j hj
    simp only [Outbox.claimed, Outbox.hold] at hj
    split at hj
    · rename_i hid
      obtain ⟨d, hd, rfl⟩ := List.mem_map.mp hid
      exact (hs.rows _ d (pending_of_mem_due hd).1).fresh
    · exact hs.holders id j hj
  · rw [hheld]
    simp only [Outbox.claimed, Outbox.hold]
    split
    · rename_i hid
      exact iff_of_true rfl hid
    · rename_i hid
      refine iff_of_false (fun h => ?_) hid
      exact absurd ((ht.1 id).mp h) List.not_mem_nil
  · simp only [Outbox.claimed, Outbox.hold]
    split
    · rename_i hid
      rw [hnone id hid]
      simp [hj.symm]
    · exact Iff.rfl
  · apply keeps_hold
    apply keeps_setRows.mono
    intro id hid hmem
    rw [hnone id hmem] at hid
    cases hid

end

/-- What a step of a pass brings about, when it loses nothing. -/
theorem goes_deliverPass {p : PassPool} {e : PassEvent} {q : Outbox × PassAt}
    (hs : p.shared.Sound) (ht : PassAsserts i p.shared (p.threads i))
    (hG : undisturbed p (.run i e) = true)
    (h : deliverPass i e p.shared (p.threads i) = some q) :
  Goes i p.shared q
  := by
  cases hat : p.threads i with
  | done =>
      rw [hat] at h ht
      cases e with
      | start only =>
          cases h
          exact ⟨hs, ⟨ht.1, trivial⟩, fun j _ => ⟨fun _ => Iff.rfl, Keeps.refl⟩⟩
      | next now skipped => cases h
      | answered result => cases h
      | error => cases h
      | crash => cases h
  | claim only =>
      rw [hat] at h ht
      cases e with
      | start only' => cases h
      | next now skipped =>
          cases h
          rw [undisturbed, hat] at hG
          apply goes_claim hs ht
          intro d hd
          exact Option.isNone_iff_eq_none.mp (List.all_eq_true.mp hG d hd)
      | answered result => cases h
      | error =>
          cases h
          exact ⟨hs, ⟨ht.1, trivial⟩, fun j _ => ⟨fun _ => Iff.rfl, Keeps.refl⟩⟩
      | crash =>
          cases h
          exact ⟨hs, ⟨ht.1, trivial⟩, fun j _ => ⟨fun _ => Iff.rfl, Keeps.refl⟩⟩
  | batch b pc rest =>
      have hat' := hat
      rw [hat] at h ht
      cases e with
      | start only => cases h
      | next now skipped => exact goes_exec hs ht h
      | answered result =>
          cases pc with
          | send hook events =>
              cases h
              exact goes_answer hs ht result
          | _ => cases h
      | error => exact goes_fail hs ht hat' rfl hG h
      | crash =>
          cases h
          rw [undisturbed, hat'] at hG
          apply goes_abandon hs ht
          intro id hid
          have hnot := List.all_eq_true.mp hG id hid
          rw [Bool.not_eq_true'] at hnot
          exact hnot

end

/-! ### The surroundings -/

section
variable {s : Outbox} (hs : s.Sound) (teamId : Uuid)
include hs

theorem leaves_record (action details : String) (now : DateTime) (j : ℕ) :
  LeavesPass j s (s.record teamId action details now)
  := by
  obtain ⟨-, hholder, hkeeps⟩ := sound_record hs teamId action details now
  refine ⟨fun id => ?_, hkeeps.mono (fun id hid => hs.holders id j hid)⟩
  rw [hholder]

/-- An update that switches a hook off is noted. -/
theorem sound_updateHook (id : Uuid) (u : Outbox.HookUpdate) :
  (s.updateHook teamId id u).Sound
  := by
  have hoff : ∀ w, s.switchedOff w = true → (s.updateHook teamId id u).switchedOff w = true := by
    intro w hw
    simp only [Outbox.updateHook, hw, Bool.true_or]
  apply sound_hooks hs
  · intro w hw
    rw [Table.get?_update, Option.isSome_map]
    exact hw
  · exact hoff
  · intro w hook hget hdisabled
    rw [Table.get?_update] at hget
    obtain ⟨hook', hget', rfl⟩ := Option.map_eq_some_iff.mp hget
    have hkey : hook'.id = w := Table.key_of_get? hget'
    split at hdisabled
    · rename_i hmatch
      simp only [Bool.and_eq_true, decide_eq_true_eq] at hmatch
      dsimp only at hdisabled
      rw [← hkey, hmatch.2, hdisabled]
      simp
    · exact hoff w (hs.hooks w hook' hget' hdisabled)

omit hs in
theorem leaves_updateHook (id : Uuid) (u : Outbox.HookUpdate) (j : ℕ) :
  LeavesPass j s (s.updateHook teamId id u)
  := by
  refine ⟨fun _ => Iff.rfl, ?_⟩
  apply keeps_hooks
  · intro w hw
    rw [Table.get?_update, hw]
    rfl
  · intro w hw
    simp only [hw, Bool.true_or]

/-- A deleted hook takes its deliveries with it. -/
theorem sound_deleteHook (id : Uuid) :
  (s.deleteHook teamId id).Sound
  := by
  rw [Outbox.deleteHook]
  split
  · refine ⟨?_, ?_, hs.holders⟩
    · intro n d hd
      dsimp only at hd
      rw [Table.get?_delete, Option.filter_eq_some_iff] at hd
      obtain ⟨hd, hne⟩ := hd
      have hrow := hs.rows n d hd
      refine ⟨hrow.fresh, ?_, hrow.event, hrow.held, hrow.attempts, hrow.delivered, hrow.dead⟩
      simp only [Bool.not_eq_true', decide_eq_false_iff_not] at hne
      dsimp only
      rw [Table.get?_erase, if_neg hne]
      exact hrow.hook
    · intro w hook hget
      dsimp only at hget
      rw [Table.get?_erase] at hget
      split at hget
      · cases hget
      · exact hs.hooks w hook hget
  · exact hs

omit hs in
theorem leaves_deleteHook (id : Uuid) (j : ℕ) :
  LeavesPass j s (s.deleteHook teamId id)
  := by
  rw [Outbox.deleteHook]
  split
  · refine ⟨fun _ => Iff.rfl, ?_, fun _ h => h, List.prefix_rfl, fun _ h => h, ?_⟩
    · intro n d _ hd
      dsimp only at hd
      rw [Table.get?_delete, Option.filter_eq_some_iff] at hd
      exact hd.1
    · intro w hw
      dsimp only
      rw [Table.get?_erase, hw]
      exact ite_self none
  · exact ⟨fun _ => Iff.rfl, Keeps.refl⟩

end

/-! ### Runs -/

/-- At first nothing is recorded. -/
theorem sound_init {s : Outbox} (h : passes.init s) :
  s.Sound ∧ ∀ i t, passes.start t → PassAsserts i s t
  := by
  obtain ⟨-, hdeliveries, -, hhooks, hholder⟩ := h
  refine ⟨⟨?_, ?_, ?_⟩, ?_⟩
  · intro id d hd
    rw [hdeliveries, Table.get?_empty] at hd
    cases hd
  · intro id hook hget hdisabled
    rw [← Table.key_of_get? hget]
    exact hhooks hook (Table.mem_of_get? hget) hdisabled
  · intro id i hi
    rw [hholder id] at hi
    cases hi
  · rintro i t rfl
    refine ⟨fun id => ?_, trivial⟩
    rw [hholder id]
    simp [PassAt.held]

/-- Without disturbance the outbox stays sound, and every pass finds what it relies on. -/
theorem holds_of_undisturbed {p : PassPool}
    (h : passes.system.Reaches (fun p l => undisturbed p l = true) p) :
  Threads.Holds Outbox.Sound PassAsserts p
  := by
  apply Threads.holds_of_reaches _ _ _ h
  · exact fun s hs => sound_init hs
  · intro p i e s' t' ⟨hs, hasserts⟩ hG hexec
    obtain ⟨hsound, hassert, hleaves⟩ := goes_deliverPass hs (hasserts i) hG hexec
    exact ⟨hsound, hassert, fun j hj => passAsserts_of_leaves (hleaves j hj) (hasserts j)⟩
  · intro p x s' ⟨hs, hasserts⟩ _ henv
    cases x with
    | record teamId action details now =>
        cases henv
        exact ⟨(sound_record hs teamId action details now).1, fun j =>
          passAsserts_of_leaves (leaves_record hs teamId action details now j) (hasserts j)⟩
    | updateHook teamId id u =>
        cases henv
        exact ⟨sound_updateHook hs teamId id u, fun j =>
          passAsserts_of_leaves (leaves_updateHook teamId id u j) (hasserts j)⟩
    | deleteHook teamId id =>
        cases henv
        exact ⟨sound_deleteHook hs teamId id, fun j =>
          passAsserts_of_leaves (leaves_deleteHook teamId id j) (hasserts j)⟩

/-- A team with a hook, and nothing recorded. -/
def oneHook : PassPool where
  shared :=
    { hooks := ⟨[⟨7, 3, "https://siem", "generic", "enc", none, true, none, none, none, 0⟩], by decide⟩
      events := .empty
      deliveries := .empty
      nextEvent := 0
      nextDelivery := 0
      sent := []
      switchedOff _ := false
      holder _ := none }
  threads _ := .done

theorem init_oneHook :
  passes.system.init oneHook
  := by
  refine ⟨⟨rfl, rfl, rfl, ?_, fun _ => rfl⟩, fun _ => rfl⟩
  intro h hh hdisabled
  rw [List.mem_singleton.mp hh] at hdisabled
  cases hdisabled

/-- An event is recorded, and a pass claims its delivery. -/
def claimOne : List PassPoolStep :=
  [.env (.record 3 "member.removed" "" 1), .run 0 (.start none), .run 0 (.next 2 [])]

/-- The batch is sent with success, and its delivery marked. -/
def sendOne : List PassPoolStep :=
  [.run 0 (.next 2 []), .run 0 (.next 2 []), .run 0 (.answered ⟨some 200, "", true⟩),
    .run 0 (.next 3 []), .run 0 (.next 3 [])]

/-- The pool after a replica crashed with a claimed delivery. -/
def crashed : PassPool :=
  (passes.system.run oneHook (claimOne ++ [.run 0 .crash])).get (by decide +kernel)

theorem threads_crashed (i : ℕ) :
  crashed.threads i = .done
  := by
  by_cases h : i = 0
  · rw [h]
    decide
  · have hother : ∀ f : ℕ → PassAt, ∀ t, Function.update f 0 t i = f i :=
      fun _ _ => Function.update_of_ne h _ _
    change Function.update (Function.update (Function.update oneHook.threads 0 _) 0 _) 0 _ i = _
    rw [hother, hother, hother]
    rfl

end Termoso.Server
