import Termoso.Core.PersonalKey
import Termoso.Core.Rotation
import Termoso.Lib.Listing

/-!
# Listings across a key rotation

What the listings of a device show after a pass over a vault list that rotates a vault: its entities
of one kind, the commands and connections, and the recordings.

The pass re-encrypts the entities of the vault, except those that carry the new version already.  It
re-encrypts neither history entries nor recordings.  A listing fails at the first row of a vault
whose key is held that does not open with it; recordings of a known author are left out instead.
-/

namespace Termoso.Core

open Script

/-! ### What a listing makes of a row -/

namespace Store

section
variable {ρ β : Type} {s : Store} {vaultId : Uuid} {k : SymmetricKey} {n : ℤ}

/-- What a listing makes of a row, which it leaves out when the vault of the row is locked. -/
def shown (s : Store) (vault : ρ → Uuid) (view : SymmetricKey → ρ → Except CoreError (Option β))
    (r : ρ) : Except CoreError (Option β) :=
  match s.vaultKey (vault r) with
  | .ok k => view k r
  | .error _ => .ok none

theorem vaultKey_of_held (h : s.heldPair vaultId = some (k, n)) :
  s.vaultKey vaultId = .ok k
  := by
  obtain ⟨l, hl, hkey⟩ := Option.bind_eq_some_iff.mp h
  obtain ⟨k', hk', heq⟩ := Option.map_eq_some_iff.mp hkey
  cases heq
  exact vaultKey_eq_ok.mpr ⟨l, hl, hk'⟩

theorem vaultKey_of_not_held (h : s.heldPair vaultId = none) :
  s.vaultKey vaultId = .error (.vaultLocked vaultId)
  := by
  cases hk : s.vaultKey vaultId with
  | ok k =>
      obtain ⟨l, hl, hkey⟩ := vaultKey_eq_ok.mp hk
      simp [heldPair, hl, hkey] at h
  | error e =>
      rw [vaultKey] at hk
      split at hk
      · cases hk
      · cases hk
        rfl

variable {vault : ρ → Uuid} {view : SymmetricKey → ρ → Except CoreError (Option β)} {r : ρ}

theorem shown_of_held (h : s.heldPair (vault r) = some (k, n)) :
  s.shown vault view r = view k r
  := by
  rw [shown, vaultKey_of_held h]

theorem shown_of_not_held (h : s.heldPair (vault r) = none) :
  s.shown vault view r = .ok none
  := by
  rw [shown, vaultKey_of_not_held h]

end

section
variable [Primitives] {s : Store}

/-- An entity opened with the key of its vault. -/
def entityView (T : Type) [Payload T] (k : SymmetricKey) (r : EntityRow) :
    Except CoreError (Option (Entity T)) :=
  match decryptStr k (Aad.entity r.kind r.id) r.data with
  | .error e => .error (.crypto e)
  | .ok text =>
    match (Serde.fromJson text : Option T) with
    | some data => .ok (some ⟨r.id, r.vaultId, r.version, r.updatedAt, r.dirty, data⟩)
    | none => .error .json

/-- A history entry opened with the key of its vault. -/
def historyView (T : Type) [Serde T] (k : SymmetricKey) (r : HistoryRow) :
    Except CoreError (Option (HistoryItem T)) :=
  (decryptHistoryRow T k r).map some

/-- A recording opened with the key of its vault. A recording of a known author that does not open
is left out. -/
def logView [Serde LogMeta] (account : Option StoredAccount) (k : SymmetricKey) (r : LogRow) :
    Except CoreError (Option LogItem) :=
  match decryptStr k (metaAad r.id) r.metadata with
  | .error e => if r.authorId.isSome then .ok none else .error (.crypto e)
  | .ok text =>
    match Serde.fromJson text with
    | some metadata => .ok (some (logItem account r metadata))
    | none => .error .json

theorem decryptRows_eq_collect (T : Type) [Payload T] (rows : List EntityRow) :
  s.decryptRows T rows = collect (s.shown EntityRow.vaultId (entityView T)) rows
  := by
  induction rows with
  | nil => rfl
  | cons r rows ih =>
      rw [decryptRows, collect, decryptRow, ih]
      cases hheld : s.heldPair r.vaultId with
      | none => rw [shown_of_not_held hheld, vaultKey_of_not_held hheld]; rfl
      | some held =>
          rw [shown_of_held hheld, vaultKey_of_held hheld, entityView]
          cases hopen : decryptStr held.1 (Aad.entity r.kind r.id) r.data with
          | error e => simp [hopen, CoreError.lift, Except.mapError, bind, Except.bind]
          | ok text =>
              simp only [hopen, CoreError.lift, Except.mapError, bind, Except.bind]
              cases (Serde.fromJson text : Option T) <;> rfl

theorem decryptHistoryRows_eq_collect (T : Type) [Serde T] (rows : List HistoryRow) :
  s.decryptHistoryRows T rows = collect (s.shown HistoryRow.vaultId (historyView T)) rows
  := by
  induction rows with
  | nil => rfl
  | cons r rows ih =>
      rw [decryptHistoryRows, collect, ih]
      cases hheld : s.heldPair r.vaultId with
      | none => rw [shown_of_not_held hheld, vaultKey_of_not_held hheld]
      | some held =>
          rw [shown_of_held hheld, vaultKey_of_held hheld, historyView]
          cases hitem : decryptHistoryRow T held.1 r with
          | error e => simp [hitem, Except.map, bind, Except.bind]
          | ok item =>
              simp only [hitem, Except.map, bind, Except.bind]
              cases collect (s.shown HistoryRow.vaultId (historyView T)) rows <;> rfl

theorem decryptLogRows_eq_collect [Serde LogMeta] (rows : List LogRow) :
  s.decryptLogRows rows = collect (s.shown LogRow.vaultId (logView s.account)) rows
  := by
  induction rows with
  | nil => rfl
  | cons r rows ih =>
      rw [decryptLogRows, collect, ih]
      cases hheld : s.heldPair r.vaultId with
      | none => rw [shown_of_not_held hheld, vaultKey_of_not_held hheld]
      | some held =>
          rw [shown_of_held hheld, vaultKey_of_held hheld, logView]
          cases hopen : decryptStr held.1 (metaAad r.id) r.metadata with
          | error e => cases r.authorId <;> simp [hopen]
          | ok text =>
              simp only [hopen]
              cases (Serde.fromJson text : Option LogMeta) <;> rfl

end

end Store

/-! ### Keys and tables after a pass -/

section
variable [Boxes] {privateKey : KeyPair} {remote : List Vault} {s : Store} {nonce : ℕ → Uuid → Nonce}
  {applied : AppliedVaults} {vaultId : Uuid} {v : Vault}

/-- A vault that a pass removes with everything in it: a synced vault that the list does not name.
-/
def Dropped (remote : List Vault) (s : Store) (vaultId : Uuid) : Prop :=
  (∀ v ∈ remote, v.id ≠ vaultId) ∧ ∃ l, s.vaults.get? vaultId = some l ∧ l.kind.isSynced = true

omit [Boxes] in
theorem dropped_iff :
  Dropped remote s vaultId ↔ ∃ l ∈ unlisted remote s.listVaults, l.id = vaultId
  := by
  constructor
  · rintro ⟨hother, l, hl, hsynced⟩
    obtain rfl := Table.key_of_get? hl
    refine ⟨l, mem_unlisted.mpr ⟨?_, hsynced, hother⟩, rfl⟩
    rw [Store.listVaults, List.mem_insertionSort]
    exact Table.mem_of_get? hl
  · rintro ⟨l, hl, rfl⟩
    obtain ⟨hmem, hsynced, hother⟩ := mem_unlisted.mp hl
    rw [Store.listVaults, List.mem_insertionSort] at hmem
    exact ⟨hother, l, Table.get?_of_mem hmem, hsynced⟩

omit [Boxes] in
/-- Dropping vaults leaves the key of a vault alone that is not dropped. -/
theorem triple_dropVaults_heldPair {cur : Option (SymmetricKey × ℤ)}
    (h : ¬ Dropped remote s vaultId) :
  Triple (fun s' => s'.heldPair vaultId = cur) (fun _ _ => True) (dropVaults remote s.listVaults)
    (fun _ s' => s'.heldPair vaultId = cur)
  := by
  apply triple_dropVaults (I := fun _ s' => s'.heldPair vaultId = cur)
  intro l rest hsuffix s₁ s₂ hs₁ hremove
  have hne : vaultId ≠ l.id :=
    fun heq => h (dropped_iff.mpr ⟨l, hsuffix.mem List.mem_cons_self, heq.symm⟩)
  refine ⟨trivial, ?_⟩
  rw [← hs₁]
  apply Store.heldPair_congr
  rw [(Store.removeVault_eq_ok hremove).1, if_neg hne]

/-- Mirroring another vault leaves the key of a vault alone. -/
theorem triple_mirrorVault_heldPair_other {nonce : Uuid → Nonce}
    {cur : Option (SymmetricKey × ℤ)} (hv : v.id ≠ vaultId) :
  Triple (fun s' => s'.heldPair vaultId = cur) (fun _ _ => True)
    (mirrorVault privateKey s.listVaults nonce v) (fun _ s' => s'.heldPair vaultId = cur)
  := by
  have hmirror : Triple (fun s' => s'.heldPair vaultId = cur) (Replaces vaultId cur cur)
      (mirrorVault privateKey s.listVaults nonce v)
      (fun _ s' => s'.heldPair vaultId
        = if v.id = vaultId then pairAfter privateKey v cur else cur) :=
    triple_mirrorVault_heldPair (fun hid => absurd hid hv)
  rw [if_neg hv] at hmirror
  exact hmirror.mono (fun _ h => h) (fun _ _ _ => trivial) (fun _ _ h => h)

/-- The key held after a pass for a vault of the list. -/
theorem heldPair_final_listed (hnodup : (remote.map Vault.id).Nodup) (hv : v ∈ remote)
    (hrun : (applyVaultList privateKey remote nonce).result s = .ok applied) :
  ((applyVaultList privateKey remote nonce).final s).heldPair v.id
    = pairAfter privateKey v (s.heldPair v.id)
  := by
  obtain ⟨before, after, rfl, hbefore, hafter⟩ := split_of_nodup hnodup hv
  have hmirror : Triple (fun s' => s'.heldPair v.id = s.heldPair v.id) (fun _ _ => True)
      (mirrorVaults privateKey s.listVaults nonce (before ++ v :: after))
      (fun _ s' => s'.heldPair v.id = pairAfter privateKey v (s.heldPair v.id)) := by
    apply triple_mirrorVaults_at
    · exact fun w hw _ => triple_mirrorVault_heldPair_other (hbefore w hw)
    · intro n
      apply (triple_mirrorVault_heldPair (fun _ => ⟨rfl, .inr ⟨rfl, rfl⟩⟩)).mono
      · exact fun _ h => h
      · exact fun _ _ _ => trivial
      · intro _ s' hs'
        rw [if_pos rfl] at hs'
        exact hs'
    · exact fun w hw _ => triple_mirrorVault_heldPair_other (hafter w hw)
  have hdrop : Triple (fun s' => s'.heldPair v.id = pairAfter privateKey v (s.heldPair v.id))
      (fun _ _ => True) (dropVaults (before ++ v :: after) s.listVaults)
      (fun _ s' => s'.heldPair v.id = pairAfter privateKey v (s.heldPair v.id)) :=
    triple_dropVaults_heldPair (fun h => h.1 v (by simp) rfl)
  exact (triple_applyVaultList hmirror hdrop s ⟨rfl, rfl⟩).2 applied hrun

/-- Mirroring a list leaves the key of a vault alone that it does not name. -/
theorem triple_mirrorVaults_heldPair (hother : ∀ v ∈ remote, v.id ≠ vaultId) :
  Triple (fun s' => s'.heldPair vaultId = s.heldPair vaultId) (fun _ _ => True)
    (mirrorVaults privateKey s.listVaults nonce remote)
    (fun _ s' => s'.heldPair vaultId = s.heldPair vaultId)
  := by
  apply triple_mirrorVaults (I := fun _ s' => s'.heldPair vaultId = s.heldPair vaultId)
  intro v rest n hsuffix
  exact triple_mirrorVault_heldPair_other (hother v (hsuffix.mem List.mem_cons_self))

/-- A pass leaves the key of a vault alone that it neither finds in the list nor drops. -/
theorem heldPair_final_other (hother : ∀ v ∈ remote, v.id ≠ vaultId)
    (hkept : ¬ Dropped remote s vaultId)
    (hrun : (applyVaultList privateKey remote nonce).result s = .ok applied) :
  ((applyVaultList privateKey remote nonce).final s).heldPair vaultId = s.heldPair vaultId
  := (triple_applyVaultList (triple_mirrorVaults_heldPair hother)
    (triple_dropVaults_heldPair hkept) s ⟨rfl, rfl⟩).2 applied hrun

/-- No key is held after a pass for a vault it drops. -/
theorem heldPair_final_dropped (h : Dropped remote s vaultId)
    (hrun : (applyVaultList privateKey remote nonce).result s = .ok applied) :
  ((applyVaultList privateKey remote nonce).final s).heldPair vaultId = none
  := by
  obtain ⟨l, hl, rfl⟩ := dropped_iff.mp h
  have hdrop : Triple (fun s' => s'.heldPair l.id = s.heldPair l.id) (fun _ _ => True)
      (dropVaults remote s.listVaults) (fun _ s' => s'.heldPair l.id = none) := by
    apply ((triple_dropVaults (I := fun rest s' =>
      l ∈ rest ∨ s'.heldPair l.id = none) _).pre _).post
    · rintro _ s' (hmem | hs')
      · cases hmem
      · exact hs'
    · intro l' rest _ s₁ s₂ hs₁ hremove
      obtain ⟨hget, -⟩ := Store.removeVault_eq_ok hremove
      refine ⟨trivial, ?_⟩
      by_cases hid : l.id = l'.id
      · right
        rw [Store.heldPair, hget, if_pos hid]
        rfl
      · rcases hs₁ with hmem | hs₁
        · rcases List.mem_cons.mp hmem with rfl | hmem
          · exact absurd rfl hid
          · exact .inl hmem
        · right
          rw [← hs₁]
          apply Store.heldPair_congr
          rw [hget, if_neg hid]
    · exact fun _ _ => .inl hl
  exact (triple_applyVaultList (triple_mirrorVaults_heldPair h.1) hdrop s ⟨rfl, rfl⟩).2 applied hrun

/-- The history and the recordings of a store, of which vaults were removed. -/
def Trimmed (remote : List Vault) (s s' : Store) : Prop :=
  ∃ p : Uuid → Bool, (∀ vaultId, ¬ Dropped remote s vaultId → p vaultId = true)
    ∧ s'.history.rows = s.history.rows.filter (fun r => p r.vaultId)
    ∧ s'.sessionLogs.rows = s.sessionLogs.rows.filter (fun r => p r.vaultId)
    ∧ s'.account = s.account

/-- A pass changes neither history entries nor recordings, except that it removes those of the
vaults it drops. -/
theorem trimmed_final (hrun : (applyVaultList privateKey remote nonce).result s = .ok applied) :
  Trimmed remote s ((applyVaultList privateKey remote nonce).final s)
  := by
  have hsame : ∀ {s' s'' : Store}, s''.history = s'.history → s''.sessionLogs = s'.sessionLogs →
      s''.account = s'.account → Trimmed remote s s' → Trimmed remote s s'' := by
    rintro s' s'' hhistory hlogs haccount ⟨p, hp, hrows, hlogRows, hacc⟩
    refine ⟨p, hp, ?_, ?_, haccount.trans hacc⟩
    · rw [hhistory, hrows]
    · rw [hlogs, hlogRows]
  have hmirror : Triple (Trimmed remote s) (fun _ _ => True)
      (mirrorVaults privateKey s.listVaults nonce remote) (fun _ => Trimmed remote s) := by
    apply triple_mirrorVaults (I := fun _ => Trimmed remote s)
    intro v rest n _
    apply triple_mirrorVault (A := fun _ => Trimmed remote s)
    · intro held s₁ s₂ hs₁ _ hupsert
      obtain ⟨-, hstore⟩ := Store.upsertVault_eq_ok hupsert
      refine ⟨trivial, hsame ?_ ?_ ?_ hs₁⟩
      all_goals rw [hstore]
    · exact fun _ _ hs₁ => ⟨trivial, hsame rfl rfl rfl hs₁⟩
    · exact fun _ _ hs₁ => ⟨trivial, hsame rfl rfl rfl hs₁⟩
    · exact fun _ _ _ hs₁ => hs₁
    · intro _ _ _
      apply Store.triple_reencryptVault (I := fun _ _ _ => Trimmed remote s)
      · exact fun _ _ _ hs₁ _ _ => hs₁
      · exact fun _ _ _ _ _ hs₁ _ => hs₁
      · exact fun _ _ _ _ _ _ _ hs₁ _ _ => ⟨trivial, hsame rfl rfl rfl hs₁⟩
      · exact fun _ _ _ hs₁ => hs₁
  have hdrop : Triple (Trimmed remote s) (fun _ _ => True) (dropVaults remote s.listVaults)
      (fun _ => Trimmed remote s) := by
    apply triple_dropVaults (I := fun _ => Trimmed remote s)
    rintro l rest hsuffix s₁ s₂ ⟨p, hp, hrows, hlogRows, hacc⟩ hremove
    have hl : Dropped remote s l.id :=
      dropped_iff.mpr ⟨l, hsuffix.mem List.mem_cons_self, rfl⟩
    simp only [Store.removeVault, bind_eq_ok, check_eq_ok, pure_eq_ok] at hremove
    obtain ⟨-, -, -, rfl⟩ := hremove
    refine ⟨trivial, fun vaultId => p vaultId && decide (vaultId ≠ l.id), ?_, ?_, ?_, hacc⟩
    · intro vaultId hkept
      simp only [hp vaultId hkept, Bool.true_and, decide_eq_true_iff]
      rintro rfl
      exact hkept hl
    · simp [Table.delete, hrows, List.filter_filter, Bool.and_comm]
    · simp [Table.delete, hlogRows, List.filter_filter, Bool.and_comm]
  have hstart : Trimmed remote s s :=
    ⟨fun _ => true, fun _ _ => rfl, by simp, by simp, rfl⟩
  exact (triple_applyVaultList hmirror hdrop s ⟨rfl, hstart⟩).2 applied hrun

/-- A pass keeps the key held for a vault: the vault is in the list, and not rotated to another key;
or it is the local one, and not in the list. -/
def KeepsKey (privateKey : KeyPair) (remote : List Vault) (s : Store) (vaultId : Uuid)
    (k : SymmetricKey) (n : ℤ) : Prop :=
  (∃ v ∈ remote, v.id = vaultId ∧ ¬ Rotates privateKey v k n)
    ∨ ((∀ v ∈ remote, v.id ≠ vaultId) ∧ ∀ l, s.vaults.get? vaultId = some l → l.kind = .local)

omit [Boxes] in
/-- A vault that is not in the list is dropped, unless it is the local one. -/
theorem not_dropped_iff (hother : ∀ v ∈ remote, v.id ≠ vaultId) :
  ¬ Dropped remote s vaultId ↔ ∀ l, s.vaults.get? vaultId = some l → l.kind = .local
  := by
  constructor
  · intro h l hl
    cases hkind : l.kind with
    | «local» => rfl
    | personal => exact absurd ⟨hother, l, hl, by rw [hkind]; rfl⟩ h
    | team => exact absurd ⟨hother, l, hl, by rw [hkind]; rfl⟩ h
  · rintro h ⟨-, l, hl, hsynced⟩
    rw [h l hl] at hsynced
    cases hsynced

/-- A key is held after a pass as it was before exactly when the pass keeps it. -/
theorem keepsKey_iff {k : SymmetricKey} {n : ℤ} (hnodup : (remote.map Vault.id).Nodup)
    (hrun : (applyVaultList privateKey remote nonce).result s = .ok applied)
    (hheld : s.heldPair vaultId = some (k, n)) :
  KeepsKey privateKey remote s vaultId k n
    ↔ ∃ n', ((applyVaultList privateKey remote nonce).final s).heldPair vaultId = some (k, n')
  := by
  by_cases hlisted : ∃ v ∈ remote, v.id = vaultId
  · obtain ⟨v, hv, rfl⟩ := hlisted
    have hkeeps : KeepsKey privateKey remote s v.id k n ↔ ¬ Rotates privateKey v k n := by
      constructor
      · rintro (⟨w, hw, hid, hnot⟩ | ⟨hother, -⟩)
        · obtain rfl : w = v := List.inj_on_of_nodup_map hnodup hw hv hid
          exact hnot
        · exact absurd rfl (hother v hv)
      · exact fun hnot => .inl ⟨v, hv, rfl, hnot⟩
    rw [hkeeps, heldPair_final_listed hnodup hv hrun, hheld]
    constructor
    · intro hnot
      rcases pairAfter_held privateKey v (k, n) with
        hsame | ⟨k', origin, hoffered, hlt, hkind, hnew⟩
      · exact ⟨n, hsame⟩
      · by_cases hk : k' = k
        · exact ⟨v.keyVersion, by rw [hnew, hk]⟩
        · exact absurd ⟨k', origin, hoffered, hlt, hkind, hk⟩ hnot
    · rintro ⟨n', hafter⟩ ⟨k', origin, hoffered, hlt, hkind, hk⟩
      rw [pairAfter, decision_of_offered hoffered hlt hkind] at hafter
      cases hafter
      exact hk rfl
  · push Not at hlisted
    have hkeeps : KeepsKey privateKey remote s vaultId k n ↔ ¬ Dropped remote s vaultId := by
      rw [not_dropped_iff hlisted]
      constructor
      · rintro (⟨v, hv, hid, -⟩ | ⟨-, hlocal⟩)
        · exact absurd hid (hlisted v hv)
        · exact hlocal
      · exact fun hlocal => .inr ⟨hlisted, hlocal⟩
    rw [hkeeps]
    constructor
    · intro hkept
      exact ⟨n, (heldPair_final_other hlisted hkept hrun).trans hheld⟩
    · rintro ⟨n', hafter⟩ hdropped
      rw [heldPair_final_dropped hdropped hrun] at hafter
      cases hafter

omit [Boxes] in
theorem KeepsKey.not_dropped [Boxes] {k : SymmetricKey} {n : ℤ}
    (h : KeepsKey privateKey remote s vaultId k n) :
  ¬ Dropped remote s vaultId
  := by
  rcases h with ⟨v, hv, rfl, -⟩ | ⟨hother, hlocal⟩
  · exact fun hdropped => hdropped.1 v hv rfl
  · exact (not_dropped_iff hother).mpr hlocal

/-- A pass spares a row of a vault: it keeps the key held for the vault. If no key is held, the row
can be listed with the key that the list offers. -/
def Spares (privateKey : KeyPair) (remote : List Vault) (s : Store) (vaultId : Uuid)
    (listable : SymmetricKey → Prop) : Prop :=
  (∀ k n, s.heldPair vaultId = some (k, n) → KeepsKey privateKey remote s vaultId k n)
    ∧ (s.heldPair vaultId = none → ∀ v ∈ remote, v.id = vaultId →
      ∀ k origin, offeredKey privateKey v = some (k, origin) → listable k)

end

section
variable [Boxes] {privateKey : KeyPair} {remote : List Vault} {s : Store} {nonce : ℕ → Uuid → Nonce}
  {applied : AppliedVaults} {ρ β : Type} {vault : ρ → Uuid}
  {view : SymmetricKey → ρ → Except CoreError (Option β)} {rows : List ρ} {p : Uuid → Bool}

omit [Boxes] in
/-- A listing of rows that open fails nowhere. -/
theorem shown_of_opens
    (hopens : ∀ r ∈ rows, ∀ k n, s.heldPair (vault r) = some (k, n) →
      ∃ y, view k r = .ok (some y)) :
  ∀ r ∈ rows, ∃ o, s.shown vault view r = .ok o
  := by
  intro r hr
  cases hheld : s.heldPair (vault r) with
  | none => exact ⟨none, Store.shown_of_not_held hheld⟩
  | some held =>
      obtain ⟨y, hy⟩ := hopens r hr held.1 held.2 hheld
      exact ⟨some y, (Store.shown_of_held hheld).trans hy⟩

/-- What a listing shows after a pass, when it shows everything it did before. -/
theorem spares_of_retains (hnodup : (remote.map Vault.id).Nodup)
    (hrun : (applyVaultList privateKey remote nonce).result s = .ok applied)
    (hopens : ∀ r ∈ rows, ∀ k n, s.heldPair (vault r) = some (k, n) → ∃ y, view k r = .ok (some y))
    (hkey : ∀ r k k' y y', view k r = .ok (some y) → view k' r = .ok (some y') → k' = k)
    (hrow : ∀ r ∈ rows, ∀ r' ∈ rows, ∀ k k' y, view k r = .ok (some y) →
      view k' r' = .ok (some y) → r' = r)
    (hp : ∀ vaultId, ¬ Dropped remote s vaultId → p vaultId = true)
    (h : Retains (· = ·) (collect (s.shown vault view) rows)
      (collect (((applyVaultList privateKey remote nonce).final s).shown vault view)
        (rows.filter (fun r => p (vault r))))) :
  ∀ r ∈ rows, Spares privateKey remote s (vault r) (fun k => ∃ o, view k r = .ok o)
  := by
  obtain ⟨hlisted, hretained⟩ := (retains_collect (shown_of_opens hopens)).mp h
  intro r hr
  constructor
  · intro k n hheld
    obtain ⟨y, hy⟩ := hopens r hr k n hheld
    obtain ⟨r', hr', y', hy', rfl⟩ := hretained r hr y ((Store.shown_of_held hheld).trans hy)
    rw [keepsKey_iff hnodup hrun hheld]
    cases hafter : ((applyVaultList privateKey remote nonce).final s).heldPair (vault r') with
    | none =>
        rw [Store.shown_of_not_held hafter] at hy'
        cases hy'
    | some held =>
        rw [Store.shown_of_held hafter] at hy'
        obtain rfl := hrow r hr r' (List.mem_of_mem_filter hr') k held.1 y hy hy'
        exact ⟨held.2, by rw [hafter, ← hkey r' k held.1 y y hy hy']⟩
  · intro hnone v hv hid k origin hoffered
    have hkept : ¬ Dropped remote s (vault r) := fun hdropped => hdropped.1 v hv hid
    obtain ⟨o, ho⟩ := hlisted r (List.mem_filter.mpr ⟨hr, hp _ hkept⟩)
    have hafter : ((applyVaultList privateKey remote nonce).final s).heldPair (vault r)
        = some (k, v.keyVersion) := by
      rw [← hid, heldPair_final_listed hnodup hv hrun, hid, hnone, pairAfter_none, hoffered]
      rfl
    exact ⟨o, (Store.shown_of_held hafter).symm.trans ho⟩

/-- A listing shows after a pass everything it did before, when the pass spares its rows. -/
theorem retains_of_spares (hnodup : (remote.map Vault.id).Nodup)
    (hrun : (applyVaultList privateKey remote nonce).result s = .ok applied)
    (hopens : ∀ r ∈ rows, ∀ k n, s.heldPair (vault r) = some (k, n) → ∃ y, view k r = .ok (some y))
    (hp : ∀ vaultId, ¬ Dropped remote s vaultId → p vaultId = true)
    (h : ∀ r ∈ rows, Spares privateKey remote s (vault r) (fun k => ∃ o, view k r = .ok o))
    (limit : ℕ) :
  Retains (· = ·) (collect (s.shown vault view) (rows.take limit))
    (collect (((applyVaultList privateKey remote nonce).final s).shown vault view)
      ((rows.filter (fun r => p (vault r))).take limit))
  := by
  have htake : ∀ r ∈ rows.take limit, r ∈ rows := fun r hr => List.mem_of_mem_take hr
  apply (retains_collect (shown_of_opens (fun r hr => hopens r (htake r hr)))).mpr
  constructor
  · intro r hr
    have hmem : r ∈ rows := List.mem_of_mem_filter (List.mem_of_mem_take hr)
    obtain ⟨hheldKept, hoffer⟩ := h r hmem
    cases hheld : s.heldPair (vault r) with
    | some held =>
        obtain ⟨n', hafter⟩ :=
          (keepsKey_iff hnodup hrun hheld).mp (hheldKept held.1 held.2 hheld)
        obtain ⟨y, hy⟩ := hopens r hmem held.1 held.2 hheld
        exact ⟨some y, (Store.shown_of_held hafter).trans hy⟩
    | none =>
        cases hafter : ((applyVaultList privateKey remote nonce).final s).heldPair (vault r) with
        | none => exact ⟨none, Store.shown_of_not_held hafter⟩
        | some held =>
            by_cases hlisted : ∃ v ∈ remote, v.id = vault r
            · obtain ⟨v, hv, hid⟩ := hlisted
              rw [← hid, heldPair_final_listed hnodup hv hrun, hid, hheld, pairAfter_none] at hafter
              obtain ⟨⟨k, origin⟩, hoffered, rfl⟩ := Option.map_eq_some_iff.mp hafter
              obtain ⟨o, ho⟩ := hoffer hheld v hv hid k origin hoffered
              refine ⟨o, (Store.shown_of_held (n := v.keyVersion) ?_).trans ho⟩
              rw [← hid, heldPair_final_listed hnodup hv hrun, hid, hheld, pairAfter_none, hoffered]
              rfl
            · push Not at hlisted
              by_cases hdropped : Dropped remote s (vault r)
              · rw [heldPair_final_dropped hdropped hrun] at hafter
                cases hafter
              · rw [heldPair_final_other hlisted hdropped hrun, hheld] at hafter
                cases hafter
  · intro r hr y hy
    cases hheld : s.heldPair (vault r) with
    | none =>
        rw [Store.shown_of_not_held hheld] at hy
        cases hy
    | some held =>
        have hkeeps := (h r (htake r hr)).1 held.1 held.2 hheld
        obtain ⟨n', hafter⟩ := (keepsKey_iff hnodup hrun hheld).mp hkeeps
        rw [Store.shown_of_held hheld] at hy
        exact ⟨r, mem_take_filter hr (hp _ hkeeps.not_dropped), y,
          (Store.shown_of_held hafter).trans hy, rfl⟩

end

/-! ### The listings of a device -/

section
variable [Primitives] {s : Store} {k k' : SymmetricKey}

theorem entityView_eq_ok {T : Type} [Payload T] {r : EntityRow} {e : Entity T} :
  Store.entityView T k r = .ok (some e)
    ↔ ∃ text data, decryptStr k (Aad.entity r.kind r.id) r.data = .ok text
      ∧ Serde.fromJson text = some data
      ∧ e = ⟨r.id, r.vaultId, r.version, r.updatedAt, r.dirty, data⟩
  := by
  rw [Store.entityView]
  cases decryptStr k (Aad.entity r.kind r.id) r.data with
  | error e => simp
  | ok text =>
      cases hjson : (Serde.fromJson text : Option T) with
      | none => simp [hjson]
      | some data => simp [hjson, eq_comm]

theorem historyView_eq_ok {T : Type} [Serde T] {r : HistoryRow} {item : HistoryItem T} :
  Store.historyView T k r = .ok (some item)
    ↔ ∃ text data, decryptStr k (historyAad r.kind r.id) r.data = .ok text
      ∧ Serde.fromJson text = some data ∧ item = ⟨r.id, r.createdAt, data⟩
  := by
  rw [Store.historyView, map_eq_ok]
  simp only [Option.some_inj, exists_eq_right, Store.decryptHistoryRow, bind_eq_ok, lift_eq_ok]
  constructor
  · rintro ⟨text, hopen, hitem⟩
    split at hitem
    · rename_i data hjson
      cases hitem
      exact ⟨text, data, hopen, hjson, rfl⟩
    · cases hitem
  · rintro ⟨text, data, hopen, hjson, rfl⟩
    refine ⟨text, hopen, ?_⟩
    rw [hjson]
    rfl

theorem logView_eq_ok [Serde LogMeta] {account : Option StoredAccount} {r : LogRow}
    {item : LogItem} :
  Store.logView account k r = .ok (some item)
    ↔ ∃ text metadata, decryptStr k (metaAad r.id) r.metadata = .ok text
      ∧ Serde.fromJson text = some metadata ∧ item = Store.logItem account r metadata
  := by
  rw [Store.logView]
  cases decryptStr k (metaAad r.id) r.metadata with
  | error e => cases r.authorId <;> simp
  | ok text =>
      cases hjson : (Serde.fromJson text : Option LogMeta) with
      | none => simp [hjson]
      | some metadata => simp [hjson, eq_comm]

end

section
variable [Boxes] {privateKey : KeyPair} {remote : List Vault} {s : Store} {nonce : ℕ → Uuid → Nonce}
  {applied : AppliedVaults} {v : Vault} {k : SymmetricKey} {n : ℤ}

/-! ### Entities -/

section
variable {T : Type} [Payload T]

/-- A row that the list of a vault visits. -/
def Listed (T : Type) [Payload T] (s : Store) (vaultId : Uuid) (r : EntityRow) : Prop :=
  s.row r.id = some r ∧ r.vaultId = vaultId ∧ r.kind = Payload.KIND T ∧ r.deleted = false

omit [Boxes] in
theorem mem_listed {vaultId : Uuid} {r : EntityRow} :
  r ∈ s.rows ⟨some vaultId, some (Payload.KIND T), false⟩ ↔ Listed T s vaultId r
  := by
  simp [Store.mem_rows, EntityFilter.accepts, Listed, and_assoc]

/-- The entities of a vault are listed after a pass that rotates it as they were before, exactly
when none of them carries the new version already. -/
theorem retains_list_iff (hnodup : (remote.map Vault.id).Nodup) (hv : v ∈ remote)
    (hheld : s.heldPair v.id = some (k, n)) (hrot : Rotates privateKey v k n)
    (hrun : (applyVaultList privateKey remote nonce).result s = .ok applied)
    (hopens : ∀ r, Listed T s v.id r → ∃ e, Store.entityView T k r = .ok (some e)) :
  Retains (fun e e' => e'.id = e.id ∧ e'.data = e.data) (s.list T (some v.id))
      (((applyVaultList privateKey remote nonce).final s).list T (some v.id))
    ↔ ∀ r, Listed T s v.id r → r.keyVersion ≠ v.keyVersion
  := by
  obtain ⟨k', origin, hoffered, hlt, hkind, hne⟩ := hrot
  have hdecision := decision_of_offered (k := k) hoffered hlt hkind
  have hafter : ((applyVaultList privateKey remote nonce).final s).heldPair v.id
      = some (k', v.keyVersion) := by
    rw [heldPair_final_listed hnodup hv hrun, hheld, pairAfter, hdecision]
    rfl
  -- a row of the vault is re-encrypted
  have hrow : ∀ r, Listed T s v.id r → ∃ m, ((applyVaultList privateKey remote nonce).final s).row
      r.id = some (reencrypted k k' v.keyVersion m r) := by
    rintro r ⟨hr, hvault, -, -⟩
    obtain ⟨m, -, hfinal⟩ :=
      (triple_applyVaultList_listed hnodup hv hvault ⟨hheld, hr⟩ s rfl).2 applied hrun
    rw [rowAfter, hdecision] at hfinal
    exact ⟨m, hfinal⟩
  rw [Store.list, Store.list, Store.decryptRows_eq_collect, Store.decryptRows_eq_collect]
  have hshown : ∀ r ∈ s.rows ⟨some v.id, some (Payload.KIND T), false⟩,
      ∃ o, s.shown EntityRow.vaultId (Store.entityView T) r = .ok o := by
    intro r hr
    obtain ⟨e, he⟩ := hopens r (mem_listed.mp hr)
    have hvault := (mem_listed.mp hr).2.1
    exact ⟨some e, (Store.shown_of_held (by rw [hvault, hheld])).trans he⟩
  rw [retains_collect hshown]
  -- what a row re-encrypted shows
  have hview : ∀ r, Listed T s v.id r → r.keyVersion ≠ v.keyVersion → ∀ m e,
      Store.entityView T k r = .ok (some e) →
      Store.entityView T k' (reencrypted k k' v.keyVersion m r)
        = .ok (some { e with dirty := true }) := by
    rintro r ⟨-, -, -, hdeleted⟩ hlabel m e he
    obtain ⟨text, data, hopen, hjson, rfl⟩ := entityView_eq_ok.mp he
    apply entityView_eq_ok.mpr
    refine ⟨text, data, (decryptStr_reencrypted hopen hdeleted).mpr (.inr hlabel), hjson, ?_⟩
    obtain ⟨bytes, hbytes, -⟩ := decryptStr_eq_ok.mp hopen
    rw [reencrypted_of_opens hdeleted hlabel hbytes]
  constructor
  · rintro ⟨hlisted, -⟩ r hr hlabel
    obtain ⟨m, hfinal⟩ := hrow r hr
    rw [reencrypted_of_label hlabel] at hfinal
    obtain ⟨o, ho⟩ := hlisted r (mem_listed.mpr ⟨hfinal, hr.2⟩)
    obtain ⟨e, he⟩ := hopens r hr
    obtain ⟨text, -, hopen, -⟩ := entityView_eq_ok.mp he
    rw [Store.shown_of_held (by rw [hr.2.1, hafter]), Store.entityView] at ho
    cases hopen' : decryptStr k' (Aad.entity r.kind r.id) r.data with
    | error e =>
        rw [hopen'] at ho
        cases ho
    | ok text' => exact hne (eq_of_decryptStr hopen hopen')
  · intro hlabels
    constructor
    · intro r' hr'
      obtain ⟨hrow', hvault', hkind', hdeleted'⟩ := mem_listed.mp hr'
      obtain ⟨r, hr, hsameKind, hsameVault, hsameDeleted⟩ :=
        sameRows_of_stops final_mem_stops r'.id r' hrow'
      have hid := Store.id_of_row hr
      have hlisted : Listed T s v.id r :=
        ⟨by rw [hid, hr], hsameVault.symm.trans hvault', hsameKind.symm.trans hkind',
          hsameDeleted.symm.trans hdeleted'⟩
      obtain ⟨m, hfinal⟩ := hrow r hlisted
      rw [hid, hrow'] at hfinal
      cases hfinal
      obtain ⟨e, he⟩ := hopens r hlisted
      exact ⟨_, (Store.shown_of_held (by rw [hvault', hafter])).trans
        (hview r hlisted (hlabels r hlisted) m e he)⟩
    · intro r hr e he
      have hlisted := mem_listed.mp hr
      rw [Store.shown_of_held (by rw [hlisted.2.1, hheld])] at he
      obtain ⟨m, hfinal⟩ := hrow r hlisted
      obtain ⟨hsameId, hsameKind, hsameVault, hsameDeleted⟩ :=
        @reencrypted_same _ k k' v.keyVersion m r
      refine ⟨reencrypted k k' v.keyVersion m r, mem_listed.mpr ⟨?_, ?_, ?_, ?_⟩,
        { e with dirty := true }, ?_, rfl, rfl⟩
      · rw [hsameId, hfinal]
      · rw [hsameVault, hlisted.2.1]
      · rw [hsameKind, hlisted.2.2.1]
      · rw [hsameDeleted, hlisted.2.2.2]
      · rw [Store.shown_of_held (by rw [hsameVault, hlisted.2.1, hafter])]
        exact hview r hlisted (hlabels r hlisted) m e he

end
/-! ### History entries and recordings -/

omit [Boxes] in
/-- The rows a listing of history entries visits once rows are removed. -/
theorem historyRows_trimmed {s' : Store} {p : Uuid → Bool} {kind : HistoryKind} {limit : ℕ}
    (h : s'.history.rows = s.history.rows.filter (fun r => p r.vaultId)) :
  s'.historyRows kind limit
    = (((s.history.select (fun r => decide (r.kind = kind) && !r.deleted)).insertionSort
        (fun r r' => r'.createdAt ≤ r.createdAt)).filter (fun r => p r.vaultId)).take limit
  := by
  have htrans : IsTrans HistoryRow (fun r r' => r'.createdAt ≤ r.createdAt) :=
    ⟨fun _ _ _ h h' => h'.trans h⟩
  have htotal : Std.Total (fun r r' : HistoryRow => r'.createdAt ≤ r.createdAt) :=
    ⟨fun r r' => le_total r'.createdAt r.createdAt⟩
  rw [filter_insertionSort, Store.historyRows, Table.select, h, Table.select, List.filter_filter,
    List.filter_filter]
  simp only [Bool.and_comm]

/-- The entries of a kind are listed after a pass as they were before, exactly when the pass spares
them. -/
theorem retains_listHistory_iff {T : Type} [Serde T] {kind : HistoryKind}
    (hnodup : (remote.map Vault.id).Nodup)
    (hrun : (applyVaultList privateKey remote nonce).result s = .ok applied)
    (hopens : ∀ r, s.historyRow r.id = some r → r.deleted = false → r.kind = kind →
      ∀ k n, s.heldPair r.vaultId = some (k, n) →
        ∃ item, Store.decryptHistoryRow T k r = .ok item) :
  (∀ limit, Retains (· = ·) (s.listHistory T kind limit)
      (((applyVaultList privateKey remote nonce).final s).listHistory T kind limit))
    ↔ ∀ r, s.historyRow r.id = some r → r.deleted = false → r.kind = kind →
      Spares privateKey remote s r.vaultId
        (fun k => ∃ item, Store.decryptHistoryRow T k r = .ok item)
  := by
  obtain ⟨p, hp, hrows, -, -⟩ := trimmed_final hrun
  set rows := (s.history.select (fun r => decide (r.kind = kind) && !r.deleted)).insertionSort
    (fun r r' => r'.createdAt ≤ r.createdAt) with hrowsDef
  have hmem : ∀ r, r ∈ rows ↔ s.historyRow r.id = some r ∧ r.deleted = false ∧ r.kind = kind := by
    intro r
    rw [hrowsDef, List.mem_insertionSort, Store.mem_history_select]
    simp [and_comm]
  have hview : ∀ k r, (∃ o, Store.historyView T k r = .ok o)
      ↔ ∃ item, Store.decryptHistoryRow T k r = .ok item := by
    intro k r
    rw [Store.historyView]
    cases Store.decryptHistoryRow T k r <;> simp [Except.map]
  have hopens' : ∀ r ∈ rows, ∀ k n, s.heldPair r.vaultId = some (k, n) →
      ∃ item, Store.historyView T k r = .ok (some item) := by
    intro r hr k n hheld
    obtain ⟨hrow, hdeleted, hkind⟩ := (hmem r).mp hr
    obtain ⟨item, hitem⟩ := hopens r hrow hdeleted hkind k n hheld
    exact ⟨item, map_eq_ok.mpr ⟨item, hitem, rfl⟩⟩
  have hkey : ∀ r k k' item item', Store.historyView T k r = .ok (some item) →
      Store.historyView T k' r = .ok (some item') → k' = k := by
    intro r k k' item item' h h'
    obtain ⟨_, _, hopen, -⟩ := historyView_eq_ok.mp h
    obtain ⟨_, _, hopen', -⟩ := historyView_eq_ok.mp h'
    exact eq_of_decryptStr hopen hopen'
  have hsame : ∀ r ∈ rows, ∀ r' ∈ rows, ∀ k k' item, Store.historyView T k r = .ok (some item) →
      Store.historyView T k' r' = .ok (some item) → r' = r := by
    intro r hr r' hr' k k' item h h'
    obtain ⟨_, _, -, -, rfl⟩ := historyView_eq_ok.mp h
    obtain ⟨_, _, -, -, heq⟩ := historyView_eq_ok.mp h'
    have hid : r.id = r'.id := congrArg HistoryItem.id heq
    have hrow' := ((hmem r').mp hr').1
    rw [← hid, ((hmem r).mp hr).1] at hrow'
    exact (Option.some_inj.mp hrow').symm
  have hlist : ∀ limit, Retains (· = ·) (s.listHistory T kind limit)
        (((applyVaultList privateKey remote nonce).final s).listHistory T kind limit)
      ↔ Retains (· = ·)
        (collect (s.shown HistoryRow.vaultId (Store.historyView T)) (rows.take limit))
        (collect (((applyVaultList privateKey remote nonce).final s).shown HistoryRow.vaultId
          (Store.historyView T)) ((rows.filter (fun r => p r.vaultId)).take limit)) := by
    intro limit
    rw [Store.listHistory, Store.listHistory, historyRows_trimmed hrows,
      Store.decryptHistoryRows_eq_collect, Store.decryptHistoryRows_eq_collect]
    rfl
  simp only [hlist]
  constructor
  · intro h r hrow hdeleted hkind
    have hall := h rows.length
    rw [List.take_length, List.take_of_length_le (List.length_filter_le _ _)] at hall
    have hspares := spares_of_retains hnodup hrun hopens' hkey hsame hp hall r
      ((hmem r).mpr ⟨hrow, hdeleted, hkind⟩)
    simp only [hview] at hspares
    exact hspares
  · intro h limit
    apply retains_of_spares hnodup hrun hopens' hp
    intro r hr
    obtain ⟨hrow, hdeleted, hkind⟩ := (hmem r).mp hr
    simp only [hview]
    exact h r hrow hdeleted hkind

omit [Boxes] in
/-- The rows the listing of recordings visits once rows are removed. -/
theorem liveLogs_trimmed {s' : Store} {p : Uuid → Bool}
    (h : s'.sessionLogs.rows = s.sessionLogs.rows.filter (fun r => p r.vaultId)) :
  s'.liveLogs = s.liveLogs.filter (fun r => p r.vaultId)
  := by
  have htrans : IsTrans LogRow (fun r r' => (r.pinned = true ∧ r'.pinned = false)
      ∨ (r.pinned = r'.pinned ∧ r'.createdAt ≤ r.createdAt)) := by
    constructor
    rintro a b c (⟨ha, hb⟩ | ⟨hab, hle⟩) (⟨hb', hc⟩ | ⟨hbc, hle'⟩)
    · exact .inl ⟨ha, hc⟩
    · exact .inl ⟨ha, hbc.symm.trans hb⟩
    · exact .inl ⟨hab.trans hb', hc⟩
    · exact .inr ⟨hab.trans hbc, hle'.trans hle⟩
  have htotal : Std.Total (fun r r' : LogRow => (r.pinned = true ∧ r'.pinned = false)
      ∨ (r.pinned = r'.pinned ∧ r'.createdAt ≤ r.createdAt)) := by
    constructor
    intro a b
    rcases le_total a.createdAt b.createdAt with hle | hle <;> cases ha : a.pinned <;>
      cases hb : b.pinned <;> simp [hle]
  rw [Store.liveLogs, Store.liveLogs, filter_insertionSort, Table.select, h, Table.select,
    List.filter_filter, List.filter_filter]
  simp only [Bool.and_comm]

/-- The recordings are listed after a pass as they were before, exactly when the pass spares them.
-/
theorem retains_logs_iff [Serde LogMeta] (hnodup : (remote.map Vault.id).Nodup)
    (hrun : (applyVaultList privateKey remote nonce).result s = .ok applied)
    (hopens : ∀ r, s.logRow r.id = some r → r.deleted = false →
      ∀ k n, s.heldPair r.vaultId = some (k, n) →
        ∃ item, Store.logView s.account k r = .ok (some item)) :
  Retains (· = ·) s.logs ((applyVaultList privateKey remote nonce).final s).logs
    ↔ ∀ r, s.logRow r.id = some r → r.deleted = false →
      Spares privateKey remote s r.vaultId (fun k => ∃ o, Store.logView s.account k r = .ok o)
  := by
  obtain ⟨p, hp, -, hrows, haccount⟩ := trimmed_final hrun
  have hopens' : ∀ r ∈ s.liveLogs, ∀ k n, s.heldPair r.vaultId = some (k, n) →
      ∃ item, Store.logView s.account k r = .ok (some item) := by
    intro r hr
    obtain ⟨hrow, hdeleted⟩ := Store.mem_liveLogs.mp hr
    exact hopens r hrow hdeleted
  have hkey : ∀ r k k' item item', Store.logView s.account k r = .ok (some item) →
      Store.logView s.account k' r = .ok (some item') → k' = k := by
    intro r k k' item item' h h'
    obtain ⟨_, _, hopen, -⟩ := logView_eq_ok.mp h
    obtain ⟨_, _, hopen', -⟩ := logView_eq_ok.mp h'
    exact eq_of_decryptStr hopen hopen'
  have hsame : ∀ r ∈ s.liveLogs, ∀ r' ∈ s.liveLogs, ∀ k k' item,
      Store.logView s.account k r = .ok (some item) →
      Store.logView s.account k' r' = .ok (some item) → r' = r := by
    intro r hr r' hr' k k' item h h'
    obtain ⟨_, _, -, -, rfl⟩ := logView_eq_ok.mp h
    obtain ⟨_, _, -, -, heq⟩ := logView_eq_ok.mp h'
    have hid : r.id = r'.id := congrArg LogItem.id heq
    have hrow' := (Store.mem_liveLogs.mp hr').1
    rw [← hid, (Store.mem_liveLogs.mp hr).1] at hrow'
    exact (Option.some_inj.mp hrow').symm
  rw [Store.logs, Store.logs, Store.decryptLogRows_eq_collect, Store.decryptLogRows_eq_collect,
    haccount, liveLogs_trimmed hrows]
  constructor
  · intro h r hrow hdeleted
    exact spares_of_retains hnodup hrun hopens' hkey hsame hp h r
      (Store.mem_liveLogs.mpr ⟨hrow, hdeleted⟩)
  · intro h
    have hall := retains_of_spares hnodup hrun hopens' hp (fun r hr =>
      h r (Store.mem_liveLogs.mp hr).1 (Store.mem_liveLogs.mp hr).2) s.liveLogs.length
    rw [List.take_length, List.take_of_length_le (List.length_filter_le _ _)] at hall
    exact hall

/-! ### All listings -/

variable [Serde CommandHistory] [Serde ConnectionHistory] [Serde LogMeta]

/-- A history entry opens with a key, and is an entry of its kind. -/
def ReadsHistory (k : SymmetricKey) (r : HistoryRow) : Prop :=
  match r.kind with
  | .command => ∃ item, Store.decryptHistoryRow CommandHistory k r = .ok item
  | .connection => ∃ item, Store.decryptHistoryRow ConnectionHistory k r = .ok item

/-- Every live row of a vault whose key is held opens with it. -/
structure Opens (T : Type) [Payload T] (s : Store) : Prop where
  entities : ∀ r, s.row r.id = some r → r.deleted = false →
    ∀ k n, s.heldPair r.vaultId = some (k, n) →
      ∃ text, decryptStr k (Aad.entity r.kind r.id) r.data = .ok text
        ∧ (r.kind = Payload.KIND T → ∃ data : T, Serde.fromJson text = some data)
  history : ∀ r, s.historyRow r.id = some r → r.deleted = false →
    ∀ k n, s.heldPair r.vaultId = some (k, n) → ReadsHistory k r
  logs : ∀ r, s.logRow r.id = some r → r.deleted = false →
    ∀ k n, s.heldPair r.vaultId = some (k, n) →
      ∃ item, Store.logView s.account k r = .ok (some item)

/-- The listings succeed, and have every record they had in another store. -/
structure StillListed (T : Type) [Payload T] (vaultId : Uuid) (s s' : Store) : Prop where
  entities : Retains (fun e e' => e'.id = e.id ∧ e'.data = e.data) (s.list T (some vaultId))
    (s'.list T (some vaultId))
  commands : ∀ limit, Retains (· = ·) (s.commands limit) (s'.commands limit)
  connections : ∀ limit, Retains (· = ·) (s.connections limit) (s'.connections limit)
  logs : Retains (· = ·) s.logs s'.logs

/-- A pass spares every row that the listings visit: no entity of the vault carries the new version
already, the key held for the vault of a history entry or of a recording is kept, and a locked vault
has only those that the key offered can list. -/
structure SparesRows (T : Type) [Payload T] (privateKey : KeyPair) (remote : List Vault) (v : Vault)
    (s : Store) : Prop where
  entities : ∀ r, Listed T s v.id r → r.keyVersion ≠ v.keyVersion
  history : ∀ r, s.historyRow r.id = some r → r.deleted = false →
    Spares privateKey remote s r.vaultId (fun k => ReadsHistory k r)
  logs : ∀ r, s.logRow r.id = some r → r.deleted = false →
    Spares privateKey remote s r.vaultId (fun k => ∃ o, Store.logView s.account k r = .ok o)

/-- After a pass that rotates a vault, every listing succeeds and has every record it had before,
exactly when the pass spares the rows that the listings visit. -/
theorem stillListed_iff_sparesRows {T : Type} [Payload T] (hopens : Opens T s)
    (hnodup : (remote.map Vault.id).Nodup) (hv : v ∈ remote)
    (hheld : s.heldPair v.id = some (k, n)) (hrot : Rotates privateKey v k n)
    (hrun : (applyVaultList privateKey remote nonce).result s = .ok applied) :
  StillListed T v.id s ((applyVaultList privateKey remote nonce).final s)
    ↔ SparesRows T privateKey remote v s
  := by
  have hentities : ∀ r, Listed T s v.id r → ∃ e, Store.entityView T k r = .ok (some e) := by
    rintro r ⟨hrow, hvault, hkind, hdeleted⟩
    obtain ⟨text, hopen, hdata⟩ := hopens.entities r hrow hdeleted k n (by rw [hvault, hheld])
    obtain ⟨data, hdata⟩ := hdata hkind
    exact ⟨_, entityView_eq_ok.mpr ⟨text, data, hopen, hdata, rfl⟩⟩
  have hcommand : ∀ r, s.historyRow r.id = some r → r.deleted = false → r.kind = .command →
      ∀ k n, s.heldPair r.vaultId = some (k, n) →
        ∃ item, Store.decryptHistoryRow CommandHistory k r = .ok item := by
    intro r hrow hdeleted hkind k n hheld
    have hreads := hopens.history r hrow hdeleted k n hheld
    rw [ReadsHistory, hkind] at hreads
    exact hreads
  have hconnection : ∀ r, s.historyRow r.id = some r → r.deleted = false → r.kind = .connection →
      ∀ k n, s.heldPair r.vaultId = some (k, n) →
        ∃ item, Store.decryptHistoryRow ConnectionHistory k r = .ok item := by
    intro r hrow hdeleted hkind k n hheld
    have hreads := hopens.history r hrow hdeleted k n hheld
    rw [ReadsHistory, hkind] at hreads
    exact hreads
  have hcommands := retains_listHistory_iff hnodup hrun hcommand
  have hconnections := retains_listHistory_iff hnodup hrun hconnection
  have hlist := retains_list_iff hnodup hv hheld hrot hrun hentities
  have hlogs := retains_logs_iff hnodup hrun hopens.logs
  constructor
  · intro h
    refine ⟨hlist.mp h.entities, ?_, hlogs.mp h.logs⟩
    intro r hrow hdeleted
    cases hkind : r.kind with
    | command =>
        have hspares := hcommands.mp h.commands r hrow hdeleted hkind
        simp only [ReadsHistory, hkind]
        exact hspares
    | connection =>
        have hspares := hconnections.mp h.connections r hrow hdeleted hkind
        simp only [ReadsHistory, hkind]
        exact hspares
  · intro h
    refine ⟨hlist.mpr h.entities, hcommands.mpr ?_, hconnections.mpr ?_, hlogs.mpr h.logs⟩
    · intro r hrow hdeleted hkind
      have hspares := h.history r hrow hdeleted
      simp only [ReadsHistory, hkind] at hspares
      exact hspares
    · intro r hrow hdeleted hkind
      have hspares := h.history r hrow hdeleted
      simp only [ReadsHistory, hkind] at hspares
      exact hspares

end

end Termoso.Core

/-! ### A device with one host -/

namespace Termoso.Symbolic

/-- A host is a text. -/
scoped instance : Core.Payload String where
  toJson := id
  fromJson := some
  KIND := "host"

end Termoso.Symbolic

namespace Termoso.Core

open Symbolic

/-- The vault that `rotatingList` rotates. -/
def rotatedVault : Vault := rotatingList.head (by decide)

theorem rotates_rotatedVault :
  Rotates account rotatedVault (vaultKey 7) 1
  := ⟨vaultKey 8, .selfAuthenticated, by decide, by decide, fun _ => rfl, by decide⟩

theorem opens_oneEntity :
  Opens String oneEntity
  := by
  constructor
  · intro r hrow _ k n hheld
    obtain rfl := List.mem_singleton.mp (Table.mem_of_get? hrow)
    cases hheld
    exact ⟨"box", decryptStr_encryptStr, fun _ => ⟨"box", rfl⟩⟩
  · intro r hrow
    cases Table.mem_of_get? hrow
  · intro r hrow
    cases Table.mem_of_get? hrow

/-- A device that has a host, and nothing else, shows it after a rotation. -/
theorem stillListed_iff_sparesRows_oneEntity :
  StillListed String 1 oneEntity (rotatingPass.final oneEntity)
    ↔ SparesRows String account rotatingList rotatedVault oneEntity
  := by
  have hrun : rotatingPass.result oneEntity = .ok ⟨[1], []⟩ := by decide +kernel
  exact stillListed_iff_sparesRows opens_oneEntity (by decide) (List.head_mem _) rfl
    rotates_rotatedVault hrun

/-- The device after a command was run. -/
def oneCommand : Store :=
  { oneEntity with
    history := ⟨[⟨6, .command, 1, encryptStr (vaultKey 7) (historyAad .command 6) nonce "ls", 1, 0,
      0, false, true⟩], by decide⟩ }

/-- A rotation leaves the command sealed with the key that was replaced, so that no command is
listed any more. -/
theorem not_stillListed_oneCommand :
  ¬ ∀ (privateKey : KeyPair) (remote : List Vault) (nonce : ℕ → Uuid → Nonce) (s : Store)
      (v : Vault) (k : SymmetricKey) (n : ℤ) (applied : AppliedVaults), Opens String s →
    (remote.map Vault.id).Nodup → v ∈ remote → s.heldPair v.id = some (k, n) →
    Rotates privateKey v k n → (applyVaultList privateKey remote nonce).result s = .ok applied →
    StillListed String v.id s ((applyVaultList privateKey remote nonce).final s)
  := by
  intro h
  have hopens : Opens String oneCommand := by
    refine ⟨opens_oneEntity.entities, ?_, opens_oneEntity.logs⟩
    intro r hrow _ k n hheld
    obtain rfl := List.mem_singleton.mp (Table.mem_of_get? hrow)
    cases hheld
    exact ⟨⟨6, 0, ⟨none, "ls"⟩⟩, by decide +kernel⟩
  have hrun : rotatingPass.result oneCommand = .ok ⟨[1], []⟩ := by decide +kernel
  have hlisted := h account rotatingList (fun _ _ => nonce) oneCommand rotatedVault (vaultKey 7) 1
    ⟨[1], []⟩ hopens (by decide) (List.head_mem _) rfl rotates_rotatedVault hrun
  obtain ⟨items, hitems, -⟩ := hlisted.commands 10
  have hfails : (rotatingPass.final oneCommand).commands 10 = .error (.crypto .decrypt) := by
    decide +kernel
  rw [rotatingPass, hitems] at hfails
  cases hfails

end Termoso.Core
