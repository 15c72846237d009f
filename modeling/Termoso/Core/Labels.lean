import Termoso.Core.Mirror
import Termoso.Lib.Transition

/-!
# Key version labels

Each row carries the version of the vault key that its envelope is sealed with.  A ledger
notes which key had which version: the keys a device starts with, and those its vault lists
offered.  A label is truthful when the ledger has the key of the envelope under it.

`updateConnection` and `finishLog` seal with the key the vault has now and leave the label as
it is.  Runs in which they are used only while the key still goes by that label write truthful
labels.
-/

namespace Termoso.Core

open Script

/-- Keys of vaults, with their versions. -/
abbrev KeyLedger := List (Uuid × SymmetricKey × ℤ)

section
variable [Primitives]

/-- An envelope is sealed with a key. -/
def SealedWith (k : SymmetricKey) (data : String) : Prop :=
  ∃ aad nonce plaintext, data = encryptB64 k aad nonce plaintext

/-- An envelope in a vault is sealed with a key that goes by its label. -/
def Truthful (L : KeyLedger) (vaultId : Uuid) (data : String) (keyVersion : ℤ) : Prop :=
  ∃ k, (vaultId, k, keyVersion) ∈ L ∧ SealedWith k data

/-- The rows of `s` that are not rows of `s₀` already have truthful labels. Tombstones have no
envelope. -/
structure Labelled (L : KeyLedger) (s₀ s : Store) : Prop where
  entity : ∀ id r, s.row id = some r → r.deleted = false →
    s₀.row id = some r ∨ Truthful L r.vaultId r.data r.keyVersion
  history : ∀ id r, s.historyRow id = some r → r.deleted = false →
    s₀.historyRow id = some r ∨ Truthful L r.vaultId r.data r.keyVersion
  log : ∀ id r, s.logRow id = some r → r.deleted = false →
    s₀.logRow id = some r ∨ Truthful L r.vaultId r.metadata r.keyVersion

/-- The ledger has the keys held. -/
def RecordedIn (L : KeyLedger) (s : Store) : Prop :=
  ∀ id k n, s.heldPair id = some (k, n) → (id, k, n) ∈ L

/-- What each statement keeps. -/
def KeepsLabels (L : KeyLedger) (s s' : Store) : Prop := Labelled L s s' ∧ RecordedIn L s'

variable {L L' : KeyLedger} {s s' s₀ s₁ : Store} {vaultId : Uuid} {data : String} {keyVersion : ℤ}

theorem Truthful.mono (h : Truthful L vaultId data keyVersion) (hL : L ⊆ L') :
  Truthful L' vaultId data keyVersion
  := by
  obtain ⟨k, hk, hdata⟩ := h
  exact ⟨k, hL hk, hdata⟩

namespace Labelled

theorem refl :
  Labelled L s s
  := ⟨fun _ _ h _ => .inl h, fun _ _ h _ => .inl h, fun _ _ h _ => .inl h⟩

theorem trans (h : Labelled L s₀ s₁) (h' : Labelled L s₁ s) :
  Labelled L s₀ s
  := by
  constructor
  · intro id r hr hdel
    rcases h'.entity id r hr hdel with hr' | ht
    · exact h.entity id r hr' hdel
    · exact .inr ht
  · intro id r hr hdel
    rcases h'.history id r hr hdel with hr' | ht
    · exact h.history id r hr' hdel
    · exact .inr ht
  · intro id r hr hdel
    rcases h'.log id r hr hdel with hr' | ht
    · exact h.log id r hr' hdel
    · exact .inr ht

theorem mono (h : Labelled L s₀ s) (hL : L ⊆ L') :
  Labelled L' s₀ s
  := ⟨fun id r hr hdel => (h.entity id r hr hdel).imp_right (·.mono hL),
    fun id r hr hdel => (h.history id r hr hdel).imp_right (·.mono hL),
    fun id r hr hdel => (h.log id r hr hdel).imp_right (·.mono hL)⟩

/-- A statement that leaves no new row writes truthful labels. -/
theorem of_rows (hentity : ∀ id r, s'.row id = some r → s.row id = some r)
    (hhistory : ∀ id r, s'.historyRow id = some r → s.historyRow id = some r)
    (hlog : ∀ id r, s'.logRow id = some r → s.logRow id = some r) :
  Labelled L s s'
  := ⟨fun id r hr _ => .inl (hentity id r hr), fun id r hr _ => .inl (hhistory id r hr),
    fun id r hr _ => .inl (hlog id r hr)⟩

/-- A statement on vaults writes truthful labels. -/
theorem of_vaults (h : s' = { s with vaults := s'.vaults }) :
  Labelled L s s'
  := by
  rw [h]
  apply of_rows
  · exact fun _ _ hr => hr
  · exact fun _ _ hr => hr
  · exact fun _ _ hr => hr

/-- A statement on entities writes truthful labels when its new rows have them. -/
theorem of_entities (hhistory : s'.history = s.history) (hlog : s'.sessionLogs = s.sessionLogs)
    (h : ∀ id r, s'.row id = some r → r.deleted = false →
      s.row id = some r ∨ Truthful L r.vaultId r.data r.keyVersion) :
  Labelled L s s'
  := by
  constructor
  · exact h
  · intro id r hr _
    rw [Store.historyRow, hhistory] at hr
    exact .inl hr
  · intro id r hr _
    rw [Store.logRow, hlog] at hr
    exact .inl hr

/-- A statement on the history writes truthful labels when its new row has one. -/
theorem of_history {id : Uuid} {r : HistoryRow} (hentity : s'.entities = s.entities)
    (hlog : s'.sessionLogs = s.sessionLogs)
    (hrow : ∀ id', s'.historyRow id' = if id' = id then some r else s.historyRow id')
    (h : Truthful L r.vaultId r.data r.keyVersion) :
  Labelled L s s'
  := by
  constructor
  · intro id' r' hr' _
    rw [Store.row, hentity] at hr'
    exact .inl hr'
  · intro id' r' hr' _
    rw [hrow] at hr'
    split at hr'
    · cases hr'
      exact .inr h
    · exact .inl hr'
  · intro id' r' hr' _
    rw [Store.logRow, hlog] at hr'
    exact .inl hr'

/-- A statement on the session logs writes truthful labels when its new row has one. -/
theorem of_log {id : Uuid} {r : LogRow} (hentity : s'.entities = s.entities)
    (hhistory : s'.history = s.history)
    (hrow : ∀ id', s'.logRow id' = if id' = id then some r else s.logRow id')
    (h : Truthful L r.vaultId r.metadata r.keyVersion) :
  Labelled L s s'
  := by
  constructor
  · intro id' r' hr' _
    rw [Store.row, hentity] at hr'
    exact .inl hr'
  · intro id' r' hr' _
    rw [Store.historyRow, hhistory] at hr'
    exact .inl hr'
  · intro id' r' hr' _
    rw [hrow] at hr'
    split at hr'
    · cases hr'
      exact .inr h
    · exact .inl hr'

end Labelled

omit [Primitives] in
theorem RecordedIn.of_vaults (h : RecordedIn L s) (hvaults : s'.vaults = s.vaults) :
  RecordedIn L s'
  := by
  intro id k n hk
  rw [Store.heldPair_of_vaults hvaults] at hk
  exact h id k n hk

/-- A text sealed with the key held is truthful under the version recorded. -/
theorem RecordedIn.truthful (h : RecordedIn L s) {v : LocalVault} {k : SymmetricKey} {aad : Aad}
    {nonce : Nonce} {value : String} (hget : s.vaults.get? vaultId = some v)
    (hk : v.wrappedKey = some k) :
  Truthful L vaultId (encryptStr k aad nonce value) v.keyVersion
  := by
  refine ⟨k, h vaultId k v.keyVersion ?_, aad, nonce, utf8 value, rfl⟩
  simp [Store.heldPair, hget, hk]

/-! ### Local operations -/

variable {id : Uuid} {now : DateTime} {nonce : Nonce}

theorem labelled_putRaw {kind json : String} (h : RecordedIn L s)
    (hput : s.putRaw vaultId kind id json now nonce = .ok s') :
  Labelled L s s'
  := by
  obtain ⟨v, k, hget, hk, -, -, -, hhistory, hlog, -, hrow⟩ := Store.putRaw_eq_ok hput
  apply Labelled.of_entities hhistory hlog
  intro id' r hr _
  rw [hrow] at hr
  split at hr
  · cases hr
    exact .inr (h.truthful hget hk)
  · exact .inl hr

theorem labelled_delete (hdelete : s.delete id now = .ok s') :
  Labelled L s s'
  := by
  rcases Store.delete_eq_ok hdelete with ⟨-, rfl⟩ | ⟨r, v, -, -, -, -, hhistory, hlog, -, hrow⟩
  · exact Labelled.refl
  · apply Labelled.of_entities hhistory hlog
    intro id' r' hr' hdel
    rw [hrow] at hr'
    split at hr'
    · split at hr'
      · cases hr'
        cases hdel
      · cases hr'
    · exact .inl hr'

theorem labelled_recordHistory {T : Type} [Serde T] {kind : HistoryKind} {value : T}
    (h : RecordedIn L s) (hrecord : s.recordHistory kind value id now nonce = .ok s') :
  Labelled L s s'
  := by
  obtain ⟨v, k, hget, hk, -, -, -, hentity, hlog, -, hrow⟩ := Store.recordHistory_eq_ok hrecord
  exact Labelled.of_history hentity hlog hrow (h.truthful hget hk)

/-- A connection updated while its label goes with the key held keeps a truthful label. -/
theorem labelled_updateConnection [Serde ConnectionHistory] {value : ConnectionHistory}
    (hlabel : ∀ r k n, s.historyRow id = some r → s.heldPair r.vaultId = some (k, n) →
      (r.vaultId, k, r.keyVersion) ∈ L)
    (hupdate : s.updateConnection id value nonce = .ok s') :
  Labelled L s s'
  := by
  obtain ⟨r, v, k, hget, -, -, hvault, hk, -, hentity, hlog, -, hrow⟩ :=
    Store.updateConnection_eq_ok hupdate
  apply Labelled.of_history hentity hlog hrow
  refine ⟨k, ?_, _, _, _, rfl⟩
  exact hlabel r k v.keyVersion hget (by simp [Store.heldPair, hvault, hk])

theorem labelled_beginLog [Serde LogMeta] {metadata : LogMeta} (h : RecordedIn L s)
    (hbegin : s.beginLog vaultId metadata id now nonce = .ok s') :
  Labelled L s s'
  := by
  obtain ⟨v, k, r, hget, hk, -, -, hvault, hversion, hdata, -, hentity, hhistory, -, hrow⟩ :=
    Store.beginLog_eq_ok hbegin
  apply Labelled.of_log hentity hhistory hrow
  rw [hvault, hversion, hdata]
  exact h.truthful hget hk

/-- A recording finished while its label goes with the key held keeps a truthful label. -/
theorem labelled_finishLog [Serde LogMeta] {metadata : LogMeta} {body : Bytes} {dir : String}
    {bodyNonce : Nonce}
    (hlabel : ∀ r k n, s.logRow id = some r → s.heldPair r.vaultId = some (k, n) →
      (r.vaultId, k, r.keyVersion) ∈ L)
    (hfinish : s.finishLog id metadata body dir nonce bodyNonce = .ok s') :
  Labelled L s s'
  := by
  obtain ⟨r, v, k, r', hget, hvault, hk, -, hvault', hversion, hdata, -, hentity, hhistory, -,
    hrow⟩ := Store.finishLog_eq_ok hfinish
  apply Labelled.of_log hentity hhistory hrow
  rw [hvault', hversion, hdata]
  refine ⟨k, ?_, _, _, _, rfl⟩
  exact hlabel r k v.keyVersion hget (by simp [Store.heldPair, hvault, hk])

/-- Rows adopted are labelled with the key of the personal vault. -/
theorem triple_adoptLocalHistory {nonce : Uuid → Nonce} :
  Triple (RecordedIn L) (KeepsLabels L) (Store.adoptLocalHistory nonce)
    (fun _ => RecordedIn L)
  := by
  rw [Store.adoptLocalHistory]
  apply Triple.read.andThen
  intro s
  split
  · exact Triple.ret (fun _ hs => hs.2)
  rename_i personal hpersonal
  apply Triple.lift.andThen
  intro loc
  apply Triple.lift.andThen
  intro localKey
  apply Triple.lift.andThen
  intro personalKey
  have hrows : ∀ rows, Triple
      (fun s => (personal.id, personalKey, personal.keyVersion) ∈ L ∧ RecordedIn L s)
      (KeepsLabels L) (Store.adoptRows localKey personalKey personal nonce rows)
      (fun _ => RecordedIn L) := by
    intro rows
    induction rows with
    | nil => exact Triple.ret (fun _ hs => hs.2)
    | cons row rows ih =>
        rw [Store.adoptRows]
        apply Triple.lift.andThen
        intro plaintext
        have hexec : Triple
            (fun s => CoreError.lift (decryptStr localKey (historyAad row.kind row.id) row.data)
                = .ok plaintext
              ∧ (personal.id, personalKey, personal.keyVersion) ∈ L ∧ RecordedIn L s)
            (KeepsLabels L)
            (Script.exec (fun s => { s with
              history := s.history.set row.id
                (fun r => { r with
                  vaultId := personal.id
                  data := encryptStr personalKey (historyAad row.kind row.id) (nonce row.id)
                    plaintext
                  keyVersion := personal.keyVersion, dirty := true })
                (fun _ => rfl) }) : Script Store CoreError Unit)
            (fun _ s => (personal.id, personalKey, personal.keyVersion) ∈ L ∧ RecordedIn L s) := by
          apply Triple.exec
          rintro s ⟨-, hkey, hs⟩
          refine ⟨⟨?_, hs.of_vaults rfl⟩, hkey, hs.of_vaults rfl⟩
          constructor
          · exact fun _ _ h _ => .inl h
          · intro id r hr _
            rw [Store.historyRow, Table.get?_set] at hr
            split at hr
            · obtain ⟨r', -, rfl⟩ := Option.map_eq_some_iff.mp hr
              exact .inr ⟨personalKey, hkey, _, _, _, rfl⟩
            · exact .inl hr
          · exact fun _ _ h _ => .inl h
        apply hexec.andThen
        intro _
        exact ih
  apply ((hrows _).pre _).andThen
  · intro _
    exact Triple.ret (fun _ hs => hs)
  · rintro s' ⟨hkey, -, -, rfl, hs⟩
    refine ⟨?_, hs⟩
    obtain ⟨hget, -⟩ := Store.personalVault_eq_some hpersonal
    obtain ⟨v, hget', hk⟩ := Store.vaultKey_eq_ok.mp hkey
    rw [hget] at hget'
    cases hget'
    exact hs personal.id personalKey personal.keyVersion (by simp [Store.heldPair, hget, hk])

/-! ### Refreshing the vaults -/

/-- Rows re-encrypted are labelled with the key they are re-encrypted under. -/
theorem triple_reencryptVault_labels {oldKey : SymmetricKey} {nonce : Uuid → Nonce}
    {P : Store → Prop} (hP : ∀ s s', P s → s'.vaults = s.vaults → P s')
    (hrecorded : ∀ s, P s → RecordedIn L s) :
  Triple P (KeepsLabels L) (Store.reencryptVault vaultId oldKey nonce) (fun _ => P)
  := by
  apply Store.triple_reencryptVault (I := fun newKey keyVersion rows s =>
    P s ∧ (vaultId, newKey, keyVersion) ∈ L
      ∧ ∀ r ∈ rows, ∀ r', s.row r.id = some r' → r'.vaultId = vaultId)
  · intro s l newKey hs hget hk
    refine ⟨hs, hrecorded s hs vaultId newKey l.keyVersion (by simp [Store.heldPair, hget, hk]), ?_⟩
    intro r hr r' hr'
    obtain ⟨hrow, haccepts⟩ := Store.mem_rows.mp (List.mem_of_mem_filter hr)
    rw [hrow] at hr'
    cases hr'
    simp [EntityFilter.accepts] at haccepts
    exact haccepts.1
  · rintro newKey keyVersion r rows s ⟨hs, hkey, hrows⟩ _
    exact ⟨hs, hkey, fun r' hr' => hrows r' (List.mem_cons_of_mem _ hr')⟩
  · rintro newKey keyVersion r rows s bytes plaintext ⟨hs, hkey, hrows⟩ _ _
    refine ⟨⟨?_, (hrecorded s hs).of_vaults rfl⟩, hP s _ hs rfl, hkey, ?_⟩
    · refine Labelled.of_entities (by rfl) (by rfl) ?_
      intro id r' hr' _
      rw [Store.row_setData] at hr'
      split at hr'
      · obtain ⟨r'', hr'', rfl⟩ := Option.map_eq_some_iff.mp hr'
        refine .inr ⟨newKey, ?_, _, _, _, rfl⟩
        rw [hrows r List.mem_cons_self r'' hr'']
        exact hkey
      · exact .inl hr'
    · intro r₁ hr₁ r' hr'
      rw [Store.row_setData] at hr'
      split at hr'
      · obtain ⟨r'', hr'', rfl⟩ := Option.map_eq_some_iff.mp hr'
        exact hrows r List.mem_cons_self r'' hr''
      · exact hrows r₁ (List.mem_cons_of_mem _ hr₁) r' hr'
  · exact fun _ _ _ hs => hs.1

end

/-- The keys a list offers. -/
def offeredKeys [Boxes] (privateKey : KeyPair) (remote : List Vault) : KeyLedger :=
  remote.filterMap (fun v =>
    (offeredKey privateKey v).map (fun offered => (v.id, offered.1, v.keyVersion)))

section
variable [Boxes] {privateKey : KeyPair} {L : KeyLedger} {s s' s₀ : Store} {remote : List Vault}
  {nonce : ℕ → Uuid → Nonce}

/-- The key decided is the key held or the key offered. -/
theorem mem_of_pairAfter {v : Vault} {k : SymmetricKey} {n : ℤ} {held : Option (SymmetricKey × ℤ)}
    (h : pairAfter privateKey v held = some (k, n)) (hv : v ∈ remote) :
  held = some (k, n) ∨ (v.id, k, n) ∈ offeredKeys privateKey remote
  := by
  have hoffered : ∀ k' origin, offeredKey privateKey v = some (k', origin) →
      (v.id, k', v.keyVersion) ∈ offeredKeys privateKey remote := by
    intro k' origin h
    apply List.mem_filterMap.mpr
    exact ⟨v, hv, by rw [h]; rfl⟩
  cases held with
  | none =>
      rw [pairAfter_none] at h
      obtain ⟨⟨k', origin⟩, hk', heq⟩ := Option.map_eq_some_iff.mp h
      cases heq
      exact .inr (hoffered k' origin hk')
  | some held =>
      rcases pairAfter_held privateKey v held with hsame | ⟨k', origin, hk', -, -, hnew⟩
      · exact .inl (hsame.symm.trans h)
      · cases hnew.symm.trans h
        exact .inr (hoffered _ origin hk')

/-- Mirroring the next vault of a list that names each vault once writes truthful labels. -/
theorem triple_mirrorVault_labels {v : Vault} {rest : List Vault} {nonce : Uuid → Nonce}
    (hnodup : ((v :: rest).map Vault.id).Nodup) (hv : v ∈ remote)
    (hL : offeredKeys privateKey remote ⊆ L) :
  Triple
    (fun s => RecordedIn L s ∧ ∀ w ∈ v :: rest, s.heldPair w.id = s₀.heldPair w.id)
    (KeepsLabels L) (mirrorVault privateKey s₀.listVaults nonce v)
    (fun _ s => RecordedIn L s ∧ ∀ w ∈ rest, s.heldPair w.id = s₀.heldPair w.id)
  := by
  apply triple_mirrorVault (A := fun _ s =>
    RecordedIn L s ∧ ∀ w ∈ rest, s.heldPair w.id = s₀.heldPair w.id)
  · rintro held s s' ⟨hs, hsame⟩ hheld hupsert
    rw [Store.find?_listVaults] at hheld
    obtain rfl := Store.heldKey_eq_ok hheld (hsame v List.mem_cons_self)
    have hnew := Store.heldPair_upsertVault hupsert
    obtain ⟨hget, hstore⟩ := Store.upsertVault_eq_ok hupsert
    have hother : ∀ id, id ≠ v.id → s'.heldPair id = s.heldPair id := by
      intro id hid
      apply Store.heldPair_congr
      rw [hget, if_neg hid]
    have hrecorded : RecordedIn L s' := by
      intro id k n hk
      by_cases hid : id = v.id
      · subst hid
        rw [hnew] at hk
        rcases mem_of_pairAfter hk hv with hheld | hoffered
        · exact hs v.id k n hheld
        · exact hL hoffered
      · rw [hother id hid] at hk
        exact hs id k n hk
    refine ⟨⟨Labelled.of_vaults hstore, hrecorded⟩, hrecorded, ?_⟩
    intro w hw
    rw [hother w.id]
    · exact hsame w (List.mem_cons_of_mem _ hw)
    · intro heq
      rw [List.map_cons, List.nodup_cons] at hnodup
      exact hnodup.1 (List.mem_map.mpr ⟨w, hw, heq⟩)
  · rintro _ s ⟨hs, hsame⟩
    have hrecorded : RecordedIn L (s.setVaultSessionLogging v.id v.sessionLogging) := by
      intro id k n hk
      rw [Store.heldPair_setVaultSessionLogging] at hk
      exact hs id k n hk
    refine ⟨⟨Labelled.of_vaults (by rfl), hrecorded⟩, hrecorded, ?_⟩
    intro w hw
    rw [Store.heldPair_setVaultSessionLogging]
    exact hsame w hw
  · rintro _ s ⟨hs, hsame⟩
    have hrecorded : RecordedIn L (s.setVaultDefault v.id v.isDefault) := by
      intro id k n hk
      rw [Store.heldPair_setVaultDefault] at hk
      exact hs id k n hk
    refine ⟨⟨Labelled.of_vaults (by rfl), hrecorded⟩, hrecorded, ?_⟩
    intro w hw
    rw [Store.heldPair_setVaultDefault]
    exact hsame w hw
  · exact fun _ _ _ hs => hs
  · intro _ _ _
    apply triple_reencryptVault_labels
    · rintro s s' ⟨hs, hsame⟩ hvaults
      refine ⟨hs.of_vaults hvaults, ?_⟩
      intro w hw
      rw [Store.heldPair_of_vaults hvaults]
      exact hsame w hw
    · exact fun _ hs => hs.1

/-- A refresh from a list that names each vault once writes truthful labels. -/
theorem triple_applyVaultList_labels (hnodup : (remote.map Vault.id).Nodup)
    (hL : offeredKeys privateKey remote ⊆ L) :
  Triple (fun s => s = s₀ ∧ RecordedIn L s) (KeepsLabels L)
    (applyVaultList privateKey remote nonce) (fun _ => RecordedIn L)
  := by
  have hmirror : Triple
      (fun s => RecordedIn L s ∧ ∀ w ∈ remote, s.heldPair w.id = s₀.heldPair w.id)
      (KeepsLabels L) (mirrorVaults privateKey s₀.listVaults nonce remote)
      (fun _ => RecordedIn L) := by
    apply (triple_mirrorVaults (I := fun rest s =>
      RecordedIn L s ∧ ∀ w ∈ rest, s.heldPair w.id = s₀.heldPair w.id) _).post
    · exact fun _ _ hs => hs.1
    · intro v rest nonce hsuffix
      apply triple_mirrorVault_labels _ (hsuffix.mem List.mem_cons_self) hL
      exact hnodup.sublist (hsuffix.sublist.map Vault.id)
  have hdrop : Triple (RecordedIn L) (KeepsLabels L) (dropVaults remote s₀.listVaults)
      (fun _ => RecordedIn L) := by
    apply triple_dropVaults (I := fun _ => RecordedIn L)
    intro l _ _ s s' hs hremove
    obtain ⟨hget, hrow, hhistory, hlog, -⟩ := Store.removeVault_eq_ok hremove
    have hrecorded : RecordedIn L s' := by
      intro id k n hk
      rw [Store.heldPair, hget] at hk
      split at hk
      · cases hk
      · exact hs id k n hk
    refine ⟨⟨Labelled.of_rows ?_ ?_ ?_, hrecorded⟩, hrecorded⟩
    · intro id r hr
      rw [hrow] at hr
      exact (Option.filter_eq_some_iff.mp hr).1
    · intro id r hr
      rw [hhistory] at hr
      exact (Option.filter_eq_some_iff.mp hr).1
    · intro id r hr
      rw [hlog] at hr
      exact (Option.filter_eq_some_iff.mp hr).1
  apply (triple_applyVaultList hmirror hdrop).pre
  rintro s ⟨rfl, hs⟩
  exact ⟨rfl, hs, fun _ _ => rfl⟩

end

/-! ### Runs -/

/-- A device, the store it started with, and the versions of the keys seen so far. -/
structure LabelledDevice where
  start : Store
  store : Store
  ledger : KeyLedger

/-- The operations that write rows. Those of many statements stop after any of them. -/
inductive LabelOp
  | putRaw (vaultId : Uuid) (kind : String) (id : Uuid) (json : String) (now : DateTime)
      (nonce : Nonce)
  | delete (id : Uuid) (now : DateTime)
  | recordCommand (data : CommandHistory) (id : Uuid) (now : DateTime) (nonce : Nonce)
  | recordConnection (data : ConnectionHistory) (id : Uuid) (now : DateTime) (nonce : Nonce)
  | updateConnection (id : Uuid) (data : ConnectionHistory) (nonce : Nonce)
  | adoptLocalHistory (nonce : Uuid → Nonce) (stop : ℕ)
  | beginLog (vaultId : Uuid) (metadata : LogMeta) (id : Uuid) (now : DateTime) (nonce : Nonce)
  | finishLog (id : Uuid) (metadata : LogMeta) (body : Bytes) (dir : String)
      (nonce bodyNonce : Nonce)
  | applyVaultList (remote : List Vault) (nonce : ℕ → Uuid → Nonce) (stop : ℕ)

/-- The keys held, with the versions recorded. -/
def Store.heldKeys (s : Store) : KeyLedger :=
  s.vaults.rows.filterMap (fun l => l.wrappedKey.map (fun k => (l.id, k, l.keyVersion)))

theorem recordedIn_heldKeys (s : Store) :
  RecordedIn s.heldKeys s
  := by
  intro id k n hk
  obtain ⟨l, hget, hkey⟩ := Option.bind_eq_some_iff.mp hk
  obtain ⟨hmem, rfl⟩ := Table.get?_eq_some_iff.mp hget
  obtain ⟨k', hk', heq⟩ := Option.map_eq_some_iff.mp hkey
  cases heq
  apply List.mem_filterMap.mpr
  exact ⟨l, hmem, by rw [hk']; rfl⟩

section
variable [Boxes] [Serde CommandHistory] [Serde ConnectionHistory] [Serde LogMeta]
  (privateKey : KeyPair)

/-- The store after an operation that succeeds, or was stopped. -/
def LabelOp.run (s : Store) : LabelOp → Option Store
  | putRaw vaultId kind id json now nonce => (s.putRaw vaultId kind id json now nonce).toOption
  | delete id now => (s.delete id now).toOption
  | recordCommand data id now nonce => (s.recordCommand data id now nonce).toOption
  | recordConnection data id now nonce => (s.recordConnection data id now nonce).toOption
  | updateConnection id data nonce => (s.updateConnection id data nonce).toOption
  | adoptLocalHistory nonce stop => ((Store.adoptLocalHistory nonce).stops s)[stop]?
  | beginLog vaultId metadata id now nonce =>
    (s.beginLog vaultId metadata id now nonce).toOption
  | finishLog id metadata body dir nonce bodyNonce =>
    (s.finishLog id metadata body dir nonce bodyNonce).toOption
  | applyVaultList remote nonce stop =>
    ((Core.applyVaultList privateKey remote nonce).stops s)[stop]?

/-- The keys an operation makes known. -/
def LabelOp.offers : LabelOp → KeyLedger
  | applyVaultList remote _ _ => offeredKeys privateKey remote
  | _ => []

/-- The runs of a device from any store. -/
def labelSystem : TransitionSystem LabelledDevice LabelOp where
  init d := d.store = d.start ∧ d.ledger = d.start.heldKeys
  step d op := (op.run privateKey d.store).map (fun s =>
    { d with store := s, ledger := d.ledger ++ op.offers privateKey })

/-- The rows written since the start have truthful labels. -/
def LabelsTruthful (d : LabelledDevice) : Prop := Labelled d.ledger d.start d.store

/-- An operation keeps labels truthful: a connection updated and a recording finished have a label
that goes with the key held, and a vault list names each vault once. -/
def FitsLabel (d : LabelledDevice) : LabelOp → Prop
  | .updateConnection id _ _ => ∀ r k n, d.store.historyRow id = some r →
      d.store.heldPair r.vaultId = some (k, n) → (r.vaultId, k, r.keyVersion) ∈ d.ledger
  | .finishLog id _ _ _ _ _ => ∀ r k n, d.store.logRow id = some r →
      d.store.heldPair r.vaultId = some (k, n) → (r.vaultId, k, r.keyVersion) ∈ d.ledger
  | .applyVaultList remote _ _ => (remote.map Vault.id).Nodup
  | _ => True

variable {privateKey} {d d' : LabelledDevice} {op : LabelOp}

omit [Serde CommandHistory] [Serde ConnectionHistory] [Serde LogMeta] in
/-- What holds of the stops of a script whose statements keep labels. -/
theorem keepsLabels_of_stops {α : Type} {p : Script Store CoreError α} {L : KeyLedger}
    {P : Store → Prop} {Q : α → Store → Prop} {s s' : Store}
    (h : Triple P (KeepsLabels L) p Q) (hP : P s) (hs : RecordedIn L s) (hs' : s' ∈ p.stops s) :
  KeepsLabels L s s'
  := by
  apply h.at_stops hP ⟨Labelled.refl, hs⟩ _ hs'
  rintro s₁ s₂ ⟨h₁, -⟩ ⟨h₂, hrecorded⟩
  exact ⟨h₁.trans h₂, hrecorded⟩

/-- An operation that fits the labels writes truthful ones. -/
theorem keepsLabels_run {s : Store} (h : RecordedIn d.ledger d.store) (hfits : FitsLabel d op)
    (hrun : op.run privateKey d.store = some s) :
  KeepsLabels (d.ledger ++ op.offers privateKey) d.store s
  := by
  have hL : RecordedIn (d.ledger ++ op.offers privateKey) d.store :=
    fun id k n hk => List.mem_append_left _ (h id k n hk)
  have hedit : s.vaults = d.store.vaults → Labelled (d.ledger ++ op.offers privateKey) d.store s →
      KeepsLabels (d.ledger ++ op.offers privateKey) d.store s :=
    fun hvaults hlabelled => ⟨hlabelled, hL.of_vaults hvaults⟩
  cases op with
  | putRaw vaultId kind id json now nonce =>
      have hput := toOption_eq_some.mp hrun
      apply hedit _ (labelled_putRaw hL hput)
      obtain ⟨_, _, -, -, -, -, hvaults, -⟩ := Store.putRaw_eq_ok hput
      exact hvaults
  | delete id now =>
      have hdelete := toOption_eq_some.mp hrun
      apply hedit _ (labelled_delete hdelete)
      rcases Store.delete_eq_ok hdelete with ⟨-, rfl⟩ | ⟨_, _, -, -, -, hvaults, -⟩
      · rfl
      · exact hvaults
  | recordCommand data id now nonce =>
      have hrecord := toOption_eq_some.mp hrun
      rw [Store.recordCommand] at hrecord
      split at hrecord
      · cases hrecord
      · apply hedit _ (labelled_recordHistory hL hrecord)
        obtain ⟨_, _, -, -, -, -, hvaults, -⟩ := Store.recordHistory_eq_ok hrecord
        exact hvaults
  | recordConnection data id now nonce =>
      have hrecord := toOption_eq_some.mp hrun
      rw [Store.recordConnection] at hrecord
      apply hedit _ (labelled_recordHistory hL hrecord)
      obtain ⟨_, _, -, -, -, -, hvaults, -⟩ := Store.recordHistory_eq_ok hrecord
      exact hvaults
  | updateConnection id data nonce =>
      have hupdate := toOption_eq_some.mp hrun
      apply hedit
      · obtain ⟨_, _, _, -, -, -, -, -, hvaults, -⟩ := Store.updateConnection_eq_ok hupdate
        exact hvaults
      · apply labelled_updateConnection _ hupdate
        intro r k n hrow hheld
        exact List.mem_append_left _ (hfits r k n hrow hheld)
  | adoptLocalHistory nonce stop =>
      exact keepsLabels_of_stops triple_adoptLocalHistory hL hL (List.mem_of_getElem? hrun)
  | beginLog vaultId metadata id now nonce =>
      have hbegin := toOption_eq_some.mp hrun
      apply hedit _ (labelled_beginLog hL hbegin)
      obtain ⟨_, _, _, -, -, -, -, -, -, -, hvaults, -⟩ := Store.beginLog_eq_ok hbegin
      exact hvaults
  | finishLog id metadata body dir nonce bodyNonce =>
      have hfinish := toOption_eq_some.mp hrun
      apply hedit
      · obtain ⟨_, _, _, _, -, -, -, -, -, -, -, hvaults, -⟩ := Store.finishLog_eq_ok hfinish
        exact hvaults
      · apply labelled_finishLog _ hfinish
        intro r k n hrow hheld
        exact List.mem_append_left _ (hfits r k n hrow hheld)
  | applyVaultList remote nonce stop =>
      have hoffered := List.subset_append_right d.ledger (offeredKeys privateKey remote)
      exact keepsLabels_of_stops (triple_applyVaultList_labels hfits hoffered) ⟨rfl, hL⟩ hL
        (List.mem_of_getElem? hrun)

/-- In every run whose operations fit the labels, every row written since the start has a truthful
label. -/
theorem labelsTruthful_of_reaches (h : (labelSystem privateKey).Reaches FitsLabel d) :
  LabelsTruthful d
  := by
  have hkept : KeepsLabels d.ledger d.start d.store := by
    apply h.invariant (I := fun d => KeepsLabels d.ledger d.start d.store)
    · rintro d ⟨hstart, hledger⟩
      rw [hstart, hledger]
      exact ⟨Labelled.refl, recordedIn_heldKeys d.start⟩
    · rintro d op d' ⟨hlabelled, hrecorded⟩ hfits hstep
      obtain ⟨s, hrun, rfl⟩ := Option.map_eq_some_iff.mp hstep
      obtain ⟨hnew, hrecorded'⟩ := keepsLabels_run hrecorded hfits hrun
      exact ⟨(hlabelled.mono (List.subset_append_left _ _)).trans hnew, hrecorded'⟩
  exact hkept.1

end

/-! ### Updating a connection after a rotation -/

open Symbolic

/-- A device with the key of its personal vault at version one. -/
def labelStart : LabelledDevice where
  start :=
    { Store.empty with
      vaults := ⟨[⟨1, .personal, "personal", none, .manager, some (vaultKey 7), 1, 0, false, 0, true⟩],
        by decide⟩ }
  store :=
    { Store.empty with
      vaults := ⟨[⟨1, .personal, "personal", none, .manager, some (vaultKey 7), 1, 0, false, 0, true⟩],
        by decide⟩ }
  ledger := [(1, vaultKey 7, 1)]

theorem init_labelStart :
  (labelSystem account).init labelStart
  := ⟨rfl, rfl⟩

/-- Connecting, and the end of that connection. -/
def connecting : LabelOp := .recordConnection ⟨none, "box", "box", "ssh", none, none⟩ 9 0 nonce

def disconnecting : LabelOp := .updateConnection 9 ⟨none, "box", "box", "ssh", some 60, none⟩ nonce

/-- A refresh that rotates the vault to version two, to its end. -/
def rotating : LabelOp :=
  .applyVaultList
    [⟨1, .personal, none, "personal", .manager, some (selfEnvelope (vaultKey 8)), 2, false, true⟩]
    (fun _ _ => nonce) 3

/-- Labels are truthful when the connection ends before the rotation. -/
theorem labelsTruthful_disconnected :
  ∃ d, (labelSystem account).run labelStart [connecting, disconnecting, rotating] = some d
    ∧ LabelsTruthful d
  := by
  obtain ⟨d, hrun⟩ : ∃ d,
      (labelSystem account).run labelStart [connecting, disconnecting, rotating] = some d :=
    Option.isSome_iff_exists.mp (by decide +kernel)
  refine ⟨d, hrun, ?_⟩
  apply (labelsTruthful_of_reaches : (labelSystem account).Reaches FitsLabel d → LabelsTruthful d)
  apply TransitionSystem.Reaches.run (.init init_labelStart) _ hrun
  refine ⟨trivial, fun d₁ h₁ => ⟨?_, fun d₂ _ => ⟨?_, fun _ _ => trivial⟩⟩⟩
  · have hrow : ((labelSystem account).step labelStart connecting).bind (fun d =>
        (d.store.historyRow 9).map (fun r => (r.vaultId, r.keyVersion))) = some (1, 1) := by
      decide +kernel
    have hheld : ((labelSystem account).step labelStart connecting).bind (fun d =>
        d.store.heldPair 1) = some (vaultKey 7, 1) := by
      decide +kernel
    have hledger : ((labelSystem account).step labelStart connecting).map LabelledDevice.ledger
        = some [(1, vaultKey 7, 1)] := by
      decide +kernel
    rw [h₁] at hrow hheld hledger
    intro r k n hr hk
    simp only [Option.bind_some, Option.map_some, Option.some_inj, hr, Prod.mk.injEq] at hrow hledger
    rw [hrow.1] at hk
    cases hk.symm.trans hheld
    rw [hrow.1, hrow.2, hledger]
    exact List.mem_singleton_self _
  · exact List.nodup_singleton 1

/-- The connection ends after the rotation. -/
def mislabelled : LabelledDevice :=
  ((labelSystem account).run labelStart [connecting, rotating, disconnecting]).get
    (by decide +kernel)

/-- A connection that ends after a rotation is sealed with the new key under the old version. -/
theorem not_labelsTruthful_disconnected :
  ¬ ∀ (privateKey : KeyPair) (d : LabelledDevice),
    (labelSystem privateKey).Reachable d → LabelsTruthful d
  := by
  intro h
  have hreach : (labelSystem account).Reachable mislabelled :=
    TransitionSystem.reachable_run init_labelStart _
  have hrow : mislabelled.store.historyRow 9 = some ⟨9, .connection, 1,
      encryptStr (vaultKey 8) (historyAad .connection 9) nonce "box", 1, 0, 0, false, true⟩ := by
    decide +kernel
  have hstart : mislabelled.start.historyRow 9 = none := by decide +kernel
  have hledger : mislabelled.ledger = [(1, vaultKey 7, 1), (1, vaultKey 8, 2)] := by
    decide +kernel
  rcases (h account mislabelled hreach).history 9 _ hrow rfl with hsame | ⟨k, hk, aad, n, text, hdata⟩
  · rw [hstart] at hsame
    cases hsame
  · have hversion : k = vaultKey 7 := by
      rw [hledger] at hk
      simpa using hk
    have hopens : decryptB64 (vaultKey 8) (historyAad .connection 9) (encryptB64 k aad n text)
        = .ok (utf8 "box") := by
      rw [← hdata]
      exact decryptB64_encryptB64
    rw [hversion] at hopens
    exact absurd (key_of_decryptB64 hopens) (by decide)

end Termoso.Core
