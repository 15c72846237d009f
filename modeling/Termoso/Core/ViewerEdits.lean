import Termoso.Core.Mirror
import Termoso.Core.Moves
import Termoso.Lib.Transition

/-!
# What a viewer queues

The server takes no changes from a viewer.  The edits of a user look at the role first; what the
sync engine does to rows does not.  It marks a row as dirty when it rebases it, and every row that it
re-encrypts when the key of a vault was rotated, whatever the role.

No other statement of the store queues a change in a vault in which the recorded role is that of a
viewer.
-/

namespace Termoso.Core

open Script

namespace Store

/-- No row becomes dirty in a vault that is read-only for us, or is taken out of one so. -/
structure QueuesNothing (s s' : Store) : Prop where
  within : ∀ id r', s'.row id = some r' → s'.readOnly r'.vaultId = true → r'.dirty = true →
    ∃ r, s.row id = some r ∧ r.dirty = true
  out : ∀ id r r', s.row id = some r → s.readOnly r.vaultId = true → r.dirty = false →
    s'.row id = some r' → r'.dirty = false

variable {s s' : Store} {id vaultId : Uuid}

/-- What becomes dirty was so before, or is in a vault that is not read-only for us and was not taken
out of one. -/
theorem QueuesNothing.of_change (h : ∀ id r', s'.row id = some r' → r'.dirty = true →
    (∃ r, s.row id = some r ∧ r.dirty = true)
    ∨ s'.readOnly r'.vaultId = false ∧ ∀ r, s.row id = some r → s.readOnly r.vaultId = false) :
  s.QueuesNothing s'
  := by
  constructor
  · intro id r' hr' hreadOnly hdirty
    rcases h id r' hr' hdirty with hsame | ⟨hwritable, -⟩
    · apply hsame
    · rw [hreadOnly] at hwritable
      cases hwritable
  · intro id r r' hr hreadOnly hclean hr'
    by_contra hdirty
    rcases h id r' hr' (eq_true_of_ne_false hdirty) with ⟨r₀, hr₀, hdirty₀⟩ | ⟨-, hfrom⟩
    · cases hr.symm.trans hr₀
      rw [hclean] at hdirty₀
      cases hdirty₀
    · rw [hfrom r hr] at hreadOnly
      cases hreadOnly

/-- Rows that stay as they are, or go. -/
theorem QueuesNothing.of_rows (h : ∀ id r, s'.row id = some r → s.row id = some r) :
  s.QueuesNothing s'
  := by
  apply QueuesNothing.of_change
  intro id r hr hdirty
  exact .inl ⟨r, h id r hr, hdirty⟩

theorem readOnly_of_vaults (h : s'.vaults = s.vaults) :
  s'.readOnly vaultId = s.readOnly vaultId
  := by
  rw [readOnly, h, readOnly]

end Store

/-! ### Operations -/

/-- What is done to the rows and the vaults of a store. -/
inductive StoreOp : Type 1
  | putRaw (vaultId : Uuid) (kind : String) (id : Uuid) (json : String) (now : DateTime)
      (nonce : Nonce)
  | update {T : Type} [Payload T] (id : Uuid) (data : T) (now : DateTime) (nonce : Nonce)
  | delete (id : Uuid) (now : DateTime)
  | moveToVault {V : Type} [Serde V] (id vaultId newId : Uuid) (now now' : DateTime) (nonce : Nonce)
      (fates : List Fate)
  | markPushed (id : Uuid) (version seq : ℤ)
  | applyRemote (e : SyncEntity)
  | rebaseLocal (id : Uuid) (version seq : ℤ)
  | applyVaultList (privateKey : KeyPair) (remote : List Vault) (nonce : ℕ → Uuid → Nonce)

section
variable [Boxes]

/-- The stores that the statements of an operation leave, one after the other. -/
def StoreOp.stores (s : Store) : StoreOp → List Store
  | putRaw vaultId kind id json now nonce =>
    (s.putRaw vaultId kind id json now nonce).toOption.toList
  | update id data now nonce => (s.update id data now nonce).toOption.toList
  | delete id now => (s.delete id now).toOption.toList
  | @moveToVault V _ id vaultId newId now now' nonce fates =>
    [(Store.moveToVault V id vaultId newId now now' nonce s fates).2.1]
  | markPushed id version seq => [s.markPushed id version seq]
  | applyRemote e => (s.applyRemote e).toOption.toList
  | rebaseLocal id version seq => [s.rebaseLocal id version seq]
  | applyVaultList privateKey remote nonce =>
    (Core.applyVaultList privateKey remote nonce).trail s

/-- A refresh does not re-encrypt clean rows for a viewer: where the role listed is that of a viewer,
and the key held is rotated, no clean row with another version opens under the key held, or under
one that the list offered before. -/
def SparesViewer (privateKey : KeyPair) (remote : List Vault) (s : Store) : Prop :=
  ∀ before v after, remote = before ++ v :: after → v.myRole = .viewer →
    ∀ l, s.vaults.get? v.id = some l → l.unlocked = true →
    ∀ k' origin, offeredKey privateKey v = some (k', origin) → l.keyVersion < v.keyVersion →
      (v.kind = .personal → origin = .selfAuthenticated) →
    ∀ id r, s.row id = some r → r.vaultId = v.id → r.deleted = false → r.dirty = false →
      r.keyVersion ≠ v.keyVersion →
    ∀ k, s.vaultKey v.id = .ok k
        ∨ (∃ w ∈ before, w.id = v.id ∧ (offeredKey privateKey w).map Prod.fst = some k) →
      ∀ plaintext, decryptB64 k (Aad.entity r.kind r.id) r.data ≠ .ok plaintext

/-- An operation does not reach a clean row of a vault that is read-only for us: none is put into
another vault under its own identifier or rebased, and none is re-encrypted. The identifier for a
move is fresh. -/
def StoreOp.SparesClean (s : Store) : StoreOp → Prop
  | putRaw vaultId _ id _ _ _ => ∀ r, s.row id = some r → s.readOnly r.vaultId = true →
      r.dirty = true ∨ r.vaultId = vaultId
        ∨ ∀ v, s.vaults.get? vaultId = some v → v.kind.isSynced = false
  | moveToVault _ _ newId _ _ _ _ => s.row newId = none
  | rebaseLocal id _ _ => ∀ r, s.row id = some r → s.readOnly r.vaultId = true → r.dirty = true
  | applyVaultList privateKey remote _ => SparesViewer privateKey remote s
  | _ => True

end

/-! ### Edits -/

namespace Store

section
variable {s s₀ s' : Store} {vaultId id : Uuid} {kind json : String} {now : DateTime} {nonce : Nonce}

/-- Only rows in vaults that are not read-only for us have changed. -/
def Edited (s₀ s : Store) : Prop :=
  s.vaults = s₀.vaults ∧ ∀ id r', s.row id = some r' → s₀.row id = some r'
    ∨ s₀.readOnly r'.vaultId = false ∧ ∀ r, s₀.row id = some r → s₀.readOnly r.vaultId = false

theorem Edited.queuesNothing (h : s₀.Edited s) :
  s₀.QueuesNothing s
  := by
  apply QueuesNothing.of_change
  intro id r' hr' hdirty
  apply (h.2 id r' hr').imp
  · intro hr
    exact ⟨r', hr, hdirty⟩
  · rw [readOnly_of_vaults h.1]
    exact fun hwritable => hwritable

/-- Putting an entity changes its row, when the vault it is put into is not read-only for us. -/
theorem Edited.putRaw [Primitives] (h : s₀.Edited s)
    (hfrom : ∀ r, s₀.row id = some r → s₀.readOnly r.vaultId = false)
    (hput : s.putRaw vaultId kind id json now nonce = .ok s') :
  s₀.Edited s'
  := by
  obtain ⟨v, k, hv, -, hrole, -, hvaults, -, -, -, hrows⟩ := putRaw_eq_ok hput
  have hwritable : s₀.readOnly vaultId = false := by
    rw [← readOnly_of_vaults h.1, readOnly_eq_false hv]
    apply hrole
  constructor
  · rw [hvaults, h.1]
  · intro id' r' hr'
    rw [hrows id'] at hr'
    split at hr'
    · rename_i heq
      subst heq
      cases hr'
      right
      exact ⟨hwritable, hfrom⟩
    · apply h.2 id' r' hr'

/-- Deleting an entity changes its row, when its vault is not read-only for us. -/
theorem Edited.delete (h : s₀.Edited s) (hdelete : s.delete id now = .ok s') :
  s₀.Edited s'
  := by
  rcases delete_eq_ok hdelete with ⟨-, rfl⟩ | ⟨r, v, hr, hv, hrole, hvaults, -, -, -, hrows⟩
  · apply h
  · have hwritable : s₀.readOnly r.vaultId = false := by
      rw [← readOnly_of_vaults h.1, readOnly_eq_false hv]
      apply hrole
    constructor
    · rw [hvaults, h.1]
    · intro id' r' hr'
      rw [hrows id'] at hr'
      split at hr'
      · rename_i heq
        subst heq
        split at hr'
        · cases hr'
          right
          refine ⟨hwritable, ?_⟩
          intro r₀ hr₀
          rcases h.2 id' r hr with hsame | ⟨-, hfrom⟩
          · cases hr₀.symm.trans hsame
            apply hwritable
          · apply hfrom r₀ hr₀
        · cases hr'
      · apply h.2 id' r' hr'

theorem Edited.refl :
  s.Edited s
  := ⟨rfl, fun _ _ hr => .inl hr⟩

/-- However a move ends, it has changed rows in vaults that are not read-only for us. -/
theorem edited_moveToVault [Primitives] {V : Type} [Serde V] {newId : Uuid} {now' : DateTime}
    {fates : List Fate} (hnew : s₀.row newId = none) :
  s₀.Edited (moveToVault V id vaultId newId now now' nonce s₀ fates).2.1
  := by
  have htriple : Faulty.Triple (fun _ => True) s₀.Edited
      (moveToVault V id vaultId newId now now' nonce) (fun _ => s₀.Edited) s₀.Edited s₀.Edited := by
    apply Faulty.Triple.andThen (Faulty.Triple.call_keeps _)
    · intro row
      cases row with
      | none =>
          apply Faulty.Triple.lift
          · intro s a _ heq
            cases heq
          · intro s e hs _
            apply hs
      | some row =>
          apply Faulty.Triple.read_bind
          intro s hs
          have hlift : Faulty.Triple (fun _ => True) (fun s' => s' = s)
              (Faulty.lift (s.decryptAny V row) : Faulty Store CoreError (Entity V))
              (fun _ => s₀.Edited) s₀.Edited s₀.Edited := by
            apply Faulty.Triple.lift
            · rintro _ a rfl _
              apply hs
            · rintro _ e rfl _
              apply hs
          apply hlift.andThen
          intro value
          apply Faulty.Triple.seq (Faulty.Triple.call_keeps _)
          · intro _
            apply Faulty.Triple.seq (Faulty.Triple.call_keeps _)
            · intro _
              apply Faulty.Triple.ret
              intro s' hs'
              apply hs'
            · intro s' _ s'' hs' hcall
              obtain ⟨_, hdelete, hpair⟩ := map_eq_ok.mp hcall
              cases hpair
              apply hs'.delete hdelete
          · intro s' _ s'' hs' hcall
            obtain ⟨_, hput, hpair⟩ := map_eq_ok.mp hcall
            cases hpair
            apply hs'.putRaw _ hput
            intro r hr
            rw [hnew] at hr
            cases hr
    · intro s row s' hs heq
      cases heq
      apply hs
  have hends := (htriple s₀ fates Edited.refl (fun _ _ => trivial)).2
  revert hends
  rcases moveToVault V id vaultId newId now now' nonce s₀ fates with ⟨_ | _ | _, s', fates'⟩
  · exact fun hends => hends
  · exact fun hends => hends
  · exact fun hends => hends

end

end Store

namespace Store

variable {s s' : Store} {vaultId id : Uuid} {kind json : String} {now : DateTime} {nonce : Nonce}

/-- Putting an entity queues a change of a viewer when it takes a clean row out of a vault that is
read-only for us. -/
theorem queuesNothing_putRaw_iff [Primitives]
    (hput : s.putRaw vaultId kind id json now nonce = .ok s') :
  s.QueuesNothing s' ↔ ∀ r, s.row id = some r → s.readOnly r.vaultId = true →
    r.dirty = true ∨ r.vaultId = vaultId
      ∨ ∀ v, s.vaults.get? vaultId = some v → v.kind.isSynced = false
  := by
  obtain ⟨v, k, hv, -, hrole, -, hvaults, -, -, -, hrows⟩ := putRaw_eq_ok hput
  have hwritable : s.readOnly vaultId = false := (readOnly_eq_false hv).mpr hrole
  constructor
  · intro h r hr hreadOnly
    cases hclean : r.dirty with
    | true => exact .inl rfl
    | false =>
        right; right
        intro w hw
        cases hv.symm.trans hw
        have hrow := hrows id
        rw [if_pos rfl] at hrow
        apply h.out id r _ hr hreadOnly hclean hrow
  · intro h
    apply QueuesNothing.of_change
    intro id' r' hr' hdirty
    rw [hrows id'] at hr'
    split at hr'
    · rename_i heq
      subst heq
      cases hr'
      cases hr : s.row id' with
      | none =>
          right
          refine ⟨(readOnly_of_vaults hvaults).trans hwritable, ?_⟩
          intro r hnone
          cases hnone
      | some r =>
          cases hreadOnly : s.readOnly r.vaultId with
          | false =>
              right
              refine ⟨(readOnly_of_vaults hvaults).trans hwritable, ?_⟩
              intro r₁ hr₁
              cases hr₁
              apply hreadOnly
          | true =>
              rcases h r hr hreadOnly with hdirty' | rfl | hlocal
              · exact .inl ⟨r, rfl, hdirty'⟩
              · rw [hreadOnly] at hwritable
                cases hwritable
              · rw [hlocal v hv] at hdirty
                cases hdirty
    · exact .inl ⟨r', hr', hdirty⟩

/-- Rebasing a row queues a change of a viewer when the row was clean, in a vault that is read-only
for us. -/
theorem queuesNothing_rebaseLocal_iff {version seq : ℤ} :
  s.QueuesNothing (s.rebaseLocal id version seq)
    ↔ ∀ r, s.row id = some r → s.readOnly r.vaultId = true → r.dirty = true
  := by
  have hrow : (s.rebaseLocal id version seq).row id
      = (s.row id).map (fun r => { r with version, seq, dirty := true }) := by
    rw [row_rebaseLocal, if_pos rfl]
  constructor
  · intro h r hr hreadOnly
    by_contra hclean
    rw [hr] at hrow
    have hstill := h.out id r _ hr hreadOnly (eq_false_of_ne_true hclean) hrow
    cases hstill
  · intro h
    apply QueuesNothing.of_change
    intro id' r' hr' hdirty
    rw [row_rebaseLocal] at hr'
    split at hr'
    · rename_i heq
      subst heq
      obtain ⟨r, hr, rfl⟩ := Option.map_eq_some_iff.mp hr'
      cases hreadOnly : s.readOnly r.vaultId with
      | true => exact .inl ⟨r, hr, h r hr hreadOnly⟩
      | false =>
          right
          refine ⟨hreadOnly, ?_⟩
          intro r₁ hr₁
          cases hr.symm.trans hr₁
          apply hreadOnly
    · exact .inl ⟨r', hr', hdirty⟩

theorem queuesNothing_markPushed {version seq : ℤ} :
  s.QueuesNothing (s.markPushed id version seq)
  := by
  apply QueuesNothing.of_change
  intro id' r' hr' hdirty
  rw [row_markPushed] at hr'
  split at hr'
  · obtain ⟨r, -, hr⟩ := Option.bind_eq_some_iff.mp hr'
    split at hr
    · cases hr
    · cases hr
      cases hdirty
  · exact .inl ⟨r', hr', hdirty⟩

theorem queuesNothing_applyRemote {e : SyncEntity} (h : s.applyRemote e = .ok s') :
  s.QueuesNothing s'
  := by
  apply QueuesNothing.of_change
  intro id' r' hr' hdirty
  rw [row_applyRemote h] at hr'
  split at hr'
  · split at hr'
    · cases hr'
    · cases hr'
      cases hdirty
  · exact .inl ⟨r', hr', hdirty⟩

end Store

/-! ### A refresh -/

section
variable [Boxes] {privateKey : KeyPair} {remote : List Vault} {s s₀ s' : Store}

/-- What holds while a list is mirrored of which some vaults are left: clean rows are as they were at
the start, and a key held was held at the start or was offered by a vault that was mirrored. -/
structure Mirroring (privateKey : KeyPair) (remote : List Vault) (s₀ : Store) (rest : List Vault)
    (s : Store) : Prop where
  clean : ∀ id r, s.row id = some r → r.dirty = false → s₀.row id = some r
  keys : ∀ id k, s.vaultKey id = .ok k → s₀.vaultKey id = .ok k
    ∨ ∃ before, remote = before ++ rest
      ∧ ∃ w ∈ before, w.id = id ∧ (offeredKey privateKey w).map Prod.fst = some k

/-- The vault being mirrored has the role of the list, and the key that was held for it. -/
structure MirroringVault (privateKey : KeyPair) (remote : List Vault) (s₀ : Store) (v : Vault)
    (rest : List Vault) (held : Option (SymmetricKey × ℤ)) (s : Store) : Prop where
  mirroring : Mirroring privateKey remote s₀ rest s
  role : s.readOnly v.id = decide (v.myRole = .viewer)
  version : ∀ l, s.vaults.get? v.id = some l → l.keyVersion = (decision privateKey v held).keyVersion
  held : ∀ k n, held = some (k, n) →
    (∃ l, s₀.vaults.get? v.id = some l ∧ l.unlocked = true ∧ l.keyVersion = n)
    ∧ (s₀.vaultKey v.id = .ok k ∨ ∃ before, remote = before ++ v :: rest
      ∧ ∃ w ∈ before, w.id = v.id ∧ (offeredKey privateKey w).map Prod.fst = some k)

omit [Boxes] in
/-- A vault that is upserted has the role given. -/
theorem Store.readOnly_upsertVault {v : Vault} {key : Option SymmetricKey} {keyVersion : ℤ}
    (h : s.upsertVault v.id (.ofKind v.kind) v.name v.teamId v.myRole key keyVersion = .ok s') :
  s'.readOnly v.id = decide (v.myRole = .viewer)
  := by
  obtain ⟨hget, -⟩ := Store.upsertVault_eq_ok h
  rw [Store.readOnly, hget, if_pos rfl, Option.any_some]
  cases s.vaults.get? v.id with
  | none => rw [Store.upserted, LocalVaultKind.isSynced_ofKind, Bool.true_and]
  | some l => rw [Store.upserted, LocalVaultKind.isSynced_ofKind, Bool.true_and]

omit [Boxes] in
/-- An upsert leaves the keys held, but for the one that it installs. -/
theorem Store.vaultKey_upsertVault {v : Vault} {key : Option SymmetricKey} {keyVersion : ℤ}
    (h : s.upsertVault v.id (.ofKind v.kind) v.name v.teamId v.myRole key keyVersion = .ok s')
    {id : Uuid} {k : SymmetricKey} (hk : s'.vaultKey id = .ok k) :
  s.vaultKey id = .ok k ∨ id = v.id ∧ key = some k
  := by
  obtain ⟨hget, -⟩ := Store.upsertVault_eq_ok h
  obtain ⟨l, hl, hkey⟩ := Store.vaultKey_eq_ok.mp hk
  rw [hget] at hl
  split at hl
  · rename_i hid
    subst hid
    cases hl
    cases hold : s.vaults.get? v.id with
    | none =>
        rw [hold] at hkey
        exact .inr ⟨rfl, hkey⟩
    | some l₀ =>
        rw [hold] at hkey
        cases key with
        | none => exact .inl (Store.vaultKey_eq_ok.mpr ⟨l₀, hold, hkey⟩)
        | some k' => exact .inr ⟨rfl, hkey⟩
  · exact .inl (Store.vaultKey_eq_ok.mpr ⟨l, hl, hkey⟩)

/-- A key that is installed was offered. -/
theorem offeredKey_of_install {v : Vault} {held : Option (SymmetricKey × ℤ)} {k : SymmetricKey}
    (h : (decision privateKey v held).install = some k) :
  (offeredKey privateKey v).map Prod.fst = some k
  := by
  cases held with
  | none =>
      rw [decision] at h
      cases hoffered : offeredKey privateKey v with
      | none =>
          rw [hoffered] at h
          cases h
      | some offered =>
          rw [hoffered] at h
          apply h
  | some held =>
      rcases decision_held privateKey v held with heq | ⟨k', origin, hoffered, -, -, heq⟩
      · rw [heq] at h
        cases h
      · rw [heq] at h
        cases h
        rw [hoffered]
        rfl

theorem mirroringVault_upsertVault {v : Vault} {before rest : List Vault}
    {held : Option (SymmetricKey × ℤ)} (hremote : remote = before ++ v :: rest)
    (h : Mirroring privateKey remote s₀ (v :: rest) s)
    (hheld : s.heldKey (s₀.vaults.get? v.id) = .ok held)
    (hupsert : s.upsertVault v.id (.ofKind v.kind) v.name v.teamId v.myRole
      (decision privateKey v held).install (decision privateKey v held).keyVersion = .ok s') :
  MirroringVault privateKey remote s₀ v rest held s'
  := by
  obtain ⟨hget, hstore⟩ := Store.upsertVault_eq_ok hupsert
  have hrow : ∀ id, s'.row id = s.row id := by
    intro id
    rw [hstore]
    rfl
  have hnext : ∀ before', remote = before' ++ v :: rest → remote = (before' ++ [v]) ++ rest := by
    intro before' hbefore
    rw [hbefore, List.append_assoc, List.singleton_append]
  constructor
  · constructor
    · intro id r hr hclean
      rw [hrow] at hr
      apply h.clean id r hr hclean
    · intro id k hk
      rcases Store.vaultKey_upsertVault hupsert hk with hk | ⟨rfl, hinstall⟩
      · apply (h.keys id k hk).imp_right
        rintro ⟨before', hbefore, w, hw, hoffered⟩
        exact ⟨before' ++ [v], hnext before' hbefore, w, List.mem_append_left _ hw, hoffered⟩
      · right
        exact ⟨before ++ [v], hnext before hremote, v,
          List.mem_append_right _ (List.mem_singleton_self v), rfl, offeredKey_of_install hinstall⟩
  · apply Store.readOnly_upsertVault hupsert
  · intro l hl
    rw [hget, if_pos rfl] at hl
    cases hl
    cases s.vaults.get? v.id with
    | none => rfl
    | some l => rfl
  · rintro k n rfl
    cases hold : s₀.vaults.get? v.id with
    | none =>
        rw [hold] at hheld
        cases hheld
    | some l =>
        have hid : l.id = v.id := Table.key_of_get? hold
        rw [hold, Store.heldKey] at hheld
        split at hheld
        · rename_i hunlocked
          obtain ⟨k', hk', heq⟩ := map_eq_ok.mp hheld
          cases heq
          constructor
          · exact ⟨l, rfl, hunlocked, rfl⟩
          · rw [hid] at hk'
            apply h.keys v.id k hk'
        · cases hheld

/-- What leaves the rows, and of the vaults their keys, kinds and roles. -/
theorem MirroringVault.of_vaults {v : Vault} {rest : List Vault} {held : Option (SymmetricKey × ℤ)}
    (h : MirroringVault privateKey remote s₀ v rest held s) (hrow : ∀ id, s'.row id = s.row id)
    (hvaults : ∀ id, (s'.vaults.get? id).map (fun l => (l.wrappedKey, l.keyVersion, l.kind, l.role))
      = (s.vaults.get? id).map (fun l => (l.wrappedKey, l.keyVersion, l.kind, l.role))) :
  MirroringVault privateKey remote s₀ v rest held s'
  := by
  have hback : ∀ id l', s'.vaults.get? id = some l' → ∃ l, s.vaults.get? id = some l
      ∧ l.wrappedKey = l'.wrappedKey ∧ l.keyVersion = l'.keyVersion := by
    intro id l' hl'
    have hsame := hvaults id
    rw [hl'] at hsame
    obtain ⟨l, hl, heq⟩ := Option.map_eq_some_iff.mp hsame.symm
    simp only [Prod.mk.injEq] at heq
    exact ⟨l, hl, heq.1, heq.2.1⟩
  constructor
  · constructor
    · intro id r hr hclean
      rw [hrow] at hr
      apply h.mirroring.clean id r hr hclean
    · intro id k hk
      obtain ⟨l', hl', hkey⟩ := Store.vaultKey_eq_ok.mp hk
      obtain ⟨l, hl, hwrapped, -⟩ := hback id l' hl'
      apply h.mirroring.keys id k (Store.vaultKey_eq_ok.mpr ⟨l, hl, hwrapped.trans hkey⟩)
  · rw [← h.role]
    have hsame := hvaults v.id
    rw [Store.readOnly, Store.readOnly]
    cases hl : s.vaults.get? v.id with
    | none =>
        rw [hl] at hsame
        rw [Option.map_eq_none_iff.mp hsame]
    | some l =>
        rw [hl] at hsame
        obtain ⟨l', hl', heq⟩ := Option.map_eq_some_iff.mp hsame
        simp only [Prod.mk.injEq] at heq
        rw [hl', Option.any_some, Option.any_some, heq.2.2.1, heq.2.2.2]
  · intro l' hl'
    obtain ⟨l, hl, -, hversion⟩ := hback v.id l' hl'
    rw [← hversion]
    apply h.version l hl
  · apply h.held

/-- Re-encrypting the rows of a vault queues no change of a viewer, when it spares clean rows. -/
theorem triple_reencryptVault_spares {v : Vault} {before rest : List Vault}
    {held : Option (SymmetricKey × ℤ)} {old : SymmetricKey} {nonce : Uuid → Nonce}
    (hspares : SparesViewer privateKey remote s₀) (hremote : remote = before ++ v :: rest)
    (hold : (decision privateKey v held).rotatedFrom = some old) :
  Triple (MirroringVault privateKey remote s₀ v rest held) Store.QueuesNothing
    (Store.reencryptVault v.id old nonce) (fun _ => Mirroring privateKey remote s₀ rest)
  := by
  -- of the vault's decision what the rotation rests on
  obtain ⟨⟨k, n⟩, rfl⟩ : ∃ pair, held = some pair := by
    cases held with
    | some pair => exact ⟨pair, rfl⟩
    | none =>
        rw [decision] at hold
        cases hoffered : offeredKey privateKey v with
        | none =>
            rw [hoffered] at hold
            cases hold
        | some offered =>
            rw [hoffered] at hold
            cases hold
  obtain ⟨k', origin, hoffered, hlt, hkind, hdecision⟩ :=
    (decision_held privateKey v (k, n)).resolve_left (by
      intro hkept
      rw [hkept] at hold
      cases hold)
  rw [hdecision] at hold
  cases hold
  apply Store.triple_reencryptVault (I := fun _ keyVersion rows s =>
    MirroringVault privateKey remote s₀ v rest (some (k, n)) s ∧ keyVersion = v.keyVersion
      ∧ ∀ r ∈ rows, r.vaultId = v.id ∧ r.deleted = false ∧ r.keyVersion ≠ v.keyVersion
        ∧ ∀ r', s.row r.id = some r' → r'.vaultId = v.id ∧ (r'.dirty = false → r' = r))
  · intro s l newKey hs hl _
    have hversion : l.keyVersion = v.keyVersion := by
      rw [hs.version l hl, hdecision]
    refine ⟨hs, hversion, ?_⟩
    intro r hr
    obtain ⟨hmem, hne⟩ := List.mem_filter.mp hr
    obtain ⟨hrow, haccepts⟩ := Store.mem_rows.mp hmem
    simp only [EntityFilter.accepts, Option.all_some, Option.all_none, Bool.and_true,
      Bool.false_or, Bool.and_eq_true, decide_eq_true_eq, Bool.not_eq_true'] at haccepts
    refine ⟨haccepts.1, haccepts.2, ?_, ?_⟩
    · rw [← hversion]
      apply of_decide_eq_true hne
    · intro r' hr'
      cases hrow.symm.trans hr'
      exact ⟨haccepts.1, fun _ => rfl⟩
  · rintro newKey keyVersion r rows s ⟨hs, hversion, hrows⟩ _
    exact ⟨hs, hversion, fun r' hr' => hrows r' (List.mem_cons_of_mem _ hr')⟩
  · rintro newKey keyVersion r rows s bytes plaintext ⟨hs, hversion, hrows⟩ hbytes hopens
    obtain ⟨hvault, hlive, hne, hrow⟩ := hrows r List.mem_cons_self
    refine ⟨?_, ?_, hversion, ?_⟩
    · apply Store.QueuesNothing.of_change
      intro id r' hr' hdirty
      rw [Store.row_setData] at hr'
      split at hr'
      · rename_i hid
        subst hid
        obtain ⟨r₁, hr₁, rfl⟩ := Option.map_eq_some_iff.mp hr'
        obtain ⟨hvault₁, hsame⟩ := hrow r₁ hr₁
        cases hclean : r₁.dirty with
        | true => exact .inl ⟨r₁, hr₁, hclean⟩
        | false =>
            right
            have hwritable : s.readOnly v.id = false := by
              rw [hs.role, decide_eq_false_iff_not]
              intro hviewer
              -- the row is one of a viewer, clean from the start on, and opens under the key held
              cases hsame hclean
              obtain ⟨⟨l, hl, hunlocked, rfl⟩, hkey⟩ := hs.held k n rfl
              have hdecrypt : decryptB64 k (Aad.entity r.kind r.id) r.data = .ok plaintext := by
                rw [decryptB64, hbytes]
                exact hopens
              have hclean₀ := hs.mirroring.clean r.id r hr₁ hclean
              rcases hkey with hkey | ⟨before', hremote', hw⟩
              · exact hspares before v rest hremote hviewer l hl hunlocked k' origin hoffered hlt
                  hkind r.id r hclean₀ hvault hlive hclean hne k (.inl hkey) plaintext hdecrypt
              · exact hspares before' v rest hremote' hviewer l hl hunlocked k' origin hoffered hlt
                  hkind r.id r hclean₀ hvault hlive hclean hne k (.inr hw) plaintext hdecrypt
            constructor
            · change s.readOnly r₁.vaultId = false
              rw [hvault₁, hwritable]
            · intro r₂ hr₂
              cases hr₁.symm.trans hr₂
              rw [hvault₁, hwritable]
      · exact .inl ⟨r', hr', hdirty⟩
    · refine ⟨⟨?_, hs.mirroring.keys⟩, hs.role, hs.version, hs.held⟩
      intro id r' hr' hclean
      rw [Store.row_setData] at hr'
      split at hr'
      · obtain ⟨_, -, rfl⟩ := Option.map_eq_some_iff.mp hr'
        cases hclean
      · apply hs.mirroring.clean id r' hr' hclean
    · intro r₁ hr₁
      obtain ⟨hvault₁, hlive₁, hne₁, hrow₁⟩ := hrows r₁ (List.mem_cons_of_mem _ hr₁)
      refine ⟨hvault₁, hlive₁, hne₁, ?_⟩
      intro r' hr'
      rw [Store.row_setData] at hr'
      split at hr'
      · rename_i hid
        obtain ⟨r₂, hr₂, rfl⟩ := Option.map_eq_some_iff.mp hr'
        constructor
        · apply (hrow r₂ hr₂).1
        · intro hclean
          cases hclean
      · apply hrow₁ r' hr'
  · exact fun _ _ _ hs => hs.1.mirroring

/-- Mirroring a vault queues no change of a viewer, when it spares clean rows. -/
theorem triple_mirrorVault_spares {v : Vault} {before rest : List Vault} {nonce : Uuid → Nonce}
    (hspares : SparesViewer privateKey remote s₀) (hremote : remote = before ++ v :: rest) :
  Triple (Mirroring privateKey remote s₀ (v :: rest)) Store.QueuesNothing
    (mirrorVault privateKey s₀.listVaults nonce v) (fun _ => Mirroring privateKey remote s₀ rest)
  := by
  apply triple_mirrorVault (A := MirroringVault privateKey remote s₀ v rest)
  · intro held s s' hs hheld hupsert
    rw [Store.find?_listVaults] at hheld
    constructor
    · apply Store.QueuesNothing.of_rows
      obtain ⟨-, hstore⟩ := Store.upsertVault_eq_ok hupsert
      intro id r hr
      rw [hstore] at hr
      apply hr
    · apply mirroringVault_upsertVault hremote hs hheld hupsert
  · intro held s hs
    constructor
    · apply Store.QueuesNothing.of_rows
      exact fun _ _ hr => hr
    · refine hs.of_vaults (fun _ => rfl) ?_
      intro id
      rw [Store.vaults_setVaultSessionLogging]
      split
      · rename_i hid
        rw [hid, Option.map_map]
        rfl
      · rfl
  · intro held s hs
    constructor
    · apply Store.QueuesNothing.of_rows
      exact fun _ _ hr => hr
    · refine hs.of_vaults (fun _ => rfl) ?_
      intro id
      rw [Store.vaults_setVaultDefault]
      split
      · rename_i hid
        rw [hid, Option.map_map]
        rfl
      · rfl
  · intro held _ s hs
    apply hs.mirroring
  · intro held old hold
    apply triple_reencryptVault_spares hspares hremote hold

/-- A refresh that spares clean rows queues no change of a viewer. -/
theorem triple_applyVaultList_spares {nonce : ℕ → Uuid → Nonce}
    (hspares : SparesViewer privateKey remote s₀) :
  Triple (fun s => s = s₀) Store.QueuesNothing (applyVaultList privateKey remote nonce)
    (fun _ _ => True)
  := by
  have hmirror : Triple (Mirroring privateKey remote s₀ remote) Store.QueuesNothing
      (mirrorVaults privateKey s₀.listVaults nonce remote)
      (fun _ => Mirroring privateKey remote s₀ []) := by
    apply triple_mirrorVaults
    rintro v rest nonce ⟨before, hremote⟩
    apply triple_mirrorVault_spares hspares hremote.symm
  have hdrop : Triple (Mirroring privateKey remote s₀ []) Store.QueuesNothing
      (dropVaults remote s₀.listVaults) (fun _ _ => True) := by
    apply (triple_dropVaults (I := fun _ _ => True) _).pre
    · exact fun _ _ => trivial
    · intro l rest _ s s' _ hremove
      obtain ⟨-, hrow, -⟩ := Store.removeVault_eq_ok hremove
      refine ⟨?_, trivial⟩
      apply Store.QueuesNothing.of_rows
      intro id r hr
      rw [hrow] at hr
      apply (Option.filter_eq_some_iff.mp hr).1
  apply (triple_applyVaultList hmirror hdrop).pre
  rintro s rfl
  exact ⟨rfl, fun _ _ hr _ => hr, fun _ _ hk => .inl hk⟩

/-! ### Runs -/

/-- An operation that does not reach a clean row of a vault that is read-only for us queues nothing
there by any of its statements. -/
theorem StoreOp.queuesNothing {op : StoreOp} (h : op.SparesClean s) :
  (s :: op.stores s).IsChain Store.QueuesNothing
  := by
  have hone : ∀ s', s.QueuesNothing s' → [s, s'].IsChain Store.QueuesNothing :=
    fun s' h => List.isChain_pair.mpr h
  have hresult : ∀ x : Except CoreError Store, (∀ s', x = .ok s' → s.QueuesNothing s') →
      (s :: x.toOption.toList).IsChain Store.QueuesNothing := by
    intro x hx
    cases x with
    | error e => apply List.isChain_singleton
    | ok s' => apply hone s' (hx s' rfl)
  cases op with
  | putRaw vaultId kind id json now nonce =>
      apply hresult
      intro s' hput
      apply (Store.queuesNothing_putRaw_iff hput).mpr h
  | update id data now nonce =>
      apply hresult
      intro s' hupdate
      obtain ⟨r, hr, -, hput⟩ := Store.update_eq_ok hupdate
      obtain ⟨v, k, hv, -, hrole, -⟩ := Store.putRaw_eq_ok hput
      apply Store.Edited.queuesNothing
      apply Store.Edited.refl.putRaw _ hput
      intro r' hr'
      cases hr.symm.trans hr'
      apply (Store.readOnly_eq_false hv).mpr hrole
  | delete id now =>
      apply hresult
      intro s' hdelete
      apply (Store.Edited.refl.delete hdelete).queuesNothing
  | moveToVault id vaultId newId now now' nonce fates =>
      apply hone
      apply (Store.edited_moveToVault h).queuesNothing
  | markPushed id version seq =>
      apply hone
      apply Store.queuesNothing_markPushed
  | applyRemote e =>
      apply hresult
      intro s' happly
      apply Store.queuesNothing_applyRemote happly
  | rebaseLocal id version seq =>
      apply hone
      apply Store.queuesNothing_rebaseLocal_iff.mpr h
  | applyVaultList privateKey remote nonce =>
      apply (triple_applyVaultList_spares h s rfl).1

/-- A store, and the stores that it went through. -/
structure Past where
  trail : List Store
  store : Store

/-- The stores of a past, the latest last. -/
def Past.stores (p : Past) : List Store := p.trail ++ [p.store]

/-- Runs of a store, from any one. -/
def storeSystem : TransitionSystem Past StoreOp where
  init p := p.trail = []
  step p op := some
    { trail := p.trail ++ (p.store :: op.stores p.store).dropLast
      store := (op.stores p.store).getLastD p.store }

/-- In every run whose operations do not reach a clean row of a vault that is read-only for us, no
statement queues a change there. -/
theorem queuesNothing_of_reaches {p : Past}
    (h : storeSystem.Reaches (fun p op => op.SparesClean p.store) p) :
  p.stores.IsChain Store.QueuesNothing
  := by
  apply h.invariant (I := fun p => p.stores.IsChain Store.QueuesNothing)
  · intro p hinit
    have htrail : p.trail = [] := hinit
    rw [Past.stores, htrail]
    apply List.isChain_singleton
  · intro p op p' hp hspares hstep
    cases hstep
    have hlast : (p.store :: op.stores p.store).dropLast ++ [(op.stores p.store).getLastD p.store]
        = p.store :: op.stores p.store := by
      rw [← List.getLast_eq_getLastD (List.cons_ne_nil _ _)]
      apply List.dropLast_append_getLast
    rw [Past.stores, List.append_assoc, hlast]
    apply List.isChain_split.mpr
    exact ⟨hp, StoreOp.queuesNothing hspares⟩

end

/-! ### A rotation -/

namespace Moves

open Symbolic

/-- A refresh that rotates the key of the vault of the team, in which our role is as given. -/
def rotateTeam (role : VaultRole) : StoreOp :=
  .applyVaultList account
    [⟨1, .personal, none, "Personal", .manager, none, 1, false, true⟩,
      ⟨2, .team, some 9, "Ops", role, some (anonymousEnvelope (vaultKey 9)), 2, false, false⟩]
    (fun _ _ => nonce)

/-- A device, before anything happened. -/
def newly (s : Store) : Past := ⟨[], s⟩

/-- An editor's vault is rotated, and the snippet in it, then to be pushed, is rebased. -/
theorem queuesNothing_editor :
  ∃ p, storeSystem.run (newly (teamDevice .editor)) [rotateTeam .editor, .rebaseLocal 10 4 6] = some p
    ∧ (p.store.row 10).map (fun r => (r.version, r.dirty)) = some (4, true)
    ∧ p.stores.IsChain Store.QueuesNothing
  := by
  have hrun : ∃ p, storeSystem.run (newly (teamDevice .editor))
      [rotateTeam .editor, .rebaseLocal 10 4 6] = some p := ⟨_, rfl⟩
  have hrow : (storeSystem.run (newly (teamDevice .editor))
      [rotateTeam .editor, .rebaseLocal 10 4 6]).map
        (fun p => (p.store.row 10).map (fun r => (r.version, r.dirty))) = some (some (4, true)) := by
    decide +kernel
  have hrotated : (storeSystem.run (newly (teamDevice .editor)) [rotateTeam .editor]).map
      (fun p => ((p.store.row 10).map EntityRow.vaultId, p.store.readOnly 2)) = some (some 2, false) := by
    decide +kernel
  obtain ⟨p, hp⟩ := hrun
  rw [hp] at hrow
  refine ⟨p, hp, Option.some.inj hrow, ?_⟩
  apply queuesNothing_of_reaches
  apply TransitionSystem.Reaches.run (.init rfl) _ hp
  constructor
  · intro before v after hremote hviewer
    have hv : v ∈ before ++ v :: after := List.mem_append_right _ List.mem_cons_self
    rw [← hremote] at hv
    rcases List.mem_pair.mp hv with rfl | rfl
    · cases hviewer
    · cases hviewer
  · intro p₁ hp₁
    constructor
    · intro r hr hreadOnly
      rw [TransitionSystem.run, hp₁] at hrotated
      obtain ⟨hvault, hwritable⟩ := Prod.mk.inj (Option.some.inj hrotated)
      rw [hr] at hvault
      rw [Option.some.inj hvault, hwritable] at hreadOnly
      cases hreadOnly
    · exact fun _ _ => trivial

/-- A viewer's vault is rotated, and the snippet in it is to be pushed. -/
theorem not_queuesNothing_viewer :
  ∃ p, storeSystem.Reachable p ∧ ¬ p.stores.IsChain Store.QueuesNothing
  := by
  have hrun : ∃ p, storeSystem.run (newly (teamDevice .viewer)) [rotateTeam .viewer] = some p :=
    ⟨_, rfl⟩
  have hstores : (storeSystem.run (newly (teamDevice .viewer)) [rotateTeam .viewer]).map
      (fun p => p.stores.map (fun s =>
        ((s.row 10).map (fun r => (r.vaultId, r.dirty)), s.readOnly 2)))
      = some (List.replicate 7 (some (2, false), true) ++ [(some (2, true), true)]) := by
    decide +kernel
  obtain ⟨p, hp⟩ := hrun
  rw [hp] at hstores
  have hlen : p.stores.length = 8 := by
    have hlength := congrArg List.length (Option.some.inj hstores)
    rwa [List.length_map] at hlength
  have hat : ∀ i : ℕ, (p.stores.map (fun s =>
      ((s.row 10).map (fun r => (r.vaultId, r.dirty)), s.readOnly 2)))[i]?
      = (List.replicate 7 (some (2, false), true) ++ [(some (2, true), true)])[i]? :=
    fun i => congrArg (fun l => l[i]?) (Option.some.inj hstores)
  refine ⟨p, ?_, ?_⟩
  · apply TransitionSystem.Reaches.run (.init rfl) (TransitionSystem.meets_true _ _) hp
  · intro hchain
    have hstep := hchain.getElem 6 (by omega)
    have hclean := hat 6
    have hdirty := hat 7
    rw [List.getElem?_map, List.getElem?_eq_getElem (by omega)] at hclean hdirty
    obtain ⟨hrow, hreadOnly⟩ := Prod.mk.inj (Option.some.inj hclean)
    obtain ⟨hrow', -⟩ := Prod.mk.inj (Option.some.inj hdirty)
    obtain ⟨r, hr, heq⟩ := Option.map_eq_some_iff.mp hrow
    obtain ⟨r', hr', heq'⟩ := Option.map_eq_some_iff.mp hrow'
    obtain ⟨hvault, hr₁⟩ := Prod.mk.inj heq
    have hstill := hstep.out 10 r r' hr (by rw [hvault, hreadOnly]) hr₁ hr'
    rw [(Prod.mk.inj heq').2] at hstill
    cases hstill

end Moves

end Termoso.Core
