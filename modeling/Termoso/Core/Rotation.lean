import Termoso.Core.Mirror

/-!
# Entities across a key rotation

What a pass over a vault list does to one entity: the key held for its vault, and its row, at
every statement the pass can stop at, and once it is complete.

A pass replaces the key of a rotated vault before it re-encrypts the entities one by one.  A
pass that is stopped in between leaves entities sealed with a key that is no longer stored,
and running the pass again finds the new version recorded and re-encrypts nothing.
-/

namespace Termoso.Core

open Script

/-! ### The row after a pass -/

section
variable [Primitives]

/-- A row once its vault is re-encrypted. -/
def reencrypted (oldKey newKey : SymmetricKey) (keyVersion : ℤ) (nonce : Uuid → Nonce)
    (r : EntityRow) : EntityRow :=
  if r.deleted ∨ r.keyVersion = keyVersion then r
  else
    match decryptB64 oldKey (Aad.entity r.kind r.id) r.data with
    | .error _ => r
    | .ok plaintext =>
      { r with
        data := encryptB64 newKey (Aad.entity r.kind r.id) (nonce r.id) plaintext, keyVersion
        dirty := true }

/-- The key held for a vault, and a row. -/
def Views (vaultId id : Uuid) (held : Option (SymmetricKey × ℤ)) (r : Option EntityRow)
    (s : Store) : Prop :=
  s.heldPair vaultId = held ∧ s.row id = r

variable {oldKey newKey : SymmetricKey} {keyVersion : ℤ} {nonce : Uuid → Nonce} {r : EntityRow}
  {id vaultId : Uuid} {held : Option (SymmetricKey × ℤ)} {R : Store → Store → Prop}

theorem reencrypted_of_label (h : r.keyVersion = keyVersion) :
  reencrypted oldKey newKey keyVersion nonce r = r
  := if_pos (.inr h)

/-- A row that opens with the old key, under another label, is sealed with the new key. -/
theorem reencrypted_of_opens {plaintext : Bytes} (hdeleted : r.deleted = false)
    (hlabel : r.keyVersion ≠ keyVersion)
    (h : decryptB64 oldKey (Aad.entity r.kind r.id) r.data = .ok plaintext) :
  reencrypted oldKey newKey keyVersion nonce r
    = { r with
        data := encryptB64 newKey (Aad.entity r.kind r.id) (nonce r.id) plaintext, keyVersion
        dirty := true }
  := by
  rw [reencrypted, if_neg (by simp [hdeleted, hlabel]), h]

/-- Whatever a pass does to a row, it leaves its identity. -/
theorem reencrypted_same :
  (reencrypted oldKey newKey keyVersion nonce r).id = r.id
    ∧ (reencrypted oldKey newKey keyVersion nonce r).kind = r.kind
    ∧ (reencrypted oldKey newKey keyVersion nonce r).vaultId = r.vaultId
    ∧ (reencrypted oldKey newKey keyVersion nonce r).deleted = r.deleted
  := by
  rw [reencrypted]
  split
  · exact ⟨rfl, rfl, rfl, rfl⟩
  · split
    · exact ⟨rfl, rfl, rfl, rfl⟩
    · exact ⟨rfl, rfl, rfl, rfl⟩

omit [Primitives] in
theorem Views.setData_other {s : Store} {other : Uuid} {x : Option EntityRow} {data : String}
    {n : ℤ} (h : Views vaultId id held x s) (hother : id ≠ other) :
  Views vaultId id held x (s.setData other data n)
  := by
  refine ⟨h.1, ?_⟩
  rw [Store.row_setData, if_neg hother, h.2]

omit [Primitives] in
theorem Views.setData_self {s : Store} {x : EntityRow} {data : String} {n : ℤ}
    (h : Views vaultId id held (some x) s) :
  Views vaultId id held (some { x with data, keyVersion := n, dirty := true })
    (s.setData id data n)
  := by
  refine ⟨h.1, ?_⟩
  rw [Store.row_setData, if_pos rfl, h.2]
  rfl

omit [Primitives] in
/-- The rows that re-encrypting a vault visits are live rows of the vault under another label. -/
theorem mem_reencryptRows {s : Store} {y : EntityRow} :
  y ∈ (s.rows ⟨some vaultId, none, false⟩).filter (fun r => r.keyVersion ≠ keyVersion)
    ↔ s.row y.id = some y ∧ y.vaultId = vaultId ∧ y.deleted = false ∧ y.keyVersion ≠ keyVersion
  := by
  simp [Store.mem_rows, EntityFilter.accepts, and_assoc]

/-- Re-encrypting another vault leaves a row alone. -/
theorem triple_reencryptVault_other {other : Uuid} {x : Option EntityRow}
    (hx : ∀ r, x = some r → r.vaultId ≠ other) :
  Triple (Views vaultId id held x) (fun _ => Views vaultId id held x)
    (Store.reencryptVault other oldKey nonce) (fun _ => Views vaultId id held x)
  := by
  apply Store.triple_reencryptVault (I := fun _ _ rows s =>
    Views vaultId id held x s ∧ ∀ y ∈ rows, y.id ≠ id)
  · intro s l newKey hs _ _
    refine ⟨hs, ?_⟩
    rintro y hy rfl
    obtain ⟨hrow, hvault, -⟩ := mem_reencryptRows.mp hy
    exact hx y (hs.2.symm.trans hrow) hvault
  · rintro _ _ y rows s ⟨hs, hrows⟩ _
    exact ⟨hs, fun y' hy' => hrows y' (List.mem_cons_of_mem _ hy')⟩
  · rintro _ _ y rows s _ _ ⟨hs, hrows⟩ _ _
    have hne : id ≠ y.id := Ne.symm (hrows y List.mem_cons_self)
    exact ⟨hs.setData_other hne, hs.setData_other hne, fun y' hy' => hrows y' (List.mem_cons_of_mem _ hy')⟩
  · exact fun _ _ _ hs => hs.1

/-- Re-encrypting its vault makes a row the re-encrypted row. -/
theorem triple_reencryptVault_self {newHeld : SymmetricKey × ℤ} (hid : r.id = id)
    (hvault : r.vaultId = vaultId) :
  Triple (Views vaultId id (some newHeld) (some r))
    (fun _ s => Views vaultId id (some newHeld) (some r) s
      ∨ Views vaultId id (some newHeld) (some (reencrypted oldKey newHeld.1 newHeld.2 nonce r)) s)
    (Store.reencryptVault vaultId oldKey nonce)
    (fun _ => Views vaultId id (some newHeld)
      (some (reencrypted oldKey newHeld.1 newHeld.2 nonce r)))
  := by
  subst hid
  subst hvault
  apply Store.triple_reencryptVault (I := fun newKey keyVersion rows s =>
    newHeld = (newKey, keyVersion)
      ∧ (Views r.vaultId r.id (some newHeld) (some r) s ∧ r ∈ rows
        ∨ Views r.vaultId r.id (some newHeld)
          (some (reencrypted oldKey newHeld.1 newHeld.2 nonce r)) s)
      ∧ ∀ y ∈ rows, y.id = r.id → y = r ∧ y.deleted = false ∧ y.keyVersion ≠ keyVersion)
  · rintro s l newKey ⟨hheld, hrow⟩ hget hkey
    obtain rfl : newHeld = (newKey, l.keyVersion) := by
      simpa [Store.heldPair, hget, hkey, eq_comm] using hheld
    refine ⟨rfl, ?_, ?_⟩
    · by_cases hmem : r.deleted = true ∨ r.keyVersion = l.keyVersion
      · have hsame : reencrypted oldKey newKey l.keyVersion nonce r = r := if_pos hmem
        rw [hsame]
        exact .inr ⟨hheld, hrow⟩
      · rw [not_or, Bool.not_eq_true] at hmem
        exact .inl ⟨⟨hheld, hrow⟩, mem_reencryptRows.mpr ⟨hrow, rfl, hmem.1, hmem.2⟩⟩
    · intro y hy hyid
      obtain ⟨hyrow, -, hdeleted, hlabel⟩ := mem_reencryptRows.mp hy
      rw [hyid, hrow] at hyrow
      cases hyrow
      exact ⟨rfl, hdeleted, hlabel⟩
  · rintro newKey keyVersion y rows s ⟨rfl, hviews, hrows⟩ hskip
    refine ⟨rfl, ?_, fun y' hy' => hrows y' (List.mem_cons_of_mem _ hy')⟩
    rcases hviews with ⟨hviews, hmem⟩ | hviews
    · rcases List.mem_cons.mp hmem with rfl | hmem
      · have hsame : reencrypted oldKey newKey keyVersion nonce r = r := by
          rw [reencrypted]
          split
          · rfl
          · split
            · rfl
            · rename_i hopens
              obtain ⟨bytes, hbytes, hopen⟩ := unb64_of_decryptB64 hopens
              exact absurd hopen (hskip _ _ hbytes)
        rw [hsame]
        exact .inr hviews
      · exact .inl ⟨hviews, hmem⟩
    · exact .inr hviews
  · rintro newKey keyVersion y rows s bytes plaintext ⟨rfl, hviews, hrows⟩ hbytes hopen
    have hrest : ∀ y' ∈ rows, y'.id = r.id →
        y' = r ∧ y'.deleted = false ∧ y'.keyVersion ≠ keyVersion :=
      fun y' hy' => hrows y' (List.mem_cons_of_mem _ hy')
    by_cases hy : y.id = r.id
    · obtain ⟨rfl, hdeleted, hlabel⟩ := hrows y List.mem_cons_self hy
      have hopens : decryptB64 oldKey (Aad.entity y.kind y.id) y.data = .ok plaintext := by
        simp only [decryptB64, hbytes]
        exact hopen
      rw [reencrypted_of_opens hdeleted hlabel hopens] at hviews ⊢
      rcases hviews with ⟨h, -⟩ | h
      · exact ⟨.inr h.setData_self, rfl, .inr h.setData_self, hrest⟩
      · exact ⟨.inr h.setData_self, rfl, .inr h.setData_self, hrest⟩
    · rcases hviews with ⟨h, hmem⟩ | h
      · refine ⟨.inl (h.setData_other (Ne.symm hy)), rfl, .inl ⟨h.setData_other (Ne.symm hy), ?_⟩,
          hrest⟩
        rcases List.mem_cons.mp hmem with rfl | hmem
        · exact absurd rfl hy
        · exact hmem
      · exact ⟨.inr (h.setData_other (Ne.symm hy)), rfl, .inr (h.setData_other (Ne.symm hy)), hrest⟩
  · rintro newKey keyVersion s ⟨-, hviews, -⟩
    rcases hviews with ⟨-, hmem⟩ | hviews
    · cases hmem
    · exact hviews

end

/-! ### One vault of the list -/

section
variable [Boxes] {privateKey : KeyPair} {v : Vault} {vaults : List LocalVault} {s₀ : Store}
  {nonce : Uuid → Nonce} {held : Option (SymmetricKey × ℤ)} {vaultId id : Uuid} {r : EntityRow}

/-- A row of a vault once the vault is mirrored. -/
def rowAfter (privateKey : KeyPair) (v : Vault) (held : Option (SymmetricKey × ℤ))
    (nonce : Uuid → Nonce) (r : EntityRow) : EntityRow :=
  match decision privateKey v held with
  | ⟨some newKey, some oldKey, keyVersion⟩ => reencrypted oldKey newKey keyVersion nonce r
  | _ => r

/-- A vault whose rows are to be re-encrypted had its key replaced. -/
theorem decision_of_rotatedFrom {oldKey : SymmetricKey}
    (h : (decision privateKey v held).rotatedFrom = some oldKey) :
  ∃ newKey, decision privateKey v held = ⟨some newKey, some oldKey, v.keyVersion⟩
  := by
  cases held with
  | none =>
      rw [decision] at h
      cases hoffered : offeredKey privateKey v with
      | none =>
          rw [hoffered] at h
          cases h
      | some offered =>
          rw [hoffered] at h
          cases h
  | some held =>
      rcases decision_held privateKey v held with hsame | ⟨k, -, -, -, -, hnew⟩
      · rw [hsame] at h
        cases h
      · rw [hnew] at h ⊢
        cases h
        exact ⟨k, rfl⟩

theorem rowAfter_of_kept (h : (decision privateKey v held).rotatedFrom = none) :
  rowAfter privateKey v held nonce r = r
  := by
  rw [rowAfter]
  split
  · rename_i hdecision
    rw [hdecision] at h
    cases h
  · rfl

theorem rowAfter_same :
  (rowAfter privateKey v held nonce r).id = r.id
    ∧ (rowAfter privateKey v held nonce r).kind = r.kind
    ∧ (rowAfter privateKey v held nonce r).vaultId = r.vaultId
    ∧ (rowAfter privateKey v held nonce r).deleted = r.deleted
  := by
  rw [rowAfter]
  split
  · exact reencrypted_same
  · exact ⟨rfl, rfl, rfl, rfl⟩

/-- Mirroring another vault leaves the key and the row alone. -/
theorem triple_mirrorVault_other {x : Option EntityRow} (hv : v.id ≠ vaultId)
    (hx : ∀ r, x = some r → r.vaultId ≠ v.id) :
  Triple (Views vaultId id held x) (fun _ => Views vaultId id held x)
    (mirrorVault privateKey vaults nonce v) (fun _ => Views vaultId id held x)
  := by
  apply triple_mirrorVault (A := fun _ => Views vaultId id held x)
  · intro _ s s' hs _ hupsert
    obtain ⟨hget, hstore⟩ := Store.upsertVault_eq_ok hupsert
    have hviews : Views vaultId id held x s' := by
      constructor
      · rw [← hs.1]
        apply Store.heldPair_congr
        rw [hget, if_neg (Ne.symm hv)]
      · rw [hstore]
        exact hs.2
    exact ⟨hviews, hviews⟩
  · intro _ s hs
    have hviews : Views vaultId id held x (s.setVaultSessionLogging v.id v.sessionLogging) :=
      ⟨Store.heldPair_setVaultSessionLogging.trans hs.1, hs.2⟩
    exact ⟨hviews, hviews⟩
  · intro _ s hs
    have hviews : Views vaultId id held x (s.setVaultDefault v.id v.isDefault) :=
      ⟨Store.heldPair_setVaultDefault.trans hs.1, hs.2⟩
    exact ⟨hviews, hviews⟩
  · exact fun _ _ _ hs => hs
  · exact fun _ _ _ => triple_reencryptVault_other hx

/-- The stages of a row in a vault being mirrored: as before, with the key decided, and
re-encrypted. -/
def Stage (privateKey : KeyPair) (v : Vault) (held : Option (SymmetricKey × ℤ)) (r : EntityRow)
    (s : Store) : Prop :=
  Views v.id r.id held (some r) s
    ∨ Views v.id r.id (pairAfter privateKey v held) (some r) s
    ∨ ∃ nonce, Views v.id r.id (pairAfter privateKey v held)
        (some (rowAfter privateKey v held nonce r)) s

/-- Mirroring its vault takes a row through its stages. -/
theorem triple_mirrorVault_self (hold : s₀.heldPair v.id = held) (hvault : r.vaultId = v.id) :
  Triple (Views v.id r.id held (some r)) (fun _ => Stage privateKey v held r)
    (mirrorVault privateKey s₀.listVaults nonce v)
    (fun _ => Views v.id r.id (pairAfter privateKey v held)
      (some (rowAfter privateKey v held nonce r)))
  := by
  apply triple_mirrorVault (A := fun held' s =>
    held' = held ∧ Views v.id r.id (pairAfter privateKey v held) (some r) s)
  · intro held' s s' hs hheld hupsert
    rw [Store.find?_listVaults] at hheld
    obtain rfl := Store.heldKey_eq_ok hheld (hs.1.trans hold.symm)
    have hpair := Store.heldPair_upsertVault hupsert
    obtain ⟨-, hstore⟩ := Store.upsertVault_eq_ok hupsert
    rw [hs.1] at hpair
    have hrow : s'.row r.id = some r := by
      rw [hstore]
      exact hs.2
    exact ⟨.inr (.inl ⟨hpair, hrow⟩), hs.1, hpair, hrow⟩
  · rintro held' s ⟨hheld, hs⟩
    have hviews : Views v.id r.id (pairAfter privateKey v held) (some r)
        (s.setVaultSessionLogging v.id v.sessionLogging) :=
      ⟨Store.heldPair_setVaultSessionLogging.trans hs.1, hs.2⟩
    exact ⟨.inr (.inl hviews), hheld, hviews⟩
  · rintro held' s ⟨hheld, hs⟩
    have hviews : Views v.id r.id (pairAfter privateKey v held) (some r)
        (s.setVaultDefault v.id v.isDefault) :=
      ⟨Store.heldPair_setVaultDefault.trans hs.1, hs.2⟩
    exact ⟨.inr (.inl hviews), hheld, hviews⟩
  · rintro _ hfrom s ⟨rfl, hs⟩
    rw [rowAfter_of_kept hfrom]
    exact hs
  · intro held' oldKey hfrom
    by_cases hheld : held' = held
    · subst hheld
      obtain ⟨newKey, hdecision⟩ := decision_of_rotatedFrom hfrom
      have hpair : pairAfter privateKey v held' = some (newKey, v.keyVersion) := by
        rw [pairAfter, hdecision]
        rfl
      have hrow : ∀ nonce, rowAfter privateKey v held' nonce r
          = reencrypted oldKey newKey v.keyVersion nonce r := by
        intro nonce
        rw [rowAfter, hdecision]
      rw [hrow, hpair]
      apply (triple_reencryptVault_self rfl hvault).mono
      · exact fun _ hs => hs.2
      · rintro _ s (hs | hs)
        · exact .inr (.inl (by rw [hpair]; exact hs))
        · exact .inr (.inr ⟨nonce, by rw [hpair, hrow]; exact hs⟩)
      · exact fun _ _ hs => hs
    · intro s hs
      exact absurd hs.1 hheld

end

/-! ### The whole list -/

section
variable [Boxes] {privateKey : KeyPair} {remote : List Vault} {s s' s₀ : Store}
  {nonce : ℕ → Uuid → Nonce} {held : Option (SymmetricKey × ℤ)} {vaultId : Uuid} {r : EntityRow}

omit [Boxes] in
/-- A list that names each vault once has other vaults before and after each of its vaults. -/
theorem split_of_nodup {v : Vault} (hnodup : (remote.map Vault.id).Nodup) (hv : v ∈ remote) :
  ∃ before after, remote = before ++ v :: after ∧ (∀ w ∈ before, w.id ≠ v.id)
    ∧ ∀ w ∈ after, w.id ≠ v.id
  := by
  obtain ⟨before, after, rfl⟩ := List.append_of_mem hv
  rw [List.map_append, List.map_cons, List.nodup_append, List.nodup_cons] at hnodup
  obtain ⟨-, ⟨hafter, -⟩, hbefore⟩ := hnodup
  refine ⟨before, after, rfl, ?_, ?_⟩
  · intro w hw
    exact hbefore w.id (List.mem_map_of_mem hw) v.id List.mem_cons_self
  · intro w hw heq
    exact hafter (List.mem_map.mpr ⟨w, hw, heq⟩)

omit [Boxes] in
/-- Removing another vault leaves the key and the row alone. -/
theorem Views.removeVault_other {other : Uuid} (h : Views vaultId r.id held (some r) s)
    (hvault : r.vaultId = vaultId) (hother : other ≠ vaultId) (hs' : s.removeVault other = .ok s') :
  Views vaultId r.id held (some r) s'
  := by
  obtain ⟨hget, hrow, -⟩ := Store.removeVault_eq_ok hs'
  constructor
  · rw [← h.1]
    apply Store.heldPair_congr
    rw [hget, if_neg (Ne.symm hother)]
  · rw [hrow, h.2, Option.filter_some, if_pos]
    rw [hvault]
    simpa using Ne.symm hother

omit [Boxes] in
/-- Removing its vault removes the key and the row. -/
theorem Views.removeVault_self (h : Views vaultId r.id held (some r) s)
    (hvault : r.vaultId = vaultId) (hs' : s.removeVault vaultId = .ok s') :
  Views vaultId r.id none none s'
  := by
  obtain ⟨hget, hrow, -⟩ := Store.removeVault_eq_ok hs'
  constructor
  · rw [Store.heldPair, hget, if_pos rfl]
    rfl
  · rw [hrow, h.2, Option.filter_some, if_neg]
    simp [hvault]

omit [Boxes] in
theorem Views.removeVault_gone {id other : Uuid} (h : Views vaultId id none none s)
    (hs' : s.removeVault other = .ok s') :
  Views vaultId id none none s'
  := by
  obtain ⟨hget, hrow, -⟩ := Store.removeVault_eq_ok hs'
  constructor
  · have hheld := h.1
    rw [Store.heldPair] at hheld ⊢
    rw [hget]
    split
    · rfl
    · exact hheld
  · rw [hrow, h.2]
    rfl

/-- A pass takes a row of a vault of the list through its stages. -/
theorem triple_applyVaultList_listed {v : Vault} (hnodup : (remote.map Vault.id).Nodup)
    (hv : v ∈ remote) (hvault : r.vaultId = v.id) (hs₀ : Views v.id r.id held (some r) s₀) :
  Triple (fun s => s = s₀) (fun _ => Stage privateKey v held r)
    (applyVaultList privateKey remote nonce)
    (fun _ s => ∃ n, Views v.id r.id (pairAfter privateKey v held)
      (some (rowAfter privateKey v held n r)) s)
  := by
  obtain ⟨before, after, rfl, hbefore, hafter⟩ := split_of_nodup hnodup hv
  have hmirror : Triple (Views v.id r.id held (some r)) (fun _ => Stage privateKey v held r)
      (mirrorVaults privateKey s₀.listVaults nonce (before ++ v :: after))
      (fun _ s => ∃ n, Views v.id r.id (pairAfter privateKey v held)
        (some (rowAfter privateKey v held n r)) s) := by
    apply triple_mirrorVaults_at
    · intro w hw n
      apply (triple_mirrorVault_other (hbefore w hw) _).mono
      · exact fun _ hs => hs
      · exact fun _ _ hs => .inl hs
      · exact fun _ _ hs => hs
      · rintro _ ⟨⟩
        rw [hvault]
        exact Ne.symm (hbefore w hw)
    · intro n
      apply (triple_mirrorVault_self hs₀.1 hvault).post
      exact fun _ s hs => ⟨n, hs⟩
    · intro w hw n
      apply Triple.of_exists
      intro m
      apply (triple_mirrorVault_other (hafter w hw) _).mono
      · exact fun _ hs => hs
      · exact fun _ s hs => .inr (.inr ⟨m, hs⟩)
      · exact fun _ s hs => ⟨m, hs⟩
      · rintro _ ⟨⟩
        rw [rowAfter_same.2.2.1, hvault]
        exact Ne.symm (hafter w hw)
  have hdrop : Triple
      (fun s => ∃ n, Views v.id r.id (pairAfter privateKey v held)
        (some (rowAfter privateKey v held n r)) s)
      (fun _ => Stage privateKey v held r)
      (dropVaults (before ++ v :: after) s₀.listVaults)
      (fun _ s => ∃ n, Views v.id r.id (pairAfter privateKey v held)
        (some (rowAfter privateKey v held n r)) s) := by
    apply triple_dropVaults (I := fun _ s => ∃ n, Views v.id r.id (pairAfter privateKey v held)
      (some (rowAfter privateKey v held n r)) s)
    rintro l rest hsuffix s s' ⟨n, hs⟩ hremove
    have hl := (mem_unlisted.mp (hsuffix.mem List.mem_cons_self)).2.2 v (by simp)
    have hid : (rowAfter privateKey v held n r).id = r.id := rowAfter_same.1
    rw [← hid] at hs
    have hviews := hs.removeVault_other (rowAfter_same.2.2.1.trans hvault) (Ne.symm hl) hremove
    rw [hid] at hviews
    exact ⟨.inr (.inr ⟨n, hviews⟩), n, hviews⟩
  apply (triple_applyVaultList hmirror hdrop).pre
  rintro s rfl
  exact ⟨rfl, hs₀⟩

/-- Mirroring a list leaves the vaults it does not name alone. -/
theorem triple_mirrorVaults_other (hvault : r.vaultId = vaultId)
    (hother : ∀ v ∈ remote, v.id ≠ vaultId) {vaults : List LocalVault} :
  Triple (Views vaultId r.id held (some r)) (fun _ => Views vaultId r.id held (some r))
    (mirrorVaults privateKey vaults nonce remote) (fun _ => Views vaultId r.id held (some r))
  := by
  apply triple_mirrorVaults (I := fun _ => Views vaultId r.id held (some r))
  intro v rest n hsuffix
  have hv := hother v (hsuffix.mem List.mem_cons_self)
  apply triple_mirrorVault_other hv
  rintro _ ⟨⟩
  rw [hvault]
  exact Ne.symm hv

/-- A pass leaves the rows of a vault alone that the list does not name and that is not synced. -/
theorem triple_applyVaultList_local (hvault : r.vaultId = vaultId)
    (hother : ∀ v ∈ remote, v.id ≠ vaultId)
    (hlocal : ∀ l, s₀.vaults.get? vaultId = some l → l.kind.isSynced = false)
    (hs₀ : Views vaultId r.id held (some r) s₀) :
  Triple (fun s => s = s₀) (fun _ => Views vaultId r.id held (some r))
    (applyVaultList privateKey remote nonce) (fun _ => Views vaultId r.id held (some r))
  := by
  have hdrop : Triple (Views vaultId r.id held (some r))
      (fun _ => Views vaultId r.id held (some r)) (dropVaults remote s₀.listVaults)
      (fun _ => Views vaultId r.id held (some r)) := by
    apply triple_dropVaults (I := fun _ => Views vaultId r.id held (some r))
    intro l rest hsuffix s s' hs hremove
    obtain ⟨hl, hsynced, -⟩ := mem_unlisted.mp (hsuffix.mem List.mem_cons_self)
    have hne : l.id ≠ vaultId := by
      rintro rfl
      rw [Store.listVaults, List.mem_insertionSort] at hl
      rw [hlocal l (Table.get?_of_mem hl)] at hsynced
      cases hsynced
    have hviews := hs.removeVault_other hvault hne hremove
    exact ⟨hviews, hviews⟩
  apply (triple_applyVaultList (triple_mirrorVaults_other hvault hother) hdrop).pre
  rintro s rfl
  exact ⟨rfl, hs₀⟩

/-- A pass removes the rows of a synced vault that the list does not name. -/
theorem triple_applyVaultList_unlisted {l : LocalVault} (hvault : r.vaultId = l.id)
    (hother : ∀ v ∈ remote, v.id ≠ l.id) (hl : s₀.vaults.get? l.id = some l)
    (hsynced : l.kind.isSynced = true) (hs₀ : Views l.id r.id held (some r) s₀) :
  Triple (fun s => s = s₀)
    (fun _ s => Views l.id r.id held (some r) s ∨ Views l.id r.id none none s)
    (applyVaultList privateKey remote nonce) (fun _ => Views l.id r.id none none)
  := by
  have hmirror : Triple (Views l.id r.id held (some r))
      (fun _ s => Views l.id r.id held (some r) s ∨ Views l.id r.id none none s)
      (mirrorVaults privateKey s₀.listVaults nonce remote)
      (fun _ => Views l.id r.id held (some r)) := by
    apply (triple_mirrorVaults_other hvault hother).mono
    · exact fun _ hs => hs
    · exact fun _ _ hs => .inl hs
    · exact fun _ _ hs => hs
  have hdrop : Triple (Views l.id r.id held (some r))
      (fun _ s => Views l.id r.id held (some r) s ∨ Views l.id r.id none none s)
      (dropVaults remote s₀.listVaults) (fun _ => Views l.id r.id none none) := by
    apply ((triple_dropVaults (I := fun rest s =>
      Views l.id r.id held (some r) s ∧ l ∈ rest ∨ Views l.id r.id none none s) _).pre _).post
    · rintro _ s (⟨-, hmem⟩ | hs)
      · cases hmem
      · exact hs
    · intro l' rest hsuffix s s' hs hremove
      rcases hs with ⟨hs, hmem⟩ | hs
      · by_cases hl' : l'.id = l.id
        · rw [hl'] at hremove
          have hviews := hs.removeVault_self hvault hremove
          exact ⟨.inr hviews, .inr hviews⟩
        · have hviews := hs.removeVault_other hvault hl' hremove
          refine ⟨.inl hviews, .inl ⟨hviews, ?_⟩⟩
          rcases List.mem_cons.mp hmem with rfl | hmem
          · exact absurd rfl hl'
          · exact hmem
      · have hviews := hs.removeVault_gone hremove
        exact ⟨.inr hviews, .inr hviews⟩
    · intro s hs
      refine .inl ⟨hs, mem_unlisted.mpr ⟨?_, hsynced, hother⟩⟩
      rw [Store.listVaults, List.mem_insertionSort]
      exact Table.mem_of_get? hl
  apply (triple_applyVaultList hmirror hdrop).pre
  rintro s rfl
  exact ⟨rfl, hs₀⟩

end

/-! ### No row appears -/

/-- Every row is a row there was, with the same identity. -/
def SameRows (s s' : Store) : Prop :=
  ∀ id r', s'.row id = some r' → ∃ r, s.row id = some r ∧ r'.kind = r.kind
    ∧ r'.vaultId = r.vaultId ∧ r'.deleted = r.deleted

namespace SameRows

variable {s s' s'' : Store}

theorem refl :
  SameRows s s
  := fun _ r hr => ⟨r, hr, rfl, rfl, rfl⟩

theorem trans (h : SameRows s s') (h' : SameRows s' s'') :
  SameRows s s''
  := by
  intro id r'' hr''
  obtain ⟨r', hr', hkind', hvault', hdeleted'⟩ := h' id r'' hr''
  obtain ⟨r, hr, hkind, hvault, hdeleted⟩ := h id r' hr'
  exact ⟨r, hr, hkind'.trans hkind, hvault'.trans hvault, hdeleted'.trans hdeleted⟩

theorem of_row (h : ∀ id r, s'.row id = some r → s.row id = some r) :
  SameRows s s'
  := fun id r hr => ⟨r, h id r hr, rfl, rfl, rfl⟩

end SameRows

/-- No statement of a pass makes a new row. -/
theorem triple_applyVaultList_sameRows [Boxes] {privateKey : KeyPair} {remote : List Vault}
    {nonce : ℕ → Uuid → Nonce} {s₀ : Store} :
  Triple (fun s => s = s₀) SameRows (applyVaultList privateKey remote nonce) (fun _ _ => True)
  := by
  have hmirror : Triple (fun _ => True) SameRows
      (mirrorVaults privateKey s₀.listVaults nonce remote) (fun _ _ => True) := by
    apply triple_mirrorVaults (I := fun _ _ => True)
    intro v rest n _
    apply triple_mirrorVault (A := fun _ _ => True)
    · intro _ s s' _ _ hupsert
      obtain ⟨-, hstore⟩ := Store.upsertVault_eq_ok hupsert
      rw [hstore]
      exact ⟨SameRows.of_row (fun _ _ hr => hr), trivial⟩
    · exact fun _ s _ => ⟨SameRows.of_row (fun _ _ hr => hr), trivial⟩
    · exact fun _ s _ => ⟨SameRows.of_row (fun _ _ hr => hr), trivial⟩
    · exact fun _ _ _ _ => trivial
    · intro _ _ _
      apply Store.triple_reencryptVault (I := fun _ _ _ _ => True)
      · exact fun _ _ _ _ _ _ => trivial
      · exact fun _ _ _ _ _ _ _ => trivial
      · intro _ _ r _ s _ _ _ _ _
        refine ⟨?_, trivial⟩
        intro id r' hr'
        rw [Store.row_setData] at hr'
        split at hr'
        · rename_i hid
          obtain ⟨r'', hr'', rfl⟩ := Option.map_eq_some_iff.mp hr'
          rw [hid]
          exact ⟨r'', hr'', rfl, rfl, rfl⟩
        · exact ⟨r', hr', rfl, rfl, rfl⟩
      · exact fun _ _ _ _ => trivial
  have hdrop : Triple (fun _ => True) SameRows (dropVaults remote s₀.listVaults)
      (fun _ _ => True) := by
    apply triple_dropVaults (I := fun _ _ => True)
    intro l rest _ s s' _ hremove
    obtain ⟨-, hrow, -⟩ := Store.removeVault_eq_ok hremove
    refine ⟨SameRows.of_row ?_, trivial⟩
    intro id r hr
    rw [hrow] at hr
    exact (Option.filter_eq_some_iff.mp hr).1
  apply (triple_applyVaultList hmirror hdrop).pre
  exact fun _ hs => ⟨hs, trivial⟩

/-- Wherever a pass stops, every row is a row there was. -/
theorem sameRows_of_stops [Boxes] {privateKey : KeyPair} {remote : List Vault}
    {nonce : ℕ → Uuid → Nonce} {s s' : Store}
    (h : s' ∈ (applyVaultList privateKey remote nonce).stops s) :
  SameRows s s'
  := triple_applyVaultList_sameRows.at_stops rfl SameRows.refl (fun _ _ h h' => h.trans h') h

/-! ### Readable entities -/

/-- An entity is there, and opens with the key held for its vault. -/
def Readable [Primitives] (s : Store) (id : Uuid) (text : String) : Prop :=
  ∃ r k n, s.row id = some r ∧ r.deleted = false ∧ s.heldPair r.vaultId = some (k, n)
    ∧ decryptStr k (Aad.entity r.kind r.id) r.data = .ok text

section
variable [Boxes] {privateKey : KeyPair} {remote : List Vault} {s s₀ s₁ : Store}
  {nonce nonce' : ℕ → Uuid → Nonce} {v : Vault} {k : SymmetricKey} {n : ℤ} {id : Uuid}
  {text : String} {r : EntityRow}

/-- A vault of the list is rotated to another key than the one held. -/
def Rotates (privateKey : KeyPair) (v : Vault) (k : SymmetricKey) (n : ℤ) : Prop :=
  ∃ k' origin, offeredKey privateKey v = some (k', origin) ∧ n < v.keyVersion
    ∧ (v.kind = .personal → origin = .selfAuthenticated) ∧ k' ≠ k

/-- A list keeps an entity: its vault is in the list, and not rotated to another key under the
version that the row is labelled with already; or its vault is the local one. -/
def KeepsRow (privateKey : KeyPair) (remote : List Vault) (s : Store) (id : Uuid) : Prop :=
  ∀ r k n, s.row id = some r → s.heldPair r.vaultId = some (k, n) →
    (∃ v ∈ remote, v.id = r.vaultId ∧ (Rotates privateKey v k n → r.keyVersion ≠ v.keyVersion))
    ∨ ((∀ v ∈ remote, v.id ≠ r.vaultId) ∧ ∀ l, s.vaults.get? r.vaultId = some l → l.kind = .local)

/-- Mirroring a vault whose key is held keeps the key and the row, or re-encrypts the row under
the key offered. -/
theorem mirrored_cases (privateKey : KeyPair) (v : Vault) (k : SymmetricKey) (n : ℤ)
    (r : EntityRow) :
  (¬ Rotates privateKey v k n ∧ pairAfter privateKey v (some (k, n)) = some (k, n)
      ∧ ∀ nonce, rowAfter privateKey v (some (k, n)) nonce r = r)
    ∨ ∃ k' origin, offeredKey privateKey v = some (k', origin) ∧ n < v.keyVersion
      ∧ (v.kind = .personal → origin = .selfAuthenticated)
      ∧ pairAfter privateKey v (some (k, n)) = some (k', v.keyVersion)
      ∧ ∀ nonce, rowAfter privateKey v (some (k, n)) nonce r
        = reencrypted k k' v.keyVersion nonce r
  := by
  rcases decision_held privateKey v (k, n) with h | ⟨k', origin, hoffered, hlt, hkind, h⟩
  · left
    refine ⟨?_, by rw [pairAfter, h]; rfl, fun nonce => by rw [rowAfter, h]⟩
    rintro ⟨k', origin, hoffered, hlt, hkind, -⟩
    rw [decision_of_offered hoffered hlt hkind] at h
    cases h
  · right
    exact ⟨k', origin, hoffered, hlt, hkind, by rw [pairAfter, h]; rfl,
      fun nonce => by rw [rowAfter, h]⟩

omit [Boxes] in
/-- What the key held and the row say about readability. -/
theorem readable_iff_of_views [Primitives] {held : Option (SymmetricKey × ℤ)}
    (h : Views r.vaultId id held (some r) s) :
  Readable s id text ↔ r.deleted = false
    ∧ ∃ k n, held = some (k, n) ∧ decryptStr k (Aad.entity r.kind r.id) r.data = .ok text
  := by
  obtain ⟨rfl, hrow⟩ := h
  constructor
  · rintro ⟨r', k, n, hrow', hdeleted, hheld, hopen⟩
    rw [hrow] at hrow'
    cases hrow'
    exact ⟨hdeleted, k, n, hheld, hopen⟩
  · rintro ⟨hdeleted, k, n, hheld, hopen⟩
    exact ⟨r, k, n, hrow, hdeleted, hheld, hopen⟩

omit [Boxes] in
theorem not_readable_of_gone [Primitives] (h : s.row id = none) :
  ¬ Readable s id text
  := by
  rintro ⟨r, -, -, hrow, -⟩
  rw [h] at hrow
  cases hrow

omit [Boxes] in
/-- A text opens as a string under one key. -/
theorem eq_of_decryptStr [Primitives] {k' : SymmetricKey} {aad aad' : Aad}
    {envelope text' : String} (h : decryptStr k aad envelope = .ok text)
    (h' : decryptStr k' aad' envelope = .ok text') :
  k' = k
  := by
  obtain ⟨bytes, hbytes, -⟩ := decryptStr_eq_ok.mp h
  obtain ⟨bytes', hbytes', -⟩ := decryptStr_eq_ok.mp h'
  exact eq_of_decryptB64 hbytes hbytes'

omit [Boxes] in
/-- A row re-encrypted opens with the new key as it did with the old one, unless it carried the new
label already. -/
theorem decryptStr_reencrypted [Primitives] {k' : SymmetricKey} {keyVersion : ℤ}
    {nonce : Uuid → Nonce} (hopen : decryptStr k (Aad.entity r.kind r.id) r.data = .ok text)
    (hdeleted : r.deleted = false) :
  decryptStr k' (Aad.entity (reencrypted k k' keyVersion nonce r).kind
      (reencrypted k k' keyVersion nonce r).id) (reencrypted k k' keyVersion nonce r).data = .ok text
    ↔ k' = k ∨ r.keyVersion ≠ keyVersion
  := by
  by_cases hlabel : r.keyVersion = keyVersion
  · rw [reencrypted_of_label hlabel]
    constructor
    · intro h
      exact .inl (eq_of_decryptStr hopen h)
    · rintro (rfl | h)
      · exact hopen
      · exact absurd hlabel h
  · obtain ⟨bytes, hbytes, htext⟩ := decryptStr_eq_ok.mp hopen
    rw [reencrypted_of_opens hdeleted hlabel hbytes]
    constructor
    · exact fun _ => .inr hlabel
    · intro _
      apply decryptStr_eq_ok.mpr
      exact ⟨bytes, decryptB64_encryptB64, htext⟩

/-- What a complete pass makes of an entity that is readable: it stays readable exactly when the
list keeps it. -/
theorem readable_final_iff (hnodup : (remote.map Vault.id).Nodup) {applied : AppliedVaults}
    (hrun : (applyVaultList privateKey remote nonce).result s = .ok applied)
    (h : Readable s id text) :
  Readable ((applyVaultList privateKey remote nonce).final s) id text
    ↔ KeepsRow privateKey remote s id
  := by
  obtain ⟨r, k, n, hrow, hdeleted, hheld, hopen⟩ := h
  obtain rfl := Store.id_of_row hrow
  by_cases hlisted : ∃ v ∈ remote, v.id = r.vaultId
  · obtain ⟨v, hv, hid⟩ := hlisted
    have hviews : Views v.id r.id (some (k, n)) (some r) s := ⟨by rw [hid, hheld], hrow⟩
    obtain ⟨m, hfinal⟩ :=
      (triple_applyVaultList_listed hnodup hv hid.symm hviews s rfl).2 applied hrun
    have hkeeps : KeepsRow privateKey remote s r.id
        ↔ (Rotates privateKey v k n → r.keyVersion ≠ v.keyVersion) := by
      constructor
      · intro h
        rcases h r k n hrow hheld with ⟨v', hv', hid', hrot⟩ | ⟨hnot, -⟩
        · obtain rfl : v' = v := List.inj_on_of_nodup_map hnodup hv' hv (hid'.trans hid.symm)
          exact hrot
        · exact absurd hid (hnot v hv)
      · intro hrot r' k' n' hrow' hheld'
        rw [hrow] at hrow'
        cases hrow'
        rw [hheld] at hheld'
        cases hheld'
        exact .inl ⟨v, hv, hid, hrot⟩
    have hvault : v.id = (rowAfter privateKey v (some (k, n)) m r).vaultId :=
      hid.trans rowAfter_same.2.2.1.symm
    rw [hvault] at hfinal
    rw [readable_iff_of_views hfinal, hkeeps, rowAfter_same.2.2.2]
    rcases mirrored_cases privateKey v k n r with
      ⟨hnot, hpair, hsame⟩ | ⟨k', origin, hoffered, hlt, hkind, hpair, hrowAfter⟩
    · rw [hpair, hsame]
      constructor
      · exact fun _ hrot => absurd hrot hnot
      · exact fun _ => ⟨hdeleted, k, n, rfl, hopen⟩
    · rw [hpair, hrowAfter]
      have hrot : Rotates privateKey v k n ↔ k' ≠ k := by
        constructor
        · rintro ⟨k'', origin', hoffered', -, -, hne⟩
          rw [hoffered] at hoffered'
          cases hoffered'
          exact hne
        · exact fun hne => ⟨k', origin, hoffered, hlt, hkind, hne⟩
      rw [hrot]
      constructor
      · rintro ⟨-, k'', n'', hheld', hopen'⟩ hne
        cases hheld'
        exact ((decryptStr_reencrypted hopen hdeleted).mp hopen').resolve_left hne
      · intro hlabel
        refine ⟨hdeleted, k', v.keyVersion, rfl, (decryptStr_reencrypted hopen hdeleted).mpr ?_⟩
        by_cases hk : k' = k
        · exact .inl hk
        · exact .inr (hlabel hk)
  · push Not at hlisted
    have hkeeps : KeepsRow privateKey remote s r.id
        ↔ ∀ l, s.vaults.get? r.vaultId = some l → l.kind = .local := by
      constructor
      · intro h
        rcases h r k n hrow hheld with ⟨v, hv, hid, -⟩ | ⟨-, hlocal⟩
        · exact absurd hid (hlisted v hv)
        · exact hlocal
      · intro hlocal r' k' n' hrow' _
        rw [hrow] at hrow'
        cases hrow'
        exact .inr ⟨hlisted, hlocal⟩
    rw [hkeeps]
    obtain ⟨l, hl, hkey⟩ := Option.bind_eq_some_iff.mp hheld
    have hid : l.id = r.vaultId := Table.key_of_get? hl
    cases hsynced : l.kind.isSynced with
    | true =>
        have hviews : Views l.id r.id (some (k, n)) (some r) s := ⟨by rw [hid, hheld], hrow⟩
        have hfinal := (triple_applyVaultList_unlisted hid.symm (by rwa [hid]) (by rw [hid, hl])
          hsynced hviews s rfl).2 applied hrun
        constructor
        · exact fun h => absurd h (not_readable_of_gone hfinal.2)
        · intro hlocal
          rw [hlocal l hl] at hsynced
          cases hsynced
    | false =>
        have hunsynced : ∀ l', s.vaults.get? r.vaultId = some l' → l'.kind.isSynced = false := by
          intro l' hl'
          rw [hl] at hl'
          cases hl'
          exact hsynced
        have hfinal := (triple_applyVaultList_local rfl hlisted hunsynced ⟨hheld, hrow⟩ s rfl).2
          applied hrun
        rw [readable_iff_of_views hfinal]
        constructor
        · intro _ l' hl'
          rw [hl] at hl'
          cases hl'
          cases hkind : l.kind with
          | «local» => rfl
          | personal =>
              rw [hkind] at hsynced
              cases hsynced
          | team =>
              rw [hkind] at hsynced
              cases hsynced
        · exact fun _ => ⟨hdeleted, k, n, rfl, hopen⟩

/-! ### Stopping and running again -/

/-- Every entity readable before is readable after, with the same payload. -/
def Survives (s s' : Store) : Prop := ∀ id text, Readable s id text → Readable s' id text

/-- A stopped pass can be made good: every entity readable before it is readable where it stopped,
and kept by the list from there. -/
def Recoverable (privateKey : KeyPair) (remote : List Vault) (s₀ s₁ : Store) : Prop :=
  ∀ id text, Readable s₀ id text → Readable s₁ id text ∧ KeepsRow privateKey remote s₁ id

/-- A vault whose rotation was recorded is left alone by another pass over the list: what is not
readable then, is not readable after it. -/
theorem readable_of_final_rotated {k' : SymmetricKey} {applied : AppliedVaults}
    (hnodup : (remote.map Vault.id).Nodup) (hv : v ∈ remote) (hvault : r.vaultId = v.id)
    (hviews : Views v.id r.id (some (k', v.keyVersion)) (some r) s₁)
    (hrun : (applyVaultList privateKey remote nonce).result s₁ = .ok applied)
    (h : Readable ((applyVaultList privateKey remote nonce).final s₁) r.id text) :
  Readable s₁ r.id text
  := by
  obtain ⟨m, hfinal⟩ :=
    (triple_applyVaultList_listed hnodup hv hvault hviews s₁ rfl).2 applied hrun
  rcases mirrored_cases privateKey v k' v.keyVersion r with
    ⟨-, hpair, hsame⟩ | ⟨-, -, -, hlt, -⟩
  · rw [hpair, hsame, ← hvault] at hfinal
    rw [← hvault] at hviews
    rw [readable_iff_of_views hfinal] at h
    rw [readable_iff_of_views hviews]
    exact h
  · exact absurd hlt (lt_irrefl _)

/-- What is readable before a pass, and after it was stopped and run again, is readable where it
stopped. -/
theorem readable_of_final {applied : AppliedVaults} (hnodup : (remote.map Vault.id).Nodup)
    (hstop : s₁ ∈ (applyVaultList privateKey remote nonce).stops s₀)
    (hrun : (applyVaultList privateKey remote nonce').result s₁ = .ok applied)
    (h₀ : Readable s₀ id text)
    (h : Readable ((applyVaultList privateKey remote nonce').final s₁) id text) :
  Readable s₁ id text
  := by
  obtain ⟨r, k, n, hrow, hdeleted, hheld, hopen⟩ := h₀
  obtain rfl := Store.id_of_row hrow
  by_cases hlisted : ∃ v ∈ remote, v.id = r.vaultId
  · obtain ⟨v, hv, hid⟩ := hlisted
    have hviews : Views v.id r.id (some (k, n)) (some r) s₀ := ⟨by rw [hid, hheld], hrow⟩
    have hstage : Stage privateKey v (some (k, n)) r s₁ :=
      (triple_applyVaultList_listed hnodup hv hid.symm hviews).at_stops rfl (.inl hviews)
        (fun _ _ _ hs => hs) hstop
    -- where the key and the row are as before, the entity is readable
    have hsame : Views v.id r.id (some (k, n)) (some r) s₁ → Readable s₁ r.id text := by
      intro hviews₁
      rw [hid] at hviews₁
      rw [readable_iff_of_views hviews₁]
      exact ⟨hdeleted, k, n, rfl, hopen⟩
    rcases mirrored_cases privateKey v k n r with
      ⟨-, hpair, hkept⟩ | ⟨k', -, -, -, -, hpair, -⟩
    · rw [Stage, hpair] at hstage
      rcases hstage with hs | hs | ⟨m, hs⟩
      · exact hsame hs
      · exact hsame hs
      · rw [hkept] at hs
        exact hsame hs
    · rw [Stage, hpair] at hstage
      rcases hstage with hs | hs | ⟨m, hs⟩
      · exact hsame hs
      · exact readable_of_final_rotated hnodup hv hid.symm hs hrun h
      · obtain ⟨hidAfter, -, hvaultAfter, -⟩ :=
          @rowAfter_same _ privateKey v m (some (k, n)) r
        rw [← hidAfter] at h hs ⊢
        exact readable_of_final_rotated hnodup hv (hvaultAfter.trans hid.symm) hs hrun h
  · push Not at hlisted
    obtain ⟨l, hl, -⟩ := Option.bind_eq_some_iff.mp hheld
    have hid : l.id = r.vaultId := Table.key_of_get? hl
    have hsame : Views r.vaultId r.id (some (k, n)) (some r) s₁ → Readable s₁ r.id text := by
      intro hviews₁
      rw [readable_iff_of_views hviews₁]
      exact ⟨hdeleted, k, n, rfl, hopen⟩
    cases hsynced : l.kind.isSynced with
    | true =>
        have hviews : Views l.id r.id (some (k, n)) (some r) s₀ := ⟨by rw [hid, hheld], hrow⟩
        have hstage : Views l.id r.id (some (k, n)) (some r) s₁ ∨ Views l.id r.id none none s₁ :=
          (triple_applyVaultList_unlisted hid.symm (by rwa [hid]) (by rw [hid, hl]) hsynced
            hviews).at_stops rfl (.inl hviews) (fun _ _ _ hs => hs) hstop
        rcases hstage with hs | hs
        · rw [hid] at hs
          exact hsame hs
        · obtain ⟨r', _, _, hrow', -⟩ := h
          obtain ⟨r₁, hrow₁, -⟩ := sameRows_of_stops final_mem_stops r.id r' hrow'
          rw [hs.2] at hrow₁
          cases hrow₁
    | false =>
        have hunsynced : ∀ l', s₀.vaults.get? r.vaultId = some l' → l'.kind.isSynced = false := by
          intro l' hl'
          rw [hl] at hl'
          cases hl'
          exact hsynced
        apply hsame
        exact (triple_applyVaultList_local rfl hlisted hunsynced ⟨hheld, hrow⟩).at_stops rfl
          ⟨hheld, hrow⟩ (fun _ _ _ hs => hs) hstop

/-- Running a stopped pass again to completion leaves every entity readable that was readable before
the first attempt, exactly when the stopped pass can be made good. -/
theorem survives_iff_recoverable {applied : AppliedVaults} (hnodup : (remote.map Vault.id).Nodup)
    (hstop : s₁ ∈ (applyVaultList privateKey remote nonce).stops s₀)
    (hrun : (applyVaultList privateKey remote nonce').result s₁ = .ok applied) :
  Survives s₀ ((applyVaultList privateKey remote nonce').final s₁)
    ↔ Recoverable privateKey remote s₀ s₁
  := by
  constructor
  · intro h id text h₀
    have h₁ := readable_of_final hnodup hstop hrun h₀ (h id text h₀)
    exact ⟨h₁, (readable_final_iff hnodup hrun h₁).mp (h id text h₀)⟩
  · intro h id text h₀
    obtain ⟨h₁, hkeeps⟩ := h id text h₀
    exact (readable_final_iff hnodup hrun h₁).mpr hkeeps

end

/-! ### Stopping after the key is replaced -/

open Symbolic

/-- A device with one entity in its personal vault, at key version one. -/
def oneEntity : Store :=
  { Store.empty with
    vaults := .single ⟨1, .personal, "personal", none, .manager, some (vaultKey 7), 1, 0, false, 0, true⟩
    entities := .single ⟨5, "host", 1, 1, 1, false, 1,
        encryptStr (vaultKey 7) (Aad.entity "host" 5) nonce "box", 0, false⟩ }

/-- A list that rotates the vault to version two. -/
def rotatingList : List Vault :=
  [⟨1, .personal, none, "personal", .manager, some (selfEnvelope (vaultKey 8)), 2, false, true⟩]

def rotatingPass : Script Store CoreError AppliedVaults :=
  applyVaultList account rotatingList (fun _ _ => nonce)

/-- A pass that runs to its end at once. -/
theorem survives_iff_recoverable_oneEntity :
  Survives oneEntity (rotatingPass.final oneEntity)
    ↔ Recoverable account rotatingList oneEntity oneEntity
  := by
  have hrun : rotatingPass.result oneEntity = .ok ⟨[1], []⟩ := by decide +kernel
  have hstop : oneEntity ∈ rotatingPass.stops oneEntity := List.mem_cons_self
  exact survives_iff_recoverable (by decide) hstop hrun

/-- The device once the new key is recorded, and nothing re-encrypted. -/
def keyReplaced : Store := (rotatingPass.stops oneEntity).get ⟨1, by decide +kernel⟩

/-- An entity sealed with the key that was replaced stays sealed with it when the pass runs again.
-/
theorem not_survives_keyReplaced :
  ¬ ∀ (privateKey : KeyPair) (remote : List Vault) (nonce nonce' : ℕ → Uuid → Nonce)
      (s₀ s₁ : Store) (applied : AppliedVaults), (remote.map Vault.id).Nodup →
    s₁ ∈ (applyVaultList privateKey remote nonce).stops s₀ →
    (applyVaultList privateKey remote nonce').result s₁ = .ok applied →
    Survives s₀ ((applyVaultList privateKey remote nonce').final s₁)
  := by
  intro h
  have hrun : rotatingPass.result keyReplaced = .ok ⟨[1], []⟩ := by decide +kernel
  have hbefore : Readable oneEntity 5 "box" :=
    ⟨_, vaultKey 7, 1, rfl, rfl, rfl, decryptStr_encryptStr⟩
  obtain ⟨r, k, n, hrow, -, hheld, hopen⟩ := h account rotatingList (fun _ _ => nonce)
    (fun _ _ => nonce) oneEntity keyReplaced ⟨[1], []⟩ (by decide) (List.get_mem _ _) hrun 5 "box"
    hbefore
  have hdata : (rotatingPass.final keyReplaced).row 5 = some ⟨5, "host", 1, 1, 1, false, 1,
      encryptStr (vaultKey 7) (Aad.entity "host" 5) nonce "box", 0, false⟩ := by
    decide +kernel
  have hkey : (rotatingPass.final keyReplaced).heldPair 1 = some (vaultKey 8, 2) := by
    decide +kernel
  cases hrow.symm.trans hdata
  cases hheld.symm.trans hkey
  have heq := eq_of_decryptStr decryptStr_encryptStr hopen
  exact absurd heq (by decide)

end Termoso.Core
