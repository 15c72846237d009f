import Termoso.Core.Account

/-!
# Mirroring, one vault at a time

Rules for the scripts that mirror a vault list: what one vault of the list does to the store,
and what the whole list does to a vault that is named once.
-/

namespace Termoso.Core

open Script

namespace Store

variable {s s' : Store} {id id' vaultId : Uuid}

/-! ### Statements -/

/-- The vault an upsert leaves under its identifier. -/
def upserted (id : Uuid) (kind : LocalVaultKind) (name : String) (teamId : Option Uuid)
    (role : VaultRole) (key : Option SymmetricKey) (keyVersion : ℤ) : Option LocalVault → LocalVault
  | none =>
    { id, kind, name, teamId, role, wrappedKey := key, keyVersion, cursor := 0,
      sessionLogging := false, logsCursor := 0, isDefault := false }
  | some v => { v with kind, name, teamId, role, wrappedKey := key.or v.wrappedKey, keyVersion }

theorem upsertVault_eq_ok {kind : LocalVaultKind} {name : String} {teamId : Option Uuid}
    {role : VaultRole} {key : Option SymmetricKey} {keyVersion : ℤ}
    (h : s.upsertVault id kind name teamId role key keyVersion = .ok s') :
  (∀ id', s'.vaults.get? id' = if id' = id then
      some (upserted id kind name teamId role key keyVersion (s.vaults.get? id))
      else s.vaults.get? id')
    ∧ s' = { s with vaults := s'.vaults }
  := by
  rw [upsertVault] at h
  split at h
  · cases h
  · cases h
    refine ⟨?_, rfl⟩
    intro id'
    rw [Table.get?_upsert]
    split
    · rename_i heq
      obtain rfl : id' = id := heq
      rw [if_pos rfl]
      cases s.vaults.get? id' <;> rfl
    · rename_i hne
      exact (if_neg hne).symm

theorem vaults_setVaultSessionLogging {on : Bool} :
  (s.setVaultSessionLogging id on).vaults.get? id'
    = if id' = id then (s.vaults.get? id).map (fun v => { v with sessionLogging := on })
      else s.vaults.get? id'
  := by
  rw [setVaultSessionLogging, Table.get?_set]

theorem vaults_setVaultDefault {on : Bool} :
  (s.setVaultDefault id on).vaults.get? id'
    = if id' = id then (s.vaults.get? id).map (fun v => { v with isDefault := on })
      else s.vaults.get? id'
  := by
  rw [setVaultDefault, Table.get?_set]

/-- Removing a vault takes everything in it along. -/
theorem removeVault_eq_ok (h : s.removeVault id = .ok s') :
  (∀ id', s'.vaults.get? id' = if id' = id then none else s.vaults.get? id')
    ∧ (∀ e, s'.row e = (s.row e).filter (fun r => decide (r.vaultId ≠ id)))
    ∧ (∀ h, s'.historyRow h = (s.historyRow h).filter (fun r => decide (r.vaultId ≠ id)))
    ∧ (∀ l, s'.logRow l = (s.logRow l).filter (fun r => decide (r.vaultId ≠ id)))
    ∧ s'.account = s.account
  := by
  simp only [removeVault, bind_eq_ok, check_eq_ok, pure_eq_ok] at h
  obtain ⟨v, -, -, rfl⟩ := h
  refine ⟨fun id' => Table.get?_erase _ _ _, ?_, ?_, ?_, rfl⟩
  · intro e
    rw [row, Table.get?_delete, ← row]
    congr 1
    funext r
    simp
  · intro e
    rw [historyRow, Table.get?_delete, ← historyRow]
    congr 1
    funext r
    simp
  · intro e
    rw [logRow, Table.get?_delete, ← logRow]
    congr 1
    funext r
    simp

theorem row_setData {data : String} {keyVersion : ℤ} :
  (s.setData id data keyVersion).row id'
    = if id' = id then (s.row id).map (fun r => { r with data, keyVersion, dirty := true })
      else s.row id'
  := by
  rw [setData, row, Table.get?_set]
  rfl

/-- The vaults at the start of a pass, by identifier. -/
theorem find?_listVaults :
  s.listVaults.find? (fun l => decide (l.id = id)) = s.vaults.get? id
  := by
  cases hget : s.vaults.get? id with
  | none =>
      apply List.find?_eq_none.mpr
      intro l hl
      rw [listVaults, List.mem_insertionSort] at hl
      simpa using Table.get?_eq_none_iff.mp hget l hl
  | some l =>
      obtain ⟨hl, hid⟩ := Table.get?_eq_some_iff.mp hget
      have hmem : l ∈ s.listVaults := by
        rw [listVaults, List.mem_insertionSort]
        exact hl
      cases hfind : s.listVaults.find? (fun l => decide (l.id = id)) with
      | none =>
          have := List.find?_eq_none.mp hfind l hmem
          exact absurd hid (by simpa using this)
      | some l' =>
          have hmem' := List.mem_of_find?_eq_some hfind
          rw [listVaults, List.mem_insertionSort] at hmem'
          have hid' : l'.id = id := by simpa using List.find?_some hfind
          rw [Table.eq_of_mem hmem' hl (hid'.trans hid.symm)]

/-! ### Re-encryption -/

section
variable [Primitives] {R : Store → Store → Prop} {oldKey newKey : SymmetricKey} {keyVersion : ℤ}
  {nonce : Uuid → Nonce}

/-- The rule of the re-encryption loop, with an invariant about the rows still to be visited. -/
theorem triple_reencryptRows {I : List EntityRow → Store → Prop}
    (hskip : ∀ r rows s, I (r :: rows) s → (∀ bytes plaintext, unb64 r.data = .ok bytes →
      decrypt oldKey (Aad.entity r.kind r.id) bytes ≠ .ok plaintext) → I rows s)
    (hset : ∀ r rows s bytes plaintext, I (r :: rows) s → unb64 r.data = .ok bytes →
      decrypt oldKey (Aad.entity r.kind r.id) bytes = .ok plaintext →
      R s (s.setData r.id (encryptB64 newKey (Aad.entity r.kind r.id) (nonce r.id) plaintext)
        keyVersion)
      ∧ I rows (s.setData r.id (encryptB64 newKey (Aad.entity r.kind r.id) (nonce r.id) plaintext)
        keyVersion))
    (rows : List EntityRow) :
  Triple (I rows) R (reencryptRows oldKey newKey keyVersion nonce rows) (fun _ => I [])
  := by
  induction rows with
  | nil => exact Triple.ret (fun _ hs => hs)
  | cons r rows ih =>
      rw [reencryptRows]
      apply Triple.lift.andThen
      intro bytes
      cases hdec : decrypt oldKey (Aad.entity r.kind r.id) bytes with
      | error e =>
          apply ih.pre
          rintro s ⟨hbytes, hs⟩
          rw [lift_eq_ok] at hbytes
          apply hskip r rows s hs
          intro bytes' plaintext hbytes'
          rw [hbytes] at hbytes'
          cases hbytes'
          rw [hdec]
          exact fun h => by cases h
      | ok plaintext =>
          have hexec : Triple (fun s => CoreError.lift (unb64 r.data) = .ok bytes ∧ I (r :: rows) s)
              R (Script.exec (fun s => s.setData r.id
                (encryptB64 newKey (Aad.entity r.kind r.id) (nonce r.id) plaintext) keyVersion)
                : Script Store CoreError Unit) (fun _ => I rows) := by
            apply Triple.exec
            rintro s ⟨hbytes, hs⟩
            rw [lift_eq_ok] at hbytes
            exact hset r rows s bytes plaintext hs hbytes hdec
          apply hexec.andThen
          intro _
          apply ih.andThen
          intro done
          exact Triple.ret (fun _ hs => hs)

/-- The rule of re-encrypting a vault: the invariant of the loop holds of the rows it starts with,
for the key and the version recorded. -/
theorem triple_reencryptVault {P Q : Store → Prop}
    {I : SymmetricKey → ℤ → List EntityRow → Store → Prop}
    (hstart : ∀ s l newKey, P s → s.vaults.get? vaultId = some l → l.wrappedKey = some newKey →
      I newKey l.keyVersion
        ((s.rows ⟨some vaultId, none, false⟩).filter (fun r => r.keyVersion ≠ l.keyVersion)) s)
    (hskip : ∀ newKey keyVersion r rows s, I newKey keyVersion (r :: rows) s →
      (∀ bytes plaintext, unb64 r.data = .ok bytes →
        decrypt oldKey (Aad.entity r.kind r.id) bytes ≠ .ok plaintext) →
      I newKey keyVersion rows s)
    (hset : ∀ newKey keyVersion r rows s bytes plaintext, I newKey keyVersion (r :: rows) s →
      unb64 r.data = .ok bytes → decrypt oldKey (Aad.entity r.kind r.id) bytes = .ok plaintext →
      R s (s.setData r.id (encryptB64 newKey (Aad.entity r.kind r.id) (nonce r.id) plaintext)
        keyVersion)
      ∧ I newKey keyVersion rows (s.setData r.id
          (encryptB64 newKey (Aad.entity r.kind r.id) (nonce r.id) plaintext) keyVersion))
    (hend : ∀ newKey keyVersion s, I newKey keyVersion [] s → Q s) :
  Triple P R (reencryptVault vaultId oldKey nonce) (fun _ => Q)
  := by
  rw [reencryptVault]
  apply Triple.read.andThen
  intro s
  apply Triple.lift.andThen
  intro newKey
  apply Triple.lift.andThen
  intro l
  dsimp only
  apply ((triple_reencryptRows (hskip newKey l.keyVersion) (hset newKey l.keyVersion) _).pre _).post
  · intro _ s' hs'
    exact hend newKey l.keyVersion s' hs'
  · rintro s' ⟨hvault, hkey, rfl, hP⟩
    obtain ⟨l', hget, hwrapped⟩ := vaultKey_eq_ok.mp hkey
    rw [vault_eq_ok, hget] at hvault
    cases hvault
    exact hstart s l newKey hP hget hwrapped

end

end Store

/-! ### One vault of the list -/

section
variable [Boxes] {privateKey : KeyPair} {vaults : List LocalVault} {nonce : Uuid → Nonce} {v : Vault}
  {R : Store → Store → Prop}

/-- The decision about a vault of the list, given the key held. -/
def decision (privateKey : KeyPair) (v : Vault) (held : Option (SymmetricKey × ℤ)) : KeyDecision :=
  decideKey held (offeredKey privateKey v) (decide (v.kind = .personal)) v.keyVersion

/-- The rule of mirroring one vault: what holds before its key is decided, once it is stored, and
once its rows are re-encrypted. -/
theorem triple_mirrorVault {B C : Store → Prop} {A : Option (SymmetricKey × ℤ) → Store → Prop}
    (hupsert : ∀ held s s', B s →
      s.heldKey (vaults.find? (fun l => decide (l.id = v.id))) = .ok held →
      s.upsertVault v.id (.ofKind v.kind) v.name v.teamId v.myRole
        (decision privateKey v held).install (decision privateKey v held).keyVersion = .ok s' →
      R s s' ∧ A held s')
    (hlogging : ∀ held s, A held s → R s (s.setVaultSessionLogging v.id v.sessionLogging)
      ∧ A held (s.setVaultSessionLogging v.id v.sessionLogging))
    (hdefault : ∀ held s, A held s → R s (s.setVaultDefault v.id v.isDefault)
      ∧ A held (s.setVaultDefault v.id v.isDefault))
    (hsame : ∀ held, (decision privateKey v held).rotatedFrom = none → ∀ s, A held s → C s)
    (hrotate : ∀ held old, (decision privateKey v held).rotatedFrom = some old →
      Triple (A held) R (Store.reencryptVault v.id old nonce) (fun _ => C)) :
  Triple B R (mirrorVault privateKey vaults nonce v) (fun _ => C)
  := by
  rw [mirrorVault]
  apply Triple.read.andThen
  intro s₀
  apply Triple.lift.andThen
  intro held
  have hattempt : Triple
      (fun s => s₀.heldKey (vaults.find? (fun l => decide (l.id = v.id))) = .ok held
        ∧ s₀ = s ∧ B s) R
      (Script.attempt (fun s => s.upsertVault v.id (.ofKind v.kind) v.name v.teamId v.myRole
        (decision privateKey v held).install (decision privateKey v held).keyVersion)
        : Script Store CoreError Unit)
      (fun _ => A held) := by
    apply Triple.attempt
    rintro s s' ⟨hheld, rfl, hB⟩ hs'
    exact hupsert held s₀ s' hB hheld hs'
  apply hattempt.andThen
  intro _
  have hlog : Triple (A held) R
      (Script.exec (fun s => s.setVaultSessionLogging v.id v.sessionLogging)
        : Script Store CoreError Unit) (fun _ => A held) :=
    Triple.exec (hlogging held)
  apply hlog.andThen
  intro _
  have hdef : Triple (A held) R
      (Script.exec (fun s => s.setVaultDefault v.id v.isDefault) : Script Store CoreError Unit)
      (fun _ => A held) :=
    Triple.exec (hdefault held)
  apply hdef.andThen
  intro _
  have hdec : decideKey held (offeredKey privateKey v) (decide (v.kind = .personal)) v.keyVersion
      = decision privateKey v held := rfl
  dsimp only
  rw [hdec]
  cases hfrom : (decision privateKey v held).rotatedFrom with
  | none =>
      have hnone : Triple (A held) R (Script.ret () : Script Store CoreError Unit) (fun _ => C) :=
        Triple.ret (hsame held hfrom)
      apply hnone.andThen
      intro _
      exact Triple.ret (fun _ hs => hs)
  | some old =>
      apply (hrotate held old hfrom).andThen
      intro _
      exact Triple.ret (fun _ hs => hs)

end

/-! ### The key held -/

/-- The key held for a vault, with the version recorded for it. -/
def Store.heldPair (s : Store) (id : Uuid) : Option (SymmetricKey × ℤ) :=
  (s.vaults.get? id).bind (fun l => l.wrappedKey.map (fun k => (k, l.keyVersion)))

section
variable [Boxes] {privateKey : KeyPair} {p : Uuid} {s s' : Store} {v : Vault}

/-- The key held, and its version, once a vault of the list is mirrored. -/
def pairAfter (privateKey : KeyPair) (v : Vault) (held : Option (SymmetricKey × ℤ)) :
    Option (SymmetricKey × ℤ) :=
  ((decision privateKey v held).install.or (held.map Prod.fst)).map
    (fun k => (k, (decision privateKey v held).keyVersion))

namespace Store

omit [Boxes] in
theorem heldPair_congr (h : s'.vaults.get? p = s.vaults.get? p) :
  s'.heldPair p = s.heldPair p
  := by
  rw [heldPair, h, heldPair]

omit [Boxes] in
theorem heldPair_of_vaults (h : s'.vaults = s.vaults) :
  s'.heldPair p = s.heldPair p
  := heldPair_congr (by rw [h])

omit [Boxes] in
/-- The key a pass looks up for a vault is the key held, as long as that is the one of the start of
the pass. -/
theorem heldKey_eq_ok {s₀ : Store} {held : Option (SymmetricKey × ℤ)}
    (h : s.heldKey (s₀.vaults.get? p) = .ok held) (hsame : s.heldPair p = s₀.heldPair p) :
  held = s.heldPair p
  := by
  rw [hsame]
  cases hget : s₀.vaults.get? p with
  | none =>
      rw [hget] at h
      cases h
      rw [heldPair, hget]
      rfl
  | some l =>
      have hid : l.id = p := Table.key_of_get? hget
      rw [hget, heldKey] at h
      cases hkey : l.wrappedKey with
      | none =>
          rw [LocalVault.unlocked, hkey] at h
          cases h
          simp [heldPair, hget, hkey]
      | some k =>
          rw [LocalVault.unlocked, hkey, Option.isSome_some, if_pos rfl, hid] at h
          obtain ⟨k', hk', rfl⟩ := map_eq_ok.mp h
          obtain ⟨l', hget', hkey'⟩ := vaultKey_eq_ok.mp hk'
          have hpair : some (k', l'.keyVersion) = some (k, l.keyVersion) := by
            simpa [heldPair, hget, hget', hkey, hkey'] using hsame
          simp only [Option.some_inj, Prod.mk.injEq] at hpair
          simp [heldPair, hget, hkey, hpair.1]

/-- An upsert leaves the key decided. -/
theorem heldPair_upsertVault
    (h : s.upsertVault v.id (.ofKind v.kind) v.name v.teamId v.myRole
      (decision privateKey v (s.heldPair v.id)).install
      (decision privateKey v (s.heldPair v.id)).keyVersion = .ok s') :
  s'.heldPair v.id = pairAfter privateKey v (s.heldPair v.id)
  := by
  obtain ⟨hget, -⟩ := upsertVault_eq_ok h
  rw [heldPair, hget, if_pos rfl, pairAfter]
  generalize decision privateKey v (s.heldPair v.id) = d
  rw [heldPair]
  cases s.vaults.get? v.id with
  | none => cases d.install <;> rfl
  | some l =>
      cases hinstall : d.install with
      | none => cases hkey : l.wrappedKey <;> simp [upserted, hkey]
      | some k => simp [upserted]

omit [Boxes] in
theorem heldPair_setVaultSessionLogging {id : Uuid} {on : Bool} :
  (s.setVaultSessionLogging id on).heldPair p = s.heldPair p
  := by
  rw [heldPair, vaults_setVaultSessionLogging]
  split
  · rename_i hid
    subst hid
    rw [heldPair]
    cases s.vaults.get? p <;> rfl
  · rfl

omit [Boxes] in
theorem heldPair_setVaultDefault {id : Uuid} {on : Bool} :
  (s.setVaultDefault id on).heldPair p = s.heldPair p
  := by
  rw [heldPair, vaults_setVaultDefault]
  split
  · rename_i hid
    subst hid
    rw [heldPair]
    cases s.vaults.get? p <;> rfl
  · rfl

end Store

/-- A vault whose key is held keeps it, or is rotated to a key offered for a newer version. -/
theorem decision_held (privateKey : KeyPair) (v : Vault) (held : SymmetricKey × ℤ) :
  decision privateKey v (some held) = ⟨none, none, held.2⟩
    ∨ ∃ k origin, offeredKey privateKey v = some (k, origin) ∧ held.2 < v.keyVersion
      ∧ (v.kind = .personal → origin = .selfAuthenticated)
      ∧ decision privateKey v (some held) = ⟨some k, some held.1, v.keyVersion⟩
  := by
  obtain ⟨k, n⟩ := held
  rw [decision]
  cases hoffered : offeredKey privateKey v with
  | none => exact .inl rfl
  | some offered =>
      obtain ⟨k', origin⟩ := offered
      simp only [decideKey]
      split
      · exact .inl rfl
      split
      · exact .inl rfl
      split
      · exact .inl rfl
      · rename_i hne hlt horigin
        refine .inr ⟨k', origin, rfl, by omega, ?_, rfl⟩
        intro hkind
        by_contra h
        exact horigin ⟨by simpa using hkind, h⟩

/-- A key offered for a newer version, and not refused, replaces the key held. -/
theorem decision_of_offered {k k' : SymmetricKey} {n : ℤ} {origin : SealedKeyOrigin}
    (hoffered : offeredKey privateKey v = some (k', origin)) (hlt : n < v.keyVersion)
    (hkind : v.kind = .personal → origin = .selfAuthenticated) :
  decision privateKey v (some (k, n)) = ⟨some k', some k, v.keyVersion⟩
  := by
  rw [decision, hoffered]
  simp only [decideKey]
  rw [if_neg (by omega), if_neg (by omega), if_neg]
  rintro ⟨hpersonal, horigin⟩
  exact horigin (hkind (by simpa using hpersonal))

theorem pairAfter_held (privateKey : KeyPair) (v : Vault) (held : SymmetricKey × ℤ) :
  pairAfter privateKey v (some held) = some held
    ∨ ∃ k origin, offeredKey privateKey v = some (k, origin) ∧ held.2 < v.keyVersion
      ∧ (v.kind = .personal → origin = .selfAuthenticated)
      ∧ pairAfter privateKey v (some held) = some (k, v.keyVersion)
  := by
  rcases decision_held privateKey v held with h | ⟨k, origin, hoffered, hlt, hkind, h⟩
  · rw [pairAfter, h]
    exact .inl rfl
  · rw [pairAfter, h]
    exact .inr ⟨k, origin, hoffered, hlt, hkind, rfl⟩

/-- A vault without a key takes the key of any envelope that opens. -/
theorem pairAfter_none :
  pairAfter privateKey v none
    = (offeredKey privateKey v).map (fun offered => (offered.1, v.keyVersion))
  := by
  rw [pairAfter, decision]
  cases offeredKey privateKey v with
  | none => rfl
  | some offered => rfl

end

/-! ### The list -/

section
variable [Boxes] {privateKey : KeyPair} {vaults : List LocalVault} {nonce : ℕ → Uuid → Nonce}
  {remote : List Vault} {R : Store → Store → Prop}

/-- The rule of the loop over the list, with an invariant about the vaults still to be mirrored. -/
theorem triple_mirrorVaults {I : List Vault → Store → Prop}
    (h : ∀ v rest nonce, v :: rest <:+ remote →
      Triple (I (v :: rest)) R (mirrorVault privateKey vaults nonce v) (fun _ => I rest)) :
  Triple (I remote) R (mirrorVaults privateKey vaults nonce remote) (fun _ => I [])
  := by
  induction remote with
  | nil => exact Triple.ret (fun _ hs => hs)
  | cons v remote ih =>
      rw [mirrorVaults]
      apply (h v remote (nonce remote.length) List.suffix_rfl).andThen
      rintro ⟨nowUnlocked, reseal⟩
      apply (ih (fun v' rest nonce hsuffix =>
        h v' rest nonce (hsuffix.trans (List.suffix_cons v remote)))).andThen
      intro rest
      exact Triple.ret (fun _ hs => hs)

/-- What mirroring one vault makes of the store, mirroring the list makes of it, when the vaults
before it keep what it starts from, and the vaults after it what it makes. -/
theorem triple_mirrorVaults_at {B A : Store → Prop} {v : Vault} {before after : List Vault}
    (hbefore : ∀ w ∈ before, ∀ nonce,
      Triple B R (mirrorVault privateKey vaults nonce w) (fun _ => B))
    (hself : ∀ nonce, Triple B R (mirrorVault privateKey vaults nonce v) (fun _ => A))
    (hafter : ∀ w ∈ after, ∀ nonce,
      Triple A R (mirrorVault privateKey vaults nonce w) (fun _ => A)) :
  Triple B R (mirrorVaults privateKey vaults nonce (before ++ v :: after)) (fun _ => A)
  := by
  induction before with
  | nil =>
      rw [List.nil_append, mirrorVaults]
      apply (hself (nonce after.length)).andThen
      rintro ⟨nowUnlocked, reseal⟩
      have htail : Triple A R (mirrorVaults privateKey vaults nonce after) (fun _ => A) :=
        triple_mirrorVaults (I := fun _ => A)
          (fun w _ nonce hsuffix => hafter w (hsuffix.mem List.mem_cons_self) nonce)
      apply htail.andThen
      intro rest
      exact Triple.ret (fun _ hs => hs)
  | cons w before ih =>
      rw [List.cons_append, mirrorVaults]
      apply (hbefore w List.mem_cons_self (nonce (before ++ v :: after).length)).andThen
      rintro ⟨nowUnlocked, reseal⟩
      apply (ih (fun w' hw' => hbefore w' (List.mem_cons_of_mem _ hw'))).andThen
      intro rest
      exact Triple.ret (fun _ hs => hs)

omit [Boxes] in
theorem mem_unlisted {l : LocalVault} :
  l ∈ unlisted remote vaults
    ↔ l ∈ vaults ∧ l.kind.isSynced = true ∧ ∀ v ∈ remote, v.id ≠ l.id
  := by
  simp [unlisted]

omit [Boxes] in
/-- The rule of dropping vaults, with an invariant about the vaults still to be dropped. -/
theorem triple_dropVaults {I : List LocalVault → Store → Prop}
    (h : ∀ l rest, l :: rest <:+ unlisted remote vaults → ∀ s s', I (l :: rest) s →
      s.removeVault l.id = .ok s' → R s s' ∧ I rest s') :
  Triple (I (unlisted remote vaults)) R (dropVaults remote vaults) (fun _ => I [])
  := by
  apply Triple.each
  intro l rest hsuffix
  apply Triple.attempt
  intro s s' hs hs'
  exact h l rest hsuffix s s' hs hs'

/-- The rule of the whole pass: `B` at its start, `A` once the vaults of the list are mirrored, and
`C` once the others are dropped. -/
theorem triple_applyVaultList {s₀ : Store} {B A C : Store → Prop}
    (hmirror : Triple B R (mirrorVaults privateKey s₀.listVaults nonce remote) (fun _ => A))
    (hdrop : Triple A R (dropVaults remote s₀.listVaults) (fun _ => C)) :
  Triple (fun s => s = s₀ ∧ B s) R (applyVaultList privateKey remote nonce) (fun _ => C)
  := by
  rw [applyVaultList]
  apply Triple.read.andThen
  intro s₁
  have hmirror' : Triple (fun s => s₁ = s ∧ s = s₀ ∧ B s) R
      (mirrorVaults privateKey s₁.listVaults nonce remote) (fun _ s => s₁ = s₀ ∧ A s) := by
    rintro s ⟨rfl, rfl, hB⟩
    obtain ⟨hchain, hpost⟩ := hmirror s₁ hB
    exact ⟨hchain, fun a ha => ⟨rfl, hpost a ha⟩⟩
  apply hmirror'.andThen
  intro applied
  have hdrop' : Triple (fun s => s₁ = s₀ ∧ A s) R (dropVaults remote s₁.listVaults)
      (fun _ => C) := by
    rintro s ⟨rfl, hA⟩
    exact hdrop s hA
  apply hdrop'.andThen
  intro _
  exact Triple.ret (fun _ hs => hs)

/-- What every statement of the pass keeps holds wherever the pass is stopped. -/
theorem applyVaultList_induction {I : Store → Prop} {s s' : Store}
    (hupsert : ∀ v ∈ remote, ∀ key keyVersion s s', I s →
      s.upsertVault v.id (.ofKind v.kind) v.name v.teamId v.myRole key keyVersion = .ok s' → I s')
    (hlogging : ∀ id on s, I s → I (s.setVaultSessionLogging id on))
    (hdefault : ∀ id on s, I s → I (s.setVaultDefault id on))
    (hset : ∀ id data keyVersion s, I s → I (s.setData id data keyVersion))
    (hremove : ∀ id s s', I s → s.removeVault id = .ok s' → I s')
    (hs : I s) (hs' : s' ∈ (applyVaultList privateKey remote nonce).stops s) :
  I s'
  := by
  have hreencrypt : ∀ id old nonce, Script.Triple (fun _ => True) (fun s s' => I s → I s')
      (Store.reencryptVault id old nonce) (fun _ _ => True) := by
    intro id old nonce
    apply Store.triple_reencryptVault (I := fun _ _ _ _ => True)
    · exact fun _ _ _ _ _ _ => trivial
    · exact fun _ _ _ _ _ _ _ => trivial
    · exact fun _ _ _ _ _ _ _ _ _ _ => ⟨hset _ _ _ _, trivial⟩
    · exact fun _ _ _ _ => trivial
  have hmirror : Script.Triple (fun _ => True) (fun s s' => I s → I s')
      (mirrorVaults privateKey s.listVaults nonce remote) (fun _ _ => True) := by
    apply triple_mirrorVaults (I := fun _ _ => True)
    intro v rest nonce hsuffix
    have hv : v ∈ remote := hsuffix.subset List.mem_cons_self
    apply triple_mirrorVault (A := fun _ _ => True)
    · exact fun _ s s' _ _ h => ⟨fun hI => hupsert v hv _ _ s s' hI h, trivial⟩
    · exact fun _ s _ => ⟨hlogging _ _ s, trivial⟩
    · exact fun _ s _ => ⟨hdefault _ _ s, trivial⟩
    · exact fun _ _ _ _ => trivial
    · exact fun _ old _ => hreencrypt v.id old nonce
  have hdrop : Script.Triple (fun _ => True) (fun s s' => I s → I s')
      (dropVaults remote s.listVaults) (fun _ _ => True) := by
    apply triple_dropVaults (I := fun _ _ => True)
    exact fun l _ _ s s' _ h => ⟨fun hI => hremove l.id s s' hI h, trivial⟩
  have htriple : Script.Triple (fun s₁ => s₁ = s ∧ True) (fun s s' => I s → I s')
      (applyVaultList privateKey remote nonce) (fun _ _ => True) :=
    triple_applyVaultList hmirror hdrop
  exact htriple.at_stops ⟨rfl, trivial⟩ hs (fun _ _ h hR => hR h) hs'

end

end Termoso.Core
