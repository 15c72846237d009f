import Termoso.Core.Rekey
import Termoso.Lib.Listing
import Termoso.Lib.Sealing

/-!
# What a new master key leaves behind

A change of the master key that returns normally has moved every vault key, the secrets of the
account, and the settings with a name like `secret:%`.  A secret setting with another name stays
under the old key, and is read under the new one no more.

Between two statements some of what is sealed is under the new key, and the rest under the old one;
only a store with nothing sealed but one vault key is read with one of the keys at every moment.
-/

namespace Termoso.Core

open Script

/-! ### Two sealings -/

section
variable [Primitives]

/-- The sealing of the key of a vault. -/
def wrapSealing (id : Uuid) : Sealing SymmetricKey Nonce String CryptoError SymmetricKey where
  read k t := unwrapKey k (wrapAad id) t
  write k n a := wrapKey k (wrapAad id) n a
  read_write k n a := by
    rw [unwrapKey, wrapKey, decryptB64_encryptB64]
    simp only [bind, Except.bind, SymmetricKey.fromSlice]
    rw [dif_pos a.length_toList]
    rfl
  key_unique k k' t a a' h h' := by
    obtain ⟨bytes, hbytes, -⟩ := bind_eq_ok.mp h
    obtain ⟨bytes', hbytes', -⟩ := bind_eq_ok.mp h'
    exact eq_of_decryptB64 hbytes hbytes'

/-- The sealing of a text. -/
def textSealing (aad : Aad) : Sealing SymmetricKey Nonce String CryptoError String where
  read k t := decryptStr k aad t
  write k n a := encryptStr k aad n a
  read_write k n a := decryptStr_encryptStr
  key_unique k k' t a a' h h' := by
    obtain ⟨bytes, hbytes, -⟩ := decryptStr_eq_ok.mp h
    obtain ⟨bytes', hbytes', -⟩ := decryptStr_eq_ok.mp h'
    exact eq_of_decryptB64 hbytes hbytes'

end

/-! ### Opening -/

section
variable [Primitives] {k : SymmetricKey} {rows : List WrappedKey}
  {keys : List (Uuid × SymmetricKey)} {db : Database} {s o : OpenStore}

theorem loadKeys_eq_collect :
  loadKeys k rows = collect (fun r =>
    ((unwrapKey k (wrapAad r.id) r.wrapped).mapError CoreError.crypto).map
      (fun key => some (r.id, key))) rows
  := by
  induction rows with
  | nil => rfl
  | cons r rows ih =>
      rw [loadKeys, collect, ih]
      cases unwrapKey k (wrapAad r.id) r.wrapped <;> rfl

/-- The keys load when each row can be unwrapped. -/
theorem exists_loadKeys :
  (∃ keys, loadKeys k rows = .ok keys)
    ↔ ∀ r ∈ rows, ∃ key, unwrapKey k (wrapAad r.id) r.wrapped = .ok key
  := by
  rw [loadKeys_eq_collect, exists_collect_eq_ok]
  apply forall₂_congr
  intro r _
  cases unwrapKey k (wrapAad r.id) r.wrapped <;> simp [Except.map, Except.mapError]

theorem ids_of_loadKeys (h : loadKeys k rows = .ok keys) :
  keys.map Prod.fst = rows.map WrappedKey.id
  := by
  induction rows generalizing keys with
  | nil =>
      cases h
      rfl
  | cons r rows ih =>
      rw [loadKeys] at h
      split at h
      · cases h
      · obtain ⟨rest, hrest, rfl⟩ := map_eq_ok.mp h
        rw [List.map_cons, List.map_cons, ih hrest]

/-- The cache has the key of each row. -/
theorem lookup_loadKeys {id : Uuid} (h : loadKeys k rows = .ok keys) :
  keys.lookup id = (rows.find? (fun r => decide (key r = id))).bind
    (fun r => (unwrapKey k (wrapAad r.id) r.wrapped).toOption)
  := by
  induction rows generalizing keys with
  | nil =>
      cases h
      rfl
  | cons r rows ih =>
      rw [loadKeys] at h
      split at h
      · cases h
      · rename_i x hx
        obtain ⟨rest, hrest, rfl⟩ := map_eq_ok.mp h
        rw [List.lookup_cons, List.find?_cons]
        by_cases hid : r.id = id
        · subst hid
          have hfound : decide (key r = r.id) = true := decide_eq_true rfl
          rw [beq_self_eq_true, hfound]
          simp only [Option.bind_some, hx, Except.toOption]
        · have hfound : decide (key r = id) = false := decide_eq_false hid
          have hbeq : (id == r.id) = false := beq_eq_false_iff_ne.mpr (Ne.symm hid)
          rw [hbeq, hfound]
          exact ih hrest

theorem open_eq_ok :
  db.open k = .ok o ↔ ∃ keys, loadKeys k db.wrappedKeys.rows = .ok keys ∧ ⟨k, keys, db⟩ = o
  := by
  rw [Database.open, map_eq_ok]

/-- A database opens when each of its vault keys can be unwrapped. -/
theorem exists_open :
  (∃ o, db.open k = .ok o) ↔ ∀ id r, db.wrappedKeys.get? id = some r →
    ∃ key, (wrapSealing id).read k r.wrapped = .ok key
  := by
  have hkeys : (∃ o, db.open k = .ok o) ↔ ∃ keys, loadKeys k db.wrappedKeys.rows = .ok keys := by
    simp [open_eq_ok]
  rw [hkeys, exists_loadKeys]
  constructor
  · intro h id r hr
    obtain rfl : r.id = id := Table.key_of_get? hr
    exact h r (Table.mem_of_get? hr)
  · intro h r hr
    exact h r.id r (Table.get?_of_mem hr)

/-- The key of a vault in a store that was opened. -/
theorem lookup_of_open {id : Uuid} (h : db.open k = .ok o) :
  o.keys.lookup id = (db.wrappedKeys.get? id).bind
    (fun r => ((wrapSealing id).read k r.wrapped).toOption)
  := by
  obtain ⟨keys, hkeys, rfl⟩ := open_eq_ok.mp h
  rw [lookup_loadKeys hkeys, ← Table.get?]
  cases hr : db.wrappedKeys.get? id with
  | none => rfl
  | some r =>
      obtain rfl : r.id = id := Table.key_of_get? hr
      rfl

end

/-! ### What is to hold -/

section
variable [Primitives]

/-- What one store reads, another reads the same: the keys of its vaults, its secret settings, the
secrets of the account, and everything under the keys of the vaults, recordings among it. -/
structure OpenStore.ReadsAs (s s' : OpenStore) : Prop where
  vaultKeys : ∀ id key, s.vaultKey id = .ok key → s'.vaultKey id = .ok key
  settings : ∀ name text, s.secretMeta name = .ok (some text) → s'.secretMeta name = .ok (some text)
  account : ∀ a, s.accountSecrets = .ok a → s'.accountSecrets = .ok a
  contents : s'.view = s.view

/-- The database opens with a key, and what a store read is read the same. -/
def OpenStore.Reopens (s : OpenStore) (k : SymmetricKey) (db : Database) : Prop :=
  ∃ o, db.open k = .ok o ∧ s.ReadsAs o

/-- Something of the database can be read with a key. -/
def Database.SealedUnder (db : Database) (k : SymmetricKey) : Prop :=
  (∃ r ∈ db.wrappedKeys.rows, ∃ key, unwrapKey k (wrapAad r.id) r.wrapped = .ok key)
    ∨ (∃ m ∈ db.settings.rows, ∃ text, decryptStr k (settingAad m.name) m.value = .ok text)
    ∨ ∃ a, (OpenStore.mk k [] db).accountSecrets = .ok a

/-- A change that returns normally leaves everything readable with the new key, and nothing with the
old one. -/
def RekeyComplete (s : OpenStore) (new : SymmetricKey) (order : List (Uuid × SymmetricKey))
    (nonce : Secret → Nonce) : Prop :=
  (rekey new order nonce).result s = .ok () →
    s.ReadsAs ((rekey new order nonce).final s)
      ∧ s.Reopens new ((rekey new order nonce).final s).db
      ∧ (new ≠ s.master → ¬ ((rekey new order nonce).final s).db.SealedUnder s.master)

/-- Wherever a change ends or is stopped, everything is readable with one of the keys. -/
def RekeyAtomic (s : OpenStore) (new : SymmetricKey) (order : List (Uuid × SymmetricKey))
    (nonce : Secret → Nonce) : Prop :=
  ∀ t ∈ (rekey new order nonce).stops s, s.Reopens s.master t.db ∨ s.Reopens new t.db

/-- One vault key is all that can be read with the master key. -/
structure OpenStore.Lone (s : OpenStore) : Prop where
  vaultKey : ∃ x, s.keys = [x]
  account : ∀ a, s.accountSecrets ≠ .ok a
  settings : ∀ name text, s.secretMeta name ≠ .ok (some text)

/-- A store whose every secret setting has a name like `secret:%`. -/
def OpenStore.NamesSecrets (s : OpenStore) : Prop :=
  ∀ name text, s.secretMeta name = .ok (some text) → OpenStore.likeSecret name = true

/-! ### Between two statements -/

/-- A database in which some of what a store could read was moved to a new key. -/
structure Between (s : OpenStore) (new : SymmetricKey) (t : OpenStore) : Prop where
  keys : t.keys = s.keys
  contents : t.db.contents = s.db.contents
  wrapped : ∀ id, Option.Rel
    (fun r r' => (wrapSealing id).Resealed s.master new r.wrapped r'.wrapped)
    (s.db.wrappedKeys.get? id) (t.db.wrappedKeys.get? id)
  account : t.db.account = s.db.account
    ∨ ∃ a token wrappedPrivateKey, s.accountSecrets = .ok a
      ∧ t.db.account = some ⟨encryptStr new tokenAad token a.token,
          encryptB64 new privateKeyAad wrappedPrivateKey a.privateKey.toList⟩
  settings : ∀ name, Option.Rel
    (fun m m' => if OpenStore.likeSecret name then
        (textSealing (settingAad name)).Resealed s.master new m.value m'.value
      else m'.value = m.value)
    (s.db.settings.get? name) (t.db.settings.get? name)

variable {s t o : OpenStore} {new k : SymmetricKey} {order : List (Uuid × SymmetricKey)}
  {nonce : Secret → Nonce}

theorem between_refl (new : SymmetricKey) : Between s new s := by
  refine ⟨rfl, rfl, fun id => ?_, .inl rfl, fun name => ?_⟩
  · cases s.db.wrappedKeys.get? id with
    | none => exact .none
    | some r => exact .some (.inl rfl)
  · cases s.db.settings.get? name with
    | none => exact .none
    | some m =>
        apply Option.Rel.some
        split
        · exact .inl rfl
        · rfl

/-- Reading does not depend on the cache. -/
theorem accountSecrets_congr {s s' : OpenStore} (hmaster : s'.master = s.master)
    (haccount : s'.db.account = s.db.account) :
  s'.accountSecrets = s.accountSecrets
  := by
  rw [OpenStore.accountSecrets, OpenStore.accountSecrets, hmaster, haccount]

theorem secretMeta_eq_ok {name text : String} :
  s.secretMeta name = .ok (some text)
    ↔ ∃ m, s.db.settings.get? name = some m
      ∧ (textSealing (settingAad name)).read s.master m.value = .ok text
  := by
  rw [OpenStore.secretMeta]
  cases s.db.settings.get? name with
  | none => simp
  | some m =>
      simp only [map_eq_ok, lift_eq_ok, Option.some.injEq, exists_eq_right, exists_eq_left']
      exact Iff.rfl

omit [Primitives] in
theorem cachedKey_eq_ok {id : Uuid} {key : SymmetricKey} :
  s.vaultKey id = .ok key ↔ s.keys.lookup id = some key
  := by
  rw [OpenStore.vaultKey]
  cases s.keys.lookup id <;> simp

/-- The secrets of the account can be read when both texts can. -/
theorem accountSecrets_eq_ok {a : AccountSecrets} :
  s.accountSecrets = .ok a
    ↔ ∃ account, s.db.account = some account
      ∧ (textSealing tokenAad).read s.master account.token = .ok a.token
      ∧ ∃ bytes, decryptB64 s.master privateKeyAad account.wrappedPrivateKey = .ok bytes
        ∧ SymmetricKey.fromSlice bytes = .ok a.privateKey
  := by
  rw [OpenStore.accountSecrets]
  cases s.db.account with
  | none => simp [throw_eq_ok]
  | some account =>
      simp only [bind_eq_ok, lift_eq_ok, pure_eq_ok, Option.some.injEq, exists_eq_left']
      constructor
      · rintro ⟨token, htoken, bytes, hbytes, key, hkey, rfl⟩
        exact ⟨htoken, bytes, hbytes, hkey⟩
      · rintro ⟨htoken, bytes, hbytes, hkey⟩
        exact ⟨a.token, htoken, bytes, hbytes, a.privateKey, hkey, rfl⟩

/-- The secrets of the account that were sealed with a key are read with it. -/
theorem accountSecrets_sealed {a : AccountSecrets} {token wrapped : Nonce}
    (haccount : t.db.account = some ⟨encryptStr t.master tokenAad token a.token,
      encryptB64 t.master privateKeyAad wrapped a.privateKey.toList⟩) :
  t.accountSecrets = .ok a
  := by
  rw [accountSecrets_eq_ok]
  refine ⟨_, haccount, (textSealing tokenAad).read_write _ _ _, a.privateKey.toList,
    decryptB64_encryptB64, ?_⟩
  rw [SymmetricKey.fromSlice, dif_pos a.privateKey.length_toList]
  rfl

/-- A database between two keys is read with one of them, when its texts are. -/
theorem Between.reopens (hopen : s.db.open s.master = .ok s) (h : Between s new t)
    (hkeys : ∀ id r r', s.db.wrappedKeys.get? id = some r → t.db.wrappedKeys.get? id = some r' →
      ∀ key, (wrapSealing id).read s.master r.wrapped = .ok key →
        (wrapSealing id).read k r'.wrapped = .ok key)
    (hsettings : ∀ name text, s.secretMeta name = .ok (some text) →
      ∃ m', t.db.settings.get? name = some m'
        ∧ (textSealing (settingAad name)).read k m'.value = .ok text)
    (haccount : ∀ a, s.accountSecrets = .ok a → (OpenStore.mk k [] t.db).accountSecrets = .ok a) :
  s.Reopens k t.db
  := by
  have hunwrap := exists_open.mp ⟨s, hopen⟩
  have hopens : ∃ o, t.db.open k = .ok o := by
    rw [exists_open]
    intro id r' hr'
    have hrow := h.wrapped id
    rw [hr'] at hrow
    cases hr : s.db.wrappedKeys.get? id with
    | none =>
        rw [hr] at hrow
        cases hrow
    | some r =>
        obtain ⟨key, hkey⟩ := hunwrap id r hr
        exact ⟨key, hkeys id r r' hr hr' key hkey⟩
  obtain ⟨o, ho⟩ := hopens
  have hlookup : ∀ id, o.keys.lookup id = s.keys.lookup id := by
    intro id
    rw [lookup_of_open ho, lookup_of_open hopen]
    have hrow := h.wrapped id
    cases hr : s.db.wrappedKeys.get? id with
    | none =>
        rw [hr] at hrow
        cases hr' : t.db.wrappedKeys.get? id with
        | none => rfl
        | some r' =>
            rw [hr'] at hrow
            cases hrow
    | some r =>
        rw [hr] at hrow
        obtain ⟨key, hkey⟩ := hunwrap id r hr
        cases hr' : t.db.wrappedKeys.get? id with
        | none =>
            rw [hr'] at hrow
            cases hrow
        | some r' =>
            simp only [Option.bind_some, hkey, hkeys id r r' hr hr' key hkey]
  obtain ⟨keys, -, rfl⟩ := open_eq_ok.mp ho
  refine ⟨_, ho, ?_, ?_, ?_, ?_⟩
  · intro id key hkey
    rw [cachedKey_eq_ok] at hkey ⊢
    rw [hlookup]
    exact hkey
  · intro name text htext
    exact secretMeta_eq_ok.mpr (hsettings name text htext)
  · intro a ha
    rw [← haccount a ha]
    exact accountSecrets_congr rfl rfl
  · simp only [OpenStore.view, hlookup, h.contents]

/-- A store between two keys reads what its database does, opened with its key. -/
theorem Between.readsAs (h : Between s new t) (hreopens : s.Reopens t.master t.db) :
  s.ReadsAs t
  := by
  obtain ⟨o, ho, hreads⟩ := hreopens
  obtain ⟨keys, -, rfl⟩ := open_eq_ok.mp ho
  refine ⟨?_, ?_, ?_, ?_⟩
  · intro id key hkey
    rw [cachedKey_eq_ok] at hkey ⊢
    rw [h.keys]
    exact hkey
  · intro name text htext
    exact hreads.settings name text htext
  · intro a ha
    rw [← hreads.account a ha]
    exact accountSecrets_congr rfl rfl
  · simp only [OpenStore.view, h.keys, h.contents]

/-- Moving everything to the key it is under keeps it readable. -/
theorem Between.reopens_same (hopen : s.db.open s.master = .ok s) (h : Between s s.master t) :
  s.Reopens s.master t.db
  := by
  apply h.reopens hopen
  · intro id r r' hr hr' key hkey
    have hrow := h.wrapped id
    rw [hr, hr'] at hrow
    cases hrow with
    | some hresealed => exact hresealed.read_same hkey
  · intro name text htext
    obtain ⟨m, hm, hread⟩ := secretMeta_eq_ok.mp htext
    have hrow := h.settings name
    rw [hm] at hrow
    cases hm' : t.db.settings.get? name with
    | none =>
        rw [hm'] at hrow
        cases hrow
    | some m' =>
        rw [hm'] at hrow
        refine ⟨m', rfl, ?_⟩
        cases hrow with
        | some hresealed =>
            split at hresealed
            · exact hresealed.read_same hread
            · rw [hresealed]
              exact hread
  · intro a ha
    rcases h.account with hsame | ⟨a', token, wrapped, ha', haccount⟩
    · rw [← ha]
      exact accountSecrets_congr rfl hsame
    · rw [ha] at ha'
      cases ha'
      exact accountSecrets_sealed haccount

/-- A store with one vault key and nothing else is read with one of the keys. -/
theorem Between.reopens_lone (hopen : s.db.open s.master = .ok s) (hlone : s.Lone)
    (h : Between s new t) :
  s.Reopens s.master t.db ∨ s.Reopens new t.db
  := by
  obtain ⟨⟨x, hx⟩, hnone, hplain⟩ := hlone
  obtain ⟨keys, hkeys, hs⟩ := open_eq_ok.mp hopen
  have hids : [x.1] = s.db.wrappedKeys.rows.map WrappedKey.id := by
    have hmap := ids_of_loadKeys hkeys
    rw [← hs] at hx
    rwa [show keys = [x] from hx] at hmap
  have honly : ∀ id r, s.db.wrappedKeys.get? id = some r → id = x.1 := by
    intro id r hr
    have hmem := List.mem_map_of_mem (f := WrappedKey.id) (Table.mem_of_get? hr)
    rw [← hids, List.mem_singleton] at hmem
    rw [← hmem]
    exact (Table.key_of_get? hr).symm
  -- nothing else was readable, so only the one row decides
  have hreopens : ∀ k, (∀ r r', s.db.wrappedKeys.get? x.1 = some r →
      t.db.wrappedKeys.get? x.1 = some r' → ∀ key,
        (wrapSealing x.1).read s.master r.wrapped = .ok key →
          (wrapSealing x.1).read k r'.wrapped = .ok key) → s.Reopens k t.db := by
    intro k hrow
    apply h.reopens hopen
    · intro id r r' hr hr'
      obtain rfl := honly id r hr
      exact hrow r r' hr hr'
    · intro name text htext
      exact absurd htext (hplain name text)
    · intro a ha
      exact absurd ha (hnone a)
  have hrel := h.wrapped x.1
  cases hr : s.db.wrappedKeys.get? x.1 with
  | none =>
      apply Or.inl
      apply hreopens
      intro r r' hsome
      rw [hr] at hsome
      cases hsome
  | some r =>
      cases hr' : t.db.wrappedKeys.get? x.1 with
      | none =>
          rw [hr, hr'] at hrel
          cases hrel
      | some r' =>
          rw [hr, hr'] at hrel
          cases hrel with
          | some hresealed =>
              rcases hresealed with hkept | hmoved
              · apply Or.inl
                apply hreopens
                intro r₁ r₁' hr₁ hr₁' key hkey
                rw [hr] at hr₁
                rw [hr'] at hr₁'
                cases hr₁
                cases hr₁'
                rw [hkept]
                exact hkey
              · apply Or.inr
                apply hreopens
                intro r₁ r₁' hr₁ hr₁' key hkey
                rw [hr] at hr₁
                rw [hr'] at hr₁'
                cases hr₁
                cases hr₁'
                obtain ⟨key', hold, hnew⟩ := hmoved.read
                rw [hkey] at hold
                cases hold
                exact hnew

/-! ### The statements -/

theorem between_setMaster (h : Between s new t) : Between s new { t with master := k } :=
  ⟨h.keys, h.contents, h.wrapped, h.account, h.settings⟩

/-- Wrapping a key of the cache anew stays between the two keys. -/
theorem between_setWrappedKey {x : Uuid × SymmetricKey} (n : Nonce)
    (hopen : s.db.open s.master = .ok s) (hx : s.keys.lookup x.1 = some x.2)
    (h : Between s new t) :
  Between s new (t.setWrappedKey x.1 (wrapKey new (wrapAad x.1) n x.2))
  := by
  refine ⟨h.keys, h.contents, fun id => ?_, h.account, h.settings⟩
  have hrow := h.wrapped id
  rw [OpenStore.setWrappedKey, Table.get?_set]
  split
  · rename_i hid
    subst hid
    rw [lookup_of_open hopen] at hx
    cases hr : s.db.wrappedKeys.get? x.1 with
    | none =>
        rw [hr] at hx
        cases hx
    | some r =>
        rw [hr] at hrow hx
        cases hr' : t.db.wrappedKeys.get? x.1 with
        | none =>
            rw [hr'] at hrow
            cases hrow
        | some r' =>
            apply Option.Rel.some
            exact .inr ⟨n, x.2, toOption_eq_some.mp hx, rfl⟩
  · exact hrow

/-- There is an account to seal the secrets of, when they could be read. -/
theorem Between.setAccountSecrets_account {a : AccountSecrets} {token wrapped : String}
    (ha : s.accountSecrets = .ok a) (h : Between s new t) :
  (t.setAccountSecrets token wrapped).db.account = some ⟨token, wrapped⟩
  := by
  obtain ⟨account, haccount, -⟩ := accountSecrets_eq_ok.mp ha
  have hsome : ∃ account', t.db.account = some account' := by
    rcases h.account with hsame | ⟨_, _, _, _, hsealed⟩
    · exact ⟨account, hsame.trans haccount⟩
    · exact ⟨_, hsealed⟩
  obtain ⟨account', haccount'⟩ := hsome
  simp only [OpenStore.setAccountSecrets, haccount', Option.map_some]

/-- Sealing the secrets of the account anew stays between the two keys. -/
theorem between_setAccountSecrets {a : AccountSecrets} (token wrapped : Nonce)
    (ha : s.accountSecrets = .ok a) (h : Between s new t) :
  Between s new (t.setAccountSecrets (encryptStr new tokenAad token a.token)
    (encryptB64 new privateKeyAad wrapped a.privateKey.toList))
  := ⟨h.keys, h.contents, h.wrapped,
    .inr ⟨a, token, wrapped, ha, h.setAccountSecrets_account ha⟩, h.settings⟩

/-- Sealing a setting anew stays between the two keys. -/
theorem between_updateSetting {m : Setting} {text : String} (n : Nonce)
    (hm : m ∈ s.db.settings.rows) (hlike : OpenStore.likeSecret m.name = true)
    (hread : (textSealing (settingAad m.name)).read s.master m.value = .ok text)
    (h : Between s new t) :
  Between s new (t.updateSetting m.name (encryptStr new (settingAad m.name) n text))
  := by
  refine ⟨h.keys, h.contents, h.wrapped, h.account, fun name => ?_⟩
  have hrow := h.settings name
  rw [OpenStore.updateSetting, Table.get?_set]
  by_cases hname : name = m.name
  · subst hname
    have hget : s.db.settings.get? m.name = some m := Table.get?_of_mem hm
    rw [hget] at hrow ⊢
    rw [if_pos rfl]
    cases hm' : t.db.settings.get? m.name with
    | none =>
        rw [hm'] at hrow
        cases hrow
    | some m' =>
        apply Option.Rel.some
        rw [if_pos hlike]
        exact .inr ⟨n, text, hread, rfl⟩
  · rw [if_neg hname]
    exact hrow

/-- The key of a vault was moved. -/
def KeyMoved (s : OpenStore) (new : SymmetricKey) (t : OpenStore) (id : Uuid) : Prop :=
  ∃ r r', s.db.wrappedKeys.get? id = some r ∧ t.db.wrappedKeys.get? id = some r'
    ∧ (wrapSealing id).Moved s.master new r.wrapped r'.wrapped

/-- The secrets of the account were moved, if they could be read. -/
def AccountMoved (s : OpenStore) (new : SymmetricKey) (t : OpenStore) : Prop :=
  ∀ a, s.accountSecrets = .ok a → ∃ token wrappedPrivateKey,
    t.db.account = some ⟨encryptStr new tokenAad token a.token,
      encryptB64 new privateKeyAad wrappedPrivateKey a.privateKey.toList⟩

/-- A setting was moved. -/
def SettingMoved (s : OpenStore) (new : SymmetricKey) (t : OpenStore) (name : String) : Prop :=
  ∃ m m', s.db.settings.get? name = some m ∧ t.db.settings.get? name = some m'
    ∧ (textSealing (settingAad name)).Moved s.master new m.value m'.value

/-- The state of a change in which some vault keys are still to be moved. -/
def KeysLeft (s : OpenStore) (new : SymmetricKey) (order rest : List (Uuid × SymmetricKey))
    (t : OpenStore) : Prop :=
  Between s new t ∧ t.master = new ∧ ∀ x ∈ order, x ∈ rest ∨ KeyMoved s new t x.1

/-- The state of a change in which some settings are still to be moved. -/
def SettingsLeft (s : OpenStore) (new : SymmetricKey) (order : List (Uuid × SymmetricKey))
    (rest : List Setting) (t : OpenStore) : Prop :=
  Between s new t ∧ t.master = new ∧ (∀ x ∈ order, KeyMoved s new t x.1) ∧ AccountMoved s new t
    ∧ ∀ m ∈ s.db.settings.rows, OpenStore.likeSecret m.name = true →
      m ∈ rest ∨ SettingMoved s new t m.name

theorem triple_resealKeys (hopen : s.db.open s.master = .ok s)
    (horder : ∀ x ∈ order, s.keys.lookup x.1 = some x.2) :
  Triple (KeysLeft s new order order) (fun _ => Between s new) (resealKeys new nonce order)
    (fun _ => KeysLeft s new order [])
  := by
  apply Triple.each
  intro x rest hsuffix
  apply Triple.exec
  rintro t ⟨hbetween, hmaster, hmoved⟩
  have hx := horder x (hsuffix.subset (.head rest))
  have hafter := between_setWrappedKey (nonce (.vaultKey x.1)) hopen hx hbetween
  refine ⟨hafter, hafter, hmaster, ?_⟩
  intro y hy
  by_cases hxy : y.1 = x.1
  · apply Or.inr
    have hrow := hbetween.wrapped x.1
    rw [lookup_of_open hopen] at hx
    cases hr : s.db.wrappedKeys.get? x.1 with
    | none =>
        rw [hr] at hx
        cases hx
    | some r =>
        rw [hr] at hrow hx
        cases hr' : t.db.wrappedKeys.get? x.1 with
        | none =>
            rw [hr'] at hrow
            cases hrow
        | some r' =>
            rw [hxy]
            refine ⟨r, { r' with wrapped := wrapKey new (wrapAad x.1) (nonce (.vaultKey x.1)) x.2 },
              hr, ?_, nonce (.vaultKey x.1), x.2, toOption_eq_some.mp hx, rfl⟩
            rw [OpenStore.setWrappedKey, Table.get?_set, if_pos rfl, hr']
            rfl
  · rcases hmoved y hy with hleft | ⟨r, r', hr, hr', hmove⟩
    · rcases List.mem_cons.mp hleft with rfl | hrest
      · exact absurd rfl hxy
      · exact .inl hrest
    · apply Or.inr
      refine ⟨r, r', hr, ?_, hmove⟩
      rw [OpenStore.setWrappedKey, Table.get?_set, if_neg hxy]
      exact hr'

theorem triple_resealAccount :
  Triple (KeysLeft s new order []) (fun _ => Between s new)
    (resealAccount new nonce s.accountSecrets.toOption)
    (fun _ => SettingsLeft s new order
      (s.db.settings.select (fun m => OpenStore.likeSecret m.name)))
  := by
  have hselected : ∀ m ∈ s.db.settings.rows, OpenStore.likeSecret m.name = true →
      m ∈ s.db.settings.select (fun m => OpenStore.likeSecret m.name) :=
    fun m hm hlike => List.mem_filter.mpr ⟨hm, hlike⟩
  cases ha : s.accountSecrets with
  | error e =>
      apply Triple.ret
      rintro t ⟨hbetween, hmaster, hmoved⟩
      refine ⟨hbetween, hmaster, ?_, ?_, fun m hm hlike => .inl (hselected m hm hlike)⟩
      · intro x hx
        exact (hmoved x hx).resolve_left List.not_mem_nil
      · intro a ha'
        rw [ha] at ha'
        cases ha'
  | ok a =>
      apply Triple.exec
      rintro t ⟨hbetween, hmaster, hmoved⟩
      have hafter := between_setAccountSecrets (nonce .token) (nonce .privateKey) ha hbetween
      refine ⟨hafter, hafter, hmaster, ?_, ?_, fun m hm hlike => .inl (hselected m hm hlike)⟩
      · intro x hx
        exact (hmoved x hx).resolve_left List.not_mem_nil
      · intro a' ha'
        rw [ha] at ha'
        cases ha'
        exact ⟨_, _, hbetween.setAccountSecrets_account ha⟩

theorem triple_resealSettings (settings : List Setting)
    (hsettings : ∀ m ∈ settings, m ∈ s.db.settings.rows ∧ OpenStore.likeSecret m.name = true) :
  Triple (SettingsLeft s new order settings) (fun _ => Between s new)
    (resealSettings s.master new nonce settings) (fun _ => SettingsLeft s new order [])
  := by
  apply Triple.each
  intro m rest hsuffix
  apply Triple.attempt
  rintro t t' ⟨hbetween, hmaster, hkeys, haccount, hmoved⟩ hstep
  obtain ⟨hm, hlike⟩ := hsettings m (hsuffix.subset (.head rest))
  obtain ⟨text, htext, hstep⟩ := bind_eq_ok.mp hstep
  obtain rfl := pure_eq_ok.mp hstep
  have hread := lift_eq_ok.mp htext
  have hafter := between_updateSetting (nonce (.setting m.name)) hm hlike hread hbetween
  refine ⟨hafter, hafter, hmaster, hkeys, haccount, ?_⟩
  intro m' hm' hlike'
  by_cases hname : m'.name = m.name
  · obtain rfl := Table.eq_of_mem hm' hm hname
    apply Or.inr
    have hget : s.db.settings.get? m'.name = some m' := Table.get?_of_mem hm
    have hrow := hbetween.settings m'.name
    rw [hget] at hrow
    cases hafter' : t.db.settings.get? m'.name with
    | none =>
        rw [hafter'] at hrow
        cases hrow
    | some m₁ =>
        refine ⟨m', { m₁ with value := _ }, hget, ?_, nonce (.setting m'.name), text, hread, rfl⟩
        rw [OpenStore.updateSetting, Table.get?_set, if_pos rfl, hafter']
        rfl
  · rcases hmoved m' hm' hlike' with hleft | ⟨m₀, m₁, hm₀, hm₁, hmove⟩
    · rcases List.mem_cons.mp hleft with rfl | hrest
      · exact absurd rfl hname
      · exact .inl hrest
    · apply Or.inr
      refine ⟨m₀, m₁, hm₀, ?_, hmove⟩
      rw [OpenStore.updateSetting, Table.get?_set, if_neg hname]
      exact hm₁

/-- A change of the master key stays between the two keys, and has moved everything it finds when it
returns normally. -/
theorem triple_rekey (hopen : s.db.open s.master = .ok s)
    (horder : ∀ x ∈ order, s.keys.lookup x.1 = some x.2) :
  Triple (fun t => t = s) (fun _ => Between s new) (rekey new order nonce)
    (fun _ => SettingsLeft s new order [])
  := by
  rw [rekey]
  simp only [bind_eq_andThen]
  refine Triple.andThen (Q := fun s₀ t => s₀ = t ∧ t = s) Triple.read ?_
  intro s₀ t ht
  obtain ⟨rfl, rfl⟩ := ht
  refine Triple.andThen (P := fun t => t = s₀) (Q := fun _ => KeysLeft s₀ new order order) ?_ ?_ s₀
    rfl
  · apply Triple.exec
    rintro t rfl
    have hafter : Between t new { t with master := new } := between_setMaster (between_refl new)
    exact ⟨hafter, hafter, rfl, fun x hx => .inl hx⟩
  · intro _
    apply (triple_resealKeys hopen horder).andThen
    intro _
    apply triple_resealAccount.andThen
    intro _
    apply triple_resealSettings
    intro m hm
    exact List.mem_filter.mp hm

theorem between_of_mem_stops (hopen : s.db.open s.master = .ok s)
    (horder : ∀ x ∈ order, s.keys.lookup x.1 = some x.2)
    (ht : t ∈ (rekey new order nonce).stops s) :
  Between s new t
  := (triple_rekey hopen horder).at_stops rfl (between_refl new) (fun _ _ _ h => h) ht

/-! ### Completeness -/

/-- Everything that was moved is read with the new key, when every secret setting was. -/
theorem SettingsLeft.reopens (hopen : s.db.open s.master = .ok s) (hnames : s.NamesSecrets)
    (hall : ∀ id key, s.keys.lookup id = some key → (id, key) ∈ order)
    (h : SettingsLeft s new order [] t) :
  s.Reopens new t.db
  := by
  obtain ⟨hbetween, -, hkeys, haccount, hsettings⟩ := h
  apply hbetween.reopens hopen
  · intro id r r' hr hr' key hkey
    have hlookup : s.keys.lookup id = some key := by
      rw [lookup_of_open hopen, hr, Option.bind_some, toOption_eq_some]
      exact hkey
    obtain ⟨r₀, r₀', hr₀, hr₀', hmove⟩ := hkeys (id, key) (hall id key hlookup)
    rw [hr] at hr₀
    rw [hr'] at hr₀'
    cases hr₀
    cases hr₀'
    obtain ⟨key', hold, hnew⟩ := hmove.read
    rw [hkey] at hold
    cases hold
    exact hnew
  · intro name text htext
    obtain ⟨m, hm, hread⟩ := secretMeta_eq_ok.mp htext
    obtain rfl : m.name = name := Table.key_of_get? hm
    obtain ⟨m₀, m', hm₀, hm', hmove⟩ := (hsettings m (Table.mem_of_get? hm)
      (hnames m.name text htext)).resolve_left List.not_mem_nil
    rw [hm] at hm₀
    cases hm₀
    obtain ⟨text', hold, hnew⟩ := hmove.read
    rw [hread] at hold
    cases hold
    exact ⟨m', hm', hnew⟩
  · intro a ha
    obtain ⟨token, wrapped, hsealed⟩ := haccount a ha
    exact accountSecrets_sealed hsealed

/-- Nothing is left under another key then. -/
theorem SettingsLeft.not_sealedUnder (hopen : s.db.open s.master = .ok s) (hnames : s.NamesSecrets)
    (hall : ∀ id key, s.keys.lookup id = some key → (id, key) ∈ order) (hne : new ≠ s.master)
    (h : SettingsLeft s new order [] t) :
  ¬ t.db.SealedUnder s.master
  := by
  obtain ⟨hbetween, -, hkeys, haccount, hsettings⟩ := h
  rintro (⟨r', hr', key', hread⟩ | ⟨m', hm', text', hread⟩ | ⟨a', hread⟩)
  · have hget : t.db.wrappedKeys.get? r'.id = some r' := Table.get?_of_mem hr'
    have hrow := hbetween.wrapped r'.id
    rw [hget] at hrow
    cases hr : s.db.wrappedKeys.get? r'.id with
    | none =>
        rw [hr] at hrow
        cases hrow
    | some r =>
        obtain ⟨key, hkey⟩ := exists_open.mp ⟨s, hopen⟩ r'.id r hr
        have hlookup : s.keys.lookup r'.id = some key := by
          rw [lookup_of_open hopen, hr, Option.bind_some, toOption_eq_some]
          exact hkey
        obtain ⟨r₀, r₀', -, hr₀', hmove⟩ := hkeys (r'.id, key) (hall r'.id key hlookup)
        rw [hget] at hr₀'
        cases hr₀'
        exact hne (hmove.key hread).symm
  · have hget : t.db.settings.get? m'.name = some m' := Table.get?_of_mem hm'
    have hrow := hbetween.settings m'.name
    rw [hget] at hrow
    cases hm : s.db.settings.get? m'.name with
    | none =>
        rw [hm] at hrow
        cases hrow
    | some m =>
        rw [hm] at hrow
        have hname : m.name = m'.name := Table.key_of_get? hm
        by_cases hlike : OpenStore.likeSecret m'.name = true
        · obtain ⟨m₀, m₀', -, hm₀', hmove⟩ := (hsettings m (Table.mem_of_get? hm)
            (by rw [hname]; exact hlike)).resolve_left List.not_mem_nil
          rw [hname, hget] at hm₀'
          cases hm₀'
          rw [hname] at hmove
          exact hne (hmove.key hread).symm
        · cases hrow with
          | some hsame =>
              rw [if_neg hlike] at hsame
              rw [hsame] at hread
              exact hlike (hnames m'.name text' (secretMeta_eq_ok.mpr ⟨m, hm, hread⟩))
  · have hsealed : ∃ (a : AccountSecrets) (token wrapped : Nonce), t.db.account
        = some ⟨encryptStr new tokenAad token a.token,
          encryptB64 new privateKeyAad wrapped a.privateKey.toList⟩ := by
      rcases hbetween.account with hsame | ⟨a, token, wrapped, -, hsealed⟩
      · have hsource : s.accountSecrets = .ok a' := by
          rw [← hread]
          exact accountSecrets_congr rfl hsame.symm
        obtain ⟨token, wrapped, hsealed⟩ := haccount a' hsource
        exact ⟨a', token, wrapped, hsealed⟩
      · exact ⟨a, token, wrapped, hsealed⟩
    obtain ⟨a, token, wrapped, hsealed⟩ := hsealed
    obtain ⟨account, haccount', htoken, -⟩ := accountSecrets_eq_ok.mp hread
    rw [hsealed] at haccount'
    cases haccount'
    have hnew := (textSealing tokenAad).read_write new token a.token
    exact hne ((textSealing tokenAad).key_unique new s.master _ a.token a'.token hnew htoken).symm

theorem nodup_keys (hopen : s.db.open s.master = .ok s) :
  (s.keys.map Prod.fst).Nodup
  := by
  obtain ⟨keys, hkeys, hs⟩ := open_eq_ok.mp hopen
  rw [← hs, ids_of_loadKeys hkeys]
  exact s.db.wrappedKeys.nodup

/-- The cache has the keys that a change visits. -/
theorem lookup_of_perm (hopen : s.db.open s.master = .ok s) (h : order.Perm s.keys)
    (x : Uuid × SymmetricKey) :
  x ∈ order ↔ s.keys.lookup x.1 = some x.2
  := by
  have hnodup := nodup_keys hopen
  rw [h.mem_iff]
  generalize s.keys = l at hnodup
  induction l with
  | nil => simp
  | cons y l ih =>
      rw [List.map_cons, List.nodup_cons] at hnodup
      have hrest := ih hnodup.2
      rw [List.mem_cons, List.lookup_cons]
      by_cases hid : x.1 = y.1
      · have hbeq : (x.1 == y.1) = true := beq_iff_eq.mpr hid
        rw [hbeq]
        constructor
        · rintro (rfl | hmem)
          · rfl
          · exact absurd (List.mem_map_of_mem (f := Prod.fst) hmem) (by rw [hid]; exact hnodup.1)
        · intro hsome
          exact .inl (Prod.ext hid (Option.some.inj hsome).symm)
      · have hbeq : (x.1 == y.1) = false := beq_eq_false_iff_ne.mpr hid
        rw [hbeq]
        constructor
        · rintro (rfl | hmem)
          · exact absurd rfl hid
          · exact hrest.mp hmem
        · intro hsome
          exact .inr (hrest.mpr hsome)

/-- A change that returns normally is complete exactly when every secret setting has a name that it
looks for. -/
theorem rekeyComplete_iff (hopen : s.db.open s.master = .ok s) (h : order.Perm s.keys)
    (hok : (rekey new order nonce).result s = .ok ()) :
  RekeyComplete s new order nonce ↔ new = s.master ∨ s.NamesSecrets
  := by
  have horder := fun x => lookup_of_perm hopen h x
  have hrun : Triple (fun t => t = s) (fun _ => Between s new) (rekey new order nonce)
      (fun _ => SettingsLeft s new order []) :=
    triple_rekey hopen (fun x hx => (horder x).mp hx)
  have hfinished := (hrun s rfl).2 () hok
  have hbetween := hfinished.1
  constructor
  · intro hcomplete
    by_cases hsame : new = s.master
    · exact .inl hsame
    · apply Or.inr
      intro name text htext
      by_contra hlike
      obtain ⟨m, hm, hread⟩ := secretMeta_eq_ok.mp htext
      obtain ⟨m', hm', hread'⟩ := secretMeta_eq_ok.mp ((hcomplete hok).1.settings name text htext)
      have hrow := hbetween.settings name
      rw [hm, hm'] at hrow
      cases hrow with
      | some hkept =>
          rw [if_neg hlike] at hkept
          rw [hkept, hfinished.2.1] at hread'
          exact hsame ((textSealing (settingAad name)).key_unique _ _ _ _ _ hread hread')
  · intro hcond _
    have hall : ∀ id key, s.keys.lookup id = some key → (id, key) ∈ order :=
      fun id key hkey => (horder (id, key)).mpr hkey
    have hreads := hbetween.readsAs
    rw [hfinished.2.1] at hreads
    rcases hcond with hsame | hnames
    · subst hsame
      have hreopens := hbetween.reopens_same hopen
      exact ⟨hreads hreopens, hreopens, fun hne => absurd rfl hne⟩
    · have hreopens := hfinished.reopens hopen hnames hall
      exact ⟨hreads hreopens, hreopens, fun hne => hfinished.not_sealedUnder hopen hnames hall hne⟩

/-! ### Atomicity -/

/-- The moment at which the first vault key has been moved, and nothing else. -/
theorem first_mem_stops {x : Uuid × SymmetricKey} {rest : List (Uuid × SymmetricKey)} :
  ({ s with master := new } : OpenStore).setWrappedKey x.1
      (wrapKey new (wrapAad x.1) (nonce (.vaultKey x.1)) x.2)
    ∈ (rekey new (x :: rest) nonce).stops s
  := by
  rw [rekey]
  simp only [bind_eq_andThen]
  apply mem_stops_andThen_right (result_read s)
  rw [final_read]
  apply mem_stops_andThen_right (result_exec s _)
  rw [final_exec]
  apply mem_stops_andThen_left
  rw [resealKeys, each]
  apply mem_stops_andThen_left
  rw [stops_exec]
  exact .tail _ (.head _)

/-- Once a vault key has been moved, the database does not open with the old key. -/
theorem not_reopens_old {x : Uuid × SymmetricKey} {n : Nonce}
    (hopen : s.db.open s.master = .ok s) (hne : new ≠ s.master)
    (h : s.Reopens s.master (({ s with master := new } : OpenStore).setWrappedKey x.1
      (wrapKey new (wrapAad x.1) n x.2)).db) :
  s.keys.lookup x.1 ≠ some x.2
  := by
  intro hx
  obtain ⟨o, ho, -⟩ := h
  rw [lookup_of_open hopen] at hx
  cases hr : s.db.wrappedKeys.get? x.1 with
  | none =>
      rw [hr] at hx
      cases hx
  | some r =>
      have hunwrap := exists_open.mp ⟨o, ho⟩ x.1
        { r with wrapped := wrapKey new (wrapAad x.1) n x.2 }
      rw [OpenStore.setWrappedKey, Table.get?_set, if_pos rfl, hr] at hunwrap
      obtain ⟨key, hkey⟩ := hunwrap rfl
      have hnew := (wrapSealing x.1).read_write new n x.2
      exact hne ((wrapSealing x.1).key_unique new s.master _ _ _ hnew hkey).symm

/-- When it opens with the new key and nothing is lost, nothing else was sealed. -/
theorem lone_of_reopens_new {x : Uuid × SymmetricKey} {rest : List (Uuid × SymmetricKey)}
    {n : Nonce}
    (hopen : s.db.open s.master = .ok s) (hperm : (x :: rest).Perm s.keys) (hne : new ≠ s.master)
    (h : s.Reopens new (({ s with master := new } : OpenStore).setWrappedKey x.1
      (wrapKey new (wrapAad x.1) n x.2)).db) :
  s.Lone
  := by
  obtain ⟨o, ho, hreads⟩ := h
  have hunwrap := exists_open.mp ⟨o, ho⟩
  obtain ⟨keys, -, rfl⟩ := open_eq_ok.mp ho
  refine ⟨?_, ?_, ?_⟩
  · cases rest with
    | nil => exact ⟨x, (List.perm_singleton.mp hperm.symm)⟩
    | cons y rest =>
        have hnodup := (hperm.map Prod.fst).nodup_iff.mpr (nodup_keys hopen)
        have hother : y.1 ≠ x.1 := by
          intro heq
          simp [heq] at hnodup
        have hy := (lookup_of_perm hopen hperm y).mp (.tail x (.head rest))
        rw [lookup_of_open hopen] at hy
        cases hr : s.db.wrappedKeys.get? y.1 with
        | none =>
            rw [hr] at hy
            cases hy
        | some r =>
            rw [hr] at hy
            have hkept := hunwrap y.1 r
            rw [OpenStore.setWrappedKey, Table.get?_set, if_neg hother] at hkept
            obtain ⟨key, hkey⟩ := hkept hr
            have hold := toOption_eq_some.mp hy
            exact absurd ((wrapSealing y.1).key_unique s.master new _ _ _ hold hkey) hne
  · intro a ha
    obtain ⟨account, haccount, hold, -⟩ := accountSecrets_eq_ok.mp ha
    obtain ⟨account', haccount', hnew, -⟩ := accountSecrets_eq_ok.mp (hreads.account a ha)
    have hsame : account' = account := Option.some.inj (haccount'.symm.trans haccount)
    rw [hsame] at hnew
    exact hne ((textSealing tokenAad).key_unique s.master new _ _ _ hold hnew)
  · intro name text htext
    obtain ⟨m, hm, hold⟩ := secretMeta_eq_ok.mp htext
    obtain ⟨m', hm', hnew⟩ := secretMeta_eq_ok.mp (hreads.settings name text htext)
    have hsame : m' = m := Option.some.inj (hm'.symm.trans hm)
    rw [hsame] at hnew
    exact hne ((textSealing (settingAad name)).key_unique s.master new _ _ _ hold hnew)

/-- Everything is readable with one of two different keys wherever the change can stop exactly when
one vault key is all that is sealed. -/
theorem rekeyAtomic_iff (hopen : s.db.open s.master = .ok s) (h : order.Perm s.keys)
    (hsome : s.keys ≠ []) :
  RekeyAtomic s new order nonce ↔ new = s.master ∨ s.Lone
  := by
  have horder := fun x => lookup_of_perm hopen h x
  constructor
  · intro hatomic
    by_cases hsame : new = s.master
    · exact .inl hsame
    · apply Or.inr
      cases order with
      | nil => exact absurd h.symm.eq_nil hsome
      | cons x rest =>
          have hx := (horder x).mp (.head rest)
          rcases hatomic _ first_mem_stops with hreopens | hreopens
          · exact absurd hx (not_reopens_old hopen hsame hreopens)
          · exact lone_of_reopens_new hopen h hsame hreopens
  · rintro (rfl | hlone) t ht
    · have hbetween := between_of_mem_stops hopen (fun x hx => (horder x).mp hx) ht
      exact .inl (hbetween.reopens_same hopen)
    · have hbetween := between_of_mem_stops hopen (fun x hx => (horder x).mp hx) ht
      exact hbetween.reopens_lone hopen hlone

/-- A change of the master key is complete and atomic exactly when the key does not change, or one
vault key is all that is sealed. -/
theorem rekey_completeAndAtomic_iff (s : OpenStore) (new : SymmetricKey)
    (order : List (Uuid × SymmetricKey)) (nonce : Secret → Nonce)
    (hopen : s.db.open s.master = .ok s) (h : order.Perm s.keys) (hsome : s.keys ≠ []) :
  (RekeyComplete s new order nonce ∧ RekeyAtomic s new order nonce) ↔ new = s.master ∨ s.Lone
  := by
  rw [rekeyAtomic_iff hopen h hsome]
  constructor
  · exact And.right
  · intro hcond
    refine ⟨?_, hcond⟩
    intro hok
    apply (rekeyComplete_iff hopen h hok).mpr _ hok
    rcases hcond with hsame | hlone
    · exact .inl hsame
    · exact .inr (fun name text htext => absurd htext (hlone.settings name text))

end

section
open Symbolic

/-- A device with its local vault and nothing else. -/
def localDevice : OpenStore where
  master := vaultKey 1
  keys := [(0, vaultKey 7)]
  db :=
    { wrappedKeys := ⟨[⟨0, wrapKey (vaultKey 1) (wrapAad 0) nonce (vaultKey 7)⟩], by simp⟩
      account := none
      settings := .empty
      contents := { Store.empty with
        vaults := ⟨[⟨0, .local, "Local", none, .manager, none, 1, 0, false, 0, false⟩], by simp⟩ } }

/-- The cache of one vault key. -/
theorem loadKeys_singleton [Primitives] {master key : SymmetricKey} {r : WrappedKey}
    (h : unwrapKey master (wrapAad r.id) r.wrapped = .ok key) :
  loadKeys master [r] = .ok [(r.id, key)]
  := by
  rw [loadKeys, h]
  rfl

theorem open_localDevice : localDevice.db.open localDevice.master = .ok localDevice := by
  have hread := (wrapSealing 0).read_write (vaultKey 1) nonce (vaultKey 7)
  exact open_eq_ok.mpr ⟨_, loadKeys_singleton hread, rfl⟩

/-- A device with one vault key can change its master key. -/
theorem rekey_completeAndAtomic_localDevice :
  RekeyComplete localDevice (vaultKey 2) [(0, vaultKey 7)] (fun _ => nonce)
    ∧ RekeyAtomic localDevice (vaultKey 2) [(0, vaultKey 7)] (fun _ => nonce)
  := by
  apply (rekey_completeAndAtomic_iff localDevice (vaultKey 2) [(0, vaultKey 7)] (fun _ => nonce)
    open_localDevice (List.Perm.refl _) (by simp [localDevice])).mpr
  apply Or.inr
  refine ⟨⟨(0, vaultKey 7), rfl⟩, ?_, ?_⟩
  · rintro a ⟨⟩
  · rintro name text ⟨⟩

/-- The device keys of a signed-in account are stored in the device. -/
def deviceWithKeys : OpenStore := localDevice.setSecretMeta OpenStore.KEYS_META "[]" nonce

/-- They are lost when the master key changes. -/
theorem not_rekeyComplete_deviceWithKeys :
  ¬ (RekeyComplete deviceWithKeys (vaultKey 2) [(0, vaultKey 7)] (fun _ => nonce)
    ∧ RekeyAtomic deviceWithKeys (vaultKey 2) [(0, vaultKey 7)] (fun _ => nonce))
  := by
  rintro ⟨hcomplete, -⟩
  have hopen : deviceWithKeys.db.open deviceWithKeys.master = .ok deviceWithKeys := by
    obtain ⟨keys, hkeys, hlocal⟩ := open_eq_ok.mp open_localDevice
    refine open_eq_ok.mpr ⟨keys, hkeys, ?_⟩
    have hsame : keys = localDevice.keys := by rw [← hlocal]
    rw [hsame]
    rfl
  rcases (rekeyComplete_iff hopen (List.Perm.refl _) rfl).mp hcomplete with hsame | hnames
  · revert hsame
    decide
  · have hsecret : deviceWithKeys.secretMeta OpenStore.KEYS_META = .ok (some "[]") :=
      secretMeta_eq_ok.mpr ⟨_, rfl, (textSealing _).read_write _ _ _⟩
    have hlike := hnames _ _ hsecret
    revert hlike
    decide

end

end Termoso.Core
