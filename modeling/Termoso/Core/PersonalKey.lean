import Termoso.Core.Mirror
import Termoso.Lib.Transition

/-!
# The key of the personal vault

A device that holds the key of its personal vault mirrors one vault list after another, each of
them up to some statement.  The server chooses the lists.

A rotation is refused when the list says that the vault is personal and the envelope is
anonymous.  The list is not compared with the kind recorded: calling the vault a team vault
gets a key of the server accepted.  Runs in which every key that the lists offer for a newer
version comes in a self-authenticated envelope, or is refused, keep the key.
-/

namespace Termoso.Core

open Script

section
variable [Boxes] {privateKey : KeyPair} {p : Uuid} {s s' : Store} {v : Vault}
  {old new : Option (SymmetricKey × ℤ)}

/-! ### One vault of the list -/

/-- A statement leaves the key as it is, or makes `old` into `new`. -/
def Replaces (p : Uuid) (old new : Option (SymmetricKey × ℤ)) (s s' : Store) : Prop :=
  s'.heldPair p = s.heldPair p ∨ s.heldPair p = old ∧ s'.heldPair p = new

omit [Boxes] in
/-- Re-encryption leaves the keys alone. -/
theorem triple_reencryptVault_heldPair [Primitives] {id : Uuid} {oldKey : SymmetricKey}
    {nonce : Uuid → Nonce} {cur : Option (SymmetricKey × ℤ)} :
  Triple (fun s => s.heldPair p = cur) (Replaces p old new) (Store.reencryptVault id oldKey nonce)
    (fun _ s => s.heldPair p = cur)
  := by
  apply Store.triple_reencryptVault (I := fun _ _ _ s => s.heldPair p = cur)
  · exact fun _ _ _ hs _ _ => hs
  · exact fun _ _ _ _ _ hs _ => hs
  · intro newKey keyVersion r rows s bytes plaintext hs _ _
    exact ⟨.inl (Store.heldPair_of_vaults rfl), hs⟩
  · exact fun _ _ _ hs => hs

/-- Mirroring a vault changes the key of `p` when the vault is `p`, to the key decided. -/
theorem triple_mirrorVault_heldPair {s₀ : Store} {nonce : Uuid → Nonce}
    {cur : Option (SymmetricKey × ℤ)}
    (hself : v.id = p → cur = s₀.heldPair p
      ∧ (pairAfter privateKey v cur = cur ∨ cur = old ∧ pairAfter privateKey v cur = new)) :
  Triple (fun s => s.heldPair p = cur) (Replaces p old new)
    (mirrorVault privateKey s₀.listVaults nonce v)
    (fun _ s => s.heldPair p = if v.id = p then pairAfter privateKey v cur else cur)
  := by
  apply triple_mirrorVault (A := fun _ s =>
    s.heldPair p = if v.id = p then pairAfter privateKey v cur else cur)
  · intro held s s' hs hheld hupsert
    rw [Store.find?_listVaults] at hheld
    by_cases hv : v.id = p
    · subst hv
      obtain ⟨hcur, hdecided⟩ := hself rfl
      obtain rfl := Store.heldKey_eq_ok hheld (hs.trans hcur)
      have hnew := Store.heldPair_upsertVault hupsert
      rw [hs] at hnew
      rw [if_pos rfl]
      refine ⟨?_, hnew⟩
      rcases hdecided with h | ⟨hold, h⟩
      · exact .inl ((hnew.trans h).trans hs.symm)
      · exact .inr ⟨hs.trans hold, hnew.trans h⟩
    · have hsame : s'.heldPair p = s.heldPair p := by
        apply Store.heldPair_congr
        rw [(Store.upsertVault_eq_ok hupsert).1, if_neg (Ne.symm hv)]
      rw [if_neg hv]
      exact ⟨.inl hsame, hsame.trans hs⟩
  · intro _ s hs
    exact ⟨.inl Store.heldPair_setVaultSessionLogging,
      Store.heldPair_setVaultSessionLogging.trans hs⟩
  · intro _ s hs
    exact ⟨.inl Store.heldPair_setVaultDefault, Store.heldPair_setVaultDefault.trans hs⟩
  · exact fun _ _ _ hs => hs
  · exact fun _ _ _ => triple_reencryptVault_heldPair

/-- Mirroring a vault whose key is not replaced keeps the key of `p`. -/
theorem triple_mirrorVault_kept {s₀ : Store} {nonce : Uuid → Nonce}
    (hkeep : v.id = p → pairAfter privateKey v (s₀.heldPair p) = s₀.heldPair p) :
  Triple (fun s => s.heldPair p = s₀.heldPair p) (Replaces p old new)
    (mirrorVault privateKey s₀.listVaults nonce v) (fun _ s => s.heldPair p = s₀.heldPair p)
  := by
  apply (triple_mirrorVault_heldPair (fun hid => ⟨rfl, .inl (hkeep hid)⟩)).post
  intro _ s hs
  split at hs
  · rename_i hid
    exact hs.trans (hkeep hid)
  · exact hs

/-! ### The whole list -/

variable {remote before after : List Vault} {nonce : ℕ → Uuid → Nonce}

/-- A pass over a list none of whose entries changes the key of `p` keeps it, unless the list does
not have `p`. -/
theorem heldPair_of_kept
    (hkeep : ∀ v ∈ remote, v.id = p → pairAfter privateKey v (s.heldPair p) = s.heldPair p)
    (hs' : s' ∈ (applyVaultList privateKey remote nonce).stops s) :
  s'.heldPair p = s.heldPair p ∨ s'.heldPair p = none
  := by
  have hmirror : Triple (fun s' => s'.heldPair p = s.heldPair p)
      (Replaces p (s.heldPair p) none)
      (mirrorVaults privateKey s.listVaults nonce remote)
      (fun _ s' => s'.heldPair p = s.heldPair p ∨ s'.heldPair p = none) := by
    apply (triple_mirrorVaults (I := fun _ s' => s'.heldPair p = s.heldPair p) _).post
    · exact fun _ _ h => .inl h
    · intro v _ nonce hsuffix
      exact triple_mirrorVault_kept (hkeep v (hsuffix.mem List.mem_cons_self))
  have hdrop : Triple (fun s' => s'.heldPair p = s.heldPair p ∨ s'.heldPair p = none)
      (Replaces p (s.heldPair p) none) (dropVaults remote s.listVaults)
      (fun _ s' => s'.heldPair p = s.heldPair p ∨ s'.heldPair p = none) := by
    apply triple_dropVaults (I := fun _ s' => s'.heldPair p = s.heldPair p ∨ s'.heldPair p = none)
    intro l _ _ s₁ s₂ hs₁ hremove
    obtain ⟨hget, -⟩ := Store.removeVault_eq_ok hremove
    by_cases hl : p = l.id
    · have hnone : s₂.heldPair p = none := by
        rw [Store.heldPair, hget, if_pos hl]
        rfl
      rcases hs₁ with h | h
      · exact ⟨.inr ⟨h, hnone⟩, .inr hnone⟩
      · exact ⟨.inl (hnone.trans h.symm), .inr hnone⟩
    · have hsame : s₂.heldPair p = s₁.heldPair p := by
        apply Store.heldPair_congr
        rw [hget, if_neg hl]
      rw [hsame]
      exact ⟨.inl hsame, hs₁⟩
  apply (triple_applyVaultList hmirror hdrop).at_stops ⟨rfl, rfl⟩ (.inl rfl) _ hs'
  rintro s₁ s₂ hs₁ (h | ⟨-, h⟩)
  · rw [h]
    exact hs₁
  · exact .inr h

/-- A pass over a list the last of whose entries for `p` changes the key leaves the key held or the
key decided. -/
theorem heldPair_of_replaced (hv : v.id = p)
    (hbefore : ∀ w ∈ before, w.id = p → pairAfter privateKey w (s.heldPair p) = s.heldPair p)
    (hafter : ∀ w ∈ after, w.id ≠ p)
    (hs' : s' ∈ (applyVaultList privateKey (before ++ v :: after) nonce).stops s) :
  s'.heldPair p = s.heldPair p ∨ s'.heldPair p = pairAfter privateKey v (s.heldPair p)
  := by
  have hmirror : Triple (fun s' => s'.heldPair p = s.heldPair p)
      (Replaces p (s.heldPair p) (pairAfter privateKey v (s.heldPair p)))
      (mirrorVaults privateKey s.listVaults nonce (before ++ v :: after))
      (fun _ s' => s'.heldPair p = pairAfter privateKey v (s.heldPair p)) := by
    apply triple_mirrorVaults_at
    · intro w hw nonce
      exact triple_mirrorVault_kept (hbefore w hw)
    · intro nonce
      apply (triple_mirrorVault_heldPair (fun _ => ⟨rfl, .inr ⟨rfl, rfl⟩⟩)).post
      intro _ s' hs'
      rw [if_pos hv] at hs'
      exact hs'
    · intro w hw nonce
      apply (triple_mirrorVault_heldPair (fun hid => absurd hid (hafter w hw))).post
      intro _ s' hs'
      rw [if_neg (hafter w hw)] at hs'
      exact hs'
  have hdrop : Triple (fun s' => s'.heldPair p = pairAfter privateKey v (s.heldPair p))
      (Replaces p (s.heldPair p) (pairAfter privateKey v (s.heldPair p)))
      (dropVaults (before ++ v :: after) s.listVaults)
      (fun _ s' => s'.heldPair p = pairAfter privateKey v (s.heldPair p)) := by
    apply triple_dropVaults (I := fun _ s' => s'.heldPair p = pairAfter privateKey v (s.heldPair p))
    intro l _ hsuffix s₁ s₂ hs₁ hremove
    have hsame : s₂.heldPair p = s₁.heldPair p := by
      apply Store.heldPair_congr
      rw [(Store.removeVault_eq_ok hremove).1, if_neg]
      intro heq
      exact (mem_unlisted.mp (hsuffix.mem List.mem_cons_self)).2.2 v (by simp) (hv.trans heq)
    exact ⟨.inl hsame, hsame.trans hs₁⟩
  apply (triple_applyVaultList hmirror hdrop).at_stops ⟨rfl, rfl⟩ (.inl rfl) _ hs'
  rintro s₁ s₂ hs₁ (h | ⟨-, h⟩)
  · rw [h]
    exact hs₁
  · exact .inr h

end

/-! ### Runs -/

/-- A device holding the key of its personal vault, with the keys it may trust and the keys it has
held, the last one first. -/
structure KeyHolder where
  store : Store
  trusted : List SymmetricKey
  log : List (SymmetricKey × ℤ)

/-- A vault list of the server, and the statement its mirroring stops at. -/
structure Listing where
  remote : List Vault
  nonce : ℕ → Uuid → Nonce
  stop : ℕ

/-- A key held after another: its version is not older, and is the same if the key is. -/
def Follows (new old : SymmetricKey × ℤ) : Prop :=
  old.2 ≤ new.2 ∧ (new.1 = old.1 → new.2 = old.2)

theorem Follows.refl (x : SymmetricKey × ℤ) :
  Follows x x
  := ⟨le_rfl, fun _ => rfl⟩

section
variable [Boxes] (privateKey : KeyPair) (p : Uuid)

/-- The keys a list offers for `p` in self-authenticated envelopes. -/
def selfSealed (remote : List Vault) : List SymmetricKey :=
  remote.filterMap (fun v =>
    if v.id = p then
      match offeredKey privateKey v with
      | some (k, .selfAuthenticated) => some k
      | _ => none
    else none)

/-- The runs of a device that holds the key of its personal vault `p` and mirrors any lists, each
up to any statement. -/
def keySystem : TransitionSystem KeyHolder Listing where
  init d := ∃ l k, d.store.vaults.get? p = some l ∧ l.kind = .personal ∧ l.wrappedKey = some k
    ∧ d.trusted = [k] ∧ d.log = [(k, l.keyVersion)]
  step d l := ((applyVaultList privateKey l.remote l.nonce).stops d.store)[l.stop]?.map (fun s =>
    { store := s
      trusted := d.trusted ++ selfSealed privateKey p l.remote
      log := (s.heldPair p).toList ++ d.log })

/-- The key held is trusted, and the keys held followed one another. -/
def KeyKept (d : KeyHolder) : Prop :=
  (∀ k n, d.store.heldPair p = some (k, n) → k ∈ d.trusted) ∧ d.log.IsChain Follows

/-- A list offers only safe keys: a key offered for a newer version than the one held is in an
anonymous envelope of a vault listed as personal, which is refused, or it is another key, comes
self-authenticated or is trusted already, and in the last entry for `p`. A key offered when none
is held is self-authenticated or trusted already, in the last entry for `p`, and follows the key
held last. -/
def OffersSafely (d : KeyHolder) (l : Listing) : Prop :=
  ∀ before v after, l.remote = before ++ v :: after → v.id = p →
    ∀ k origin, offeredKey privateKey v = some (k, origin) →
      match d.store.heldPair p with
      | some (held, n) => n < v.keyVersion →
          (v.kind = .personal ∧ origin ≠ .selfAuthenticated)
          ∨ ((origin = .selfAuthenticated ∨ k ∈ d.trusted) ∧ k ≠ held ∧ ∀ w ∈ after, w.id ≠ p)
      | none => (origin = .selfAuthenticated ∨ k ∈ d.trusted) ∧ (∀ w ∈ after, w.id ≠ p)
          ∧ ∀ last ∈ d.log.head?, Follows (k, v.keyVersion) last

/-- What a run keeps: the key held is the last of the journal, besides `KeyKept`. -/
def KeyLogged (d : KeyHolder) : Prop :=
  KeyKept p d ∧ ∀ x, d.store.heldPair p = some x → d.log.head? = some x

variable {privateKey p} {d d' : KeyHolder} {l : Listing}

/-- A self-authenticated envelope is one the list offers. -/
theorem mem_selfSealed {remote : List Vault} {v : Vault} {k : SymmetricKey} (hv : v ∈ remote)
    (hid : v.id = p) (hoffered : offeredKey privateKey v = some (k, .selfAuthenticated)) :
  k ∈ selfSealed privateKey p remote
  := by
  apply List.mem_filterMap.mpr
  use v, hv
  rw [if_pos hid, hoffered]

/-- A list that offers only safe keys replaces the key in its last entry for `p`, or not at all. -/
theorem replaced_of_offersSafely (h : OffersSafely privateKey p d l) :
  (∀ v ∈ l.remote, v.id = p →
      pairAfter privateKey v (d.store.heldPair p) = d.store.heldPair p)
    ∨ ∃ before v after, l.remote = before ++ v :: after ∧ v.id = p
      ∧ (∀ w ∈ before, w.id = p →
        pairAfter privateKey w (d.store.heldPair p) = d.store.heldPair p)
      ∧ ∀ w ∈ after, w.id ≠ p
  := by
  -- an entry that replaces the key has no entry for `p` after it
  have hlast : ∀ before v after, l.remote = before ++ v :: after → v.id = p →
      pairAfter privateKey v (d.store.heldPair p) ≠ d.store.heldPair p →
      ∀ w ∈ after, w.id ≠ p := by
    intro before v after hsplit hid hne
    have hsafe := h before v after hsplit hid
    cases hheld : d.store.heldPair p with
    | none =>
        rw [hheld, pairAfter_none] at hne
        simp only [hheld] at hsafe
        cases hoffered : offeredKey privateKey v with
        | none => simp [hoffered] at hne
        | some offered => exact (hsafe offered.1 offered.2 hoffered).2.1
    | some held =>
        rw [hheld] at hne
        simp only [hheld] at hsafe
        rcases pairAfter_held privateKey v held with h | h
        · exact absurd h hne
        · obtain ⟨k, origin, hoffered, hnewer, hkind, -⟩ := h
          rcases hsafe k origin hoffered hnewer with ⟨hpersonal, horigin⟩ | ⟨-, -, hafter⟩
          · exact absurd (hkind hpersonal) horigin
          · exact hafter
  by_cases hkeep : ∀ v ∈ l.remote, v.id = p →
      pairAfter privateKey v (d.store.heldPair p) = d.store.heldPair p
  · exact .inl hkeep
  · push Not at hkeep
    obtain ⟨v, hv, hid, hne⟩ := hkeep
    obtain ⟨before, after, hsplit⟩ := List.append_of_mem hv
    refine .inr ⟨before, v, after, hsplit, hid, ?_, hlast before v after hsplit hid hne⟩
    intro w hw hwid
    by_contra hwne
    obtain ⟨before', after', rfl⟩ := List.append_of_mem hw
    apply hlast before' w (after' ++ v :: after) (by simp [hsplit]) hwid hwne v (by simp) hid

/-- After a pass over a list that offers only safe keys, the key held is trusted and follows the
last one held. -/
theorem trusted_of_offersSafely (h : KeyLogged p d) (hsafe : OffersSafely privateKey p d l)
    {s : Store} (hs : s ∈ (applyVaultList privateKey l.remote l.nonce).stops d.store)
    {x : SymmetricKey × ℤ} (hx : s.heldPair p = some x) :
  x.1 ∈ d.trusted ++ selfSealed privateKey p l.remote ∧ ∀ last ∈ d.log.head?, Follows x last
  := by
  obtain ⟨⟨htrusted, -⟩, hhead⟩ := h
  have hkept : s.heldPair p = d.store.heldPair p →
      x.1 ∈ d.trusted ++ selfSealed privateKey p l.remote
        ∧ ∀ last ∈ d.log.head?, Follows x last := by
    intro hsame
    rw [hx] at hsame
    refine ⟨List.mem_append_left _ (htrusted x.1 x.2 hsame.symm), ?_⟩
    intro last hlast
    rw [hhead x hsame.symm] at hlast
    cases hlast
    exact Follows.refl x
  rcases replaced_of_offersSafely hsafe with hkeep | ⟨before, v, after, hsplit, hid, hbefore, hafter⟩
  · rcases heldPair_of_kept hkeep hs with hsame | hnone
    · exact hkept hsame
    · rw [hx] at hnone
      cases hnone
  · have hv : v ∈ l.remote := by simp [hsplit]
    have hoffer := hsafe before v after hsplit hid
    rw [hsplit] at hs
    rcases heldPair_of_replaced hid hbefore hafter hs with hsame | hnew
    · exact hkept hsame
    · rw [hx] at hnew
      have htrust : ∀ k origin, offeredKey privateKey v = some (k, origin) →
          origin = .selfAuthenticated ∨ k ∈ d.trusted →
          k ∈ d.trusted ++ selfSealed privateKey p l.remote := by
        rintro k origin hoffered (rfl | hk)
        · exact List.mem_append_right _ (mem_selfSealed hv hid hoffered)
        · exact List.mem_append_left _ hk
      cases hheld : d.store.heldPair p with
      | none =>
          simp only [hheld] at hoffer
          rw [hheld, pairAfter_none] at hnew
          obtain ⟨⟨k, origin⟩, hoffered, rfl⟩ := Option.map_eq_some_iff.mp hnew.symm
          obtain ⟨horigin, -, hlast⟩ := hoffer k origin hoffered
          exact ⟨htrust k origin hoffered horigin, hlast⟩
      | some held =>
          simp only [hheld] at hoffer
          rw [hheld] at hnew
          rcases pairAfter_held privateKey v held with hsame | hdecided
          · apply hkept
            rw [hx, hheld, hnew]
            exact hsame
          · obtain ⟨k, origin, hoffered, hnewer, hkind, hafter⟩ := hdecided
            obtain rfl := Option.some.inj (hnew.trans hafter)
            rcases hoffer k origin hoffered hnewer with ⟨hpersonal, horigin⟩ | ⟨horigin, hne, -⟩
            · exact absurd (hkind hpersonal) horigin
            · refine ⟨htrust k origin hoffered horigin, ?_⟩
              intro last hlast
              rw [hhead held hheld] at hlast
              cases hlast
              exact ⟨hnewer.le, fun hk => absurd hk hne⟩

/-- A pass over a list that offers only safe keys keeps the key. -/
theorem keyLogged_step (h : KeyLogged p d) (hsafe : OffersSafely privateKey p d l)
    (hstep : (keySystem privateKey p).step d l = some d') :
  KeyLogged p d'
  := by
  obtain ⟨s, hs, rfl⟩ := Option.map_eq_some_iff.mp hstep
  have hnew := fun x => trusted_of_offersSafely h hsafe (List.mem_of_getElem? hs) (x := x)
  obtain ⟨⟨-, hchain⟩, -⟩ := h
  refine ⟨⟨fun k n hk => (hnew (k, n) hk).1, ?_⟩, ?_⟩
  · cases hheld : s.heldPair p with
    | none => exact hchain
    | some x =>
        apply List.isChain_cons.mpr
        exact ⟨(hnew x hheld).2, hchain⟩
  · intro x hx
    simp [hx]

/-- In every run over lists that offer only safe keys, the key held is trusted, and the keys held
followed one another. -/
theorem keyKept_of_reaches (h : (keySystem privateKey p).Reaches (OffersSafely privateKey p) d) :
  KeyKept p d
  := by
  have hlogged : KeyLogged p d := by
    apply h.invariant
    · rintro d ⟨l, k, hget, -, hkey, htrusted, hlog⟩
      have hheld : d.store.heldPair p = some (k, l.keyVersion) := by
        simp [Store.heldPair, hget, hkey]
      rw [KeyLogged, KeyKept, hheld, htrusted, hlog]
      refine ⟨⟨?_, List.isChain_singleton _⟩, ?_⟩
      · rintro _ _ ⟨⟩
        exact List.mem_singleton_self k
      · rintro _ ⟨⟩
        rfl
    · intro d l d' h hsafe hstep
      exact keyLogged_step h hsafe hstep
  exact hlogged.1

end

/-! ### Calling the vault a team vault -/

open Symbolic

/-- A device with a personal vault at key version one. -/
def personalHolder : KeyHolder where
  store :=
    { Store.empty with
      vaults := .single ⟨1, .personal, "personal", none, .manager, some (vaultKey 7), 1, 0, false, 0, true⟩ }
  trusted := [vaultKey 7]
  log := [(vaultKey 7, 1)]

/-- A list that offers the other key for version two of the vault, mirrored up to the upsert. -/
def offering (kind : VaultKind) (envelope : String) : Listing where
  remote := [⟨1, kind, none, "personal", .manager, some envelope, 2, false, true⟩]
  nonce _ _ := Symbolic.nonce
  stop := 1

theorem init_personalHolder :
  (keySystem account 1).init personalHolder
  := ⟨_, vaultKey 7, rfl, rfl, rfl, rfl, rfl⟩

/-- The key is kept when another device of the account rotates it. -/
theorem keyKept_ownRotation :
  ∃ d, (keySystem account 1).run personalHolder
      [offering .personal (selfEnvelope (vaultKey 8))] = some d
    ∧ d.store.heldPair 1 = some (vaultKey 8, 2) ∧ KeyKept 1 d
  := by
  have hrun : ((keySystem account 1).run personalHolder
      [offering .personal (selfEnvelope (vaultKey 8))]).bind (fun d => d.store.heldPair 1)
      = some (vaultKey 8, 2) := by
    decide +kernel
  obtain ⟨d, hd, hheld⟩ := Option.bind_eq_some_iff.mp hrun
  refine ⟨d, hd, hheld, ?_⟩
  apply keyKept_of_reaches
  apply TransitionSystem.Reaches.run (.init init_personalHolder) _ hd
  refine ⟨?_, fun _ _ => trivial⟩
  intro before v after hsplit _ k origin hoffered
  have hself : ∀ v ∈ (offering .personal (selfEnvelope (vaultKey 8))).remote,
      offeredKey account v = some (vaultKey 8, .selfAuthenticated) := by
    decide +kernel
  rw [hself v (by simp [hsplit])] at hoffered
  cases hoffered
  have hafter : after = [] := by
    have hlength := congrArg List.length hsplit
    simp [offering] at hlength
    exact List.eq_nil_of_length_eq_zero (by omega)
  rw [hafter]
  exact fun _ => .inr ⟨.inl rfl, by decide, fun _ hw => by cases hw⟩

/-- The server replaces the key by its own when it lists the vault as a team vault. -/
theorem not_keyKept_teamVault :
  ¬ ∀ (privateKey : KeyPair) (p : Uuid) (d : KeyHolder),
    (keySystem privateKey p).Reachable d → KeyKept p d
  := by
  intro h
  have hrun : ((keySystem account 1).run personalHolder
      [offering .team (anonymousEnvelope (vaultKey 8))]).map
        (fun d => (d.store.heldPair 1, d.trusted))
      = some (some (vaultKey 8, 2), [vaultKey 7]) := by
    decide +kernel
  obtain ⟨d, hd, heq⟩ := Option.map_eq_some_iff.mp hrun
  obtain ⟨hheld, htrusted⟩ := Prod.mk.inj heq
  have hreach : (keySystem account 1).Reachable d :=
    TransitionSystem.Reaches.run (.init init_personalHolder)
      (TransitionSystem.meets_true _ _) hd
  have hkey := (h account 1 d hreach).1 (vaultKey 8) 2 hheld
  rw [htrusted] at hkey
  exact absurd hkey (by decide)

end Termoso.Core
