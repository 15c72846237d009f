import Termoso.Desktop.Rotation

/-!
# Hosts during a rotation

A host that lets in the key of the vault must let in whatever key the vault has later, wherever a
rotation stops.  The fresh key is stored last, so this holds exactly when the old key is taken
from no host that had it.
-/

namespace Termoso.Desktop

open Client

/-! ### What a rotation is to keep -/

section
variable [KeyLibrary]

/-- A host lets in the public half of the private key in the vault. -/
def World.Trusts (w : World) (keyId hostId : Uuid) : Prop :=
  ∃ key line, w.keys keyId = some key ∧ publicKey key.data = .ok line
    ∧ hasKey line (w.hosts hostId) = true

/-- No host of `targets` is locked out between two states: those that let in the key of the vault
still do. -/
def NotLockedOut (targets : List (Uuid × String)) (keyId : Uuid) (w w' : World) : Prop :=
  ∀ t ∈ targets, w.Trusts keyId t.1 → w'.Trusts keyId t.1

/-- The vault has another private key, whose public half every target lets in. -/
def EndsFresh (targets : List (Uuid × String)) (keyId : Uuid) (w w' : World) : Prop :=
  (w'.keys keyId).map (fun key => key.data.privateKey)
      ≠ (w.keys keyId).map (fun key => key.data.privateKey)
    ∧ ∀ t ∈ targets, w'.Trusts keyId t.1

/-- A key as the keychain makes it, or takes it in. -/
def MadeByKeychain (key : SshKey) : Prop :=
  (∃ form random, generate form random = .ok key) ∨ ∃ form cert, importKey form = .ok (key, cert)

end

/-- The old key is taken from a host. -/
def HostOutcome.Removes (o : HostOutcome) : Prop :=
  o.connect = .ok () ∧ o.install = .succeeded ∧ o.remove.effect = true

/-- Every step on a host succeeds. -/
def HostOutcome.Succeeds (o : HostOutcome) : Prop :=
  o.connect = .ok () ∧ o.install = .succeeded ∧ o.remove = .succeeded

/-! ### One host -/

section
variable {freshPublic oldPublic : String} {o : HostOutcome} {net : Uuid → HostOutcome}
  {hostId t : Uuid} {w : World} {K : Uuid → Option VaultKey} {targets : List (Uuid × String)}

variable {f : List String → List String} {outcome : CommandOutcome}

theorem result_command :
  (command hostId f outcome).result w = .ok outcome.error
  := by
  rw [command]
  split
  · rfl
  · rfl

theorem final_command :
  (command hostId f outcome).final w = if outcome.effect then w.setHost hostId f else w
  := by
  rw [command]
  split
  · rfl
  · rfl

theorem stops_command :
  (command hostId f outcome).stops w
    = if outcome.effect then [w, w.setHost hostId f] else [w]
  := by
  rw [command]
  split
  · rfl
  · rfl

/-- The rule of commands. -/
theorem triple_command {P : World → Prop} {R : World → World → Prop}
    {Q : Option String → World → Prop}
    (hrun : outcome.effect = true → ∀ w, P w →
      R w (w.setHost hostId f) ∧ Q outcome.error (w.setHost hostId f))
    (hskip : outcome.effect = false → ∀ w, P w → Q outcome.error w) :
  Script.Triple P R (command hostId f outcome) Q
  := by
  intro w hw
  rw [result_command, final_command, stops_command]
  cases heffect : outcome.effect with
  | true =>
      obtain ⟨hR, hQ⟩ := hrun heffect w hw
      refine ⟨List.isChain_pair.mpr hR, ?_⟩
      rintro _ ⟨⟩
      exact hQ
  | false =>
      refine ⟨List.isChain_singleton w, ?_⟩
      rintro _ ⟨⟩
      exact hskip heffect w hw

/-- The vault has the keys `K`, and a host lets in a key. -/
def Kept (K : Uuid → Option VaultKey) (line : String) (t : Uuid) (w : World) : Prop :=
  w.keys = K ∧ hasKey line (w.hosts t) = true

theorem kept_setHost {line : String} {f : List String → List String} (h : Kept K line t w)
    (hf : hostId = t → hasKey line (f (w.hosts t)) = true) :
  Kept K line t (w.setHost hostId f)
  := by
  refine ⟨h.1, ?_⟩
  by_cases ht : t = hostId
  · subst ht
    simp only [World.setHost, Function.update_self]
    exact hf rfl
  · simp only [World.setHost, Function.update_of_ne ht]
    exact h.2

/-- A host from which the old key is not taken keeps it, and counts as failed. -/
theorem triple_rotateHost_kept (h : hostId = t → ¬ o.Removes) :
  Script.Triple (Kept K oldPublic t) (fun w w' => Kept K oldPublic t w → Kept K oldPublic t w')
    (rotateHost freshPublic oldPublic o hostId)
    (fun e w => Kept K oldPublic t w ∧ (hostId = t → e ≠ none))
  := by
  rw [rotateHost]
  cases hconnect : o.connect with
  | error e => exact Script.Triple.ret (fun w hw => ⟨hw, fun _ => Option.some_ne_none _⟩)
  | ok u =>
      have hinstall : ∀ w, Kept K oldPublic t w →
          Kept K oldPublic t (w.setHost hostId (exportKey freshPublic)) := by
        intro w hw
        apply kept_setHost hw
        intro _
        rw [hasKey_exportKey, hw.2, Bool.true_or]
      apply (triple_command (Q := fun e w => Kept K oldPublic t w ∧ e = o.install.error) ?_ ?_).andThen
      · intro added
        cases added with
        | some e =>
            exact Script.Triple.ret (fun w hw => ⟨hw.1, fun _ => Option.some_ne_none _⟩)
        | none =>
            have hremove : o.install = .succeeded → hostId = t → o.remove.effect = false := by
              intro hsucceeded ht
              cases heffect : o.remove.effect with
              | false => rfl
              | true => exact absurd ⟨hconnect, hsucceeded, heffect⟩ (h ht)
            have hinstalled : o.install.error = none → o.install = .succeeded := by
              cases o.install with
              | succeeded => exact fun _ => rfl
              | failed effect e => exact fun h => absurd h (Option.some_ne_none e)
            apply (triple_command (Q := fun e w =>
              Kept K oldPublic t w ∧ (hostId = t → e ≠ none)) ?_ ?_).andThen
            · intro removed
              apply Script.Triple.ret
              rintro w ⟨hw, hne⟩
              refine ⟨hw, fun ht => ?_⟩
              rw [ne_eq, Option.map_eq_none_iff]
              exact hne ht
            · rintro heffect w ⟨hw, herror⟩
              have hne : hostId ≠ t := by
                intro ht
                rw [hremove (hinstalled herror.symm) ht] at heffect
                exact Bool.false_ne_true heffect
              have hw' := kept_setHost hw (f := removeKey oldPublic) (fun ht => absurd ht hne)
              exact ⟨fun _ => hw', hw', fun ht => absurd ht hne⟩
            · rintro heffect w ⟨hw, -⟩
              refine ⟨hw, fun _ => ?_⟩
              cases hout : o.remove with
              | succeeded =>
                  rw [hout] at heffect
                  cases heffect
              | failed effect e => exact Option.some_ne_none e
      · intro _ w hw
        exact ⟨fun _ => hinstall w hw, hinstall w hw, rfl⟩
      · intro _ w hw
        exact ⟨hw, rfl⟩

/-- Whatever comes of a host, the vault keeps its keys. -/
theorem triple_rotateHost_keys :
  Script.Triple (fun w => w.keys = K) (fun _ _ => True) (rotateHost freshPublic oldPublic o hostId)
    (fun _ w => w.keys = K)
  := by
  have hcommand : ∀ (f : List String → List String) (outcome : CommandOutcome),
      Script.Triple (fun w => w.keys = K) (fun _ _ => True) (command hostId f outcome)
        (fun _ w => w.keys = K) := by
    intro f outcome
    apply triple_command
    · exact fun _ w hw => ⟨trivial, hw⟩
    · exact fun _ w hw => hw
  rw [rotateHost]
  split
  · exact Script.Triple.ret (fun _ h => h)
  · apply (hcommand _ _).andThen
    intro added
    split
    · exact Script.Triple.ret (fun _ h => h)
    · apply (hcommand _ _).andThen
      intro removed
      exact Script.Triple.ret (fun _ h => h)

/-- A host is always left with a result. -/
theorem result_rotateHost (freshPublic oldPublic : String) (o : HostOutcome) (hostId : Uuid)
    (w : World) :
  ∃ e, (rotateHost freshPublic oldPublic o hostId).result w = .ok e
  := by
  rw [rotateHost]
  split
  · exact ⟨_, rfl⟩
  · rw [Script.result_andThen_ok result_command]
    split
    · exact ⟨_, rfl⟩
    · rw [Script.result_andThen_ok result_command]
      exact ⟨_, rfl⟩

/-- After the old key is taken from a host, the host no longer lets it in, while the vault has the
keys it had. -/
theorem exists_stop_rotateHost (hostId : Uuid) (w : World) (h : o.Removes) :
  ∃ w' ∈ (rotateHost freshPublic oldPublic o hostId).stops w,
    w'.keys = w.keys ∧ hasKey oldPublic (w'.hosts hostId) = false
  := by
  obtain ⟨hconnect, hinstall, hremove⟩ := h
  refine ⟨(w.setHost hostId (exportKey freshPublic)).setHost hostId (removeKey oldPublic), ?_, rfl,
    ?_⟩
  · rw [rotateHost, hconnect]
    apply Script.mem_stops_andThen_right result_command
    rw [hinstall]
    apply Script.mem_stops_andThen_left
    rw [stops_command, hremove, final_command]
    exact List.mem_cons_of_mem _ (List.mem_singleton_self _)
  · simp [World.setHost]

/-! ### Every host -/

theorem triple_rotateHosts_kept (h : ¬ (net t).Removes) (r : List String × List (String × String)) :
  Script.Triple (Kept K oldPublic t) (fun w w' => Kept K oldPublic t w → Kept K oldPublic t w')
    (rotateHosts freshPublic oldPublic net targets r)
    (fun r' w => Kept K oldPublic t w ∧ (t ∈ targets.map Prod.fst ∨ r.2 ≠ [] → r'.2 ≠ []))
  := by
  induction targets generalizing r with
  | nil =>
      apply Script.Triple.ret
      intro w hw
      exact ⟨hw, fun h => h.resolve_left List.not_mem_nil⟩
  | cons target targets ih =>
      obtain ⟨hostId, label⟩ := target
      obtain ⟨updated, failed⟩ := r
      have hhost : hostId = t → ¬ (net hostId).Removes := by
        rintro rfl
        exact h
      apply (triple_rotateHost_kept hhost).andThen
      intro error w hw
      obtain ⟨hkept, herror⟩ := hw
      obtain ⟨hchain, hpost⟩ := ih _ w hkept
      refine ⟨hchain, fun r' hr' => ?_⟩
      obtain ⟨hkept', hfailed⟩ := hpost r' hr'
      refine ⟨hkept', ?_⟩
      rintro (ht | ht)
      · rw [List.map_cons, List.mem_cons] at ht
        obtain rfl | ht := ht
        · cases error with
          | none => exact absurd rfl (herror rfl)
          | some e => exact hfailed (.inr (List.append_ne_nil_of_right_ne_nil _ (List.cons_ne_nil _ _)))
        · exact hfailed (.inl ht)
      · apply hfailed
        right
        cases error with
        | none => exact ht
        | some e => exact List.append_ne_nil_of_left_ne_nil ht _

/-- Wherever a target has its old key taken, there is a stop at which the vault still has the old
key. -/
theorem exists_stop_rotateHosts (freshPublic oldPublic : String) (w : World)
    (h : (net t).Removes) (ht : t ∈ targets.map Prod.fst)
    (r : List String × List (String × String)) :
  ∃ w' ∈ (rotateHosts freshPublic oldPublic net targets r).stops w,
    w'.keys = w.keys ∧ hasKey oldPublic (w'.hosts t) = false
  := by
  induction targets generalizing r w with
  | nil => cases ht
  | cons target targets ih =>
      obtain ⟨hostId, label⟩ := target
      rw [List.map_cons, List.mem_cons] at ht
      obtain rfl | ht := ht
      · obtain ⟨w', hw', hstop⟩ := exists_stop_rotateHost t w h
        exact ⟨w', Script.mem_stops_andThen_left hw', hstop⟩
      · obtain ⟨error, herror⟩ := result_rotateHost freshPublic oldPublic (net hostId) hostId w
        have hkeys := (triple_rotateHost_keys w rfl).2 error herror
        obtain ⟨w', hw', hstop⟩ := ih _ ht _
        refine ⟨w', Script.mem_stops_andThen_right herror hw', ?_⟩
        rw [← hkeys]
        exact hstop

/-! ### The rotation -/

variable [KeyLibrary] {stored : Except String Unit} {keyId vaultId : Uuid} {random : ℕ}

omit [KeyLibrary] in
theorem trusts_of_kept [KeyLibrary] {old : SshKey} (hkey : K keyId = some ⟨vaultId, old⟩)
    (hold : publicKey old = .ok oldPublic) :
  w.keys = K → (w.Trusts keyId t ↔ hasKey oldPublic (w.hosts t) = true)
  := by
  rintro rfl
  constructor
  · rintro ⟨key, line, hkey', hline, hhas⟩
    rw [hkey] at hkey'
    cases hkey'
    rw [hold] at hline
    cases hline
    exact hhas
  · exact fun hhas => ⟨_, _, hkey, hold, hhas⟩

/-- What a rotation starts from is the key of the vault, of a type that is made again. -/
theorem prepare_eq_ok {old : SshKey} {fresh : KeyMaterial}
    (h : prepare w keyId vaultId random = .ok (old, oldPublic, fresh)) :
  w.keys keyId = some ⟨vaultId, old⟩ ∧ publicKey old = .ok oldPublic
    ∧ ∃ bits algo, algorithmOf old.keyType bits = .ok algo
  := by
  rw [prepare] at h
  simp only [bind_eq_ok, check_eq_ok, pure_eq_ok, Prod.mk.injEq] at h
  obtain ⟨key, hkey, hvault, line, hline, algo, halgo, fresh', -, rfl, rfl, rfl⟩ := h
  cases hget : w.keys keyId with
  | none =>
      rw [hget] at hkey
      cases hkey
  | some key' =>
      rw [hget] at hkey
      cases hkey
      obtain ⟨vaultId', data⟩ := key
      rw [not_not] at hvault
      subst hvault
      exact ⟨rfl, hline, _, algo, halgo⟩

theorem rotateKey_apply :
  rotateKey targets net stored keyId vaultId random w
    = match prepare w keyId vaultId random with
      | .error e => ([], .error e)
      | .ok p => replaceKey targets net stored keyId vaultId p.1 p.2.1 p.2.2 w
  := by
  simp only [rotateKey, Script.andThen, Script.result_read]
  cases prepare w keyId vaultId random with
  | error e => rfl
  | ok p => rfl

omit [KeyLibrary] in
/-- A target from which the old key is not taken keeps it, wherever the replacing stops. -/
theorem triple_replaceKey_kept (old : SshKey) (fresh : KeyMaterial) (h : ¬ (net t).Removes)
    (ht : t ∈ targets.map Prod.fst) :
  Script.Triple (Kept K oldPublic t) (fun w w' => Kept K oldPublic t w → Kept K oldPublic t w')
    (replaceKey targets net stored keyId vaultId old oldPublic fresh) (fun _ _ => True)
  := by
  apply (triple_rotateHosts_kept h ([], [])).andThen
  rintro ⟨updated, failed⟩ w ⟨-, hfailed⟩
  dsimp only
  rw [if_pos (hfailed (.inl ht))]
  exact ⟨List.isChain_singleton w, fun _ _ => trivial⟩

/-- Wherever a rotation can stop, a target that let in the key of the vault still does, exactly when
the old key is taken from no such target. -/
theorem notLockedOut_stops_iff :
  (∀ w' ∈ (rotateKey targets net stored keyId vaultId random).stops w,
      NotLockedOut targets keyId w w')
    ↔ ∀ p, prepare w keyId vaultId random = .ok p →
        ∀ t ∈ targets, w.Trusts keyId t.1 → ¬ (net t.1).Removes
  := by
  rw [Script.stops, Script.trail, rotateKey_apply]
  cases hprepare : prepare w keyId vaultId random with
  | error e =>
      constructor
      · intro _ _ h
        cases h
      · intro _ w' hw' t _ htrusts
        rw [List.mem_singleton.mp hw']
        exact htrusts
  | ok p =>
      obtain ⟨old, oldPublic, fresh⟩ := p
      obtain ⟨hkey, hold, -⟩ := prepare_eq_ok hprepare
      change (∀ w' ∈ (replaceKey targets net stored keyId vaultId old oldPublic fresh).stops w, _) ↔ _
      constructor
      · rintro hstops _ _ t ht htrusts hremoves
        obtain ⟨w', hw', hkeys, hlost⟩ := exists_stop_rotateHosts fresh.publicKey oldPublic w hremoves
          (List.mem_map_of_mem ht) ([], [])
        have htrusts' := hstops w' (Script.mem_stops_andThen_left hw') t ht htrusts
        rw [trusts_of_kept hkey hold hkeys, hlost] at htrusts'
        cases htrusts'
      · intro h w' hw' t ht htrusts
        have hkept : Kept w.keys oldPublic t.1 w := ⟨rfl, (trusts_of_kept hkey hold rfl).mp htrusts⟩
        obtain ⟨hkeys, hhas⟩ := (triple_replaceKey_kept old fresh (h _ rfl t ht htrusts)
          (List.mem_map_of_mem ht)).at_stops hkept hkept (fun _ _ hI hR => hR hI) hw'
        exact (trusts_of_kept hkey hold hkeys).mpr hhas

/-! ### Keys of the keychain -/

omit [KeyLibrary] in
/-- A short name is none of the types that are made again. -/
theorem algorithmOf_shortType (info : KeyInfo) (bits : ℕ) (algo : KeyAlgorithm) :
  algorithmOf (shortType info) bits ≠ .ok algo
  := by
  have hecdsa : ∀ t : String, ¬ "ecdsa".toList.isPrefixOf t.toList = true →
      t ≠ "ecdsa-sha2-nistp256" ∧ t ≠ "ecdsa-sha2-nistp384" ∧ t ≠ "ecdsa-sha2-nistp521" := by
    intro t ht
    refine ⟨?_, ?_, ?_⟩
    · rintro rfl
      exact ht (by decide)
    · rintro rfl
      exact ht (by decide)
    · rintro rfl
      exact ht (by decide)
  rw [shortType]
  split
  · simp [algorithmOf]
  split
  · simp [algorithmOf]
  split
  · simp [algorithmOf]
  split
  · simp [algorithmOf]
  split
  · simp [algorithmOf]
  · rename_i hed hrsa _ _ hprefix
    obtain ⟨h256, h384, h521⟩ := hecdsa _ hprefix
    simp [algorithmOf, hed, hrsa, h256, h384, h521]

theorem keyType_of_madeByKeychain {key : SshKey} (h : MadeByKeychain key) :
  ∃ info, key.keyType = shortType info
  := by
  obtain ⟨form, random, h⟩ | ⟨form, cert, h⟩ := h
  · rw [generate] at h
    simp only [bind_eq_ok, pure_eq_ok] at h
    obtain ⟨label, -, material, -, rfl⟩ := h
    exact ⟨material.info, rfl⟩
  · rw [importKey] at h
    simp only [bind_eq_ok, pure_eq_ok, Prod.mk.injEq] at h
    obtain ⟨label, -, material, -, _, -, rfl, -⟩ := h
    exact ⟨material.info, rfl⟩

/-- A rotation of a key that the keychain made, in which no step fails. -/
def MadeAndUnhindered (targets : List (Uuid × String)) (net : Uuid → HostOutcome)
    (stored : Except String Unit) (keyId vaultId : Uuid) (w : World) : Prop :=
  (∃ key line, w.keys keyId = some ⟨vaultId, key⟩ ∧ MadeByKeychain key ∧ publicKey key = .ok line)
    ∧ (∀ t ∈ targets, (net t.1).Succeeds) ∧ stored = .ok ()

/-- A key that the keychain made is not rotated. -/
theorem final_rotateKey_of_made (h : MadeAndUnhindered targets net stored keyId vaultId w) :
  (rotateKey targets net stored keyId vaultId random).final w = w
  := by
  obtain ⟨⟨key, line, hkey, hmade, -⟩, -, -⟩ := h
  obtain ⟨info, htype⟩ := keyType_of_madeByKeychain hmade
  rw [Script.final, Script.trail, rotateKey_apply]
  cases hprepare : prepare w keyId vaultId random with
  | error e => rfl
  | ok p =>
      obtain ⟨old, oldPublic, fresh⟩ := p
      obtain ⟨hkey', -, bits, algo, halgo⟩ := prepare_eq_ok hprepare
      rw [hkey] at hkey'
      cases hkey'
      rw [htype] at halgo
      exact absurd halgo (algorithmOf_shortType info bits algo)

/-- A rotation locks nobody out wherever it stops, and ends with a fresh key on every target when no
step fails for a key of the keychain, exactly when the old key is taken from no target that had
it, and it is not such an unhindered rotation. -/
theorem rotateKey_keeps_logins_iff (targets : List (Uuid × String)) (net : Uuid → HostOutcome)
    (stored : Except String Unit) (keyId vaultId : Uuid) (random : ℕ) (w : World) :
  ((∀ w' ∈ (rotateKey targets net stored keyId vaultId random).stops w,
        NotLockedOut targets keyId w w')
      ∧ (MadeAndUnhindered targets net stored keyId vaultId w →
          EndsFresh targets keyId w
            ((rotateKey targets net stored keyId vaultId random).final w)))
    ↔ (∀ p, prepare w keyId vaultId random = .ok p →
          ∀ t ∈ targets, w.Trusts keyId t.1 → ¬ (net t.1).Removes)
      ∧ ¬ MadeAndUnhindered targets net stored keyId vaultId w
  := by
  rw [notLockedOut_stops_iff]
  apply and_congr_right
  intro _
  constructor
  · intro hfresh hmade
    have hends := hfresh hmade
    rw [final_rotateKey_of_made hmade] at hends
    exact hends.1 rfl
  · intro hnot hmade
    exact absurd hmade hnot

end

/-! ### Two hosts, one of which cannot be reached -/

/-- A library whose private keys are named by their public bodies. -/
@[reducible] def namedKeys : KeyLibrary where
  inspect key := some ⟨"ssh-ed25519", 256, "ssh-ed25519 " ++ key⟩
  generate _ _ _ random :=
    let body := String.ofList (List.replicate random 'B')
    .ok ⟨body, "ssh-ed25519 " ++ body, ⟨"ssh-ed25519", 256, "ssh-ed25519 " ++ body⟩⟩
  importKey key _ := .ok ⟨key, "ssh-ed25519 " ++ key, ⟨"ssh-ed25519", 256, "ssh-ed25519 " ++ key⟩⟩
  certificateMatches _ _ := .ok true

/-- A vault with the key `A` under a type, and two hosts that let it in. -/
def twoHosts (keyType : String) : World where
  keys keyId := if keyId = 1 then some ⟨9, ⟨"mine", "A", some "ssh-ed25519 A", none, keyType, none,
    false⟩⟩ else none
  hosts _ := ["ssh-ed25519 A"]

/-- Every step succeeds on the first host, and the second cannot be reached. -/
def halfReached (hostId : Uuid) : HostOutcome :=
  if hostId = 1 then ⟨.ok (), .succeeded, .succeeded⟩ else ⟨.error "timeout", .succeeded, .succeeded⟩

/-- A rotation that cannot reach one host locks the device out of the other. A key that the keychain
took in is never rotated. -/
theorem rotateKey_locks_out :
  (¬ ∀ (targets : List (Uuid × String)) (net : Uuid → HostOutcome) (stored : Except String Unit)
      (keyId vaultId : Uuid) (random : ℕ) (w : World),
    ∀ w' ∈ (@rotateKey namedKeys targets net stored keyId vaultId random).stops w,
      @NotLockedOut namedKeys targets keyId w w')
    ∧ ¬ ∀ (targets : List (Uuid × String)) (net : Uuid → HostOutcome) (stored : Except String Unit)
        (keyId vaultId : Uuid) (random : ℕ) (w : World),
      @MadeAndUnhindered namedKeys targets net stored keyId vaultId w →
        @EndsFresh namedKeys targets keyId w
          ((@rotateKey namedKeys targets net stored keyId vaultId random).final w)
  := by
  let _ := namedKeys
  constructor
  · intro h
    have hkept := notLockedOut_stops_iff.mp
      (h [(1, "one"), (2, "two")] halfReached (.ok ()) 1 9 1 (twoHosts "ssh-ed25519"))
    apply hkept _ rfl (1, "one") List.mem_cons_self
    · exact ⟨_, _, rfl, rfl, by decide +kernel⟩
    · exact ⟨rfl, rfl, rfl⟩
  · intro h
    have hmade : MadeAndUnhindered [(1, "one")] halfReached (.ok ()) 1 9 (twoHosts "ed25519") := by
      refine ⟨⟨_, _, rfl, .inr ⟨⟨"mine", "A", none, false, none⟩, none, ?_⟩, rfl⟩, ?_, rfl⟩
      · rfl
      · intro t ht
        rw [List.mem_singleton.mp ht]
        exact ⟨rfl, rfl, rfl⟩
    have hfresh := h [(1, "one")] halfReached (.ok ()) 1 9 1 (twoHosts "ed25519") hmade
    rw [final_rotateKey_of_made hmade] at hfresh
    exact hfresh.1 rfl

end Termoso.Desktop
