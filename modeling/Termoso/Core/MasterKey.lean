import Termoso.Core.Secrets

/-!
# The master key is kept

The key that was loaded first stays the key of the profile, and can be loaded or unlocked again,
whatever fails and wherever the process stops, in runs in which the keychain is not out of reach
when the key is looked for and in the keychain alone, and in which a password is removed only
from a profile that has one.
-/

namespace Termoso.Core

section
variable [KeyStorage]

/-! ### Texts of keys -/

section
variable {K k : SymmetricKey} {text : String}

omit [KeyStorage] in
theorem fromSlice_toList :
  SymmetricKey.fromSlice K.toList = .ok K
  := by
  rw [SymmetricKey.fromSlice, dif_pos K.length_toList]
  rfl

theorem fromB64_eq_ok :
  Secrets.fromB64 text = .ok k ↔ Primitives.unb64 text = some k.toList
  := by
  rw [Secrets.fromB64, unb64]
  cases Primitives.unb64 text with
  | none => simp [bind, Except.bind]
  | some bytes =>
      simp only [bind, Except.bind, Option.some.injEq]
      constructor
      · intro h
        rw [SymmetricKey.fromSlice] at h
        split at h
        · cases h
          simp
        · cases h
      · rintro rfl
        exact fromSlice_toList

/-- The text of a key is read as the key. -/
theorem fromB64_toB64 :
  Secrets.fromB64 (Secrets.toB64 K) = .ok K
  := fromB64_eq_ok.mpr (Primitives.unb64_b64 _)

/-- So is the line in the file. -/
theorem fromB64_line :
  Secrets.fromB64 (Secrets.toB64 K ++ "\n") = .ok K
  := fromB64_eq_ok.mpr (KeyStorage.unb64_line _)

/-- A text that may be left of the file of a key. -/
def Torn (K : SymmetricKey) (text : String) : Prop :=
  ∃ n, text = String.ofList ((Secrets.toB64 K ++ "\n").toList.take n)

/-- What is left of the file of a key is not read as another key. -/
theorem eq_of_torn (h : Torn K text) (hread : Secrets.fromB64 text = .ok k) :
  k = K
  := by
  obtain ⟨n, rfl⟩ := h
  rw [fromB64_eq_ok] at hread
  rcases KeyStorage.unb64_torn _ _ _ hread with heq | hlength
  · exact Vector.toList_inj.mp heq
  · exact absurd (by rw [k.length_toList, K.length_toList]) hlength

theorem torn_line :
  Torn K (Secrets.toB64 K ++ "\n")
  := by
  refine ⟨(Secrets.toB64 K ++ "\n").toList.length, ?_⟩
  rw [List.take_length, String.ofList_toList]

theorem torn_empty :
  Torn K ""
  := ⟨0, rfl⟩

/-- A part of the text of a key may be left. -/
theorem torn_take (n : ℕ) :
  Torn K ("" ++ String.ofList ((Secrets.toB64 K).toList.take n))
  := by
  by_cases hn : n ≤ (Secrets.toB64 K).toList.length
  · refine ⟨n, ?_⟩
    rw [String.toList_append, List.take_append_of_le_length hn, String.empty_append]
  · refine ⟨(Secrets.toB64 K).toList.length, ?_⟩
    rw [String.toList_append, List.take_append_of_le_length (Nat.le_refl _), List.take_length,
      List.take_of_length_le (Nat.le_of_not_le hn), String.empty_append]

/-- A part of the end of the line may be left. -/
theorem torn_append (n : ℕ) :
  Torn K (Secrets.toB64 K ++ String.ofList ("\n".toList.take n))
  := by
  refine ⟨(Secrets.toB64 K).toList.length + n, ?_⟩
  rw [String.toList_append, List.take_length_add_append, String.ofList_append, String.ofList_toList]

end

/-! ### What is to hold -/

/-- The key that was loaded first is the only one that is returned, it can be loaded or unlocked
when nothing fails, and unlocking leaves no plain copy when no call fails. -/
structure MasterKeyKept (s : Session) (K : SymmetricKey) : Prop where
  first : s.returned.head? = some K
  returned : ∀ k ∈ s.returned, k = K
  reopens : (∀ fresh allowFile, ∃ m p,
      Secrets.loadOrCreate fresh allowFile s.profile [] = (.ok m, p, []))
    ∨ ∃ password ∈ s.passwords, ∃ m p,
      Secrets.unlockWithPassword password s.profile [] = (.ok m, p, [])
  bare : ∀ password fates m p rest, (∀ n, Fate.fails n ∉ fates) →
    Secrets.unlockWithPassword password s.profile fates = (.ok m, p, rest) →
      p.keychain = none ∧ p.masterKey = none

/-- Whether the first call fails. -/
def firstFails : List Fate → Bool
  | .fails _ :: _ => true
  | _ => false

/-- An operation that does not lose the key: the keychain is not out of reach when the key is looked
for and in the keychain alone, and a password is removed from a profile that has one. -/
def reachable (s : Session) : SessionEvent → Bool
  | .load _ _ fates =>
    s.profile.masterPw.isSome || s.profile.masterKey.isSome || s.profile.keychain.isNone
      || !firstFails fates
  | .removePassword _ _ => s.profile.masterPw.isSome
  | _ => true

/-! ### The invariant -/

/-- A text is that of a record of a key, under one of some passwords. -/
def Wraps (K : SymmetricKey) (passwords : List String) (bytes : Bytes) : Prop :=
  ∃ record, KeyStorage.fromJson bytes = some record
    ∧ (∃ password ∈ passwords, Secrets.unwrapRecord record password = .ok K)
    ∧ ∀ password k, Secrets.unwrapRecord record password = .ok k → k = K

/-- A profile keeps a key, in its places. -/
structure Profile.Keeps (K : SymmetricKey) (passwords : List String) (p : Profile) : Prop where
  keychain : ∀ text, p.keychain = some text → text = Secrets.toB64 K
  file : ∀ text, p.masterKey = some text → Torn K text
  record : ∀ bytes, p.masterPw = some bytes → Wraps K passwords bytes
  somewhere : p.masterPw = none →
    p.keychain = some (Secrets.toB64 K) ∨ p.masterKey = some (Secrets.toB64 K ++ "\n")

/-- A profile keeps a key under a password. -/
structure Profile.Protects (K : SymmetricKey) (passwords : List String) (p : Profile) :
    Prop extends p.Keeps K passwords where
  isSome : p.masterPw.isSome = true

/-- A profile keeps a key elsewhere than in the file. -/
structure Profile.KeepsElsewhere (K : SymmetricKey) (passwords : List String) (p : Profile) :
    Prop extends p.Keeps K passwords where
  elsewhere : p.masterPw.isSome = true ∨ p.keychain = some (Secrets.toB64 K)

/-- A record unwraps to one key. -/
theorem eq_of_unwrapRecord {record : PasswordRecord} {password password' : String}
    {K k : SymmetricKey} (h : Secrets.unwrapRecord record password = .ok K)
    (h' : Secrets.unwrapRecord record password' = .ok k) :
  k = K
  := by
  rw [Secrets.unwrapRecord] at h h'
  simp only [bind_eq_ok, check_eq_ok, mapError_eq_ok] at h h'
  obtain ⟨-, -, salt, hsalt, wrapping, -, raw, hraw, hkey⟩ := h
  obtain ⟨-, -, salt', hsalt', wrapping', -, raw', hraw', hkey'⟩ := h'
  have hwrapping := eq_of_decryptB64 hraw hraw'
  rw [hwrapping, hraw] at hraw'
  cases hraw'
  rw [hkey] at hkey'
  exact (Except.ok.inj hkey').symm

/-- A text that was verified is that of a record of the key. -/
theorem wraps_of_verifyRecord {K : SymmetricKey} {password : String} {bytes : Bytes}
    (h : Secrets.verifyRecord K password bytes = .ok ()) :
  Wraps K [password] bytes
  := by
  rw [Secrets.verifyRecord] at h
  obtain ⟨record, hparse, h⟩ := bind_eq_ok.mp h
  obtain ⟨unwrapped, hunwrap, h⟩ := bind_eq_ok.mp h
  split at h
  · rename_i heq
    subst heq
    rw [Secrets.parseRecord] at hparse
    split at hparse
    · rename_i record' hjson
      cases hparse
      refine ⟨record, hjson, ⟨password, List.mem_singleton_self _, hunwrap⟩, ?_⟩
      exact fun password' k hk => eq_of_unwrapRecord hunwrap hk
    · cases hparse
  · cases h

theorem Wraps.mono {K : SymmetricKey} {passwords passwords' : List String} {bytes : Bytes}
    (h : Wraps K passwords bytes) (hsub : passwords ⊆ passwords') :
  Wraps K passwords' bytes
  := by
  obtain ⟨record, hjson, ⟨password, hmem, hunwrap⟩, hkey⟩ := h
  exact ⟨record, hjson, ⟨password, hsub hmem, hunwrap⟩, hkey⟩

section
variable {K : SymmetricKey} {passwords passwords' : List String} {p : Profile}

theorem Profile.Keeps.mono (h : p.Keeps K passwords) (hsub : passwords ⊆ passwords') :
  p.Keeps K passwords'
  := ⟨h.keychain, h.file, fun bytes hbytes => (h.record bytes hbytes).mono hsub, h.somewhere⟩

/-- What is beside `master.pw` does not matter. -/
theorem Profile.Keeps.setTmp (h : p.Keeps K passwords) (tmp : Option Bytes) :
  { p with masterPwTmp := tmp }.Keeps K passwords
  := ⟨h.keychain, h.file, h.record, h.somewhere⟩

/-- Storing the key in the keychain keeps it. -/
theorem Profile.Keeps.setKeychain (h : p.Keeps K passwords) :
  { p with keychain := some (Secrets.toB64 K) }.KeepsElsewhere K passwords
  := by
  refine ⟨⟨?_, h.file, h.record, fun _ => .inl rfl⟩, .inr rfl⟩
  rintro text ⟨⟩
  rfl

/-- What is in the file does not matter, when the key is elsewhere. -/
theorem Profile.KeepsElsewhere.setFile (h : p.KeepsElsewhere K passwords) {text : Option String}
    (htext : ∀ s, text = some s → Torn K s) :
  { p with masterKey := text }.KeepsElsewhere K passwords
  := by
  refine ⟨⟨h.keychain, htext, h.record, fun hpw => ?_⟩, h.elsewhere⟩
  rcases h.elsewhere with hsome | hkeychain
  · change p.masterPw = none at hpw
    rw [hpw] at hsome
    cases hsome
  · exact .inl hkeychain

/-- A key under a password may be removed from the keychain. -/
theorem Profile.Protects.removeKeychain (h : p.Protects K passwords) :
  { p with keychain := none }.Protects K passwords
  := by
  refine ⟨⟨?_, h.file, h.record, fun hnone => ?_⟩, h.isSome⟩
  · rintro text ⟨⟩
  · change p.masterPw = none at hnone
    have hsome := h.isSome
    rw [hnone] at hsome
    cases hsome

/-- A key under a password is elsewhere than in the file. -/
theorem Profile.Protects.toElsewhere (h : p.Protects K passwords) :
  p.KeepsElsewhere K passwords
  := ⟨h.toKeeps, .inl h.isSome⟩

/-- Its file may be removed. -/
theorem Profile.Protects.removeFile (h : p.Protects K passwords) :
  { p with masterKey := none }.Protects K passwords
  := by
  refine ⟨(h.toElsewhere.setFile ?_).toKeeps, h.isSome⟩
  rintro s ⟨⟩

/-- A verified record may replace the one that is there. -/
theorem Profile.Keeps.setRecord (h : p.Keeps K passwords) {bytes : Bytes} {password : String}
    (hwraps : Wraps K [password] bytes) (tmp : Option Bytes) :
  { p with masterPw := some bytes, masterPwTmp := tmp }.Protects K [password]
  := by
  refine ⟨⟨h.keychain, h.file, ?_, ?_⟩, rfl⟩
  · rintro bytes' ⟨⟩
    exact hwraps
  · rintro ⟨⟩

end

/-! ### The calls -/

section
variable {F : Fate → Prop} {K : SymmetricKey} {passwords : List String}

open Faulty

omit [KeyStorage] in
theorem triple_touch {P : Profile → Prop} :
  Triple F P Secrets.touch (fun _ => P) P P
  := by
  apply Triple.call_keeps
  rintro p a p' hp ⟨⟩
  exact hp

omit [KeyStorage] in
theorem triple_fail {α : Type} {P E X : Profile → Prop} {e : SecretsError} {Q : α → Profile → Prop}
    (h : ∀ p, P p → E p) :
  Triple F P (Secrets.fail e : Secrets α) Q E X
  := by
  apply Triple.lift
  · rintro p a hp ⟨⟩
  · exact fun p _ hp _ => h p hp

/-- What the keychain returns is the key. -/
theorem triple_keychainGet {p₀ : Profile}
    (hp₀ : ∀ text, p₀.keychain = some text → text = Secrets.toB64 K) :
  Triple F (fun p => p = p₀) Secrets.keychainGet
    (fun r p => (r = none → p₀.keychain = none) ∧ (∀ k, r = some k → k = K) ∧ p = p₀)
    (fun p => p = p₀) (fun p => p = p₀)
  := by
  refine Triple.andThen (R := fun entry p => p₀.keychain = entry ∧ p = p₀) ?_ ?_
  · apply Triple.call
    · rintro p a p' rfl ⟨⟩
      exact ⟨rfl, rfl⟩
    · rintro p e hp ⟨⟩
    · exact fun _ p _ hp => hp
    · rintro n p - hp
      refine ⟨hp, ?_⟩
      rintro a p' ⟨⟩
      exact hp
  · intro entry
    cases entry with
    | none =>
        apply Triple.ret
        rintro p ⟨hnone, hp⟩
        refine ⟨fun _ => hnone, ?_, hp⟩
        rintro k ⟨⟩
    | some text =>
        refine Triple.andThen (R := fun k p => k = K ∧ p = p₀) ?_ ?_
        · apply Triple.lift
          · rintro p k ⟨hkeychain, hp⟩ hread
            rw [mapError_eq_ok, hp₀ text hkeychain, fromB64_toB64] at hread
            exact ⟨(Except.ok.inj hread).symm, hp⟩
          · exact fun p _ hp _ => hp.2
        · intro k
          apply Triple.ret
          rintro p ⟨rfl, hp⟩
          refine ⟨?_, ?_, hp⟩
          · rintro ⟨⟩
          · rintro k' ⟨⟩
            rfl

theorem triple_keychainSet {p₀ : Profile} :
  Triple F (fun p => p = p₀) (Secrets.keychainSet K)
    (fun _ p => p = { p₀ with keychain := some (Secrets.toB64 K) }) (fun p => p = p₀)
    (fun p => p = p₀ ∨ p = { p₀ with keychain := some (Secrets.toB64 K) })
  := by
  apply Triple.call
  · rintro p a p' rfl ⟨⟩
    rfl
  · rintro p e hp ⟨⟩
  · exact fun _ p _ hp => hp
  · rintro n p - rfl
    refine ⟨.inl rfl, ?_⟩
    rintro a p' ⟨⟩
    exact .inr rfl

/-- What is read from the file is the key. -/
theorem triple_readFile {p₀ : Profile} (hp₀ : p₀.Keeps K passwords) :
  Triple F (fun p => p = p₀) Secrets.readFile (fun k p => k = K ∧ p = p₀) (fun p => p = p₀)
    (fun p => p = p₀)
  := by
  refine Triple.andThen (R := fun text p => p₀.masterKey = some text ∧ p = p₀) ?_ ?_
  · apply Triple.call
    · rintro p text p' rfl hread
      split at hread
      · rename_i hfile
        cases hread
        exact ⟨hfile, rfl⟩
      · cases hread
    · exact fun p _ hp _ => hp
    · exact fun _ p _ hp => hp
    · intro n p _ hp
      refine ⟨hp, fun text p' hread => ?_⟩
      split at hread
      · cases hread
        exact hp
      · cases hread
  · intro text
    apply Triple.lift
    · rintro p k ⟨hfile, hp⟩ hread
      rw [mapError_eq_ok] at hread
      exact ⟨eq_of_torn (hp₀.file text hfile) hread, hp⟩
    · exact fun p _ hp _ => hp.2

omit [KeyStorage] in
theorem triple_removeFile {p₀ : Profile} :
  Triple F (fun p => p = p₀) Secrets.removeFile (fun _ p => p = { p₀ with masterKey := none })
    (fun p => p = p₀) (fun p => p = p₀ ∨ p = { p₀ with masterKey := none })
  := by
  apply Triple.call
  · rintro p a p' rfl hremove
    split at hremove
    · cases hremove
      rfl
    · cases hremove
  · exact fun p _ hp _ => hp
  · exact fun _ p _ hp => hp
  · rintro n p - rfl
    refine ⟨.inl rfl, fun a p' hremove => ?_⟩
    split at hremove
    · cases hremove
      exact .inr rfl
    · cases hremove

/-- Removing the file keeps a key that is elsewhere. -/
theorem triple_removeElsewhere :
  Triple F (Profile.KeepsElsewhere K passwords) Secrets.removeFile
    (fun _ => Profile.KeepsElsewhere K passwords) (Profile.KeepsElsewhere K passwords)
    (Profile.KeepsElsewhere K passwords)
  := by
  apply Triple.of_each
  intro p₀ hp₀
  have hremoved : { p₀ with masterKey := none }.KeepsElsewhere K passwords := by
    apply hp₀.setFile
    rintro s ⟨⟩
  apply triple_removeFile.post
  · rintro _ p rfl
    exact hremoved
  · rintro p rfl
    exact hp₀
  · rintro p (rfl | rfl)
    · exact hp₀
    · exact hremoved

omit [KeyStorage] in
theorem triple_keychainDelete {p₀ : Profile} :
  Triple F (fun p => p = p₀) Secrets.keychainDelete (fun _ p => p = { p₀ with keychain := none })
    (fun p => p = p₀) (fun p => p = p₀ ∨ p = { p₀ with keychain := none })
  := by
  apply Triple.call
  · rintro p a p' rfl ⟨⟩
    rfl
  · rintro p e hp ⟨⟩
  · exact fun _ p _ hp => hp
  · rintro n p - rfl
    refine ⟨.inl rfl, ?_⟩
    rintro a p' ⟨⟩
    exact .inr rfl

omit [KeyStorage] in
/-- What holds after a call whether it failed or not. -/
theorem attempted {α : Type} {r : Except SecretsError α} {P : Prop}
    (h : (∀ a, r = .ok a → P) ∧ ∀ e, r = .error e → P) :
  P
  := by
  cases r with
  | ok a => exact h.1 a rfl
  | error e => exact h.2 e rfl

omit [KeyStorage] in
/-- Part of a text is appended. -/
theorem triple_appendFile {p₀ : Profile} {s text : String} :
  Triple F (fun p => p = { p₀ with masterKey := some s }) (Secrets.appendFile text)
    (fun _ p => p = { p₀ with masterKey := some (s ++ text) })
    (fun p => ∃ n, p = { p₀ with masterKey := some (s ++ String.ofList (text.toList.take n)) })
    (fun p => ∃ n, p = { p₀ with masterKey := some (s ++ String.ofList (text.toList.take n)) })
  := by
  apply Triple.write
  · rintro p rfl
    simp only [Option.map_some, List.take_length, String.ofList_toList]
  · rintro n p - rfl
    exact ⟨_, rfl⟩
  · rintro n p - rfl
    exact ⟨_, rfl⟩

/-- The file is written in part. -/
def PartlyWritten (K : SymmetricKey) (p₀ p : Profile) : Prop :=
  ∃ text, p = { p₀ with masterKey := text } ∧ ∀ s, text = some s → Torn K s

theorem partlyWritten_some {p₀ : Profile} {s : String} (h : Torn K s) :
  PartlyWritten K p₀ { p₀ with masterKey := some s }
  := by
  refine ⟨some s, rfl, ?_⟩
  rintro _ ⟨⟩
  exact h

/-- The file is written, where there was none. -/
theorem triple_writeFile {p₀ : Profile} (hnone : p₀.masterKey = none) :
  Triple F (fun p => p = p₀) (Secrets.writeFile K)
    (fun _ p => p = { p₀ with masterKey := some (Secrets.toB64 K ++ "\n") })
    (PartlyWritten K p₀) (PartlyWritten K p₀)
  := by
  have hbefore : PartlyWritten K p₀ p₀ := by
    refine ⟨none, by rw [← hnone], ?_⟩
    rintro s ⟨⟩
  refine Triple.seq (R := fun p => p = p₀) ?_ ?_
  · apply triple_touch.post
    · exact fun _ p hp => hp
    · rintro p rfl
      exact hbefore
    · rintro p rfl
      exact hbefore
  intro _
  refine Triple.seq (R := fun p => p = { p₀ with masterKey := some "" }) ?_ ?_
  · have hopened : PartlyWritten K p₀ { p₀ with masterKey := some "" } :=
      partlyWritten_some torn_empty
    apply Triple.call
    · rintro p a p' rfl hopen
      rw [hnone] at hopen
      cases hopen
      rfl
    · rintro p e rfl -
      exact hbefore
    · rintro n p - rfl
      exact hbefore
    · rintro n p - rfl
      refine ⟨hbefore, fun a p' hopen => ?_⟩
      rw [hnone] at hopen
      cases hopen
      exact hopened
  intro _
  refine Triple.seq (R := fun p => p = { p₀ with masterKey := some ("" ++ Secrets.toB64 K) }) ?_ ?_
  · apply triple_appendFile.post
    · exact fun _ p hp => hp
    · rintro p ⟨n, rfl⟩
      exact partlyWritten_some (torn_take n)
    · rintro p ⟨n, rfl⟩
      exact partlyWritten_some (torn_take n)
  intro _
  apply triple_appendFile.post
  · rintro _ p rfl
    rw [String.empty_append]
  · rintro p ⟨n, rfl⟩
    rw [String.empty_append]
    exact partlyWritten_some (torn_append n)
  · rintro p ⟨n, rfl⟩
    rw [String.empty_append]
    exact partlyWritten_some (torn_append n)

/-- Removing the plain copies keeps a key that is under a password, and never fails. -/
theorem triple_removePlainCopies {E : Profile → Prop} :
  Triple F (Profile.Protects K passwords) Secrets.removePlainCopies
    (fun _ => Profile.Protects K passwords) E (Profile.Protects K passwords)
  := by
  have hremove : Triple F (Profile.Protects K passwords) Secrets.removeFile
      (fun _ => Profile.Protects K passwords) (Profile.Protects K passwords)
      (Profile.Protects K passwords) := by
    apply Triple.of_each
    intro p₀ hp₀
    apply triple_removeFile.post
    · rintro _ p rfl
      exact hp₀.removeFile
    · rintro p rfl
      exact hp₀
    · rintro p (rfl | rfl)
      · exact hp₀
      · exact hp₀.removeFile
  have hdelete : Triple F (Profile.Protects K passwords) Secrets.keychainDelete
      (fun _ => Profile.Protects K passwords) (Profile.Protects K passwords)
      (Profile.Protects K passwords) := by
    apply Triple.of_each
    intro p₀ hp₀
    apply triple_keychainDelete.post
    · rintro _ p rfl
      exact hp₀.removeKeychain
    · rintro p rfl
      exact hp₀
    · rintro p (rfl | rfl)
      · exact hp₀
      · exact hp₀.removeKeychain
  have hend : Triple F (Profile.Protects K passwords)
      (Faulty.attempt Secrets.keychainDelete >>= fun _ => pure ())
      (fun _ => Profile.Protects K passwords) E (Profile.Protects K passwords) := by
    apply Triple.andThen (Triple.attempt hdelete)
    intro r
    apply Triple.ret
    exact fun p hp => attempted hp
  apply Triple.read_bind
  intro p₀ hp₀
  split
  · apply Triple.andThen (Triple.attempt (hremove.pre (by rintro p rfl; exact hp₀)))
    intro r
    exact hend.pre (fun p hp => attempted hp)
  · exact hend.pre (by rintro p rfl; exact hp₀)

/-- Loading the key from a profile that has it under a password, or in the file. -/
theorem triple_loadOrCreate {fresh : SymmetricKey} {allowFile : Bool} {p₀ : Profile}
    (hp₀ : p₀.Keeps K passwords) (hplace : p₀.masterPw.isSome = true ∨ p₀.masterKey.isSome = true) :
  Triple F (fun p => p = p₀) (Secrets.loadOrCreate fresh allowFile)
    (fun m p => m.key = K ∧ p = p₀) (fun p => p = p₀) (fun p => p = p₀)
  := by
  apply Triple.read_bind
  intro p hp
  rw [hp]
  split
  · exact triple_fail (fun p hp => hp)
  · rename_i hpw
    apply Triple.andThen (Triple.attempt (triple_keychainGet hp₀.keychain))
    intro got
    have hload : Triple F (fun p => p = p₀)
        (Faulty.read >>= fun p : Profile =>
          if p.masterKey.isSome then
            Secrets.readFile >>= fun key => pure (⟨key, .file⟩ : MasterKey)
          else Secrets.create fresh allowFile)
        (fun m p => m.key = K ∧ p = p₀) (fun p => p = p₀) (fun p => p = p₀) := by
      apply Triple.read_bind
      intro p hp
      rw [hp, if_pos (hplace.resolve_left hpw)]
      apply Triple.andThen (triple_readFile hp₀)
      intro key
      exact Triple.ret (fun p hp => hp)
    cases got with
    | error e => exact hload.pre (fun p hp => hp.2 e rfl)
    | ok entry =>
        cases entry with
        | none => exact hload.pre (fun p hp => (hp.1 none rfl).2.2)
        | some key =>
            apply Triple.ret
            intro p hp
            obtain ⟨-, hkey, hp⟩ := hp.1 (some key) rfl
            exact ⟨hkey key rfl, hp⟩

/-- Moving the key into the keychain keeps it. -/
theorem triple_migrate :
  Triple F (Profile.Keeps K passwords) Secrets.migrateFileToKeychain
    (fun _ => Profile.Keeps K passwords) (Profile.Keeps K passwords) (Profile.Keeps K passwords)
  := by
  apply Triple.read_bind
  intro p₀ hp₀
  split
  · apply Triple.ret
    rintro p rfl
    exact hp₀
  · refine Triple.andThen (R := fun key p => key = K ∧ p.Keeps K passwords) ?_ ?_
    · apply (triple_readFile hp₀).post
      · rintro key p ⟨hkey, rfl⟩
        exact ⟨hkey, hp₀⟩
      · rintro p rfl
        exact hp₀
      · rintro p rfl
        exact hp₀
    intro key
    apply Triple.of_each
    rintro p₁ ⟨rfl, hp₁⟩
    refine Triple.seq (R := Profile.KeepsElsewhere key passwords) ?_ ?_
    · apply triple_keychainSet.post
      · rintro _ p rfl
        exact hp₁.setKeychain
      · rintro p rfl
        exact hp₁
      · rintro p (rfl | rfl)
        · exact hp₁
        · exact hp₁.setKeychain.toKeeps
    intro _
    refine Triple.seq (R := Profile.KeepsElsewhere key passwords) ?_ ?_
    · apply (triple_removeElsewhere).post
      · exact fun _ p hp => hp
      · exact fun p hp => hp.toKeeps
      · exact fun p hp => hp.toKeeps
    intro _
    exact Triple.ret (fun p hp => hp.toKeeps)

/-- A key is unwrapped under any password that opens its record. -/
theorem triple_unlockWithPassword {password : String} :
  Triple F (Profile.Keeps K passwords) (Secrets.unlockWithPassword password)
    (fun m p => m.key = K ∧ p.Keeps K passwords) (Profile.Keeps K passwords)
    (Profile.Keeps K passwords)
  := by
  refine Triple.andThen
    (R := fun bytes p => p.masterPw = some bytes ∧ p.Protects K passwords) ?_ ?_
  · apply Triple.call
    · intro p bytes p' hp hread
      split at hread
      · rename_i hpw
        cases hread
        exact ⟨hpw, hp, by rw [hpw]; rfl⟩
      · cases hread
    · exact fun p _ hp _ => hp
    · exact fun _ p _ hp => hp
    · intro n p _ hp
      refine ⟨hp, fun bytes p' hread => ?_⟩
      split at hread
      · cases hread
        exact hp
      · cases hread
  intro bytes
  refine Triple.andThen (R := fun record p => p.Protects K passwords
    ∧ ∀ k, Secrets.unwrapRecord record password = .ok k → k = K) ?_ ?_
  · apply Triple.lift
    · rintro p record ⟨hpw, hp⟩ hparse
      obtain ⟨record', hjson, -, hkey⟩ := hp.record bytes hpw
      rw [Secrets.parseRecord, hjson] at hparse
      cases hparse
      exact ⟨hp, fun k hk => hkey password k hk⟩
    · exact fun p _ hp _ => hp.2.toKeeps
  intro record
  refine Triple.andThen (R := fun key p => key = K ∧ p.Protects K passwords) ?_ ?_
  · apply Triple.lift
    · exact fun p key hp hunwrap => ⟨hp.2 key hunwrap, hp.1⟩
    · exact fun p _ hp _ => hp.1.toKeeps
  intro key
  apply Triple.of_each
  rintro p₁ ⟨rfl, hp₁⟩
  refine Triple.seq (R := Profile.Protects key passwords) ?_ ?_
  · apply (triple_removePlainCopies.pre (by rintro p rfl; exact hp₁)).post
    · exact fun _ p hp => hp
    · exact fun p hp => hp
    · exact fun p hp => hp.toKeeps
  intro _
  exact Triple.ret (fun p hp => ⟨rfl, hp.toKeeps⟩)

omit [KeyStorage] in
/-- Only the file beside `master.pw` is written. -/
def Beside (p₀ p : Profile) : Prop := ∃ tmp, p = { p₀ with masterPwTmp := tmp }

/-- `master.pw` is replaced by a text that was verified. -/
def Renamed (verify : Bytes → Except SecretsError Unit) (p₀ p : Profile) : Prop :=
  ∃ bytes, verify bytes = .ok () ∧ p = { p₀ with masterPw := some bytes, masterPwTmp := none }

omit [KeyStorage] in
/-- `master.pw` is replaced at once, by a text that was read back and verified, or left alone. -/
theorem triple_writeAtomic {contents : Bytes} {verify : Bytes → Except SecretsError Unit}
    {p₀ : Profile} :
  Triple F (Beside p₀) (Secrets.writeAtomic contents verify) (fun _ => Renamed verify p₀)
    (Beside p₀) (fun p => Beside p₀ p ∨ Renamed verify p₀ p)
  := by
  have hremoveTmp : Triple F (Beside p₀) Secrets.removeTmp (fun _ => Beside p₀) (Beside p₀)
      (Beside p₀) := by
    apply Triple.call_keeps
    rintro p a p' ⟨tmp, rfl⟩ hremove
    split at hremove
    · cases hremove
      exact ⟨none, rfl⟩
    · cases hremove
  have hkeeps : ∀ {α : Type} {p : Secrets α} {R : α → Profile → Prop},
      Triple F (Beside p₀) p R (Beside p₀) (Beside p₀) →
        Triple F (Beside p₀) p R (Beside p₀) (fun p => Beside p₀ p ∨ Renamed verify p₀ p) :=
    fun h => h.post (fun _ _ hp => hp) (fun _ hp => hp) (fun _ hp => .inl hp)
  refine Triple.seq (hkeeps triple_touch) (fun _ => Triple.read_bind (fun p₁ hp₁ => ?_))
  refine Triple.seq (R := Beside p₀) ?_ (fun _ => ?_)
  · split
    · exact (hkeeps hremoveTmp).pre (by rintro p rfl; exact hp₁)
    · apply Triple.ret
      rintro p rfl
      exact hp₁
  refine Triple.seq (R := Beside p₀) (hkeeps (Triple.call_keeps ?_)) (fun _ => ?_)
  · rintro p a p' ⟨tmp, rfl⟩ hopen
    split at hopen
    · cases hopen
    · cases hopen
      exact ⟨some [], rfl⟩
  refine Triple.seq (R := Beside p₀) (hkeeps ?_) (fun _ => ?_)
  · apply Triple.write
    · rintro p ⟨tmp, rfl⟩
      exact ⟨_, rfl⟩
    · rintro n p - ⟨tmp, rfl⟩
      exact ⟨_, rfl⟩
    · rintro n p - ⟨tmp, rfl⟩
      exact ⟨_, rfl⟩
  refine Triple.seq (hkeeps triple_touch) (fun _ => ?_)
  have hreadBack : Triple F (Beside p₀) Secrets.readTmp (fun bytes p => p.masterPwTmp = some bytes ∧ Beside p₀ p) (Beside p₀) (Beside p₀) := by
    apply Triple.call
    · intro p bytes p' hp hread
      split at hread
      · rename_i htmp
        cases hread
        exact ⟨htmp, hp⟩
      · cases hread
    · exact fun p _ hp _ => hp
    · exact fun _ p _ hp => hp
    · intro n p _ hp
      refine ⟨hp, fun bytes p' hread => ?_⟩
      split at hread
      · cases hread
        exact hp
      · cases hread
  refine Triple.andThen (hkeeps (Triple.attempt hreadBack)) (fun onDisk => ?_)
  have hbeside : ∀ p : Profile, (∀ bytes, onDisk = .ok bytes →
      p.masterPwTmp = some bytes ∧ Beside p₀ p) ∧ (∀ e, onDisk = .error e → Beside p₀ p) →
        Beside p₀ p :=
    fun p hp => attempted ⟨fun bytes h => (hp.1 bytes h).2, hp.2⟩
  cases hverify : onDisk.bind verify with
  | error e =>
      refine Triple.andThen ((hkeeps (Triple.attempt hremoveTmp)).pre hbeside) (fun r => ?_)
      exact triple_fail (fun p hp => attempted hp)
  | ok u =>
      obtain ⟨bytes, rfl, hbytes⟩ : ∃ bytes, onDisk = .ok bytes ∧ verify bytes = .ok () := by
        cases onDisk with
        | error e => cases hverify
        | ok bytes => exact ⟨bytes, rfl, hverify⟩
      refine Triple.andThen (R := fun _ => Renamed verify p₀) ?_ (fun _ => ?_)
      · have hrename : ∀ p : Profile, p.masterPwTmp = some bytes ∧ Beside p₀ p →
            Renamed verify p₀ { p with masterPw := some bytes, masterPwTmp := none } := by
          rintro p ⟨-, tmp, rfl⟩
          exact ⟨bytes, hbytes, rfl⟩
        apply Triple.call
        · intro p a p' hp h
          have hread := hp.1 bytes rfl
          rw [hread.1] at h
          cases h
          exact hrename p hread
        · exact fun p _ hp _ => hbeside p hp
        · exact fun _ p _ hp => hbeside p hp
        · intro n p hn hp
          refine ⟨.inl (hbeside p hp), ?_⟩
          intro a p' h
          have hread := hp.1 bytes rfl
          rw [hread.1] at h
          cases h
          exact .inr (hrename p hread)
      · refine Triple.andThen (R := fun _ => Renamed verify p₀) ?_ (fun _ => Triple.ret (fun p hp => hp))
        apply (Triple.attempt triple_touch).post
        · exact fun _ p hp => attempted hp
        · exact fun p hp => hp
        · exact fun p hp => .inr hp

/-- A password that is set protects the key, and a failure leaves what was there. -/
theorem triple_setPassword {password : String} {salt : Vector UInt8 16} {nonce : Nonce} :
  Triple F (Profile.Keeps K passwords) (Secrets.setPassword K password salt nonce)
    (fun _ => Profile.Keeps K [password]) (Profile.Keeps K passwords)
    (Profile.Keeps K (passwords ++ [password]))
  := by
  apply Triple.of_each
  intro p₀ hp₀
  have hbeside : ∀ p, Beside p₀ p → p.Keeps K passwords := by
    rintro p ⟨tmp, rfl⟩
    exact hp₀.setTmp tmp
  have hrenamed : ∀ p, Renamed (Secrets.verifyRecord K password) p₀ p → p.Protects K [password] := by
    rintro p ⟨bytes, hverify, rfl⟩
    exact hp₀.setRecord (wraps_of_verifyRecord hverify) none
  have hset : ∀ p : Profile, p.Keeps K [password] → p.Keeps K (passwords ++ [password]) :=
    fun p hp => hp.mono (List.subset_append_right _ _)
  have hold : ∀ p : Profile, p.Keeps K passwords → p.Keeps K (passwords ++ [password]) :=
    fun p hp => hp.mono (List.subset_append_left _ _)
  rw [Secrets.setPassword]
  split
  · apply triple_fail
    rintro p rfl
    exact hp₀
  · refine Triple.andThen (R := fun _ => Beside p₀) ?_ (fun record => ?_)
    · apply Triple.lift
      · rintro p record rfl -
        exact ⟨p.masterPwTmp, rfl⟩
      · rintro p e rfl -
        exact hp₀
    refine Triple.seq (R := Profile.Protects K [password]) ?_ (fun _ => ?_)
    · apply triple_writeAtomic.post
      · exact fun _ p hp => hrenamed p hp
      · exact hbeside
      · rintro p (hp | hp)
        · exact hold p (hbeside p hp)
        · exact hset p (hrenamed p hp).toKeeps
    · apply triple_removePlainCopies.post
      · exact fun _ p hp => hp.toKeeps
      · exact fun p hp => hp
      · exact fun p hp => hset p hp.toKeeps

/-- A plain copy of the key is stored, while a password protects it. -/
theorem triple_storePlain {allowFile : Bool} :
  Triple F (Profile.Protects K passwords) (Secrets.storePlain K allowFile)
    (fun _ p => p.Protects K passwords
      ∧ (p.keychain = some (Secrets.toB64 K) ∨ p.masterKey = some (Secrets.toB64 K ++ "\n")))
    (Profile.Keeps K passwords) (Profile.Keeps K passwords)
  := by
  apply Triple.of_each
  intro p₀ hp₀
  have hstored : { p₀ with keychain := some (Secrets.toB64 K) }.Protects K passwords :=
    ⟨hp₀.setKeychain.toKeeps, hp₀.isSome⟩
  refine Triple.andThen (E := Profile.Keeps K passwords) (X := Profile.Keeps K passwords)
    ((Triple.attempt triple_keychainSet).post (fun _ p hp => hp) (fun p hp => hp) ?_) (fun set => ?_)
  · rintro p (rfl | rfl)
    · exact hp₀.toKeeps
    · exact hstored.toKeeps
  cases set with
  | ok u =>
      apply Triple.ret
      intro p hp
      rw [hp.1 u rfl]
      exact ⟨hstored, .inl rfl⟩
  | error e =>
      dsimp only
      split
      · refine Triple.read_bind (fun p₁ hp₁ => ?_)
        rw [hp₁.2 e rfl]
        refine Triple.seq (R := fun p => p = { p₀ with masterKey := none }) ?_ (fun _ => ?_)
        · split
          · apply triple_removeFile.post
            · exact fun _ p hp => hp
            · rintro p rfl
              exact hp₀.toKeeps
            · rintro p (rfl | rfl)
              · exact hp₀.toKeeps
              · exact hp₀.removeFile.toKeeps
          · rename_i hnone
            apply Triple.ret
            rintro p rfl
            rw [Bool.not_eq_true, Option.isSome_eq_false_iff, Option.isNone_iff_eq_none] at hnone
            rw [← hnone]
        · have hpartly : ∀ p, PartlyWritten K { p₀ with masterKey := none } p → p.Keeps K passwords := by
            rintro p ⟨text, rfl, htext⟩
            exact (hp₀.toElsewhere.setFile htext).toKeeps
          refine Triple.seq ((triple_writeFile rfl).post (fun _ p hp => hp) hpartly hpartly)
            (fun _ => Triple.ret ?_)
          rintro p rfl
          refine ⟨⟨(hp₀.toElsewhere.setFile ?_).toKeeps, hp₀.isSome⟩, .inr rfl⟩
          rintro s ⟨⟩
          exact torn_line
      · apply triple_fail
        intro p hp
        rw [hp.2 e rfl]
        exact hp₀.toKeeps

/-- A password that is removed leaves a plain copy of the key. -/
theorem triple_removePassword {allowFile : Bool} :
  Triple F (Profile.Protects K passwords) (Secrets.removePassword K allowFile)
    (fun _ => Profile.Keeps K passwords) (Profile.Keeps K passwords) (Profile.Keeps K passwords)
  := by
  refine Triple.andThen triple_storePlain (fun source => ?_)
  refine Triple.seq (R := Profile.Keeps K passwords) ?_ (fun _ => Triple.ret (fun p hp => hp))
  have hremoved : ∀ (p : Profile) a p', p.Protects K passwords
      ∧ (p.keychain = some (Secrets.toB64 K) ∨ p.masterKey = some (Secrets.toB64 K ++ "\n")) →
        (if p.masterPw.isSome then Except.ok ((), { p with masterPw := none })
          else Except.error SecretsError.io) = .ok (a, p') → p'.Keeps K passwords := by
    rintro p a p' ⟨hp, hplain⟩ hremove
    rw [if_pos hp.isSome] at hremove
    cases hremove
    refine ⟨hp.keychain, hp.file, ?_, fun _ => hplain⟩
    rintro bytes ⟨⟩
  apply Triple.call
  · exact hremoved
  · exact fun p _ hp _ => hp.1.toKeeps
  · exact fun _ p _ hp => hp.1.toKeeps
  · exact fun _ p _ hp => ⟨hp.1.toKeeps, fun a p' => hremoved p a p' hp⟩

/-- A fresh key that is created is the key of the profile. -/
theorem triple_create {fresh : SymmetricKey} {allowFile : Bool} :
  Triple F (fun p => p = Profile.empty) (Secrets.create fresh allowFile)
    (fun m p => p.Keeps m.key []) (fun _ => True) (fun _ => True)
  := by
  refine Triple.andThen (E := fun _ => True) (X := fun _ => True)
    ((Triple.attempt triple_keychainSet).post (fun _ p hp => hp) (fun p hp => hp) (fun _ _ => trivial))
    (fun set => ?_)
  cases set with
  | ok u =>
      apply Triple.ret
      intro p hp
      rw [hp.1 u rfl]
      refine ⟨?_, ?_, ?_, fun _ => .inl rfl⟩
      · rintro text ⟨⟩
        rfl
      · rintro text ⟨⟩
      · rintro bytes ⟨⟩
  | error e =>
      refine Triple.pre (P := fun p => p = Profile.empty) ?_ (fun p hp => hp.2 e rfl)
      dsimp only
      split
      · refine Triple.seq ((triple_writeFile (K := fresh) rfl).post (fun _ p hp => hp)
          (fun _ _ => trivial) (fun _ _ => trivial)) (fun _ => Triple.ret ?_)
        rintro p rfl
        refine ⟨?_, ?_, ?_, fun _ => .inr rfl⟩
        · rintro text ⟨⟩
        · rintro text ⟨⟩
          exact torn_line
        · rintro bytes ⟨⟩
      · exact triple_fail (fun _ _ => trivial)

/-- A key that is loaded from an empty profile is the key of the profile. -/
theorem triple_firstLoad (fresh : SymmetricKey) (allowFile : Bool) :
  Triple F (fun p => p = Profile.empty) (Secrets.loadOrCreate fresh allowFile)
    (fun m p => p.Keeps m.key []) (fun _ => True) (fun _ => True)
  := by
  refine Triple.read_bind (fun p hp => ?_)
  rw [hp, if_neg (by rintro ⟨⟩)]
  have hget : Triple F (fun p => p = Profile.empty) Secrets.keychainGet
      (fun r p => r = none ∧ p = Profile.empty) (fun p => p = Profile.empty) (fun _ => True) := by
    refine Triple.andThen (R := fun entry p => entry = none ∧ p = Profile.empty) ?_ ?_
    · apply Triple.call
      · rintro p a p' rfl ⟨⟩
        exact ⟨rfl, rfl⟩
      · exact fun p _ hp _ => hp
      · exact fun _ p _ hp => hp
      · exact fun _ _ _ _ => ⟨trivial, fun _ _ _ => trivial⟩
    · rintro (_ | text)
      · exact Triple.ret (fun p hp => ⟨rfl, hp.2⟩)
      · rintro s fates ⟨⟨⟩, -⟩
  refine Triple.andThen (Triple.attempt hget) (fun got => ?_)
  have hload : Triple F (fun p => p = Profile.empty)
      (Faulty.read >>= fun p : Profile =>
        if p.masterKey.isSome then
          Secrets.readFile >>= fun key => pure (⟨key, .file⟩ : MasterKey)
        else Secrets.create fresh allowFile)
      (fun m p => p.Keeps m.key []) (fun _ => True) (fun _ => True) := by
    refine Triple.read_bind (fun p hp => ?_)
    rw [hp, if_neg (by rintro ⟨⟩)]
    exact triple_create
  cases got with
  | error e => exact hload.pre (fun p hp => hp.2 e rfl)
  | ok entry =>
      cases entry with
      | none => exact hload.pre (fun p hp => (hp.1 none rfl).2)
      | some key =>
          intro p fates hp
          cases (hp.1 (some key) rfl).1

/-- Unlocking leaves no plain copy, when no call fails. -/
theorem triple_bare (password : String) :
  Triple (fun f => ∀ n, f ≠ .fails n) (fun _ => True) (Secrets.unlockWithPassword password)
    (fun _ p => p.keychain = none ∧ p.masterKey = none) (fun _ => True) (fun _ => True)
  := by
  have hremove : Triple (fun f => ∀ n, f ≠ .fails n) (fun _ => True) Secrets.removePlainCopies
      (fun _ p => p.keychain = none ∧ p.masterKey = none) (fun _ => True) (fun _ => True) := by
    have hdelete : Triple (fun f => ∀ n, f ≠ .fails n) (fun p : Profile => p.masterKey = none)
        (Faulty.attempt Secrets.keychainDelete >>= fun _ => pure ())
        (fun _ p => p.keychain = none ∧ p.masterKey = none) (fun _ => True) (fun _ => True) := by
      refine Triple.andThen (R := fun _ p => p.keychain = none ∧ p.masterKey = none) ?_
        (fun _ => Triple.ret (fun p hp => hp))
      refine (Triple.attempt (E := fun p => p.keychain = none ∧ p.masterKey = none)
        (Triple.call ?_ ?_ ?_ ?_)).post (fun _ p hp => attempted hp) (fun _ hp => hp)
        (fun _ hp => hp)
      · rintro p a p' hp ⟨⟩
        exact ⟨rfl, hp⟩
      · rintro p e hp ⟨⟩
      · exact fun n p h => absurd rfl (h n)
      · exact fun _ _ _ _ => ⟨trivial, fun _ _ _ => trivial⟩
    refine Triple.read_bind (fun p₀ _ => ?_)
    split
    · rename_i hsome
      refine Triple.andThen (R := fun _ p => p.masterKey = none) ?_ (fun _ => hdelete)
      refine (Triple.attempt (E := fun p => p.masterKey = none)
        (Triple.call ?_ ?_ ?_ ?_)).post (fun _ p hp => attempted hp) (fun _ hp => hp)
        (fun _ hp => hp)
      · rintro p a p' rfl hcall
        rw [if_pos hsome] at hcall
        cases hcall
        rfl
      · rintro p e rfl hcall
        rw [if_pos hsome] at hcall
        cases hcall
      · exact fun n p h => absurd rfl (h n)
      · exact fun _ _ _ _ => ⟨trivial, fun _ _ _ => trivial⟩
    · rename_i hnone
      rw [Bool.not_eq_true, Option.isSome_eq_false_iff, Option.isNone_iff_eq_none] at hnone
      apply hdelete.pre
      rintro p rfl
      exact hnone
  refine Triple.seq (R := fun _ => True) (Triple.call_keeps (fun _ _ _ _ _ => trivial)) (fun bytes => ?_)
  refine Triple.seq (R := fun _ => True)
    (Triple.lift (fun _ _ _ _ => trivial) (fun _ _ _ _ => trivial)) (fun record => ?_)
  refine Triple.seq (R := fun _ => True)
    (Triple.lift (fun _ _ _ _ => trivial) (fun _ _ _ _ => trivial)) (fun key => ?_)
  exact Triple.andThen hremove (fun _ => Triple.ret (fun p hp => hp))

end

/-! ### Sessions -/

section
variable {K : SymmetricKey} {passwords : List String} {p : Profile}

open Faulty

/-- A key in the keychain is loaded from there, unless the first call fails. -/
theorem loadOrCreate_keychain (fresh : SymmetricKey) (allowFile : Bool) (hpw : p.masterPw = none)
    (hkeychain : p.keychain = some (Secrets.toB64 K)) {fates : List Fate}
    (hfates : firstFails fates = false) :
  Secrets.loadOrCreate fresh allowFile p fates = (.ok ⟨K, .keychain⟩, p, fates.tail)
    ∨ Secrets.loadOrCreate fresh allowFile p fates = (.stopped, p, fates.tail) ∧ fates ≠ []
  := by
  have hread : (Secrets.fromB64 (Secrets.toB64 K)).mapError
      (fun _ => SecretsError.keychain "corrupt keychain entry") = .ok K := by
    rw [fromB64_toB64]
    rfl
  cases fates with
  | nil =>
      left
      simp [Secrets.loadOrCreate, Secrets.keychainGet, andThen, Faulty.read, attempt, call,
        Faulty.lift, ret, hpw, hkeychain, hread]
  | cons fate fates =>
      cases fate with
      | done =>
          left
          simp [Secrets.loadOrCreate, Secrets.keychainGet, andThen, Faulty.read, attempt, call,
            Faulty.lift, ret, hpw, hkeychain, hread]
      | fails n => cases hfates
      | stops n =>
          right
          simp [Secrets.loadOrCreate, Secrets.keychainGet, andThen, Faulty.read, attempt, call, hpw]

/-- A key in the file is loaded from there, when the keychain has none and nothing fails. -/
theorem loadOrCreate_file {fresh : SymmetricKey} {allowFile : Bool} (hpw : p.masterPw = none)
    (hkeychain : p.keychain = none) (hfile : p.masterKey = some (Secrets.toB64 K ++ "\n")) :
  Secrets.loadOrCreate fresh allowFile p [] = (.ok ⟨K, .file⟩, p, [])
  := by
  have hread : (Secrets.fromB64 (Secrets.toB64 K ++ "\n")).mapError
      (fun _ => SecretsError.keychain "corrupt master.key") = .ok K := by
    rw [fromB64_line]
    rfl
  simp [Secrets.loadOrCreate, Secrets.keychainGet, Secrets.readFile, andThen, Faulty.read, attempt,
    call, Faulty.lift, ret, hpw, hkeychain, hfile, hread]

/-- A key under a password is unlocked with it, when nothing fails. -/
theorem unlockWithPassword_nil {bytes : Bytes} {record : PasswordRecord} {password : String}
    (hpw : p.masterPw = some bytes) (hjson : KeyStorage.fromJson bytes = some record)
    (hunwrap : Secrets.unwrapRecord record password = .ok K) :
  Secrets.unlockWithPassword password p []
    = (.ok ⟨K, .password⟩, { p with keychain := none, masterKey := none }, [])
  := by
  cases hfile : p.masterKey with
  | none =>
      simp [Secrets.unlockWithPassword, Secrets.parseRecord, Secrets.removePlainCopies,
        Secrets.keychainDelete, andThen, Faulty.read, attempt, call, Faulty.lift, ret, hpw, hjson,
        hunwrap, hfile]
  | some text =>
      simp [Secrets.unlockWithPassword, Secrets.parseRecord, Secrets.removePlainCopies,
        Secrets.keychainDelete, Secrets.removeFile, andThen, Faulty.read, attempt, call,
        Faulty.lift, ret, hpw, hjson, hunwrap, hfile]

/-- When nothing fails, the key can be loaded or unlocked again. -/
theorem reopens_of_keeps (hp : p.Keeps K passwords) :
  (∀ fresh allowFile, ∃ m p', Secrets.loadOrCreate fresh allowFile p [] = (.ok m, p', []))
    ∨ ∃ password ∈ passwords, ∃ m p', Secrets.unlockWithPassword password p [] = (.ok m, p', [])
  := by
  cases hpw : p.masterPw with
  | none =>
      left
      intro fresh allowFile
      cases hkeychain : p.keychain with
      | some text =>
          rw [hp.keychain text hkeychain] at hkeychain
          have hnil : firstFails [] = false := rfl
          rcases loadOrCreate_keychain fresh allowFile hpw hkeychain hnil with hload | ⟨-, hne⟩
          · exact ⟨_, _, hload⟩
          · exact absurd rfl hne
      | none =>
          rcases hp.somewhere hpw with hsome | hfile
          · rw [hkeychain] at hsome
            cases hsome
          · exact ⟨_, _, loadOrCreate_file hpw hkeychain hfile⟩
  | some bytes =>
      right
      obtain ⟨record, hjson, ⟨password, hmem, hunwrap⟩, -⟩ := hp.record bytes hpw
      exact ⟨password, hmem, _, _, unlockWithPassword_nil hpw hjson hunwrap⟩

/-- The profile keeps the key, and the key in memory and those that were returned are that key. -/
structure Session.Sound (s : Session) (K : SymmetricKey) : Prop where
  profile : s.profile.Keeps K s.passwords
  held : ∀ k, s.held = some k → k = K
  first : s.returned.head? = some K
  returned : ∀ k ∈ s.returned, k = K

variable {s : Session}

/-- A profile that changes, beside what is in memory. -/
theorem Session.Sound.setProfile (hs : s.Sound K) (hp : p.Keeps K s.passwords) :
  { s with profile := p }.Sound K ∧ { s with profile := p, held := none }.Sound K
  := by
  refine ⟨⟨hp, hs.held, hs.first, hs.returned⟩, ⟨hp, ?_, hs.first, hs.returned⟩⟩
  rintro k ⟨⟩

/-- A load or an unlock that returns the key and keeps it. -/
theorem Session.Sound.opened (hs : s.Sound K)
    {r : Outcome SecretsError MasterKey × Profile × List Fate}
    (hr : Ends (fun m p => m.key = K ∧ p.Keeps K s.passwords) (fun p => p.Keeps K s.passwords)
      (fun p => p.Keeps K s.passwords) r) :
  (s.opened r).Sound K
  := by
  obtain ⟨outcome, p, rest⟩ := r
  cases outcome with
  | ok m =>
      obtain ⟨hkey, hp⟩ := hr
      refine ⟨hp, ?_, ?_, ?_⟩
      · rintro k ⟨⟩
        exact hkey
      · change (s.returned ++ [m.key]).head? = some K
        rw [List.head?_append, hs.first]
        rfl
      · intro k hk
        rcases List.mem_append.mp hk with hk | hk
        · exact hs.returned k hk
        · rw [List.mem_singleton.mp hk]
          exact hkey
  | error e => exact (hs.setProfile hr).1
  | stopped => exact (hs.setProfile hr).2

/-- An operation that keeps the key. -/
theorem Session.Sound.ran {α : Type} (hs : s.Sound K)
    {r : Outcome SecretsError α × Profile × List Fate}
    (hr : Ends (fun _ p => p.Keeps K s.passwords) (fun p => p.Keeps K s.passwords)
      (fun p => p.Keeps K s.passwords) r) :
  (s.ran r).Sound K
  := by
  obtain ⟨outcome, p, rest⟩ := r
  cases outcome with
  | ok a => exact (hs.setProfile hr).1
  | error e => exact (hs.setProfile hr).1
  | stopped => exact (hs.setProfile hr).2

/-- A password that is set, or may be. -/
theorem Session.Sound.passwordSet (hs : s.Sound K) {password : String}
    {r : Outcome SecretsError Unit × Profile × List Fate}
    (hr : Ends (fun _ p => p.Keeps K [password]) (fun p => p.Keeps K s.passwords)
      (fun p => p.Keeps K (s.passwords ++ [password])) r) :
  (s.passwordSet password r).Sound K
  := by
  obtain ⟨outcome, p, rest⟩ := r
  cases outcome with
  | ok u => exact ⟨hr, hs.held, hs.first, hs.returned⟩
  | error e => exact (hs.setProfile hr).1
  | stopped =>
      refine ⟨hr, ?_, hs.first, hs.returned⟩
      rintro k ⟨⟩

omit [KeyStorage] in
/-- What a triple says of one run, whatever the fates. -/
theorem ends_of_triple {α : Type} {P : Profile → Prop} {x : Secrets α} {Q : α → Profile → Prop}
    {E X : Profile → Prop} (h : Triple (fun _ => True) P x Q E X) (hp : P p) (fates : List Fate) :
  Ends Q E X (x p fates)
  := (h p fates hp (fun _ _ => trivial)).2

/-- An operation within reach of the key keeps the session sound. -/
theorem sound_step (hs : s.Sound K) {l : SessionEvent} (hG : reachable s l = true) {s' : Session}
    (h : s.step l = some s') :
  s'.Sound K
  := by
  cases l with
  | load fresh allowFile fates =>
      cases h
      apply hs.opened
      by_cases hplace : s.profile.masterPw.isSome = true ∨ s.profile.masterKey.isSome = true
      · apply ends_of_triple ((triple_loadOrCreate hs.profile hplace).post _ _ _) rfl fates
        · rintro m p ⟨hkey, rfl⟩
          exact ⟨hkey, hs.profile⟩
        · rintro p rfl
          exact hs.profile
        · rintro p rfl
          exact hs.profile
      · rw [not_or, Bool.not_eq_true, Bool.not_eq_true] at hplace
        have hpw : s.profile.masterPw = none :=
          Option.isNone_iff_eq_none.mp (Option.isSome_eq_false_iff.mp hplace.1)
        have hfile : s.profile.masterKey = none :=
          Option.isNone_iff_eq_none.mp (Option.isSome_eq_false_iff.mp hplace.2)
        have hkeychain : s.profile.keychain = some (Secrets.toB64 K) := by
          apply (hs.profile.somewhere hpw).resolve_right
          rw [hfile]
          rintro ⟨⟩
        have hfates : firstFails fates = false := by
          simpa [reachable, hpw, hfile, hkeychain] using hG
        rcases loadOrCreate_keychain fresh allowFile hpw hkeychain hfates
          with hload | ⟨hload, -⟩
        · rw [hload]
          exact ⟨rfl, hs.profile⟩
        · rw [hload]
          exact hs.profile
  | migrate fates =>
      cases h
      exact hs.ran (ends_of_triple triple_migrate hs.profile fates)
  | setPassword password salt nonce fates =>
      obtain ⟨key, hheld, rfl⟩ := Option.map_eq_some_iff.mp h
      rw [hs.held key hheld]
      exact hs.passwordSet (ends_of_triple triple_setPassword hs.profile fates)
  | unlock password fates =>
      cases h
      exact hs.opened (ends_of_triple triple_unlockWithPassword hs.profile fates)
  | removePassword allowFile fates =>
      obtain ⟨key, hheld, rfl⟩ := Option.map_eq_some_iff.mp h
      rw [hs.held key hheld]
      exact hs.ran (ends_of_triple triple_removePassword ⟨hs.profile, hG⟩ fates)

/-- The master key is kept, in runs that stay within reach of it. -/
theorem masterKeyKept_of_reachable
    (h : Session.system.Reaches (fun s l => reachable s l = true) s) :
  ∃ K, MasterKeyKept s K
  := by
  have hsound : ∃ K, s.Sound K := by
    apply h.invariant
    · rintro s ⟨fresh, allowFile, fates, m, p, rest, hload, rfl⟩
      refine ⟨m.key, ?_, ?_, rfl, ?_⟩
      · have hends := ends_of_triple (triple_firstLoad fresh allowFile) rfl fates
        rw [hload] at hends
        exact hends
      · rintro k ⟨⟩
        rfl
      · intro k hk
        exact List.mem_singleton.mp hk
    · rintro s l s' ⟨K, hs⟩ hG hstep
      exact ⟨K, sound_step hs hG hstep⟩
  obtain ⟨K, hs⟩ := hsound
  refine ⟨K, hs.first, hs.returned, reopens_of_keeps hs.profile, ?_⟩
  intro password fates m p rest hfates hunlock
  have hends := (triple_bare password s.profile fates trivial (by
    rintro f hf n rfl
    exact hfates n hf)).2
  rw [hunlock] at hends
  exact hends

end

end

/-! ### Runs of one profile -/

/-- The bytes of letters, whatever line ends stand between them. -/
def unb64Line (s : String) : Option Bytes :=
  Symbolic.unb64 (String.ofList (s.toList.filter (fun c => decide (c ≠ '\n'))))

/-- No letter is a line end. -/
theorem filter_b64 (bytes : Bytes) :
  (Symbolic.b64 bytes).toList.filter (fun c => decide (c ≠ '\n')) = (Symbolic.b64 bytes).toList
  := by
  rw [List.filter_eq_self]
  intro c hc
  rw [Symbolic.b64, String.toList_ofList] at hc
  obtain ⟨b, -, rfl⟩ := List.mem_map.mp hc
  apply decide_eq_true
  intro heq
  have hvalid : (Char.ofNat (b.toNat + 64)).toNat = b.toNat + 64 := by
    have := b.toNat_lt
    rw [Char.ofNat, dif_pos (.inl (by omega))]
    rfl
  rw [heq] at hvalid
  have hletter : '\n'.toNat = 10 := rfl
  omega

/-- What is left of a line of letters are the letters of the first bytes. -/
theorem filter_take (bytes : Bytes) (n : ℕ) :
  ((Symbolic.b64 bytes ++ "\n").toList.take n).filter (fun c => decide (c ≠ '\n'))
    = (Symbolic.b64 (bytes.take n)).toList
  := by
  have hlength : (Symbolic.b64 bytes).toList.length = bytes.length := by
    rw [Symbolic.b64, String.toList_ofList, List.length_map]
  have htake : (Symbolic.b64 bytes).toList.take n = (Symbolic.b64 (bytes.take n)).toList := by
    rw [Symbolic.b64, Symbolic.b64, String.toList_ofList, String.toList_ofList, List.map_take]
  rw [String.toList_append, List.take_append, List.filter_append, htake, filter_b64]
  have hend : (List.take (n - (Symbolic.b64 bytes).toList.length) "\n".toList).filter
      (fun c => decide (c ≠ '\n')) = [] := by
    rw [List.filter_eq_nil_iff]
    intro c hc
    have hmem := List.mem_of_mem_take hc
    simpa using hmem
  rw [hend, List.append_nil]

theorem unb64Line_b64 (bytes : Bytes) :
  unb64Line (Symbolic.b64 bytes) = some bytes
  := by
  change Symbolic.unb64 (String.ofList ((Symbolic.b64 bytes).toList.filter _)) = some bytes
  rw [filter_b64, String.ofList_toList, Symbolic.unb64_b64]

theorem unb64Line_line (bytes : Bytes) :
  unb64Line (Symbolic.b64 bytes ++ "\n") = some bytes
  := by
  have htake := filter_take bytes (Symbolic.b64 bytes ++ "\n").toList.length
  rw [List.take_length] at htake
  change Symbolic.unb64 (String.ofList ((Symbolic.b64 bytes ++ "\n").toList.filter _)) = some bytes
  rw [htake, String.ofList_toList, Symbolic.unb64_b64, List.take_of_length_le]
  rw [String.toList_append, List.length_append, Symbolic.b64, String.toList_ofList, List.length_map]
  exact Nat.le_add_right _ _

theorem unb64Line_torn (bytes bytes' : Bytes) (n : ℕ)
    (h : unb64Line (String.ofList ((Symbolic.b64 bytes ++ "\n").toList.take n)) = some bytes') :
  bytes' = bytes ∨ bytes'.length ≠ bytes.length
  := by
  change Symbolic.unb64 (String.ofList ((String.ofList
    ((Symbolic.b64 bytes ++ "\n").toList.take n)).toList.filter _)) = some bytes' at h
  rw [String.toList_ofList, filter_take, String.ofList_toList, Symbolic.unb64_b64] at h
  cases h
  by_cases hn : bytes.length ≤ n
  · exact .inl (List.take_of_length_le hn)
  · right
    rw [List.length_take]
    omega

/-- Keys and records spelled with letters; a password spells its key with its first byte. -/
abbrev keyStorage : KeyStorage :=
  { Symbolic.boxes.toPrimitives with
    unb64 := unb64Line
    unb64_b64 := unb64Line_b64
    passwordKey := fun password _ _ => .ok (Vector.replicate 32 (password.headD 0))
    toJson := fun record => utf8 record.wrapped
    fromJson := fun bytes =>
      (fromUtf8 bytes).map (fun wrapped =>
        ⟨1, "argon2id", .default, Symbolic.b64 (List.replicate 16 0), wrapped⟩)
    unb64_line := unb64Line_line
    unb64_torn := unb64Line_torn }

/-- A session after the first load, with the key in the keychain. -/
def firstSession (K : SymmetricKey) : Session :=
  letI := keyStorage
  ⟨{ Profile.empty with keychain := some (Secrets.toB64 K) }, some K, [], [K]⟩

theorem init_firstSession (K : SymmetricKey) :
  (@Session.system keyStorage).init (firstSession K)
  := ⟨K, false, [], ⟨K, .keychain⟩, _, [], rfl, rfl⟩

/-- A password is set, and the process stops after it was renamed into place. -/
def interruptedPassword : SessionEvent :=
  .setPassword "correct horse" (Vector.replicate 16 0) Symbolic.nonce
    [.done, .done, .done, .done, .done, .stops 1]

/-- A session in which the process stops while it sets a password. -/
theorem masterKeyKept_interrupted :
  ∃ s, (@Session.system keyStorage).run (firstSession (Symbolic.vaultKey 5)) [interruptedPassword]
      = some s
    ∧ ∃ K, @MasterKeyKept keyStorage s K
  := by
  refine ⟨_, rfl, ?_⟩
  apply @masterKeyKept_of_reachable keyStorage
  exact .step (l := interruptedPassword) (.init (init_firstSession _)) rfl rfl

/-- A keychain that is out of reach while the key is looked for, and then within reach, has the key
replaced. -/
theorem replaced_not_kept :
  ¬ ∀ s, (@Session.system keyStorage).Reachable s →
    ∃ K, @MasterKeyKept keyStorage s K
  := by
  intro h
  let _ := keyStorage
  have hstep : Session.system.step (firstSession (Symbolic.vaultKey 5))
      (.load (Symbolic.vaultKey 6) true [.fails 0])
        = some ⟨{ Profile.empty with keychain := some (Secrets.toB64 (Symbolic.vaultKey 6)) },
          some (Symbolic.vaultKey 6), [], [Symbolic.vaultKey 5, Symbolic.vaultKey 6]⟩ := rfl
  obtain ⟨K, hkept⟩ := h _ (.step (.init (init_firstSession _)) trivial hstep)
  have hfirst : Symbolic.vaultKey 5 = K := hkept.returned _ List.mem_cons_self
  have hsecond : Symbolic.vaultKey 6 = K :=
    hkept.returned _ (List.mem_cons_of_mem _ (List.mem_singleton_self _))
  rw [← hfirst] at hsecond
  exact absurd hsecond (by decide)

end Termoso.Core
