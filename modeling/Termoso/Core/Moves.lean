import Termoso.Core.Entities
import Termoso.Lib.Faults

/-!
# Moving an entity to another vault

A move reads a row, writes a copy of its payload under a new identifier, and deletes the old one.
The three are statements of their own: an error of the last one leaves the copy behind.  It is the
last one that finds that the vault moved from is read-only for us.
-/

namespace Termoso.Core

open Faulty

namespace Store

/-- Our role in a vault of the server forbids local edits. -/
def readOnly (s : Store) (vaultId : Uuid) : Bool :=
  (s.vaults.get? vaultId).any (fun v => v.kind.isSynced && decide (v.role = .viewer))

section
variable [Primitives]

/-- Decrypt a row of any kind. -/
def decryptAny (V : Type) [Serde V] (s : Store) (row : EntityRow) : Except CoreError (Entity V) :=
  letI : Payload V := { KIND := row.kind }
  s.decryptRow V row

/-- Move an entity to another vault.  What looks a row up, what puts one and what deletes one each
change the store by their last statement at most, so that they change nothing when one of theirs
fails. -/
def moveToVault (V : Type) [Serde V] (id vaultId newId : Uuid) (now now' : DateTime)
    (nonce : Nonce) : Faulty Store CoreError Uuid := do
  let row ← call .db (fun s => .ok (s.row id, s))
  match row with
  | none => lift (.error (.notFound s!"entity {id}"))
  | some row => do
    let s ← read
    let value ← lift (s.decryptAny V row)
    call .db (fun s =>
      (s.putRaw vaultId row.kind newId (Serde.toJson value.data) now nonce).map (fun s => ((), s)))
    call .db (fun s => (s.delete id now').map (fun s => ((), s)))
    return newId

/-! ### What is to hold -/

/-- What is seen of the rows: their vaults, what they hold, and whether they are deleted or dirty. -/
def seen (s : Store) (id : Uuid) : Option (Uuid × String × Bool × Bool) :=
  (s.row id).map (fun r => (r.vaultId, r.data, r.deleted, r.dirty))

/-- A move that fails leaves the rows as they were.  After one that returns, the payload is in the
vault moved to under the new identifier, and the old row is gone or a dirty tombstone. -/
def Moved (V : Type) [Serde V] (s : Store) (id vaultId : Uuid) :
    Outcome CoreError Uuid × Store × List Fate → Prop
  | (.error _, s', _) => s'.seen = s.seen
  | (.ok newId, s', _) =>
    (∃ r value, s.row id = some r ∧ s.decryptAny V r = .ok value
      ∧ ∃ r' k, s'.row newId = some r' ∧ r'.vaultId = vaultId ∧ r'.kind = r.kind
        ∧ r'.deleted = false ∧ s'.vaultKey vaultId = .ok k
        ∧ decryptStr k (Aad.entity r'.kind newId) r'.data = .ok (Serde.toJson value.data))
    ∧ ∀ r, s'.row id = some r → r.deleted = true ∧ r.dirty = true
  | (.stopped, _, _) => True

theorem seen_of_moved {V : Type} [Serde V] {s : Store} {id vaultId : Uuid} {e : CoreError}
    {out : Outcome CoreError Uuid × Store × List Fate} (h : s.Moved V id vaultId out)
    (hout : out.1 = .error e) :
  out.2.1.seen = s.seen
  := by
  rcases out with ⟨_ | _ | _, s', fates⟩
  · cases hout
  · apply h
  · cases hout

/-- The copy is written: the row is there and readable, its kind is known, the vault moved to is
unlocked and not read-only for us, and neither looking up nor writing fails. -/
structure Copies (V : Type) [Serde V] (s : Store) (id vaultId : Uuid) (fates : List Fate)
    (r : EntityRow) : Prop where
  row : s.row id = some r
  readable : ∃ value, s.decryptAny V r = .ok value
  kind : isKnownKind r.kind = true
  unlocked : ∃ k, s.vaultKey vaultId = .ok k
  writable : s.readOnly vaultId = false
  looked : ∀ f ∈ fates[0]?, f = .done
  wrote : ∀ f ∈ fates[1]?, f = .done

/-! ### Putting and deleting -/

section
variable {V : Type} [Serde V] {s s' : Store} {id vaultId newId : Uuid} {kind json : String}
  {now now' : DateTime} {nonce : Nonce} {fates : List Fate} {r : EntityRow}

omit [Primitives] in
theorem readOnly_eq_false {v : LocalVault} (h : s.vaults.get? vaultId = some v) :
  s.readOnly vaultId = false ↔ ¬ (v.kind.isSynced = true ∧ v.role = .viewer)
  := by
  rw [readOnly, h, Option.any_some, Bool.and_eq_false_iff, decide_eq_false_iff_not, not_and_or,
    Bool.not_eq_true]

/-- An entity of a known kind can be put into a vault that is unlocked and not read-only for us. -/
theorem putRaw_isOk_iff :
  (∃ s', s.putRaw vaultId kind id json now nonce = .ok s')
    ↔ isKnownKind kind = true ∧ (∃ k, s.vaultKey vaultId = .ok k) ∧ s.readOnly vaultId = false
  := by
  constructor
  · rintro ⟨s', h⟩
    obtain ⟨v, k, hv, hk, hrole, hkind, -⟩ := putRaw_eq_ok h
    refine ⟨hkind, ⟨k, vaultKey_eq_ok.mpr ⟨v, hv, hk⟩⟩, (readOnly_eq_false hv).mpr hrole⟩
  · rintro ⟨hkind, ⟨k, hk⟩, hrole⟩
    obtain ⟨v, hv, -⟩ := vaultKey_eq_ok.mp hk
    have hwritable : s.writableVault vaultId = .ok v :=
      writableVault_eq_ok.mpr ⟨hv, (readOnly_eq_false hv).mp hrole⟩
    have hencrypt : s.encryptPayload vaultId kind id nonce json
        = .ok (encryptStr k (Aad.entity kind id) nonce json, v.keyVersion) := by
      rw [encryptPayload, hk, vault_eq_ok.mpr hv]
      rfl
    rw [putRaw, if_neg (by simp [hkind]), hencrypt]
    simp only [hwritable, bind, Except.bind]
    exact ⟨_, rfl⟩

omit [Primitives] in
/-- A row can be deleted from a vault that is there and not read-only for us. -/
theorem delete_isOk_iff (now : DateTime) (hrow : s.row id = some r) {v : LocalVault}
    (hv : s.vaults.get? r.vaultId = some v) :
  (∃ s', s.delete id now = .ok s') ↔ s.readOnly r.vaultId = false
  := by
  constructor
  · rintro ⟨s', h⟩
    rcases delete_eq_ok h with ⟨hnone, -⟩ | ⟨r', v', hrow', hv', hrole, -⟩
    · cases hrow.symm.trans hnone
    · cases hrow.symm.trans hrow'
      exact (readOnly_eq_false hv').mpr hrole
  · intro hrole
    have hwritable : s.writableVault r.vaultId = .ok v :=
      writableVault_eq_ok.mpr ⟨hv, (readOnly_eq_false hv).mp hrole⟩
    rw [delete, hrow]
    simp only [hwritable, bind, Except.bind]
    split
    · exact ⟨_, rfl⟩
    · exact ⟨_, rfl⟩

theorem vault_of_decryptAny {value : Entity V} (h : s.decryptAny V r = .ok value) :
  ∃ v, s.vaults.get? r.vaultId = some v
  := by
  obtain ⟨k, hk, -⟩ := bind_eq_ok.mp h
  obtain ⟨v, hv, -⟩ := vaultKey_eq_ok.mp hk
  use v

/-! ### How a move ends -/

/-- A move ends before the copy is written, with the store as it was; or it fails to delete the old
row, with the copy written; or it returns. -/
theorem moveToVault_cases
    (hreturns : (moveToVault V id vaultId newId now now' nonce s fates).1 ≠ .stopped) :
  (∃ e fates', moveToVault V id vaultId newId now now' nonce s fates = (.error e, s, fates')
      ∧ ∀ r, ¬ s.Copies V id vaultId fates r)
    ∨ ∃ r value s₁, s.Copies V id vaultId fates r ∧ s.decryptAny V r = .ok value
      ∧ s.putRaw vaultId r.kind newId (Serde.toJson value.data) now nonce = .ok s₁
      ∧ ((∃ e fates', moveToVault V id vaultId newId now now' nonce s fates = (.error e, s₁, fates')
          ∧ ((∃ e, s₁.delete id now' = .error e) ∨ ∃ n, fates[2]? = some (.fails n)))
        ∨ ∃ s₂ fates', moveToVault V id vaultId newId now now' nonce s fates = (.ok newId, s₂, fates')
          ∧ s₁.delete id now' = .ok s₂ ∧ ∀ n, fates[2]? ≠ some (.fails n))
  := by
  have hsecond : fates.tail[0]? = fates[1]? := by
    rw [List.getElem?_tail]
  have hthird : fates.tail.tail[0]? = fates[2]? := by
    rw [List.getElem?_tail, List.getElem?_tail]
  revert hreturns
  unfold moveToVault
  simp only [bind_eq_andThen]
  intro hreturns
  rcases call_andThen_cases hreturns with ⟨row, s', hread, hlooked, heq⟩ | ⟨e, hfailed, heq⟩
  · obtain ⟨hrow, rfl⟩ := Prod.mk.inj (Except.ok.inj hread)
    rw [heq] at hreturns
    rw [heq]
    cases row with
    | none =>
        left
        refine ⟨_, _, rfl, ?_⟩
        intro r hcopies
        cases hcopies.row.symm.trans hrow
    | some r =>
        simp only [read_andThen] at hreturns ⊢
        cases hvalue : s.decryptAny V r with
        | error e =>
            left
            refine ⟨_, _, lift_error_andThen _ _ _ _, ?_⟩
            intro r' hcopies
            cases hcopies.row.symm.trans hrow
            obtain ⟨value, hvalue'⟩ := hcopies.readable
            cases hvalue.symm.trans hvalue'
        | ok value =>
            rw [hvalue, lift_ok_andThen] at hreturns
            rw [lift_ok_andThen]
            rcases call_andThen_cases hreturns with ⟨_, s₁, hmap, hwrote, heq₁⟩ | ⟨e, hfailed, heq₁⟩
            · rw [heq₁] at hreturns
              obtain ⟨_, hput, hpair⟩ := map_eq_ok.mp hmap
              cases hpair
              obtain ⟨hkind, hunlocked, hwritable⟩ := putRaw_isOk_iff.mp ⟨_, hput⟩
              right
              refine ⟨r, value, s₁, ?_, hvalue, hput, ?_⟩
              · exact ⟨hrow, ⟨value, hvalue⟩, hkind, hunlocked, hwritable, hlooked,
                  hsecond ▸ hwrote⟩
              · rcases call_andThen_cases hreturns with
                  ⟨_, s₂, hmap, hdeleted, heq₂⟩ | ⟨e, hfailed, heq₂⟩
                · obtain ⟨_, hdelete, hpair⟩ := map_eq_ok.mp hmap
                  cases hpair
                  right
                  refine ⟨s₂, fates.tail.tail.tail, ?_, hdelete, ?_⟩
                  · rw [heq₁, heq₂]
                    rfl
                  · intro n hfails
                    cases hdeleted _ (hthird.trans hfails)
                · left
                  refine ⟨e, fates.tail.tail.tail, ?_, ?_⟩
                  · rw [heq₁, heq₂]
                  · rw [← hthird]
                    apply hfailed.imp_left
                    intro hdelete
                    cases hresult : s₁.delete id now' with
                    | ok s₂ =>
                        rw [hresult] at hdelete
                        cases hdelete
                    | error e => exact ⟨e, rfl⟩
            · left
              refine ⟨e, fates.tail.tail, heq₁, ?_⟩
              intro r' hcopies
              cases hcopies.row.symm.trans hrow
              rcases hfailed with hfailed | ⟨n, hfailed⟩
              · obtain ⟨s₁, hput⟩ := putRaw_isOk_iff.mpr
                  ⟨hcopies.kind, hcopies.unlocked, hcopies.writable⟩
                rw [hput] at hfailed
                cases hfailed
              · cases hcopies.wrote _ (hsecond.symm.trans hfailed)
  · left
    refine ⟨_, _, heq, ?_⟩
    intro r hcopies
    rcases hfailed with hfailed | ⟨n, hfailed⟩
    · cases hfailed
    · cases hcopies.looked _ hfailed

end

/-- A move is as it should be exactly when, in case the copy is written, the vault moved from is not
read-only for us, and deleting the old row does not fail. -/
theorem moved_iff {V : Type} [Serde V] {s : Store} {id vaultId newId : Uuid} {now now' : DateTime}
    {nonce : Nonce} {fates : List Fate} (hnew : s.row newId = none)
    (hreturns : (moveToVault V id vaultId newId now now' nonce s fates).1 ≠ .stopped) :
  s.Moved V id vaultId (moveToVault V id vaultId newId now now' nonce s fates)
    ↔ ∀ r, s.Copies V id vaultId fates r →
      s.readOnly r.vaultId = false ∧ ∀ n, fates[2]? ≠ some (.fails n)
  := by
  rcases moveToVault_cases hreturns with
    ⟨e, fates', heq, hnone⟩ | ⟨r, value, s₁, hcopies, hvalue, hput, hdelete⟩
  · rw [heq]
    constructor
    · intro _ r hcopies
      apply absurd hcopies (hnone r)
    · intro _
      rfl
  · obtain ⟨v, k, hv, hk, -, -, hvaults, -, -, -, hrows⟩ := putRaw_eq_ok hput
    have hne : id ≠ newId := by
      intro heq
      rw [← heq, hcopies.row] at hnew
      cases hnew
    have hrow₁ : s₁.row id = some r := by
      rw [hrows id, if_neg hne, hcopies.row]
    have hreadOnly : s₁.readOnly r.vaultId = s.readOnly r.vaultId := by
      rw [readOnly, readOnly, hvaults]
    obtain ⟨w, hw⟩ := vault_of_decryptAny hvalue
    have hdeletes := delete_isOk_iff now' hrow₁ (hvaults ▸ hw)
    rw [hreadOnly] at hdeletes
    rcases hdelete with ⟨e, fates', heq, hfailed⟩ | ⟨s₂, fates', heq, hdelete, hnot⟩
    · rw [heq]
      constructor
      · intro hseen
        have hcopy := congrFun (hseen : s₁.seen = s.seen) newId
        rw [seen, seen, hnew, hrows newId, if_pos rfl] at hcopy
        cases hcopy
      · intro h
        obtain ⟨hwritable, hfails⟩ := h r hcopies
        rcases hfailed with ⟨e', herror⟩ | ⟨n, hn⟩
        · obtain ⟨s₂, hok⟩ := hdeletes.mpr hwritable
          cases herror.symm.trans hok
        · apply absurd hn (hfails n)
    · have hwritable : s.readOnly r.vaultId = false := hdeletes.mp ⟨s₂, hdelete⟩
      rw [heq]
      constructor
      · intro _ r' hcopies'
        cases hcopies.row.symm.trans hcopies'.row
        exact ⟨hwritable, hnot⟩
      · intro _
        rcases delete_eq_ok hdelete with ⟨hnone, -⟩ | ⟨r', v', hr', hv', -, hvaults₂, -, -, -, hrows₂⟩
        · cases hrow₁.symm.trans hnone
        · cases hrow₁.symm.trans hr'
          have hcopy : s₂.row newId = s₁.row newId := (hrows₂ newId).trans (if_neg hne.symm)
          refine ⟨⟨r, value, hcopies.row, hvalue, ?_⟩, ?_⟩
          · refine ⟨_, k, hcopy.trans ((hrows newId).trans (if_pos rfl)), rfl, rfl, rfl, ?_,
              decryptStr_encryptStr⟩
            rw [vaultKey, hvaults₂, hvaults, hv, Option.bind_some, hk]
          · intro r'' hr''
            rw [hrows₂ id, if_pos rfl] at hr''
            split at hr''
            · cases hr''
              exact ⟨rfl, rfl⟩
            · cases hr''

end

end Store

/-! ### A device with an entity of a team -/

namespace Moves

open Symbolic

/-- A JSON value, as its text. -/
structure JsonText where
  text : String
deriving DecidableEq

scoped instance : Serde JsonText := ⟨JsonText.text, fun text => some ⟨text⟩⟩

theorem nodup_vaultIds : ([1, 2] : List Uuid).Nodup := by decide

/-- A device with a personal vault, a vault of a team in which our role is as given, and a snippet in
the latter that the server knows. -/
def teamDevice (role : VaultRole) : Store :=
  { Store.empty with
    vaults := ⟨[⟨1, .personal, "Personal", none, .manager, some (vaultKey 7), 1, 0, false, 0, true⟩,
        ⟨2, .team, "Ops", some 9, role, some (vaultKey 8), 1, 0, false, 0, false⟩],
      nodup_vaultIds⟩
    entities := ⟨[⟨10, "snippet", 2, 3, 5, false, 1,
        encryptStr (vaultKey 8) (Aad.entity "snippet" 10) nonce "null", 0, false⟩],
      List.nodup_singleton _⟩ }

/-- Move the snippet to the personal vault, while no statement fails. -/
def moveSnippet (role : VaultRole) : Outcome CoreError Uuid × Store × List Fate :=
  Store.moveToVault JsonText 10 1 11 20 21 nonce (teamDevice role) []

/-- The move of an editor is as it should be. -/
theorem moved_editor :
  (teamDevice .editor).Moved JsonText 10 1 (moveSnippet .editor)
  := by
  have hnew : (teamDevice .editor).row 11 = none := by decide +kernel
  have hreturns : (moveSnippet .editor).1 ≠ .stopped := by decide +kernel
  have hvault : ((teamDevice .editor).row 10).map EntityRow.vaultId = some 2 := by decide +kernel
  have hwritable : (teamDevice .editor).readOnly 2 = false := by decide +kernel
  unfold moveSnippet at *
  generalize teamDevice .editor = s at *
  apply (Store.moved_iff hnew hreturns).mpr
  intro r hcopies
  rw [hcopies.row] at hvault
  rw [Option.some.inj hvault]
  constructor
  · apply hwritable
  · intro n h
    cases h

/-- The move of a viewer fails, and leaves the copy behind. -/
theorem not_moved_viewer :
  (moveSnippet .viewer).1 = .error (.vaultReadOnly 2)
    ∧ ¬ (teamDevice .viewer).Moved JsonText 10 1 (moveSnippet .viewer)
  := by
  have hfails : (moveSnippet .viewer).1 = .error (.vaultReadOnly 2) := by decide +kernel
  have hcopy : ((moveSnippet .viewer).2.1.seen 11).isSome = true := by decide +kernel
  have hnone : (teamDevice .viewer).seen 11 = none := by decide +kernel
  generalize moveSnippet .viewer = out at *
  generalize teamDevice .viewer = s at *
  constructor
  · apply hfails
  · intro hmoved
    rw [Store.seen_of_moved hmoved hfails, hnone] at hcopy
    cases hcopy

end Moves

end Termoso.Core
