import Termoso.Core.Hosts
import Termoso.Core.History

/-!
# Hosts on a device

The cards of a vault show its hosts as they are resolved; what is listed of a store is what is seen
of it under the identifiers.
-/

namespace Termoso.Client

open Core

/-- Error handed to the user. -/
inductive ClientError
  | core (e : CoreError)
  | new (kind message : String)
deriving DecidableEq

namespace ClientError

def invalid (message : String) : ClientError := .new "invalid" message

end ClientError

/-! ### Cards -/

section
variable [Primitives] [ModelSerde] [Serde ConnectionHistory]

/-- The hosts of a vault, resolved, as their cards show them. -/
def cards (handle : Option String) (vaultId : Option Uuid) (s : Store) :
    Except CoreError (List ResolvedHost) := do
  let hosts ← s.list Host vaultId
  let _ ← s.connections 2000
  hosts.mapM (fun h => s.resolveHost handle h.id)

end

end Termoso.Client

namespace Termoso.Core

namespace Store

section
variable [Primitives] [ModelSerde] {s s' : Store} {id vaultId : Uuid} {row : EntityRow}
  {e : Entity Host}

/-- The host with an identifier, if there is one that opens. -/
def hostAt (s : Store) (id : Uuid) : Option (Entity Host) := (s.get Host id).toOption.join

theorem hostAt_eq_some_iff :
  s.hostAt id = some e
    ↔ ∃ row, s.row id = some row ∧ row.deleted = false ∧ row.kind = Payload.KIND Host
      ∧ s.decryptRow Host row = .ok e
  := by
  rw [hostAt, get]
  cases hrow : s.row id with
  | none => simp [Except.toOption]
  | some row =>
      dsimp only
      split
      · rename_i hthis
        cases hdec : s.decryptRow Host row with
        | error err => simp [Except.toOption, Except.map, hdec]
        | ok e' => simp [Except.toOption, Except.map, hdec, hthis]
      · rename_i hnot
        constructor
        · intro h
          cases h
        · rintro ⟨row', hrow', hlive, hkind, -⟩
          cases hrow'
          exact absurd ⟨hlive, hkind⟩ hnot

theorem hostAt_of_get {o : Option (Entity Host)} (h : s.get Host id = .ok o) :
  s.hostAt id = o
  := by
  rw [hostAt, h]
  rfl

/-- A host that is listed is seen. -/
theorem hostAt_of_mem_list {hosts : List (Entity Host)}
    (h : s.list Host (some vaultId) = .ok hosts) (he : e ∈ hosts) :
  s.hostAt e.id = some e ∧ e.vaultId = vaultId
  := by
  obtain ⟨row, hmem, hdec⟩ := (decryptRows_eq_ok h).1 e he
  obtain ⟨hget, hvault, hkind, hlive⟩ := mem_rows_iff.mp hmem
  obtain ⟨hid, hvault'⟩ := decryptRow_eq_ok hdec
  rw [hostAt_eq_some_iff, hid]
  refine ⟨⟨row, ?_, hlive, hkind, hdec⟩, hvault'.trans hvault⟩
  exact hget

/-- A host of a vault that is seen is listed. -/
theorem mem_list_of_hostAt {hosts : List (Entity Host)}
    (h : s.list Host (some vaultId) = .ok hosts) (he : s.hostAt id = some e)
    (hvault : e.vaultId = vaultId) :
  e ∈ hosts
  := by
  rw [hostAt_eq_some_iff] at he
  obtain ⟨row, hrow, hlive, hkind, hdec⟩ := he
  have hmem : row ∈ s.rows ⟨some vaultId, some (Payload.KIND Host), false⟩ := by
    rw [mem_rows_iff, id_of_row hrow]
    exact ⟨hrow, (decryptRow_eq_ok hdec).2.symm.trans hvault, hkind, hlive⟩
  rcases (decryptRows_eq_ok h).2 row hmem with ⟨e', he', hdec'⟩ | ⟨locked, hdec'⟩
  · rw [hdec] at hdec'
    cases hdec'
    exact he'
  · rw [hdec] at hdec'
    cases hdec'

end

end Store

end Termoso.Core
