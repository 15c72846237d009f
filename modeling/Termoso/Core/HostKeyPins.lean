import Termoso.Core.HostKeys
import Termoso.Lib.Pinning

/-!
# What is pinned

The pins of a store: for each vault, host and type, the keys that live entities of the vault pin
when the vault is unlocked and they open.  Comparing a presented key reads them, over all vaults;
pinning a key replaces those of one vault for one host and type; importing a file admits its entries
one after the other.
-/

namespace Termoso.Core

open Script

/-- A host in lower case, and a type of key. -/
abbrev Slot := String × String

def KnownHost.slot (pin : KnownHost) : Slot := (toAsciiLowercase pin.hostname, pin.keyType)

/-- The outcome of a comparison, without the keys compared. -/
inductive KeyStatus
  | known
  | unknown
  | changed
deriving DecidableEq

def HostKeyVerdict.status : HostKeyVerdict → KeyStatus
  | .known => .known
  | .unknown _ => .unknown
  | .changed _ _ => .changed

theorem HostKeyVerdict.status_eq_known {v : HostKeyVerdict} :
  v.status = .known ↔ v = .known
  := by
  cases v <;> simp [status]

variable [HostKeyLibrary]

def slotOf (host : String) (port : UInt16) (key : PublicKey) : Slot :=
  (toAsciiLowercase (hostId host port), HostKeyLibrary.algorithm key)

/-- The slot and the text of the key of an entry. -/
def Entry.pinned (e : Entry) : Slot × String :=
  (slotOf e.1 e.2.1 e.2.2, HostKeyLibrary.keyB64 e.2.2)

/-! ### Comparing -/

section
variable {presented : HostKeyInfo} {known : Bool} {pins : List (Entity KnownHost)}

omit [HostKeyLibrary] in
theorem comparePins_changed :
  (comparePins presented known pins).status = .changed
    ↔ ∃ p ∈ pins, p.data.keyType = presented.keyType ∧ trim p.data.publicKey ≠ presented.publicKey
  := by
  induction pins generalizing known with
  | nil => cases known <;> simp [comparePins, HostKeyVerdict.status]
  | cons p pins ih =>
      rw [comparePins]
      split
      · rename_i htype
        simp [ih, htype]
      · rename_i htype
        rw [not_not] at htype
        split
        · rename_i hkey
          simp [ih, htype, hkey]
        · rename_i hkey
          simp [HostKeyVerdict.status, htype, hkey]

omit [HostKeyLibrary] in
theorem comparePins_known :
  (comparePins presented known pins).status = .known
    ↔ (known = true ∨ ∃ p ∈ pins, p.data.keyType = presented.keyType)
      ∧ ∀ p ∈ pins, p.data.keyType = presented.keyType →
        trim p.data.publicKey = presented.publicKey
  := by
  induction pins generalizing known with
  | nil => cases known <;> simp [comparePins, HostKeyVerdict.status]
  | cons p pins ih =>
      rw [comparePins]
      split
      · rename_i htype
        simp [ih, htype]
      · rename_i htype
        rw [not_not] at htype
        split
        · rename_i hkey
          simp [ih, htype, hkey]
        · rename_i hkey
          simp [HostKeyVerdict.status, htype, hkey]

end

namespace Store

variable [Primitives] {s s' : Store} {e : Entity KnownHost} {pins : List (Entity KnownHost)}
  {host : String} {port : UInt16} {key : PublicKey} {vaultId : Uuid}

/-! ### The pins of a store -/

/-- A row that pins a key, when it opens. -/
def PinRow (s : Store) (r : EntityRow) : Prop :=
  s.row r.id = some r ∧ r.deleted = false ∧ r.kind = Payload.KIND KnownHost

/-- A pin of an unlocked vault. -/
def Pin (s : Store) (e : Entity KnownHost) : Prop :=
  ∃ r, s.PinRow r ∧ s.shown EntityRow.vaultId (entityView KnownHost) r = .ok (some e)

/-- Every pin of an unlocked vault opens. -/
def PinsOpen (s : Store) : Prop :=
  ∀ r, s.PinRow r → ∃ o, s.shown EntityRow.vaultId (entityView KnownHost) r = .ok o

/-- The keys a store pins. -/
def pinned (s : Store) : Pins Uuid Slot String :=
  fun vaultId slot =>
    {k | ∃ e, s.Pin e ∧ e.vaultId = vaultId ∧ e.data.slot = slot ∧ trim e.data.publicKey = k}

/-- The vault takes local edits. -/
def Editable (s : Store) (vaultId : Uuid) : Prop :=
  ∃ v k, s.vaults.get? vaultId = some v ∧ v.wrappedKey = some k
    ∧ ¬ (v.kind.isSynced = true ∧ v.role = .viewer)

omit [HostKeyLibrary] [Primitives] in
theorem shown_congr {ρ β : Type} {vault : ρ → Uuid}
    {view : SymmetricKey → ρ → Except CoreError (Option β)} (h : s'.vaults = s.vaults) :
  s'.shown vault view = s.shown vault view
  := by
  funext r
  rw [shown, shown, vaultKey, vaultKey, h]

omit [HostKeyLibrary] in
/-- What is shown of a row keeps its identifier and its vault. -/
theorem entity_of_shown {T : Type} [Payload T] {r : EntityRow} {e : Entity T}
    (h : s.shown EntityRow.vaultId (entityView T) r = .ok (some e)) :
  e.id = r.id ∧ e.vaultId = r.vaultId ∧ ∃ k, s.vaultKey r.vaultId = .ok k
  := by
  rw [shown] at h
  split at h
  · rename_i k hkey
    rw [entityView] at h
    split at h
    · cases h
    · split at h
      · cases h
        exact ⟨rfl, rfl, k, hkey⟩
      · cases h
  · cases h

omit [Primitives] in
theorem mem_pinRows {r : EntityRow} :
  r ∈ s.rows ⟨none, some (Payload.KIND KnownHost), false⟩ ↔ s.PinRow r
  := by
  simp [mem_rows, EntityFilter.accepts, PinRow, and_comm]

theorem allPins_eq_collect :
  s.allPins = collect (s.shown EntityRow.vaultId (entityView KnownHost))
    (s.rows ⟨none, some (Payload.KIND KnownHost), false⟩)
  := by
  rw [allPins, list, decryptRows_eq_collect]

theorem exists_allPins :
  (∃ pins, s.allPins = .ok pins) ↔ s.PinsOpen
  := by
  rw [allPins_eq_collect, exists_collect_eq_ok]
  simp only [mem_pinRows, PinsOpen]

theorem mem_allPins (h : s.allPins = .ok pins) :
  e ∈ pins ↔ s.Pin e
  := by
  rw [allPins_eq_collect] at h
  rw [mem_of_collect_eq_ok h]
  simp only [mem_pinRows, Pin]

/-- Two pins with one identifier are the same. -/
theorem Pin.unique {e' : Entity KnownHost} (h : s.Pin e) (h' : s.Pin e') (hid : e.id = e'.id) :
  e = e'
  := by
  obtain ⟨r, hrow, hshown⟩ := h
  obtain ⟨r', hrow', hshown'⟩ := h'
  have hr := hrow.1
  rw [← (entity_of_shown hshown).1, hid, (entity_of_shown hshown').1, hrow'.1] at hr
  cases hr
  rw [hshown] at hshown'
  cases hshown'
  rfl

theorem exists_forHost :
  (∃ pins, s.forHost host port = .ok pins) ↔ s.PinsOpen
  := by
  rw [← exists_allPins, forHost]
  cases s.allPins <;> simp [Except.map]

theorem mem_forHost (h : s.forHost host port = .ok pins) :
  e ∈ pins ↔ s.Pin e ∧ toAsciiLowercase e.data.hostname = toAsciiLowercase (hostId host port)
  := by
  rw [forHost] at h
  obtain ⟨all, hall, rfl⟩ := map_eq_ok.mp h
  rw [List.mem_filter, mem_allPins hall, pinsHost, decide_eq_true_eq]

theorem exists_check :
  (∃ v, s.check host port key = .ok v) ↔ s.PinsOpen
  := by
  have hlist : (∃ pins, s.forHost host port = .ok pins) ↔ s.PinsOpen := exists_forHost
  rw [← hlist, check]
  cases s.forHost host port <;> simp [Except.map]

/-- A pin for the presented host and type, in a listing of the pins of the host. -/
theorem mem_everywhere_pinned (h : s.forHost host port = .ok pins) {k : String} :
  k ∈ s.pinned.everywhere (slotOf host port key)
    ↔ ∃ p ∈ pins, p.data.keyType = (keyInfo host port key).keyType ∧ trim p.data.publicKey = k
  := by
  constructor
  · rintro ⟨v, p, hpin, -, hslot, hk⟩
    rw [KnownHost.slot, slotOf, Prod.mk.injEq] at hslot
    exact ⟨p, (mem_forHost h).mpr ⟨hpin, hslot.1⟩, hslot.2, hk⟩
  · rintro ⟨p, hp, htype, hk⟩
    obtain ⟨hpin, hhost⟩ := (mem_forHost h).mp hp
    exact ⟨p.vaultId, p, hpin, rfl, Prod.ext hhost htype, hk⟩

/-- A comparison finds a change when a vault pins another key for the host and type, and knows the
key when a vault pins it and none pins another. -/
theorem check_status {v : HostKeyVerdict} (h : s.check host port key = .ok v) :
  (v.status = .changed
      ↔ ∃ k ∈ s.pinned.everywhere (slotOf host port key), k ≠ HostKeyLibrary.keyB64 key)
    ∧ (v.status = .known ↔ s.pinned.Known (slotOf host port key) (HostKeyLibrary.keyB64 key))
  := by
  rw [check] at h
  obtain ⟨pins, hpins, rfl⟩ := map_eq_ok.mp h
  constructor
  · rw [comparePins_changed]
    constructor
    · rintro ⟨p, hp, htype, hkey⟩
      exact ⟨_, (mem_everywhere_pinned hpins).mpr ⟨p, hp, htype, rfl⟩, hkey⟩
    · rintro ⟨k, hk, hne⟩
      obtain ⟨p, hp, htype, rfl⟩ := (mem_everywhere_pinned hpins).mp hk
      exact ⟨p, hp, htype, hne⟩
  · rw [comparePins_known, Pins.known_iff]
    constructor
    · rintro ⟨hsome | ⟨p, hp, htype⟩, hall⟩
      · cases hsome
      · refine ⟨(mem_everywhere_pinned hpins).mpr ⟨p, hp, htype, hall p hp htype⟩, ?_⟩
        intro k hk
        obtain ⟨p', hp', htype', rfl⟩ := (mem_everywhere_pinned hpins).mp hk
        exact hall p' hp' htype'
    · rintro ⟨hmem, hall⟩
      obtain ⟨p, hp, htype, -⟩ := (mem_everywhere_pinned hpins).mp hmem
      refine ⟨.inr ⟨p, hp, htype⟩, ?_⟩
      intro p' hp' htype'
      exact hall _ ((mem_everywhere_pinned hpins).mpr ⟨p', hp', htype', rfl⟩)

/-! ### Deleting pins -/

section
variable {w : LocalVault} {now : DateTime} {r : EntityRow} {id : Uuid}

omit [HostKeyLibrary] [Primitives] in
theorem Editable.writableVault (h : s.Editable vaultId) :
  ∃ v, s.writableVault vaultId = .ok v
  := by
  obtain ⟨v, k, hv, -, hwrite⟩ := h
  exact ⟨v, writableVault_eq_ok.mpr ⟨hv, hwrite⟩⟩

omit [HostKeyLibrary] [Primitives] in
theorem exists_delete (hrow : s.row id = some r) (h : s.writableVault r.vaultId = .ok w) :
  ∃ s', s.delete id now = .ok s'
  := by
  rw [delete, hrow]
  dsimp only
  rw [h]
  simp only [bind, Except.bind]
  split <;> exact ⟨_, rfl⟩

omit [HostKeyLibrary] [Primitives] in
theorem delete_eq_error {err : CoreError} (hrow : s.row id = some r)
    (h : s.writableVault r.vaultId = .error err) :
  s.delete id now = .error err
  := by
  rw [delete, hrow]
  dsimp only
  rw [h]
  rfl

/-- Some entities are deleted, and every other row is as it was. -/
def Cleared (ids : Uuid → Prop) (s s' : Store) : Prop :=
  s'.vaults = s.vaults ∧ (∀ id, ids id → ∀ r, s'.row id = some r → r.deleted = true)
    ∧ ∀ id, ¬ ids id → s'.row id = s.row id

omit [HostKeyLibrary] [Primitives] in
theorem cleared_delete (h : s.delete id now = .ok s') :
  Cleared (fun id' => id' = id) s s'
  := by
  obtain ⟨hrow, rfl⟩ | ⟨r, v, hrow, -, -, hvaults, -, -, -, hrows⟩ := delete_eq_ok h
  · refine ⟨rfl, ?_, fun _ _ => rfl⟩
    rintro _ rfl r' hr'
    rw [hrow] at hr'
    cases hr'
  · refine ⟨hvaults, ?_, ?_⟩
    · rintro _ rfl r' hr'
      rw [hrows, if_pos rfl] at hr'
      split at hr'
      · cases hr'
        rfl
      · cases hr'
    · intro id' hne
      rw [hrows, if_neg hne]

omit [HostKeyLibrary] [Primitives] in
theorem Cleared.trans {ids ids' : Uuid → Prop} {s'' : Store} (h : Cleared ids s s')
    (h' : Cleared ids' s' s'') :
  Cleared (fun id => ids id ∨ ids' id) s s''
  := by
  obtain ⟨hvaults, hgone, hkept⟩ := h
  obtain ⟨hvaults', hgone', hkept'⟩ := h'
  refine ⟨hvaults'.trans hvaults, ?_, ?_⟩
  · intro id hid r hr
    by_cases hid' : ids' id
    · exact hgone' id hid' r hr
    · rw [hkept' id hid'] at hr
      exact hgone id (hid.resolve_right hid') r hr
  · intro id hid
    rw [not_or] at hid
    rw [hkept' id hid.2, hkept id hid.1]

/-- The loop that deletes pins. -/
def deleteEach (now : DateTime) (pins : List (Entity KnownHost)) : Script Store CoreError Unit :=
  each (fun e => .attempt (fun s => s.delete e.id now)) pins

omit [HostKeyLibrary] [Primitives] in
/-- Pins of a vault that takes edits are all deleted. -/
theorem deleteEach_ok (now : DateTime) (hvault : s.writableVault vaultId = .ok w)
    (hown : ∀ e ∈ pins, ∀ r, s.row e.id = some r → r.vaultId = vaultId) :
  (deleteEach now pins).result s = .ok ()
    ∧ Cleared (fun id => ∃ e ∈ pins, e.id = id) s ((deleteEach now pins).final s)
  := by
  induction pins generalizing s with
  | nil => exact ⟨rfl, rfl, by simp, by simp [deleteEach, each]⟩
  | cons e pins ih =>
      have hdelete : ∃ s₁, s.delete e.id now = .ok s₁ := by
        cases hrow : s.row e.id with
        | none => exact ⟨s, by rw [delete, hrow]; rfl⟩
        | some r =>
            apply exists_delete hrow
            rw [hown e (.head pins) r hrow]
            exact hvault
      obtain ⟨s₁, hs₁⟩ := hdelete
      have hone := cleared_delete hs₁
      have hvault₁ : s₁.writableVault vaultId = .ok w := by
        rw [writableVault_eq_ok, hone.1]
        exact writableVault_eq_ok.mp hvault
      have hown₁ : ∀ e' ∈ pins, ∀ r, s₁.row e'.id = some r → r.vaultId = vaultId := by
        intro e' he' r hr
        obtain ⟨hrow, rfl⟩ | ⟨r₀, v, hrow, -, -, -, -, -, -, hrows⟩ := delete_eq_ok hs₁
        · exact hown e' (.tail e he') r hr
        · rw [hrows] at hr
          split at hr
          · split at hr
            · cases hr
              exact hown e (.head pins) r₀ hrow
            · cases hr
          · exact hown e' (.tail e he') r hr
      obtain ⟨hok, hfinal⟩ := result_attempt_ok (f := fun s : Store => s.delete e.id now) hs₁
      obtain ⟨hok', hcleared⟩ := ih hvault₁ hown₁
      rw [deleteEach, each, result_andThen_ok hok, final_andThen_ok hok, hfinal]
      refine ⟨hok', ?_⟩
      have hall := hone.trans hcleared
      simpa [deleteEach, eq_comm] using hall

omit [HostKeyLibrary] [Primitives] in
/-- Where the vault of the pins takes no edits, none is deleted. -/
theorem deleteEach_error {err : CoreError} (now : DateTime)
    (hvault : s.writableVault vaultId = .error err)
    (hown : ∀ e ∈ pins, ∃ r, s.row e.id = some r ∧ r.vaultId = vaultId) :
  (deleteEach now pins).final s = s ∧ (pins = [] ∨ (deleteEach now pins).result s = .error err)
  := by
  cases pins with
  | nil => exact ⟨rfl, .inl rfl⟩
  | cons e pins =>
      obtain ⟨r, hrow, hr⟩ := hown e (.head pins)
      rw [← hr] at hvault
      have herr : s.delete e.id now = .error err := delete_eq_error hrow hvault
      obtain ⟨herr', hfinal⟩ := result_attempt_error (f := fun s : Store => s.delete e.id now) herr
      rw [deleteEach, each, result_andThen_error herr', final_andThen_error herr']
      exact ⟨hfinal, .inr rfl⟩

end

/-! ### Pinning a key -/

section
variable {d : Drawn} {pin : KnownHost} {now : DateTime}

omit [Primitives] in
theorem fromJson_toJson : (Serde.fromJson (Serde.toJson pin) : Option KnownHost) = some pin :=
  HostKeyLibrary.fromJson_toJson pin

/-- A pin is inserted in a vault that takes edits. -/
theorem insertPin_ok (h : s.Editable vaultId) :
  ∃ s', s.insertPin vaultId pin d = .ok s'
  := by
  obtain ⟨v, k, hv, hk, hwrite⟩ := h
  have hkey : s.vaultKey vaultId = .ok k := vaultKey_eq_ok.mpr ⟨v, hv, hk⟩
  have hvault : s.vault vaultId = .ok v := vault_eq_ok.mpr hv
  have hwritable : s.writableVault vaultId = .ok v := writableVault_eq_ok.mpr ⟨hv, hwrite⟩
  have hkind : isKnownKind (Payload.KIND KnownHost) = true := by
    change isKnownKind "known_host" = true
    decide
  rw [insertPin, putRaw, encryptPayload, hkey, hvault, hwritable, if_neg (not_not.mpr hkind)]
  exact ⟨_, rfl⟩

/-- A pin is inserted in no other vault. -/
theorem editable_of_insertPin (h : s.insertPin vaultId pin d = .ok s') :
  s.Editable vaultId
  := by
  obtain ⟨v, k, hv, hk, hwrite, -⟩ := putRaw_eq_ok h
  exact ⟨v, k, hv, hk, hwrite⟩

/-- An insertion leaves the vaults and the other rows, and a row that opens as the pin. -/
theorem insertPin_spec (h : s.insertPin vaultId pin d = .ok s') :
  s'.vaults = s.vaults ∧ (∀ id, id ≠ d.id → s'.row id = s.row id)
    ∧ ∃ r e, s'.row d.id = some r ∧ s'.PinRow r ∧ e.vaultId = vaultId ∧ e.data = pin
      ∧ s.shown EntityRow.vaultId (entityView KnownHost) r = .ok (some e)
  := by
  obtain ⟨v, k, hv, hk, -, -, hvaults, -, -, -, hrows⟩ := putRaw_eq_ok h
  refine ⟨hvaults, fun id hid => by rw [hrows, if_neg hid], ?_⟩
  have hrow := hrows d.id
  rw [if_pos rfl] at hrow
  refine ⟨_, ⟨d.id, vaultId, ((s.row d.id).map EntityRow.version).getD 0, d.now, v.kind.isSynced,
    pin⟩, hrow, ⟨hrow, rfl, rfl⟩, rfl, rfl, ?_⟩
  have hkey : s.vaultKey vaultId = .ok k := vaultKey_eq_ok.mpr ⟨v, hv, hk⟩
  rw [shown, hkey]
  simp only [entityView, decryptStr_encryptStr, fromJson_toJson]

/-- What is pinned once a pin was inserted under a fresh identifier. -/
theorem pinned_insertPin (h : s.insertPin vaultId pin d = .ok s') (hfresh : s.row d.id = none) :
  ∀ e, s'.Pin e ↔ s.Pin e ∨ (s'.Pin e ∧ e.vaultId = vaultId ∧ e.data = pin)
  := by
  intro e
  obtain ⟨hvaults, hrows, r₀, e₀, hr₀, hpin₀, hvault₀, hdata₀, hshown₀⟩ := insertPin_spec h
  constructor
  · intro hpin
    obtain ⟨r, ⟨hrow, hlive, hkind⟩, hshown⟩ := hpin
    by_cases hid : r.id = d.id
    · rw [hid, hr₀] at hrow
      cases hrow
      have hshown' := hshown
      rw [shown_congr hvaults, hshown₀] at hshown'
      cases hshown'
      exact .inr ⟨⟨r₀, hpin₀, hshown⟩, hvault₀, hdata₀⟩
    · rw [hrows _ hid] at hrow
      rw [shown_congr hvaults] at hshown
      exact .inl ⟨r, ⟨hrow, hlive, hkind⟩, hshown⟩
  · rintro (⟨r, ⟨hrow, hlive, hkind⟩, hshown⟩ | ⟨hpin, -⟩)
    · have hid : r.id ≠ d.id := by
        intro hid
        rw [hid, hfresh] at hrow
        cases hrow
      rw [← shown_congr hvaults] at hshown
      exact ⟨r, ⟨by rw [hrows _ hid]; exact hrow, hlive, hkind⟩, hshown⟩
    · exact hpin

/-- The pin that trust in a key makes. -/
def pinOf (host : String) (port : UInt16) (key : PublicKey) : KnownHost :=
  ⟨(keyInfo host port key).host, (keyInfo host port key).keyType, (keyInfo host port key).publicKey,
    (keyInfo host port key).fingerprint⟩

omit [Primitives] in
theorem slot_pinOf : (pinOf host port key).slot = slotOf host port key := rfl

omit [Primitives] in
theorem trim_pinOf : trim (pinOf host port key).publicKey = HostKeyLibrary.keyB64 key :=
  HostKeyLibrary.trim_keyB64 key

/-- The pins of the vault that trust in a key replaces, among those of the host. -/
def replacedBy (vaultId : Uuid) (key : PublicKey) (pins : List (Entity KnownHost)) :
    List (Entity KnownHost) :=
  pins.filter (fun e => decide (e.vaultId = vaultId
    ∧ e.data.keyType = HostKeyLibrary.algorithm key))

/-- Trust in a key, once the pins for the host were listed. -/
def repin (vaultId : Uuid) (host : String) (port : UInt16) (key : PublicKey) (d : Drawn)
    (pins : List (Entity KnownHost)) : Script Store CoreError Uuid :=
  andThen (deleteEach d.now (replacedBy vaultId key pins)) (fun _ =>
    andThen (.attempt (fun s => s.insertPin vaultId (pinOf host port key) d)) (fun _ => ret d.id))

theorem trust_of_forHost (vaultId : Uuid) (key : PublicKey) (d : Drawn)
    (h : s.forHost host port = .ok pins) :
  (trust vaultId host port key d).result s = (repin vaultId host port key d pins).result s
    ∧ (trust vaultId host port key d).final s = (repin vaultId host port key d pins).final s
  := by
  have hlift : (Script.lift (s.forHost host port) : Script Store CoreError _).result s = .ok pins :=
    h
  rw [trust]
  simp only [bind_eq_andThen, pure_eq_ret]
  rw [result_andThen_ok (result_read s), final_andThen_ok (result_read s), final_read,
    result_andThen_ok hlift, final_andThen_ok hlift, final_lift, each_ite]
  exact ⟨rfl, rfl⟩

theorem trust_of_forHost_error {err : CoreError} (h : s.forHost host port = .error err) :
  (trust vaultId host port key d).result s = .error err
    ∧ (trust vaultId host port key d).final s = s
  := by
  have hlift : (Script.lift (s.forHost host port) : Script Store CoreError _).result s
      = .error err := h
  rw [trust]
  simp only [bind_eq_andThen, pure_eq_ret]
  rw [result_andThen_ok (result_read s), final_andThen_ok (result_read s), final_read,
    result_andThen_error hlift, final_andThen_error hlift, final_lift]
  exact ⟨rfl, rfl⟩

/-- The pins that are replaced are rows of the vault. -/
theorem row_of_replacedBy (h : s.forHost host port = .ok pins)
    (he : e ∈ replacedBy vaultId key pins) :
  s.Pin e ∧ ∃ r k, s.row e.id = some r ∧ r.vaultId = vaultId ∧ s.vaultKey vaultId = .ok k
  := by
  rw [replacedBy, List.mem_filter, decide_eq_true_eq] at he
  obtain ⟨hmem, hvault, -⟩ := he
  have hpin := ((mem_forHost h).mp hmem).1
  have hsome := hpin
  obtain ⟨r, ⟨hrow, -, -⟩, hshown⟩ := hsome
  obtain ⟨hid, hvault', k, hk⟩ := entity_of_shown hshown
  rw [hvault] at hvault'
  rw [← hid] at hrow
  rw [← hvault'] at hk
  exact ⟨hpin, r, k, hrow, hvault'.symm, hk⟩

/-- The rows that trust in a key deletes. -/
def ReplacedId (s : Store) (vaultId : Uuid) (host : String) (port : UInt16) (key : PublicKey)
    (id : Uuid) : Prop :=
  ∃ e, s.Pin e ∧ e.vaultId = vaultId ∧ e.data.slot = slotOf host port key ∧ e.id = id

theorem mem_replacedBy (h : s.forHost host port = .ok pins) :
  e ∈ replacedBy vaultId key pins
    ↔ s.Pin e ∧ e.vaultId = vaultId ∧ e.data.slot = slotOf host port key
  := by
  rw [replacedBy, List.mem_filter, mem_forHost h, decide_eq_true_eq, KnownHost.slot, slotOf,
    Prod.mk.injEq]
  tauto

/-- Trust in a key deletes the pins of the vault for the host and type, and inserts one, where the
vault takes edits. -/
theorem trust_editable (host : String) (port : UInt16) (key : PublicKey) (d : Drawn)
    (hopen : s.PinsOpen) (h : s.Editable vaultId) :
  ∃ s₁, Cleared (s.ReplacedId vaultId host port key) s s₁
    ∧ s₁.insertPin vaultId (pinOf host port key) d = .ok ((trust vaultId host port key d).final s)
    ∧ (trust vaultId host port key d).result s = .ok d.id
  := by
  obtain ⟨pins, hpins⟩ : ∃ pins, s.forHost host port = .ok pins := exists_forHost.mpr hopen
  obtain ⟨hresult, hfinal⟩ := trust_of_forHost vaultId key d hpins
  obtain ⟨v, hvault⟩ := h.writableVault
  have hown : ∀ e ∈ replacedBy vaultId key pins, ∀ r, s.row e.id = some r →
      r.vaultId = vaultId := by
    intro e he r hr
    obtain ⟨-, r', k, hrow, hr', -⟩ := row_of_replacedBy hpins he
    rw [hr] at hrow
    cases hrow
    exact hr'
  obtain ⟨hdeleted, hcleared⟩ := deleteEach_ok d.now hvault hown
  have heditable : ((deleteEach d.now (replacedBy vaultId key pins)).final s).Editable vaultId := by
    rw [Editable, hcleared.1]
    exact h
  obtain ⟨s', hs'⟩ : ∃ s', ((deleteEach d.now (replacedBy vaultId key pins)).final s).insertPin
      vaultId (pinOf host port key) d = .ok s' := insertPin_ok heditable
  obtain ⟨hinserted, hlast⟩ := result_attempt_ok
    (f := fun s : Store => s.insertPin vaultId (pinOf host port key) d) hs'
  refine ⟨(deleteEach d.now (replacedBy vaultId key pins)).final s, ?_, ?_, ?_⟩
  · have hids : (fun id => ∃ e ∈ replacedBy vaultId key pins, e.id = id)
        = s.ReplacedId vaultId host port key := by
      funext id
      simp only [mem_replacedBy hpins, ReplacedId, and_assoc]
    rw [← hids]
    exact hcleared
  · rw [hfinal, repin, final_andThen_ok hdeleted, final_andThen_ok hinserted, hlast, final_ret]
    exact hs'
  · rw [hresult, repin, result_andThen_ok hdeleted, result_andThen_ok hinserted, result_ret]

/-- Trust in a key fails, and leaves the store as it was, where the pins do not open or the vault
takes no edits. -/
theorem trust_not_editable (host : String) (port : UInt16) (key : PublicKey) (d : Drawn)
    (h : ¬ (s.PinsOpen ∧ s.Editable vaultId)) :
  ∃ err, (trust vaultId host port key d).result s = .error err
    ∧ (trust vaultId host port key d).final s = s
  := by
  cases hpins : s.forHost host port with
  | error err => exact ⟨err, trust_of_forHost_error hpins⟩
  | ok pins =>
      have hclosed : ¬ s.Editable vaultId :=
        fun heditable => h ⟨exists_forHost.mp ⟨pins, hpins⟩, heditable⟩
      obtain ⟨hresult, hfinal⟩ := trust_of_forHost vaultId key d hpins
      rw [hresult, hfinal, repin]
      cases hreplaced : replacedBy vaultId key pins with
      | nil =>
          have hinsert : ∃ err, s.insertPin vaultId (pinOf host port key) d = .error err := by
            cases hs' : s.insertPin vaultId (pinOf host port key) d with
            | ok s' => exact absurd (editable_of_insertPin hs') hclosed
            | error err => exact ⟨err, rfl⟩
          obtain ⟨err, herr⟩ := hinsert
          obtain ⟨hfailed, hlast⟩ := result_attempt_error
            (f := fun s : Store => s.insertPin vaultId (pinOf host port key) d) herr
          refine ⟨err, ?_⟩
          rw [deleteEach, each, andThen_ret, result_andThen_error hfailed,
            final_andThen_error hfailed]
          exact ⟨rfl, hlast⟩
      | cons e rest =>
          have hlist : ∀ e' ∈ e :: rest, ∃ r, s.row e'.id = some r ∧ r.vaultId = vaultId := by
            intro e' he'
            rw [← hreplaced] at he'
            obtain ⟨-, r, k, hrow, hr, -⟩ := row_of_replacedBy hpins he'
            exact ⟨r, hrow, hr⟩
          obtain ⟨-, r, k, -, -, hk⟩ := row_of_replacedBy hpins
            (show e ∈ replacedBy vaultId key pins by rw [hreplaced]; exact .head rest)
          obtain ⟨v, hv, hkey⟩ := vaultKey_eq_ok.mp hk
          cases hvault : s.writableVault vaultId with
          | ok w =>
              obtain ⟨hw, hwrite⟩ := writableVault_eq_ok.mp hvault
              rw [hv] at hw
              cases hw
              exact absurd ⟨v, k, hv, hkey, hwrite⟩ hclosed
          | error err =>
              obtain ⟨hsame, hnil | hfailed⟩ := deleteEach_error d.now hvault hlist
              · cases hnil
              · refine ⟨err, ?_⟩
                rw [result_andThen_error hfailed, final_andThen_error hfailed]
                exact ⟨rfl, hsame⟩

/-- What is still pinned once the pins that trust in a key replaces are deleted. -/
theorem pin_of_cleared {s₁ : Store} (h : Cleared (s.ReplacedId vaultId host port key) s s₁) :
  s₁.Pin e ↔ s.Pin e ∧ ¬ (e.vaultId = vaultId ∧ e.data.slot = slotOf host port key)
  := by
  obtain ⟨hvaults, hgone, hkept⟩ := h
  constructor
  · rintro ⟨r, ⟨hrow, hlive, hkind⟩, hshown⟩
    have hid : ¬ s.ReplacedId vaultId host port key r.id := by
      intro hid
      have hdeleted := hgone r.id hid r hrow
      rw [hlive] at hdeleted
      cases hdeleted
    rw [hkept _ hid] at hrow
    rw [shown_congr hvaults] at hshown
    have hpin : s.Pin e := ⟨r, ⟨hrow, hlive, hkind⟩, hshown⟩
    refine ⟨hpin, ?_⟩
    rintro ⟨hvault, hslot⟩
    exact hid ⟨e, hpin, hvault, hslot, (entity_of_shown hshown).1⟩
  · rintro ⟨hpin, hother⟩
    have hsome := hpin
    obtain ⟨r, ⟨hrow, hlive, hkind⟩, hshown⟩ := hsome
    have hid : ¬ s.ReplacedId vaultId host port key r.id := by
      rintro ⟨e', hpin', hvault, hslot, hid⟩
      rw [← (entity_of_shown hshown).1] at hid
      obtain rfl := hpin'.unique hpin hid
      exact hother ⟨hvault, hslot⟩
    rw [← hkept _ hid] at hrow
    rw [← shown_congr hvaults] at hshown
    exact ⟨r, ⟨hrow, hlive, hkind⟩, hshown⟩

theorem row_of_cleared {s₁ : Store} {id : Uuid}
    (h : Cleared (s.ReplacedId vaultId host port key) s s₁) (hfresh : s.row id = none) :
  s₁.row id = none
  := by
  have hid : ¬ s.ReplacedId vaultId host port key id := by
    rintro ⟨e, ⟨r, ⟨hrow, -, -⟩, hshown⟩, -, -, rfl⟩
    rw [(entity_of_shown hshown).1, hrow] at hfresh
    cases hfresh
  rw [h.2.2 id hid]
  exact hfresh

/-- Pins open still after trust in a key, and other fresh identifiers stay fresh. -/
theorem trust_keeps (host : String) (port : UInt16) (key : PublicKey) (d : Drawn)
    (hopen : s.PinsOpen) (h : s.Editable vaultId) :
  ((trust vaultId host port key d).final s).PinsOpen
    ∧ ((trust vaultId host port key d).final s).vaults = s.vaults
    ∧ ∀ id, id ≠ d.id → s.row id = none → ((trust vaultId host port key d).final s).row id = none
  := by
  obtain ⟨s₁, hcleared, hinsert, -⟩ := trust_editable host port key d hopen h
  obtain ⟨hvaults, hrows, r₀, e₀, hr₀, -, -, -, hshown₀⟩ := insertPin_spec hinsert
  have hsame := hvaults.trans hcleared.1
  refine ⟨?_, hsame, ?_⟩
  · rintro r ⟨hrow, hlive, hkind⟩
    by_cases hid : r.id = d.id
    · rw [hid, hr₀] at hrow
      cases hrow
      exact ⟨some e₀, by rw [shown_congr hvaults]; exact hshown₀⟩
    · rw [hrows _ hid] at hrow
      have hkept : ¬ s.ReplacedId vaultId host port key r.id := by
        intro hgone
        have hdeleted := hcleared.2.1 r.id hgone r hrow
        rw [hlive] at hdeleted
        cases hdeleted
      rw [hcleared.2.2 _ hkept] at hrow
      rw [shown_congr hsame]
      exact hopen r ⟨hrow, hlive, hkind⟩
  · intro id hid hnone
    rw [hrows id hid]
    exact row_of_cleared hcleared hnone

/-- Trust in a key under a fresh identifier replaces the pins of the vault for the host and type,
and no other. -/
theorem pinned_trust (host : String) (port : UInt16) (key : PublicKey) (hopen : s.PinsOpen)
    (h : s.Editable vaultId) (hfresh : s.row d.id = none) :
  ((trust vaultId host port key d).final s).pinned
    = Pins.replace vaultId s.pinned (slotOf host port key) (HostKeyLibrary.keyB64 key)
  := by
  obtain ⟨s₁, hcleared, hinsert, -⟩ := trust_editable host port key d hopen h
  have hpin := pinned_insertPin hinsert (row_of_cleared hcleared hfresh)
  obtain ⟨hvaults, -, r₀, e₀, -, hr₀, hvault₀, hdata₀, hshown₀⟩ := insertPin_spec hinsert
  rw [← shown_congr hvaults] at hshown₀
  funext v slot
  ext k
  rw [Pins.mem_replace]
  constructor
  · rintro ⟨e, he, rfl, rfl, rfl⟩
    rcases (hpin e).mp he with hold | ⟨-, hvault, hdata⟩
    · obtain ⟨hold, hother⟩ := (pin_of_cleared hcleared).mp hold
      rw [if_neg hother]
      exact ⟨e, hold, rfl, rfl, rfl⟩
    · rw [if_pos ⟨hvault, by rw [hdata, slot_pinOf]⟩, hdata, trim_pinOf]
  · intro hk
    split at hk
    · rename_i hown
      obtain ⟨rfl, rfl⟩ := hown
      rw [hk]
      exact ⟨e₀, ⟨r₀, hr₀, hshown₀⟩, hvault₀, by rw [hdata₀, slot_pinOf],
        by rw [hdata₀, trim_pinOf]⟩
    · rename_i hother
      obtain ⟨e, he, rfl, rfl, rfl⟩ := hk
      exact ⟨e, (hpin e).mpr (.inl ((pin_of_cleared hcleared).mpr ⟨he, hother⟩)), rfl, rfl, rfl⟩

end

end Store

end Termoso.Core
