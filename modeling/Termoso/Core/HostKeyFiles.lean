import Termoso.Core.HostKeyPins

/-!
# Host keys in files

Importing a file pins its entries that are not known yet, and exporting writes a line for every pin.

A key of a file that contradicts a pin, or another key of the file, is pinned all the same, in place
of those the vault has: the pins of a store survive the import of a file, and a second import finds
nothing to add, exactly when the file contradicts neither the pins nor itself.
-/

namespace Termoso.Core

open Script Store

section
variable [HostKeyLibrary] [Primitives] {s : Store} {vaultId : Uuid} {es : List Entry} {e : Entry}
  {draw : ℕ → Drawn}

/-! ### Importing entries -/

/-- The verdict on the key of an entry. -/
def Store.checkEntry (s : Store) (e : Entry) : Except CoreError HostKeyVerdict :=
  s.check e.1 e.2.1 e.2.2

/-- The entry is pinned, and no vault pins another key. -/
theorem checkEntry_known :
  s.checkEntry e = .ok .known ↔ s.PinsOpen ∧ s.pinned.Known e.pinned.1 e.pinned.2
  := by
  constructor
  · intro h
    have hstatus := (Store.check_status h).2
    exact ⟨Store.exists_check.mp ⟨_, h⟩, hstatus.mp rfl⟩
  · rintro ⟨hopen, hknown⟩
    obtain ⟨v, hv⟩ : ∃ v, s.checkEntry e = .ok v := Store.exists_check.mpr hopen
    rw [hv, HostKeyVerdict.status_eq_known.mp ((Store.check_status hv).2.mpr hknown)]

theorem importEntries_cons_known (vaultId : Uuid) (draw : ℕ → Drawn) (es : List Entry)
    (h : s.checkEntry e = .ok .known) :
  (importEntries vaultId draw (e :: es)).result s = (importEntries vaultId draw es).result s
    ∧ (importEntries vaultId draw (e :: es)).final s = (importEntries vaultId draw es).final s
  := by
  have hlift : (Script.lift (s.check e.1 e.2.1 e.2.2) : Script Store CoreError _).result s
      = .ok .known := h
  rw [importEntries]
  simp only [bind_eq_andThen, pure_eq_ret]
  rw [result_andThen_ok (result_read s), final_andThen_ok (result_read s), final_read,
    result_andThen_ok hlift, final_andThen_ok hlift, final_lift, if_pos rfl]
  exact ⟨rfl, rfl⟩

theorem importEntries_cons_error {err : CoreError} (vaultId : Uuid) (draw : ℕ → Drawn)
    (es : List Entry) (h : s.checkEntry e = .error err) :
  (importEntries vaultId draw (e :: es)).result s = .error err
    ∧ (importEntries vaultId draw (e :: es)).final s = s
  := by
  have hlift : (Script.lift (s.check e.1 e.2.1 e.2.2) : Script Store CoreError _).result s
      = .error err := h
  rw [importEntries]
  simp only [bind_eq_andThen, pure_eq_ret]
  rw [result_andThen_ok (result_read s), final_andThen_ok (result_read s), final_read,
    result_andThen_error hlift, final_andThen_error hlift, final_lift]
  exact ⟨rfl, rfl⟩

/-- The turn of an entry that is not known: it is trusted. -/
def pinEntry (vaultId : Uuid) (draw : ℕ → Drawn) (e : Entry) (es : List Entry) :
    Script Store CoreError ℕ :=
  andThen (trust vaultId e.1 e.2.1 e.2.2 (draw es.length)) (fun _ =>
    andThen (importEntries vaultId draw es) (fun n => ret (n + 1)))

theorem importEntries_cons_unknown {v : HostKeyVerdict} (vaultId : Uuid) (draw : ℕ → Drawn)
    (es : List Entry) (h : s.checkEntry e = .ok v) (hv : v ≠ .known) :
  (importEntries vaultId draw (e :: es)).result s = (pinEntry vaultId draw e es).result s
    ∧ (importEntries vaultId draw (e :: es)).final s = (pinEntry vaultId draw e es).final s
  := by
  have hlift : (Script.lift (s.check e.1 e.2.1 e.2.2) : Script Store CoreError _).result s
      = .ok v := h
  rw [importEntries]
  simp only [bind_eq_andThen, pure_eq_ret]
  rw [result_andThen_ok (result_read s), final_andThen_ok (result_read s), final_read,
    result_andThen_ok hlift, final_andThen_ok hlift, final_lift, if_neg hv]
  exact ⟨rfl, rfl⟩

/-- When every entry is known, an import adds nothing and changes nothing. -/
theorem importEntries_known (vaultId : Uuid) (draw : ℕ → Drawn)
    (h : ∀ e ∈ es, s.checkEntry e = .ok .known) :
  (importEntries vaultId draw es).result s = .ok 0 ∧ (importEntries vaultId draw es).final s = s
  := by
  induction es with
  | nil => exact ⟨rfl, rfl⟩
  | cons e es ih =>
      rw [List.forall_mem_cons] at h
      obtain ⟨hresult, hfinal⟩ := importEntries_cons_known vaultId draw es h.1
      rw [hresult, hfinal]
      exact ih h.2

/-- An import that adds nothing knows every entry, and changes nothing. -/
theorem known_of_importEntries (h : (importEntries vaultId draw es).result s = .ok 0) :
  ∀ e ∈ es, s.checkEntry e = .ok .known
  := by
  induction es with
  | nil => simp
  | cons e es ih =>
      cases hcheck : s.checkEntry e with
      | error err =>
          rw [(importEntries_cons_error vaultId draw es hcheck).1] at h
          cases h
      | ok v =>
          by_cases hv : v = .known
          · rw [hv] at hcheck
            rw [(importEntries_cons_known vaultId draw es hcheck).1] at h
            exact List.forall_mem_cons.mpr ⟨hcheck, ih h⟩
          · rw [(importEntries_cons_unknown vaultId draw es hcheck hv).1, pinEntry] at h
            obtain ⟨id, -, h⟩ := andThen_eq_ok.mp h
            obtain ⟨n, -, h⟩ := andThen_eq_ok.mp h
            cases h

/-- Where the pins do not open or the vault takes no edits, an import changes nothing, and succeeds
only when every entry is known. -/
theorem importEntries_closed (draw : ℕ → Drawn) (es : List Entry)
    (h : ¬ (s.PinsOpen ∧ s.Editable vaultId)) :
  (importEntries vaultId draw es).final s = s
    ∧ ∀ n, (importEntries vaultId draw es).result s = .ok n → ∀ e ∈ es, s.checkEntry e = .ok .known
  := by
  induction es with
  | nil => exact ⟨rfl, by simp⟩
  | cons e es ih =>
      cases hcheck : s.checkEntry e with
      | error err =>
          obtain ⟨hresult, hfinal⟩ := importEntries_cons_error vaultId draw es hcheck
          rw [hresult, hfinal]
          exact ⟨rfl, by rintro n ⟨⟩⟩
      | ok v =>
          by_cases hv : v = .known
          · rw [hv] at hcheck
            obtain ⟨hresult, hfinal⟩ := importEntries_cons_known vaultId draw es hcheck
            rw [hresult, hfinal]
            exact ⟨ih.1, fun n hn => List.forall_mem_cons.mpr ⟨hcheck, ih.2 n hn⟩⟩
          · obtain ⟨hresult, hfinal⟩ := importEntries_cons_unknown vaultId draw es hcheck hv
            obtain ⟨err, hfailed, hsame⟩ :=
              trust_not_editable e.1 e.2.1 e.2.2 (draw es.length) h
            rw [hresult, hfinal, pinEntry, result_andThen_error hfailed,
              final_andThen_error hfailed]
            exact ⟨hsame, by rintro n ⟨⟩⟩

/-- The identifiers an import draws are new, and all different. -/
structure FreshDraws (draw : ℕ → Drawn) (s : Store) : Prop where
  fresh : ∀ i, s.row (draw i).id = none
  injective : ∀ i j, (draw i).id = (draw j).id → i = j

/-- Where the pins open and the vault takes edits, an import admits its entries one after the
other. -/
theorem importEntries_editable (es : List Entry) (hopen : s.PinsOpen) (h : s.Editable vaultId)
    (hfresh : ∀ i < es.length, s.row (draw i).id = none)
    (hinjective : ∀ i j, (draw i).id = (draw j).id → i = j) :
  (∃ n, (importEntries vaultId draw es).result s = .ok n)
    ∧ ((importEntries vaultId draw es).final s).PinsOpen
    ∧ ((importEntries vaultId draw es).final s).pinned
      = (es.map Entry.pinned).foldl (Pins.accept vaultId) s.pinned
  := by
  induction es generalizing s with
  | nil => exact ⟨⟨0, rfl⟩, hopen, rfl⟩
  | cons e es ih =>
      obtain ⟨v, hcheck⟩ : ∃ v, s.checkEntry e = .ok v := Store.exists_check.mpr hopen
      have hknown := (Store.check_status hcheck).2
      rw [List.map_cons, List.foldl_cons]
      by_cases hv : v = .known
      · rw [hv] at hcheck hknown
        obtain ⟨hresult, hfinal⟩ := importEntries_cons_known vaultId draw es hcheck
        have haccept : Pins.accept vaultId s.pinned e.pinned = s.pinned :=
          Pins.admit_of_known (hknown.mp rfl)
        rw [hresult, hfinal, haccept]
        apply ih hopen h
        intro i hi
        exact hfresh i (Nat.lt_succ_of_lt hi)
      · have haccept : Pins.accept vaultId s.pinned e.pinned
            = Pins.replace vaultId s.pinned e.pinned.1 e.pinned.2 := by
          apply Pins.admit_of_not_known
          intro hpinned
          exact hv (HostKeyVerdict.status_eq_known.mp (hknown.mpr hpinned))
        have hnew := hfresh es.length (Nat.lt_succ_self _)
        obtain ⟨s₁, -, -, hok⟩ := trust_editable e.1 e.2.1 e.2.2 (draw es.length) hopen h
        obtain ⟨hopen', hvaults, hrows⟩ := trust_keeps e.1 e.2.1 e.2.2 (draw es.length) hopen h
        have hpinned := pinned_trust e.1 e.2.1 e.2.2 hopen h hnew
        obtain ⟨hresult, hfinal⟩ := importEntries_cons_unknown vaultId draw es hcheck hv
        rw [hresult, hfinal, pinEntry, result_andThen_ok hok, final_andThen_ok hok, haccept]
        obtain ⟨⟨n, hn⟩, hopened, hacceptted⟩ := ih hopen' (by rw [Editable, hvaults]; exact h) (by
          intro i hi
          apply hrows
          · intro hid
            exact absurd (hinjective _ _ hid) (Nat.ne_of_lt hi)
          · exact hfresh i (Nat.lt_succ_of_lt hi))
        rw [result_andThen_ok hn, final_andThen_ok hn, result_ret, final_ret]
        refine ⟨⟨n + 1, rfl⟩, hopened, ?_⟩
        rw [hacceptted, hpinned]
        rfl

/-! ### Exporting -/

/-- The line of a pin, without its end. -/
def exportLine (e : Entity KnownHost) : String :=
  e.data.hostname ++ " " ++ e.data.keyType ++ " " ++ e.data.publicKey

/-- The entries of the line of a pin. A host name can hold line ends, commas and blanks. -/
def exportedEntries (e : Entity KnownHost) : List Entry := entriesOf (exportLine e)

omit [Primitives] in
theorem entriesOf_append (before after : String) :
  entriesOf (before ++ "\n" ++ after) = entriesOf before ++ entriesOf after
  := by
  have hsplit : (before ++ "\n" ++ after).toList = before.toList ++ '\n' :: after.toList := by
    simp
  rw [entriesOf, hsplit, List.splitOn_append_cons_self, List.flatMap_append]
  rfl

omit [Primitives] in
@[simp]
theorem entriesOf_empty : entriesOf "" = [] := by
  simp [entriesOf, entriesOfLine, trim]

omit [Primitives] in
theorem entriesOf_foldl (before : String) (pins : List (Entity KnownHost)) :
  entriesOf (pins.foldl (fun out e => out ++ (exportLine e ++ "\n")) (before ++ "\n"))
    = entriesOf before ++ pins.flatMap exportedEntries
  := by
  induction pins generalizing before with
  | nil =>
      have happend := entriesOf_append before ""
      rw [String.append_empty] at happend
      simp [happend]
  | cons e pins ih =>
      rw [List.foldl_cons, ← String.append_assoc, ih, entriesOf_append, List.append_assoc]
      rfl

/-- A file that was exported has the entries of the lines of the pins. -/
theorem entriesOf_exportOpenssh {text : String} (h : s.exportOpenssh = .ok text) :
  ∃ pins, s.allPins = .ok pins ∧ entriesOf text = pins.flatMap exportedEntries
  := by
  obtain ⟨pins, hpins, rfl⟩ := map_eq_ok.mp h
  refine ⟨pins, hpins, ?_⟩
  change entriesOf (pins.foldl (fun out e => out ++ (exportLine e ++ "\n")) "") = _
  cases pins with
  | nil => simp
  | cons e pins =>
      rw [List.foldl_cons, String.empty_append, entriesOf_foldl]
      rfl

/-! ### What importing and exporting keep -/

/-- Comparing a key finds a change when some vault pins another key for the host and type, and knows
the key when some vault pins it and none pins another. It fails only when a pin does not open. -/
def ChecksPins (s : Store) : Prop :=
  ∀ (host : String) (port : UInt16) (key : PublicKey),
    ((∃ v, s.check host port key = .ok v) ↔ s.PinsOpen)
      ∧ ∀ v, s.check host port key = .ok v →
        (v.status = .changed ↔ ∃ vault, ∃ k ∈ s.pinned vault (slotOf host port key),
            k ≠ HostKeyLibrary.keyB64 key)
          ∧ (v.status = .known
            ↔ (∃ vault, HostKeyLibrary.keyB64 key ∈ s.pinned vault (slotOf host port key))
              ∧ ∀ vault, ∀ k ∈ s.pinned vault (slotOf host port key), k = HostKeyLibrary.keyB64 key)

/-- Trust that fails leaves the pins as they were. -/
def TrustFailsCleanly (s : Store) (vaultId : Uuid) : Prop :=
  ∀ host port key d err, (trust vaultId host port key d).result s = .error err →
    ((trust vaultId host port key d).final s).pinned = s.pinned

/-- An import keeps every pin, and a second import of the file adds nothing and leaves the pins as
they are. -/
def ImportKeepsPins (s : Store) (vaultId : Uuid) (contents : String) (draw : ℕ → Drawn) : Prop :=
  let s' := (importOpenssh vaultId contents draw).final s
  s.pinned ≤ s'.pinned
    ∧ ∀ n, (importOpenssh vaultId contents draw).result s = .ok n → ∀ draw',
      (importOpenssh vaultId contents draw').result s' = .ok 0
        ∧ ((importOpenssh vaultId contents draw').final s').pinned = s'.pinned

/-- Importing what was exported into a store without pins gives the verdicts of the store. -/
def ExportKeepsVerdicts (s : Store) : Prop :=
  ∀ text, s.exportOpenssh = .ok text → ∀ (t : Store) (vaultId : Uuid) (draw : ℕ → Drawn),
    t.allPins = .ok [] → t.Editable vaultId → FreshDraws draw t → ∀ host port key,
      (((importOpenssh vaultId text draw).final t).check host port key).map HostKeyVerdict.status
        = (s.check host port key).map HostKeyVerdict.status

/-- A file contradicts neither the pins of a store that takes edits, nor itself. -/
def FileConsistent (s : Store) (vaultId : Uuid) (contents : String) : Prop :=
  s.PinsOpen → s.Editable vaultId → s.pinned.Consistent ((entriesOf contents).map Entry.pinned)

/-- For every host and type, the keys pinned are the one that the last line for them has. -/
def LinesPinned (s : Store) : Prop :=
  ∀ pins, s.allPins = .ok pins → ∀ host port key,
    s.pinned.everywhere (slotOf host port key)
      = (Pins.lastOf ((pins.flatMap exportedEntries).map Entry.pinned)
          (slotOf host port key)).elim ∅ (fun k => {k})

theorem checksPins : ChecksPins s := by
  intro host port key
  refine ⟨Store.exists_check, ?_⟩
  intro v hv
  obtain ⟨hchanged, hknown⟩ := Store.check_status hv
  rw [hchanged, hknown, Pins.known_iff]
  constructor
  · constructor
    · rintro ⟨k, ⟨vault, hk⟩, hne⟩
      exact ⟨vault, k, hk, hne⟩
    · rintro ⟨vault, k, hk, hne⟩
      exact ⟨k, ⟨vault, hk⟩, hne⟩
  · constructor
    · rintro ⟨hmem, hall⟩
      exact ⟨hmem, fun vault k hk => hall k ⟨vault, hk⟩⟩
    · rintro ⟨hmem, hall⟩
      refine ⟨hmem, ?_⟩
      rintro k ⟨vault, hk⟩
      exact hall vault k hk

theorem trustFailsCleanly : TrustFailsCleanly s vaultId := by
  intro host port key d err h
  by_cases htrusts : s.PinsOpen ∧ s.Editable vaultId
  · obtain ⟨s₁, -, -, hok⟩ := trust_editable host port key d htrusts.1 htrusts.2
    rw [hok] at h
    cases h
  · obtain ⟨err', -, hsame⟩ := trust_not_editable host port key d htrusts
    rw [hsame]

/-- A file is imported once and for all exactly when it contradicts nothing. -/
theorem importKeepsPins_iff {contents : String} (hdraw : FreshDraws draw s) :
  ImportKeepsPins s vaultId contents draw ↔ FileConsistent s vaultId contents
  := by
  by_cases h : s.PinsOpen ∧ s.Editable vaultId
  · obtain ⟨hopen, heditable⟩ := h
    obtain ⟨⟨n, hn⟩, hopen', hpinned⟩ := importEntries_editable (entriesOf contents) hopen
      heditable (fun i _ => hdraw.fresh i) hdraw.injective
    constructor
    · rintro ⟨hkeeps, hagain⟩ - -
      have hzero := (hagain n hn draw).1
      apply Pins.consistent_of_known hkeeps
      intro x hx
      obtain ⟨e, he, rfl⟩ := List.mem_map.mp hx
      exact (checkEntry_known.mp (known_of_importEntries hzero e he)).2
    · intro hconsistent
      obtain ⟨hkeeps, hknown⟩ := (hconsistent hopen heditable).foldl_accept vaultId
      rw [← hpinned] at hkeeps hknown
      refine ⟨hkeeps, ?_⟩
      intro m hm draw'
      have hentries : ∀ e ∈ entriesOf contents,
          ((importOpenssh vaultId contents draw).final s).checkEntry e = .ok .known := by
        intro e he
        exact checkEntry_known.mpr ⟨hopen', hknown _ (List.mem_map_of_mem he)⟩
      obtain ⟨hzero, hsame⟩ := importEntries_known vaultId draw' hentries
      refine ⟨hzero, ?_⟩
      rw [importOpenssh, hsame]
  · obtain ⟨hsame, hknown⟩ := importEntries_closed draw (entriesOf contents) h
    constructor
    · intro _ hopen heditable
      exact absurd ⟨hopen, heditable⟩ h
    · intro _
      rw [ImportKeepsPins, importOpenssh, hsame]
      refine ⟨le_refl _, ?_⟩
      intro n hn draw'
      obtain ⟨hzero, hfinal⟩ := importEntries_known vaultId draw' (hknown n hn)
      refine ⟨hzero, ?_⟩
      rw [importOpenssh, hfinal]

/-- A store whose vault takes edits and has no pins. -/
theorem pinned_of_allPins_nil (h : s.allPins = .ok []) :
  s.PinsOpen ∧ ∀ vault slot, s.pinned vault slot = ∅
  := by
  refine ⟨exists_allPins.mp ⟨[], h⟩, ?_⟩
  intro vault slot
  ext k
  constructor
  · rintro ⟨e, he, -⟩
    have hmem := (mem_allPins h).mpr he
    cases hmem
  · rintro ⟨⟩

/-- A comparison does not know the type when no vault has a pin for it. -/
theorem status_unknown {host : String} {port : UInt16} {key : PublicKey} {v : HostKeyVerdict}
    (h : s.check host port key = .ok v) :
  v.status = .unknown ↔ s.pinned.everywhere (slotOf host port key) = ∅
  := by
  obtain ⟨hchanged, hknown⟩ := Store.check_status h
  rw [Pins.known_iff] at hknown
  rw [Set.eq_empty_iff_forall_notMem]
  cases hv : v.status with
  | unknown =>
      rw [hv] at hchanged hknown
      simp only [reduceCtorEq, false_iff] at hchanged hknown
      simp only [true_iff]
      intro k hk
      have hall : ∀ k' ∈ s.pinned.everywhere (slotOf host port key),
          k' = HostKeyLibrary.keyB64 key :=
        fun k' hk' => by_contra (fun hne => hchanged ⟨k', hk', hne⟩)
      have hmem := hall k hk ▸ hk
      exact hknown ⟨hmem, hall⟩
  | known =>
      rw [hv] at hknown
      simp only [reduceCtorEq, false_iff, true_iff] at hknown ⊢
      intro hnone
      exact hnone _ hknown.1
  | changed =>
      rw [hv] at hchanged
      simp only [reduceCtorEq, false_iff, true_iff] at hchanged ⊢
      obtain ⟨k, hk, -⟩ := hchanged
      intro hnone
      exact hnone k hk

theorem status_unknown_iff {host : String} {port : UInt16} {key : PublicKey} (hopen : s.PinsOpen) :
  (s.check host port key).map HostKeyVerdict.status = .ok .unknown
    ↔ s.pinned.everywhere (slotOf host port key) = ∅
  := by
  obtain ⟨v, hv⟩ : ∃ v, s.check host port key = .ok v := Store.exists_check.mpr hopen
  rw [← status_unknown hv, hv]
  simp [Except.map]

theorem status_known_iff {host : String} {port : UInt16} {key : PublicKey} (hopen : s.PinsOpen) :
  (s.check host port key).map HostKeyVerdict.status = .ok .known
    ↔ s.pinned.Known (slotOf host port key) (HostKeyLibrary.keyB64 key)
  := by
  obtain ⟨v, hv⟩ : ∃ v, s.check host port key = .ok v := Store.exists_check.mpr hopen
  rw [← (Store.check_status hv).2, hv]
  simp [Except.map]

/-- Verdicts agree where the keys pinned for a host and type are the same. -/
theorem status_congr {t : Store} {host : String} {port : UInt16} {key : PublicKey}
    (hs : s.PinsOpen) (ht : t.PinsOpen)
    (h : t.pinned.everywhere (slotOf host port key) = s.pinned.everywhere (slotOf host port key)) :
  (t.check host port key).map HostKeyVerdict.status
    = (s.check host port key).map HostKeyVerdict.status
  := by
  obtain ⟨v, hv⟩ : ∃ v, s.check host port key = .ok v := Store.exists_check.mpr hs
  obtain ⟨w, hw⟩ : ∃ w, t.check host port key = .ok w := Store.exists_check.mpr ht
  obtain ⟨hchanged, hknown⟩ := Store.check_status hv
  obtain ⟨hchanged', hknown'⟩ := Store.check_status hw
  have hunknown := status_unknown hv
  have hunknown' := status_unknown hw
  rw [Pins.Known, h, ← Pins.Known, ← hknown] at hknown'
  rw [h, ← hchanged] at hchanged'
  rw [h, ← hunknown] at hunknown'
  rw [hv, hw]
  simp only [Except.map, Except.ok.injEq]
  cases hstatus : v.status with
  | known => exact hknown'.mpr hstatus
  | unknown => exact hunknown'.mpr hstatus
  | changed => exact hchanged'.mpr hstatus

/-- What an import of lines leaves in a store without pins. -/
theorem everywhere_import_empty {t : Store} (contents : String) (slot : Slot)
    (hempty : t.allPins = .ok []) (heditable : t.Editable vaultId) (hdraw : FreshDraws draw t) :
  ((importOpenssh vaultId contents draw).final t).PinsOpen
    ∧ ((importOpenssh vaultId contents draw).final t).pinned.everywhere slot
      = (Pins.lastOf ((entriesOf contents).map Entry.pinned) slot).elim ∅ (fun k => {k})
  := by
  obtain ⟨hopen, hnone⟩ := pinned_of_allPins_nil hempty
  obtain ⟨-, hopen', hpinned⟩ := importEntries_editable (entriesOf contents) hopen
    heditable (fun i _ => hdraw.fresh i) hdraw.injective
  refine ⟨hopen', ?_⟩
  have hbefore : t.pinned.everywhere slot = ∅ := by
    ext k
    simp [Pins.everywhere, hnone]
  have hafter : ((importOpenssh vaultId contents draw).final t).pinned
      = ((entriesOf contents).map Entry.pinned).foldl (Pins.accept vaultId) t.pinned := hpinned
  rw [hafter, Pins.everywhere_foldl_accept (fun p _ σ => hnone p σ), hbefore]

/-- A store with a local vault and nothing in it. -/
def freshStore : Store :=
  { Store.empty with
    vaults :=
      ⟨[⟨0, .local, "", none, .manager, some (Vector.replicate 32 0), 1, 0, false, 0, false⟩],
        by simp⟩ }

theorem freshStore_spec :
  freshStore.allPins = .ok [] ∧ freshStore.Editable 0
    ∧ FreshDraws (fun i => ⟨i, 0, Vector.replicate 24 0⟩) freshStore
  := by
  refine ⟨rfl, ?_, ?_⟩
  · exact ⟨_, _, rfl, rfl, by simp [LocalVaultKind.isSynced]⟩
  · exact ⟨fun _ => rfl, fun _ _ h => h⟩

/-- What was exported gives back the verdicts exactly when the last line for each host and type has
the one key pinned. -/
theorem exportKeepsVerdicts_iff :
  ExportKeepsVerdicts s ↔ LinesPinned s
  := by
  constructor
  · intro h pins hpins host port key
    obtain ⟨hempty, heditable, hdraw⟩ := freshStore_spec
    have hexport : s.exportOpenssh
        = .ok (pins.foldl (fun out e => out ++ (exportLine e ++ "\n")) "") :=
      map_eq_ok.mpr ⟨pins, hpins, rfl⟩
    have hopen := exists_allPins.mp ⟨pins, hpins⟩
    obtain ⟨pins', hpins', hentries⟩ := entriesOf_exportOpenssh hexport
    rw [hpins] at hpins'
    cases hpins'
    have hafter := fun slot => everywhere_import_empty
      (pins.foldl (fun out e => out ++ (exportLine e ++ "\n")) "") slot hempty heditable hdraw
    have hsame := h _ hexport freshStore 0 _ hempty heditable hdraw
    simp only [hentries] at hafter
    cases hlast : Pins.lastOf ((pins.flatMap exportedEntries).map Entry.pinned)
        (slotOf host port key) with
    | none =>
        rw [Option.elim_none]
        apply (status_unknown_iff hopen).mp
        rw [← hsame]
        apply (status_unknown_iff (hafter (slotOf host port key)).1).mpr
        rw [(hafter _).2, hlast, Option.elim_none]
    | some k =>
        obtain ⟨x, hx, hslot, rfl⟩ := Pins.exists_of_lastOf hlast
        obtain ⟨e, -, rfl⟩ := List.mem_map.mp hx
        have hslot' : slotOf e.1 e.2.1 e.2.2 = slotOf host port key := hslot
        rw [Option.elim_some, ← hslot']
        apply (status_known_iff hopen).mp
        rw [← hsame]
        apply (status_known_iff (hafter (slotOf host port key)).1).mpr
        rw [Pins.Known, (hafter _).2, hslot', hlast, Option.elim_some]
        rfl
  · intro h text htext t vaultId draw hempty heditable hdraw host port key
    obtain ⟨pins, hpins, hentries⟩ := entriesOf_exportOpenssh htext
    obtain ⟨hopen, hafter⟩ := everywhere_import_empty text (slotOf host port key) hempty
      heditable hdraw
    apply status_congr (exists_allPins.mp ⟨pins, hpins⟩) hopen
    rw [hafter, h pins hpins, hentries]

/-- Pins change on purpose only: comparing reads them right, trust that fails leaves them, importing
a file keeps them and does nothing the second time, and a file that was exported gives the verdicts
back. The first two always hold; an import must contradict nothing, and the pins that are exported
must be what their lines say. -/
theorem pinsChangeOnPurpose_iff (s : Store) (vaultId : Uuid) (contents : String) (draw : ℕ → Drawn)
    (hdraw : FreshDraws draw s) :
  (ChecksPins s ∧ TrustFailsCleanly s vaultId ∧ ImportKeepsPins s vaultId contents draw
      ∧ ExportKeepsVerdicts s)
    ↔ FileConsistent s vaultId contents ∧ LinesPinned s
  := by
  rw [importKeepsPins_iff hdraw, exportKeepsVerdicts_iff]
  constructor
  · rintro ⟨-, -, hfile, hlines⟩
    exact ⟨hfile, hlines⟩
  · rintro ⟨hfile, hlines⟩
    exact ⟨checksPins, trustFailsCleanly, hfile, hlines⟩

end

/-! ### Two lines for one host -/

end Termoso.Core

namespace Termoso.Symbolic

open Core

/-- Keys spelled as texts without blanks around them, all of one type. -/
scoped instance hostKeys : HostKeyLibrary where
  PublicKey := { s : String // trim s = s }
  algorithm _ := "ed"
  fingerprint key := key.val
  keyB64 key := key.val
  publicKeyOfB64 s := if h : trim s = s then some ⟨s, h⟩ else none
  trim_keyB64 key := key.property
  toJson pin := String.ofList
    (field pin.hostname ++ (field pin.keyType ++ (field pin.publicKey ++ field pin.fingerprint)))
  fromJson s := do
    let (hostname, rest) ← readField s.toList
    let (keyType, rest) ← readField rest
    let (publicKey, rest) ← readField rest
    let (fingerprint, _) ← readField rest
    return ⟨String.ofList hostname, String.ofList keyType, String.ofList publicKey,
      String.ofList fingerprint⟩
  fromJson_toJson pin := by
    have hlast := readField_field pin.fingerprint []
    rw [List.append_nil] at hlast
    simp only [String.toList_ofList, readField_field, hlast, Option.bind_eq_bind, Option.bind_some,
      String.ofList_toList]
    rfl

end Termoso.Symbolic

namespace Termoso.Core

open Script Store Symbolic

section

/-- A file with two keys for a host. -/
def twoKeys : String := "h ed A\nh ed B"

/-- A file with two keys of one type for a host is imported again and again. -/
theorem not_pinsChangeOnPurpose_twoKeys :
  ¬ (ChecksPins freshStore ∧ TrustFailsCleanly freshStore 0
    ∧ ImportKeepsPins freshStore 0 twoKeys (fun i => ⟨i, 0, Vector.replicate 24 0⟩)
    ∧ ExportKeepsVerdicts freshStore)
  := by
  rintro ⟨-, -, hfile, -⟩
  obtain ⟨hempty, heditable, hdraw⟩ := freshStore_spec
  have hopen := (pinned_of_allPins_nil hempty).1
  have hconsistent := (importKeepsPins_iff hdraw).mp hfile hopen heditable
  have hentries : (entriesOf twoKeys).map Entry.pinned
      = [(("h", "ed"), "A"), (("h", "ed"), "B")] := by
    decide +kernel
  rw [hentries] at hconsistent
  have hsame := hconsistent.2 (("h", "ed"), "A") (by simp) (("h", "ed"), "B") (by simp) rfl
  revert hsame
  decide

theorem entriesOf_oneKey : (entriesOf "h ed A").map Entry.pinned = [(("h", "ed"), "A")] := by
  decide

/-- A line for a host that is new. -/
theorem pinsChangeOnPurpose_oneKey :
  ChecksPins freshStore ∧ TrustFailsCleanly freshStore 0
    ∧ ImportKeepsPins freshStore 0 "h ed A" (fun i => ⟨i, 0, Vector.replicate 24 0⟩)
    ∧ ExportKeepsVerdicts freshStore
  := by
  obtain ⟨hempty, heditable, hdraw⟩ := freshStore_spec
  obtain ⟨-, hnone⟩ := pinned_of_allPins_nil hempty
  have heverywhere : ∀ slot, freshStore.pinned.everywhere slot = ∅ := by
    intro slot
    ext k
    simp [Pins.everywhere, hnone]
  apply (pinsChangeOnPurpose_iff freshStore 0 "h ed A" _ hdraw).mpr
  constructor
  · intro _ _
    rw [entriesOf_oneKey]
    constructor
    · intro e _ k hk
      rw [heverywhere] at hk
      cases hk
    · intro e he e' he' _
      rw [List.mem_singleton.mp he, List.mem_singleton.mp he']
  · intro pins hpins host port key
    rw [hempty] at hpins
    cases hpins
    exact heverywhere _

end

end Termoso.Core
