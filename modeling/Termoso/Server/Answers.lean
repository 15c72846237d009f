import Termoso.Server.Feeds

/-!
# Answers that are read later

A client works through an answer while the server goes on writing.  A database that advances keeps
its entities, but for those it gives a later number; so an answer stays right about every entity
numbered up to where the counters stood.
-/

namespace Termoso.Server

/-- The changes of a write are at home. -/
def Write.Homely (home : Uuid → Uuid) : Write → Prop
  | .push _ _ _ req => ∀ c ∈ req.changes, c.vaultId = home c.id
  | _ => True

namespace Db

/-! ### Databases after one another -/

/-- The counters have grown from `db` to `db'`, and what is new has drawn its number since. -/
structure Advances (db db' : Db) : Prop where
  vaultSeq : ∀ v, db.vaultSeq v ≤ db'.vaultSeq v
  entities : ∀ id e, db'.entities.get? id = some e →
    db.entities.get? id = some e ∨ db.vaultSeq e.vaultId < e.seq
  version : ∀ id e, db.entities.get? id = some e →
    ∃ e', db'.entities.get? id = some e' ∧ e.version ≤ e'.version

/-- Every entity is in its home, under a version and a number from one on. -/
structure Housed (home : Uuid → Uuid) (db : Db) : Prop where
  counter : ∀ v, 0 ≤ db.vaultSeq v
  vaultId : ∀ id e, db.entities.get? id = some e → e.vaultId = home id
  version : ∀ id e, db.entities.get? id = some e → 1 ≤ e.version
  seq : ∀ id e, db.entities.get? id = some e → 1 ≤ e.seq

section
variable {home : Uuid → Uuid} {db db' db'' : Db} {e : SyncEntity} {id : Uuid}

theorem Advances.refl (db : Db) :
  Advances db db
  := ⟨fun _ => le_rfl, fun _ _ he => .inl he, fun _ e he => ⟨e, he, le_rfl⟩⟩

theorem Advances.trans (h : Advances db db') (h' : Advances db' db'') :
  Advances db db''
  := by
  constructor
  · exact fun v => (h.vaultSeq v).trans (h'.vaultSeq v)
  · intro id e he
    rcases h'.entities id e he with he | hseq
    · exact h.entities id e he
    · exact .inr ((h.vaultSeq _).trans_lt hseq)
  · intro id e he
    obtain ⟨e', he', hle⟩ := h.version id e he
    obtain ⟨e'', he'', hle'⟩ := h'.version id e' he'
    exact ⟨e'', he'', hle.trans hle'⟩

/-- An entity numbered up to where a counter stood was there. -/
theorem Advances.get?_of_le (h : Advances db db') (he : db'.entities.get? id = some e)
    (hseq : e.seq ≤ db.vaultSeq e.vaultId) :
  db.entities.get? id = some e
  := (h.entities id e he).resolve_right (not_lt.mpr hseq)

theorem advances_of_wrote (h : Wrote db db' e)
    (hversion : ∀ e₀, db.entities.get? e.id = some e₀ → e₀.version ≤ e.version) :
  Advances db db'
  := by
  constructor
  · intro v
    rw [h.vaultSeq]
    split
    · rename_i heq
      rw [h.seq, heq]
      omega
    · rfl
  · intro id e' he'
    rw [h.entities] at he'
    split at he'
    · cases he'
      right
      rw [h.seq]
      omega
    · exact .inl he'
  · intro id e' he'
    rw [h.entities]
    split
    · rename_i hid
      exact ⟨e, rfl, hversion e' (hid ▸ he')⟩
    · exact ⟨e', he', le_rfl⟩

theorem Housed.of_wrote (hdb : Housed home db) (h : Wrote db db' e) (hhome : e.vaultId = home e.id)
    (hversion : 1 ≤ e.version) :
  Housed home db'
  := by
  have hseq : 1 ≤ e.seq := by
    have := hdb.counter e.vaultId
    rw [h.seq]
    omega
  have hnew : ∀ {P : Uuid → SyncEntity → Prop}, P e.id e →
      (∀ id e, db.entities.get? id = some e → P id e) →
      ∀ id e, db'.entities.get? id = some e → P id e := by
    intro P he hold id e' he'
    rw [h.entities] at he'
    split at he'
    · rename_i hid
      cases he'
      exact hid ▸ he
    · exact hold id e' he'
  constructor
  · intro v
    rw [h.vaultSeq]
    split
    · exact zero_le_one.trans hseq
    · exact hdb.counter v
  · exact hnew hhome hdb.vaultId
  · exact hnew (P := fun _ e => 1 ≤ e.version) hversion hdb.version
  · exact hnew (P := fun _ e => 1 ≤ e.seq) hseq hdb.seq

end

/-! ### The items of a push -/

/-- What each item does to the database, all items do, and every result is that of an item run on
the way. -/
theorem pushItems_trace {α : Type} {f : Db → α → Except Error (PushResult × Db)}
    {R : Db → Db → Prop} (hrefl : ∀ db, R db db)
    (htrans : ∀ {db db' db''}, R db db' → R db' db'' → R db db'') {xs : List α}
    (hf : ∀ x ∈ xs, ∀ db r db', f db x = .ok (r, db') → R db db') {db db' : Db}
    {rs : List PushResult} (h : pushItems f db xs = .ok (rs, db')) :
  R db db' ∧ ∀ r ∈ rs, ∃ x ∈ xs, ∃ db₁ db₂, R db db₁ ∧ f db₁ x = .ok (r, db₂) ∧ R db₂ db'
  := by
  induction xs generalizing db rs with
  | nil =>
      cases h
      exact ⟨hrefl _, fun r hr => by cases hr⟩
  | cons x xs ih =>
      rw [pushItems] at h
      simp only [bind_eq_ok, pure_eq_ok, Prod.exists, Prod.mk.injEq] at h
      obtain ⟨r, db₁, hx, rs', db₂, hxs, rfl, rfl⟩ := h
      have hfirst := hf x List.mem_cons_self _ _ _ hx
      obtain ⟨hrest, heach⟩ := ih (fun x hx => hf x (List.mem_cons_of_mem _ hx)) hxs
      refine ⟨htrans hfirst hrest, ?_⟩
      intro r' hr'
      rcases List.mem_cons.mp hr' with rfl | hr'
      · exact ⟨x, List.mem_cons_self, db, db₁, hrefl db, hx, hrest⟩
      · obtain ⟨y, hy, db₃, db₄, hbefore, hstep, hafter⟩ := heach r' hr'
        exact ⟨y, List.mem_cons_of_mem _ hy, db₃, db₄, htrans hfirst hbefore, hstep, hafter⟩

section
variable [Primitives] {settings : Settings} {auth : Auth} {now : DateTime} {db db' : Db}
  {req : PushRequest} {results : List PushResult}

/-- A result is that of a change or of a delete, run between the databases before and after the
push. -/
def Ran (settings : Settings) (auth : Auth) (now : DateTime) (req : PushRequest)
    (R : Db → Db → Prop) (db db' : Db) (r : PushResult) : Prop :=
  ∃ db₁ db₂, R db db₁ ∧ R db₂ db'
    ∧ ((∃ c ∈ req.changes, pushChange settings (db.pushAccess auth) (db.pushAcl auth)
          auth.deviceId now db₁ c = .ok (r, db₂))
      ∨ ∃ d ∈ req.deletes, pushDelete (db.pushAccess auth) (db.pushAcl auth) auth.deviceId now
          db₁ d = .ok (r, db₂))

/-- What each change and each delete does to the database, a push does. -/
theorem push_trace {R : Db → Db → Prop} (hrefl : ∀ db, R db db)
    (htrans : ∀ {db db' db''}, R db db' → R db' db'' → R db db'')
    (hchange : ∀ c ∈ req.changes, ∀ access acl deviceId now db r db',
      pushChange settings access acl deviceId now db c = .ok (r, db') → R db db')
    (hdelete : ∀ access acl deviceId now db d r db',
      pushDelete access acl deviceId now db d = .ok (r, db') → R db db')
    (h : db.push settings auth now req = .ok (results, db')) :
  R db db' ∧ ∀ r ∈ results, Ran settings auth now req R db db' r
  := by
  rw [push] at h
  split at h
  · cases h
  rw [pushTx] at h
  simp only [bind_eq_ok, pure_eq_ok, Prod.exists, Prod.mk.injEq] at h
  obtain ⟨changed, db₁, hchanged, deleted, db₂, hdeleted, rfl, rfl⟩ := h
  obtain ⟨hfirst, hchanges⟩ := pushItems_trace hrefl htrans
    (fun c hc => hchange c hc _ _ _ _) hchanged
  obtain ⟨hsecond, hdeletes⟩ := pushItems_trace hrefl htrans
    (fun d _ db r db' => hdelete _ _ _ _ db d r db') hdeleted
  refine ⟨htrans hfirst hsecond, ?_⟩
  intro r hr
  rcases List.mem_append.mp hr with hr | hr
  · obtain ⟨c, hc, db₃, db₄, hbefore, hstep, hafter⟩ := hchanges r hr
    exact ⟨db₃, db₄, hbefore, htrans hafter hsecond, .inl ⟨c, hc, hstep⟩⟩
  · obtain ⟨d, hd, db₃, db₄, hbefore, hstep, hafter⟩ := hdeletes r hr
    exact ⟨db₃, db₄, htrans hfirst hbefore, hafter, .inr ⟨d, hd, hstep⟩⟩

theorem advances_pushChange {access : Uuid → Option Access} {acl : Uuid → Uuid → Option String}
    {deviceId : Uuid} {c : EntityChange} {r : PushResult}
    (h : pushChange settings access acl deviceId now db c = .ok (r, db')) :
  Advances db db'
  := by
  rcases pushChange_eq_ok h with ⟨rfl, -⟩ | ⟨rfl, -⟩ |
    ⟨e, -, hwrote, hid, -, -, -, -, -, hversion⟩
  · exact .refl _
  · exact .refl _
  · apply advances_of_wrote hwrote
    intro e₀ he₀
    rw [hid] at he₀
    rcases hversion with ⟨hnone, -⟩ | ⟨e₁, he₁, -, -, hnext⟩
    · rw [hnone] at he₀
      cases he₀
    · rw [he₁] at he₀
      cases he₀
      omega

omit [Primitives] in
theorem advances_pushDelete {access : Uuid → Option Access} {acl : Uuid → Uuid → Option String}
    {deviceId : Uuid} {d : EntityDelete} {r : PushResult}
    (h : pushDelete access acl deviceId now db d = .ok (r, db')) :
  Advances db db'
  := by
  rcases pushDelete_eq_ok h with ⟨rfl, -⟩ | ⟨rfl, -⟩ | ⟨rfl, -⟩ |
    ⟨e, e₁, -, hwrote, he₁, hid, -, -, -, -, hnext⟩
  · exact .refl _
  · exact .refl _
  · exact .refl _
  · apply advances_of_wrote hwrote
    intro e₀ he₀
    rw [hid, he₁] at he₀
    cases he₀
    omega

theorem advances_push (h : db.push settings auth now req = .ok (results, db')) :
  Advances db db'
  := (push_trace .refl .trans (fun _ _ _ _ _ _ _ _ _ => advances_pushChange)
    (fun _ _ _ _ _ _ _ _ => advances_pushDelete) h).1

variable {home : Uuid → Uuid}

/-- A change at home keeps every entity there. -/
theorem housed_pushChange {access : Uuid → Option Access} {acl : Uuid → Uuid → Option String}
    {deviceId : Uuid} {c : EntityChange} {r : PushResult} (hdb : Housed home db)
    (hhome : c.vaultId = home c.id)
    (h : pushChange settings access acl deviceId now db c = .ok (r, db')) :
  Housed home db'
  := by
  rcases pushChange_eq_ok h with ⟨rfl, -⟩ | ⟨rfl, -⟩ |
    ⟨e, -, hwrote, hid, hvault, -, -, -, -, hversion⟩
  · exact hdb
  · exact hdb
  · apply hdb.of_wrote hwrote
    · rw [hvault, hid, hhome]
    · rcases hversion with ⟨-, -, hone⟩ | ⟨e₀, he₀, -, -, hnext⟩
      · rw [hone]
      · have := hdb.version _ _ he₀
        omega

omit [Primitives] in
theorem housed_pushDelete {access : Uuid → Option Access} {acl : Uuid → Uuid → Option String}
    {deviceId : Uuid} {d : EntityDelete} {r : PushResult} (hdb : Housed home db)
    (h : pushDelete access acl deviceId now db d = .ok (r, db')) :
  Housed home db'
  := by
  rcases pushDelete_eq_ok h with ⟨rfl, -⟩ | ⟨rfl, -⟩ | ⟨rfl, -⟩ |
    ⟨e, e₀, -, hwrote, he₀, hid, hvault, -, -, -, hnext⟩
  · exact hdb
  · exact hdb
  · exact hdb
  · apply hdb.of_wrote hwrote
    · rw [hvault, hid, hdb.vaultId _ _ he₀]
    · have := hdb.version _ _ he₀
      omega

/-- A push of changes at home advances the database, and keeps every entity at home on the way. -/
theorem housed_push (hhome : ∀ c ∈ req.changes, c.vaultId = home c.id) (hdb : Housed home db)
    (h : db.push settings auth now req = .ok (results, db')) :
  Housed home db' ∧ ∀ r ∈ results,
    Ran settings auth now req (fun a b => Advances a b ∧ (Housed home a → Housed home b)) db db' r
  := by
  obtain ⟨⟨-, hkeeps⟩, hran⟩ := push_trace
    (R := fun a b => Advances a b ∧ (Housed home a → Housed home b)) (fun db => ⟨.refl db, id⟩)
    (fun h h' => ⟨h.1.trans h'.1, fun hdb => h'.2 (h.2 hdb)⟩)
    (fun c hc _ _ _ _ _ _ _ h => ⟨advances_pushChange h, fun hdb =>
      housed_pushChange hdb (hhome c hc) h⟩)
    (fun _ _ _ _ _ _ _ _ h => ⟨advances_pushDelete h, fun hdb => housed_pushDelete hdb h⟩) h
  exact ⟨hkeeps hdb, hran⟩

/-! ### Every write -/

omit [Primitives] in
/-- A retention pass writes no entity. -/
theorem entities_of_retire {rows : List LogRow} (h : rows.foldlM retireLog db = .ok db') :
  db'.entities = db.entities ∧ ∀ v, db'.vaultSeq v = db.vaultSeq v
  := by
  induction rows generalizing db with
  | nil =>
      obtain rfl := pure_eq_ok.mp h
      exact ⟨rfl, fun _ => rfl⟩
  | cons r rows ih =>
      simp only [List.foldlM_cons, bind_eq_ok] at h
      obtain ⟨db₁, hr, h⟩ := h
      simp only [retireLog, bind_eq_ok, pure_eq_ok, Prod.exists] at hr
      obtain ⟨seq, vaultSeq, db₂, hseqs, rfl⟩ := hr
      obtain ⟨-, -, -, -, hcounter, hrest⟩ := nextSeqs_eq_ok hseqs
      obtain ⟨hentities, hvaultSeq⟩ := ih h
      refine ⟨hentities.trans ?_, fun v => (hvaultSeq v).trans (hcounter v)⟩
      rw [hrest]

/-- Every write but a push leaves the entities and their counters alone. -/
theorem entities_of_write {w : Write} (h : db.write w = .ok db') :
  (∃ settings auth now req results, w = .push settings auth now req
      ∧ db.push settings auth now req = .ok (results, db'))
    ∨ (db'.entities = db.entities ∧ ∀ v, db'.vaultSeq v = db.vaultSeq v)
  := by
  have hhistory : HistoryOnly db db' → db'.entities = db.entities
      ∧ ∀ v, db'.vaultSeq v = db.vaultSeq v := by
    intro hh
    have hvaults : db'.vaults = db.vaults := by rw [hh.rest]
    refine ⟨by rw [hh.rest], fun v => ?_⟩
    rw [vaultSeq, hvaults, vaultSeq]
  cases w with
  | push settings auth now req =>
      obtain ⟨⟨results, db₁⟩, hpush, rfl⟩ := map_eq_ok.mp h
      exact .inl ⟨_, _, _, _, results, rfl, hpush⟩
  | historyPush settings userId entries =>
      obtain ⟨⟨out, db₁⟩, hpush, rfl⟩ := map_eq_ok.mp h
      simp only [historyPush, bind_eq_ok, check_eq_ok, pure_eq_ok, Prod.exists, Prod.mk.injEq]
        at hpush
      obtain ⟨-, -, out, db₂, hpush, -, rfl⟩ := hpush
      exact .inr (hhistory (pushEntries_historyOnly hpush))
  | historyClear userId kind now => exact .inr (hhistory (historyClear_historyOnly h))
  | logCreate settings auth now req =>
      obtain ⟨r, hr⟩ := logCreate_eq_ok h
      exact .inr ⟨hr.entities, hr.entitySeq⟩
  | logUpdate settings auth actual id req =>
      obtain ⟨r, hr⟩ := logUpdate_eq_ok h
      exact .inr ⟨hr.entities, hr.entitySeq⟩
  | logDelete auth recordingRequired mayDelete id =>
      rcases logDelete_eq_ok h with rfl | ⟨r, hr⟩
      · exact .inr ⟨rfl, fun _ => rfl⟩
      · exact .inr ⟨hr.entities, hr.entitySeq⟩
  | retention now => exact .inr (entities_of_retire h)

theorem advances_write {w : Write} (h : db.write w = .ok db') :
  Advances db db'
  := by
  rcases entities_of_write h with ⟨_, _, _, _, _, -, hpush⟩ | ⟨hentities, hseq⟩
  · exact advances_push hpush
  · constructor
    · exact fun v => (hseq v).ge
    · intro id e he
      rw [hentities] at he
      exact .inl he
    · intro id e he
      rw [hentities]
      exact ⟨e, he, le_rfl⟩

theorem housed_write {w : Write} (hw : w.Homely home) (hdb : Housed home db)
    (h : db.write w = .ok db') :
  Housed home db'
  := by
  rcases entities_of_write h with ⟨_, _, _, _, _, rfl, hpush⟩ | ⟨hentities, hseq⟩
  · exact (housed_push hw hdb hpush).1
  · constructor
    · intro v
      rw [hseq]
      exact hdb.counter v
    all_goals rw [hentities]
    · exact hdb.vaultId
    · exact hdb.version
    · exact hdb.seq

end

/-! ### What the results of a push say later -/

/-- What a result says of the copies numbered up to a bound. -/
def Stands (home : Uuid → Uuid) (bound : Uuid → ℤ) (db : Db) : PushResult → Prop
  | .ok id version _ => (∃ e, db.entities.get? id = some e ∧ version ≤ e.version)
    ∧ ∀ e, db.entities.get? id = some e → e.seq ≤ bound e.vaultId →
      e.deleted = true ∧ version = e.version
  | .conflict id server => server.id = id ∧ server.vaultId = home server.id
    ∧ (∃ e, db.entities.get? id = some e ∧ server.version ≤ e.version)
    ∧ ∀ e, db.entities.get? id = some e → e.seq ≤ bound e.vaultId → server = e
  | .error id code => code = "not_found" → ∀ e, db.entities.get? id = some e →
    bound e.vaultId < e.seq

section
variable {home : Uuid → Uuid} {bound : Uuid → ℤ} {db db' : Db}

/-- A result stands while the server goes on. -/
theorem Stands.advances {r : PushResult} (hr : Stands home bound db r) (h : Advances db db')
    (hbound : ∀ v, bound v ≤ db.vaultSeq v) :
  Stands home bound db' r
  := by
  have hback : ∀ {id e}, db'.entities.get? id = some e → e.seq ≤ bound e.vaultId →
      db.entities.get? id = some e := fun he hseq => h.get?_of_le he (hseq.trans (hbound _))
  have hreached : ∀ {id} {version : ℤ}, (∃ e, db.entities.get? id = some e ∧ version ≤ e.version) →
      ∃ e, db'.entities.get? id = some e ∧ version ≤ e.version := by
    rintro id version ⟨e, he, hle⟩
    obtain ⟨e', he', hle'⟩ := h.version id e he
    exact ⟨e', he', hle.trans hle'⟩
  cases r with
  | ok id version seq =>
      exact ⟨hreached hr.1, fun e he hseq => hr.2 e (hback he hseq) hseq⟩
  | conflict id server =>
      obtain ⟨hid, hhome, hversion, hcopy⟩ := hr
      exact ⟨hid, hhome, hreached hversion, fun e he hseq => hcopy e (hback he hseq) hseq⟩
  | error id code =>
      intro hcode e he
      by_contra hseq
      rw [not_lt] at hseq
      exact absurd hseq (not_le.mpr (hr hcode e (hback he hseq)))

/-- A copy that was just written is numbered beyond the bound. -/
theorem lt_seq_of_wrote {db₁ db₂ : Db} {e e' : SyncEntity} (hbefore : Advances db db₁)
    (hwrote : Wrote db₁ db₂ e) (hstep : Advances db₁ db₂) (hafter : Advances db₂ db') (hbound : ∀ v, bound v ≤ db.vaultSeq v)
    (he' : db'.entities.get? e.id = some e') :
  bound e'.vaultId < e'.seq
  := by
  by_contra hseq
  rw [not_lt] at hseq
  have hle : e'.seq ≤ db₁.vaultSeq e'.vaultId :=
    (hseq.trans (hbound _)).trans (hbefore.vaultSeq _)
  have hthere := hafter.get?_of_le he' (hle.trans (hstep.vaultSeq _))
  rw [hwrote.entities, if_pos rfl] at hthere
  cases hthere
  rw [hwrote.seq] at hle
  omega

/-- The results of a push stand. -/
theorem stands_push [Primitives] {settings : Settings} {auth : Auth} {now : DateTime}
    {req : PushRequest} {results : List PushResult} (hbound : ∀ v, bound v ≤ db.vaultSeq v)
    (hhome : ∀ c ∈ req.changes, c.vaultId = home c.id) (hdb : Housed home db)
    (h : db.push settings auth now req = .ok (results, db')) :
  ∀ r ∈ results, Stands home bound db' r
  := by
  intro r hr
  obtain ⟨db₁, db₂, ⟨hbefore, hkeeps⟩, ⟨hafter, -⟩, hran⟩ := (housed_push hhome hdb h).2 r hr
  have hback : db₂ = db₁ → ∀ {id e}, db'.entities.get? id = some e → e.seq ≤ bound e.vaultId →
      db₁.entities.get? id = some e := by
    rintro rfl id e he hseq
    exact hafter.get?_of_le he ((hseq.trans (hbound _)).trans (hbefore.vaultSeq _))
  have hthere : ∀ {id e}, db₂.entities.get? id = some e →
      ∃ e', db'.entities.get? id = some e' ∧ e.version ≤ e'.version :=
    fun he => hafter.version _ _ he
  have hconflict : db₂ = db₁ → ∀ {id server}, db₁.entities.get? id = some server →
      Stands home bound db' (.conflict id server) := by
    intro heq id server hget
    obtain rfl : server.id = id := Table.key_of_get? hget
    refine ⟨rfl, (hkeeps hdb).vaultId _ _ hget, hthere (heq ▸ hget), ?_⟩
    intro e he hseq
    rw [hback heq he hseq] at hget
    cases hget
    rfl
  have hnew : ∀ {e}, Wrote db₁ db₂ e → Advances db₁ db₂ →
      Stands home bound db' (.ok e.id e.version e.seq) := by
    intro e hwrote hstep
    refine ⟨hthere ((hwrote.entities _).trans (if_pos rfl)), ?_⟩
    intro e' he' hseq
    exact absurd hseq (not_le.mpr (lt_seq_of_wrote hbefore hwrote hstep hafter hbound he'))
  have hmissing : db₂ = db₁ → ∀ {id code}, (code = "not_found" → db₁.entities.get? id = none) →
      Stands home bound db' (.error id code) := by
    intro heq id code hnone hcode e he
    by_contra hseq
    rw [hback heq he (not_lt.mp hseq)] at hnone
    cases hnone hcode
  rcases hran with ⟨c, -, hc⟩ | ⟨d, -, hd⟩
  · rcases pushChange_eq_ok hc with ⟨heq, code, rfl, hcode⟩ | ⟨heq, e, rfl, hget, -⟩ |
      ⟨e, rfl, hwrote, hid, -⟩
    · exact hmissing heq (fun h => (hcode h).1)
    · exact hconflict heq hget
    · exact hid ▸ hnew hwrote (advances_pushChange hc)
  · rcases pushDelete_eq_ok hd with ⟨heq, code, rfl, hcode⟩ | ⟨heq, e, rfl, hget, hdel⟩ |
      ⟨heq, e, rfl, hget, -⟩ | ⟨e, e₀, rfl, hwrote, -, hid, -⟩
    · exact hmissing heq hcode
    · refine ⟨hthere (heq ▸ hget), ?_⟩
      intro e' he' hseq
      rw [hback heq he' hseq] at hget
      cases hget
      exact ⟨hdel, rfl⟩
    · exact hconflict heq hget
    · exact hid ▸ hnew hwrote (advances_pushDelete hd)

end

/-! ### What a page says later -/

/-- The cursor of a vault in a page is the one asked for, or the number of a row of the vault, which
the user can read. -/
theorem cursor_of_pull {db : Db} {auth : Auth} {req : PullRequest} {v : Uuid} {w : Uuid × ℤ}
    (h : (db.pull auth req).cursors.get? v = some w) :
  ∃ since, req.cursors.get? v = some (v, since) ∧ (w = (v, since)
    ∨ db.readable auth v = true ∧ ∃ e ∈ db.entities.rows, e.vaultId = v ∧ w = (v, e.seq))
  := by
  have hvault : ∀ (st : PullState) (wanted : Uuid × ℤ) {v w},
      (db.pullVault auth (clampLimit req.limit) st wanted).cursors.get? v = some w →
      st.cursors.get? v = some w ∨ v = wanted.1 ∧ (w = wanted ∨ db.readable auth v = true
        ∧ ∃ e ∈ db.entities.rows, e.vaultId = v ∧ w = (v, e.seq)) := by
    rintro st ⟨vaultId, since⟩ v w hw
    have hput : (st.cursors.put vaultId since).get? v = some w →
        st.cursors.get? v = some w ∨ v = vaultId ∧ w = (vaultId, since) := by
      intro hput
      rw [Cursors.get?_put] at hput
      split at hput
      · rename_i hv
        cases hput
        exact .inr ⟨hv, rfl⟩
      · exact .inl hput
    have hasked : (st.cursors.put vaultId since).get? v = some w →
        st.cursors.get? v = some w ∨ v = vaultId ∧ (w = (vaultId, since)
          ∨ db.readable auth v = true ∧ ∃ e ∈ db.entities.rows, e.vaultId = v ∧ w = (v, e.seq)) :=
      fun h => (hput h).imp_right (fun h => ⟨h.1, .inl h.2⟩)
    rw [pullVault] at hw
    dsimp only at hw
    split at hw
    · exact hasked hw
    split at hw
    · exact hasked hw
    rename_i hread
    split at hw
    · exact hasked hw
    dsimp only at hw
    split at hw
    · rename_i last hlast
      rw [Cursors.get?_put] at hw
      split at hw
      · rename_i hv
        cases hw
        have hmem := List.mem_of_mem_take (List.mem_of_mem_take (List.mem_of_getLast? hlast))
        obtain ⟨hrow, hhome⟩ := List.mem_filter.mp (Paging.mem_newer.mp hmem).1
        subst hv
        exact .inr ⟨rfl, .inr ⟨by simpa using hread, last, hrow, by simpa using hhome, rfl⟩⟩
      · exact hasked hw
    · exact hasked hw
  have hfold : ∀ (wanted : List (Uuid × ℤ)) (st : PullState),
      (wanted.foldl (db.pullVault auth (clampLimit req.limit)) st).cursors.get? v = some w →
      st.cursors.get? v = some w ∨ ∃ c ∈ wanted, v = c.1 ∧ (w = c ∨ db.readable auth v = true
        ∧ ∃ e ∈ db.entities.rows, e.vaultId = v ∧ w = (v, e.seq)) := by
    intro wanted
    induction wanted with
    | nil => exact fun st hst => .inl hst
    | cons c wanted ih =>
        intro st hst
        rcases ih _ hst with hst | ⟨c', hc', hrest⟩
        · rcases hvault st c hst with hst | hrest
          · exact .inl hst
          · exact .inr ⟨c, List.mem_cons_self, hrest⟩
        · exact .inr ⟨c', List.mem_cons_of_mem _ hc', hrest⟩
  rcases hfold _ _ h with hnone | ⟨c, hc, rfl, hw⟩
  · cases hnone
  · rw [List.mem_insertionSort] at hc
    exact ⟨c.2, Table.get?_of_mem hc, hw⟩

/-- A page has every entity numbered between the cursor asked for and the one returned. -/
theorem mem_pull_of_le {db : Db} {auth : Auth} {req : PullRequest} (hdistinct : db.EntitySeqsDistinct)
    {id : Uuid} {e : SyncEntity} (he : db.entities.get? id = some e) {w : Uuid × ℤ}
    (hw : (db.pull auth req).cursors.get? e.vaultId = some w) (hle : e.seq ≤ w.2) :
  e ∈ (db.pull auth req).entities
    ∨ ∃ since, req.cursors.get? e.vaultId = some (e.vaultId, since) ∧ e.seq ≤ since
  := by
  obtain ⟨since, hsince, hw'⟩ := cursor_of_pull hw
  by_cases hold : e.seq ≤ since
  · exact .inr ⟨since, hsince, hold⟩
  rw [not_le] at hold
  rcases hw' with rfl | ⟨hread, -⟩
  · exact absurd hle (not_le.mpr hold)
  obtain ⟨rows, next, hnext, hsplit, hpage, -⟩ :=
    pullPage_spec auth (clampLimit req.limit) hdistinct req.cursors
  have hshown : e ∈ db.shown auth e.vaultId since :=
    mem_shown.mpr ⟨hread, Table.mem_of_get? he, rfl, hold⟩
  rw [← hsplit _ _ hsince, List.mem_append] at hshown
  rcases hshown with hrow | hleft
  · left
    have hfiltered := hpage e.vaultId
    rw [hsince, Option.isSome_some, if_pos rfl] at hfiltered
    rw [← hfiltered] at hrow
    exact (List.mem_filter.mp hrow).1
  · have hcursor := hnext e.vaultId
    rw [hsince] at hcursor
    have hw'' : (db.pullPage auth (clampLimit req.limit) req.cursors).cursors.get? e.vaultId = some w :=
      hw
    rw [hw''] at hcursor
    cases hcursor
    exact absurd hle (not_le.mpr (mem_shown.mp hleft).2.2.2)

/-- The cursors of a page are within the counters, when those asked for are. -/
theorem cursor_le_of_pull {db : Db} {auth : Auth} {req : PullRequest} (hdb : Numbered db)
    (hle : ∀ v w, req.cursors.get? v = some w → w.2 ≤ db.vaultSeq v) {v : Uuid} {w : Uuid × ℤ}
    (h : (db.pull auth req).cursors.get? v = some w) :
  w.2 ≤ db.vaultSeq v
  := by
  obtain ⟨since, hsince, rfl | ⟨-, e, he, rfl, rfl⟩⟩ := cursor_of_pull h
  · exact hle v _ hsince
  · exact hdb.entities.le e he

end Db

end Termoso.Server
