import Termoso.Server.Answers

/-!
# What a version stands for

A write gives an entity a later version than it had, so a version stands for one content.  Whatever
is written between the page a client read and its push, a change is accepted on top of the content
its author has read, and of no other.
-/

namespace Termoso.Server

namespace Db

/-- From `db` to `db'` every entity is kept, or superseded by a later version of it. -/
def Supersedes (db db' : Db) : Prop :=
  ∀ id e, db.entities.get? id = some e →
    ∃ e', db'.entities.get? id = some e' ∧ (e' = e ∨ e.version < e'.version)

section
variable {db db' db'' : Db} {e e' : SyncEntity} {id : Uuid}

theorem Supersedes.refl (db : Db) :
  Supersedes db db
  := fun _ e he => ⟨e, he, .inl rfl⟩

theorem Supersedes.trans (h : Supersedes db db') (h' : Supersedes db' db'') :
  Supersedes db db''
  := by
  intro id e he
  obtain ⟨e', he', hfirst⟩ := h id e he
  obtain ⟨e'', he'', hsecond⟩ := h' id e' he'
  use e'', he''
  rcases hfirst with rfl | hfirst
  · exact hsecond
  · right
    rcases hsecond with rfl | hsecond
    · exact hfirst
    · exact hfirst.trans hsecond

/-- A version stands for one content. -/
theorem Supersedes.eq_of_version (h : Supersedes db db') (he : db.entities.get? id = some e)
    (he' : db'.entities.get? id = some e') (hversion : e'.version = e.version) :
  e' = e
  := by
  obtain ⟨e₁, he₁, hkept⟩ := h id e he
  rw [he'] at he₁
  cases he₁
  apply hkept.resolve_right
  rw [hversion]
  apply lt_irrefl

/-- When an entity is at a version again, it was at that version all along. -/
theorem Supersedes.eq_of_version_between (h : Supersedes db db') (h' : Supersedes db' db'')
    (he : db.entities.get? id = some e) (he' : db''.entities.get? id = some e')
    (hversion : e'.version = e.version) :
  db'.entities.get? id = some e
  := by
  obtain ⟨e₁, he₁, hkept⟩ := h id e he
  rcases hkept with rfl | hlt
  · exact he₁
  · obtain ⟨e₂, he₂, hkept⟩ := h' id e₁ he₁
    rw [he'] at he₂
    cases he₂
    exfalso
    rcases hkept with rfl | hlt' <;> omega

theorem supersedes_of_wrote (h : Wrote db db' e)
    (hversion : ∀ e₀, db.entities.get? e.id = some e₀ → e₀.version < e.version) :
  Supersedes db db'
  := by
  intro id e₀ he₀
  rw [h.entities]
  split
  · rename_i hid
    exact ⟨e, rfl, .inr (hversion e₀ (hid ▸ he₀))⟩
  · exact ⟨e₀, he₀, .inl rfl⟩

end

section
variable [Primitives] {settings : Settings} {auth : Auth} {now : DateTime} {db db' db'' : Db}
  {req : PushRequest} {results : List PushResult} {access : Uuid → Option Access}
  {acl : Uuid → Uuid → Option String} {deviceId : Uuid} {r : PushResult}

theorem supersedes_pushChange {c : EntityChange}
    (h : pushChange settings access acl deviceId now db c = .ok (r, db')) :
  Supersedes db db'
  := by
  rcases pushChange_eq_ok h with ⟨rfl, -⟩ | ⟨rfl, -⟩ |
    ⟨e, -, hwrote, hid, -, -, -, -, -, hversion⟩
  · apply Supersedes.refl
  · apply Supersedes.refl
  · apply supersedes_of_wrote hwrote
    intro e₀ he₀
    rw [hid] at he₀
    rcases hversion with ⟨hnone, -⟩ | ⟨e₁, he₁, -, -, hnext⟩
    · rw [hnone] at he₀
      cases he₀
    · rw [he₁] at he₀
      cases he₀
      omega

omit [Primitives] in
theorem supersedes_pushDelete {d : EntityDelete}
    (h : pushDelete access acl deviceId now db d = .ok (r, db')) :
  Supersedes db db'
  := by
  rcases pushDelete_eq_ok h with ⟨rfl, -⟩ | ⟨rfl, -⟩ | ⟨rfl, -⟩ |
    ⟨e, e₁, -, hwrote, he₁, hid, -, -, -, -, hnext⟩
  · apply Supersedes.refl
  · apply Supersedes.refl
  · apply Supersedes.refl
  · apply supersedes_of_wrote hwrote
    intro e₀ he₀
    rw [hid, he₁] at he₀
    cases he₀
    omega

/-- A push supersedes what it writes, and so does each of its items on the way. -/
theorem supersedes_push (h : db.push settings auth now req = .ok (results, db')) :
  Supersedes db db' ∧ ∀ r ∈ results, Ran settings auth now req Supersedes db db' r
  := push_trace .refl .trans (fun _ _ _ _ _ _ _ _ _ => supersedes_pushChange)
    (fun _ _ _ _ _ _ _ _ => supersedes_pushDelete) h

theorem supersedes_write {w : Write} (h : db.write w = .ok db') :
  Supersedes db db'
  := by
  rcases entities_of_write h with ⟨_, _, _, _, _, -, hpush⟩ | ⟨hentities, -⟩
  · exact (supersedes_push hpush).1
  · intro id e he
    rw [hentities]
    exact ⟨e, he, .inl rfl⟩

/-- What is written in a run supersedes what was there. -/
theorem supersedes_run {ws : List Write} (h : feedSystem.run db ws = some db') :
  Supersedes db db'
  := by
  induction ws generalizing db with
  | nil =>
      cases h
      apply Supersedes.refl
  | cons w ws ih =>
      obtain ⟨db₁, hstep, hrun⟩ := Option.bind_eq_some_iff.mp h
      apply Supersedes.trans _ (ih hrun)
      apply supersedes_write
      exact toOption_eq_some.mp hstep

/-! ### No update is lost -/

/-- A change is accepted on top of the content its author was handed: however much is written
between the pull and the push, that entity was still the same then. -/
theorem unsuperseded_of_accepted {ws : List Write} (hrun : feedSystem.run db ws = some db')
    {reader : Auth} {page : PullRequest} {e : SyncEntity}
    (he : e ∈ (db.pull reader page).entities)
    (hpush : db'.push settings auth now req = .ok (results, db''))
    (hbase : ∀ c ∈ req.changes, c.id = e.id → c.baseVersion = some e.version)
    (hdeletes : ∀ d ∈ req.deletes, d.id ≠ e.id) {version seq : ℤ}
    (hok : .ok e.id version seq ∈ results) :
  db'.entities.get? e.id = some e ∧ version = e.version + 1
  := by
  obtain ⟨-, hran⟩ := supersedes_push hpush
  obtain ⟨db₁, db₂, hbefore, -, ⟨c, hc, hchange⟩ | ⟨d, hd, hdelete⟩⟩ := hran _ hok
  · have hget := get?_of_mem_pull he
    rcases pushChange_eq_ok hchange with ⟨-, _, hr, -⟩ | ⟨-, _, hr, -⟩ |
      ⟨e₂, hr, -, hid, -, -, -, -, -, hversion⟩
    · cases hr
    · cases hr
    · obtain ⟨hcid, hnext, -⟩ := PushResult.ok.inj hr
      have hb := hbase c hc hcid.symm
      rcases hversion with ⟨-, hnone, -⟩ | ⟨e₀, he₀, -, hb', hsucc⟩
      · rw [hb] at hnone
        cases hnone
      · rw [hb] at hb'
        have hv : e₀.version = e.version := (Option.some.inj hb').symm
        rw [← hcid] at he₀
        refine ⟨(supersedes_run hrun).eq_of_version_between hbefore hget he₀ hv, ?_⟩
        rw [hnext, hsucc, hv]
  · exfalso
    apply hdeletes d hd
    rcases pushDelete_eq_ok hdelete with ⟨-, _, hr, -⟩ | ⟨-, _, hr, -⟩ | ⟨-, _, hr, -⟩ |
      ⟨_, _, hr, -⟩
    · cases hr
    · exact (PushResult.ok.inj hr).1.symm
    · cases hr
    · exact (PushResult.ok.inj hr).1.symm

end

/-! ### A host that is read and changed -/

open Symbolic

/-- A database with a user and a personal vault. -/
def roomy : Db :=
  { blank with
    vaults := .single ⟨1, .personal, none, "Personal", 1, 0, 0, false, true, false⟩
    vaultMembers := .single ⟨1, 1, .manager, some "AAAA", 1⟩ }

/-- The user pushes a new host from a device. -/
def newHost (id : Uuid) : Write :=
  .push ⟨1000, 0, 0⟩ ⟨1, 9, none⟩ 5 ⟨[⟨none, id, "host", 1, none, 1, "AAAA", 0⟩], []⟩

/-- The database with a host, and the one in which another host was written since. -/
def withHost : Db := (feedSystem.run roomy [newHost 7]).get rfl

def withHosts : Db := (feedSystem.run withHost [newHost 8]).get rfl

theorem run_withHost :
  feedSystem.run withHost [newHost 8] = some withHosts
  := (Option.some_get _).symm

/-- The host, as both pages have it. -/
def readHost : SyncEntity := ⟨some 5, 7, "host", 1, 1, 1, false, 1, "AAAA", 0, some 9⟩

def readVault : PullRequest := ⟨.single (1, 0), none⟩

theorem readHost_mem_pull :
  readHost ∈ (withHost.pull ⟨1, 2, none⟩ readVault).entities
  := List.Mem.head _

/-- The first entity of the page another device reads later. -/
def readLater : SyncEntity := ((withHosts.pull ⟨1, 3, none⟩ readVault).entities.head?).get rfl

theorem readLater_mem_pull :
  readLater ∈ (withHosts.pull ⟨1, 3, none⟩ readVault).entities
  := List.mem_of_mem_head? (Option.get_mem _)

/-- The user changes the host that was read. -/
def changedHost : PushRequest := ⟨[⟨none, 7, "host", 1, some 1, 1, "BBBB", 0⟩], []⟩

def withChange : Db :=
  (feedSystem.run withHosts [.push ⟨1000, 0, 0⟩ ⟨1, 2, none⟩ 6 changedHost]).get rfl

theorem push_changedHost :
  withHosts.push ⟨1000, 0, 0⟩ ⟨1, 2, none⟩ 6 changedHost = .ok ([.ok 7 2 3], withChange)
  := rfl

/-- The host that was changed is the one that was read. -/
theorem unsuperseded_changedHost :
  withHosts.entities.get? 7 = some readHost ∧ (2 : ℤ) = 1 + 1
  := by
  apply unsuperseded_of_accepted run_withHost readHost_mem_pull push_changedHost
  · intro c hc _
    rw [List.mem_singleton.mp hc]
    rfl
  · intro d hd
    cases hd
  · apply List.mem_singleton_self

end Db

end Termoso.Server
