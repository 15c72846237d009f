import Termoso.Server.Teams
import Termoso.Lib.Result
import Termoso.Lib.Split

/-!
# Filters over the users of a team

An identity provider lists the users of a team that meet a filter: clauses that compare an
attribute with a JSON text, joined by `and`.  A filter is split at ` and ` and at spaces before its
texts are read, and a later clause on a field takes the place of an earlier one.

A filter is compared with its clauses, and any text with the terms it is split into.
-/

namespace Termoso.Server

open Split

namespace ScimFilter

abbrev Text := List Char

/-! ### Users -/

structure ScimUser where
  id : Uuid
  email : Text
  displayName : Option Text
  externalId : Option Text
  scimActive : Bool
  disabled : Bool
  managedBy : Option Uuid
  createdAt : DateTime
deriving DecidableEq

instance : Keyed ScimUser Uuid := ⟨ScimUser.id⟩

/-- The users of the server, and the members of its teams. -/
structure Directory where
  users : Table ScimUser
  members : Table TeamMemberRow

/-- How the database folds texts, which tells some of them apart, and how identifiers are read. -/
structure Reading where
  lower : Text → Text
  folds : ∃ s t, lower s ≠ lower t
  parseUuid : Text → Option Uuid

/-- What a filter asks for. -/
structure Filter where
  userName : Option Text
  externalId : Option Text
  active : Option Bool
  displayName : Option Text
  id : Option Uuid
deriving DecidableEq

/-- A filter that asks for nothing. -/
def Filter.default : Filter := ⟨none, none, none, none, none⟩

namespace Directory

variable (r : Reading) (s : Directory) (teamId : Uuid)

def isMember (u : ScimUser) : Bool := (s.members.get? (teamId, u.id)).isSome

/-- A user in scope of a team: a member, or an account the team provisioned. -/
def inScope (u : ScimUser) : Bool := s.isMember teamId u || decide (u.managedBy = some teamId)

def isActive (u : ScimUser) : Bool := u.scimActive && !u.disabled && s.isMember teamId u

/-- Whether a user meets what a filter asks for. -/
def selects (f : Filter) (u : ScimUser) : Bool :=
  f.id.all (fun id => decide (u.id = id))
    && f.userName.all (fun name => decide (r.lower u.email = r.lower name))
    && f.externalId.all (fun x => decide (u.externalId = some x))
    && f.active.all (fun a => decide (s.isActive teamId u = a))

/-- The users in scope that meet a condition, oldest first. -/
def usersWhere (p : ScimUser → Bool) : List ScimUser :=
  (s.users.select (fun u => s.inScope teamId u && p u)).insertionSort
    (fun u v => u.createdAt < v.createdAt ∨ u.createdAt = v.createdAt ∧ u.id ≤ v.id)

/-- Some users, from an offset on and not more than a limit, and how many there are. -/
def slice (rows : List ScimUser) (offset limit : ℤ) : List ScimUser × ℕ :=
  ((rows.drop offset.toNat).take limit.toNat, rows.length)

/-- A slice of the users in scope of a team that meet a filter. -/
def userRows (f : Filter) (offset limit : ℤ) : List ScimUser × ℕ :=
  slice (s.usersWhere teamId (s.selects r teamId f)) offset limit

end Directory

/-! ### Reading a filter -/

structure ScimError where
  status : ℕ
  scimType : Option String
  detail : Text
deriving DecidableEq

/-- The texts are equal up to ASCII case. -/
def eqIgnoreAsciiCase (s t : Text) : Bool := s.map Char.toLower == t.map Char.toLower

inductive Field
  | userName
  | externalId
  | active
  | displayName
  | id
deriving DecidableEq

/-- The field that an attribute in lower case is about. -/
def fieldOf (attr : Text) : Option Field :=
  if attr = "username".toList then some .userName
  else if attr = "externalid".toList then some .externalId
  else if attr = "active".toList then some .active
  else if attr = "displayname".toList then some .displayName
  else if attr = "id".toList then some .id
  else if attr = "emails.value".toList ∨ attr = "emails[type eq \"work\"].value".toList then
    some .userName
  else none

/-- Cut a text at its first two spaces. -/
def splitThree (s : Text) : Option (Text × Text × Text) :=
  (cut [' '] s).bind (fun (a, rest) => (cut [' '] rest).map (fun (b, c) => (a, b, c)))

/-- Read a term of a filter. -/
def readTerm (term : Text) : Except ScimError (Field × Text) :=
  let term := trimBy isWhitespace term
  match splitThree term with
  | none => .error ⟨400, some "invalidFilter", "unsupported filter `".toList ++ term ++ ['`']⟩
  | some (attr, op, val) =>
    if !eqIgnoreAsciiCase op ['e', 'q'] then
      .error ⟨400, some "invalidFilter", "only `eq` filters are supported".toList⟩
    else
      let val := trimBy (· == '"') (trimBy isWhitespace val)
      let attr := (trimBy isWhitespace attr).map Char.toLower
      match fieldOf attr with
      | some field => .ok (field, val)
      | none =>
        .error ⟨400, some "invalidFilter", "unsupported attribute `".toList ++ attr ++ ['`']⟩

/-- Ask for a value of a field. -/
def Filter.set (r : Reading) (out : Filter) : Field × Text → Filter
  | (.userName, val) => { out with userName := some val }
  | (.externalId, val) => { out with externalId := some val }
  | (.active, val) => { out with active := some (eqIgnoreAsciiCase val "true".toList) }
  | (.displayName, val) => { out with displayName := some val }
  | (.id, val) => { out with id := r.parseUuid val }

def separator : Text := " and ".toList

/-- The terms of a filter, or the error of the first that cannot be read. -/
def readTerms (f : Option Text) : Except ScimError (List (Field × Text)) :=
  match (f.map (trimBy isWhitespace)).filter (fun f => decide (f ≠ [])) with
  | none => .ok []
  | some f => (splitBy separator f).mapM readTerm

/-- `attr eq "value"` terms joined with `and`. -/
def parseFilter (r : Reading) (f : Option Text) : Except ScimError Filter :=
  (readTerms f).map (fun ts => ts.foldl (Filter.set r) .default)

/-! ### Listing -/

structure ListQuery where
  filter : Option Text
  startIndex : Option ℤ
  count : Option ℤ

def MAX_RESULTS : ℤ := 200

/-- The number of the first user of a page, and the most users it has. -/
def paging (q : ListQuery) : ℤ × ℤ :=
  (max (q.startIndex.getD 1) 1, max 0 (min (q.count.getD 100) MAX_RESULTS))

structure UserPage where
  totalResults : ℕ
  startIndex : ℤ
  itemsPerPage : ℕ
  resources : List ScimUser
deriving DecidableEq

/-- The page of a query, given a slice of the users that meet its filter. -/
def UserPage.of (q : ListQuery) (rows : List ScimUser × ℕ) : UserPage :=
  ⟨rows.2, (paging q).1, rows.1.length, rows.1⟩

/-- List the users of a team that meet a filter. -/
def listUsers (r : Reading) (s : Directory) (teamId : Uuid) (q : ListQuery) :
    Except ScimError UserPage := do
  let f ← parseFilter r q.filter
  let (start, count) := paging q
  return .of q (s.userRows r teamId f (start - 1) count)

/-! ### JSON texts -/

/-- The value of a hexadecimal digit. -/
def hexDigit (c : Char) : Option ℕ :=
  if c.isDigit then some (c.toNat - 48)
  else if 'a' ≤ c ∧ c ≤ 'f' then some (c.toNat - 87)
  else if 'A' ≤ c ∧ c ≤ 'F' then some (c.toNat - 55)
  else none

/-- The number that four hexadecimal digits write. -/
def hexFour (a b c d : Char) : Option ℕ :=
  (hexDigit a).bind (fun a => (hexDigit b).bind (fun b => (hexDigit c).bind (fun c =>
    (hexDigit d).map (fun d => ((a * 16 + b) * 16 + c) * 16 + d))))

/-- The character that a short escape stands for. -/
def shortEscape (c : Char) : Option Char :=
  ([('"', '"'), ('\\', '\\'), ('/', '/'), ('b', '\x08'), ('f', '\x0c'), ('n', '\n'), ('r', '\r'),
    ('t', '\t')].find? (fun e => e.1 == c)).map Prod.snd

/-- The code units of what stands between the quotes of a JSON text, a character that is written
as it is being one unit. -/
def jsonUnits : Text → Option (List ℕ)
  | [] => some []
  | '\\' :: 'u' :: a :: b :: c :: d :: s =>
    (hexFour a b c d).bind (fun n => (jsonUnits s).map (n :: ·))
  | '\\' :: e :: s => (shortEscape e).bind (fun c => (jsonUnits s).map (c.toNat :: ·))
  | c :: s =>
    if c = '"' ∨ c = '\\' ∨ c.toNat < 0x20 then none else (jsonUnits s).map (c.toNat :: ·)

/-- The text of some code units, in which surrogates come in pairs. -/
def fromUnits : List ℕ → Option Text
  | [] => some []
  | n :: s =>
    if 0xDC00 ≤ n ∧ n ≤ 0xDFFF then none
    else if 0xD800 ≤ n ∧ n ≤ 0xDBFF then
      match s with
      | m :: s =>
        if 0xDC00 ≤ m ∧ m ≤ 0xDFFF then
          (fromUnits s).map (Char.ofNat (0x10000 + (n - 0xD800) * 0x400 + (m - 0xDC00)) :: ·)
        else none
      | [] => none
    else (fromUnits s).map (Char.ofNat n :: ·)

/-- The value of a JSON text, of which `body` stands between the quotes. -/
def jsonText (body : Text) : Option Text := (jsonUnits body).bind fromUnits

/-! ### Clauses -/

/-- The attributes that a clause compares. -/
inductive Attr
  | userName
  | externalId
  | id
  | active
  | emailsValue
  | emailsWork
deriving DecidableEq

def Attr.text : Attr → Text
  | .userName => "userName".toList
  | .externalId => "externalId".toList
  | .id => "id".toList
  | .active => "active".toList
  | .emailsValue => "emails.value".toList
  | .emailsWork => "emails[type eq \"work\"].value".toList

def Attr.field : Attr → Field
  | .userName | .emailsValue | .emailsWork => .userName
  | .externalId => .externalId
  | .id => .id
  | .active => .active

/-- A clause of a filter, with the value that its JSON text has. -/
structure Clause where
  attr : Attr
  body : Text
  value : Text
  reads : jsonText body = some value

namespace Clause

def text (c : Clause) : Text := c.attr.text ++ " eq \"".toList ++ c.body ++ ['"']

/-- What a clause says: the field and its value. -/
def said (c : Clause) : Field × Text := (c.attr.field, c.value)

/-- The field of a clause, with what is between its quotes less further quotes at both ends, where
escapes are as they are written. -/
def raw (c : Clause) : Field × Text := (c.attr.field, trimBy (· == '"') ('"' :: c.body ++ ['"']))

end Clause

/-- The text of a filter. -/
def render (cs : List Clause) : Text := separator.intercalate (cs.map Clause.text)

variable (r : Reading)

/-- Whether a user satisfies what is said of a field. -/
def Directory.holds (s : Directory) (teamId : Uuid) (u : ScimUser) : Field × Text → Bool
  | (.userName, v) => decide (r.lower u.email = r.lower v)
  | (.externalId, v) => decide (u.externalId = some v)
  | (.active, v) =>
    eqIgnoreAsciiCase v (if s.isActive teamId u then "true".toList else "false".toList)
  | (.displayName, v) => decide (u.displayName = some v)
  | (.id, v) => decide (r.parseUuid v = some u.id)

/-- The page of a query for the users in scope of a team that satisfy a condition. -/
def pageOf (s : Directory) (teamId : Uuid) (q : ListQuery) (p : ScimUser → Bool) : UserPage :=
  .of q (Directory.slice (s.usersWhere teamId p) ((paging q).1 - 1) (paging q).2)

/-- The users listed are those of the team that satisfy every clause. -/
def Exact (cs : List Clause) : Prop :=
  ∀ (s : Directory) (teamId : Uuid) (q : ListQuery), q.filter = some (render cs) →
    listUsers r s teamId q
      = .ok (pageOf s teamId q (fun u => cs.all (fun c => s.holds r teamId u c.said)))

/-- The users listed satisfy every term of a filter. -/
def NeverWidens (f : Text) : Prop :=
  ∀ (s : Directory) (teamId : Uuid) (q : ListQuery) (page : UserPage) (ts : List (Field × Text)),
    q.filter = some f → listUsers r s teamId q = .ok page → readTerms (some f) = .ok ts →
      ∀ u ∈ page.resources, ∀ t ∈ ts, s.holds r teamId u t = true

/-- The last value given to a field. -/
def lastValue (ts : List (Field × Text)) (field : Field) : Option Text :=
  ((ts.filter (fun t => decide (t.1 = field))).getLast?).map Prod.snd

/-- To ask for `w` says that a field has the value `v`: the same text, up to case for a name, a
truth value, an identifier. -/
def Says (w : Text) : Field × Text → Prop
  | (.userName, v) => r.lower w = r.lower v
  | (.externalId, v) => w = v
  | (.active, v) => eqIgnoreAsciiCase v
      (if eqIgnoreAsciiCase w "true".toList then "true".toList else "false".toList) = true
  | (.displayName, _) => False
  | (.id, v) => (r.parseUuid v).isSome = true ∧ r.parseUuid w = r.parseUuid v

/-- The last value given to a field says what is said of it. -/
def Determined (ts : List (Field × Text)) (t : Field × Text) : Prop :=
  ∃ w, lastValue ts t.1 = some w ∧ Says r w t

/-- To ask for a value of a field leaves the users as they are: a display name, or what is not an
identifier. -/
def Idle : Field × Text → Prop
  | (.displayName, _) => True
  | (.id, w) => r.parseUuid w = none
  | _ => False

/-- Terms ask for what clauses say, and for nothing else. -/
def AsksFor (ts : List (Field × Text)) (cs : List Clause) : Prop :=
  (∀ c ∈ cs, Determined r ts c.said)
    ∧ ∀ field w, lastValue ts field = some w →
      (∃ c ∈ cs, c.attr.field = field) ∨ Idle r (field, w)

/-! ### What a filter asks for -/

section
variable {r} {s : Directory} {teamId : Uuid} {u : ScimUser} {q : ListQuery}
  {ts : List (Field × Text)} {cs : List Clause} {field : Field} {w v f : Text}

/-- The page of a query is the page of the users that the filter selects. -/
theorem listUsers_eq (q : ListQuery) :
  listUsers r s teamId q
    = (readTerms q.filter).map (fun ts =>
      pageOf s teamId q (s.selects r teamId (ts.foldl (Filter.set r) .default)))
  := by
  rw [listUsers, parseFilter]
  cases readTerms q.filter with
  | error e => rfl
  | ok ts => rfl

theorem lastValue_append (ts : List (Field × Text)) (t : Field × Text) (field : Field) :
  lastValue (ts ++ [t]) field = if t.1 = field then some t.2 else lastValue ts field
  := by
  rw [lastValue, List.filter_append]
  by_cases h : t.1 = field
  · simp [h]
  · simp [h, lastValue]

/-- A filter asks for the last value given to each field. -/
theorem foldl_set (r : Reading) (ts : List (Field × Text)) :
  ts.foldl (Filter.set r) .default
    = ⟨lastValue ts .userName, lastValue ts .externalId,
      (lastValue ts .active).map (eqIgnoreAsciiCase · "true".toList), lastValue ts .displayName,
      (lastValue ts .id).bind r.parseUuid⟩
  := by
  induction ts using List.reverseRecOn with
  | nil => rfl
  | append_singleton ts t ih =>
      obtain ⟨field, v⟩ := t
      rw [List.foldl_append, List.foldl_cons, List.foldl_nil, ih]
      cases field with
      | userName => simp [Filter.set, lastValue_append]
      | externalId => simp [Filter.set, lastValue_append]
      | active => simp [Filter.set, lastValue_append]
      | displayName => simp [Filter.set, lastValue_append]
      | id => simp [Filter.set, lastValue_append]

/-- Whether a user meets what is asked of a field. -/
def Directory.Meets (r : Reading) (s : Directory) (teamId : Uuid) (u : ScimUser) :
    Field × Text → Prop
  | (.userName, w) => r.lower u.email = r.lower w
  | (.externalId, w) => u.externalId = some w
  | (.active, w) => s.isActive teamId u = eqIgnoreAsciiCase w "true".toList
  | (.displayName, _) => True
  | (.id, w) => ∀ id, r.parseUuid w = some id → u.id = id

/-- A user is selected who meets what is asked last of each field. -/
theorem selects_iff :
  s.selects r teamId (ts.foldl (Filter.set r) .default) u = true
    ↔ ∀ field w, lastValue ts field = some w → s.Meets r teamId u (field, w)
  := by
  rw [foldl_set, Directory.selects]
  simp only [Bool.and_eq_true, Option.all_eq_true, decide_eq_true_eq, Option.map_eq_some_iff,
    Option.bind_eq_some_iff]
  constructor
  · rintro ⟨⟨⟨hid, hname⟩, hext⟩, hactive⟩ field w hw
    cases field with
    | userName => exact hname w hw
    | externalId => exact hext w hw
    | active => exact hactive _ ⟨w, hw, rfl⟩
    | displayName => trivial
    | id => exact fun id hparse => hid id ⟨w, hw, hparse⟩
  · intro h
    refine ⟨⟨⟨?_, ?_⟩, ?_⟩, ?_⟩
    · rintro id ⟨w, hw, hparse⟩
      exact h .id w hw id hparse
    · exact fun w hw => h .userName w hw
    · exact fun w hw => h .externalId w hw
    · rintro _ ⟨w, hw, rfl⟩
      exact h .active w hw

/-- A text is `true` or `false`, and not both. -/
theorem eqIgnoreAsciiCase_bool {a b : Bool}
    (ha : eqIgnoreAsciiCase v (if a then "true".toList else "false".toList) = true)
    (hb : eqIgnoreAsciiCase v (if b then "true".toList else "false".toList) = true) :
  a = b
  := by
  rw [eqIgnoreAsciiCase, beq_iff_eq] at ha hb
  have hsame := ha.symm.trans hb
  cases a with
  | true =>
      cases b with
      | true => rfl
      | false => exact absurd hsame (by decide)
  | false =>
      cases b with
      | true => exact absurd hsame (by decide)
      | false => rfl

/-- A user who meets what is asked satisfies what this says. -/
theorem holds_of_meets (hmeets : s.Meets r teamId u (field, w)) (h : Says r w (field, v)) :
  s.holds r teamId u (field, v) = true
  := by
  cases field with
  | userName => exact decide_eq_true (hmeets.trans h)
  | externalId =>
      rw [Directory.holds, decide_eq_true_eq, ← (h : w = v)]
      exact hmeets
  | active =>
      rw [Directory.holds, (hmeets : s.isActive teamId u = _)]
      exact h
  | displayName => exact absurd h id
  | id =>
      obtain ⟨hsome, hsame⟩ := h
      obtain ⟨i, hi⟩ := Option.isSome_iff_exists.mp hsome
      apply decide_eq_true
      rw [hi, hmeets i (hsame.trans hi)]

/-- A user who satisfies what is said meets what is asked by it. -/
theorem meets_of_holds (hholds : s.holds r teamId u (field, v) = true) (h : Says r w (field, v)) :
  s.Meets r teamId u (field, w)
  := by
  cases field with
  | userName => exact (of_decide_eq_true hholds).trans h.symm
  | externalId =>
      rw [Directory.holds, decide_eq_true_eq, ← (h : w = v)] at hholds
      exact hholds
  | active => exact eqIgnoreAsciiCase_bool hholds h
  | displayName => trivial
  | id =>
      intro id hparse
      have hu : r.parseUuid v = some u.id := of_decide_eq_true hholds
      rw [← h.2, hparse] at hu
      exact (Option.some.inj hu).symm

/-- A user who is selected satisfies what the terms determine. -/
theorem holds_of_selects {t : Field × Text} (ht : Determined r ts t)
    (h : s.selects r teamId (ts.foldl (Filter.set r) .default) u = true) :
  s.holds r teamId u t = true
  := by
  obtain ⟨w, hw, hasks⟩ := ht
  exact holds_of_meets (selects_iff.mp h t.1 w hw) hasks

/-- Terms that ask for what clauses say select who satisfies the clauses. -/
theorem selects_eq_all (h : AsksFor r ts cs) :
  s.selects r teamId (ts.foldl (Filter.set r) .default) u
    = cs.all (fun c => s.holds r teamId u c.said)
  := by
  rw [Bool.eq_iff_iff, List.all_eq_true]
  constructor
  · intro hselects c hc
    exact holds_of_selects (h.1 c hc) hselects
  · intro hall
    apply selects_iff.mpr
    intro field w hw
    rcases h.2 field w hw with ⟨c, hc, rfl⟩ | hidle
    · obtain ⟨w', hw', hasks⟩ := h.1 c hc
      cases hw.symm.trans hw'
      exact meets_of_holds (hall c hc) hasks
    · cases field with
      | displayName => trivial
      | id =>
          intro id hparse
          rw [(hidle : r.parseUuid w = none)] at hparse
          cases hparse
      | userName => exact absurd hidle not_false
      | externalId => exact absurd hidle not_false
      | active => exact absurd hidle not_false

/-! ### A team of one -/

/-- A directory with one user, who is a member of one team. -/
def solo (u : ScimUser) : Directory where
  users := ⟨[u], by simp⟩
  members := ⟨[⟨0, u.id, "", 0, ""⟩], by simp⟩

/-- A user of an identifier, an address, an external identifier and a state. -/
def person (i : Uuid) (e : Text) (x : Option Text) (a : Bool) : ScimUser :=
  ⟨i, e, none, x, a, false, none, 0⟩

theorem isMember_solo (u : ScimUser) :
  (solo u).isMember 0 u = true
  := by
  simp [Directory.isMember, solo, Table.get?, key]

theorem isActive_solo (i : Uuid) (e : Text) (x : Option Text) (a : Bool) :
  (solo (person i e x a)).isActive 0 (person i e x a) = a
  := by
  simp [Directory.isActive, isMember_solo, person]

/-- The page of the only user. -/
theorem resources_solo (f : Option Text) (u : ScimUser) (p : ScimUser → Bool) :
  (pageOf (solo u) 0 ⟨f, none, none⟩ p).resources = if p u then [u] else []
  := by
  have hrows : (solo u).usersWhere 0 p = if p u then [u] else [] := by
    have hscope : (solo u).inScope 0 u = true := by
      rw [Directory.inScope, isMember_solo, Bool.true_or]
    have hselect : (solo u).users.select (fun v => (solo u).inScope 0 v && p v)
        = if p u then [u] else [] := by
      change [u].filter _ = _
      rw [List.filter_cons, List.filter_nil, hscope, Bool.true_and]
    rw [Directory.usersWhere, hselect]
    cases p u with
    | true => rfl
    | false => rfl
  rw [pageOf, hrows]
  cases p u with
  | true => rfl
  | false => rfl

/-- What the terms of a filter ask of the only user of a team. -/
structure Asked (r : Reading) (ts : List (Field × Text)) (i : Uuid) (e : Text) (x : Option Text)
    (a : Bool) : Prop where
  id : ∀ w, lastValue ts .id = some w → ∀ id, r.parseUuid w = some id → i = id
  userName : ∀ w, lastValue ts .userName = some w → r.lower e = r.lower w
  externalId : ∀ w, lastValue ts .externalId = some w → x = some w
  active : ∀ w, lastValue ts .active = some w → a = eqIgnoreAsciiCase w "true".toList

variable {i : Uuid} {e : Text} {x : Option Text} {a : Bool}

theorem selects_person :
  (solo (person i e x a)).selects r 0 (ts.foldl (Filter.set r) .default) (person i e x a) = true
    ↔ Asked r ts i e x a
  := by
  rw [selects_iff]
  constructor
  · intro h
    constructor
    · exact h .id
    · exact h .userName
    · exact h .externalId
    · intro w hw
      have hmeets : _ = _ := h .active w hw
      rw [isActive_solo] at hmeets
      exact hmeets
  · intro h field w hw
    cases field with
    | userName => exact h.userName w hw
    | externalId => exact h.externalId w hw
    | active =>
        rw [Directory.Meets, isActive_solo]
        exact h.active w hw
    | displayName => trivial
    | id => exact h.id w hw

theorem exists_id (r : Reading) (ts : List (Field × Text)) :
  ∃ i, ∀ w, lastValue ts .id = some w → ∀ id, r.parseUuid w = some id → i = id
  := by
  use ((lastValue ts .id).bind r.parseUuid).getD 0
  intro w hw id hid
  rw [hw, Option.bind_some, hid, Option.getD_some]

theorem exists_email (r : Reading) (ts : List (Field × Text)) :
  ∃ e, ∀ w, lastValue ts .userName = some w → r.lower e = r.lower w
  := by
  use (lastValue ts .userName).getD []
  intro w hw
  rw [hw, Option.getD_some]

theorem exists_active (ts : List (Field × Text)) :
  ∃ a, ∀ w, lastValue ts .active = some w → a = eqIgnoreAsciiCase w "true".toList
  := by
  use (lastValue ts .active).elim true (eqIgnoreAsciiCase · "true".toList)
  intro w hw
  rw [hw, Option.elim_some]

/-- What holds of the only user of a team whenever the terms are met is determined by them. -/
theorem determined_of_holds {t : Field × Text}
    (h : ∀ i e x a, Asked r ts i e x a →
      (solo (person i e x a)).holds r 0 (person i e x a) t = true) :
  Determined r ts t
  := by
  obtain ⟨field, v⟩ := t
  obtain ⟨i, hi⟩ := exists_id r ts
  obtain ⟨e, he⟩ := exists_email r ts
  obtain ⟨a, ha⟩ := exists_active ts
  have hx : ∀ w, lastValue ts .externalId = some w → lastValue ts .externalId = some w :=
    fun _ hw => hw
  cases field with
  | userName =>
      cases hw : lastValue ts .userName with
      | none =>
          obtain ⟨e₁, e₂, hne⟩ := r.folds
          have hfree : ∀ e, r.lower e = r.lower v := by
            intro e
            apply of_decide_eq_true (h i e _ a ⟨hi, ?_, hx, ha⟩)
            intro w hw'
            rw [hw] at hw'
            cases hw'
          exact absurd ((hfree e₁).trans (hfree e₂).symm) hne
      | some w =>
          refine ⟨w, hw, ?_⟩
          apply of_decide_eq_true (h i w _ a ⟨hi, ?_, hx, ha⟩)
          intro w' hw'
          cases hw.symm.trans hw'
          rfl
  | externalId =>
      have hsame : lastValue ts .externalId = some v :=
        of_decide_eq_true (h i e _ a ⟨hi, he, hx, ha⟩)
      exact ⟨v, hsame, rfl⟩
  | active =>
      have hasks : ∀ a, Asked r ts i e (lastValue ts .externalId) a →
          eqIgnoreAsciiCase v (if a then "true".toList else "false".toList) = true := by
        intro a hasked
        have hholds := h i e _ a hasked
        rw [Directory.holds, isActive_solo] at hholds
        exact hholds
      cases hw : lastValue ts .active with
      | none =>
          have hfree : ∀ a, Asked r ts i e (lastValue ts .externalId) a := by
            intro a
            refine ⟨hi, he, hx, ?_⟩
            intro w hw'
            rw [hw] at hw'
            cases hw'
          cases eqIgnoreAsciiCase_bool (hasks true (hfree true)) (hasks false (hfree false))
      | some w =>
          refine ⟨w, hw, hasks _ ⟨hi, he, hx, ?_⟩⟩
          intro w' hw'
          cases hw.symm.trans hw'
          rfl
  | displayName =>
      have hnone : none = some v := of_decide_eq_true (h i e _ a ⟨hi, he, hx, ha⟩)
      cases hnone
  | id =>
      have hasks : ∀ i, Asked r ts i e (lastValue ts .externalId) a → r.parseUuid v = some i :=
        fun i hasked => of_decide_eq_true (h i e _ a hasked)
      -- an identifier that is not asked for could be any
      have hfixed : ∃ w j, lastValue ts .id = some w ∧ r.parseUuid w = some j := by
        by_contra hnone
        have hfree : ∀ i, Asked r ts i e (lastValue ts .externalId) a :=
          fun i => ⟨fun w hw j hj => absurd ⟨w, j, hw, hj⟩ hnone, he, hx, ha⟩
        have hsame := (hasks 0 (hfree 0)).symm.trans (hasks 1 (hfree 1))
        exact absurd (Option.some.inj hsame) (by decide)
      obtain ⟨w, j, hw, hj⟩ := hfixed
      obtain rfl := hi w hw j hj
      have hv := hasks i ⟨hi, he, hx, ha⟩
      exact ⟨w, hw, Option.isSome_iff_exists.mpr ⟨i, hv⟩, hj.trans hv.symm⟩

/-! ### Exactness -/

/-- What is said of a field looks at nothing else of the only user. -/
theorem holds_person_congr {i' : Uuid} {e' : Text} {x' : Option Text} {a' : Bool}
    {t : Field × Text} (hi : t.1 = .id → i = i') (he : t.1 = .userName → e = e')
    (hx : t.1 = .externalId → x = x') (ha : t.1 = .active → a = a') :
  (solo (person i e x a)).holds r 0 (person i e x a) t
    = (solo (person i' e' x' a')).holds r 0 (person i' e' x' a') t
  := by
  obtain ⟨field, v⟩ := t
  cases field with
  | userName =>
      obtain rfl := he rfl
      rfl
  | externalId =>
      obtain rfl := hx rfl
      rfl
  | active =>
      obtain rfl := ha rfl
      rw [Directory.holds, Directory.holds, isActive_solo, isActive_solo]
  | displayName => rfl
  | id =>
      obtain rfl := hi rfl
      rfl

/-- A filter is answered exactly when its terms ask for what its clauses say. -/
theorem exact_iff :
  Exact r cs ↔ ∃ ts, readTerms (some (render cs)) = .ok ts ∧ AsksFor r ts cs
  := by
  constructor
  · intro h
    obtain ⟨ts, hts⟩ : ∃ ts, readTerms (some (render cs)) = .ok ts := by
      have hlisted := h (solo (person 0 [] none true)) 0 ⟨some (render cs), none, none⟩ rfl
      rw [listUsers_eq, map_eq_ok] at hlisted
      obtain ⟨ts, hts, -⟩ := hlisted
      exact ⟨ts, hts⟩
    have hsame : ∀ u, (solo u).selects r 0 (ts.foldl (Filter.set r) .default) u
        = cs.all (fun c => (solo u).holds r 0 u c.said) := by
      intro u
      have hlisted := h (solo u) 0 ⟨some (render cs), none, none⟩ rfl
      rw [listUsers_eq, hts] at hlisted
      have hresources := congrArg UserPage.resources (Except.ok.inj hlisted)
      rw [resources_solo, resources_solo] at hresources
      rw [Bool.eq_iff_iff]
      split at hresources <;> split at hresources <;> simp_all
    have hholds : ∀ {i e x a}, Asked r ts i e x a → ∀ c ∈ cs,
        (solo (person i e x a)).holds r 0 (person i e x a) c.said = true := by
      intro i e x a hasked
      have hall := hsame (person i e x a)
      rw [selects_person.mpr hasked] at hall
      exact List.all_eq_true.mp hall.symm
    refine ⟨ts, hts, fun c hc => determined_of_holds (fun i e x a h => hholds h c hc), ?_⟩
    intro field w hw
    by_contra hnot
    rw [not_or, not_exists] at hnot
    obtain ⟨hclauses, hidle⟩ := hnot
    obtain ⟨i, hi⟩ := exists_id r ts
    obtain ⟨e, he⟩ := exists_email r ts
    obtain ⟨a, ha⟩ := exists_active ts
    have hasked : Asked r ts i e (lastValue ts .externalId) a := ⟨hi, he, fun _ hw => hw, ha⟩
    -- a user who differs in the field alone satisfies the clauses as well
    have hvaried : ∀ i' e' x' a', (field ≠ .id → i = i') → (field ≠ .userName → e = e') →
        (field ≠ .externalId → lastValue ts .externalId = x') → (field ≠ .active → a = a') →
        Asked r ts i' e' x' a' := by
      intro i' e' x' a' hi' he' hx' ha'
      apply selects_person.mp
      rw [hsame, List.all_eq_true]
      intro c hc
      have hfield : c.said.1 ≠ field := fun hf => hclauses c ⟨hc, hf⟩
      rw [← holds_person_congr (fun hf => hi' (hf ▸ hfield.symm)) (fun hf => he' (hf ▸ hfield.symm))
        (fun hf => hx' (hf ▸ hfield.symm)) (fun hf => ha' (hf ▸ hfield.symm))]
      exact hholds hasked c hc
    cases field with
    | userName =>
        obtain ⟨e₁, e₂, hne⟩ := r.folds
        have hfree : ∀ e', r.lower e' = r.lower w := fun e' =>
          (hvaried i e' _ a (fun _ => rfl) (absurd rfl) (fun _ => rfl) (fun _ => rfl)).userName w hw
        exact hne ((hfree e₁).trans (hfree e₂).symm)
    | externalId =>
        have hnone := (hvaried i e none a (fun _ => rfl) (fun _ => rfl) (absurd rfl)
          (fun _ => rfl)).externalId w hw
        cases hnone
    | active =>
        have hflipped := (hvaried i e _ (!a) (fun _ => rfl) (fun _ => rfl) (fun _ => rfl)
          (absurd rfl)).active w hw
        rw [← ha w hw] at hflipped
        cases a <;> cases hflipped
    | displayName => exact hidle trivial
    | id =>
        obtain ⟨j, hj⟩ := Option.ne_none_iff_exists'.mp hidle
        have hnext := (hvaried (j + 1) e _ a (absurd rfl) (fun _ => rfl) (fun _ => rfl)
          (fun _ => rfl)).id w hw j hj
        exact absurd hnext (Nat.succ_ne_self j)
  · rintro ⟨ts, hts, hasks⟩ s teamId q hq
    rw [listUsers_eq, hq, hts]
    have hsame : s.selects r teamId (ts.foldl (Filter.set r) .default)
        = fun u => cs.all (fun c => s.holds r teamId u c.said) := by
      funext u
      exact selects_eq_all hasks
    rw [Except.map, hsame]

theorem of_mem_pageOf {p : ScimUser → Bool} (h : u ∈ (pageOf s teamId q p).resources) :
  p u = true
  := by
  have hrows := List.mem_of_mem_drop (List.mem_of_mem_take h)
  rw [Directory.usersWhere, List.mem_insertionSort, Table.select, List.mem_filter,
    Bool.and_eq_true] at hrows
  exact hrows.2.2

/-- A filter never widens exactly when it determines each of its terms. -/
theorem neverWidens_iff :
  NeverWidens r f ↔ ∀ ts, readTerms (some f) = .ok ts → ∀ t ∈ ts, Determined r ts t
  := by
  constructor
  · intro h ts hts t ht
    apply determined_of_holds
    intro i e x a hasked
    have hpage : listUsers r (solo (person i e x a)) 0 ⟨some f, none, none⟩
        = .ok (pageOf (solo (person i e x a)) 0 ⟨some f, none, none⟩
          (Directory.selects r (solo (person i e x a)) 0 (ts.foldl (Filter.set r) .default))) := by
      rw [listUsers_eq, hts]
      rfl
    apply h _ 0 ⟨some f, none, none⟩ _ ts rfl hpage hts (person i e x a) _ t ht
    rw [resources_solo, selects_person.mpr hasked]
    exact List.mem_singleton_self _
  · intro h s teamId q page ts hq hpage hts u hu t ht
    rw [listUsers_eq, hq, hts] at hpage
    cases hpage
    exact holds_of_selects (h ts hts t ht) (of_mem_pageOf hu)

/-! ### Clauses that stay whole -/

theorem head?_text (c : Clause) :
  ∃ l, c.text.head? = some l ∧ isWhitespace l = false
  := by
  rw [Clause.text]
  cases c.attr with
  | userName => exact ⟨'u', rfl, rfl⟩
  | externalId => exact ⟨'e', rfl, rfl⟩
  | id => exact ⟨'i', rfl, rfl⟩
  | active => exact ⟨'a', rfl, rfl⟩
  | emailsValue => exact ⟨'e', rfl, rfl⟩
  | emailsWork => exact ⟨'e', rfl, rfl⟩

theorem getLast?_text (c : Clause) :
  c.text.getLast? = some '"'
  := by
  rw [Clause.text, List.getLast?_append, List.getLast?_singleton, Option.some_or]

theorem trimBy_text (c : Clause) :
  trimBy isWhitespace c.text = c.text
  := by
  obtain ⟨l, hl, hwhite⟩ := head?_text c
  exact trimBy_eq_self hl (getLast?_text c) hwhite rfl

/-- A clause is read by its attribute, which has no space in it, and by what is written between its
quotes. -/
theorem readTerm_text {c : Clause} (h : c.attr ≠ .emailsWork) :
  readTerm c.text = .ok c.raw
  := by
  have hattr : ' ' ∉ c.attr.text := by
    cases hc : c.attr with
    | emailsWork => exact absurd hc h
    | _ => decide
  have hsplit : splitThree c.text
      = some (c.attr.text, ['e', 'q'], '"' :: c.body ++ ['"']) := by
    have htext : c.text
        = c.attr.text ++ [' '] ++ (['e', 'q'] ++ [' '] ++ ('"' :: c.body ++ ['"'])) := by
      simp [Clause.text]
    have heq : ' ' ∉ ['e', 'q'] := by decide
    rw [splitThree, htext, cut_append (List.cons_ne_nil _ _) (apart_singleton hattr),
      Option.bind_some]
    dsimp only
    rw [cut_append (List.cons_ne_nil _ _) (apart_singleton heq), Option.map_some]
  have hval : trimBy isWhitespace ('"' :: c.body ++ ['"']) = '"' :: c.body ++ ['"'] := by
    apply trimBy_eq_self (c := '"') (d := '"') rfl _ rfl rfl
    rw [List.getLast?_append, List.getLast?_singleton, Option.some_or]
  have hfield : fieldOf ((trimBy isWhitespace c.attr.text).map Char.toLower)
      = some c.attr.field := by
    cases hc : c.attr with
    | emailsWork => exact absurd hc h
    | _ => decide
  rw [readTerm, trimBy_text, hsplit]
  dsimp only
  rw [hval, hfield]
  rfl

/-- A clause about the addresses of a kind is refused: its attribute has spaces in it. -/
theorem readTerm_work {c : Clause} (h : c.attr = .emailsWork) :
  ∃ e, readTerm c.text = .error e
  := by
  have hsplit : splitThree c.text = some ("emails[type".toList, ['e', 'q'],
      "\"work\"].value eq \"".toList ++ c.body ++ ['"']) := by
    have htext : c.text = "emails[type".toList ++ [' '] ++ (['e', 'q'] ++ [' ']
        ++ ("\"work\"].value eq \"".toList ++ c.body ++ ['"'])) := by
      rw [Clause.text, h]
      rfl
    have hattr : ' ' ∉ "emails[type".toList := by decide
    have heq : ' ' ∉ ['e', 'q'] := by decide
    rw [splitThree, htext, cut_append (List.cons_ne_nil _ _) (apart_singleton hattr),
      Option.bind_some]
    dsimp only
    rw [cut_append (List.cons_ne_nil _ _) (apart_singleton heq), Option.map_some]
  have hfield : fieldOf ((trimBy isWhitespace "emails[type".toList).map Char.toLower) = none := by
    decide
  rw [readTerm, trimBy_text, hsplit]
  dsimp only
  rw [hfield]
  exact ⟨_, rfl⟩

/-- Clauses in which ` and ` does not occur. -/
def Whole (cs : List Clause) : Prop := ∀ c ∈ cs, ¬ separator <:+: c.text

theorem head?_render (cs : List Clause) (c : Clause) :
  (render (c :: cs)).head? = c.text.head?
  := by
  obtain ⟨l, hl, -⟩ := head?_text c
  rw [render, List.map_cons]
  cases cs with
  | nil => rw [List.map_nil, List.intercalate_singleton]
  | cons d cs =>
      rw [List.map_cons, List.intercalate_cons_cons, List.append_assoc, List.head?_append, hl]
      rfl

theorem getLast?_render (hcs : cs ≠ []) :
  (render cs).getLast? = some '"'
  := by
  induction cs with
  | nil => exact absurd rfl hcs
  | cons c cs ih =>
      rw [render, List.map_cons]
      cases cs with
      | nil =>
          rw [List.map_nil, List.intercalate_singleton]
          exact getLast?_text c
      | cons d cs =>
          have hrest := ih (List.cons_ne_nil _ _)
          rw [render, List.map_cons] at hrest
          rw [List.map_cons, List.intercalate_cons_cons, List.getLast?_append, hrest]
          rfl

/-- A filter of whole clauses is split into them. -/
theorem readTerms_render (hcs : cs ≠ []) (hwhole : Whole cs) :
  readTerms (some (render cs)) = (cs.map Clause.text).mapM readTerm
  := by
  have hhead : ∃ l, (render cs).head? = some l ∧ isWhitespace l = false := by
    obtain ⟨c, cs', rfl⟩ := List.exists_cons_of_ne_nil hcs
    rw [head?_render]
    exact head?_text c
  obtain ⟨l, hl, hwhite⟩ := hhead
  have htrim : trimBy isWhitespace (render cs) = render cs :=
    trimBy_eq_self hl (getLast?_render hcs) hwhite rfl
  have hne : render cs ≠ [] := by
    intro hnil
    rw [hnil] at hl
    cases hl
  have hsplit : splitBy separator (render cs) = cs.map Clause.text := by
    apply splitBy_intercalate (by decide) (by simpa using hcs)
    intro t ht
    obtain ⟨c, hc, rfl⟩ := List.mem_map.mp ht
    change Apart separator (c.attr.text ++ " eq \"".toList ++ c.body ++ ['"'])
    exact apart_of_last (by decide) (hwhole c hc)
  rw [readTerms, Option.map_some, htrim, Option.filter_some, if_pos (decide_eq_true hne)]
  dsimp only
  rw [hsplit]

theorem lastValue_field (h : lastValue ts field = some w) :
  ∃ t ∈ ts, t.1 = field
  := by
  rw [lastValue, Option.map_eq_some_iff] at h
  obtain ⟨t, ht, -⟩ := h
  have hmem := List.mem_filter.mp (List.mem_of_getLast? ht)
  exact ⟨t, hmem.1, of_decide_eq_true hmem.2⟩

/-- A filter of whole clauses is answered exactly when none of them is about the addresses of a kind
and each is determined by what is written between the quotes. -/
theorem exact_iff_of_whole (hcs : cs ≠ []) (hwhole : Whole cs) :
  Exact r cs ↔ ∀ c ∈ cs, c.attr ≠ .emailsWork ∧ Determined r (cs.map Clause.raw) c.said
  := by
  rw [exact_iff, readTerms_render hcs hwhole]
  constructor
  · rintro ⟨ts, hts, hasks⟩
    have hplain : ∀ c ∈ cs, c.attr ≠ .emailsWork := by
      intro c hc hwork
      obtain ⟨e, he⟩ := readTerm_work hwork
      obtain ⟨t, ht⟩ := of_mapM_eq_ok hts (List.mem_map_of_mem hc)
      rw [he] at ht
      cases ht
    have hraw : ts = cs.map Clause.raw := by
      have hok := mapM_map_ok (fun c hc => readTerm_text (hplain c hc))
      exact Except.ok.inj (hts.symm.trans hok)
    rw [hraw] at hasks
    exact fun c hc => ⟨hplain c hc, hasks.1 c hc⟩
  · intro h
    refine ⟨cs.map Clause.raw, mapM_map_ok (fun c hc => readTerm_text (h c hc).1),
      fun c hc => (h c hc).2, ?_⟩
    intro field w hw
    obtain ⟨t, ht, rfl⟩ := lastValue_field hw
    obtain ⟨c, hc, rfl⟩ := List.mem_map.mp ht
    exact .inl ⟨c, hc, rfl⟩

end

/-- Names are folded in ASCII, and no text is an identifier. -/
def plain : Reading where
  lower s := s.map Char.toLower
  folds := ⟨['a'], ['b'], by decide⟩
  parseUuid _ := none

/-- A clause on a name that needs no escapes. -/
def named (name : Text) (h : jsonText name = some name) : Clause := ⟨.userName, name, name, h⟩

/-- A filter by one name. -/
def byName : List Clause := [named "ada".toList (by decide +kernel)]

/-- A filter by a name that holds the word `and`. -/
def byConjunction : List Clause := [named "rock and roll".toList (by decide +kernel)]

end ScimFilter

end Termoso.Server
