import Termoso.Lib.Digits
import Termoso.Lib.Split
import Termoso.Proto

/-!
# Reading an ssh_config

Concrete `Host` aliases become hosts; the directives that apply to each come from every matching
block, and the first value wins.  An `Include` is expanded where it stands.

A text with its included files is a list of items, in which what an `Include` stands for is one
item.  A directive stands under the last `Host` or `Match` line before it, an included file apart;
the importer puts it into the last block it has opened.
-/

namespace Termoso.Core.SshImport

open Split Digits

abbrev Text := List Char

def MAX_INCLUDE_DEPTH : ℕ := 8

def MULTI_VALUED : List Text :=
  ["identityfile".toList, "localforward".toList, "remoteforward".toList, "dynamicforward".toList,
    "sendenv".toList, "setenv".toList]

structure Directive where
  key : Text
  args : List Text
deriving DecidableEq

structure Block where
  /-- `Host` patterns; empty for the global block. `none` for `Match`. -/
  patterns : Option (List Text)
  directives : List Directive
deriving DecidableEq

structure Parsed where
  blocks : List Block
  matches_ : ℕ
  includes : ℕ
  missingIncludes : List Text
deriving DecidableEq

/-- The files a pattern of an `Include` expands to, in order, each with its text when it can be
read. -/
abbrev Files := Text → List (Option Text)

/-! ### Lines and their arguments -/

/-- The lines of a text, without their ends. -/
def linesOf (text : Text) : List Text :=
  let ls := splitBy ['\n'] text
  (if ls.getLast? = some [] then ls.dropLast else ls).map (fun l =>
    if l.getLast? = some '\r' then l.dropLast else l)

/-- Arguments read so far, and the one being read. -/
structure Args where
  out : List Text
  cur : Text
  quoted : Bool
  hadQuote : Bool
deriving DecidableEq

/-- The arguments when the text ends. -/
def Args.finish (a : Args) : List Text :=
  if a.cur ≠ [] ∨ a.hadQuote = true then a.out ++ [a.cur] else a.out

/-- Split a text into arguments, with quotes around blanks; a `#` at the start of one ends them. -/
def splitArgsFrom : Args → Text → List Text
  | a, [] => a.finish
  | a, c :: s =>
    if c = '"' then splitArgsFrom { a with quoted := !a.quoted, hadQuote := true } s
    else if isWhitespace c = true ∧ a.quoted = false then
      if a.cur ≠ [] ∨ a.hadQuote = true then
        splitArgsFrom { a with out := a.out ++ [a.cur], cur := [], hadQuote := false } s
      else splitArgsFrom a s
    else if c = '#' ∧ a.quoted = false ∧ a.cur = [] then a.finish
    else splitArgsFrom { a with cur := a.cur ++ [c] } s

def splitArgs (s : Text) : List Text := splitArgsFrom ⟨[], [], false, false⟩ s

/-- Read `Key value`, `Key=value`, `Key "quoted value"`; comments stripped. -/
def tokenize (line : Text) : Option Directive :=
  let line := trimBy isWhitespace line
  if line = [] ∨ line.head? = some '#' then none
  else
    let key := line.takeWhile (fun c => !(isWhitespace c || c == '='))
    if key = [] then none
    else
      let rest := (line.drop key.length).dropWhile isWhitespace
      let rest := if rest.head? = some '=' then rest.tail else rest
      some ⟨key.map Char.toLower, splitArgs (trimBy isWhitespace rest)⟩

/-! ### Reading a file and what it includes -/

/-- Add a directive to the last block. -/
def pushDirective (blocks : List Block) (d : Directive) : List Block :=
  match blocks.getLast? with
  | some b => blocks.dropLast ++ [{ b with directives := b.directives ++ [d] }]
  | none => blocks

section
variable (files : Files)

/-- Read the files that a pattern expands to. -/
def includePattern (read : Text → Parsed → Parsed) (out : Parsed) (pat : Text) : Parsed :=
  let out := if files pat = [] then { out with missingIncludes := out.missingIncludes ++ [pat] }
    else out
  (files pat).foldl (fun out f => f.elim out (fun t => read t out)) out

/-- Read a directive; `read` reads an included file, when the limit allows one more. -/
def readDirective (read : Option (Text → Parsed → Parsed)) (out : Parsed) (d : Directive) :
    Parsed :=
  if d.key = "host".toList then { out with blocks := out.blocks ++ [⟨some d.args, []⟩] }
  else if d.key = "match".toList then
    { out with matches_ := out.matches_ + 1, blocks := out.blocks ++ [⟨none, []⟩] }
  else if d.key = "include".toList then
    let out := { out with includes := out.includes + 1 }
    match read with
    | none => out
    | some read => d.args.foldl (includePattern files read) out
  else { out with blocks := pushDirective out.blocks d }

/-- Read the lines of a text. -/
def readLines (read : Option (Text → Parsed → Parsed)) (text : Text) (out : Parsed) : Parsed :=
  (linesOf text).foldl (fun out raw => (tokenize raw).elim out (readDirective files read out)) out

/-- Read a text, in which files can be included down to a depth. -/
def read : ℕ → Text → Parsed → Parsed
  | 0 => readLines files none
  | left + 1 => readLines files (some (read left))

/-- What a configuration is read as: a block for its globals, and those it opens. -/
def parse (text : Text) : Parsed :=
  read files MAX_INCLUDE_DEPTH text ⟨[⟨some [], []⟩], 0, 0, []⟩

end

/-! ### Patterns -/

/-- Whether some end of a text meets a condition. -/
def anyTail (p : Text → Bool) : Text → Bool
  | [] => p []
  | c :: t => p (c :: t) || anyTail p t

/-- OpenSSH-style pattern: `*`, `?`, case-insensitive. -/
def globMatch : Text → Text → Bool
  | [], t => t.isEmpty
  | '*' :: p, t => anyTail (globMatch p) t
  | '?' :: p, _ :: t => globMatch p t
  | a :: p, b :: t => a.toLower == b.toLower && globMatch p t
  | _ :: _, [] => false

/-- Whether a `Host` pattern list applies to `name`: any positive pattern matches and no negated one
does. -/
def patternsMatchFrom (name : Text) : Bool → List Text → Bool
  | positive, [] => positive
  | positive, p :: ps =>
    match p with
    | '!' :: neg => if globMatch neg name then false else patternsMatchFrom name positive ps
    | _ => patternsMatchFrom name (positive || globMatch p name) ps

def patternsMatch (patterns : List Text) (name : Text) : Bool :=
  patternsMatchFrom name false patterns

def isPattern (name : Text) : Bool := name.any (fun c => c == '*' || c == '?' || c == '!')

/-! ### The directives that apply to an alias -/

/-- Effective directives for one alias: first value wins, except the multi-valued ones which
accumulate. -/
structure Effective where
  single : List (Text × List Text)
  multi : List (Text × List Text)
deriving DecidableEq

def Block.applies (name : Text) (b : Block) : Bool :=
  match b.patterns with
  | none => false
  | some [] => true
  | some p => patternsMatch p name

theorem lawfulBEq_text : LawfulBEq Text := inferInstance

attribute [local instance] lawfulBEq_text

namespace Effective

def add (eff : Effective) (d : Directive) : Effective :=
  if d.key ∈ MULTI_VALUED then { eff with multi := eff.multi ++ [(d.key, d.args)] }
  else if eff.single.any (fun e => e.1 == d.key) then eff
  else { eff with single := eff.single ++ [(d.key, d.args)] }

def compute (parsed : Parsed) (name : Text) : Effective :=
  ((parsed.blocks.filter (Block.applies name)).flatMap Block.directives).foldl add ⟨[], []⟩

def get (eff : Effective) (key : Text) : Option Text :=
  (eff.single.find? (fun e => e.1 == key)).bind (fun e => e.2.head?)

def all (eff : Effective) (key : Text) : List (List Text) :=
  (eff.multi.filter (fun e => e.1 == key)).map Prod.snd

end Effective

/-! ### Hosts -/

inductive PfKind
  | local_
  | remote
  | dynamic
deriving DecidableEq

structure ImportedPfRule where
  hostLabel : Text
  kind : PfKind
  boundAddress : Text
  localPort : ℕ
  remoteHost : Text
  remotePort : ℕ
deriving DecidableEq

structure ImportedHost where
  label : Text
  address : Text
  port : Option ℕ
  username : Text
  keyPath : Option Text
  jumpHosts : List Text
  agentForwarding : Bool
  forwardX11 : Bool
  envVariables : List (Text × Text)
  keepAliveInterval : Option ℕ
  timeout : Option ℕ
  warnings : List Text
deriving DecidableEq

def eqIgnoreCase (s t : Text) : Bool := s.map Char.toLower == t.map Char.toLower

def yes (v : Option Text) : Bool :=
  v.any (fun s => eqIgnoreCase s "yes".toList || eqIgnoreCase s "true".toList)

/-- Replace a part of a text wherever it occurs. -/
def replaceAll (s part new : Text) : Text := new.intercalate (splitBy part s)

/-- Cut a text at the last character of a kind. -/
def cutLast (p : Char → Bool) (s : Text) : Option (Text × Text) :=
  let tail := s.reverse.takeWhile (fun c => !p c)
  match s.reverse.drop tail.length with
  | [] => none
  | _ :: front => some (front.reverse, tail.reverse)

def parsePort (s : Text) : Option ℕ := parseUnsigned 65535 s

/-- An address in brackets, and what follows them and a colon. -/
def bracketed (s : Text) : Option (Text × Text) :=
  match s with
  | '[' :: inner => cut "]:".toList inner
  | _ => none

def splitBindPort (s : Text) : Option (Text × ℕ) :=
  match (bracketed s).or ((cutLast (· == ':') s).or (cutLast (· == '/') s)) with
  | some (bind, port) => (parsePort port).map (fun p => (bind, p))
  | none => (parsePort s).map (fun p => ([], p))

def splitHostPort (s : Text) : Option (Text × ℕ) :=
  match bracketed s with
  | some (host, port) => (parsePort port).map (fun p => (host, p))
  | none =>
    (cutLast (fun c => c == ':' || c == '/') s).bind (fun (host, port) =>
      if host = [] then none else (parsePort port).map (fun p => (host, p)))

/-- Read `[bind:]port [host:hostport]`; unix-socket forwards are skipped. -/
def forward (kind : PfKind) (name : Text) (args : List Text) : Option ImportedPfRule := do
  let (bind, localPort) ← splitBindPort (← args[0]?)
  let (remoteHost, remotePort) ←
    if kind = .dynamic then some ([], 0) else (args[1]?).bind splitHostPort
  return ⟨name, kind, bind, localPort, remoteHost, remotePort⟩

/-- A positive number of 32 bits. -/
def positive (v : Option Text) : Option ℕ :=
  (v.bind (parseUnsigned 4294967295)).filter (fun n => decide (0 < n))

section
variable (lower : Text → Text) (env : Text → Option Text)

/-- The variables a host sets, and those it sends from the environment. -/
def envVariables (eff : Effective) : List (Text × Text) :=
  let set := (eff.all "setenv".toList).flatten.filterMap (cut ['='])
  (eff.all "sendenv".toList).flatten.foldl (fun vars name =>
    if name.head? = some '-' ∨ name.any (fun c => c == '*' || c == '?') = true then vars
    else
      match env name with
      | some v => if vars.any (fun kv => kv.1 == name) then vars else vars ++ [(name, v)]
      | none => vars) set

/-- The host of an alias. -/
def hostOf (name : Text) (eff : Effective) : ImportedHost where
  label := name
  address := ((eff.get "hostname".toList).map (fun h => replaceAll h "%h".toList name)).getD name
  port := (eff.get "port".toList).bind parsePort
  username := (eff.get "user".toList).getD []
  keyPath := (((eff.all "identityfile".toList).filterMap List.head?).find?
    (fun p => !eqIgnoreCase p "none".toList)).map (fun p =>
      replaceAll (replaceAll p "%d".toList ['~']) "%h".toList name)
  jumpHosts :=
    match eff.get "proxyjump".toList with
    | some jump =>
      if eqIgnoreCase jump "none".toList then []
      else ((splitBy [','] jump).map (trimBy isWhitespace)).filter (fun s => decide (s ≠ []))
    | none => []
  agentForwarding := yes (eff.get "forwardagent".toList)
  forwardX11 := yes (eff.get "forwardx11".toList) || yes (eff.get "forwardx11trusted".toList)
  envVariables := envVariables env eff
  keepAliveInterval := positive (eff.get "serveraliveinterval".toList)
  timeout := positive (eff.get "connecttimeout".toList)
  warnings :=
    if (eff.get "proxycommand".toList).isSome then ["ProxyCommand ignored".toList] else []

/-- The tunnels of an alias. -/
def pfRulesOf (name : Text) (eff : Effective) : List ImportedPfRule :=
  (eff.all "localforward".toList).filterMap (forward .local_ name)
    ++ (eff.all "remoteforward".toList).filterMap (forward .remote name)
    ++ (eff.all "dynamicforward".toList).filterMap (forward .dynamic name)

/-- The aliases that become hosts: those of `Host` lines that are no patterns, each once up to
case. -/
def aliasesFrom : List Text → List Text → List Text
  | _, [] => []
  | seen, name :: rest =>
    if isPattern name = true ∨ lower name ∈ seen then aliasesFrom seen rest
    else name :: aliasesFrom (lower name :: seen) rest

def aliases (parsed : Parsed) : List Text :=
  aliasesFrom lower [] (parsed.blocks.filterMap Block.patterns).flatten

structure Preview where
  hosts : List ImportedHost
  pfRules : List ImportedPfRule
deriving DecidableEq

/-- The hosts and tunnels of a configuration. -/
def build (parsed : Parsed) : Preview where
  hosts := (aliases lower parsed).map (fun a => hostOf env a (.compute parsed a))
  pfRules := (aliases lower parsed).flatMap (fun a => pfRulesOf a (.compute parsed a))

end

/-! ### What a directive stands under -/

/-- What a configuration is made of; an `Include` stands for the files it expands to. -/
inductive Item
  | host (patterns : List Text)
  | matchBlock
  | directive (d : Directive)
  | file (items : List Item)

section
variable (files : Files)

/-- The items of a directive; `read` reads those of an included file, when the limit allows one
more. -/
def itemsOf (read : Option (Text → List Item)) (d : Directive) : List Item :=
  if d.key = "host".toList then [.host d.args]
  else if d.key = "match".toList then [.matchBlock]
  else if d.key = "include".toList then
    match read with
    | none => []
    | some read =>
      d.args.flatMap (fun pat => (files pat).flatMap (fun f =>
        f.elim [] (fun t => [.file (read t)])))
  else [.directive d]

def itemsOfLines (read : Option (Text → List Item)) (text : Text) : List Item :=
  (linesOf text).flatMap (fun raw => (tokenize raw).elim [] (itemsOf files read))

/-- The items of a text, in which files can be included down to a depth. -/
def items : ℕ → Text → List Item
  | 0 => itemsOfLines files none
  | left + 1 => itemsOfLines files (some (items left))

end

/-- What a directive stands under. -/
inductive Scope
  | global
  | host (patterns : List Text)
  | matchBlock
deriving DecidableEq

/-- Whether directives that stand under this apply to an alias. -/
def Scope.admits (name : Text) : Scope → Bool
  | .global => true
  | .host patterns => patternsMatch patterns name
  | .matchBlock => false

/-- A directive, with what it stands under and the number of that block in the text. -/
structure Placed where
  block : ℕ
  scope : Scope
  directive : Directive
deriving DecidableEq

mutual

/-- What the directives of an item stand under: the last `Host` or `Match` line before it. When a
file ends, that is what it was where the file was included. -/
def Item.standing (cur : ℕ × Scope) (n : ℕ) : Item → List Placed × (ℕ × Scope) × ℕ
  | .host patterns => ([], (n, .host patterns), n + 1)
  | .matchBlock => ([], (n, .matchBlock), n + 1)
  | .directive d => ([⟨cur.1, cur.2, d⟩], cur, n)
  | .file is => ((standingAll cur n is).1, cur, (standingAll cur n is).2)

def standingAll (cur : ℕ × Scope) (n : ℕ) : List Item → List Placed × ℕ
  | [] => ([], n)
  | i :: is =>
    let r := i.standing cur n
    let rest := standingAll r.2.1 r.2.2 is
    (r.1 ++ rest.1, rest.2)

end

/-- The directives of a configuration and what they stand under, in the order of the text. -/
def standing (is : List Item) : List Placed := (standingAll (0, .global) 1 is).1

mutual

/-- The pattern lists of the `Host` lines of an item. -/
def Item.hostLines : Item → List (List Text)
  | .host patterns => [patterns]
  | .matchBlock | .directive _ => []
  | .file is => hostLines is

def hostLines : List Item → List (List Text)
  | [] => []
  | i :: is => i.hostLines ++ hostLines is

end

/-- What a block is for. -/
def Block.scope (b : Block) : Scope :=
  match b.patterns with
  | none => .matchBlock
  | some [] => .global
  | some p => .host p

/-- The directives of blocks, numbered from `k` on. -/
def placedFrom : ℕ → List Block → List Placed
  | _, [] => []
  | k, b :: bs => b.directives.map (fun d => ⟨k, b.scope, d⟩) ++ placedFrom (k + 1) bs

/-- The value of a keyword for an alias: the first among the directives that are global or stand
under a `Host` line that matches. -/
def firstValue (placed : List Placed) (name key : Text) : Option Text :=
  (placed.find? (fun p => p.scope.admits name && p.directive.key == key)).bind
    (fun p => p.directive.args.head?)

/-- The importer follows the text: the directives are in the blocks they stand under, every alias
has the first value of each keyword that has one value, and each concrete alias yields one host. -/
structure Follows (lower : Text → Text) (env : Text → Option Text) (files : Files) (text : Text) :
    Prop where
  belongs : placedFrom 0 (parse files text).blocks = standing (items files MAX_INCLUDE_DEPTH text)
  values : ∀ name key, key ∉ MULTI_VALUED → (Effective.compute (parse files text) name).get key
    = firstValue (standing (items files MAX_INCLUDE_DEPTH text)) name key
  hosts : ∀ patterns ∈ hostLines (items files MAX_INCLUDE_DEPTH text), ∀ name ∈ patterns,
    isPattern name = false → ((build lower env (parse files text)).hosts.filter (fun h =>
      decide (lower h.label = lower name))).length = 1

/-! ### What strays -/

mutual

/-- Whether a `Host` or `Match` line stands in an item. -/
def Item.opens : Item → Bool
  | .host _ | .matchBlock => true
  | .directive _ => false
  | .file is => opensAny is

def opensAny : List Item → Bool
  | [] => false
  | i :: is => i.opens || opensAny is

end

/-- Whether what comes after an item strays: a file in it opened a block, and no `Host` or `Match`
line came since. -/
def Item.strays (stray : Bool) : Item → Bool
  | .host _ | .matchBlock => false
  | .directive _ => stray
  | .file is => stray || opensAny is

mutual

/-- Whether no directive strays. -/
def Item.settled (stray : Bool) : Item → Bool
  | .host _ | .matchBlock => true
  | .directive _ => !stray
  | .file is => settledAll stray is

def settledAll (stray : Bool) : List Item → Bool
  | [] => true
  | i :: is => i.settled stray && settledAll (i.strays stray) is

end

/-! ### Where the importer puts directives -/

mutual

/-- The blocks after an item is read. -/
def Item.place (blocks : List Block) : Item → List Block
  | .host patterns => blocks ++ [⟨some patterns, []⟩]
  | .matchBlock => blocks ++ [⟨none, []⟩]
  | .directive d => pushDirective blocks d
  | .file is => placeAll blocks is

def placeAll (blocks : List Block) : List Item → List Block
  | [] => blocks
  | i :: is => placeAll (i.place blocks) is

end

theorem placeAll_append (blocks : List Block) (is js : List Item) :
  placeAll blocks (is ++ js) = placeAll (placeAll blocks is) js
  := by
  induction is generalizing blocks with
  | nil => rfl
  | cons i is ih => exact ih _

section
variable {files : Files}

theorem blocks_includePattern {read : Text → Parsed → Parsed} {itemsIn : Text → List Item}
    (hread : ∀ t out, (read t out).blocks = placeAll out.blocks (itemsIn t)) (out : Parsed)
    (pat : Text) :
  (includePattern files read out pat).blocks = placeAll out.blocks
    ((files pat).flatMap (fun f => f.elim [] (fun t => [.file (itemsIn t)])))
  := by
  have hfiles : ∀ (fs : List (Option Text)) (out : Parsed),
      (fs.foldl (fun out f => f.elim out (fun t => read t out)) out).blocks
        = placeAll out.blocks (fs.flatMap (fun f => f.elim [] (fun t => [.file (itemsIn t)]))) := by
    intro fs
    induction fs with
    | nil => exact fun _ => rfl
    | cons f fs ih =>
        intro out
        rw [List.foldl_cons, List.flatMap_cons, placeAll_append, ih]
        cases f with
        | none => rfl
        | some t =>
            rw [Option.elim_some, Option.elim_some, hread]
            rfl
  rw [includePattern, hfiles]
  split
  · rfl
  · rfl

theorem blocks_readDirective {read : Option (Text → Parsed → Parsed)}
    {itemsIn : Option (Text → List Item)}
    (hread : ∀ r ∈ read, ∃ i, itemsIn = some i
      ∧ ∀ t out, (r t out).blocks = placeAll out.blocks (i t))
    (hnone : read = none → itemsIn = none) (out : Parsed) (d : Directive) :
  (readDirective files read out d).blocks = placeAll out.blocks (itemsOf files itemsIn d)
  := by
  unfold readDirective itemsOf
  split
  · rfl
  split
  · rfl
  split
  · cases read with
    | none =>
        rw [hnone rfl]
        rfl
    | some r =>
        obtain ⟨i, rfl, hr⟩ := hread r rfl
        dsimp only
        have hargs : ∀ (args : List Text) (out : Parsed),
            (args.foldl (includePattern files r) out).blocks = placeAll out.blocks
              (args.flatMap (fun pat => (files pat).flatMap (fun f =>
                f.elim [] (fun t => [.file (i t)])))) := by
          intro args
          induction args with
          | nil => exact fun _ => rfl
          | cons pat args ih =>
              intro out
              rw [List.foldl_cons, List.flatMap_cons, placeAll_append, ih,
                blocks_includePattern hr]
        exact hargs d.args _
  · rfl

theorem blocks_readLines {read : Option (Text → Parsed → Parsed)}
    {itemsIn : Option (Text → List Item)}
    (hread : ∀ r ∈ read, ∃ i, itemsIn = some i
      ∧ ∀ t out, (r t out).blocks = placeAll out.blocks (i t))
    (hnone : read = none → itemsIn = none) (text : Text) (out : Parsed) :
  (readLines files read text out).blocks
    = placeAll out.blocks (itemsOfLines files itemsIn text)
  := by
  rw [readLines, itemsOfLines]
  induction linesOf text generalizing out with
  | nil => rfl
  | cons raw ls ih =>
      rw [List.foldl_cons, List.flatMap_cons, placeAll_append, ih]
      cases tokenize raw with
      | none => rfl
      | some d =>
          rw [Option.elim_some, Option.elim_some, blocks_readDirective hread hnone]

/-- Reading a text places its items, one after the other. -/
theorem blocks_read (left : ℕ) (text : Text) (out : Parsed) :
  (read files left text out).blocks = placeAll out.blocks (items files left text)
  := by
  induction left generalizing text out with
  | zero =>
      apply blocks_readLines
      · rintro _ ⟨⟩
      · exact fun _ => rfl
  | succ left ih =>
      apply blocks_readLines
      · rintro _ ⟨⟩
        exact ⟨_, rfl, ih⟩
      · intro h
        cases h

end

mutual

/-- Where the importer puts the directives of an item: into the last block opened. -/
def Item.landing (cur : ℕ × Scope) (n : ℕ) : Item → List Placed × (ℕ × Scope) × ℕ
  | .host patterns => ([], (n, Block.scope ⟨some patterns, []⟩), n + 1)
  | .matchBlock => ([], (n, .matchBlock), n + 1)
  | .directive d => ([⟨cur.1, cur.2, d⟩], cur, n)
  | .file is => landingAll cur n is

def landingAll (cur : ℕ × Scope) (n : ℕ) : List Item → List Placed × (ℕ × Scope) × ℕ
  | [] => ([], cur, n)
  | i :: is =>
    let r := i.landing cur n
    let rest := landingAll r.2.1 r.2.2 is
    (r.1 ++ rest.1, rest.2)

end

theorem placedFrom_append (k : ℕ) (bs bs' : List Block) :
  placedFrom k (bs ++ bs') = placedFrom k bs ++ placedFrom (k + bs.length) bs'
  := by
  induction bs generalizing k with
  | nil => rfl
  | cons b bs ih =>
      rw [List.cons_append, placedFrom, placedFrom, ih, List.append_assoc, List.length_cons,
        Nat.add_assoc, Nat.add_comm 1]

/-- The blocks opened so far end with a block of a scope. -/
def EndsIn (blocks : List Block) (cur : ℕ × Scope) (n : ℕ) : Prop :=
  ∃ bs b, blocks = bs ++ [b] ∧ cur = (bs.length, b.scope) ∧ n = blocks.length

/-- A block that is opened is the last one, and has no directives. -/
theorem endsIn_append (blocks : List Block) (b : Block) :
  EndsIn (blocks ++ [b]) (blocks.length, b.scope) (blocks.length + 1)
  := ⟨blocks, b, rfl, rfl, by simp⟩

mutual

/-- The blocks after an item hold its directives where they land. -/
theorem placed_place {blocks : List Block} {cur : ℕ × Scope} {n : ℕ} (h : EndsIn blocks cur n) :
  ∀ i : Item, placedFrom 0 (i.place blocks) = placedFrom 0 blocks ++ (i.landing cur n).1
    ∧ EndsIn (i.place blocks) (i.landing cur n).2.1 (i.landing cur n).2.2
  | .host patterns => by
    obtain ⟨bs, b, hblocks, rfl, rfl⟩ := h
    constructor
    · rw [Item.place, placedFrom_append]
      rfl
    · exact endsIn_append blocks _
  | .matchBlock => by
    obtain ⟨bs, b, hblocks, rfl, rfl⟩ := h
    constructor
    · rw [Item.place, placedFrom_append]
      rfl
    · exact endsIn_append blocks _
  | .directive d => by
    obtain ⟨bs, b, rfl, rfl, rfl⟩ := h
    have hpush : pushDirective (bs ++ [b]) d
        = bs ++ [{ b with directives := b.directives ++ [d] }] := by
      rw [pushDirective, List.getLast?_concat, List.dropLast_concat]
    constructor
    · rw [Item.place, hpush, placedFrom_append, placedFrom_append, List.append_assoc]
      congr 1
      simp [placedFrom, Block.scope, Item.landing]
    · rw [Item.place, hpush]
      exact ⟨bs, _, rfl, rfl, by simp [Item.landing]⟩
  | .file is => placed_placeAll h is

theorem placed_placeAll {blocks : List Block} {cur : ℕ × Scope} {n : ℕ} (h : EndsIn blocks cur n) :
  ∀ is : List Item,
    placedFrom 0 (placeAll blocks is) = placedFrom 0 blocks ++ (landingAll cur n is).1
      ∧ EndsIn (placeAll blocks is) (landingAll cur n is).2.1 (landingAll cur n is).2.2
  | [] => ⟨(List.append_nil _).symm, h⟩
  | i :: is => by
    obtain ⟨hplaced, hends⟩ := placed_place h i
    obtain ⟨hrest, hend⟩ := placed_placeAll hends is
    constructor
    · rw [placeAll, hrest, hplaced, List.append_assoc]
      rfl
    · exact hend

end

/-- The importer puts the directives of a text where its items land. -/
theorem placed_parse (files : Files) (text : Text) :
  placedFrom 0 (parse files text).blocks
    = (landingAll (0, .global) 1 (items files MAX_INCLUDE_DEPTH text)).1
  := by
  rw [parse, blocks_read]
  have hstart : EndsIn [⟨some [], []⟩] (0, .global) 1 := ⟨[], _, rfl, rfl, rfl⟩
  rw [(placed_placeAll hstart _).1]
  rfl

/-! ### When the importer follows the text -/

/-- Where a directive lands, against what it stands under: in the same block, unless it strays. -/
structure Against (stray : Bool) (cur cur' : ℕ × Scope) (n : ℕ) : Prop where
  opened : cur.1 < n
  same : stray = false → cur'.1 = cur.1
    ∧ cur'.2 = if cur.2 = .host [] then .global else cur.2
  other : stray = true → cur'.1 ≠ cur.1

theorem scope_host (patterns : List Text) :
  Block.scope ⟨some patterns, []⟩
    = if Scope.host patterns = .host [] then .global else .host patterns
  := by
  cases patterns with
  | nil => rfl
  | cons p ps => simp [Block.scope]

/-- A new block is the same for both. -/
theorem against_new (n : ℕ) {scope scope' : Scope}
    (h : scope' = if scope = .host [] then .global else scope) :
  Against false (n, scope) (n, scope') (n + 1)
  := by
  constructor
  · exact Nat.lt_succ_self n
  · exact fun _ => ⟨rfl, h⟩
  · intro hstray
    cases hstray

mutual

/-- Items open the same blocks for both, and hold the same directives. -/
theorem landing_count (cur cur' : ℕ × Scope) (n : ℕ) :
  ∀ i : Item, (i.landing cur' n).2.2 = (i.standing cur n).2.2
    ∧ (i.landing cur' n).1.length = (i.standing cur n).1.length
  | .host _ | .matchBlock | .directive _ => ⟨rfl, rfl⟩
  | .file is => landingAll_count cur cur' n is

theorem landingAll_count (cur cur' : ℕ × Scope) (n : ℕ) :
  ∀ is : List Item, (landingAll cur' n is).2.2 = (standingAll cur n is).2
    ∧ (landingAll cur' n is).1.length = (standingAll cur n is).1.length
  | [] => ⟨rfl, rfl⟩
  | i :: is => by
    obtain ⟨hn, hlength⟩ := landing_count cur cur' n i
    have hrest := landingAll_count (i.standing cur n).2.1 (i.landing cur' n).2.1
      (i.standing cur n).2.2 is
    rw [landingAll, standingAll]
    dsimp only
    rw [hn]
    constructor
    · exact hrest.1
    · rw [List.length_append, List.length_append, hlength, hrest.2]

end

mutual

/-- An item after which directives land in a block it opened, or in the one before it. -/
theorem landing_cur (cur : ℕ × Scope) (n : ℕ) :
  ∀ i : Item, n ≤ (i.landing cur n).2.2
    ∧ (i.landing cur n).2.1 = cur ∧ i.opens = false
      ∨ n ≤ (i.landing cur n).2.1.1 ∧ (i.landing cur n).2.1.1 < (i.landing cur n).2.2
        ∧ i.opens = true
  | .host _ | .matchBlock => .inr ⟨le_rfl, Nat.lt_succ_self n, rfl⟩
  | .directive _ => .inl ⟨le_rfl, rfl, rfl⟩
  | .file is => landingAll_cur cur n is

theorem landingAll_cur (cur : ℕ × Scope) (n : ℕ) :
  ∀ is : List Item, n ≤ (landingAll cur n is).2.2
    ∧ (landingAll cur n is).2.1 = cur ∧ opensAny is = false
      ∨ n ≤ (landingAll cur n is).2.1.1 ∧ (landingAll cur n is).2.1.1 < (landingAll cur n is).2.2
        ∧ opensAny is = true
  | [] => .inl ⟨le_rfl, rfl, rfl⟩
  | i :: is => by
    rw [landingAll, opensAny]
    dsimp only
    rcases landing_cur cur n i with ⟨hn, hcur, hopens⟩ | ⟨hlow, hhigh, hopens⟩
    · rw [hcur, hopens, Bool.false_or]
      rcases landingAll_cur cur (i.landing cur n).2.2 is with ⟨hn', hcur', hopens'⟩ | h
      · exact .inl ⟨hn.trans hn', hcur', hopens'⟩
      · exact .inr ⟨hn.trans h.1, h.2⟩
    · rw [hopens, Bool.true_or]
      rcases landingAll_cur (i.landing cur n).2.1 (i.landing cur n).2.2 is with
        ⟨hn', hcur', -⟩ | ⟨hlow', hhigh', -⟩
      · rw [hcur']
        exact .inr ⟨hlow, hhigh.trans_le hn', rfl⟩
      · exact .inr ⟨(hlow.trans hhigh.le).trans hlow', hhigh', rfl⟩

end

/-- Past an item, directives land in what they stand under unless they stray from there on. -/
theorem Against.after {stray : Bool} {cur cur' : ℕ × Scope} {n : ℕ}
    (h : Against stray cur cur' n) (i : Item) :
  Against (i.strays stray) (i.standing cur n).2.1 (i.landing cur' n).2.1 (i.standing cur n).2.2
  := by
  cases i with
  | host patterns => exact against_new n (scope_host patterns)
  | matchBlock => exact against_new n rfl
  | directive d => exact h
  | file is =>
      have hn : (standingAll cur n is).2 = (landingAll cur' n is).2.2 :=
        (landingAll_count cur cur' n is).1.symm
      rw [Item.standing, Item.landing, Item.strays]
      dsimp only
      rw [hn]
      rcases landingAll_cur cur' n is with ⟨hle, hcur, hopens⟩ | ⟨hlow, hhigh, hopens⟩
      · rw [hcur, hopens, Bool.or_false]
        exact ⟨h.opened.trans_le hle, h.same, h.other⟩
      · rw [hopens, Bool.or_true]
        constructor
        · exact (h.opened.trans_le hlow).trans hhigh
        · intro hstray
          cases hstray
        · exact fun _ => (h.opened.trans_le hlow).ne'

mutual

/-- Directives land in what they stand under when none strays or stands under a `Host` line without
patterns. -/
theorem landing_eq_iff {stray : Bool} {cur cur' : ℕ × Scope} {n : ℕ}
    (h : Against stray cur cur' n) :
  ∀ i : Item, (i.landing cur' n).1 = (i.standing cur n).1
    ↔ i.settled stray = true ∧ ∀ p ∈ (i.standing cur n).1, p.scope ≠ .host []
  | .host _ | .matchBlock => by simp [Item.landing, Item.standing, Item.settled]
  | .directive d => by
    rw [Item.landing, Item.standing, Item.settled]
    simp only [List.cons.injEq, Placed.mk.injEq, and_true, List.mem_singleton, forall_eq]
    cases stray with
    | true => simp [h.other rfl]
    | false =>
        obtain ⟨hblock, hscope⟩ := h.same rfl
        rw [hblock, hscope]
        by_cases hbare : cur.2 = .host []
        · simp [hbare]
        · simp [hbare]
  | .file is => landingAll_eq_iff h is

theorem landingAll_eq_iff {stray : Bool} {cur cur' : ℕ × Scope} {n : ℕ}
    (h : Against stray cur cur' n) :
  ∀ is : List Item, (landingAll cur' n is).1 = (standingAll cur n is).1
    ↔ settledAll stray is = true ∧ ∀ p ∈ (standingAll cur n is).1, p.scope ≠ .host []
  | [] => by simp [landingAll, standingAll, settledAll]
  | i :: is => by
    obtain ⟨hn, hlength⟩ := landing_count cur cur' n i
    have hfirst := landing_eq_iff h i
    have hrest := landingAll_eq_iff (h.after i) is
    rw [landingAll, standingAll, settledAll, Bool.and_eq_true]
    dsimp only
    rw [hn]
    have hsplit : (i.landing cur' n).1 ++ (landingAll (i.landing cur' n).2.1
          (i.standing cur n).2.2 is).1
        = (i.standing cur n).1 ++ (standingAll (i.standing cur n).2.1 (i.standing cur n).2.2 is).1
        ↔ (i.landing cur' n).1 = (i.standing cur n).1 ∧ (landingAll (i.landing cur' n).2.1
          (i.standing cur n).2.2 is).1
          = (standingAll (i.standing cur n).2.1 (i.standing cur n).2.2 is).1 := by
      constructor
      · exact fun heq => List.append_inj heq hlength
      · rintro ⟨h₁, h₂⟩
        rw [h₁, h₂]
    rw [hsplit, hfirst, hrest]
    simp only [List.forall_mem_append]
    exact and_and_and_comm

end

/-! ### The first value of a keyword -/

theorem find?_foldl_add {key : Text} (hkey : key ∉ MULTI_VALUED) (ds : List Directive)
    (eff : Effective) :
  (ds.foldl Effective.add eff).single.find? (fun e => e.1 == key)
    = (eff.single.find? (fun e => e.1 == key)).or
      ((ds.find? (fun d => d.key == key)).map (fun d => (d.key, d.args)))
  := by
  induction ds generalizing eff with
  | nil => simp
  | cons d ds ih =>
      rw [List.foldl_cons, ih, List.find?_cons]
      cases hd : d.key == key with
      | false =>
          -- a directive of another keyword changes nothing
          have hsame : (eff.add d).single.find? (fun e => e.1 == key)
              = eff.single.find? (fun e => e.1 == key) := by
            rw [Effective.add]
            split
            · rfl
            split
            · rfl
            · simp [List.find?_append, hd]
          rw [hsame]
      | true =>
          obtain rfl := beq_iff_eq.mp hd
          rw [Effective.add, if_neg hkey]
          split
          · rename_i hany
            obtain ⟨e, he, hek⟩ := List.any_eq_true.mp hany
            have hsome : (eff.single.find? (fun e => e.1 == d.key)).isSome = true :=
              List.find?_isSome.mpr ⟨e, he, hek⟩
            obtain ⟨e', he'⟩ := Option.isSome_iff_exists.mp hsome
            rw [he', Option.some_or, Option.some_or]
          · rename_i hany
            have hnone : eff.single.find? (fun e => e.1 == d.key) = none := by
              rw [List.find?_eq_none]
              exact fun e he hek => hany (List.any_eq_true.mpr ⟨e, he, hek⟩)
            simp [List.find?_append, hnone]

theorem scope_admits (name : Text) (b : Block) :
  b.scope.admits name = b.applies name
  := by
  obtain ⟨patterns, ds⟩ := b
  cases patterns with
  | none => rfl
  | some ps =>
      cases ps with
      | nil => rfl
      | cons p ps => rfl

/-- The first directive of a keyword among the blocks that apply, by what they are for. -/
theorem find?_placedFrom (name key : Text) (k : ℕ) (bs : List Block) :
  ((bs.filter (Block.applies name)).flatMap Block.directives).find? (fun d => d.key == key)
    = ((placedFrom k bs).find? (fun p => p.scope.admits name && p.directive.key == key)).map
      Placed.directive
  := by
  induction bs generalizing k with
  | nil => rfl
  | cons b bs ih =>
      rw [placedFrom, List.find?_append, List.find?_map, List.filter_cons]
      have hhead : (fun p : Placed => p.scope.admits name && p.directive.key == key)
          ∘ (fun d => ⟨k, b.scope, d⟩) = fun d => b.applies name && d.key == key := by
        funext d
        rw [Function.comp_apply, scope_admits]
      rw [hhead]
      cases happlies : b.applies name with
      | true =>
          rw [if_pos rfl, List.flatMap_cons, List.find?_append, ih (k + 1)]
          simp only [Bool.true_and]
          cases b.directives.find? (fun d => d.key == key) with
          | none => simp
          | some d => simp
      | false =>
          have hnone : b.directives.find? (fun d => false && d.key == key) = none := by
            rw [List.find?_eq_none]
            simp
          rw [if_neg Bool.false_ne_true, ih (k + 1), hnone, Option.map_none, Option.none_or]

/-- The value of a keyword is the first one in the blocks that apply. -/
theorem get_compute (parsed : Parsed) (name : Text) {key : Text} (hkey : key ∉ MULTI_VALUED) :
  (Effective.compute parsed name).get key = firstValue (placedFrom 0 parsed.blocks) name key
  := by
  rw [Effective.get, Effective.compute, find?_foldl_add hkey, firstValue,
    find?_placedFrom name key 0]
  cases (placedFrom 0 parsed.blocks).find?
    (fun p => p.scope.admits name && p.directive.key == key) with
  | none => rfl
  | some p => rfl

/-! ### One host for each alias -/

theorem filterMap_pushDirective (blocks : List Block) (d : Directive) :
  (pushDirective blocks d).filterMap Block.patterns = blocks.filterMap Block.patterns
  := by
  rw [pushDirective]
  cases hlast : blocks.getLast? with
  | none => rfl
  | some b =>
      obtain ⟨bs, rfl⟩ := List.getLast?_eq_some_iff.mp hlast
      dsimp only
      rw [List.dropLast_concat, List.filterMap_append, List.filterMap_append]
      rfl

mutual

theorem patterns_place (blocks : List Block) :
  ∀ i : Item, (i.place blocks).filterMap Block.patterns
    = blocks.filterMap Block.patterns ++ i.hostLines
  | .host patterns => by simp [Item.place, Item.hostLines]
  | .matchBlock => by simp [Item.place, Item.hostLines]
  | .directive d => by simp [Item.place, Item.hostLines, filterMap_pushDirective]
  | .file is => patterns_placeAll blocks is

theorem patterns_placeAll (blocks : List Block) :
  ∀ is : List Item, (placeAll blocks is).filterMap Block.patterns
    = blocks.filterMap Block.patterns ++ hostLines is
  | [] => (List.append_nil _).symm
  | i :: is => by
    rw [placeAll, patterns_placeAll (i.place blocks) is, patterns_place blocks i, hostLines,
      List.append_assoc]

end

/-- An alias that was seen comes no more. -/
theorem filter_aliasesFrom_of_mem {lower : Text → Text} {name : Text} {seen : List Text}
    (hseen : lower name ∈ seen) (names : List Text) :
  (aliasesFrom lower seen names).filter (fun a => decide (lower a = lower name)) = []
  := by
  induction names generalizing seen with
  | nil => rfl
  | cons a names ih =>
      rw [aliasesFrom]
      split
      · exact ih hseen
      · rename_i hnew
        have hne : ¬ lower a = lower name := fun h => hnew (.inr (h ▸ hseen))
        rw [List.filter_cons_of_neg (by simpa using hne)]
        exact ih (List.mem_cons_of_mem _ hseen)

/-- A concrete alias that was not seen comes once. -/
theorem length_filter_aliasesFrom {lower : Text → Text} {name : Text} {seen names : List Text}
    (hseen : lower name ∉ seen) (hname : isPattern name = false) (hmem : name ∈ names) :
  ((aliasesFrom lower seen names).filter (fun a => decide (lower a = lower name))).length = 1
  := by
  induction names generalizing seen with
  | nil => cases hmem
  | cons a names ih =>
      rw [aliasesFrom]
      split
      · rename_i hskip
        apply ih hseen
        rcases List.mem_cons.mp hmem with rfl | hmem
        · rcases hskip with hpattern | hin
          · rw [hname] at hpattern
            cases hpattern
          · exact absurd hin hseen
        · exact hmem
      · by_cases hsame : lower a = lower name
        · rw [List.filter_cons_of_pos (by simpa using hsame),
            filter_aliasesFrom_of_mem (hsame ▸ List.mem_cons_self)]
          rfl
        · rw [List.filter_cons_of_neg (by simpa using hsame)]
          apply ih
          · exact fun h => (List.mem_cons.mp h).elim (fun h => hsame h.symm) hseen
          · rcases List.mem_cons.mp hmem with rfl | hmem
            · exact absurd rfl hsame
            · exact hmem

theorem length_hosts_build {lower : Text → Text} {env : Text → Option Text} {files : Files}
    {text name : Text} {patterns : List Text}
    (hpatterns : patterns ∈ hostLines (items files MAX_INCLUDE_DEPTH text)) (hmem : name ∈ patterns)
    (hname : isPattern name = false) :
  ((build lower env (parse files text)).hosts.filter (fun h =>
    decide (lower h.label = lower name))).length = 1
  := by
  have hlines : (parse files text).blocks.filterMap Block.patterns
      = [] :: hostLines (items files MAX_INCLUDE_DEPTH text) := by
    rw [parse, blocks_read, patterns_placeAll]
    rfl
  rw [build, aliases, hlines, List.filter_map, List.length_map]
  apply length_filter_aliasesFrom (List.not_mem_nil) hname
  rw [List.mem_flatten]
  exact ⟨patterns, List.mem_cons_of_mem _ hpatterns, hmem⟩

/-- The importer follows a text exactly when no directive of a file comes after files it included
that open a block, before the next `Host` or `Match` line of the file, and none stands under a
`Host` line without patterns. -/
theorem follows_iff (lower : Text → Text) (env : Text → Option Text) (files : Files)
    (text : Text) :
  Follows lower env files text
    ↔ settledAll false (items files MAX_INCLUDE_DEPTH text) = true
      ∧ ∀ p ∈ standing (items files MAX_INCLUDE_DEPTH text), p.scope ≠ .host []
  := by
  have hstart : Against false (0, .global) (0, .global) 1 := against_new 0 rfl
  have hiff := landingAll_eq_iff hstart (items files MAX_INCLUDE_DEPTH text)
  rw [← placed_parse] at hiff
  rw [standing, ← hiff]
  constructor
  · exact Follows.belongs
  · intro hbelongs
    refine ⟨hbelongs, ?_, fun _ hpatterns _ hmem hname => length_hosts_build hpatterns hmem hname⟩
    intro name key hkey
    rw [get_compute _ _ hkey, hbelongs]
    rfl

/-! ### An included file that opens a block -/

/-- One file, which opens a block for one host. -/
def oneFile : Files := fun _ => [some "Host db".toList]

/-- A user name that is set after a file is included applies to no other host than that of the
file. -/
theorem not_follows :
  ¬ ∀ (lower : Text → Text) (env : Text → Option Text) (files : Files) (text : Text),
    Follows lower env files text
  := by
  intro h
  have hvalue := (h id (fun _ => none) oneFile "Host web\nInclude db\nUser ada".toList).values
    "web".toList "user".toList (by decide)
  revert hvalue
  decide +kernel

end Termoso.Core.SshImport
