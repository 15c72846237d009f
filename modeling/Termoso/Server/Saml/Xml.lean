import Mathlib.Data.List.Infix
import Mathlib.Data.List.Nodup

/-!
# XML documents

The tree that the XML parser makes of a document, as the SAML service provider reads it: elements
with their resolved names, text, comments and processing instructions.  Adjacent character data,
CDATA sections and resolved references stand in the text; comments are nodes of their own.

A document carries what its parser checked: names hold none of the characters that end a name,
prefixes are resolved by the namespaces in scope, no attribute stands twice, and comments and
instructions do not hold what ends them.
-/

namespace Delimited

variable {γ : Type*}

/-- Whether a text is clear of the two symbols that end it, also where the first of them follows. -/
def Clear (x y : γ) (w : List γ) : Prop := ¬ [x, y] <:+: w ++ [x]

instance [DecidableEq γ] (x y : γ) (w : List γ) : Decidable (Clear x y w) :=
  inferInstanceAs (Decidable (¬ [x, y] <:+: w ++ [x]))

end Delimited

namespace Termoso.Xml

/-- Texts, as their characters. -/
abbrev Text := List Char

/-- The namespace of the prefix `xml`. -/
def NS_XML_URI : Text := "http://www.w3.org/XML/1998/namespace".toList

def NS_XML_PREFIX : Text := "xml".toList

def XMLNS : Text := "xmlns".toList

/-- A namespace in scope at an element: its prefix, none for the default namespace, and its URI. -/
structure Namespace where
  name : Option Text
  uri : Text
deriving DecidableEq

/-- An attribute: its namespace, its local name, the prefix written, and its value. -/
structure Attribute where
  uri : Option Text
  name : Text
  written : Option Text
  value : Text
deriving DecidableEq

/-- What the start of an element says: its namespace, its local name, the prefix written, the
namespaces in scope, and its attributes in the order written. -/
structure Tag where
  uri : Option Text
  name : Text
  written : Option Text
  namespaces : List Namespace
  attributes : List Attribute
deriving DecidableEq

/-- A node of a document.  Elements carry the number that tells them apart. -/
inductive Node
  | element (id : ℕ) (tag : Tag) (children : List Node)
  | text (s : Text)
  | comment (s : Text)
  | pi (target : Text) (value : Option Text)

namespace Node

def isElement : Node → Bool
  | element _ _ _ => true
  | _ => false

/-- The number of an element. -/
def id : Node → Option ℕ
  | element id _ _ => some id
  | _ => none

def children : Node → List Node
  | element _ _ cs => cs
  | _ => []

/-- The namespaces in scope. -/
def namespaces : Node → List Namespace
  | element _ t _ => t.namespaces
  | _ => []

/-- The value of the attribute of that name that is in no namespace. -/
def getAttribute (name : Text) : Node → Option Text
  | element _ t _ =>
    (t.attributes.find? (fun a => a.uri = none ∧ a.name = name)).map Attribute.value
  | _ => none

/-- The text of a text node. -/
def textOf : Node → Option Text
  | text s => some s
  | _ => none

/-- The text of a node; of an element, its first text child. -/
def firstText : Node → Option Text
  | element _ _ cs => cs.findSome? textOf
  | text s => some s
  | comment s => some s
  | pi _ _ => none

/-- All character data that stands directly in an element. -/
def characters (n : Node) : Text := n.children.flatMap (fun c => c.textOf.getD [])

mutual

/-- A node and all nodes below it, in document order. -/
def descendants : Node → List Node
  | element id t cs => element id t cs :: descendantsOf cs
  | text s => [text s]
  | comment s => [comment s]
  | pi target value => [pi target value]

/-- The nodes of a list and all nodes below them. -/
def descendantsOf : List Node → List Node
  | [] => []
  | n :: ns => n.descendants ++ descendantsOf ns

end

end Node

/-! ### What the parser checks -/

/-- Whether a character may stand in a name: not white space, and none of the characters that end
a name. -/
def isNameChar (c : Char) : Bool := !(" =>:!?/".toList.contains c)

/-- Whether a text is a name, without a colon. -/
def IsName (s : Text) : Prop := s ≠ [] ∧ ∀ c ∈ s, isNameChar c = true

instance (s : Text) : Decidable (IsName s) :=
  decidable_of_iff (s ≠ [] ∧ s.all isNameChar = true) (and_congr_right' List.all_eq_true)

/-- The URI that a prefix, or the default namespace, stands for in a list of namespaces. -/
def uriOf (namespaces : List Namespace) (name : Option Text) : Option Text :=
  (namespaces.find? (fun ns => ns.name = name)).map Namespace.uri

/-- What holds of the namespaces in scope at an element: no prefix is declared twice, prefixes are
names that stand for some URI, and the prefix `xml` is kept for its own namespace. -/
structure WellScoped (namespaces : List Namespace) : Prop where
  nodup : (namespaces.map Namespace.name).Nodup
  prefixes : ∀ ns ∈ namespaces, ∀ p ∈ ns.name, IsName p ∧ ns.uri ≠ []
  xml : ∀ ns ∈ namespaces, ns.uri = NS_XML_URI ↔ ns.name = some NS_XML_PREFIX

instance (ns : List Namespace) : Decidable (WellScoped ns) :=
  decidable_of_iff
    ((ns.map Namespace.name).Nodup ∧ (∀ n ∈ ns, ∀ p ∈ n.name, IsName p ∧ n.uri ≠ [])
      ∧ ∀ n ∈ ns, n.uri = NS_XML_URI ↔ n.name = some NS_XML_PREFIX)
    ⟨fun h => ⟨h.1, h.2.1, h.2.2⟩, fun h => ⟨h.nodup, h.prefixes, h.xml⟩⟩

/-- What holds of an attribute: its name, and its prefix if one is written, are names, it declares no
namespace, and it is in a namespace exactly when a prefix is written. -/
structure Attribute.WellFormed (a : Attribute) : Prop where
  name : IsName a.name
  written : ∀ p ∈ a.written, IsName p ∧ p ≠ XMLNS
  unwritten : a.written = none → a.name ≠ XMLNS
  uri : a.written = none ↔ a.uri = none

instance (a : Attribute) : Decidable a.WellFormed :=
  decidable_of_iff
    (IsName a.name ∧ (∀ p ∈ a.written, IsName p ∧ p ≠ XMLNS) ∧ (a.written = none → a.name ≠ XMLNS)
      ∧ (a.written = none ↔ a.uri = none))
    ⟨fun h => ⟨h.1, h.2.1, h.2.2.1, h.2.2.2⟩, fun h => ⟨h.name, h.written, h.unwritten, h.uri⟩⟩

/-- What holds of the start of an element: its name, and its prefix if one is written, are names, its
namespace is the one that its prefix, or the default namespace, stands for, and no attribute stands
twice. -/
structure Tag.WellFormed (t : Tag) : Prop where
  name : IsName t.name
  written : ∀ p ∈ t.written, IsName p
  scope : WellScoped t.namespaces
  xml : t.written = some NS_XML_PREFIX → t.uri = some NS_XML_URI
  bound : ∀ p ∈ t.written, p ≠ NS_XML_PREFIX → t.uri.isSome ∧ t.uri = uriOf t.namespaces (some p)
  unbound : t.written = none → t.uri = (uriOf t.namespaces none).filter (· ≠ [])
  attributes : ∀ a ∈ t.attributes, a.WellFormed
  distinct : (t.attributes.map (fun a => (a.uri, a.name))).Nodup

instance (t : Tag) : Decidable t.WellFormed :=
  decidable_of_iff
    (IsName t.name ∧ (∀ p ∈ t.written, IsName p) ∧ WellScoped t.namespaces
      ∧ (t.written = some NS_XML_PREFIX → t.uri = some NS_XML_URI)
      ∧ (∀ p ∈ t.written, p ≠ NS_XML_PREFIX → t.uri.isSome ∧ t.uri = uriOf t.namespaces (some p))
      ∧ (t.written = none → t.uri = (uriOf t.namespaces none).filter (· ≠ []))
      ∧ (∀ a ∈ t.attributes, a.WellFormed)
      ∧ (t.attributes.map (fun a => (a.uri, a.name))).Nodup)
    ⟨fun h => ⟨h.1, h.2.1, h.2.2.1, h.2.2.2.1, h.2.2.2.2.1, h.2.2.2.2.2.1, h.2.2.2.2.2.2.1,
        h.2.2.2.2.2.2.2⟩,
      fun h => ⟨h.name, h.written, h.scope, h.xml, h.bound, h.unbound, h.attributes, h.distinct⟩⟩

/-- What holds of a node. -/
def Node.WellFormed : Node → Prop
  | .element _ t _ => t.WellFormed
  | .text _ => True
  | .comment s => Delimited.Clear '-' '-' s
  | .pi target value => IsName target ∧ ∀ v ∈ value, Delimited.Clear '?' '>' v

instance (n : Node) : Decidable n.WellFormed :=
  match n with
  | .element _ t _ => inferInstanceAs (Decidable t.WellFormed)
  | .text _ => isTrue trivial
  | .comment s => inferInstanceAs (Decidable (Delimited.Clear '-' '-' s))
  | .pi target value =>
    inferInstanceAs (Decidable (IsName target ∧ ∀ v ∈ value, Delimited.Clear '?' '>' v))

/-- A parsed document: its root element, which is well formed throughout, its elements told apart
by their numbers. -/
structure Document where
  root : Node
  isElement : root.isElement = true
  wellFormed : ∀ n ∈ root.descendants, n.WellFormed
  distinct : (root.descendants.filterMap Node.id).Nodup

/-- The nodes of a document. -/
def Document.descendants (doc : Document) : List Node := doc.root.descendants

/-! ### Names in a document -/

/-- The prefix that stands for a URI, if it is not the default namespace. -/
def Tag.lookupPrefix (t : Tag) (uri : Text) : Option Text :=
  if uri = NS_XML_URI then some NS_XML_PREFIX
  else (t.namespaces.find? (fun ns => ns.uri = uri)).bind Namespace.name

/-- Whether a node is an element of that namespace and name. -/
def is (n : Node) (ns name : Text) : Bool :=
  match n with
  | .element _ t _ => t.uri = some ns && t.name = name
  | _ => false

/-- The first child of that namespace and name. -/
def child (n : Node) (ns name : Text) : Option Node := n.children.find? (fun c => is c ns name)

/-- The children of that namespace and name. -/
def children (n : Node) (ns name : Text) : List Node := n.children.filter (fun c => is c ns name)

end Termoso.Xml
