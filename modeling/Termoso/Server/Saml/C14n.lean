import Termoso.Server.Saml.Xml
import Mathlib.Data.Char
import Mathlib.Data.List.Lex
import Mathlib.Data.List.Sort
import Mathlib.Order.Lattice

/-!
# Canonical XML

Canonical XML 1.0 and exclusive canonical XML 1.0 of an element of a document, as the signatures of
SAML use them: without one excluded element below it, the signature itself, and with or without its
comments.
-/

/-- A map, as the list of its entries in the order of their keys. -/
abbrev OrderedMap (K V : Type*) := List (K × V)

namespace OrderedMap

variable {K V : Type*} [LinearOrder K]

/-- Put a value in for a key. -/
def insert (k : K) (v : V) : OrderedMap K V → OrderedMap K V
  | [] => [(k, v)]
  | e :: m =>
    if k < e.1 then (k, v) :: e :: m
    else if k = e.1 then (k, v) :: m
    else e :: insert k v m

/-- Put entries in, one after the other. -/
def insertAll (entries : List (K × V)) (m : OrderedMap K V) : OrderedMap K V :=
  entries.foldl (fun m e => insert e.1 e.2 m) m

/-- The value of a key. -/
def get (k : K) (m : OrderedMap K V) : Option V := (m.find? (fun e => e.1 = k)).map Prod.snd

end OrderedMap

namespace Termoso.C14n

open Xml

def INCLUSIVE : Text := "http://www.w3.org/TR/2001/REC-xml-c14n-20010315".toList

def INCLUSIVE_WITH_COMMENTS : Text :=
  "http://www.w3.org/TR/2001/REC-xml-c14n-20010315#WithComments".toList

def INCLUSIVE_1_1 : Text := "http://www.w3.org/2006/12/xml-c14n11".toList

def INCLUSIVE_1_1_WITH_COMMENTS : Text := "http://www.w3.org/2006/12/xml-c14n11#WithComments".toList

def EXCLUSIVE : Text := "http://www.w3.org/2001/10/xml-exc-c14n#".toList

def EXCLUSIVE_WITH_COMMENTS : Text := "http://www.w3.org/2001/10/xml-exc-c14n#WithComments".toList

inductive Mode
  | inclusive
  | exclusive
deriving DecidableEq

/-- A method of canonicalization; for the exclusive one, with the prefixes that are treated as the
inclusive one does. -/
structure Method where
  mode : Mode
  withComments : Bool
  inclusivePrefixes : List Text
deriving DecidableEq

/-- The method that an algorithm stands for. -/
def Method.fromAlgorithm (uri : Text) (inclusivePrefixes : List Text) : Option Method :=
  if uri = INCLUSIVE ∨ uri = INCLUSIVE_1_1 then some ⟨.inclusive, false, inclusivePrefixes⟩
  else if uri = INCLUSIVE_WITH_COMMENTS ∨ uri = INCLUSIVE_1_1_WITH_COMMENTS then
    some ⟨.inclusive, true, inclusivePrefixes⟩
  else if uri = EXCLUSIVE then some ⟨.exclusive, false, inclusivePrefixes⟩
  else if uri = EXCLUSIVE_WITH_COMMENTS then some ⟨.exclusive, true, inclusivePrefixes⟩
  else none

/-! ### Names and texts -/

/-- A name with its prefix, if it has one. -/
def pushQname (written name : Text) : Text :=
  if written = [] then name else written ++ ':' :: name

def escapeTextChar (c : Char) : Text :=
  match c with
  | '&' => "&amp;".toList
  | '<' => "&lt;".toList
  | '>' => "&gt;".toList
  | '\r' => "&#xD;".toList
  | c => [c]

def escapeText (s : Text) : Text := s.flatMap escapeTextChar

def escapeAttrChar (c : Char) : Text :=
  match c with
  | '&' => "&amp;".toList
  | '<' => "&lt;".toList
  | '"' => "&quot;".toList
  | '\t' => "&#x9;".toList
  | '\n' => "&#xA;".toList
  | '\r' => "&#xD;".toList
  | c => [c]

def escapeAttr (s : Text) : Text := s.flatMap escapeAttrChar

/-! ### The start of an element -/

/-- Prefixes, the empty one for the default namespace, with their URIs. -/
abbrev Prefixes := OrderedMap Text Text

/-- The prefix an element is written with; where none was written, one that stands for its
namespace. -/
def elemPrefix (t : Tag) : Text :=
  t.written.getD ((t.lookupPrefix (t.uri.getD [])).getD [])

/-- The prefixes in scope at an element. -/
def inScope (t : Tag) : Prefixes :=
  let m := OrderedMap.insertAll (t.namespaces.map (fun ns => (ns.name.getD [], ns.uri))) []
  if (OrderedMap.get [] m).isSome then m else OrderedMap.insert [] [] m

/-- The prefixes that the exclusive method looks at: those that the element and its attributes use,
and those it was told to include. -/
def usedPrefixes (method : Method) (t : Tag) : List Text :=
  elemPrefix t :: (t.attributes.filterMap Attribute.written).filter (· ≠ NS_XML_PREFIX)
    ++ (method.inclusivePrefixes.map (fun p => if p = "#default".toList then [] else p)).filter
      (fun p => (OrderedMap.get p (inScope t)).isSome)

/-- The namespace declarations written at an element, when those of its ancestors have been. -/
def nsOut (method : Method) (rendered : Prefixes) (t : Tag) : Prefixes :=
  match method.mode with
  | .inclusive =>
    OrderedMap.insertAll
      ((inScope t).filter (fun e => e.1 ≠ NS_XML_PREFIX ∧ OrderedMap.get e.1 rendered ≠ some e.2)) []
  | .exclusive =>
    OrderedMap.insertAll
      (((usedPrefixes method t).map (fun p => (p, (OrderedMap.get p (inScope t)).getD []))).filter
        (fun e => ¬ (e.1 = [] ∧ e.2 = [] ∧ OrderedMap.get [] rendered = some [])
          ∧ OrderedMap.get e.1 rendered ≠ some e.2)) []

/-- The declarations in force below an element. -/
def childRendered (method : Method) (rendered : Prefixes) (t : Tag) : Prefixes :=
  OrderedMap.insertAll (nsOut method rendered t) rendered

/-- Whether an attribute stands before another one: by namespace and local name, those in no
namespace first. -/
def before (a b : Attribute) : Prop :=
  a.uri.getD [] < b.uri.getD [] ∨ a.uri.getD [] = b.uri.getD [] ∧ a.name ≤ b.name

instance : DecidableRel before := fun _ _ => inferInstanceAs (Decidable (_ ∨ _))

def writeDeclaration (e : Text × Text) : Text :=
  if e.1 = [] then " xmlns=\"".toList ++ escapeAttr e.2 ++ ['"']
  else " xmlns:".toList ++ e.1 ++ "=\"".toList ++ escapeAttr e.2 ++ ['"']

/-- The prefix an attribute is written with. -/
def attrPrefix (a : Attribute) : Text :=
  if a.uri.getD [] = NS_XML_URI then NS_XML_PREFIX else a.written.getD []

def writeAttribute (a : Attribute) : Text :=
  ' ' :: pushQname (attrPrefix a) a.name ++ "=\"".toList ++ escapeAttr a.value ++ ['"']

/-- The start tag of an element. -/
def startTag (method : Method) (rendered : Prefixes) (t : Tag) : Text :=
  '<' :: pushQname (elemPrefix t) t.name ++ (nsOut method rendered t).flatMap writeDeclaration
    ++ (t.attributes.insertionSort before).flatMap writeAttribute ++ ['>']

/-- The end tag of an element. -/
def endTag (t : Tag) : Text := "</".toList ++ pushQname (elemPrefix t) t.name ++ ['>']

/-! ### Nodes -/

mutual

/-- Write a node. -/
def node (method : Method) (exclude : Option ℕ) (rendered : Prefixes) : Node → Text
  | .element id t cs =>
    if some id = exclude then []
    else
      startTag method rendered t
        ++ (nodes method exclude (childRendered method rendered t) cs ++ endTag t)
  | .text s => escapeText s
  | .comment s => if method.withComments then "<!--".toList ++ s ++ "-->".toList else []
  | .pi target value =>
    "<?".toList ++ target ++ (value.elim [] (fun v => ' ' :: v)) ++ "?>".toList

/-- Write nodes one after the other. -/
def nodes (method : Method) (exclude : Option ℕ) (rendered : Prefixes) : List Node → Text
  | [] => []
  | n :: ns => node method exclude rendered n ++ nodes method exclude rendered ns

end

/-- The canonical form of an element, without the excluded one. -/
def canonicalize (root : Node) (exclude : Option ℕ) (method : Method) : Text :=
  node method exclude [([], [])] root

end Termoso.C14n
