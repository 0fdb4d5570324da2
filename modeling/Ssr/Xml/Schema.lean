import Ssr.Apf.StringTools
import Ssr.Xml.Node

/-!
# The schema of scene files (`asdf.xsd`)

`validAsdf` says which documents are valid, with one definition for each type or element declaration
under `scene_setup`. `OtherRules` stands for the rest of the schema (`header`, `reproduction_setup`,
`score`, `xs:any`, `xs:ID`), which only concerns what `save_scene_as_XML` never writes.
-/

set_option autoImplicit false

namespace Ssr.Schema

open Apf

/-! ## Simple types -/

/-- White space is collapsed before a value is checked. -/
def isSpace (c : Char) : Bool := c = ' ' || c = '\t' || c = '\n' || c = '\r'

def collapse (s : String) : List Char :=
  ((s.toList.dropWhile isSpace).reverse.dropWhile isSpace).reverse

def withoutSign : List Char → List Char
  | '+' :: s => s
  | '-' :: s => s
  | s => s

/-- Digits with at most one dot among them. -/
def isMantissa (s : List Char) : Bool :=
  let whole := s.takeWhile Char.isDigit
  match s.dropWhile Char.isDigit with
  | [] => !whole.isEmpty
  | c :: fraction => c = '.' && fraction.all Char.isDigit && !(whole.isEmpty && fraction.isEmpty)

def isDecimal (s : List Char) : Bool := isMantissa (withoutSign s)

/-- `xs:decimal`: there is no exponent. -/
def decimal (s : String) : Bool := isDecimal (collapse s)

/-- `xs:float`: the special values are `INF`, `-INF` and `NaN`. -/
def float (s : String) : Bool :=
  let s := collapse s
  let mantissa := s.takeWhile fun c => c ≠ 'e' && c ≠ 'E'
  s = "INF".toList || s = "-INF".toList || s = "NaN".toList ||
    (isDecimal mantissa &&
      match s.dropWhile fun c => c ≠ 'e' && c ≠ 'E' with
      | [] => true
      | _ :: exponent =>
        let digits := withoutSign exponent
        !digits.isEmpty && digits.all Char.isDigit)

/-- `xs:boolean` -/
def boolean (s : String) : Bool :=
  let s := collapse s
  s = "true".toList || s = "false".toList || s = "1".toList || s = "0".toList

/-- `xs:positiveInteger` -/
def positiveInteger (s : String) : Bool :=
  let digits : List Char → Bool := fun s =>
    match readNat s with
    | some n => 0 < n
    | none => false
  match collapse s with
  | '+' :: s => digits s
  | s => digits s

/-- `xs:token` and `xs:string`: everything is one, once the white space is collapsed. -/
def token (_ : String) : Bool := true

/-- `source_model_t` -/
def sourceModel (s : String) : Bool :=
  let s := collapse s
  s = "point".toList || s = "plane".toList || s = "directional".toList

/-! ## Attributes and content -/

structure AttributeUse where
  name : String
  valid : String → Bool
  required : Bool

/-- `anyAttribute`: attributes without a declaration are skipped. -/
def validAttributes (uses : List AttributeUse) (anyAttribute : Bool) (n : Node) : Bool :=
  (n.attributes.all fun a =>
    match uses.find? (·.name = a.1) with
    | some u => u.valid a.2
    | none => anyAttribute) &&
  uses.all fun u => !u.required || n.attributes.any (·.1 = u.name)

/-- An element whose content is a text of a simple type. -/
def validSimple (valid : String → Bool) (uses : List AttributeUse) (n : Node) : Bool :=
  validAttributes uses false n && n.children.all (!·.isElement) && valid n.getContent

/-- The elements of a content without text, in which there may be white space. -/
def elementContent (n : Node) : Option (List Node) :=
  if n.children.all fun m => m.isElement || m.getContent.toList.all isSpace then
    some (n.children.filter (·.isElement))
  else none

/-- An optional element at the beginning of a sequence, and what follows. -/
def optionalElement (name : String) (valid : Node → Bool) (next : List Node → Bool) : List Node → Bool
  | [] => next []
  | n :: ns => if n.name = name then valid n && next ns else next (n :: ns)

/-- The rules of the schema that only concern other elements. -/
structure OtherRules where
  /-- an element that is declared elsewhere in the schema is valid -/
  element : Node → Bool
  /-- the value of an attribute `id` is valid in its document -/
  id : String → Bool

/-! ## Elements -/

def validPosition (n : Node) : Bool :=
  validAttributes
    [⟨"x", decimal, true⟩, ⟨"y", decimal, true⟩, ⟨"z", decimal, false⟩, ⟨"fixed", boolean, false⟩]
    false n && n.children.isEmpty

def validOrientation (n : Node) : Bool :=
  validAttributes [⟨"azimuth", decimal, true⟩, ⟨"elevation", decimal, false⟩, ⟨"tilt", decimal, false⟩]
    false n && n.children.isEmpty

/-- Position and orientation, in any order. -/
def validReference (other : OtherRules) (n : Node) : Bool :=
  validAttributes [⟨"id", other.id, false⟩, ⟨"name", token, false⟩] false n &&
    match elementContent n with
    | some [a, b] =>
      (a.name = "position" && validPosition a && b.name = "orientation" && validOrientation b) ||
      (a.name = "orientation" && validOrientation a && b.name = "position" && validPosition b)
    | _ => false

def validFile (n : Node) : Bool := validSimple token [⟨"channel", positiveInteger, false⟩] n

def validPort (n : Node) : Bool := validSimple token [] n

/-- At most one more element, of any kind that is declared. -/
def validRest (other : OtherRules) : List Node → Bool
  | [] => true
  | [n] => other.element n
  | _ => false

/-- Position, orientation and the rest. -/
def validPlace (other : OtherRules) : List Node → Bool
  | [] => false
  | n :: ns =>
    n.name = "position" && validPosition n &&
      optionalElement "orientation" validOrientation (validRest other) ns

def validSource (other : OtherRules) (n : Node) : Bool :=
  validAttributes
    [⟨"id", other.id, false⟩, ⟨"name", token, false⟩, ⟨"properties_file", token, false⟩,
      ⟨"volume", float, false⟩, ⟨"model", sourceModel, false⟩, ⟨"mute", boolean, false⟩,
      ⟨"doppler_effect", boolean, false⟩]
    true n &&
  match elementContent n with
  | some [] => false
  | some (m :: ms) =>
    if m.name = "file" then validFile m && validPlace other ms
    else if m.name = "port" then validPort m && validPlace other ms
    else validPlace other (m :: ms)
  | none => false

def validSceneSetup (other : OtherRules) (n : Node) : Bool :=
  validAttributes [] false n &&
  match elementContent n with
  | some ns =>
    optionalElement "volume" (validSimple float [])
      (optionalElement "amplitude_reference_distance" (validSimple decimal [])
        (optionalElement "reference" (validReference other)
          fun ns => ns.all fun n => n.name = "source" && validSource other n)) ns
  | none => false

/-- each part of the document is optional, and there is at most one of each. -/
def validAsdf (other : OtherRules) (n : Node) : Bool :=
  n.name = "asdf" && validAttributes [⟨"version", decimal, false⟩] false n &&
  match elementContent n with
  | some ns =>
    decide (ns.map (·.name)).Nodup &&
    ns.all fun m =>
      if m.name = "scene_setup" then validSceneSetup other m
      else ["header", "reproduction_setup", "score"].contains m.name && other.element m
  | none => false

end Ssr.Schema
