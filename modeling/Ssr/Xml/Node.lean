import Mathlib.Data.Nat.Notation

/-!
# XML trees (`xmlparser.h`)

What the wrapper of libxml2 offers to read a document: the children of a node, its attributes and
its content, and the two-step XPath expressions of `load_scene`. The functions of libxml2 behind it
are taken to do what their documentation says.
-/

set_option autoImplicit false

namespace Ssr

inductive Node
  | element (name : String) (attributes : List (String × String)) (children : List Node)
  | text (content : String)

namespace Node

/-- `node == "..."` compares the name; a text node is called `text`. -/
def name : Node → String
  | element name _ _ => name
  | text _ => "text"

def attributes : Node → List (String × String)
  | element _ attributes _ => attributes
  | text _ => []

def children : Node → List Node
  | element _ _ children => children
  | text _ => []

def isElement : Node → Bool
  | element .. => true
  | text _ => false

/-- The empty string if there is no such attribute. -/
def getAttribute (n : Node) (name : String) : String := (n.attributes.lookup name).getD ""

mutual
/-- `get_content`: all text below the node. -/
def getContent : Node → String
  | element _ _ children => getContents children
  | text content => content

def getContents : List Node → String
  | [] => ""
  | n :: ns => getContent n ++ getContents ns
end

mutual
/-- `eval_xpath` of an expression with two steps, `parent` and `child`: all elements `child` whose
parent is an element `parent`, in the order of the document. -/
def evalXpath (parent child : String) : Node → List Node
  | element name _ children => evalChildren parent child (name = parent) children
  | text _ => []

def evalChildren (parent child : String) (inParent : Bool) : List Node → List Node
  | [] => []
  | n :: ns =>
    (if inParent && n.isElement && n.name = child then [n] else []) ++ evalXpath parent child n ++
      evalChildren parent child inParent ns
end

end Node

end Ssr
