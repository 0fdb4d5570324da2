import Ssr.Apf.StringTools
import Mathlib.Data.Nat.Notation

/-!
# Paths (`posixpathtools.h`)

The functions of the source on lists of path components. `cwd` is the current working directory,
which `getcwd` returns.
-/

set_option autoImplicit false

namespace Ssr.PosixPathTools

abbrev Token := List Char

/-- `"."` -/
def dot : Token := ['.']

/-- `".."` -/
def dotdot : Token := ['.', '.']

/-- The components between the slashes. -/
def splitSlash : List Char → List Token
  | [] => [[]]
  | c :: cs =>
    if c = '/' then [] :: splitSlash cs
    else
      match splitSlash cs with
      | [] => [[c]]
      | t :: ts => (c :: t) :: ts

def tokenize (path : String) : List Token := splitSlash path.toList

def joinSlash : List Token → List Char
  | [] => []
  | [t] => t
  | t :: ts => t ++ '/' :: joinSlash ts

def untokenize (tokens : List Token) : String :=
  let result := joinSlash tokens
  if result = [] then "." else String.ofList result

/-- The loop of `clean_path`, which goes through the list from its end; the `levels` that are left
become `..`s. -/
def cleanLoop : ℕ → List Token → List Token
  | levels, [] => List.replicate levels dotdot
  | levels, t :: ts =>
    if t = dot then cleanLoop levels ts
    else if t = dotdot then cleanLoop (levels + 1) ts
    else if t = [] then cleanLoop levels ts
    else
      match levels with
      | levels + 1 => cleanLoop levels ts
      | 0 => cleanLoop 0 ts ++ [t]

/-- The loop between two passes: the components that the reverse iterator still has before it, in
its order, those that it has left behind, and `levels`. -/
structure Cleaning where
  ahead : List Token
  kept : List Token
  levels : ℕ
deriving DecidableEq

namespace Cleaning

def start (tokens : List Token) : Cleaning := ⟨tokens.reverse, [], 0⟩

/-- One pass; there is none at `rend()`. An erased component is no longer before the iterator, which
itself stays where it is. -/
def step (s : Cleaning) : Option Cleaning :=
  match s.ahead with
  | [] => none
  | t :: ahead =>
    if t = dot then some { s with ahead }
    else if t = dotdot then some { s with ahead, levels := s.levels + 1 }
    else if t = [] then some { s with ahead }
    else if s.levels > 0 then some { s with ahead, levels := s.levels - 1 }
    else some { s with ahead, kept := t :: s.kept }

/-- At most so many passes. -/
def run : ℕ → Cleaning → Cleaning
  | 0, s => s
  | n + 1, s =>
    match s.step with
    | none => s
    | some s => run n s

/-- The list after `push_front("..")` for each level. -/
def tokens (s : Cleaning) : List Token :=
  List.replicate s.levels dotdot ++ (s.ahead.reverse ++ s.kept)

end Cleaning

def cleanPath (tokens : List Token) : List Token :=
  if tokens = [] then []
  else
    let absolute := tokens.head? = some []
    let tokens := if absolute then tokens.tail else tokens
    let directory := tokens.getLast? = some []
    let tokens := if directory then tokens.dropLast else tokens
    let tokens := cleanLoop 0 tokens.reverse
    let tokens := if absolute then [] :: tokens else tokens
    let tokens := if tokens = [] then [dot] else tokens
    let tokens := if directory then tokens ++ [[]] else tokens
    if tokens = [[]] then [[], []] else tokens

def removeLastComponent (tokens : List Token) : List Token :=
  match tokens.getLast? with
  | none => tokens
  | some t => if t ≠ dotdot ∧ t ≠ dot then tokens.dropLast else tokens

def makeAbsolute (cwd : String) (path : List Token) : List Token :=
  match path with
  | [] => []
  | t :: ts => if t = [] then t :: ts else tokenize cwd ++ t :: ts

/-- Remove common parent directories. -/
def removeCommon : List Token → List Token → List Token × List Token
  | p :: path, d :: dir => if p = d then removeCommon path dir else (p :: path, d :: dir)
  | path, dir => (path, dir)

def makeRelative (cwd : String) (path directory : List Token) : List Token :=
  let dir := if directory = [] then [dot] else directory
  let path := cleanPath (makeAbsolute cwd path)
  let dir := cleanPath (makeAbsolute cwd dir)
  let rest := removeCommon path dir
  let path := List.replicate (rest.2.countP (· ≠ [])) dotdot ++ rest.1
  if path = [[]] then [dot, []] else path

/-- `path != "" && path[0] != '/'` -/
def isRelative (path : String) : Bool :=
  match path.toList with
  | [] => false
  | c :: _ => c ≠ '/'

def makePathRelativeToFile (cwd path filename : String) : String :=
  if isRelative path then
    let p₁ := tokenize path
    let p₂ := removeLastComponent (tokenize filename)
    if p₂ = [] ∨ p₂ = [dot] then untokenize (cleanPath p₁)
    else untokenize (makeRelative cwd p₁ p₂)
  else path

def makePathRelativeToCurrentDir (cwd path filename : String) : String :=
  if isRelative path then
    let result := removeLastComponent (tokenize filename) ++ tokenize path
    untokenize (makeRelative cwd result [])
  else path

/-- The position of the last `c`. -/
def rfind (c : Char) : List Char → Option ℕ
  | [] => none
  | x :: xs =>
    match rfind c xs with
    | some i => some (i + 1)
    | none => if x = c then some 0 else none

def getFileExtension (filename : String) : String :=
  let s := filename.toList
  match rfind '.' s with
  | none => ""
  | some lastDot =>
    if 0 < lastDot ∧ lastDot < s.length - 1 ∧
        (match rfind '/' s with
        | none => true
        | some lastSlash => lastDot > lastSlash && lastDot - lastSlash > 1) = true then
      String.ofList (s.drop (lastDot + 1))
    else ""

/-- The loop of `get_escaped_filename`. -/
def escape : List Char → List Char
  | [] => []
  | ch :: cs => if Apf.isspace ch then '\\' :: ch :: escape cs else ch :: escape cs

def getEscapedFilename (filename : String) : String := String.ofList (escape filename.toList)

example : makePathRelativeToFile "/a" "../../../x" "b/s.asd" = "../../../../x" := by decide

example : makePathRelativeToCurrentDir "/" "x//y/../" "s.asd" = "x/" := by decide

end Ssr.PosixPathTools
