import Abacus.Library.Table
import Abacus.Misc

/-! # How `abacustool` reads a description

The tool accepts lists in square brackets, which the server does not know, and does not remember which
attributes are optional.
-/

namespace Abacus.Description.Tool

open Library Library.Bytes

inductive ProblemAttributeType
  | int
  | string
  | file
  | enum
  | list
  deriving DecidableEq

structure ProblemAttribute where
  name : Str
  type : ProblemAttributeType
  values : List Str
  deriving DecidableEq

inductive ParseError
  /-- `ProblemBadFormat`. -/
  | badFormat (msg : Str)
  /-- A token past the last one is read. -/
  | outOfBounds
  /-- More rounds than tokens, which no description has. -/
  | rounds
  /-- The positions do not fit an `int`. What is done with such a text is left out. -/
  | tooLong
  deriving DecidableEq

def isProblemSpecial (b : UInt8) : Bool := b ∈ str "()[]{}*?, "

def isSpecialToken (tok : Str) : Bool :=
  match tok with
  | [b] => isProblemSpecial b
  | _ => false

def problemTokenizeFrom : Nat → Str → List Str
  | 0, _ => []
  | fuel + 1, desc =>
    match desc.dropWhile (· = 32) with
    | [] => []
    | b :: rest =>
      if isProblemSpecial b then [b] :: problemTokenizeFrom fuel rest
      else (b :: rest.takeWhile (!isProblemSpecial ·)) ::
        problemTokenizeFrom fuel (rest.dropWhile (!isProblemSpecial ·))

def problemTokenize (desc : Str) : List Str := problemTokenizeFrom (desc.length + 1) desc

def badList : ParseError := .badFormat (str "Bad formatting in list")

def problemListElements (target : Str) : List Str → Except ParseError (List Str × List Str)
  | [] => .error badList
  | [tok] => if isSpecialToken tok ∨ tok = [] then .error badList else .error .outOfBounds
  | tok :: next :: rest =>
    if isSpecialToken tok ∨ tok = [] then .error badList
    else if next = target then .ok ([tok], next :: rest)
    else if next ≠ str "," then .error badList
    else (problemListElements target rest).map fun (values, rest) => (tok :: values, rest)

/-- The elements of a list, from the token after its opening bracket on. -/
def problemParseList (target : Str) : List Str → Except ParseError (List Str × List Str)
  | [] => .error .outOfBounds
  | tok :: rest => if tok = target then .ok ([], tok :: rest) else problemListElements target (tok :: rest)

def missingName : ParseError := .badFormat (str "Missing name")

def attributeType (stype : Str) (rest : List Str) :
    Except ParseError (ProblemAttributeType × List Str × List Str) :=
  if stype = str "I" then .ok (.int, [], rest)
  else if stype = str "S" then .ok (.string, [], rest)
  else if stype = str "F" then .ok (.file, [], rest)
  else if stype = str "\x7b" then
    (problemParseList (str "\x7d") rest).map fun (values, rest) => (.enum, values, rest.tail)
  else if stype = str "[" then (problemParseList (str "]") rest).map fun (values, rest) => (.list, values, rest.tail)
  else .error (.badFormat (str "Bad type " ++ stype))

def skipOptional : List Str → List Str
  | [] => []
  | tok :: rest => if tok = str "?" then rest else tok :: rest

def closeGroups : List Str → List Str → Except ParseError (List Str × List Str)
  | stack, [] => .ok (stack, [])
  | stack, tok :: rest =>
    if tok = str ")" then
      match stack with
      | [] => .error (.badFormat (str "Mismatched )"))
      | _ :: stack => closeGroups stack rest
    else .ok (stack, tok :: rest)

/-- The names of the open groups, the outermost first, each with a dot behind it. -/
def qualifiedName (stack : List Str) (name : Str) : Str := (stack.reverse.flatMap fun outer => outer ++ str ".") ++ name

def problemParseDescFrom : Nat → List Str → Table Str ProblemAttribute → List Str →
    Except ParseError (Table Str ProblemAttribute)
  | 0, _, _, _ => .error .rounds
  | _ + 1, _, _, [] => .error missingName
  | _ + 1, _, _, [name] =>
    .error (if isSpecialToken name ∨ name = [] then missingName else .badFormat (str "Missing type"))
  | fuel + 1, stack, ans, name :: stype :: rest =>
    if isSpecialToken name ∨ name = [] then .error missingName
    else if stype = str "(" then problemParseDescFrom fuel (name :: stack) ans rest
    else do
      let (type, values, rest) ← attributeType stype rest
      let name := qualifiedName stack name
      let ans := ans.insert name { name, type, values }
      let (stack, rest) ← closeGroups stack (skipOptional rest)
      match rest with
      | [] => if stack ≠ [] then .error (.badFormat (str "Mismatched (")) else .ok ans
      | tok :: rest =>
        if tok ≠ str "," then .error (.badFormat (str "Expecting ,")) else problemParseDescFrom fuel stack ans rest

def problemParseDesc (desc : Str) : Except ParseError (Table Str ProblemAttribute) :=
  if 2147483648 ≤ desc.length then .error .tooLong
  else
    match problemTokenize desc with
    | [] => .ok ∅
    | toks => problemParseDescFrom toks.length [] ∅ toks

end Abacus.Description.Tool
