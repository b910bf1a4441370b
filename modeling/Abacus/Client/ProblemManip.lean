import Abacus.Client.Action

/-! # Problems

A problem type describes its attributes in a small language. `setprobattrs` walks over the description
and takes each attribute from the headers; a file is a slice of the content.
-/

namespace Abacus.Client.ProblemManip

open Library Library.Bytes Misc Client.Block Client.Action
open Database.Schema Database.Problems Peer.Classes

inductive Kind
  | string
  | int
  | file
  | choice (values : List Str)
  deriving DecidableEq

structure Attribute where
  name : Str
  kind : Kind
  optional : Bool
  deriving DecidableEq

inductive Ending
  | done
  /-- At a name without a type, or a type that there is not. -/
  | malformed
  /-- At a bracket without its partner. -/
  | broken
  deriving DecidableEq

def kindOf : Str → Option (Option (Kind × Str))
  | 83 :: rest => some (some (.string, rest))
  | 73 :: rest => some (some (.int, rest))
  | 70 :: rest => some (some (.file, rest))
  | 123 :: rest =>
    match rest.dropWhile (· ≠ 125) with
    | [] => some none
    | _ :: after => some (some (.choice (pieces (rest.takeWhile (· ≠ 125))), after))
  | _ => none

def optionalMark : Str → Bool × Str
  | 32 :: 63 :: rest => (true, rest)
  | rest => (false, rest)

def skip : List Str → Str → Option (List Str × Str)
  | [], 41 :: _ => none
  | _ :: stack, 41 :: rest => skip stack rest
  | stack, 44 :: rest => some (stack, rest.dropWhile isSpace)
  | stack, rest => some (stack, rest.dropWhile isSpace)

def qualified (stack : List Str) (name : Str) : Str := stack.foldl (fun name outer => outer ++ str "." ++ name) name

/-- The attributes in a description, up to its end or its first error. A round of the walk takes at least a space. -/
def attributes : Nat → List Str → Str → List Attribute × Ending
  | 0, _, _ => ([], .broken)
  | _ + 1, _, [] => ([], .done)
  | fuel + 1, stack, desc =>
    let name := desc.takeWhile (· ≠ 32)
    match desc.dropWhile (· ≠ 32) with
    | [] | [_] => ([], .malformed)
    | _ :: 40 :: rest =>
      match skip (name :: stack) rest with
      | none => ([], .broken)
      | some (stack, rest) => attributes fuel stack rest
    | _ :: rest =>
      match kindOf rest with
      | none => ([], .malformed)
      | some none => ([], .broken)
      | some (some (kind, rest)) =>
        let (optional, rest) := optionalMark rest
        let (more, ending) :=
          match skip stack rest with
          | none => ([], .broken)
          | some (stack, rest) => attributes fuel stack rest
        ({ name := qualified stack name, kind, optional } :: more, ending)

def commonAttributes : List String := ["shortname S", "longname S", "multi_submit {No,Yes}"]

def problemTypes : List (String × List String) :=
  [("interactiveprob", commonAttributes ++ ["evaluator F", "time_limit I", "memory_limit I"]),
    ("tcprob", commonAttributes ++ ["testcase (input F, output F)", "ignore_whitespace {Yes,No}", "time_limit I",
      "memory_limit I", "checker F ?"])]

def getProblemDescription (type : Str) : Str :=
  match problemTypes.find? fun t => str t.1 = type with
  | none => []
  | some t => (str ", ").intercalate (t.2.map str)

section

inductive Outcome (α : Type)
  | ok (a : α)
  | refused (msg : Str)
  | fault (f : ClientFault)
  deriving DecidableEq

def Outcome.bind {α β : Type} (x : Outcome α) (f : α → Outcome β) : Outcome β :=
  match x with
  | ok a => f a
  | refused msg => refused msg
  | fault e => fault e

theorem Outcome.bind_eq_ok {α β : Type} {x : Outcome α} {f : α → Outcome β} {b : β} :
    x.bind f = .ok b ↔ ∃ a, x = .ok a ∧ f a = .ok b := by
  cases x <;> simp [Outcome.bind]

theorem Outcome.bind_eq_fault {α β : Type} {x : Outcome α} {f : α → Outcome β} {e : ClientFault} :
    x.bind f = .fault e ↔ x = .fault e ∨ ∃ a, x = .ok a ∧ f a = .fault e := by
  cases x <;> simp [Outcome.bind]

/-- `^([0-9]+) ([0-9]+) (name+)$`, with the two numbers of a length that is allowed. -/
def matchFile (lengthOk : Nat → Bool) (nameOk : UInt8 → Bool) (s : Str) : Option (Str × Str × Str) :=
  let start := s.takeWhile isDigit
  match s.dropWhile isDigit with
  | 32 :: rest =>
    let size := rest.takeWhile isDigit
    match rest.dropWhile isDigit with
    | 32 :: name =>
      if start ≠ [] ∧ lengthOk start.length ∧ size ≠ [] ∧ lengthOk size.length ∧ name ≠ [] ∧ name.all nameOk then
        some (start, size, name)
      else none
    | _ => none
  | _ => none

def isAlnum (b : UInt8) : Bool := isDigit b || (65 ≤ b && b ≤ 90) || (97 ≤ b && b ≤ 122)

def isFilenameChar (b : UInt8) : Bool := isAlnum b || b = 45 || b = 32 || b = 95 || b = 46

def fileReg (s : Str) : Option (Str × Str × Str) := matchFile (fun _ => true) isFilenameChar (text s)

variable (mb : MessageBlock) (probId : Nat)

def slice (start size : Nat) : Outcome Str :=
  if size = 0 ∨ start + size ≤ mb.content.length then .ok ((mb.content.drop start).take size) else .fault .outOfBounds

/-- The end of the slice is compared with the size of the content in 32 bits. -/
def fileOf (attr desc : Str) : Outcome FileAttrib :=
  match fileReg desc with
  | none => .refused (str "Invalid filename structure, filename attributes must match the structure 'int int filename'")
  | some (start, size, name) =>
    match fromStringU32 start, fromStringU32 size with
    | some start, some size =>
      if wrap32 (start + size) > toU32 mb.contentSize then
        .refused (str "File limits for file '" ++ attr ++ str "' out of bounds for passed data")
      else (slice mb start size).bind fun data => .ok { name, data }
    | _, _ => .fault .badString

def setFile (msg : ProbMessage) (attr value : Str) : Outcome ProbMessage :=
  if value = str "-" then
    if probId = 0 then .refused (str ("You cannot 'keep' a file that was never available to begin with.  " ++
      "This applies to 'new' problems only"))
    else .ok { msg with files := msg.files.insert attr { name := [], data := [] } }
  else (fileOf mb attr value).bind fun file => .ok { msg with files := msg.files.insert attr file }

def setValue (msg : ProbMessage) (a : Attribute) (value : Str) : Outcome ProbMessage :=
  match a.kind with
  | .string => .ok { msg with strings := msg.strings.insert a.name value }
  | .int =>
    match fromStringI32 value with
    | none => .refused (str "Value for " ++ a.name ++ str " is not a valid integer")
    | some val => .ok { msg with ints := msg.ints.insert a.name val }
  | .file => setFile mb probId msg a.name value
  | .choice values =>
    if value ∈ values then .ok { msg with strings := msg.strings.insert a.name value }
    else .refused (str "Invalid value for attribute " ++ a.name)

def setAttribute (msg : ProbMessage) (a : Attribute) : Outcome ProbMessage :=
  match mb.headers[a.name]? with
  | some value => setValue mb probId msg a value
  | none => if a.optional then .ok msg else .refused (str "Missing attribute " ++ a.name)

def setAttributes : List Attribute → ProbMessage → Outcome ProbMessage
  | [], msg => .ok msg
  | a :: as, msg => (setAttribute mb probId msg a).bind (setAttributes as)

def walk (desc : Str) (msg : ProbMessage) : Outcome ProbMessage :=
  let (as, ending) := attributes (desc.length + 1) [] desc
  (setAttributes mb probId as msg).bind fun msg =>
    match ending with
    | .done => .ok msg
    | .malformed => .refused (str "Internal Server Error")
    | .broken => .fault .outOfBounds

end

variable (s : Server) (mb : MessageBlock)

def actGetProbTypes : ClientProg MessageBlock := do
  return numbered .ok (problemTypes.map fun t => record [("type", str t.1)])

def actGetProbDescript : ClientProg MessageBlock := do
  let type := mb.get (str "type")
  if type = [] then return .error (str "You must specify the type to describe")
  let desc := getProblemDescription type
  if desc = [] then return .error (str "Error retrieving description for type " ++ type)
  return MessageBlock.ok.set (str "descript") desc

/-- An update of a known problem may leave its type out. -/
def problemType (probId : Nat) (c : Contest) : Str :=
  if probId ≠ 0 ∧ mb.get (str "prob_type") = [] then getProblemType c probId else mb.get (str "prob_type")

def dependencies : List Nat := (pieces (mb.get (str "prob_dependencies"))).map fun d => toU32 (strtol d)

def problemNumber (probId : Nat) : ClientProg Nat := if probId = 0 then nextId s .problem else return probId

def newMessage (probId : Nat) (type : Str) : ProbMessage where
  probId
  updateTime := time32 s
  deps := dependencies mb
  type
  files := ∅
  strings := ∅
  ints := ∅

def actSetProbAttrs : ClientProg Answer := do
  let probId := toU32 (strtol (mb.get (str "prob_id")))
  let type ← query (problemType mb probId)
  if type = [] then return .error (str "You must specify prob_type for new problems")
  let desc := getProblemDescription type
  if desc = [] then return .error (str "Invalid prob_type or internal server error")
  let number ← problemNumber s probId
  match walk mb probId desc (newMessage s mb number type) with
  | .ok msg => return .message (.prob msg) .ok
  | .refused msg => return .error msg
  | .fault f => .raise f

def actGetProbAttrs : ClientProg MessageBlock := do
  let some probId := fromStringU32 (mb.get (str "prob_id")) | return .error (str "Invalid problem Id")
  let type ← query fun c => getProblemType c probId
  let attrs ← query fun c => getProblemAttributes c probId
  if attrs.isEmpty ∨ type = [] then return .error (str "No such problem")
  return (MessageBlock.ok.setAll attrs []).set (str "prob_type") type

def actGetProblemFile : ClientProg MessageBlock := do
  let some probId := (fromStringU32 (mb.get (str "prob_id"))).filter (· ≠ 0)
    | return .error (str "Invalid problem Id")
  let file := mb.get (str "file")
  if file = [] then return .error (str "You have not specified which 'file' you'd like")
  let data ← query fun c => getProblemFileData c probId file
  match data with
  | none => return .error (str "You have specified an invalid problem id")
  | some data => setContent .ok data

section

variable {s : Server} {mb : MessageBlock} {E : ClientFault → Prop}

@[grind ←] theorem reads_actGetProbTypes : Prog.Reads E actGetProbTypes := by grind [actGetProbTypes]

@[grind ←] theorem reads_actGetProbDescript : Prog.Reads E (actGetProbDescript mb) := by grind [actGetProbDescript]

@[grind ←] theorem reads_problemNumber (probId : Nat) : Prog.Reads E (problemNumber s probId) := by
  grind [problemNumber]

@[grind ←] theorem reads_actGetProbAttrs : Prog.Reads E (actGetProbAttrs mb) := by grind [actGetProbAttrs]

@[grind ←] theorem reads_actSetProbAttrs : Prog.Reads (fun _ => True) (actSetProbAttrs s mb) := by
  grind [actSetProbAttrs]

@[grind ←] theorem reads_actGetProblemFile : Prog.Reads (fun _ => True) (actGetProblemFile mb) := by
  grind [actGetProblemFile]

end

end Abacus.Client.ProblemManip
