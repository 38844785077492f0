import Opensteer.Core.Json
import Opensteer.Core.Text
import Opensteer.Framework.Decimal

/-!
# Names of an API's tools

`planOpenApiToolNames`: an operation's name is a group and a leaf, each some words in camel case, from
its tag or path and its ID. Of the operations that would have one name each has its method after it,
and then a number while that is taken; how many are tried is bounded by `fuel`.
-/

namespace Opensteer.ToolNames

def isLower (unit : UInt16) : Bool := 0x61 ≤ unit && unit ≤ 0x7a

def isUpper (unit : UInt16) : Bool := 0x41 ≤ unit && unit ≤ 0x5a

/-- A letter or digit of ASCII. -/
def isWord (unit : UInt16) : Bool := Decimal.isDigit unit || isLower unit || isUpper unit

/-- `.replace(/([a-z0-9])([A-Z])/gu, "$1 $2")` -/
def spaced : Text → Text
  | unit :: next :: rest =>
    if (isLower unit || Decimal.isDigit unit) && isUpper next then unit :: 0x20 :: spaced (next :: rest)
    else unit :: spaced (next :: rest)
  | [unit] => [unit]
  | [] => []

/-- The runs of letters and digits. -/
def splitWords (value : Text) : List Text :=
  ((spaced value).splitOnP fun unit => !isWord unit).filter (· ≠ [])

def upperUnit (unit : UInt16) : UInt16 := if isLower unit then unit - 0x20 else unit

/-- With the first letter in upper case. -/
def capitalized : Text → Text
  | [] => []
  | unit :: rest => upperUnit unit :: rest

def camel (value : Text) : Text :=
  match (splitWords value).map Text.toLowerCase with
  | [] => units "tool"
  | first :: rest => first ++ rest.flatMap capitalized

/-- `version.test` -/
def isVersion (segment : Text) : Bool :=
  let number := if segment.head?.any fun unit => unit = 0x76 ∨ unit = 0x56 then segment.tail else segment
  !(number.takeWhile Decimal.isDigit).isEmpty &&
    match number.dropWhile Decimal.isDigit with
    | [] => true
    | mark :: minor => mark ∈ units "._-" && !minor.isEmpty && minor.all Decimal.isDigit

def slash : UInt16 := 0x2f

/-- The first segment of a path that tells the operations apart. -/
def pathGroup (path : Text) : Text :=
  let segments := (path.splitOn slash).filter (· ≠ [])
  match segments.find? fun segment => !((units "\x7b").isPrefixOf segment || isVersion segment ||
      Text.toLowerCase segment = units "api") with
  | some segment => camel segment
  | none => units "root"

inductive Method
  | get | put | post | delete | patch | head | options | trace
deriving DecidableEq

def Method.text : Method → Text
  | .get => units "get"
  | .put => units "put"
  | .post => units "post"
  | .delete => units "delete"
  | .patch => units "patch"
  | .head => units "head"
  | .options => units "options"
  | .trace => units "trace"

structure ToolNameInput where
  method : Method
  operationId : Text
  path : Text
  tag : Option Text := none

def maximumNamePart : Nat := 240

def groupOf (input : ToolNameInput) : Text :=
  match input.tag with
  | some (unit :: tag) => camel (unit :: tag)
  | _ => pathGroup input.path

def leafOf (input : ToolNameInput) (group : Text) : Text :=
  let segments := (input.operationId.splitOnP fun unit => unit = slash ∨ unit = 0x2e).filter (· ≠ [])
  let seed :=
    match segments with
    | first :: second :: rest =>
      if camel first = group then (units " ").intercalate (second :: rest) else input.operationId
    | _ => input.operationId
  if camel seed = group then camel (input.method.text ++ units " operation") else camel seed

def plannedName (input : ToolNameInput) : Text :=
  let group := groupOf input
  group.take maximumNamePart ++ units "." ++ (leafOf input group).take maximumNamePart

def methodWord (method : Method) : Text := capitalized (camel method.text)

/-- How many operations plan a name. -/
def totals (names : List Text) (name : Text) : Nat := names.count name

/-- The first candidate that is not taken. -/
def seek (taken : List Text) (suffixed : Text) : Nat → Text → Nat → Option Text
  | 0, _, _ => none
  | fuel + 1, candidate, ordinal =>
    if candidate ∈ taken then seek taken suffixed fuel (suffixed ++ Decimal.spell ordinal) (ordinal + 1)
    else some candidate

/-- The names of the operations that are left. -/
def assign (fuel : Nat) (names : List Text) : List Text → List ToolNameInput → Option (List Text)
  | _, [] => some []
  | taken, input :: inputs =>
    let name := plannedName input
    if totals names name = 1 then (assign fuel names taken inputs).map (name :: ·)
    else
      let suffixed := name ++ methodWord input.method
      (seek taken suffixed fuel suffixed 2).bind fun candidate =>
        (assign fuel names (candidate :: taken) inputs).map (candidate :: ·)

def planOpenApiToolNames (fuel : Nat) (inputs : List ToolNameInput) : Option (List Text) :=
  let names := inputs.map plannedName
  assign fuel names (names.filter fun name => totals names name = 1) inputs

end Opensteer.ToolNames
