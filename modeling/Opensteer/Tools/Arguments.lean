import Opensteer.Tools.OutputWindows

/-!
# Tool arguments

`packages/core/src/tool-arguments.ts`, and what `JSON.stringify` makes of a value: characters, among which no
surrogate is left. How JavaScript writes a number is a parameter. The texts that are encoded once and looked up
again are encoded each time here.
-/

namespace Opensteer.Tools

def toolArgumentsMaxSerializedBytes : Nat := 64 * 1024

def omissionMarkerReserveBytes : Nat := 64

def minimumKeptBytes : Nat := 512

/-! ## `JSON.stringify` -/

def hexDigit (n : Nat) : Char := "0123456789abcdef".toList.getD n '0'

/-- `\uXXXX`. -/
def unicodeEscape (code : Nat) : List Char :=
  ['\\', 'u', hexDigit (code / 4096 % 16), hexDigit (code / 256 % 16), hexDigit (code / 16 % 16), hexDigit (code % 16)]

def escapeChar (c : Char) : List Char :=
  if c = '"' then ['\\', '"']
  else if c = '\\' then ['\\', '\\']
  else if c = '\x08' then ['\\', 'b']
  else if c = '\t' then ['\\', 't']
  else if c = '\n' then ['\\', 'n']
  else if c = '\x0c' then ['\\', 'f']
  else if c = '\r' then ['\\', 'r']
  else if c.toNat < 0x20 then unicodeEscape c.toNat
  else [c]

/-- A unit in no pair. -/
def escapeUnit (unit : UInt16) : List Char :=
  if isHighSurrogate unit || isLowSurrogate unit then unicodeEscape unit.toNat else escapeChar (Char.ofNat unit.toNat)

def escapeText : Text → List Char
  | [] => []
  | [unit] => escapeUnit unit
  | high :: low :: rest =>
    if isHighSurrogate high && isLowSurrogate low then paired high low :: escapeText rest
    else escapeUnit high ++ escapeText (low :: rest)

def quoteText (text : Text) : List Char := '"' :: (escapeText text ++ ['"'])

section

variable (numeral : Rat → List Char)

mutual
def stringify : Json → List Char
  | .null => "null".toList
  | .bool b => if b then "true".toList else "false".toList
  | .number n => numeral n
  | .string s => quoteText s
  | .array items => '[' :: ([','].intercalate (stringifyItems items) ++ [']'])
  | .object fields => '\x7b' :: ([','].intercalate (stringifyFields fields) ++ ['\x7d'])

def stringifyItems : List Json → List (List Char)
  | [] => []
  | item :: items => stringify item :: stringifyItems items

def stringifyFields : Fields → List (List Char)
  | [] => []
  | (key, item) :: fields => (quoteText key ++ ':' :: stringify item) :: stringifyFields fields
end

/-- `JSON.stringify(value)`. -/
def jsonText (value : Json) : Text := ofScalars (stringify numeral value)

def serializedBytes (value : Json) : Nat := (TextEncoder.encode (jsonText numeral value)).length

/-! ## Cutting -/

/-- What `withTextsCut` does with a string. -/
def withTextCut (keptBytes : Nat) (value : Text) : Except ToolOutputError Text := do
  let limit := keptBytes + omissionMarkerReserveBytes
  if value.length * 3 ≤ limit then return value
  let bytes := TextEncoder.encode value
  if bytes.length ≤ limit then return value
  let kept ← utf8HeadAndTail bytes keptBytes
  return kept.text

mutual
def withTextsCut (keptBytes : Nat) : Json → Except ToolOutputError Json
  | .string s => do
    let s ← withTextCut keptBytes s
    return .string s
  | .array items => do
    let items ← withItemsCut keptBytes items
    return .array items
  | .object fields => do
    let fields ← withEntriesCut keptBytes fields
    return .object fields
  | .null => .ok .null
  | .bool b => .ok (.bool b)
  | .number n => .ok (.number n)

def withItemsCut (keptBytes : Nat) : List Json → Except ToolOutputError (List Json)
  | [] => .ok []
  | item :: items => do
    let item ← withTextsCut keptBytes item
    let items ← withItemsCut keptBytes items
    return item :: items

def withEntriesCut (keptBytes : Nat) : Fields → Except ToolOutputError Fields
  | [] => .ok []
  | (key, item) :: fields => do
    let item ← withTextsCut keptBytes item
    let fields ← withEntriesCut keptBytes fields
    return (key, item) :: fields
end

def withParametersAsText (fields : Fields) : Json :=
  .object (fields.map fun entry => (entry.1, match entry.2 with
    | .array items => .string (jsonText numeral (.array items))
    | .object fields => .string (jsonText numeral (.object fields))
    | item => item))

/-- The loop of `fittedTexts`. -/
def search (value : Json) (low high : Nat) : Except ToolOutputError Nat :=
  if low < high then do
    let middle := (low + high + 1) / 2
    let cut ← withTextsCut middle value
    if serializedBytes numeral cut ≤ toolArgumentsMaxSerializedBytes then search value middle high
    else search value low (middle - 1)
  else .ok low
termination_by high - low

def fittedTexts (value : Json) : Except ToolOutputError (Option Json) := do
  if serializedBytes numeral value ≤ toolArgumentsMaxSerializedBytes then return some value
  let shortest ← withTextsCut minimumKeptBytes value
  if toolArgumentsMaxSerializedBytes < serializedBytes numeral shortest then return none
  let low ← search numeral value minimumKeptBytes toolArgumentsMaxSerializedBytes
  let fitted ← withTextsCut low value
  return some fitted

/-- The second of what `createToolArguments` tries, of a record. -/
def fittedParameters : Json → Except ToolOutputError (Option Json)
  | .object fields => fittedTexts numeral (withParametersAsText numeral fields)
  | _ => .ok none

/-- `none` where the code's result is `undefined`. -/
def createToolArguments (value : Json) : Except ToolOutputError (Option Json) := do
  match ← fittedTexts numeral value with
  | some fitted => return some fitted
  | none =>
    match ← fittedParameters numeral value with
    | some fitted => return some fitted
    | none => fittedTexts numeral (.string (jsonText numeral value))

end

end Opensteer.Tools
