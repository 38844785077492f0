import Opensteer.Core.Json
import Opensteer.Core.Text
import Opensteer.Framework.Decimal
import Opensteer.Framework.JsonTree

/-!
# Canonical JSON

`Encoding/CanonicalJSON.swift`, with `Encoding/JSONValue.swift` and what they use of `Encoding/Hex.swift`.

A Swift string is its Unicode scalars, and two are one key when these are the same. A dictionary is the list
of its fields, of which the order means nothing (`JsonTree.Reordered`). What Swift traps on (an index
outside of an array, an integer that overflows) is an outcome of its own (`Halt.trapped`); a loop and a call
have a bound, of which the end is another (`Halt.exhausted`). A limit of `.max` is none.
-/

namespace Opensteer.Passwords

abbrev Scalars := List Char

abbrev JSONValue := JsonTree Scalars Int

inductive JSONError
  | invalidUTF8
  | syntaxError (offset : Nat)
  | duplicateKey (key : Scalars)
  | nonInteger (offset : Nat)
  | integerOutOfRange
  | tooDeep
  | arrayTooLong
  | tooManyValues
  | trailingData (offset : Nat)
  | notCanonical
deriving DecidableEq, Repr

/-- What ends a call other than its result. -/
inductive Halt
  | thrown (error : JSONError)
  | trapped
  | exhausted
deriving DecidableEq, Repr

abbrev Outcome := Except Halt

def raise {α : Type} (error : JSONError) : Outcome α := .error (.thrown error)

/-- `guard condition else { throw error }`. -/
def ensure (condition : Prop) [Decidable condition] (error : JSONError) : Outcome Unit :=
  if condition then .ok () else raise error

/-- An `Int64`, if it is one. -/
def int64 (n : Int) : Outcome Int := if -2 ^ 63 ≤ n ∧ n < 2 ^ 63 then .ok n else .error .trapped

/-! ## Strings and their bytes -/

/-- The bytes of a string's UTF-8. -/
def utf8 (text : Scalars) : List UInt8 := text.flatMap String.utf8EncodeChar

/-- `String(decoding:as:)`: how it repairs bytes that are no UTF-8 is not looked into. -/
def decoding (repair : List UInt8 → Scalars) (bytes : List UInt8) : Scalars :=
  match bytes.toByteArray.utf8Decode? with
  | some text => text.toList
  | none => repair bytes

namespace UTF8Text

def decode (repair : List UInt8 → Scalars) (bytes : List UInt8) : Option Scalars :=
  let text := decoding repair bytes
  if utf8 text = bytes then some text else none

end UTF8Text

/-- The byte of a character of ASCII. -/
def mark (c : Char) : UInt8 := UInt8.ofNat c.toNat

namespace Hex

def digits : List UInt8 := "0123456789abcdef".toList.map mark

def value (byte : UInt8) (allowUpper : Bool) : Option UInt8 :=
  if mark '0' ≤ byte ∧ byte ≤ mark '9' then some (byte - mark '0')
  else if mark 'a' ≤ byte ∧ byte ≤ mark 'f' then some (byte - mark 'a' + 10)
  else if allowUpper ∧ mark 'A' ≤ byte ∧ byte ≤ mark 'F' then some (byte - mark 'A' + 10)
  else none

end Hex

namespace CanonicalJSON

def maxDepth : Nat := 32

def maxSafeInteger : Int := 9007199254740991

/-! ## Encoding -/

/-- One byte of a string as it is written. -/
def escaped (byte : UInt8) : List UInt8 :=
  if byte = 0x22 then [0x5c, 0x22]
  else if byte = 0x5c then [0x5c, 0x5c]
  else if byte = 0x08 then [0x5c, mark 'b']
  else if byte = 0x09 then [0x5c, mark 't']
  else if byte = 0x0a then [0x5c, mark 'n']
  else if byte = 0x0c then [0x5c, mark 'f']
  else if byte = 0x0d then [0x5c, mark 'r']
  else if byte < 0x20 then
    [0x5c, mark 'u', mark '0', mark '0', Hex.digits.getD (byte >>> 4).toNat 0, Hex.digits.getD (byte &&& 0x0f).toNat 0]
  else [byte]

def writeString (text : Scalars) : List UInt8 := mark '"' :: ((utf8 text).flatMap escaped ++ [mark '"'])

/-- `String(number).utf8`. -/
def decimal (number : Int) : List UInt8 :=
  (if number < 0 then [mark '-'] else []) ++ (Decimal.digitsOf number.natAbs).map fun digit => UInt8.ofNat (48 + digit)

def script : JsonTree.Script UInt8 Scalars Int := ⟨mark, writeString, decimal⟩

def checkInteger (number : Int) : Except JSONError Unit :=
  if number ≥ -maxSafeInteger ∧ number ≤ maxSafeInteger then .ok () else .error .integerOutOfRange

/-- The order of keys that `lexicographicallyPrecedes` makes of their UTF-16. -/
def keyOrder (key key' : Scalars) : Bool := Text.inOrder (units (String.ofList key)) (units (String.ofList key'))

/-- `write`, and so `encode`. -/
def encode (value : JSONValue) : Except JSONError (List UInt8) := value.write script checkInteger [keyOrder]

/-! ## Parsing -/

structure Parser where
  bytes : List UInt8
  maxArrayCount : Option Nat
  maxValues : Option Nat
  index : Nat := 0
  values : Nat := 0
deriving DecidableEq, Repr

def isWhitespace (byte : UInt8) : Bool := byte ∈ ([0x20, 0x09, 0x0a, 0x0d] : List UInt8)

def isDigit (byte : UInt8) : Bool := mark '0' ≤ byte && byte ≤ mark '9'

/-- `Unicode.Scalar(value)`. -/
def unicodeScalar (value : UInt32) : Option Char := if h : value.isValidChar then some ⟨value, h⟩ else none

/-- What a character stands for after a backslash, other than `u`. -/
def unescape (escape : UInt8) : Option UInt8 :=
  if escape = mark '"' then some 0x22
  else if escape = mark '\\' then some 0x5c
  else if escape = mark '/' then some 0x2f
  else if escape = mark 'b' then some 0x08
  else if escape = mark 'f' then some 0x0c
  else if escape = mark 'n' then some 0x0a
  else if escape = mark 'r' then some 0x0d
  else if escape = mark 't' then some 0x09
  else none

namespace Parser

variable (repair : List UInt8 → Scalars)

/-- What is not read yet. -/
def rest (p : Parser) : List UInt8 := p.bytes.drop p.index

def advance (p : Parser) (n : Nat) : Parser := { p with index := p.index + n }

/-- `bytes[i]`. -/
def byte (p : Parser) (i : Nat) : Outcome UInt8 :=
  match p.bytes[i]? with
  | some byte => .ok byte
  | none => .error .trapped

/-- `bytes[index..<index + n]`. -/
def slice (p : Parser) (n : Nat) : Outcome (List UInt8) :=
  if p.index + n ≤ p.bytes.length then .ok (p.rest.take n) else .error .trapped

def skipWhitespace (p : Parser) : Parser := p.advance (p.rest.takeWhile isWhitespace).length

def peek (p : Parser) : Outcome UInt8 := do
  ensure (p.index < p.bytes.length) (.syntaxError p.index)
  p.byte p.index

def expect : List UInt8 → Parser → Outcome Parser
  | [], p => .ok p
  | literal :: literals, p => do
    ensure (p.index < p.bytes.length) (.syntaxError p.index)
    let byte ← p.byte p.index
    ensure (byte = literal) (.syntaxError p.index)
    expect literals (p.advance 1)

/-- The number that digits make. -/
def accumulate : List UInt8 → Int → Outcome Int
  | [], value => .ok value
  | digit :: digits, value => do
    let product ← int64 (value * 10)
    let value ← int64 (product + (digit - mark '0').toNat)
    accumulate digits value

def parseInteger (p : Parser) : Outcome (Int × Parser) := do
  let start := p.index
  let first ← p.byte p.index
  let negative := first = mark '-'
  let p := if negative then p.advance 1 else p
  let digits := p.rest.takeWhile isDigit
  let p := p.advance digits.length
  ensure (digits ≠ []) (.syntaxError start)
  ensure (p.bytes[p.index]?.all fun byte => byte ∉ ['.', 'e', 'E'].map mark) (.nonInteger start)
  ensure (digits.length = 1 ∨ digits.head? ≠ some (mark '0')) (.syntaxError start)
  ensure (digits.length ≤ 16) .integerOutOfRange
  let value ← accumulate digits 0
  ensure (value ≤ maxSafeInteger) .integerOutOfRange
  if negative then
    ensure (value ≠ 0) (.nonInteger start)
    return (-value, p)
  else return (value, p)

/-- The loop of `parseHex4`. -/
def hex4 (digits : List UInt8) : Option UInt32 :=
  digits.foldlM (fun value byte => (Hex.value byte true).map fun digit => value <<< 4 ||| digit.toUInt32) 0

def parseHex4 (p : Parser) : Outcome (UInt32 × Parser) := do
  ensure (p.index + 4 ≤ p.bytes.length) (.syntaxError p.index)
  let digits ← p.slice 4
  match hex4 digits with
  | some value => return (value, p.advance 4)
  | none => raise (.syntaxError p.index)

/-- The second half of a pair of surrogates. -/
def parseLowSurrogate (first : UInt32) (p : Parser) : Outcome (Char × Parser) := do
  ensure (p.index + 2 ≤ p.bytes.length) (.syntaxError p.index)
  let backslash ← p.byte p.index
  ensure (backslash = mark '\\') (.syntaxError p.index)
  let escape ← p.byte (p.index + 1)
  ensure (escape = mark 'u') (.syntaxError p.index)
  let (second, p) ← (p.advance 2).parseHex4
  ensure (0xdc00 ≤ second ∧ second ≤ 0xdfff) (.syntaxError p.index)
  let combined : UInt32 := (0x10000 : UInt32) + ((first - 0xd800) <<< 10) + (second - 0xdc00)
  match unicodeScalar combined with
  | some scalar => return (scalar, p)
  | none => raise (.syntaxError p.index)

def parseUnicodeEscape (p : Parser) : Outcome (Char × Parser) := do
  let (first, p) ← p.parseHex4
  if 0xd800 ≤ first ∧ first ≤ 0xdbff then p.parseLowSurrogate first
  else match unicodeScalar first with
    | some scalar => return (scalar, p)
    | none => raise (.syntaxError p.index)

/-- The bytes that an escape stands for, after its backslash. -/
def parseEscape (p : Parser) : Outcome (List UInt8 × Parser) := do
  ensure (p.index < p.bytes.length) (.syntaxError p.index)
  let escape ← p.byte p.index
  let p := p.advance 1
  if escape = mark 'u' then do
    let (scalar, p) ← p.parseUnicodeEscape
    return (utf8 [scalar], p)
  else match unescape escape with
    | some byte => return ([byte], p)
    | none => raise (.syntaxError (p.index - 1))

/-- The loop of `parseString`. -/
def stringFrom (start : Nat) : Nat → Parser → List UInt8 → Outcome (Scalars × Parser)
  | 0, _, _ => .error .exhausted
  | bound + 1, p, out => do
    ensure (p.index < p.bytes.length) (.syntaxError start)
    let byte ← p.byte p.index
    let p := p.advance 1
    if byte = mark '"' then return (decoding repair out, p)
    else if byte = mark '\\' then do
      let (bytes, p) ← p.parseEscape
      stringFrom start bound p (out ++ bytes)
    else if byte < 0x20 then raise (.syntaxError (p.index - 1))
    else stringFrom start bound p (out ++ [byte])

def parseString (p : Parser) : Outcome (Scalars × Parser) :=
  stringFrom repair p.index (p.bytes.length - p.index) (p.advance 1) []

/-- A number of values or of elements that a caller allows. -/
def allows (limit : Option Nat) (n : Nat) : Prop := ∀ l ∈ limit, n ≤ l

instance (limit : Option Nat) (n : Nat) : Decidable (allows limit n) := inferInstanceAs (Decidable (∀ l ∈ limit, n ≤ l))

/-- A comma, or the mark that closes what is parsed. -/
def closes (p : Parser) (close : UInt8) : Outcome (Bool × Parser) := do
  let next ← p.peek
  let p := p.advance 1
  if next = close then return (true, p)
  else do
    ensure (next = mark ',') (.syntaxError (p.index - 1))
    return (false, p)

mutual

def parseValue : Nat → Parser → Nat → Outcome (JSONValue × Parser)
  | 0, _, _ => .error .exhausted
  | bound + 1, p, depth => do
    let p := { p with values := p.values + 1 }
    ensure (allows p.maxValues p.values) .tooManyValues
    let first ← p.peek
    if first = mark '{' then parseObject bound p (depth + 1)
    else if first = mark '[' then parseArray bound p (depth + 1)
    else if first = mark '"' then do
      let (text, p) ← p.parseString repair
      return (.string text, p)
    else if first = mark 't' then do
      let p ← p.expect ("true".toList.map mark)
      return (.bool true, p)
    else if first = mark 'f' then do
      let p ← p.expect ("false".toList.map mark)
      return (.bool false, p)
    else if first = mark 'n' then do
      let p ← p.expect ("null".toList.map mark)
      return (.null, p)
    else if first = mark '-' ∨ isDigit first then do
      let (number, p) ← p.parseInteger
      return (.number number, p)
    else raise (.syntaxError p.index)

def parseObject : Nat → Parser → Nat → Outcome (JSONValue × Parser)
  | 0, _, _ => .error .exhausted
  | bound + 1, p, depth => do
    ensure (depth ≤ maxDepth) .tooDeep
    let p := (p.advance 1).skipWhitespace
    let next ← p.peek
    if next = mark '}' then return (.object [], p.advance 1)
    else fieldsFrom bound p depth []

def fieldsFrom : Nat → Parser → Nat → List (Scalars × JSONValue) → Outcome (JSONValue × Parser)
  | 0, _, _, _ => .error .exhausted
  | bound + 1, p, depth, fields => do
    let p := p.skipWhitespace
    let next ← p.peek
    ensure (next = mark '"') (.syntaxError p.index)
    let (key, p) ← p.parseString repair
    ensure (key ∉ fields.map Prod.fst) (.duplicateKey key)
    let p ← p.skipWhitespace.expect [mark ':']
    let (value, p) ← parseValue bound p.skipWhitespace depth
    let (closed, p) ← p.skipWhitespace.closes (mark '}')
    if closed then return (.object (fields ++ [(key, value)]), p)
    else fieldsFrom bound p depth (fields ++ [(key, value)])

def parseArray : Nat → Parser → Nat → Outcome (JSONValue × Parser)
  | 0, _, _ => .error .exhausted
  | bound + 1, p, depth => do
    ensure (depth ≤ maxDepth) .tooDeep
    let p := (p.advance 1).skipWhitespace
    let next ← p.peek
    if next = mark ']' then return (.array [], p.advance 1)
    else elementsFrom bound p depth []

def elementsFrom : Nat → Parser → Nat → List JSONValue → Outcome (JSONValue × Parser)
  | 0, _, _, _ => .error .exhausted
  | bound + 1, p, depth, elements => do
    let (value, p) ← parseValue bound p.skipWhitespace depth
    let elements := elements ++ [value]
    ensure (allows p.maxArrayCount elements.length) .arrayTooLong
    let (closed, p) ← p.skipWhitespace.closes (mark ']')
    if closed then return (.array elements, p)
    else elementsFrom bound p depth elements

end

end Parser

variable (repair : List UInt8 → Scalars)

def parse (data : List UInt8) (maxArrayCount maxValues : Option Nat) : Outcome JSONValue := do
  ensure (UTF8Text.decode repair data).isSome .invalidUTF8
  let p := (Parser.mk data maxArrayCount maxValues 0 0).skipWhitespace
  let (value, p) ← Parser.parseValue repair (3 * data.length + 3) p 0
  let p := p.skipWhitespace
  ensure (p.index = data.length) (.trailingData p.index)
  return value

def parseCanonical (data : List UInt8) : Outcome JSONValue := do
  let value ← parse repair data none none
  let bytes ← (encode value).mapError .thrown
  ensure (bytes = data) .notCanonical
  return value

end CanonicalJSON

end Opensteer.Passwords
