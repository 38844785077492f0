import Opensteer.Core.WellFormed
import Opensteer.Tools.Arguments

/-!
# Answers that are too large

`fittedContent`, `fittedHead` and `fittedTail` of the Runner: an engine's text is cut to what can be
recorded, saying that it was. How JavaScript writes a number is a parameter.
-/

namespace Opensteer.Fitting

def messageContentMaxParts : Nat := 64

def messageContentMaxSerializedBytes : Nat := 350 * 1024

def messageTextPartMaxLength : Nat := 256 * 1024

/-- `Number.MAX_SAFE_INTEGER` -/
def maxSafeInteger : Nat := 2 ^ 53 - 1

/-- A part of a message: a text, with the fields before it and after it, or one of another type. -/
inductive ContentPart
  | text (before : Fields) (text : Text) (after : Fields)
  | other (fields : Fields)

namespace ContentPart

def value : ContentPart → Json
  | .text before words after => .object (before ++ (units "text", .string words) :: after)
  | .other fields => .object fields

/-- `part.type === "text" ? { ...part, text: f(part.text) } : part` -/
def mapText (f : Text → Text) : ContentPart → ContentPart
  | .text before words after => .text before (f words) after
  | .other fields => .other fields

def text? : ContentPart → Option Text
  | .text _ words _ => some words
  | .other _ => none

end ContentPart

def ellipsis : UInt16 := 0x2026

/-- The loop of `fittedHead`. -/
def searchHead (fits : Nat → Bool) (low high : Nat) : Nat :=
  if low < high then
    let middle := (low + high + 1) / 2
    if fits middle then searchHead fits middle high else searchHead fits low (middle - 1)
  else low
termination_by high - low

/-- The loop of `fittedTail`. -/
def searchTail (fits : Nat → Bool) (low high : Nat) : Nat :=
  if low < high then
    let middle := (low + high) / 2
    if fits middle then searchTail fits low middle else searchTail fits (middle + 1) high
  else low
termination_by high - low

section

variable (numeral : Rat → List Char)

/-- `encodedBytes` -/
def encodedBytes (text : Text) : Nat := Tools.serializedBytes numeral (.string text)

def serializedBytes (content : List ContentPart) : Nat :=
  Tools.serializedBytes numeral (.array (content.map ContentPart.value))

def fittedHead (text : Text) (maxBytes maxLength : Nat) : Text :=
  let whole := text.toWellFormed
  if whole.length ≤ maxLength ∧ encodedBytes numeral whole ≤ maxBytes then whole
  else
    let low := searchHead (fun middle => encodedBytes numeral (whole.take middle ++ [ellipsis]) ≤ maxBytes)
      0 (min whole.length (maxLength - 1))
    whole.take (surrogateSafeCut whole low) ++ [ellipsis]

def fittedTail (text : Text) (truncated : Bool) (maxBytes : Nat) : Text :=
  let marked (value : Text) := if truncated then ellipsis :: value else value
  let whole := text.toWellFormed
  if encodedBytes numeral (marked whole) ≤ maxBytes then marked whole
  else
    let low := searchTail (fun middle => encodedBytes numeral (ellipsis :: text.drop middle) ≤ maxBytes)
      0 text.length
    -- Never begin inside a surrogate pair.
    let start := if (text[low]?).any isLowSurrogate then low + 1 else low
    ellipsis :: Text.toWellFormed (text.drop start)

def budget : Nat := messageContentMaxSerializedBytes - 1024

def fitsPart : ContentPart → Bool
  | .text _ words _ => words.length ≤ messageTextPartMaxLength && words.isWellFormed
  | .other _ => true

/-- `texts`: the bytes of each text, by where it is. -/
def texts (parts : List ContentPart) : List (Nat × Nat) :=
  (parts.zipIdx.filterMap fun (part, index) =>
    part.text?.map fun text => (encodedBytes numeral text - 2, index)).mergeSort
      fun left right => left.1 ≤ right.1

end

/-- What each text is given of the bytes, the shorter ones first. -/
def allotted : Nat → List (Nat × Nat) → List (Nat × Nat)
  | _, [] => []
  | available, (bytes, index) :: texts =>
    let share := available / (texts.length + 1)
    let given := min bytes share
    (index, given) :: allotted (available - given) texts

/-- `allotted.get(index) ?? 0` -/
def given (allotted : List (Nat × Nat)) (index : Nat) : Nat :=
  ((allotted.find? fun entry => entry.1 = index).map Prod.snd).getD 0

def fittedContent (numeral : Rat → List Char) (content : List ContentPart) : List ContentPart :=
  if content.all fitsPart ∧ serializedBytes numeral content ≤ budget then content
  else
    let parts := content.map (ContentPart.mapText fun text =>
      fittedHead numeral text maxSafeInteger messageTextPartMaxLength)
    if serializedBytes numeral parts ≤ budget then parts
    else
      let structure_ := serializedBytes numeral (parts.map (ContentPart.mapText fun _ => []))
      let allotted := allotted (budget - structure_) (texts numeral parts)
      parts.zipIdx.map fun (part, index) => part.mapText fun text =>
        fittedHead numeral text (given allotted index + 2) messageTextPartMaxLength

end Opensteer.Fitting
