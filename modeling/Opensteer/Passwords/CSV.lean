import Opensteer.Passwords.Json

/-!
# CSV

`Import/CSV.swift`: the parser goes through the bytes once and keeps what it has read in `Reading`. Where the
code looks at the byte behind the one it is at, so does the model, by the list of what is not read yet.
-/

namespace Opensteer.Passwords

/-- The errors of `ImportTypes.swift` that the parser throws. -/
inductive ImportError
  | notUTF8
  | tooLarge
  | tooManyRows
  | tooManyColumns
  | tooManyCells
  | malformedCSV (row : Nat)
  | emptyFile
deriving DecidableEq, Repr

namespace ImportLimits

def maxInputBytes : Nat := 16 * 2 ^ 20

def maxRows : Nat := 20000

def maxColumns : Nat := 1024

def maxCells : Nat := 1000000

end ImportLimits

namespace CSVTable

structure Record where
  row : Nat
  cells : List Scalars
  widthMismatch : Bool := false
deriving DecidableEq, Repr

end CSVTable

structure CSVTable where
  header : List Scalars
  records : List CSVTable.Record
deriving DecidableEq, Repr

namespace CSVParser

open ImportLimits

def quote : UInt8 := 0x22

def comma : UInt8 := 0x2c

def semicolon : UInt8 := 0x3b

def cr : UInt8 := 0x0d

def lf : UInt8 := 0x0a

def byteOrderMark : List UInt8 := [0xef, 0xbb, 0xbf]

/-! ## The delimiter -/

structure Detection where
  quoted : Bool := false
  sawComma : Bool := false
  sawSemicolon : Bool := false
deriving DecidableEq, Repr

namespace Detection

/-- `quoted.toggle()`, at a quote. -/
def toggled (byte : UInt8) (d : Detection) : Detection := if byte = quote then { d with quoted := !d.quoted } else d

def saw (byte : UInt8) (d : Detection) : Detection :=
  { d with sawComma := d.sawComma || byte == comma, sawSemicolon := d.sawSemicolon || byte == semicolon }

def scan : List UInt8 → Detection → Detection
  | [], d => d
  | byte :: bytes, d =>
    if (d.toggled byte).quoted then scan bytes (d.toggled byte)
    else if byte = lf then d.toggled byte
    else scan bytes ((d.toggled byte).saw byte)

end Detection

def detectDelimiter (bytes : List UInt8) : UInt8 :=
  let d := Detection.scan bytes {}
  if !d.sawComma && d.sawSemicolon then semicolon else comma

/-! ## Records -/

/-- The variables of `parse`. -/
structure Reading where
  header : Option (List Scalars) := none
  body : List CSVTable.Record := []
  record : List Scalars := []
  cellCount : Nat := 0
  recordCount : Nat := 0
  storedCells : Nat := 0
  field : List UInt8 := []
  atFieldStart : Bool := true
  quoted : Bool := false
deriving DecidableEq, Repr

variable (repair : List UInt8 → Scalars)

namespace Reading

def append (s : Reading) (byte : UInt8) : Reading := { s with field := s.field ++ [byte] }

def endField (s : Reading) : Except ImportError Reading :=
  let s := { s with cellCount := s.cellCount + 1 }
  if ¬ s.cellCount ≤ maxColumns then .error .tooManyColumns
  else if s.header.any fun header => header.length < s.cellCount then .ok { s with field := [] }
  else .ok { s with record := s.record ++ [decoding repair s.field], field := [] }

/-- The record that has ended is the header, is none (a blank line), or is one of the body. -/
def keepRecord (s : Reading) : Except ImportError Reading :=
  match s.header with
  | none => .ok { s with header := some s.record }
  | some header =>
    if s.cellCount = 1 ∧ s.record = [[]] then .ok s
    else if s.cellCount ≠ header.length then .ok { s with body := s.body ++ [⟨s.recordCount, [], true⟩] }
    else
      let s := { s with storedCells := s.storedCells + s.record.length }
      if ¬ s.storedCells ≤ maxCells then .error .tooManyCells
      else .ok { s with body := s.body ++ [⟨s.recordCount, s.record, false⟩] }

def endRecord (s : Reading) : Except ImportError Reading := do
  let s ← s.endField repair
  let s := { s with recordCount := s.recordCount + 1 }
  if ¬ s.recordCount ≤ maxRows + 1 then throw .tooManyRows
  let s ← s.keepRecord
  return { s with record := [], cellCount := 0 }

end Reading

/-! ## The parser -/

/-- What may stand behind the quote that ends a field. -/
def closes (delimiter : UInt8) : List UInt8 → Bool
  | [] => true
  | byte :: rest => byte == delimiter || byte == lf || byte == cr && rest.head? == some lf

variable (delimiter : UInt8)

/-- The loop of `parse`, at the bytes that are not read yet. -/
def loop : List UInt8 → Reading → Except ImportError Reading
  | [], s => .ok s
  | byte :: rest, s =>
    if s.quoted then
      if byte = quote then
        match rest with
        | [] => .ok { s with quoted := false }
        | next :: rest =>
          if next = quote then loop rest (s.append byte)
          else if closes delimiter (next :: rest) then loop (next :: rest) { s with quoted := false }
          else .error (.malformedCSV (s.recordCount + 1))
      else loop rest (s.append byte)
    else if s.atFieldStart ∧ byte = quote then loop rest { s with quoted := true, atFieldStart := false }
    else
      let s := { s with atFieldStart := false }
      if byte = delimiter then do
        let s ← s.endField repair
        loop rest { s with atFieldStart := true }
      else if byte = lf then do
        let s ← s.endRecord repair
        loop rest { s with atFieldStart := true }
      else
        match rest with
        | [] => .ok (s.append byte)
        | next :: rest =>
          if byte = cr ∧ next = lf then do
            let s ← s.endRecord repair
            loop rest { s with atFieldStart := true }
          else loop (next :: rest) (s.append byte)

theorem loop_within {s : Reading} {byte : UInt8} {rest : List UInt8} (hbyte : byte ≠ quote) (hquoted : s.quoted = true) :
    loop repair delimiter (byte :: rest) s = loop repair delimiter rest (s.append byte) := by
  conv_lhs => unfold loop
  rw [if_pos hquoted, if_neg hbyte]

/-- What the end of the bytes ends. -/
def finish (s : Reading) : Except ImportError Reading :=
  if s.quoted then .error (.malformedCSV (s.recordCount + 1))
  else if !s.atFieldStart || s.record ≠ [] || s.field ≠ [] || 0 < s.cellCount then s.endRecord repair
  else .ok s

def table (s : Reading) : Except ImportError CSVTable :=
  match s.header with
  | some header => if header.any (· ≠ []) then .ok ⟨header, s.body⟩ else .error .emptyFile
  | none => .error .emptyFile

def parse (data : List UInt8) : Except ImportError CSVTable := do
  if ¬ data.length ≤ maxInputBytes then throw .tooLarge
  let bytes := if byteOrderMark.isPrefixOf data then data.drop 3 else data
  if (UTF8Text.decode repair bytes).isNone then throw .notUTF8
  let s ← loop repair (detectDelimiter bytes) bytes {}
  let s ← finish repair s
  table s

end CSVParser

end Opensteer.Passwords
