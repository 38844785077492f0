import Opensteer.Passwords.CSV
import Opensteer.Passwords.JsonCanonical

/-!
# How a table is written

RFC 4180, with what the parser takes besides: a table is written as lines, each some fields and the line ends
behind them, of which those after the first are blank lines. Only the last line may have none.
-/

namespace Opensteer.Passwords

namespace CSVParser

/-- The characters that an unquoted field may not have. -/
def reserved : List Char := ['"', ',', ';', '\r', '\n']

def doubled (c : Char) : Scalars := if c = '"' then ['"', '"'] else [c]

/-- A field as it is written. One that is not quoted has no reserved character. -/
structure Field where
  text : Scalars
  quoted : Bool
  proper : quoted = false → ∀ c ∈ text, c ∉ reserved

def Field.written (f : Field) : Scalars :=
  if f.quoted then '"' :: (f.text.flatMap doubled ++ ['"']) else f.text

inductive Delimiter
  | comma
  | semicolon
deriving DecidableEq, Repr

namespace Delimiter

def char : Delimiter → Char
  | comma => ','
  | semicolon => ';'

def byte : Delimiter → UInt8
  | comma => CSVParser.comma
  | semicolon => CSVParser.semicolon

end Delimiter

inductive LineEnd
  | lf
  | crlf
deriving DecidableEq, Repr

def LineEnd.written : LineEnd → Scalars
  | lf => ['\n']
  | crlf => ['\r', '\n']

structure Line where
  fields : List Field
  ends : List LineEnd

def writeFields (delimiter : Delimiter) : List Field → Scalars
  | [] => []
  | [f] => f.written
  | f :: fs => f.written ++ delimiter.char :: writeFields delimiter fs

namespace Line

def cells (line : Line) : List Scalars := line.fields.map Field.text

/-- The rows of a spreadsheet that it takes, blank ones counted. -/
def rows (line : Line) : Nat := max 1 line.ends.length

def written (delimiter : Delimiter) (line : Line) : Scalars :=
  writeFields delimiter line.fields ++ line.ends.flatMap LineEnd.written

end Line

structure Rendering where
  bom : Bool
  delimiter : Delimiter
  header : Line
  body : List Line
  ended : ∀ line ∈ (header :: body).dropLast, line.ends ≠ []
  wide : delimiter = .semicolon → 2 ≤ header.fields.length

/-- The records of lines, of which the first is in row `row`. -/
def numbered : Nat → List Line → List CSVTable.Record
  | _, [] => []
  | row, line :: lines => ⟨row, line.cells, false⟩ :: numbered (row + line.rows) lines

namespace Rendering

def lines (r : Rendering) : Scalars := (r.header :: r.body).flatMap (Line.written r.delimiter)

def written (r : Rendering) : Scalars := (if r.bom then ['\uFEFF'] else []) ++ r.lines

def rows (r : Rendering) : Nat := ((r.header :: r.body).map Line.rows).sum

def records (r : Rendering) : List CSVTable.Record := numbered (r.header.rows + 1) r.body

/-- It is one of these records. -/
def Renders (r : Rendering) (header : List Scalars) (records : List (List Scalars)) : Prop :=
  r.header.cells = header ∧ r.body.map Line.cells = records

/-- The limits of an import. -/
structure Within (r : Rendering) : Prop where
  bytes : (utf8 r.written).length ≤ ImportLimits.maxInputBytes
  rows : r.rows ≤ ImportLimits.maxRows + 1
  columns : r.header.cells.length ≤ ImportLimits.maxColumns
  cells : r.body.length * r.header.cells.length ≤ ImportLimits.maxCells

/-- It is told from one with a byte order mark: it has the mark, or its text does not begin with one. -/
def Marked (r : Rendering) : Prop := r.bom = true ∨ r.lines.head? ≠ some '\uFEFF'

end Rendering

/-! ## The bytes of what is written -/

/-- A byte of ASCII in a text is one of its characters. -/
theorem mem_of_mem_utf8 {c : Char} {byte : UInt8} {text : Scalars} (hc : utf8 [c] = [byte]) (hascii : byte < 0x80)
    (h : byte ∈ utf8 text) : c ∈ text := by
  obtain ⟨c', hmem, hbyte⟩ := List.mem_flatMap.mp h
  rcases utf8EncodeChar_ascii c' with ⟨byte', -, hbyte'⟩ | hhigh
  · rw [hbyte', List.mem_singleton] at hbyte
    have heq : utf8 [c] = utf8 [c'] := by
      rw [hc, hbyte, utf8, List.flatMap_singleton, hbyte']
    rw [List.singleton_inj.mp (utf8_injective heq)]
    exact hmem
  · exact absurd (UInt8.lt_of_lt_of_le hascii (hhigh byte hbyte)) (UInt8.lt_irrefl byte)

/-- No byte that the parser looks for. -/
def Plain (bytes : List UInt8) : Prop := ∀ byte ∈ bytes, byte ∉ ([quote, comma, semicolon, cr, lf] : List UInt8)

theorem plain_utf8 {text : Scalars} (h : ∀ c ∈ text, c ∉ reserved) : Plain (utf8 text) := by
  intro byte hbyte hmem
  have hnot : ∀ c ∈ reserved, utf8 [c] = [byte] → byte < 0x80 → False := fun c hc hutf8 hascii =>
    h c (mem_of_mem_utf8 hutf8 hascii hbyte) hc
  simp only [List.mem_cons, List.not_mem_nil, or_false] at hmem
  rcases hmem with rfl | rfl | rfl | rfl | rfl
  · exact hnot '"' (by decide) (by decide) (by decide)
  · exact hnot ',' (by decide) (by decide) (by decide)
  · exact hnot ';' (by decide) (by decide) (by decide)
  · exact hnot '\r' (by decide) (by decide) (by decide)
  · exact hnot '\n' (by decide) (by decide) (by decide)

theorem quote_not_mem {c : Char} (h : c ≠ '"') : ∀ byte ∈ utf8 [c], byte ≠ quote := by
  intro byte hbyte heq
  have hmem := mem_of_mem_utf8 (c := '"') (by decide) (by decide) (heq ▸ hbyte)
  exact h (List.mem_singleton.mp hmem).symm

@[simp] theorem utf8_nil : utf8 [] = [] := rfl

theorem utf8_cons (c : Char) (text : Scalars) : utf8 (c :: text) = utf8 [c] ++ utf8 text := by
  rw [← utf8_append, List.singleton_append]

theorem utf8_eq_nil {text : Scalars} : utf8 text = [] ↔ text = [] :=
  ⟨fun h => utf8_injective (h.trans utf8_nil.symm), fun h => h ▸ rfl⟩

/-- The bytes that start with a byte order mark are a text that does. -/
theorem head?_of_byteOrderMark {text : Scalars} (h : byteOrderMark <+: utf8 text) : text.head? = some '\uFEFF' := by
  obtain ⟨tail, htail⟩ := h
  cases text with
  | nil => cases htail
  | cons c text =>
    have hdecode (c : Char) (bytes : List UInt8) :
        (utf8 [c] ++ bytes).toByteArray.utf8DecodeChar? 0 = some c := by
      rw [List.toByteArray_append]
      exact List.utf8DecodeChar?_utf8Encode_singleton_append
    have hmark := hdecode '\uFEFF' tail
    rw [show utf8 ['\uFEFF'] = byteOrderMark by decide, htail, utf8_cons, hdecode] at hmark
    exact hmark

end CSVParser

end Opensteer.Passwords
