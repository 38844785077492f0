import Mathlib.Data.List.DropRight
import Opensteer.Core.Live

/-!
# Texts

The methods of JavaScript's strings that the modelled code calls, on lists of UTF-16 units.
-/

namespace Opensteer

/-- What `trim` takes away: the language's white space and line terminators. -/
def isWhiteSpace (unit : UInt16) : Bool :=
  unit ∈ ([0x9, 0xa, 0xb, 0xc, 0xd, 0x20, 0xa0, 0x1680, 0x2028, 0x2029, 0x202f, 0x205f, 0x3000, 0xfeff] : List UInt16) ||
    (0x2000 ≤ unit && unit ≤ 0x200a)

namespace Text

def trimStart (text : Text) : Text := text.dropWhile isWhiteSpace

def trimEnd (text : Text) : Text := text.rdropWhile isWhiteSpace

def trim (text : Text) : Text := trimEnd (trimStart text)

/-- Where a position that may be counted from the end is. -/
def position (text : Text) (i : Int) : Nat := (if i < 0 then max (text.length + i) 0 else i).toNat

def slice (text : Text) (start stop : Int) : Text := (text.take (text.position stop)).drop (text.position start)

/-- `slice` to the end. -/
def sliceFrom (text : Text) (start : Int) : Text := text.drop (text.position start)

/-- Where a text last starts at or before a position. -/
def lastIndexOf (text search : Text) (position : Nat) : Int :=
  match (List.range (min position text.length + 1)).reverse.find? fun i => search.isPrefixOf (text.drop i) with
  | some i => i
  | none => -1

/-- The lower case of a unit. The sign of the kelvin is the only one beside A to Z whose lower case is of
ASCII; the others are left as they are, which makes no difference to a name of ASCII. -/
def lowerUnit (unit : UInt16) : UInt16 :=
  if 0x41 ≤ unit ∧ unit ≤ 0x5a then unit + 0x20 else if unit = 0x212a then 0x6b else unit

def toLowerCase (text : Text) : Text := text.map lowerUnit

/-- What `compareTo`, and `<` on strings, do not put the other way round. -/
def inOrder (text text' : Text) : Bool := decide (text ≤ text')

@[simp] theorem position_natCast (text : Text) (n : Nat) : text.position n = n := by
  rw [position, if_neg (by omega), Int.toNat_natCast]

@[simp] theorem slice_natCast (text : Text) (start stop : Nat) : text.slice start stop = (text.take stop).drop start := by
  rw [slice, position_natCast, position_natCast]

@[simp] theorem slice_zero_natCast (text : Text) (stop : Nat) : text.slice 0 stop = text.take stop :=
  slice_natCast text 0 stop

@[simp] theorem sliceFrom_natCast (text : Text) (start : Nat) : text.sliceFrom start = text.drop start := by
  rw [sliceFrom, position_natCast]

end Text

end Opensteer
