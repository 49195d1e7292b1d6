import QueryEditor.Text.Bytes
import QueryEditor.Text.Digits

namespace QueryEditor.Numeral

open Text

def isSign (c : Char) : Bool :=
  c == '+' || c == '-'

def isPoint (c : Char) : Bool :=
  c == '.'

def isExponentMark (c : Char) : Bool :=
  c == 'e' || c == 'E'

def signEnd (bytes : List UInt8) (offset : Nat) : Nat :=
  if byteAt isSign bytes offset then offset + 1 else offset

def digitsFrom (bytes : List UInt8) (offset : Nat) : Except OutOfRange Nat := do
  let (_, behind) ← cut bytes offset
  return (behind.takeWhile (byteIn isDigit)).length

/-- The number of digits behind a point, and where these end. A point with no digit on either side is
left where it is. -/
def fractionEnd (bytes : List UInt8) (whole offset : Nat) : Except OutOfRange (Nat × Nat) := do
  if byteAt isPoint bytes offset then
    let places ← digitsFrom bytes (offset + 1)
    return (places, if whole = 0 && places = 0 then offset else offset + 1 + places)
  else return (0, offset)

def exponentEnd (bytes : List UInt8) (offset : Nat) : Except OutOfRange Nat := do
  if byteAt isExponentMark bytes offset then
    let unsigned := signEnd bytes (offset + 1)
    let places ← digitsFrom bytes (min unsigned bytes.length)
    return if places = 0 then offset else unsigned + places
  else return offset

/-- Where the longest numeral at the start of some bytes ends, if they start with one. -/
def extent (bytes : List UInt8) : Except OutOfRange (Option Nat) := do
  let unsigned := signEnd bytes 0
  let whole ← digitsFrom bytes unsigned
  let (places, offset) ← fractionEnd bytes whole (unsigned + whole)
  if whole = 0 && places = 0 then return none
  else return some (← exponentEnd bytes offset)

end QueryEditor.Numeral
