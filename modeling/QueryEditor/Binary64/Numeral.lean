import QueryEditor.Binary64.Basic
import QueryEditor.Text.Digits

namespace QueryEditor

open Text

/-- The parts of a decimal numeral. A fraction is there when a point was written, and may be
without digits then. -/
structure Numeral where
  negative : Bool
  whole : List Char
  fraction : Option (List Char)
  exponent : Option Int
  deriving DecidableEq

namespace Numeral

def sign : List Char → Bool × List Char
  | '-' :: rest => (true, rest)
  | '+' :: rest => (false, rest)
  | text => (false, text)

def digits (text : List Char) : List Char × List Char :=
  (text.takeWhile isDigit, text.dropWhile isDigit)

/-- Takes a point and the digits after it. A point counts only beside a digit. -/
def fractionAfter (whole : List Char) : List Char → Option (List Char) × List Char
  | '.' :: rest =>
    let (places, after) := digits rest
    if whole.isEmpty && places.isEmpty then (none, '.' :: rest) else (some places, after)
  | text => (none, text)

def exponentAfter : List Char → Option Int × List Char
  | [] => (none, [])
  | mark :: rest =>
    if mark = 'e' || mark = 'E' then
      let (negative, unsigned) := sign rest
      let (places, after) := digits unsigned
      if places.isEmpty then (none, mark :: rest)
      else (some (if negative then -decimalValue places else decimalValue places), after)
    else (none, mark :: rest)

/-- The longest numeral that a text starts with, and what follows it. -/
def longest? (text : List Char) : Option (Numeral × List Char) :=
  let (negative, unsigned) := sign text
  let (whole, afterWhole) := digits unsigned
  let (fraction, afterFraction) := fractionAfter whole afterWhole
  if whole.isEmpty && fraction.isNone then none
  else
    let (exponent, after) := exponentAfter afterFraction
    some (⟨negative, whole, fraction, exponent⟩, after)

def isWhole (n : Numeral) : Bool :=
  n.fraction.isNone && n.exponent.isNone

def isPlain (n : Numeral) : Bool :=
  (n.whole == ['0'] || (!n.whole.isEmpty && n.whole.head? != some '0')) && n.fraction != some []

def toInt (n : Numeral) : Int :=
  if n.negative then -decimalValue n.whole else decimalValue n.whole

def toBinary64 (n : Numeral) : Binary64 :=
  let places := n.fraction.getD []
  Binary64.ofDecimal n.negative (decimalValue (n.whole ++ places))
    (n.exponent.getD 0 - places.length)

end Numeral

def Binary64.ofText? (text : List Char) : Option Binary64 :=
  let (negative, unsigned) := Numeral.sign text
  match String.ofList (unsigned.map Char.toLower) with
  | "inf" | "infinity" => some (infinite negative)
  | "nan" => some notANumber
  | _ =>
    match Numeral.longest? text with
    | some (numeral, []) => some numeral.toBinary64
    | _ => none

end QueryEditor
