import QueryEditor.Binary64.Numeral

namespace QueryEditor

namespace Numeral

open Text

def appendFitting (number : Nat) : List Char → Nat × Nat
  | [] => (number, 0)
  | c :: rest =>
    let longer := 10 * number + digitValue c
    if longer < Nat.pow 2 64 then
      let (result, count) := appendFitting longer rest
      (result, count + 1)
    else (number, 0)

/-- The leading digits as a whole number, with the power of ten that they are to be multiplied by.
Digits after the point are appended even where some in front of it found no room. -/
def leading (n : Numeral) : Nat × Int :=
  let (whole, kept) := appendFitting 0 n.whole
  let (significand, places) := appendFitting whole (n.fraction.getD [])
  (significand, n.exponent.getD 0 + n.whole.length - kept - places)

end Numeral

namespace Binary64

def powerRank (places : Nat) : Nat :=
  nearestRank (Nat.pow 10 places) 1

def timesPower (rank places : Nat) : Nat :=
  nearestRank (units rank * units (powerRank places)) (unitsInOne * unitsInOne)

def overPower (rank places : Nat) : Nat :=
  nearestRank (units rank) (units (powerRank places))

def maxPower : Nat :=
  308

/-- The rank of a whole number of 64 bits times a power of ten. Two divisions by the largest power
leave nothing of such a number. -/
def scaledRank? (rank : Nat) (exponent : Int) : Option Nat :=
  let places := exponent.natAbs
  if rank = 0 then some 0
  else if 0 ≤ exponent then
    if places ≤ maxPower then some (timesPower rank places) else none
  else if places ≤ maxPower then some (overPower rank places)
  else if places ≤ 2 * maxPower then some (overPower (overPower rank maxPower) (places - maxPower))
  else some 0

end Binary64

def Numeral.stepwise? (n : Numeral) : Option Binary64 := do
  let (significand, exponent) := n.leading
  let rank ← Binary64.scaledRank? (Binary64.nearestRank significand 1) exponent
  let x := Binary64.ofRank n.negative rank
  if x.isFinite then some x else none

end QueryEditor
