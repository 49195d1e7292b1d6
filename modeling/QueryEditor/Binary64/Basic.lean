namespace QueryEditor

def Binary64.rankCount : Nat :=
  2047 * Nat.pow 2 52

inductive Binary64 where
  | finite (negative : Bool) (rank : Fin Binary64.rankCount)
  | infinite (negative : Bool)
  | notANumber
  deriving DecidableEq, Repr

namespace Binary64

def isFinite : Binary64 → Bool
  | finite _ _ => true
  | _ => false

def binade : Nat :=
  Nat.pow 2 52

def unitsInOne : Nat :=
  Nat.pow 2 1074

/-- Every finite magnitude is a whole number of units of 2 ^ -1074: a significand below 2 ^ 53
times a power of two. -/
def units (rank : Nat) : Nat :=
  if rank < binade then rank
  else (binade + rank % binade) * Nat.pow 2 (rank / binade - 1)

def nearest (numerator denominator : Nat) : Nat :=
  let quotient := numerator / denominator
  let rest := numerator % denominator
  if 2 * rest < denominator then quotient
  else if denominator < 2 * rest then quotient + 1
  else quotient + quotient % 2

/-- The rank of the magnitude nearest to a ratio, reckoned as though ranks went on for ever. A
significand rounded up to 2 ^ 53 lands on the first rank of the next power of two. -/
def nearestRank (numerator denominator : Nat) : Nat :=
  let scaled := numerator * unitsInOne
  let shift := (scaled / denominator).log2 - 52
  shift * binade + nearest scaled (denominator * Nat.pow 2 shift)

def ofRank (negative : Bool) (rank : Nat) : Binary64 :=
  if h : rank < rankCount then finite negative ⟨rank, h⟩ else infinite negative

/-- The number nearest to `significand` times ten to the power `exponent`. Beyond 400 places on
either side of the point the answer is infinity or zero, whatever the digits are. -/
def ofDecimal (negative : Bool) (significand : Nat) (exponent : Int) : Binary64 :=
  let place := exponent + (Nat.toDigits 10 significand).length
  if significand = 0 || place < -400 then finite negative ⟨0, by decide⟩
  else if 400 < place then infinite negative
  else if 0 ≤ exponent then ofRank negative (nearestRank (significand * Nat.pow 10 exponent.toNat) 1)
  else ofRank negative (nearestRank significand (Nat.pow 10 (-exponent).toNat))

end Binary64

end QueryEditor
