import QueryEditor.Binary64.Basic

namespace QueryEditor.Binary64

structure Decimal where
  digits : Nat
  exponent : Int
  deriving DecidableEq, Repr

def digitCount (n : Nat) : Nat :=
  (Nat.toDigits 10 n).length

def leadingPower (count : Nat) : Int :=
  let whole := count / unitsInOne
  if whole = 0 then -digitCount ((unitsInOne - 1) / count) else digitCount whole - 1

/-- The two neighbours of `count` units among the multiples of ten to the power `power`, the nearer
one first; of two that are equally near, the upper. -/
def neighbours (count : Nat) (power : Int) : List Decimal :=
  let numerator := if power < 0 then count * Nat.pow 10 (-power).toNat else count
  let denominator := if power < 0 then unitsInOne else unitsInOne * Nat.pow 10 power.toNat
  let below := numerator / denominator
  if 2 * (numerator % denominator) < denominator then [⟨below, power⟩, ⟨below + 1, power⟩]
  else [⟨below + 1, power⟩, ⟨below, power⟩]

def exactDecimal (count : Nat) : Decimal :=
  ⟨count * Nat.pow 5 1074, -1074⟩

/-- The fewest digits that read back as the magnitude of this rank, and the nearest of those. -/
def shortest (rank : Nat) : Decimal :=
  let count := units rank
  let leading := leadingPower count
  let candidates := (List.range 17).flatMap fun (places : Nat) => neighbours count (leading - places)
  let readsBack := fun (d : Decimal) =>
    ofDecimal false d.digits d.exponent == ofRank false rank
  (candidates.find? readsBack).getD (exactDecimal count)

def zeros (count : Nat) : List Char :=
  List.replicate count '0'

def Decimal.significant (d : Decimal) : List Char × Int :=
  let spelled := Nat.toDigits 10 d.digits
  ((spelled.reverse.dropWhile (· == '0')).reverse, d.exponent + spelled.length - 1)

def layout (digits : List Char) (power : Int) : List Char :=
  if power < -4 || 16 ≤ power then
    let fraction := if digits.length ≤ 1 then [] else '.' :: digits.drop 1
    digits.take 1 ++ fraction ++ 'e' :: (toString power).toList
  else if power < 0 then
    '0' :: '.' :: (zeros ((-power).toNat - 1) ++ digits)
  else
    let places := power.toNat + 1
    let fraction := digits.drop places
    digits.take places ++ zeros (places - digits.length) ++
      '.' :: (if fraction.isEmpty then ['0'] else fraction)

def text : Binary64 → String
  | finite negative rank =>
    let (digits, power) := (shortest rank).significant
    let magnitude := if rank.val = 0 then ['0', '.', '0'] else layout digits power
    String.ofList (if negative then '-' :: magnitude else magnitude)
  | infinite negative => if negative then "-inf" else "inf"
  | notANumber => "NaN"

end QueryEditor.Binary64
