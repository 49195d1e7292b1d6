namespace QueryEditor.Text

structure CodeRange where
  first : Nat
  last : Nat
  deriving DecidableEq, Repr

def CodeRange.contains (range : CodeRange) (code : Nat) : Bool :=
  range.first ≤ code && code ≤ range.last

def liesIn (ranges : List CodeRange) (c : Char) : Bool :=
  ranges.any (·.contains c.toNat)

end QueryEditor.Text
