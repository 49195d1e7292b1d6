namespace QueryEditor.Naming

/-- The first candidate from number `start` on that is not taken, or the candidate `tries` further
on. With as many tries as there are names taken, the answer is always unused. -/
def firstUnused (candidate : Nat → String) (taken : List String) : (tries start : Nat) → String
  | 0, start => candidate start
  | tries + 1, start =>
    if taken.contains (candidate start) then firstUnused candidate taken tries (start + 1)
    else candidate start

def numbered (stem : String) (number : Nat) : String :=
  if number = 0 then stem else stem ++ toString number

def extending (stem : String) (taken : List String) : Nat :=
  taken.countP fun name => stem.toList.isPrefixOf name.toList

/-- An unused name that starts with the stem. Numbers count up from how many of the names taken
start with it already. -/
def unique (stem : String) (taken : List String) : String :=
  firstUnused (numbered stem) taken taken.length (extending stem taken)

end QueryEditor.Naming
