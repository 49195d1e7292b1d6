import QueryEditor.Token.Basic

namespace QueryEditor

abbrev Reader (α : Type) := List Lexeme → Option (α × List Lexeme)

namespace Reader

variable {τ α : Type}

def symbol (mark : Symbol) : Reader Unit
  | ⟨.symbol other, _⟩ :: rest => if other = mark then some ((), rest) else none
  | _ => none

def name : Reader String
  | ⟨.name text, _⟩ :: rest => some (text, rest)
  | _ => none

def keyword (word : String) : Reader Unit
  | ⟨.name text, _⟩ :: rest => if text = word then some ((), rest) else none
  | _ => none

def startsWith (mark : Symbol) : List Lexeme → Bool
  | ⟨.symbol other, _⟩ :: _ => other == mark
  | _ => false

def startsWithName : List Lexeme → Bool
  | ⟨.name _, _⟩ :: _ => true
  | _ => false

def startsWithWord (word : String) : List Lexeme → Bool
  | ⟨.name text, _⟩ :: _ => text == word
  | _ => false

def followsDirectly : List Lexeme → Bool
  | [] => true
  | next :: _ => !next.afterComma

/-- Reads as long as the tokens start as `goesOn` says; each round takes a token at least. -/
def rounds (goesOn : List τ → Bool) (read : List τ → Option (α × List τ)) :
    Nat → List τ → Option (List α × List τ)
  | 0, tokens => if goesOn tokens then none else some ([], tokens)
  | steps + 1, tokens =>
    if goesOn tokens then do
      let (first, rest) ← read tokens
      let (others, after) ← rounds goesOn read steps rest
      some (first :: others, after)
    else some ([], tokens)

def many (goesOn : List τ → Bool) (read : List τ → Option (α × List τ)) (tokens : List τ) :
    Option (List α × List τ) :=
  rounds goesOn read tokens.length tokens

def closedBy (close : Symbol) (read : Reader α) : Reader (List α) := fun tokens => do
  let (items, rest) ← many (!startsWith close ·) read tokens
  let (_, after) ← symbol close rest
  some (items, after)

def someClosedBy (close : Symbol) (read : Reader α) : Reader (List α) := fun tokens => do
  let (items, rest) ← closedBy close read tokens
  if items.isEmpty then none else some (items, rest)

def whenever (present : List Lexeme → Bool) (absent : α) (read : Reader α) : Reader α := fun tokens =>
  if present tokens then read tokens else some (absent, tokens)

end Reader

end QueryEditor
