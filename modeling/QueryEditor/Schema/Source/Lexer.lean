import QueryEditor.Schema.Location
import QueryEditor.Text.Blank
import QueryEditor.Token.Lexer

namespace QueryEditor

structure PlacedToken where
  token : Token
  position : Position
  deriving DecidableEq

namespace PlacedToken

open Text

def maxOpen : Nat :=
  50

def behind (position : Position) : List Char → Position
  | [] => position
  | c :: rest =>
    if c = '\n' then behind ⟨position.line + 1, 1⟩ rest
    else behind ⟨position.line, position.column + 1⟩ rest

def blankWidth? : Char → Option Nat
  | ' ' => some 1
  | ',' => some 1
  | '\t' => some 8
  | '\r' => some 0
  | '\uFEFF' => some 0
  | _ => none

def endsNumber (c : Char) : Bool :=
  c == '\n' || c == '#' || (Symbol.ofChar? c).isSome ||
    c == ' ' || c == ',' || c == '\t' || c == '\r'

/-- An exponent starts with a sign or with one of the digits 1 to 8. -/
def exponentOk (lexeme : List Char) : Bool :=
  match lexeme.dropWhile fun c => c != 'e' && c != 'E' with
  | _ :: first :: _ => first == '-' || first == '+' || ('1' ≤ first && first ≤ '8')
  | _ => true

def number? (lexeme : List Char) : Option Token :=
  match Numeral.longest? lexeme with
  | some (numeral, []) =>
    if numeral.isPlain && exponentOk lexeme then
      if numeral.isWhole then
        match Token.ofNumeral numeral with
        | .int number => some (.int number)
        | _ => none
      else some (.float numeral.toBinary64)
    else none
  | _ => none

def quotedRaw? : List Char → Option (List Char × List Char)
  | [] => none
  | '"' :: rest => some ([], rest)
  | '\\' :: c :: rest =>
    if c = '\n' then none
    else (quotedRaw? rest).map fun (raw, after) => ('\\' :: c :: raw, after)
  | c :: rest =>
    if c = '\n' then none else (quotedRaw? rest).map fun (raw, after) => (c :: raw, after)

/-- What a letter after a backslash stands for; a `b` stands for the control character 16. -/
def simpleEscape? (c : Char) : Option Char :=
  if c = 'b' then some '\x10' else Token.simpleEscape? c

/-- The scalar value that four characters spell in hexadecimal; a plus sign may be the first. -/
def codePoint? (a b c d : Char) : Option Char := do
  scalar? (← hexadecimal? (if a = '+' then [b, c, d] else [a, b, c, d]))

def unquote? : List Char → Option (List Char)
  | [] => some []
  | '\\' :: 'u' :: a :: b :: c :: d :: rest => do
    let first ← codePoint? a b c d
    let others ← unquote? rest
    some (first :: others)
  | ['\\'] => none
  | '\\' :: c :: rest => do
    let first ← simpleEscape? c
    let others ← unquote? rest
    some (first :: others)
  | c :: rest => (unquote? rest).map (c :: ·)

/-- In schemas a line ends at a line feed, every kind of white space indents, and a line that has
less than the common indentation keeps what it has. -/
def blockText : BlockText where
  returnEndsLine := false
  isIndent := isBlank
  keepsShortLines := true

def text (content : List Char) : Token :=
  .string (String.ofList content)

def first? : List Char → Option (Token × List Char × List Char)
  | [] => none
  | '.' :: rest =>
    match rest with
    | '.' :: '.' :: after => some (.symbol .ellipsis, ['.', '.', '.'], after)
    | _ => none
  | '"' :: '"' :: '"' :: rest => do
    let (raw, after) ← BlockText.raw? rest
    let quotes := ['"', '"', '"']
    some (text (blockText.content raw), quotes ++ raw ++ quotes, after)
  | '"' :: rest => do
    let (raw, after) ← quotedRaw? rest
    some (text (← unquote? raw), '"' :: raw ++ ['"'], after)
  | c :: rest =>
    match Symbol.ofChar? c with
    | some mark => some (.symbol mark, [c], rest)
    | none =>
      if isNameStart c then
        let lexeme := c :: rest.takeWhile isNamePart
        some (.name (String.ofList lexeme), lexeme, rest.dropWhile isNamePart)
      else if c = '-' || isDigit c then do
        let lexeme := c :: rest.takeWhile (!endsNumber ·)
        some (← number? lexeme, lexeme, rest.dropWhile (!endsNumber ·))
      else none

def stillOpenable (budget : Nat) : Token → Option Nat
  | .symbol .openParen | .symbol .openBracket | .symbol .openBrace =>
    if budget = 0 then none else some (budget - 1)
  | .symbol .closeParen | .symbol .closeBracket | .symbol .closeBrace => some (budget + 1)
  | _ => some budget

/-- The tokens of a text, if all of it is well formed. Each step takes at least one character. A
comment ends with its line; whichever character ends it, the next line is under way then. -/
def scan? : Nat → (budget : Nat) → Position → List Char → Option (List PlacedToken)
  | _, _, _, [] => some []
  | 0, _, _, _ => none
  | steps + 1, budget, position, c :: rest =>
    if c = '\n' then scan? steps budget ⟨position.line + 1, 1⟩ rest
    else if c = '#' then
      match rest.dropWhile (!Token.isLineEnd ·) with
      | [] => some []
      | _ :: after => scan? steps budget ⟨position.line + 1, 1⟩ after
    else
      match blankWidth? c with
      | some width => scan? steps budget ⟨position.line, position.column + width⟩ rest
      | none => do
        let (token, lexeme, after) ← first? (c :: rest)
        let budget ← stillOpenable budget token
        let others ← scan? steps budget (behind position lexeme) after
        some (⟨token, position⟩ :: others)

def ofText? (text : String) : Option (List PlacedToken) :=
  scan? text.toList.length maxOpen ⟨1, 1⟩ text.toList

end PlacedToken

end QueryEditor
