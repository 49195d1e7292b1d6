import QueryEditor.Token.Basic
import QueryEditor.Token.BlockText
import QueryEditor.Binary64.Numeral
import QueryEditor.Text.Name

namespace QueryEditor

namespace Token

open Text

def isIgnored (c : Char) : Bool :=
  c == ' ' || c == '\t' || c == '\n' || c == '\r' || c == ',' || c == '\uFEFF'

def isLineEnd (c : Char) : Bool :=
  c == '\n' || c == '\r'

/-- An integer, unless it takes more than 64 bits: then it stands for the nearest number that a
float can hold. -/
def ofNumeral (numeral : Numeral) : Token :=
  let number := numeral.toInt
  if numeral.isWhole && Int64.minValue.toInt ≤ number && number ≤ Int64.maxValue.toInt then
    .int (Int64.ofInt number)
  else .float numeral.toBinary64

def endsNumber : List Char → Bool
  | [] => true
  | c :: _ => !isNamePart c && c != '.'

def number? (text : List Char) : Option (Token × List Char) := do
  let (numeral, rest) ← Numeral.longest? text
  if numeral.isPlain && endsNumber rest then some (ofNumeral numeral, rest) else none

def codeUnit? : List Char → Option (Nat × List Char)
  | a :: b :: c :: d :: rest => (hexadecimal? [a, b, c, d]).map (·, rest)
  | _ => none

def isLeading (unit : Nat) : Bool :=
  0xD800 ≤ unit && unit ≤ 0xDBFF

def isTrailing (unit : Nat) : Bool :=
  0xDC00 ≤ unit && unit ≤ 0xDFFF

def paired (leading trailing : Nat) : Nat :=
  0x10000 + (leading - 0xD800) * 0x400 + (trailing - 0xDC00)

/-- A character written as four hexadecimal digits, or as two surrogate halves of four digits each
with another backslash and `u` between them. -/
def codePoint? (text : List Char) : Option (Char × List Char) := do
  let (unit, rest) ← codeUnit? text
  if isLeading unit then
    match rest with
    | '\\' :: 'u' :: second =>
      let (trailing, after) ← codeUnit? second
      if isTrailing trailing then some (← scalar? (paired unit trailing), after) else none
    | _ => none
  else some (← scalar? unit, rest)

def unicodeEscape? : List Char → Option (Char × List Char)
  | '{' :: rest =>
    match rest.span (· != '}') with
    | ([], _) => none
    | (_, []) => none
    | (digits, _ :: after) => do
      let c ← scalar? (← hexadecimal? digits)
      some (c, after)
  | text => codePoint? text

def simpleEscape? : Char → Option Char
  | '"' => some '"'
  | '\\' => some '\\'
  | '/' => some '/'
  | 'b' => some '\x08'
  | 'f' => some '\x0c'
  | 'n' => some '\n'
  | 'r' => some '\r'
  | 't' => some '\t'
  | _ => none

def escape? : List Char → Option (Char × List Char)
  | 'u' :: rest => unicodeEscape? rest
  | c :: rest => (simpleEscape? c).map (·, rest)
  | [] => none

def quotedRest? : Nat → List Char → Option (List Char × List Char)
  | 0, _ => none
  | _, [] => none
  | _ + 1, '"' :: rest => some ([], rest)
  | steps + 1, '\\' :: rest => do
    let (c, afterEscape) ← escape? rest
    let (content, after) ← quotedRest? steps afterEscape
    some (c :: content, after)
  | steps + 1, c :: rest =>
    if isLineEnd c then none
    else (quotedRest? steps rest).map fun (content, after) => (c :: content, after)

/-- A quoted text, from behind its opening quote. A line end is let through as the very first
character and nowhere else. -/
def quoted? : List Char → Option (List Char × List Char)
  | [] => none
  | c :: rest =>
    if isLineEnd c then
      (quotedRest? (rest.length + 1) rest).map fun (content, after) => (c :: content, after)
    else quotedRest? (rest.length + 2) (c :: rest)

def blockText : BlockText where
  returnEndsLine := true
  isIndent c := c == ' ' || c == '\t'
  keepsShortLines := false

def first? : List Char → Option (Token × List Char)
  | [] => none
  | '.' :: rest =>
    match rest with
    | '.' :: '.' :: after => some (.symbol .ellipsis, after)
    | _ => none
  | '"' :: '"' :: '"' :: rest =>
    (BlockText.raw? rest).map fun (raw, after) =>
      (.string (String.ofList (blockText.content raw)), after)
  | '"' :: rest =>
    (quoted? rest).map fun (content, after) => (.string (String.ofList content), after)
  | c :: rest =>
    match Symbol.ofChar? c with
    | some mark => some (.symbol mark, rest)
    | none =>
      if isNameStart c then
        some (.name (String.ofList (c :: rest.takeWhile isNamePart)), rest.dropWhile isNamePart)
      else if c = '-' || isDigit c then number? (c :: rest)
      else none

end Token

namespace Lexeme

def scan? : Nat → (afterComma : Bool) → List Char → Option (List Lexeme)
  | _, _, [] => some []
  | 0, _, _ => none
  | steps + 1, afterComma, c :: rest =>
    if Token.isIgnored c then scan? steps (afterComma || c == ',') rest
    else if c = '#' then scan? steps afterComma (rest.dropWhile (!Token.isLineEnd ·))
    else do
      let (token, after) ← Token.first? (c :: rest)
      let others ← scan? steps false after
      some (⟨token, afterComma⟩ :: others)

def ofText? (text : String) : Option (List Lexeme) :=
  scan? text.toList.length false text.toList

end Lexeme

end QueryEditor
