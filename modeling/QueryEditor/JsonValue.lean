import QueryEditor.Binary64.Stepwise
import QueryEditor.Named
import QueryEditor.Token.Lexer
import QueryEditor.Token.Parsing

namespace QueryEditor

inductive JsonValue where
  | null
  | boolean (truth : Bool)
  | number (number : Binary64)
  | string (content : String)
  | array (items : List JsonValue)
  | object (members : List (Named JsonValue))

namespace JsonValue

instance : Inhabited JsonValue := ⟨null⟩

def member? (name : String) : JsonValue → Option JsonValue
  | object members => Named.find? members name
  | _ => none

abbrev Reader (α : Type) := List Char → Option (α × List Char)

def maxDepth : Nat :=
  127

def isSpace (c : Char) : Bool :=
  c == ' ' || c == '\t' || c == '\n' || c == '\r'

def skipSpace (text : List Char) : List Char :=
  text.dropWhile isSpace

def mark (expected : Char) : Reader Unit := fun text =>
  match skipSpace text with
  | c :: rest => if c = expected then some ((), rest) else none
  | [] => none

def startsWith (expected : Char) (text : List Char) : Bool :=
  (skipSpace text).head? == some expected

def escape? : List Char → Option (Char × List Char)
  | 'u' :: rest => Token.codePoint? rest
  | c :: rest => (Token.simpleEscape? c).map (·, rest)
  | [] => none

/-- The rest of a text up to its closing quote. Control characters below the space are refused.
Each step takes at least one character. -/
def quotedRest? : Nat → Reader (List Char)
  | 0, _ => none
  | _, [] => none
  | _ + 1, '"' :: rest => some ([], rest)
  | steps + 1, '\\' :: rest => do
    let (c, afterEscape) ← escape? rest
    let (content, after) ← quotedRest? steps afterEscape
    some (c :: content, after)
  | steps + 1, c :: rest =>
    if c.toNat < 0x20 then none
    else (quotedRest? steps rest).map fun (content, after) => (c :: content, after)

def quoted : Reader String := fun text => do
  let (_, rest) ← mark '"' text
  let (content, after) ← quotedRest? (rest.length + 1) rest
  some (String.ofList content, after)

def plainNumber : Reader Binary64 := fun text => do
  let (numeral, rest) ← Numeral.longest? text
  if numeral.isPlain && text.head? != some '+' then some (← numeral.stepwise?, rest) else none

def scalar : Reader JsonValue := fun text =>
  match skipSpace text with
  | 'n' :: 'u' :: 'l' :: 'l' :: rest => some (null, rest)
  | 't' :: 'r' :: 'u' :: 'e' :: rest => some (boolean true, rest)
  | 'f' :: 'a' :: 'l' :: 's' :: 'e' :: rest => some (boolean false, rest)
  | '"' :: rest => (quoted ('"' :: rest)).map fun (content, after) => (string content, after)
  | text => (plainNumber text).map fun (x, after) => (JsonValue.number x, after)

def listed {α : Type} (opening closing : Char) (read : Reader α) : Reader (List α) := fun text => do
  let (_, rest) ← mark opening text
  if startsWith closing rest then
    let (_, after) ← mark closing rest
    some ([], after)
  else
    let (first, rest) ← read rest
    let next : Reader α := fun text => do
      let (_, rest) ← mark ',' text
      read rest
    let (others, rest) ← Reader.many (startsWith ',') next rest
    let (_, after) ← mark closing rest
    some (first :: others, after)

def member (value : Reader JsonValue) : Reader (Named JsonValue) := fun text => do
  let (name, rest) ← quoted text
  let (_, rest) ← mark ':' rest
  let (value, rest) ← value rest
  some (⟨name, value⟩, rest)

/-- A value in which at most so many arrays and objects are open at once. Of members with one name the
last one counts. -/
def value : Nat → Reader JsonValue
  | 0 => scalar
  | levels + 1 => fun text =>
    if startsWith '[' text then
      (listed '[' ']' (value levels) text).map fun (items, after) => (array items, after)
    else if startsWith '{' text then
      (listed '{' '}' (member (value levels)) text).map fun (members, after) =>
        (object (Catalog.ofList members).entries, after)
    else scalar text

def parse? (text : String) : Option JsonValue := do
  let (value, rest) ← value maxDepth text.toList
  if (skipSpace rest).isEmpty then some value else none

end JsonValue

end QueryEditor
