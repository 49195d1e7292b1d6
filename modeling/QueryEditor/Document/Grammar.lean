import QueryEditor.TypeRef
import QueryEditor.Selection.Basic
import QueryEditor.Token.Parsing

namespace QueryEditor.Grammar

open Reader

def maxDepth : Nat :=
  500

def namedValue : String → Value
  | "true" => .boolean true
  | "false" => .boolean false
  | "null" => .null
  | name => .enum name

/-- A name with a value after a colon. A name alone is let through and stands for nothing. -/
def slot (value : Reader Value) : Reader (Option Slot)
  | ⟨.name name, _⟩ :: ⟨.symbol .colon, _⟩ :: rest => do
    let (value, rest) ← value rest
    some (some ⟨name, value⟩, rest)
  | ⟨.name _, _⟩ :: rest => some (none, rest)
  | _ => none

/-- A value; `inner` reads the items of a list and the values of an object's fields. Constant
values mention no variables. -/
def valueOver (constant : Bool) (inner : Reader Value) : Reader Value
  | ⟨.symbol .dollar, _⟩ :: ⟨.name name, _⟩ :: rest =>
    if constant then none else some (.variable name, rest)
  | ⟨.int number, _⟩ :: rest => some (.int number, rest)
  | ⟨.float number, _⟩ :: rest => some (.float number, rest)
  | ⟨.string content, _⟩ :: rest => some (.string content, rest)
  | ⟨.name name, _⟩ :: rest => some (namedValue name, rest)
  | ⟨.symbol .openBracket, _⟩ :: rest => do
    let (items, rest) ← closedBy .closeBracket inner rest
    some (.list items, rest)
  | ⟨.symbol .openBrace, _⟩ :: rest => do
    let (fields, rest) ← closedBy .closeBrace (slot inner) rest
    some (.object (fields.filterMap id), rest)
  | _ => none

def value (constant : Bool) : Nat → Reader Value
  | 0 => valueOver constant fun _ => none
  | levels + 1 => valueOver constant (value constant levels)

def arguments (constant : Bool) (levels : Nat) : Reader (List Slot) :=
  whenever (startsWith .openParen) [] fun tokens => do
    let (_, rest) ← symbol .openParen tokens
    let (arguments, rest) ← someClosedBy .closeParen (slot (value constant levels)) rest
    some (arguments.filterMap id, rest)

def directive (constant : Bool) (levels : Nat) : Reader Directive := fun tokens => do
  let (_, rest) ← symbol .atSign tokens
  let (name, rest) ← name rest
  let (arguments, rest) ← arguments constant levels rest
  some ({ name, arguments }, rest)

def directives (constant : Bool) (levels : Nat) : Reader (List Directive) :=
  many (startsWith .atSign) (directive constant levels)

def nonNullMark (type : TypeRef) : List Lexeme → TypeRef × List Lexeme
  | ⟨.symbol .bang, _⟩ :: rest => (.nonNull type, rest)
  | tokens => (type, tokens)

def typeRefOver (inner : Reader TypeRef) : Reader TypeRef
  | ⟨.name name, _⟩ :: rest => some (nonNullMark (.named name) rest)
  | ⟨.symbol .openBracket, _⟩ :: rest => do
    let (item, rest) ← inner rest
    let (_, rest) ← symbol .closeBracket rest
    some (nonNullMark (.list item) rest)
  | _ => none

def typeRef : Nat → Reader TypeRef
  | 0 => typeRefOver fun _ => none
  | levels + 1 => typeRefOver (typeRef levels)

def defaultValue : Reader (Option Value) :=
  whenever (startsWith .equals) none fun tokens => do
    let (_, rest) ← symbol .equals tokens
    let (value, rest) ← value true maxDepth rest
    some (some value, rest)

end QueryEditor.Grammar
