import QueryEditor.Binary64.Basic

namespace QueryEditor

inductive Symbol where
  | bang
  | dollar
  | ampersand
  | openParen
  | closeParen
  | ellipsis
  | colon
  | equals
  | atSign
  | openBracket
  | closeBracket
  | openBrace
  | bar
  | closeBrace
  deriving DecidableEq, Repr

inductive Token where
  | symbol (symbol : Symbol)
  | name (text : String)
  | int (number : Int64)
  | float (number : Binary64)
  | string (content : String)
  deriving DecidableEq

/-- A token where it stands in a text. Commas separate no more than white space does, but some
tokens belong together only when there is none between them. -/
structure Lexeme where
  token : Token
  afterComma : Bool
  deriving DecidableEq

def Symbol.ofChar? : Char → Option Symbol
  | '!' => some bang
  | '$' => some dollar
  | '&' => some ampersand
  | '(' => some openParen
  | ')' => some closeParen
  | ':' => some colon
  | '=' => some equals
  | '@' => some atSign
  | '[' => some openBracket
  | ']' => some closeBracket
  | '{' => some openBrace
  | '|' => some bar
  | '}' => some closeBrace
  | _ => none

end QueryEditor
