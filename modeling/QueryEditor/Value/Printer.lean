import QueryEditor.Value.Basic
import QueryEditor.Binary64.Shortest
import QueryEditor.Text.Blank

namespace QueryEditor

namespace Text

def upperHexDigit (digit : Nat) : Char :=
  if digit < 10 then Char.ofNat ('0'.toNat + digit) else Char.ofNat ('A'.toNat + (digit - 10))

/-- A character inside quotes. Quotes, backslashes and the control characters below the space are
escaped; everything else stands for itself. -/
def escaped (c : Char) : List Char :=
  match c with
  | '"' => ['\\', '"']
  | '\\' => ['\\', '\\']
  | '\n' => ['\\', 'n']
  | '\r' => ['\\', 'r']
  | '\t' => ['\\', 't']
  | '\x08' => ['\\', 'b']
  | '\x0c' => ['\\', 'f']
  | _ =>
    if c.toNat < 0x20 then
      ['\\', 'u', '0', '0', upperHexDigit (c.toNat / 16), upperHexDigit (c.toNat % 16)]
    else [c]

def quoted (content : String) : String :=
  String.ofList ('"' :: (content.toList.flatMap escaped ++ ['"']))

end Text

namespace Value

mutual

def print : Value → String
  | .null => "null"
  | .boolean truth => if truth then "true" else "false"
  | .int number => toString number.toInt
  | .float number => number.text
  | .string content => Text.quoted content
  | .enum name => name
  | .variable name => "$" ++ name
  | .list items => "[" ++ Text.joined ", " (printItems items) ++ "]"
  | .object fields => "\x7b" ++ Text.joined ", " (printSlots fields) ++ "\x7d"

def printItems : List Value → List String
  | [] => []
  | item :: rest => print item :: printItems rest

def printSlots : List Slot → List String
  | [] => []
  | ⟨name, value⟩ :: rest => (name ++ ": " ++ print value) :: printSlots rest

end

end Value

end QueryEditor
