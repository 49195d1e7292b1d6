import QueryEditor.Text.GraphemeExtend
import QueryEditor.Text.Unassigned

namespace QueryEditor.Text

def unprintableRanges : List CodeRange :=
  [⟨0x0, 0x1F⟩, ⟨0x7F, 0xA0⟩, ⟨0xAD, 0xAD⟩, ⟨0x600, 0x605⟩, ⟨0x61C, 0x61C⟩, ⟨0x6DD, 0x6DD⟩,
    ⟨0x70F, 0x70F⟩, ⟨0x890, 0x891⟩, ⟨0x8E2, 0x8E2⟩, ⟨0x1680, 0x1680⟩, ⟨0x180E, 0x180E⟩,
    ⟨0x2000, 0x200F⟩, ⟨0x2028, 0x202F⟩, ⟨0x205F, 0x2064⟩, ⟨0x2066, 0x206F⟩, ⟨0x3000, 0x3000⟩,
    ⟨0xE000, 0xF8FF⟩, ⟨0xFEFF, 0xFEFF⟩, ⟨0xFFF9, 0xFFFB⟩, ⟨0x110BD, 0x110BD⟩, ⟨0x110CD, 0x110CD⟩,
    ⟨0x13430, 0x1343F⟩, ⟨0x1BCA0, 0x1BCA3⟩, ⟨0x1D173, 0x1D17A⟩, ⟨0xE0001, 0xE0001⟩,
    ⟨0xE0020, 0xE007F⟩, ⟨0xF0000, 0xFFFFD⟩, ⟨0x100000, 0x10FFFD⟩]

def isFiller (c : Char) : Bool :=
  c == '\u115F' || c == '\u1160' || c == '\u3164' || c == '\uFFA0'

/-- The halfwidth sound marks of the Katakana script extend a character, and yet take a place of
their own. -/
def isHalfwidthMark (c : Char) : Bool :=
  c == '\uFF9E' || c == '\uFF9F'

def isUnseen (c : Char) : Bool :=
  (isGraphemeExtend c && !isHalfwidthMark c) || isFiller c || liesIn unprintableRanges c ||
    isUnassigned c

def shown (c : Char) : List Char :=
  match c with
  | '\x00' => ['\\', '0']
  | '\t' => ['\\', 't']
  | '\r' => ['\\', 'r']
  | '\n' => ['\\', 'n']
  | '"' => ['\\', '"']
  | '\\' => ['\\', '\\']
  | _ =>
    if isUnseen c then "\\u\x7b".toList ++ Nat.toDigits 16 c.toNat ++ ['}'] else [c]

def inQuotes (text : String) : String :=
  String.ofList ('"' :: (text.toList.flatMap shown ++ ['"']))

end QueryEditor.Text
