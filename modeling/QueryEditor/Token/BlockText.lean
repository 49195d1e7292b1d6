namespace QueryEditor

/-- What a notation for block texts takes for the end of a line and for indentation. -/
structure BlockText where
  returnEndsLine : Bool
  isIndent : Char → Bool
  keepsShortLines : Bool

namespace BlockText

def raw? : List Char → Option (List Char × List Char)
  | [] => none
  | '\\' :: '"' :: '"' :: '"' :: rest =>
    (raw? rest).map fun (raw, after) => ('\\' :: '"' :: '"' :: '"' :: raw, after)
  | '"' :: '"' :: '"' :: rest => some ([], rest)
  | c :: rest => (raw? rest).map fun (raw, after) => (c :: raw, after)

def unescape : List Char → List Char
  | [] => []
  | '\\' :: '"' :: '"' :: '"' :: rest => '"' :: '"' :: '"' :: unescape rest
  | c :: rest => c :: unescape rest

def lines (rules : BlockText) : List Char → List (List Char)
  | [] => [[]]
  | '\r' :: '\n' :: rest => [] :: rules.lines rest
  | c :: rest =>
    if c = '\n' || (c = '\r' && rules.returnEndsLine) then [] :: rules.lines rest
    else
      match rules.lines rest with
      | [] => [[c]]
      | line :: others => (c :: line) :: others

def isBlank (rules : BlockText) (line : List Char) : Bool :=
  line.all rules.isIndent

def width (text : List Char) : Nat :=
  text.foldl (fun total c => total + c.utf8Size) 0

def indentWidth (rules : BlockText) (line : List Char) : Nat :=
  width (line.takeWhile rules.isIndent)

def commonIndent (rules : BlockText) (lines : List (List Char)) : Nat :=
  (((lines.filter (!rules.isBlank ·)).map rules.indentWidth).min?).getD 0

def dropWidth (bytes : Nat) : List Char → List Char
  | [] => []
  | c :: rest => if bytes = 0 then c :: rest else dropWidth (bytes - c.utf8Size) rest

def unindent (rules : BlockText) (common : Nat) (line : List Char) : List Char :=
  if rules.keepsShortLines && width line < common then line else dropWidth common line

def dropBlankEnds (rules : BlockText) (lines : List (List Char)) : List (List Char) :=
  ((lines.dropWhile rules.isBlank).reverse.dropWhile rules.isBlank).reverse

/-- The content of a raw text. Its first line keeps its indentation and has no say in what is
common to the others. -/
def content (rules : BlockText) (raw : List Char) : List Char :=
  let stripped := match rules.lines raw with
    | [] => []
    | first :: others => first :: others.map (rules.unindent (rules.commonIndent others))
  unescape (['\n'].intercalate (rules.dropBlankEnds stripped))

end BlockText

end QueryEditor
