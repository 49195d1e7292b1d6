import QueryEditor.Document.Parser

namespace QueryEditor

structure RecentDocument where
  entry : Option (String × Document) := none
  deriving DecidableEq

namespace RecentDocument

def text? (recent : RecentDocument) : Option String :=
  recent.entry.map (·.1)

def forget (_ : RecentDocument) : RecentDocument :=
  {}

def fallback (recent : RecentDocument) : Document :=
  match recent.entry with
  | some (_, doc) => doc
  | none => .standard

/-- The document for a text: what it parses to, or the last document that parsed. Blank text stands
for the standard document, and does not displace the one that is remembered. -/
def read (recent : RecentDocument) (text : String) : Document × RecentDocument :=
  if recent.text? = some text then (recent.fallback, recent)
  else if Text.allBlank text then (.standard, recent)
  else
    match Document.parse text with
    | .ok doc => (doc, ⟨some (text, doc)⟩)
    | .error _ => (recent.fallback, recent)

end RecentDocument

end QueryEditor
