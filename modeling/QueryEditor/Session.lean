import QueryEditor.Document.Fragments
import QueryEditor.Document.Printer
import QueryEditor.Document.Recent
import QueryEditor.Edit.Basic

namespace QueryEditor

structure Session where
  schema : Schema
  policy : Policy := {}
  text : String
  recent : RecentDocument := {}
  removed : Removed := {}
  scroll : Option ScrollTarget := none
  commits : List String := []

namespace Session

def document (session : Session) : Document × Session :=
  let (doc, recent) := session.recent.read session.text
  (doc, { session with recent })

def fragments (session : Session) : FragmentIndex × Session :=
  let (doc, session) := session.document
  (.ofDocument doc, session)

/-- The definition that the last copy or creation asked to scroll to; it is asked for once. -/
def takeScroll (session : Session) : Option ScrollTarget × Session :=
  (session.scroll, { session with scroll := none })

def setText (session : Session) (text : String) : Session :=
  { session with text }

def commit (session : Session) (doc : Document) : Edited Session :=
  let text := doc.print
  match Document.parse text with
  | .error cause => .error (.unparseable cause.message)
  | .ok _ => .ok { session with text, commits := session.commits ++ [text] }

def finish (session : Session) (doc : Document) (committing : Bool) : Edited Document × Session :=
  if committing then
    match session.commit doc with
    | .ok session => (.ok doc, session)
    | .error cause => (.error cause, session)
  else (.ok doc, session)

def apply (session : Session) (edit : Edit) (committing : Bool) : Edited Document × Session :=
  let (doc, session) := session.document
  match edit.perform session.schema session.policy session.removed doc with
  | .error cause => (.error cause, session)
  | .ok outcome =>
    finish { session with removed := outcome.removed, scroll := outcome.scroll.or session.scroll }
      outcome.document committing

end Session

end QueryEditor
