import QueryEditor.Schema.Error
import QueryEditor.Session

namespace QueryEditor.CommandLine

structure ArgumentTarget where
  field : String
  argument : String
  deriving DecidableEq

def ArgumentTarget.path? (target : ArgumentTarget) : Option ArgumentPath :=
  match Text.dottedNames target.argument with
  | [] => none
  | argument :: inputFields => some { field := .ofDotted target.field, argument, inputFields }

inductive NewValue where
  | clear
  | literal (text : String)
  | variable (name : String)
  | raw (text : String)
  deriving DecidableEq

inductive Change where
  | toggleField (path : String)
  | selectAll (path : String)
  | selectDefaults (path : String)
  | toggleSpread (path : String) (fragment : String)
  | extract (path : String)
  | addArgument (target : ArgumentTarget)
  | removeArgument (target : ArgumentTarget)
  | setArgument (target : ArgumentTarget) (value? : Option NewValue)
  | promote (target : ArgumentTarget)
  | inline (target : ArgumentTarget)
  | rename (name : String)
  | copy
  | remove
  deriving DecidableEq

/-- What a command is to do. A definition is selected by its name or its position; without a
selector the first one is meant. -/
inductive Task where
  | print
  | listFragments
  | create (kind : OperationKind)
  | change (selector? : Option String) (what : Change)
  deriving DecidableEq

inductive Failure where
  | schema (cause : SchemaError)
  | document (cause : DocumentError)
  | edit (cause : EditError)
  | unreadable (path : String)
  | unreadableInput
  | unscannable (path : String)
  | noSchemaFiles (path : String)
  | noDefinition (selector : String)
  | noArgumentName
  | noNewValue
  deriving DecidableEq

def Failure.message : Failure → String
  | schema cause => cause.message
  | document cause => cause.message
  | edit cause => cause.message
  | unreadable path => "reading " ++ Text.inQuotes path
  | unreadableInput => "reading stdin: stream did not contain valid UTF-8"
  | unscannable path => "scanning " ++ Text.inQuotes path
  | noSchemaFiles path => "no schema files found at " ++ Text.inQuotes path
  | noDefinition selector => "the document has no definition `" ++ selector ++ "`"
  | noArgumentName => "an argument name is required"
  | noNewValue => "no new value was given"

def position? (text : String) : Option Nat :=
  let digits := match text.toList with
    | '+' :: rest => rest
    | chars => chars
  if !digits.isEmpty && digits.all Text.isDigit then some (Text.decimalValue digits) else none

/-- The definition that a selector means: the one of that name, or else the one at that position. -/
def select (doc : Document) : Option String → Except Failure DefinitionId
  | none => .ok 0
  | some selector =>
    match doc.find? selector, position? selector with
    | some id, _ => .ok id
    | none, some id =>
      if id < doc.definitions.length then .ok id else .error (.noDefinition selector)
    | none, none => .error (.noDefinition selector)

def NewValue.input : NewValue → Except Failure SlotInput
  | .clear => .ok .clear
  | .literal text => ((Value.parse text).map .literal).mapError .document
  | .variable name => .ok (.variable (String.ofList (name.toList.dropWhile (· = '$'))))
  | .raw text => .ok (.raw text)

namespace Change

def edit (id : DefinitionId) : Change → Except Failure Edit
  | toggleField path => .ok (.toggleField id (.ofDotted path))
  | selectAll path => .ok (.selectAll id (.ofDotted path))
  | selectDefaults path => .ok (.selectDefaults id (.ofDotted path))
  | toggleSpread path fragment => .ok (.toggleSpread id (.ofDotted path) fragment)
  | extract path => .ok (.extract id (.ofDotted path))
  | addArgument target => on target fun path => .ok (.addArgument id path)
  | removeArgument target => on target fun path => .ok (.removeArgument id path)
  | setArgument target value? => on target fun path =>
    match value? with
    | none => .error .noNewValue
    | some value => value.input.map (.setArgument id path)
  | promote target => on target fun path => .ok (.promote id path)
  | inline target => on target fun path => .ok (.inline id path)
  | rename name => .ok (.rename id (String.ofList (Text.trim name.toList)))
  | copy => .ok (.copy id)
  | remove => .ok (.remove id)
where
  on (target : ArgumentTarget) (make : ArgumentPath → Except Failure Edit) :
      Except Failure Edit :=
    match target.path? with
    | none => .error .noArgumentName
    | some path => make path

def purpose : Change → String
  | toggleField _ => "toggle the field"
  | selectAll _ | selectDefaults _ => "select subfields"
  | toggleSpread .. => "toggle the fragment spread"
  | extract _ => "extract a fragment"
  | addArgument _ => "add the argument"
  | removeArgument _ => "remove the argument"
  | setArgument .. => "set the argument"
  | promote _ => "promote the argument to a variable"
  | inline _ => "inline the variable"
  | rename _ => "rename the definition"
  | copy => "clone the definition"
  | remove => "destroy the definition"

end Change

def fragmentListing (index : FragmentIndex) : String :=
  if index.isEmpty then "✅ The document defines no fragments."
  else
    let types := index.typeNames.mergeSort fun a b => a ≤ b
    Text.joined "\n" ("✅ Fragments by type:" :: types.map fun type =>
      "  * " ++ type ++ ": " ++ Text.joined ", " ((index.forType type).map (·.2.name)))

namespace Task

def purpose : Task → String
  | print => "print the document"
  | listFragments => "list fragments"
  | create _ => "create an operation"
  | change _ what => what.purpose

def textAfter (session : Session) (edit : Edit) : Except Failure String :=
  match session.apply edit true with
  | (.ok _, session) => .ok session.text
  | (.error cause, _) => .error (.edit cause)

def perform (session : Session) : Task → Except Failure String
  | print =>
    let (doc, session) := session.document
    ((session.commit doc).map (·.text)).mapError .edit
  | listFragments => .ok (fragmentListing session.fragments.1)
  | create kind => textAfter session (.create kind)
  | change selector? what => do
    let (doc, session) := session.document
    let id ← select doc selector?
    textAfter session (← what.edit id)

end Task

end QueryEditor.CommandLine
