import QueryEditor.CommandLine.Arguments
import QueryEditor.CommandLine.Task

namespace QueryEditor.CommandLine

structure Request where
  schema : String
  query? : Option String
  extensions : List String
  task : Task
  deriving DecidableEq

structure CommandForm where
  name : String
  purpose : String
  options : List OptionForm
  places : List (String → Bool)
  task? : Given → Option Task

def helpOption : OptionForm :=
  { long := "help", short? := some 'h', takesValue := false, halt? := some .help }

def programOptions : List OptionForm :=
  [{ long := "verbose", short? := some 'v', takesValue := false },
   { long := "version", short? := some 'V', takesValue := false, halt? := some .version },
   helpOption]

def sourceOptions : List OptionForm :=
  [{ long := "schema", short? := some 's', takesEmpty := false },
   { long := "query", short? := some 'q', takesEmpty := false },
   { long := "graphql-file-exts", repeats := true },
   helpOption]

def definitionOption : OptionForm :=
  { long := "definition", short? := some 'd' }

def anyWord (_ : String) : Bool :=
  true

def isKind (word : String) : Bool :=
  (OperationKind.ofKeyword? word).isSome

def changing (given : Given) (change? : List String → Option Change) : Option Task :=
  (change? given.positionals).map (.change (given.value? "definition"))

def onField (make : String → Change) (given : Given) : Option Task :=
  changing given fun
    | [path] => some (make path)
    | _ => none

def onArgument (make : ArgumentTarget → Change) (given : Given) : Option Task :=
  changing given fun
    | [field, argument] => some (make ⟨field, argument⟩)
    | _ => none

def onDefinition (change : Change) (given : Given) : Option Task :=
  changing given fun
    | [] => some change
    | _ => none

def newValues (given : Given) (raw? : Option String) : List NewValue :=
  (if given.has "clear" then [.clear] else []) ++
    ((given.value? "literal").map .literal).toList ++
    ((given.value? "variable").map .variable).toList ++ (raw?.map .raw).toList

def setArgument (given : Given) : Option Task :=
  changing given fun
    | [field, argument] => setting ⟨field, argument⟩ none
    | [field, argument, raw] => setting ⟨field, argument⟩ (some raw)
    | _ => none
where
  setting (target : ArgumentTarget) (raw? : Option String) : Option Change :=
    match newValues given raw? with
    | [] => some (.setArgument target none)
    | [value] => some (.setArgument target (some value))
    | _ => none

def create (given : Given) : Option Task :=
  match given.positionals with
  | [] => some (.create .query)
  | [kind] => (OperationKind.ofKeyword? kind).map .create
  | _ => none

def alone (task : Task) (given : Given) : Option Task :=
  if given.positionals.isEmpty then some task else none

def commands : List CommandForm :=
  [⟨"add-arg", "Add an argument (or input field), populated with a default value",
      [definitionOption], [anyWord, anyWord], onArgument .addArgument⟩,
   ⟨"clone", "Append a copy of a definition", [definitionOption], [], onDefinition .copy⟩,
   ⟨"destroy", "Remove a definition", [definitionOption], [], onDefinition .remove⟩,
   ⟨"devariablize", "Replace a variable reference with the variable's default value",
      [definitionOption], [anyWord, anyWord], onArgument .inline⟩,
   ⟨"extract-fragment", "Move the selections beneath a field into a new fragment",
      [definitionOption], [anyWord], onField .extract⟩,
   ⟨"fragments", "List the document's fragments by the type they apply to", [], [],
      alone .listFragments⟩,
   ⟨"new-operation", "Append a new operation", [], [isKind], create⟩,
   ⟨"print", "Print the document in canonical form", [], [], alone .print⟩,
   ⟨"remove-arg", "Remove an argument (or input field)", [definitionOption],
      [anyWord, anyWord], onArgument .removeArgument⟩,
   ⟨"rename", "Rename a definition", [definitionOption], [anyWord], onField .rename⟩,
   ⟨"select-all", "Select every subfield (or the default subfields) of a field",
      [definitionOption, { long := "defaults", takesValue := false }], [anyWord], fun given =>
        onField (if given.has "defaults" then .selectDefaults else .selectAll) given⟩,
   ⟨"set-arg", "Set the value of an argument (or input field)",
      [definitionOption, { long := "clear", takesValue := false }, { long := "literal" },
       { long := "variable" }], [anyWord, anyWord, anyWord], setArgument⟩,
   ⟨"toggle-field", "Select a field, or deselect it if it is selected", [definitionOption],
      [anyWord], onField .toggleField⟩,
   ⟨"toggle-spread", "Spread a fragment, or remove the spread if it is there",
      [definitionOption, { long := "path", short? := some 'p' }], [anyWord], fun given =>
        onField (.toggleSpread ((given.value? "path").getD "")) given⟩,
   ⟨"variablize", "Replace an argument's value with a new operation variable",
      [definitionOption], [anyWord, anyWord], onArgument .promote⟩]

def extensions (given : Given) : List String :=
  match given.values "graphql-file-exts" with
  | [] => ["graphql", "graphqls"]
  | lists => (lists.flatMap fun list => Text.pieces ',' list.toList).map fun extension =>
      String.ofList (extension.dropWhile (· = '.'))

def CommandForm.request (command : CommandForm) (words : List String) : Except Halt Request := do
  let given ← scan (sourceOptions ++ command.options) command.places {} words
  match given.value? "schema", command.task? given with
  | some schema, some task =>
    return { schema, query? := given.value? "query", extensions := extensions given, task }
  | _, _ => throw .misuse

def command? (name : String) : Option CommandForm :=
  commands.find? (·.name == name)

def helpOn : List String → Halt
  | [] => .help
  | [name] => if name = "help" || (command? name).isSome then .help else .misuse
  | _ => .misuse

def Request.ofWords (words : List String) : Except Halt Request := do
  let own := words.takeWhile startsOption
  let _ ← scan programOptions [] {} own
  match words.dropWhile startsOption with
  | [] => throw .help
  | name :: words =>
    if own.contains "--" then throw .misuse
    else if name = "help" then throw (helpOn words)
    else
      match command? name with
      | none => throw .misuse
      | some command => command.request words

end QueryEditor.CommandLine
