import QueryEditor.Document.Basic
import QueryEditor.Value.Printer

namespace QueryEditor

def spaced (parts : List String) : String :=
  Text.joined " " (parts.filter (· != ""))

def indentation (depth : Nat) : String :=
  String.ofList (List.replicate (2 * depth) ' ')

def printArguments (arguments : List Slot) : String :=
  if arguments.isEmpty then ""
  else "(" ++ Text.joined ", " (Value.printSlots arguments) ++ ")"

def Directive.print (directive : Directive) : String :=
  "@" ++ directive.name ++ printArguments directive.arguments

def printDirectives (directives : List Directive) : String :=
  Text.joined " " (directives.map Directive.print)

def braced (depth : Nat) (lines : String) : String :=
  if lines = "" then "" else "\x7b\n" ++ lines ++ indentation depth ++ "\x7d"

namespace Selection

mutual

def print (depth : Nat) : Selection → String
  | field ⟨aliasName, name, arguments, directives, children⟩ =>
    let label := match aliasName with
      | some aliasName => aliasName ++ ": "
      | none => ""
    spaced [label ++ name ++ printArguments arguments, printDirectives directives,
      braced depth (printLines (depth + 1) children)]
  | spread node => spaced ["..." ++ node.fragment, printDirectives node.directives]
  | inline ⟨condition, directives, children⟩ =>
    let condition := match condition with
      | some type => "on " ++ type
      | none => ""
    spaced ["...", condition, printDirectives directives,
      braced depth (printLines (depth + 1) children)]

def printLines (depth : Nat) : List Selection → String
  | [] => ""
  | selection :: rest =>
    indentation depth ++ print depth selection ++ "\n" ++ printLines depth rest

end

def printSet (selections : List Selection) : String :=
  braced 0 (printLines 1 selections)

end Selection

def VariableDefinition.print (variableDefinition : VariableDefinition) : String :=
  let initial := match variableDefinition.default? with
    | some value => " = " ++ value.print
    | none => ""
  "$" ++ variableDefinition.name ++ ": " ++ variableDefinition.type.print ++ initial

namespace Operation

def isShorthand (operation : Operation) : Bool :=
  operation.kind == .query && operation.name.isNone && operation.declarations.isEmpty &&
    operation.directives.isEmpty

def print (operation : Operation) : String :=
  let selections := Selection.printSet operation.selections
  if operation.isShorthand then selections
  else
    let declarations :=
      if operation.declarations.isEmpty then ""
      else "(" ++ Text.joined ", " (operation.declarations.map VariableDefinition.print) ++ ")"
    spaced [operation.kind.keyword, operation.name.getD "" ++ declarations,
      printDirectives operation.directives, selections]

end Operation

def Fragment.print (fragment : Fragment) : String :=
  spaced ["fragment " ++ fragment.name ++ " on " ++ fragment.condition,
    printDirectives fragment.directives, Selection.printSet fragment.selections]

def Definition.print : Definition → String
  | operation op => op.print
  | fragment frag => frag.print

def Document.print (doc : Document) : String :=
  Text.joined "\n\n" (doc.definitions.map Definition.print) ++ "\n"

end QueryEditor
