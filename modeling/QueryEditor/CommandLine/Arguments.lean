namespace QueryEditor.CommandLine

inductive Halt where
  | help
  | version
  | misuse
  deriving DecidableEq

structure OptionForm where
  long : String
  short? : Option Char := none
  takesValue : Bool := true
  takesEmpty : Bool := true
  repeats : Bool := false
  halt? : Option Halt := none
  deriving DecidableEq

/-- What the words of a command line give: values under the long names of options, in order, and
positional words. An option without a value stands with an empty text. -/
structure Given where
  options : List (String × String) := []
  positionals : List String := []
  deriving DecidableEq

namespace Given

def values (given : Given) (name : String) : List String :=
  (given.options.filter (·.1 == name)).map (·.2)

def value? (given : Given) (name : String) : Option String :=
  (given.values name).head?

def has (given : Given) (name : String) : Bool :=
  (given.value? name).isSome

def addOption (given : Given) (form : OptionForm) (value : String) : Except Halt Given :=
  match form.halt? with
  | some halt => .error halt
  | none =>
    if given.has form.long && !form.repeats then .error .misuse
    else if value = "" && !form.takesEmpty then .error .misuse
    else .ok { given with options := given.options ++ [(form.long, value)] }

/-- Takes in a positional word; `places` says of each place which words may stand there. -/
def addWord (places : List (String → Bool)) (given : Given) (word : String) : Except Halt Given :=
  match places[given.positionals.length]? with
  | some accepts =>
    if accepts word then .ok { given with positionals := given.positionals ++ [word] }
    else .error .misuse
  | none => .error .misuse

end Given

structure Progress where
  given : Given
  pending? : Option OptionForm := none
  deriving DecidableEq

def longOption (forms : List OptionForm) (given : Given) (body : List Char) :
    Except Halt Progress :=
  match forms.find? (·.long == String.ofList (body.takeWhile (· ≠ '='))) with
  | none => .error .misuse
  | some form =>
    match form.takesValue, body.dropWhile (· ≠ '=') with
    | true, [] => .ok { given, pending? := some form }
    | true, _ :: value => return { given := ← given.addOption form (String.ofList value) }
    | false, [] => return { given := ← given.addOption form "" }
    | false, _ :: _ => .error .misuse

def shortOptions (forms : List OptionForm) (given : Given) : List Char → Except Halt Progress
  | [] => .ok { given }
  | c :: rest =>
    match forms.find? (·.short? == some c) with
    | none => .error .misuse
    | some form =>
      if form.takesValue then
        match rest with
        | [] => .ok { given, pending? := some form }
        | '=' :: value => return { given := ← given.addOption form (String.ofList value) }
        | value => return { given := ← given.addOption form (String.ofList value) }
      else do
        let given ← given.addOption form ""
        shortOptions forms given rest

def startsOption (word : String) : Bool :=
  match word.toList with
  | '-' :: _ :: _ => true
  | _ => false

def optionWord (forms : List OptionForm) (given : Given) (word : String) :
    Except Halt Progress :=
  match word.toList with
  | '-' :: '-' :: body => longOption forms given body
  | _ :: body => shortOptions forms given body
  | [] => .ok { given }

def scan (forms : List OptionForm) (places : List (String → Bool)) (given : Given) :
    List String → Except Halt Given
  | [] => .ok given
  | word :: rest =>
    if word = "--" then rest.foldlM (Given.addWord places) given
    else if startsOption word then
      match optionWord forms given word, rest with
      | .error halt, _ => .error halt
      | .ok ⟨given, none⟩, rest => scan forms places given rest
      | .ok ⟨given, some form⟩, value :: rest =>
        if startsOption value then .error .misuse
        else
          match given.addOption form value with
          | .error halt => .error halt
          | .ok given => scan forms places given rest
      | .ok ⟨_, some _⟩, [] => .error .misuse
    else
      match given.addWord places word with
      | .error halt => .error halt
      | .ok given => scan forms places given rest

end QueryEditor.CommandLine
