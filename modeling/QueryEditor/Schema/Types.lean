import QueryEditor.Named
import QueryEditor.Value.Basic
import QueryEditor.Schema.DeclaredType
import QueryEditor.Schema.Location

namespace QueryEditor

structure AppliedDirective where
  name : String
  arguments : Catalog Slot := .empty
  deriving DecidableEq

/-- The reason given by the first `@deprecated` directive, if there is one; a directive that gives
no text gives the usual reason. -/
def deprecation? (directives : List AppliedDirective) : Option String :=
  (directives.find? (·.name == "deprecated")).map fun directive =>
    match directive.arguments.find? "reason" with
    | some ⟨_, .string reason⟩ => reason
    | _ => "No longer supported"

structure InputValue where
  name : String
  location : Location
  default? : Option Value := none
  description : Option String := none
  type : DeclaredType
  deriving DecidableEq

/-- A value must be supplied where null is not allowed and no default steps in. -/
def InputValue.isRequired (input : InputValue) : Bool :=
  !input.type.nullable && input.default?.isNone

instance : HasName InputValue := ⟨InputValue.name⟩

structure InputField extends InputValue where
  directives : List AppliedDirective := []
  parent : String
  deriving DecidableEq

instance : HasName InputField := ⟨fun field => field.name⟩

/-- An argument of a field, or a field of an input object type. -/
inductive InputTarget where
  | argument (input : InputValue)
  | inputField (field : InputField)
  deriving DecidableEq

namespace InputTarget

def input : InputTarget → InputValue
  | argument input => input
  | inputField field => field.toInputValue

instance : Coe InputTarget InputValue := ⟨input⟩

instance : Coe InputValue InputTarget := ⟨argument⟩

instance : Coe InputField InputTarget := ⟨inputField⟩

def name (target : InputTarget) : String :=
  target.input.name

def type (target : InputTarget) : DeclaredType :=
  target.input.type

def isRequired (target : InputTarget) : Bool :=
  target.input.isRequired

end InputTarget

structure Field where
  name : String
  location : Location
  description : Option String := none
  directives : List AppliedDirective := []
  arguments : Catalog InputValue := .empty
  parent : String
  type : DeclaredType
  deriving DecidableEq

instance : HasName Field := ⟨Field.name⟩

def Field.inputs (field : Field) : List InputTarget :=
  field.arguments.entries.map .argument

def Field.qualifiedName (field : Field) : String :=
  field.parent ++ "." ++ field.name

structure EnumValue where
  name : String
  description : Option String := none
  directives : List AppliedDirective := []
  deriving DecidableEq

instance : HasName EnumValue := ⟨EnumValue.name⟩

structure TypeHead where
  name : String
  location : Location
  description : Option String := none
  directives : List AppliedDirective := []
  deriving DecidableEq

structure EnumType extends TypeHead where
  values : Catalog EnumValue := .empty
  deriving DecidableEq

structure InputObjectType extends TypeHead where
  fields : Catalog InputField := .empty
  deriving DecidableEq

def InputObjectType.inputs (type : InputObjectType) : List InputTarget :=
  type.fields.entries.map .inputField

structure FieldsType extends TypeHead where
  fields : Catalog Field := .empty
  interfaces : List String := []
  deriving DecidableEq

structure UnionType extends TypeHead where
  members : List String := []
  deriving DecidableEq

inductive BuiltinScalar where
  | boolean
  | float
  | id
  | int
  | string
  deriving DecidableEq

def BuiltinScalar.name : BuiltinScalar → String
  | boolean => "Boolean"
  | float => "Float"
  | id => "ID"
  | int => "Int"
  | string => "String"

def BuiltinScalar.all : List BuiltinScalar :=
  [boolean, float, id, int, string]

inductive TypeDefinition where
  | builtin (kind : BuiltinScalar)
  | scalar (type : TypeHead)
  | enum (type : EnumType)
  | input (type : InputObjectType)
  | interface (type : FieldsType)
  | object (type : FieldsType)
  | union (type : UnionType)
  deriving DecidableEq

namespace TypeDefinition

def name : TypeDefinition → String
  | .builtin kind => kind.name
  | .scalar type => type.name
  | .enum type => type.name
  | .input type => type.name
  | .interface type => type.name
  | .object type => type.name
  | .union type => type.name

instance : HasName TypeDefinition := ⟨name⟩

def head? : TypeDefinition → Option TypeHead
  | .builtin _ => none
  | .scalar type => some type
  | .enum type => some type.toTypeHead
  | .input type => some type.toTypeHead
  | .interface type => some type.toTypeHead
  | .object type => some type.toTypeHead
  | .union type => some type.toTypeHead

def location (type : TypeDefinition) : Location :=
  (type.head?.map (·.location)).getD .builtin

def object? : TypeDefinition → Option FieldsType
  | .object type => some type
  | _ => none

def fields? : TypeDefinition → Option (Catalog Field)
  | .interface type => some type.fields
  | .object type => some type.fields
  | _ => none

def isAbstract : TypeDefinition → Bool
  | .interface _ => true
  | .union _ => true
  | _ => false

def isComposite : TypeDefinition → Bool
  | .interface _ => true
  | .object _ => true
  | .union _ => true
  | _ => false

def isInputObject : TypeDefinition → Bool
  | .input _ => true
  | _ => false

def isLeaf : TypeDefinition → Bool
  | .builtin _ => true
  | .scalar _ => true
  | .enum _ => true
  | _ => false

end TypeDefinition

end QueryEditor
