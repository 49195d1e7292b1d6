import QueryEditor.Proofs.DeclaredType
import QueryEditor.Proofs.Document.RoundTrip

namespace QueryEditor

open Text Lexeme

namespace TypeRef

theorem ofText?_print {type : TypeRef} (name : isName type.innermost = true) :
    ofText? type.print = some type.lexemes := by
  have whole := spells_print name [] rfl
  rw [List.append_nil, lex_nil] at whole
  simpa [ofText?_eq_lex, prepend?] using whole

theorem print_injective {first second : TypeRef} (regular : first.isRegular = true)
    (regular' : second.isRegular = true) (name : isName first.innermost = true)
    (name' : isName second.innermost = true) (same : first.print = second.print) : first = second := by
  have lexemes : first.lexemes = second.lexemes := by
    have lexed := ofText?_print name
    rw [same, ofText?_print name'] at lexed
    exact (Option.some.inj lexed).symm
  let levels := max first.depth second.depth
  have read := (Grammar.typeRef_read regular (Nat.le_max_left first.depth second.depth) []).2 rfl
  have read' := (Grammar.typeRef_read regular' (Nat.le_max_right first.depth second.depth) []).2 rfl
  rw [lexemes, read'] at read
  cases read
  rfl

end TypeRef

theorem DeclaredType.print_injective {first second : DeclaredType}
    (name : isName first.typeName = true) (name' : isName second.typeName = true)
    (same : first.print = second.print) : first = second := by
  rw [← toTypeRef_innermost] at name name'
  rw [← toTypeRef_print, ← toTypeRef_print] at same
  have types := TypeRef.print_injective first.toTypeRef_isRegular second.toTypeRef_isRegular name name' same
  rw [← ofTypeRef_toTypeRef first, types, ofTypeRef_toTypeRef]

theorem deepest_append {α : Type} (depth : α → Nat) (front back : List α) :
    deepest depth (front ++ back) = max (deepest depth front) (deepest depth back) := by
  induction front with
  | nil => exact (Nat.zero_max _).symm
  | cons a front ih => rw [List.cons_append, deepest, deepest, ih, Nat.max_assoc]

/-- The same texts stand around a part of a text, whatever the part is. -/
def Around {α : Type} (part whole : α → String) : Prop :=
  ∃ front back, ∀ a, whole a = front ++ part a ++ back

namespace Around

variable {α : Type} {part middle whole : α → String}

theorem trans (inner : Around part middle) (outer : Around middle whole) : Around part whole := by
  rcases inner with ⟨front, back, inside⟩
  rcases outer with ⟨before, after, outside⟩
  refine ⟨before ++ front, back ++ after, fun a => ?_⟩
  rw [outside, inside]
  simp only [String.append_assoc]

theorem enclosed (front back : String) (part : α → String) :
    Around part fun a => front ++ part a ++ back :=
  ⟨front, back, fun _ => rfl⟩

theorem joined (separator : String) (before after : List String) (part : α → String) :
    Around part fun a => Text.joined separator (before ++ part a :: after) := by
  induction before with
  | nil =>
    cases after with
    | nil => exact ⟨"", "", fun a => by simp [Text.joined]⟩
    | cons next others =>
      exact ⟨"", separator ++ Text.joined separator (next :: others), fun a => by
        simp [Text.joined, String.append_assoc]⟩
  | cons first others ih =>
    refine ih.trans ⟨first ++ separator, "", fun a => ?_⟩
    cases others with
    | nil => simp [Text.joined]
    | cons next rest => simp [Text.joined]

theorem spaced (before after : List String) {part : α → String} (nonempty : ∀ a, part a ≠ "") :
    Around part fun a => QueryEditor.spaced (before ++ part a :: after) := by
  have kept := Around.joined " " (before.filter (· != "")) (after.filter (· != "")) part
  simpa [QueryEditor.spaced, List.filter_append, nonempty] using kept

end Around

theorem VariableDefinition.around_print (name : String) (default? : Option Value) :
    Around TypeRef.print fun type => print ⟨name, type, default?⟩ := by
  cases default? with
  | none => exact ⟨"$" ++ name ++ ": ", "", fun type => by simp [print]⟩
  | some value =>
    exact ⟨"$" ++ name ++ ": ", " = " ++ value.print, fun type => by simp [print, String.append_assoc]⟩

/-- A place in a document where an operation declares a variable: everything but the type of the variable.
The declarations are those of the site, whatever the operation has. -/
structure DeclarationSite where
  earlier : List Definition
  op : Operation
  before : List VariableDefinition
  name : String
  default? : Option Value
  after : List VariableDefinition
  later : List Definition

namespace DeclarationSite

variable (site : DeclarationSite) (type : TypeRef)

def declaration : VariableDefinition :=
  ⟨site.name, type, site.default?⟩

def operation : Operation :=
  { site.op with declarations := site.before ++ site.declaration type :: site.after }

def document : Document :=
  ⟨site.earlier ++ .operation (site.operation type) :: site.later⟩

theorem exists_document {doc : Document} {op : Operation} {d : VariableDefinition}
    (operation : .operation op ∈ doc.definitions) (declared : d ∈ op.declarations) :
    ∃ site : DeclarationSite, site.name = d.name ∧ site.document d.type = doc := by
  obtain ⟨earlier, later, definitions⟩ := List.append_of_mem operation
  obtain ⟨before, after, declarations⟩ := List.append_of_mem declared
  refine ⟨⟨earlier, op, before, d.name, d.default?, after, later⟩, rfl, ?_⟩
  simp only [document, DeclarationSite.operation, declaration]
  rw [← declarations, ← definitions]

theorem operation_print : (site.operation type).print =
    spaced ([site.op.kind.keyword] ++
      (site.op.name.getD "" ++ "(" ++
        joined ", " (site.before.map VariableDefinition.print ++
          (site.declaration type).print :: site.after.map VariableDefinition.print) ++ ")") ::
      [printDirectives site.op.directives, Selection.printSet site.op.selections]) := by
  simp [Operation.print, Operation.isShorthand, operation, String.append_assoc]

theorem around_operation : Around TypeRef.print fun type => (site.operation type).print := by
  have one := VariableDefinition.around_print site.name site.default?
  have declarations := one.trans (Around.joined ", " (site.before.map VariableDefinition.print)
    (site.after.map VariableDefinition.print) _)
  have part := declarations.trans (Around.enclosed (site.op.name.getD "" ++ "(") ")" _)
  have whole := part.trans (Around.spaced [site.op.kind.keyword]
    [printDirectives site.op.directives, Selection.printSet site.op.selections]
    fun type empty => by simpa using congrArg String.length empty)
  simp only [operation_print]
  exact whole

theorem around_print : Around TypeRef.print fun type => (site.document type).print := by
  have definitions := site.around_operation.trans (Around.joined "\n\n"
    (site.earlier.map Definition.print) (site.later.map Definition.print) _)
  simpa [Document.print, document, Definition.print] using
    definitions.trans (Around.enclosed "" "\n" _)

section WellFormed

variable {old : TypeRef}

theorem declaration_grammatical {float : Binary64 → Bool}
    (good : (site.declaration old).all (.grammatical float) = true) (regular : type.isRegular = true)
    (name : isName type.innermost = true) : (site.declaration type).all (.grammatical float) = true := by
  simp only [declaration, VariableDefinition.all, Check.grammatical, Bool.and_eq_true] at good ⊢
  exact ⟨⟨⟨⟨good.1.1.1.1, name⟩, regular⟩, good.1.2⟩, good.2⟩

theorem declaration_depth (shallow : (site.declaration old).depth ≤ Grammar.maxDepth)
    (depth : type.depth ≤ Grammar.maxDepth) : (site.declaration type).depth ≤ Grammar.maxDepth := by
  rw [VariableDefinition.depth, Nat.max_le] at shallow ⊢
  exact ⟨depth, shallow.2⟩

theorem document_wellFormed (wellFormed : (site.document old).WellFormed)
    (regular : type.isRegular = true) (name : isName type.innermost = true)
    (depth : type.depth ≤ Grammar.maxDepth) : (site.document type).WellFormed := by
  rw [Document.wellFormed_iff] at wellFormed ⊢
  obtain ⟨-, good, shallow⟩ := wellFormed
  refine ⟨by simp [document], ?_, ?_⟩
  · simp only [document, operation, Document.all, Definition.all, List.all_append, List.all_cons,
      Bool.and_eq_true] at good ⊢
    obtain ⟨earlier, ⟨⟨⟨own, before, this, after⟩, directives⟩, selections⟩, later⟩ := good
    have declared := site.declaration_grammatical type this regular name
    exact ⟨earlier, ⟨⟨⟨own, before, declared, after⟩, directives⟩, selections⟩, later⟩
  · simp only [document, operation, Document.depth, Definition.depth, deepest_append, deepest,
      Nat.max_le] at shallow ⊢
    obtain ⟨earlier, ⟨⟨⟨before, this, after⟩, directives⟩, selections⟩, later⟩ := shallow
    have declared := site.declaration_depth type this depth
    exact ⟨earlier, ⟨⟨⟨before, declared, after⟩, directives⟩, selections⟩, later⟩

end WellFormed

end DeclarationSite

namespace DeclaredType

/-- A variable declared with the text of a schema's type is read back with that type, at every site. -/
theorem parse_declared {declared : DeclaredType} (name : isName declared.typeName = true)
    (depth : declared.depth ≤ Grammar.maxDepth) (site : DeclarationSite) {old : TypeRef}
    (wellFormed : (site.document old).WellFormed) :
    ∃ front back, (∀ type, (site.document type).print = front ++ type.print ++ back) ∧
      Document.parse (front ++ declared.print ++ back) = .ok (site.document declared.toTypeRef) := by
  rw [← toTypeRef_innermost] at name
  rw [← toTypeRef_depth] at depth
  obtain ⟨front, back, printed⟩ := site.around_print
  have wellFormed' := site.document_wellFormed declared.toTypeRef wellFormed declared.toTypeRef_isRegular
    name depth
  refine ⟨front, back, printed, ?_⟩
  rw [← toTypeRef_print, ← printed]
  exact Document.parse_print wellFormed'

theorem typeRef_declared {declared : DeclaredType} (name : isName declared.typeName = true)
    (depth : declared.depth ≤ Grammar.maxDepth) :
    ∃ tokens, ofText? declared.print = some tokens ∧
      ∀ rest, Reader.startsWith .bang rest = false →
        Grammar.typeRef Grammar.maxDepth (tokens ++ rest) = some (declared.toTypeRef, rest) := by
  rw [← toTypeRef_innermost] at name
  rw [← toTypeRef_depth] at depth
  refine ⟨declared.toTypeRef.lexemes, ?_, fun rest => ?_⟩
  · rw [← toTypeRef_print]
    exact TypeRef.ofText?_print name
  · exact (Grammar.typeRef_read declared.toTypeRef_isRegular depth rest).2

/-- Every type of a schema is one that a variable can have: it is written as the schema puts it, with at
most one mark to a level, and is read back from there. -/
theorem toTypeRef_declares (declared : DeclaredType) :
    declared.toTypeRef.isRegular = true ∧ declared.toTypeRef.print = declared.print ∧
    declared.toTypeRef.innermost = declared.typeName ∧
    declared.toTypeRef.isNonNull = !declared.nullable ∧
    (declared.toTypeRef.nullable.isNonNull = false ∧
      declared.toTypeRef = marked declared.nullable declared.toTypeRef.nullable ∧
      declared.print = declared.toTypeRef.nullable.print ++ (if declared.nullable then "" else "!")) ∧
    (isName declared.typeName = true → declared.depth ≤ Grammar.maxDepth →
      (∀ (site : DeclarationSite) (old : TypeRef), (site.document old).WellFormed →
        ∃ front back, (∀ type, (site.document type).print = front ++ type.print ++ back) ∧
          Document.parse (front ++ declared.print ++ back) = .ok (site.document declared.toTypeRef)) ∧
      ∃ tokens, ofText? declared.print = some tokens ∧
        ∀ rest, Reader.startsWith .bang rest = false →
          Grammar.typeRef Grammar.maxDepth (tokens ++ rest) = some (declared.toTypeRef, rest)) ∧
    (isName declared.typeName = true →
      ∀ other : DeclaredType, isName other.typeName = true → other.print = declared.print →
        other = declared) := by
  obtain ⟨outermost, bare⟩ := toTypeRef_marked declared
  have parts : declared.print =
      declared.toTypeRef.nullable.print ++ (if declared.nullable then "" else "!") := by
    rw [← toTypeRef_print, ← marked_print, outermost]
  refine ⟨toTypeRef_isRegular declared, toTypeRef_print declared, toTypeRef_innermost declared,
    toTypeRef_isNonNull declared, ⟨bare, outermost.symm, parts⟩, fun name depth => ?_,
    fun name other name' same => print_injective name' name same⟩
  exact ⟨fun site old wellFormed => parse_declared name depth site wellFormed,
    typeRef_declared name depth⟩

/-- A list of lists in a query that declared a variable with another type. -/
theorem toTypeRef_declares_lists :
    let declared : DeclaredType := .list (.list (.named "Int" false) true) false
    let site : DeclarationSite :=
      { earlier := [], before := [], name := "ids", default? := none, after := [], later := []
        op := { kind := .query, selections := [.field { name := "things" }] } }
    declared.toTypeRef = .nonNull (.list (.list (.nonNull (.named "Int")))) ∧
    ∃ front back, front ++ "[[Int!]]!" ++ back = "query ($ids: [[Int!]]!) \x7b\n  things\n\x7d\n" ∧
      Document.parse (front ++ declared.print ++ back) = .ok (site.document declared.toTypeRef) := by
  intro declared site
  have wellFormed : (site.document (.named "ID")).WellFormed := by
    refine (Document.wellFormed_iff _).mpr ⟨List.cons_ne_nil _ _, by decide +kernel, by decide +kernel⟩
  obtain ⟨-, printed, -, -, -, reads, -⟩ := toTypeRef_declares declared
  obtain ⟨front, back, around, parsed⟩ :=
    (reads (by decide +kernel) (by decide +kernel)).1 site _ wellFormed
  have text : declared.print = "[[Int!]]!" := by decide +kernel
  have whole : (site.document declared.toTypeRef).print =
      "query ($ids: [[Int!]]!) \x7b\n  things\n\x7d\n" := by decide +kernel
  refine ⟨rfl, front, back, ?_, parsed⟩
  rw [← whole, around, printed, text]

end DeclaredType

end QueryEditor
