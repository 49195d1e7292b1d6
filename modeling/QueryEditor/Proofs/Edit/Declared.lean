import QueryEditor.Proofs.Edit.Mentions

namespace QueryEditor

namespace Operation

variable {op : Operation} {value : Value} {beside : List String}

def Closed (op : Operation) : Prop :=
  ∀ name, op.Mentions name → name ∈ op.declarations.map (·.name)

theorem closed_iff : op.Closed ↔ op.mentioned ⊆ op.declarations.map (·.name) :=
  forall_congr' fun _ => imp_congr_left mem_mentioned.symm

theorem isUsedOnlyIn_iff (perm : op.mentioned.Perm (value.mentioned ++ beside)) (name : String) :
    Document.isUsedOnlyIn op value name = true ↔ name ∈ value.mentioned ∧ name ∉ beside := by
  have count := perm.count_eq name
  have unused : name ∉ beside ↔ beside.count name = 0 := List.count_eq_zero.symm
  rw [List.count_append] at count
  rw [unused, Document.isUsedOnlyIn, Bool.and_eq_true, List.contains_iff_mem, decide_eq_true_iff, uses,
    count]
  apply and_congr_right
  intro _
  omega

theorem uses_eq_zero {name : String} : op.uses name = 0 ↔ name ∉ op.mentioned :=
  List.count_eq_zero

namespace Introduces

variable {type : DeclaredType} {declaration : VariableDefinition}
  (introduces : op.Introduces type value declaration)

include introduces

theorem name_ne {d : VariableDefinition} (member : d ∈ op.declarations) : d.name ≠ declaration.name := by
  intro same
  exact introduces.new (same ▸ List.mem_map_of_mem member)

theorem declaration?_concat (selections : List Selection) :
    declaration? { op with declarations := op.declarations ++ [declaration], selections }
      declaration.name = some declaration := by
  have absent : op.declarations.find? (·.name == declaration.name) = none :=
    List.find?_eq_none.mpr fun d member => by simpa using introduces.name_ne member
  rw [declaration?, List.find?_append, absent]
  simp

theorem defaultOf_concat (constant : value.mentioned = []) (selections : List Selection) :
    defaultOf { op with declarations := op.declarations ++ [declaration], selections }
      declaration.name = value := by
  rw [defaultOf, introduces.declaration?_concat, Option.bind_some, introduces.default_eq,
    Value.substitute_constant constant]

theorem filter_concat :
    (op.declarations ++ [declaration]).filter (·.name != declaration.name) = op.declarations := by
  have kept : op.declarations.filter (·.name != declaration.name) = op.declarations :=
    List.filter_eq_self.mpr fun d member => bne_iff_ne.mpr (introduces.name_ne member)
  rw [List.filter_append, kept]
  simp

end Introduces

end Operation

namespace Document

variable {doc after : Document} {id : DefinitionId} {path : ArgumentPath} {op : Operation}
  {schema : Schema}

/-- The variable that a value is promoted to is not declared before. Afterwards it is mentioned where
the value was, and wherever else the operation mentioned its name without declaring it: nowhere, if
every variable was declared. (In a `__typename` at the root nothing can be put.) -/
theorem promoted_mentions (there : doc.definition? id = some (.operation op))
    (done : doc.promote id path schema = .ok after) :
    let written := if path.field.segments.head? = some typenameField then 0 else 1
    ∃ edited declaration, after = ⟨doc.definitions.set id (.operation edited)⟩ ∧
      edited.declarations.getLast? = some declaration ∧
      declaration.name ∉ op.declarations.map (·.name) ∧
      edited.uses declaration.name =
        written + (doc.mentionedBeside id path).count declaration.name ∧
      (declaration.name ∉ op.mentioned → edited.uses declaration.name = written) ∧
      (op.Closed → declaration.name ∉ op.mentioned) := by
  intro written
  rcases promote_written there done with
    ⟨field, target, current, declaration, selections, _, held, _, introduces, put, made⟩
  have perm := mentioned_written there put
  have count : Operation.uses { op with selections } declaration.name =
      written + (doc.mentionedBeside id path).count declaration.name := by
    rw [Operation.uses, perm.count_eq, List.count_append]
    congr 1
    by_cases root : path.field.segments.head? = some typenameField
    · simp only [written, if_pos root, List.count_nil]
    · simp [written, if_neg root, Value.mentioned]
  refine ⟨_, declaration, made, List.getLast?_concat, introduces.new, count, ?_, ?_⟩
  · intro new
    have beside : declaration.name ∉ doc.mentionedBeside id path :=
      fun member => new (mentionedBeside_subset there held member)
    rw [List.count_eq_zero_of_not_mem beside] at count
    exact count
  · intro closed member
    exact introduces.new (closed _ (Operation.mem_mentioned.mp member))

theorem defaulted_closed : defaulted.Closed :=
  Operation.closed_iff.mpr (by decide)

theorem promoted_mentions_defaulted :
    let path : ArgumentPath := { field := ⟨["a"]⟩, argument := "x" }
    defaulted.Closed ∧ ∃ edited declaration,
      promote ⟨[.operation defaulted]⟩ 0 path Session.sampleSchema = .ok ⟨[.operation edited]⟩ ∧
      edited.declarations.getLast? = some declaration ∧ declaration.name ∉ defaulted.mentioned ∧
      edited.uses declaration.name = 1 := by
  intro path
  let promoted : Operation := { defaulted with
    declarations := [⟨"x", .named "Int", none⟩, ⟨"x1", .named "Int", some (.int 3)⟩]
    selections := .field { name := "a", arguments := [⟨"x", .variable "x1"⟩] } ::
      defaulted.selections.tail }
  have done : promote ⟨[.operation defaulted]⟩ 0 path Session.sampleSchema =
      .ok ⟨[.operation promoted]⟩ := by decide +kernel
  rcases promoted_mentions rfl done with ⟨edited, declaration, made, last, -, -, once, unmentioned⟩
  have new := unmentioned defaulted_closed
  exact ⟨defaulted_closed, edited, declaration, done.trans (congrArg Except.ok made), last, new, once new⟩

def undeclared : Operation where
  kind := .query
  selections := [
    .field { name := "a", arguments := [⟨"x", .int 1⟩] },
    .field { name := "b", directives := [⟨"skip", [⟨"if", .variable "x"⟩]⟩] }]

/-- The condition on `b`, which stands for null, comes to stand for the value of the argument of `a`. -/
theorem undeclared_mention_captured :
    let path : ArgumentPath := { field := ⟨["a"]⟩, argument := "x" }
    let captured : Operation := { undeclared with
      declarations := [⟨"x", .named "Int", some (.int 1)⟩]
      selections := .field { name := "a", arguments := [⟨"x", .variable "x"⟩] } ::
        undeclared.selections.tail }
    promote ⟨[.operation undeclared]⟩ 0 path Session.sampleSchema = .ok ⟨[.operation captured]⟩ ∧
      "x" ∈ undeclared.mentioned ∧ captured.uses "x" = 2 ∧
      captured.evaluated ≠ undeclared.evaluated := by
  decide +kernel

section Accounting

variable (there : doc.definition? id = some (.operation op))
  (normal : Selections.normalize op.selections = op.selections)

include there normal

theorem promote_accounted (done : doc.promote id path schema = .ok after) :
    ∃ field target value declaration selections without,
      schema.inputAt doc id path = .ok (field, target) ∧
      Selections.Exchange value (.variable declaration.name) path.names path.field.segments
        op.selections selections ∧
      Selections.Exchange value .null path.names path.field.segments op.selections without ∧
      op.Introduces target.type value declaration ∧
      after = ⟨doc.definitions.set id (.operation { op with
        declarations := op.declarations.filter (fun d =>
          ¬(value.Mentions d.name ∧ ¬ Operation.Mentions d.name { op with selections := without })) ++
            [declaration]
        selections })⟩ := by
  rcases promote_ok there normal done with
    ⟨field, target, value, declaration, selections, resolved, exchange, introduces, made⟩
  rcases Selections.exists_exchange_of_valueAt? exchange.valueAt? .null with ⟨without, emptied⟩
  have same := Selections.exchange_of_valueAt? exchange.valueAt?
  have before := Operation.mentioned_perm same emptied
  refine ⟨field, target, value, declaration, selections, without, resolved, exchange, emptied,
    introduces, made.trans ?_⟩
  have kept : op.declarations.filter (!isUsedOnlyIn op value ·.name) = op.declarations.filter (fun d =>
      ¬(value.Mentions d.name ∧ ¬ Operation.Mentions d.name { op with selections := without })) := by
    apply List.filter_congr
    intro d _
    rw [Bool.eq_iff_iff, Bool.not_eq_true', Bool.eq_false_iff, Ne, Operation.isUsedOnlyIn_iff before,
      decide_eq_true_iff, Value.mem_mentioned, Operation.mem_mentioned]
  rw [kept]

theorem inline_accounted (done : doc.inline id path = .ok after) : ∃ name value selections,
    StandsFor name op.declarations value ∧
    Selections.Exchange (.variable name) value path.names path.field.segments op.selections
      selections ∧
    after = ⟨doc.definitions.set id (.operation { op with
      declarations := if Operation.Mentions name { op with selections } then op.declarations
        else op.declarations.filter (·.name != name)
      selections })⟩ := by
  rcases inline_ok there normal done with ⟨name, selections, exchange, made⟩
  refine ⟨name, op.defaultOf name, selections, standsFor_iff.mpr rfl, exchange, made.trans ?_⟩
  simp only [Operation.uses_eq_zero, Operation.mem_mentioned, ite_not]

theorem promote_closed (closed : op.Closed) (done : doc.promote id path schema = .ok after) :
    ∃ edited, after = ⟨doc.definitions.set id (.operation edited)⟩ ∧ edited.Closed := by
  rcases promote_accounted there normal done with
    ⟨_, _, value, declaration, selections, without, _, exchange, emptied, _, made⟩
  refine ⟨_, made, fun name mentions => ?_⟩
  -- What is mentioned afterwards is the new variable, or stood beside the value and stays declared.
  rw [List.map_append]
  rcases (Operation.mentions_exchanged exchange emptied).mp mentions with new | beside
  · cases new
    exact List.mem_append_right _ (List.mem_singleton_self _)
  · have same := Selections.exchange_of_valueAt? exchange.valueAt?
    have before := closed name ((Operation.mentions_exchanged same emptied).mpr (.inr beside))
    rcases List.mem_map.mp before with ⟨d, declares, rfl⟩
    have kept : ¬(value.Mentions d.name ∧
        ¬ Operation.Mentions d.name { op with selections := without }) :=
      fun only => only.2 beside
    apply List.mem_append_left
    exact List.mem_map_of_mem (List.mem_filter.mpr ⟨declares, decide_eq_true kept⟩)

theorem inline_closed
    (constant : ∀ d ∈ op.declarations, ∀ value ∈ d.default?, ∀ name, ¬ value.Mentions name)
    (closed : op.Closed) (done : doc.inline id path = .ok after) :
    ∃ edited, after = ⟨doc.definitions.set id (.operation edited)⟩ ∧ edited.Closed := by
  rcases inline_accounted there normal done with ⟨name, value, selections, stands, exchange, made⟩
  have nothing : ∀ other, ¬ value.Mentions other := stands.constant constant
  rcases Selections.exists_exchange_of_valueAt? exchange.valueAt? .null with ⟨without, emptied⟩
  have same := Selections.exchange_of_valueAt? exchange.valueAt?
  refine ⟨_, made, fun other mentions => ?_⟩
  -- The default mentions nothing, so that whatever is mentioned stood beside the variable.
  have beside := ((Operation.mentions_exchanged exchange emptied).mp mentions).resolve_left
    (nothing other)
  have before := closed other ((Operation.mentions_exchanged same emptied).mpr (.inr beside))
  by_cases remains : Operation.Mentions name { op with selections }
  · simpa only [if_pos remains] using before
  · rcases List.mem_map.mp before with ⟨d, declares, rfl⟩
    have different : d.name ≠ name := by
      rintro rfl
      exact remains mentions
    simp only [if_neg remains]
    exact List.mem_map_of_mem (List.mem_filter.mpr ⟨declares, bne_iff_ne.mpr different⟩)

/-- Putting the default of the new variable back restores the value; the variable stays declared if
the operation mentioned its name before. -/
theorem inline_of_promote {value : Value} (held : doc.valueAt id path = .ok value)
    (constant : value.mentioned = []) (done : doc.promote id path schema = .ok after) :
    ∃ edited declaration, after = ⟨doc.definitions.set id (.operation edited)⟩ ∧
      edited.declarations.getLast? = some declaration ∧
      after.inline id path = .ok ⟨doc.definitions.set id (.operation { op with
        declarations := if declaration.name ∈ op.mentioned then op.declarations ++ [declaration]
          else op.declarations })⟩ := by
  rcases promote_written there done with
    ⟨field, target, value', declaration, selections, _, held', _, introduces, put, made⟩
  cases held.symm.trans held'
  rcases updateSlots_current there normal held put with ⟨_, exchange, same⟩
  cases set_operation_inj there same
  -- A value that mentions nothing takes no declaration with it.
  have kept : op.declarations.filter (!isUsedOnlyIn op value ·.name) = op.declarations := by
    apply List.filter_eq_self.mpr
    intro d _
    simp [isUsedOnlyIn, constant]
  rw [kept] at made
  let edited : Operation := { op with declarations := op.declarations ++ [declaration], selections }
  have there' : after.definition? id = some (.operation edited) := by
    rw [made, definition?_set there, if_pos rfl]
  have variableHeld : after.valueAt id path = .ok (.variable declaration.name) :=
    valueAt_ok.mpr ⟨_, there', exchange.symm.valueAt?⟩
  -- The way back is the exchange read from its other end.
  have back : after.updateSlots id path (Slots.replace path.leafName value) =
      .ok ⟨after.definitions.set id (.operation { edited with selections := op.selections })⟩ := by
    refine updateSlots_ok.mpr ⟨_, _, op.selections, there', exchange.symm, ?_⟩
    rw [Definition.rooted, normal]
  refine ⟨edited, declaration, made, List.getLast?_concat, (inline_written there').mpr ?_⟩
  refine ⟨declaration.name, op.selections, variableHeld, ?_, ?_, ?_⟩
  · rw [introduces.declaration?_concat, Option.isSome_some]
  · rw [introduces.defaultOf_concat constant, back]
  · simp only [Operation.uses_eq_zero, ite_not, edited, introduces.filter_concat, made, List.set_set]
    rfl

end Accounting

/-- Promoting a value declares one variable more, the last, and those no longer that the value alone
mentioned; putting a default in the place of a variable leaves the declarations as they are if the
variable is still mentioned, and else drops those of its name. Neither leaves a variable undeclared that
was declared before, if no default mentions variables. -/
theorem declarations_accounted (there : doc.definition? id = some (.operation op))
    (normal : Selections.normalize op.selections = op.selections) :
    (doc.promote id path schema = .ok after →
      ∃ field target value declaration selections without,
        schema.inputAt doc id path = .ok (field, target) ∧ schema.LeadsTo op.kind path field target ∧
        Selections.Exchange value (.variable declaration.name) path.names path.field.segments
          op.selections selections ∧
        Selections.Exchange value .null path.names path.field.segments op.selections without ∧
        op.Introduces target.type value declaration ∧
        after = ⟨doc.definitions.set id (.operation { op with
          declarations := op.declarations.filter (fun d =>
            ¬(value.Mentions d.name ∧ ¬ Operation.Mentions d.name { op with selections := without })) ++
              [declaration]
          selections })⟩) ∧
    (doc.inline id path = .ok after → ∃ name value selections,
      StandsFor name op.declarations value ∧
      Selections.Exchange (.variable name) value path.names path.field.segments op.selections
        selections ∧
      after = ⟨doc.definitions.set id (.operation { op with
        declarations := if Operation.Mentions name { op with selections } then op.declarations
          else op.declarations.filter (·.name != name)
        selections })⟩) ∧
    ((∀ d ∈ op.declarations, ∀ value ∈ d.default?, ∀ name, ¬ value.Mentions name) → op.Closed →
      doc.promote id path schema = .ok after ∨ doc.inline id path = .ok after →
      ∃ edited, after = ⟨doc.definitions.set id (.operation edited)⟩ ∧ edited.Closed) := by
  refine ⟨fun done => ?_, fun done => inline_accounted there normal done,
    fun constant closed done => ?_⟩
  · rcases promote_accounted there normal done with
      ⟨field, target, value, declaration, selections, without, resolved, accounted⟩
    exact ⟨field, target, value, declaration, selections, without, resolved,
      Schema.inputAt_leadsTo there resolved, accounted⟩
  · rcases done with promoted | inlined
    · exact promote_closed there normal closed promoted
    · exact inline_closed there normal constant closed inlined

def idsInput : InputField where
  name := "ids"
  location := .introspection
  parent := "Filter"
  type := .list (.named "Int" false) false

def activeInput : InputField where
  name := "active"
  location := .introspection
  parent := "Filter"
  type := .named "Boolean" false

/-- The schema `type Query { a(filter: Filter!, first: Int): Int b: Int }` with
`input Filter { ids: [Int!]! active: Boolean! }`. -/
def filterSchema : Schema where
  types := .ofList [.builtin .int, .builtin .boolean,
    .input { name := "Filter", location := .introspection, fields := .ofList [idsInput, activeInput] },
    .object { name := "Query", location := .introspection, fields := .ofList [
      { name := "a", location := .introspection, parent := "Query", type := .named "Int" true,
        arguments := .ofList [
          { name := "filter", location := .introspection, type := .named "Filter" false },
          { name := "first", location := .introspection, type := .named "Int" true }] },
      { name := "b", location := .introspection, parent := "Query", type := .named "Int" true }] }]
  queryName := "Query"

def filtering (declarations : List VariableDefinition) (ids active first : Value) : Operation where
  kind := .query
  declarations := declarations
  selections := [
    .field { name := "a", arguments := [
      ⟨"filter", .object [⟨"ids", ids⟩, ⟨"active", active⟩]⟩, ⟨"first", first⟩] },
    .field { name := "b", directives := [⟨"skip", [⟨"if", .variable "x"⟩]⟩] }]

/-- The operation `query ($v: Int = 3, $w: Int, $x: Boolean) { a(filter: {ids: [$v, $w], active: $x},
first: $v) b @skip(if: $x) }`. -/
def filtered : Operation :=
  filtering [⟨"v", .named "Int", some (.int 3)⟩, ⟨"w", .named "Int", none⟩, ⟨"x", .named "Boolean", none⟩]
    (.list [.variable "v", .variable "w"]) (.variable "x") (.variable "v")

theorem filtered_closed : filtered.Closed :=
  Operation.closed_iff.mpr (by decide)

theorem filtered_constant :
    ∀ d ∈ filtered.declarations, ∀ value ∈ d.default?, ∀ name, ¬ value.Mentions name := by
  have nothing : ∀ d ∈ filtered.declarations, ∀ value ∈ d.default?, value.mentioned = [] := by decide
  intro d member value default name mentions
  have there := Value.mem_mentioned.mpr mentions
  rw [nothing d member value default] at there
  cases there

theorem single_operation_inj {first second : Operation}
    (same : (⟨[.operation first]⟩ : Document) = ⟨[.operation second]⟩) : first = second := by
  cases same
  rfl

/-- With a default the ids may be null, and `w` is not declared any more; without one, whether to be
active stays required. -/
theorem declarations_accounted_filtered :
    let doc : Document := ⟨[.operation filtered]⟩
    let pathTo (argument : String) (inputFields : List String) : ArgumentPath :=
      ⟨⟨["a"]⟩, argument, inputFields⟩
    let ids : VariableDefinition :=
      ⟨"ids", .list (.nonNull (.named "Int")), some (.list [.int 3, .null])⟩
    let active : VariableDefinition := ⟨"active", .nonNull (.named "Boolean"), none⟩
    (∃ promoted value,
      doc.promote 0 (pathTo "filter" ["ids"]) filterSchema = .ok ⟨[.operation promoted]⟩ ∧
      promoted.declarations = [⟨"v", .named "Int", some (.int 3)⟩, ⟨"x", .named "Boolean", none⟩, ids] ∧
      filtered.Introduces (.list (.named "Int" false) false) value ids ∧ promoted.Closed) ∧
    (∃ promoted value,
      doc.promote 0 (pathTo "filter" ["active"]) filterSchema = .ok ⟨[.operation promoted]⟩ ∧
      promoted.declarations = filtered.declarations ++ [active] ∧
      filtered.Introduces (.named "Boolean" false) value active ∧ promoted.Closed) ∧
    ∃ inlined value, doc.inline 0 (pathTo "first" []) = .ok ⟨[.operation inlined]⟩ ∧
      inlined.declarations = filtered.declarations ∧
      StandsFor "v" filtered.declarations value ∧ inlined.Closed := by
  intro doc pathTo ids active
  have normal : Selections.normalize filtered.selections = filtered.selections := by decide
  have law (after : Document) (path : ArgumentPath) :=
    @declarations_accounted doc after 0 path filtered filterSchema rfl normal
  have promoted_at (input : InputField) (before : List VariableDefinition) {path : ArgumentPath}
      {promoted : Operation} {last : VariableDefinition}
      (promotes : doc.promote 0 path filterSchema = .ok ⟨[.operation promoted]⟩)
      (known : (filterSchema.inputAt doc 0 path).map (·.2) = .ok (.inputField input))
      (declared : promoted.declarations = before ++ [last]) :
      ∃ value, filtered.Introduces input.type value last ∧ promoted.Closed := by
    rcases (law _ path).1 promotes with
      ⟨_, target, value, declaration, _, _, resolved, -, -, -, introduces, made⟩
    rcases (law _ path).2.2 filtered_constant filtered_closed (.inl promotes) with ⟨_, same, closed⟩
    cases single_operation_inj same
    rw [resolved] at known
    cases known
    rw [single_operation_inj made] at declared
    cases (List.append_inj' declared rfl).2
    exact ⟨value, introduces, closed⟩
  refine ⟨?_, ?_, ?_⟩
  · let promoted := filtering
      [⟨"v", .named "Int", some (.int 3)⟩, ⟨"x", .named "Boolean", none⟩, ids]
      (.variable "ids") (.variable "x") (.variable "v")
    have promotes : doc.promote 0 (pathTo "filter" ["ids"]) filterSchema =
        .ok ⟨[.operation promoted]⟩ := by decide +kernel
    obtain ⟨value, introduces⟩ := promoted_at idsInput [_, _] promotes (by decide +kernel) rfl
    exact ⟨promoted, value, promotes, rfl, introduces⟩
  · let promoted := filtering (filtered.declarations ++ [active])
      (.list [.variable "v", .variable "w"]) (.variable "active") (.variable "v")
    have promotes : doc.promote 0 (pathTo "filter" ["active"]) filterSchema =
        .ok ⟨[.operation promoted]⟩ := by decide +kernel
    obtain ⟨value, introduces⟩ := promoted_at activeInput _ promotes (by decide +kernel) rfl
    exact ⟨promoted, value, promotes, rfl, introduces⟩
  · let inlined := filtering filtered.declarations
      (.list [.variable "v", .variable "w"]) (.variable "x") (.int 3)
    have inlines : doc.inline 0 (pathTo "first" []) = .ok ⟨[.operation inlined]⟩ := by decide +kernel
    rcases (law _ _).2.1 inlines with ⟨name, value, _, stands, exchange, -⟩
    rcases (law _ _).2.2 filtered_constant filtered_closed (.inr inlines) with ⟨_, same, closed⟩
    cases single_operation_inj same
    have held : some (.ok (.variable "v")) = some (Except.ok (Value.variable name)) := exchange.valueAt?
    cases held
    exact ⟨inlined, value, inlines, rfl, stands, closed⟩

/-- Putting the default of the new variable back undoes the promotion of a value without variables,
unless the operation mentioned the variable's name already. -/
theorem inline_promoted (there : doc.definition? id = some (.operation op))
    (normal : Selections.normalize op.selections = op.selections) {value : Value}
    (held : doc.valueAt id path = .ok value) (constant : value.mentioned = [])
    (done : doc.promote id path schema = .ok after) :
    ∃ edited declaration, after = ⟨doc.definitions.set id (.operation edited)⟩ ∧
      edited.declarations.getLast? = some declaration ∧
      (after.inline id path = .ok doc ↔ declaration.name ∉ op.mentioned) := by
  rcases inline_of_promote there normal held constant done with ⟨edited, declaration, made, last, inlined⟩
  refine ⟨edited, declaration, made, last, ?_⟩
  have unchanged : doc = ⟨doc.definitions.set id (.operation op)⟩ := (set_definition_self there).symm
  rw [inlined, Except.ok.injEq]
  constructor
  · intro same member
    rw [if_pos member] at same
    have operations := set_operation_inj there (same.trans unchanged)
    have lengths := congrArg (·.declarations.length) operations
    simp at lengths
  · intro new
    rw [if_neg new]
    exact unchanged.symm

theorem inline_promoted_undeclared :
    let path : ArgumentPath := { field := ⟨["a"]⟩, argument := "x" }
    let declared : Operation := { undeclared with declarations := [⟨"x", .named "Int", none⟩] }
    ∃ promoted, promote ⟨[.operation declared]⟩ 0 path Session.sampleSchema = .ok promoted ∧
      promoted ≠ ⟨[.operation declared]⟩ ∧ promoted.inline 0 path = .ok ⟨[.operation declared]⟩ := by
  intro path declared
  let promoted : Operation := { declared with
    declarations := [⟨"x", .named "Int", none⟩, ⟨"x1", .named "Int", some (.int 1)⟩]
    selections := .field { name := "a", arguments := [⟨"x", .variable "x1"⟩] } ::
      undeclared.selections.tail }
  have done : promote ⟨[.operation declared]⟩ 0 path Session.sampleSchema =
      .ok ⟨[.operation promoted]⟩ := by decide +kernel
  have normal : Selections.normalize declared.selections = declared.selections := by decide
  have held : valueAt ⟨[.operation declared]⟩ 0 path = .ok (.int 1) := by decide
  rcases inline_promoted rfl normal held rfl done with ⟨edited, declaration, made, last, undone⟩
  cases made
  cases last
  exact ⟨_, done, by decide, undone.mpr (by decide)⟩

end Document

end QueryEditor
