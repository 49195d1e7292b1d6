import QueryEditor.Proofs.Document.Mentions
import QueryEditor.Proofs.Edit.Names
import QueryEditor.Proofs.Edit.Variables
import QueryEditor.Proofs.Session.Run

namespace QueryEditor

def Directive.substitute (replacement : String → Value) (directive : Directive) : Directive :=
  { directive with arguments := Value.substituteSlots replacement directive.arguments }

theorem Directive.map_substitute_congr {replacement replacement' : String → Value}
    {directives : List Directive}
    (agree : ∀ name ∈ directives.flatMap Directive.mentioned, replacement name = replacement' name) :
    directives.map (substitute replacement) = directives.map (substitute replacement') := by
  refine List.map_congr_left fun directive member => ?_
  have inside : ∀ name ∈ directive.mentioned, replacement name = replacement' name :=
    fun name there => agree name (List.mem_flatMap.mpr ⟨directive, member, there⟩)
  rw [substitute, substitute, Value.substituteSlots_congr inside]

namespace Selection

mutual

def substitute (replacement : String → Value) : Selection → Selection
  | field ⟨aliasName, name, arguments, directives, children⟩ =>
    field ⟨aliasName, name, Value.substituteSlots replacement arguments,
      directives.map (Directive.substitute replacement), substituteAll replacement children⟩
  | spread ⟨fragment, directives⟩ =>
    spread ⟨fragment, directives.map (Directive.substitute replacement)⟩
  | inline ⟨condition, directives, children⟩ =>
    inline ⟨condition, directives.map (Directive.substitute replacement),
      substituteAll replacement children⟩

def substituteAll (replacement : String → Value) : List Selection → List Selection
  | [] => []
  | selection :: rest => substitute replacement selection :: substituteAll replacement rest

end

theorem substituteAll_eq (replacement : String → Value) (selections : List Selection) :
    substituteAll replacement selections = selections.map (substitute replacement) := by
  induction selections with
  | nil => rfl
  | cons selection rest ih => rw [substituteAll, ih, List.map_cons]

variable {replacement replacement' : String → Value}

theorem substituteAll_congr_of {selections : List Selection}
    (each : ∀ selection ∈ selections,
      (∀ name ∈ selection.mentioned, replacement name = replacement' name) →
        selection.substitute replacement = selection.substitute replacement')
    (agree : ∀ name ∈ mentionedByAll selections, replacement name = replacement' name) :
    substituteAll replacement selections = substituteAll replacement' selections := by
  rw [mentionedByAll_eq] at agree
  rw [substituteAll_eq, substituteAll_eq]
  exact List.map_congr_left fun selection member => each selection member fun name there =>
    agree name (List.mem_flatMap.mpr ⟨selection, member, there⟩)

theorem substitute_congr {selection : Selection}
    (agree : ∀ name ∈ selection.mentioned, replacement name = replacement' name) :
    selection.substitute replacement = selection.substitute replacement' := by
  induction selection using Selection.inductionOn with
  | field node ih =>
    obtain ⟨aliasName, name, arguments, directives, children⟩ := node
    simp only [mentioned, List.mem_append, or_imp, forall_and] at agree
    obtain ⟨⟨inArguments, inDirectives⟩, beneath⟩ := agree
    rw [substitute, substitute, Value.substituteSlots_congr inArguments,
      Directive.map_substitute_congr inDirectives, substituteAll_congr_of ih beneath]
  | spread node =>
    rw [substitute, substitute, Directive.map_substitute_congr agree]
  | inline node ih =>
    obtain ⟨condition, directives, children⟩ := node
    simp only [mentioned, List.mem_append, or_imp, forall_and] at agree
    obtain ⟨inDirectives, beneath⟩ := agree
    rw [substitute, substitute, Directive.map_substitute_congr inDirectives,
      substituteAll_congr_of ih beneath]

theorem substituteAll_congr {selections : List Selection}
    (agree : ∀ name ∈ mentionedByAll selections, replacement name = replacement' name) :
    substituteAll replacement selections = substituteAll replacement' selections :=
  substituteAll_congr_of (fun _ _ => substitute_congr) agree

end Selection

section Exchange

open Value Selection

variable {old new : Value} {names segments : List String}

/-- What is mentioned beside a value stays when another one takes its place, and nothing else has to be
looked at to compare what they come to. -/
theorem Slots.Exchange.besides {before after : List Slot}
    (exchange : Slots.Exchange old new names before after) : ∃ others : List String,
    (∀ name, (mentionedBySlots before).count name = old.mentioned.count name + others.count name) ∧
    (∀ name, (mentionedBySlots after).count name = new.mentioned.count name + others.count name) ∧
    ∀ replacement replacement', (∀ name ∈ others, replacement name = replacement' name) →
      old.substitute replacement = new.substitute replacement' →
      substituteSlots replacement before = substituteSlots replacement' after := by
  induction exchange with
  | @here name rest =>
    refine ⟨mentionedBySlots rest, fun name => ?_, fun name => ?_, fun _ _ agree put => ?_⟩
    · rw [mentionedBySlots, List.count_append]
    · rw [mentionedBySlots, List.count_append]
    · rw [substituteSlots, substituteSlots, put, substituteSlots_congr agree]
  | @within name next inner fields fields' rest _ ih =>
    obtain ⟨others, countBefore, countAfter, same⟩ := ih
    refine ⟨others ++ mentionedBySlots rest, fun name => ?_, fun name => ?_, fun _ _ agree put => ?_⟩
    · rw [mentionedBySlots, Value.mentioned, List.count_append, List.count_append, countBefore]
      omega
    · rw [mentionedBySlots, Value.mentioned, List.count_append, List.count_append, countAfter]
      omega
    · simp only [List.mem_append, or_imp, forall_and] at agree
      rw [substituteSlots, substituteSlots, Value.substitute, Value.substitute, same _ _ agree.1 put,
        substituteSlots_congr agree.2]
  | @behind name inner slot rest rest' _ _ ih =>
    obtain ⟨others, countBefore, countAfter, same⟩ := ih
    refine ⟨slot.value.mentioned ++ others, fun name => ?_, fun name => ?_, fun _ _ agree put => ?_⟩
    · rw [mentionedBySlots, List.count_append, List.count_append, countBefore]
      omega
    · rw [mentionedBySlots, List.count_append, List.count_append, countAfter]
      omega
    · simp only [List.mem_append, or_imp, forall_and] at agree
      rw [substituteSlots, substituteSlots, Value.substitute_congr agree.1, same _ _ agree.2 put]

theorem Selections.Exchange.besides {before after : List Selection}
    (exchange : Selections.Exchange old new names segments before after) : ∃ others : List String,
    (∀ name, (mentionedByAll before).count name = old.mentioned.count name + others.count name) ∧
    (∀ name, (mentionedByAll after).count name = new.mentioned.count name + others.count name) ∧
    ∀ replacement replacement', (∀ name ∈ others, replacement name = replacement' name) →
      old.substitute replacement = new.substitute replacement' →
      substituteAll replacement before = substituteAll replacement' after := by
  induction exchange with
  | @argument node arguments rest inside =>
    obtain ⟨aliasName, name, arguments', directives, children⟩ := node
    obtain ⟨others, countBefore, countAfter, same⟩ := inside.besides
    refine ⟨others ++ directives.flatMap Directive.mentioned ++ mentionedByAll children ++
      mentionedByAll rest, fun name => ?_, fun name => ?_, fun _ _ agree put => ?_⟩
    · simp only [mentionedByAll, Selection.mentioned, List.count_append, countBefore]
      omega
    · simp only [mentionedByAll, Selection.mentioned, List.count_append, countAfter]
      omega
    · simp only [List.mem_append, or_imp, forall_and] at agree
      obtain ⟨⟨⟨inArguments, inDirectives⟩, beneath⟩, behind⟩ := agree
      rw [substituteAll, substituteAll, Selection.substitute, Selection.substitute, same _ _ inArguments put,
        Directive.map_substitute_congr inDirectives, substituteAll_congr beneath,
        substituteAll_congr behind]
  | @beneath node next inner children rest _ ih =>
    obtain ⟨aliasName, name, arguments, directives, children'⟩ := node
    obtain ⟨others, countBefore, countAfter, same⟩ := ih
    refine ⟨mentionedBySlots arguments ++ directives.flatMap Directive.mentioned ++ others ++
      mentionedByAll rest, fun name => ?_, fun name => ?_, fun _ _ agree put => ?_⟩
    · simp only [mentionedByAll, Selection.mentioned, List.count_append, countBefore]
      omega
    · simp only [mentionedByAll, Selection.mentioned, List.count_append, countAfter]
      omega
    · simp only [List.mem_append, or_imp, forall_and] at agree
      obtain ⟨⟨⟨inArguments, inDirectives⟩, beneath⟩, behind⟩ := agree
      rw [substituteAll, substituteAll, Selection.substitute, Selection.substitute, same _ _ beneath put,
        Directive.map_substitute_congr inDirectives, substituteSlots_congr inArguments,
        substituteAll_congr behind]
  | @behind name inner selection rest rest' _ _ ih =>
    obtain ⟨others, countBefore, countAfter, same⟩ := ih
    refine ⟨selection.mentioned ++ others, fun name => ?_, fun name => ?_, fun _ _ agree put => ?_⟩
    · rw [mentionedByAll, List.count_append, List.count_append, countBefore]
      omega
    · rw [mentionedByAll, List.count_append, List.count_append, countAfter]
      omega
    · simp only [List.mem_append, or_imp, forall_and] at agree
      rw [substituteAll, substituteAll, Selection.substitute_congr agree.1, same _ _ agree.2 put]

end Exchange

namespace Operation

/-- The directives and selections of an operation with the defaults in the places of the variables. -/
def evaluated (op : Operation) : List Directive × List Selection :=
  (op.directives.map (Directive.substitute op.defaultOf),
    Selection.substituteAll op.defaultOf op.selections)

variable {op : Operation} {old new : Value} {names segments : List String}

theorem evaluated_exchange {declarations : List VariableDefinition} {selections : List Selection}
    (exchange : Selections.Exchange old new names segments op.selections selections) :
    let after : Operation := { op with declarations, selections }
    ∃ others : List String,
      (∀ name, op.uses name = old.mentioned.count name + others.count name) ∧
      (∀ name, after.uses name = new.mentioned.count name + others.count name) ∧
      ((∀ name ∈ others, after.defaultOf name = op.defaultOf name) →
        new.substitute after.defaultOf = old.substitute op.defaultOf →
        after.evaluated = op.evaluated) := by
  obtain ⟨others, countBefore, countAfter, same⟩ := exchange.besides
  refine ⟨op.directives.flatMap Directive.mentioned ++ others, fun name => ?_, fun name => ?_,
    fun agree put => ?_⟩
  · rw [uses, mentioned, List.count_append, List.count_append, countBefore]
    omega
  · simp only [uses, mentioned, List.count_append, countAfter]
    omega
  · simp only [List.mem_append, or_imp, forall_and] at agree
    rw [evaluated, evaluated, Directive.map_substitute_congr agree.1,
      same _ _ (fun name there => (agree.2 name there).symm) put.symm]

theorem declaration?_filter {declarations : List VariableDefinition} {keep : String → Bool}
    {name : String} (kept : keep name = true) :
    (declarations.filter (keep ·.name)).find? (·.name == name) =
      declarations.find? (·.name == name) := by
  have only : (fun d : VariableDefinition => decide (keep d.name = true ∧ (d.name == name) = true)) =
      (·.name == name) := by
    funext d
    by_cases same : d.name = name
    · simp [same, kept]
    · simp [same]
  rw [List.find?_filter, only]

theorem defaultOf_constant
    (constant : ∀ d ∈ op.declarations, ∀ value ∈ d.default?, value.mentioned = []) (name : String) :
    (op.defaultOf name).mentioned = [] := by
  unfold defaultOf
  cases declared : op.declaration? name with
  | none => rfl
  | some d =>
    cases default : d.default? with
    | none => simp [default, Value.mentioned]
    | some value =>
      have whole := constant d (List.mem_of_find?_eq_some declared) value default
      simpa [default] using whole

theorem evaluated_promoted {current : Value} {declaration : VariableDefinition}
    {selections : List Selection}
    (exchange : Selections.Exchange current (.variable declaration.name) names segments op.selections
      selections)
    (declared : ∀ name ∈ op.mentioned, (op.declaration? name).isSome)
    (fresh : declaration.name ∉ op.declarations.map (·.name))
    (default : declaration.default?.getD .null = current.substitute op.defaultOf) :
    let declarations := op.declarations.filter (!Document.isUsedOnlyIn op current ·.name) ++
      [declaration]
    evaluated { op with declarations, selections } = op.evaluated := by
  intro declarations
  obtain ⟨others, countBefore, -, same⟩ := @evaluated_exchange op _ _ _ _ declarations _ exchange
  refine same (fun name there => ?_) ?_
  · -- What is mentioned beside the value is used more often than in it, so that it stays declared.
    have positive := List.count_pos_iff.mpr there
    have count := countBefore name
    have kept : (!Document.isUsedOnlyIn op current name) = true := by
      simp only [Document.isUsedOnlyIn, Bool.not_and, Bool.or_eq_true, Bool.not_eq_true',
        decide_eq_false_iff_not]
      omega
    have before : (op.declaration? name).isSome :=
      declared name (List.count_pos_iff.mp (show 0 < op.uses name by omega))
    have found : declaration? { op with declarations, selections } name = op.declaration? name := by
      rw [declaration?, List.find?_append,
        @declaration?_filter op.declarations (!Document.isUsedOnlyIn op current ·) name kept]
      exact Option.or_of_isSome before
    rw [defaultOf, defaultOf, found]
  · have absent : (op.declarations.filter (!Document.isUsedOnlyIn op current ·.name)).find?
        (·.name == declaration.name) = none := by
      refine List.find?_eq_none.mpr fun d member same => fresh ?_
      have there := (List.mem_filter.mp member).1
      exact beq_iff_eq.mp same ▸ List.mem_map_of_mem there
    rw [Value.substitute, defaultOf, declaration?, List.find?_append, absent, ← default]
    simp

theorem evaluated_inlined {name : String} {selections : List Selection}
    (exchange : Selections.Exchange (.variable name) (op.defaultOf name) names segments op.selections
      selections)
    (constant : ∀ d ∈ op.declarations, ∀ value ∈ d.default?, value.mentioned = []) :
    let declarations := if uses { op with selections } name = 0
      then op.declarations.filter (·.name != name) else op.declarations
    evaluated { op with declarations, selections } = op.evaluated := by
  intro declarations
  obtain ⟨others, -, countAfter, same⟩ := @evaluated_exchange op _ _ _ _ declarations _ exchange
  have closed := defaultOf_constant constant name
  refine same (fun other there => ?_) ?_
  · have found : declaration? { op with declarations, selections } other = op.declaration? other := by
      by_cases unused : uses { op with selections } name = 0
      · -- A variable without uses is not mentioned beside the value.
        have different : other ≠ name := by
          rintro rfl
          have positive := List.count_pos_iff.mpr there
          have count : uses { op with selections } other = _ := countAfter other
          omega
        have kept : (other != name) = true := by simpa using different
        simp only [declaration?, declarations, if_pos unused]
        exact @declaration?_filter op.declarations (· != name) other kept
      · simp only [declaration?, declarations, if_neg unused]
    rw [defaultOf, defaultOf, found]
  · rw [Value.substitute_constant closed, Value.substitute]

end Operation

namespace Document

variable {doc after : Document} {id : DefinitionId} {path : ArgumentPath} {op : Operation}

theorem updateSlots_current {current new : Value} (there : doc.definition? id = some (.operation op))
    (normal : Selections.normalize op.selections = op.selections)
    (found : doc.valueAt id path = .ok current)
    (done : doc.updateSlots id path (Slots.replace path.leafName new) = .ok after) :
    ∃ selections,
      Selections.Exchange current new path.names path.field.segments op.selections selections ∧
      after = ⟨doc.definitions.set id (.operation { op with selections })⟩ := by
  obtain ⟨d, old, selections, there', exchange, rfl⟩ := updateSlots_ok.mp done
  obtain ⟨d', there'', found⟩ := valueAt_ok.mp found
  cases there.symm.trans there'
  cases there.symm.trans there''
  cases exchange.valueAt?.symm.trans found
  refine ⟨selections, exchange, ?_⟩
  rw [Definition.rooted, exchange.normalize normal]

variable {schema : Schema}

theorem promote_ok (there : doc.definition? id = some (.operation op))
    (normal : Selections.normalize op.selections = op.selections)
    (done : doc.promote id path schema = .ok after) : ∃ field target current declaration selections,
    schema.inputAt doc id path = .ok (field, target) ∧
    Selections.Exchange current (.variable declaration.name) path.names path.field.segments
      op.selections selections ∧
    op.Introduces target.type current declaration ∧
    after = ⟨doc.definitions.set id (.operation { op with
      declarations := op.declarations.filter (!isUsedOnlyIn op current ·.name) ++ [declaration]
      selections })⟩ := by
  rcases promote_written there done with
    ⟨field, target, current, declaration, _, resolved, found, _, introduces, put, made⟩
  rcases updateSlots_current there normal found put with ⟨selections, exchange, same⟩
  cases set_operation_inj there same
  exact ⟨field, target, current, declaration, _, resolved, exchange, introduces, made⟩

theorem inline_ok (there : doc.definition? id = some (.operation op))
    (normal : Selections.normalize op.selections = op.selections)
    (done : doc.inline id path = .ok after) : ∃ name selections,
    Selections.Exchange (.variable name) (op.defaultOf name) path.names path.field.segments
      op.selections selections ∧
    after = ⟨doc.definitions.set id (.operation { op with
      declarations := if Operation.uses { op with selections } name = 0
        then op.declarations.filter (·.name != name) else op.declarations
      selections })⟩ := by
  rcases (inline_written there).mp done with ⟨name, _, found, _, put, made⟩
  rcases updateSlots_current there normal found put with ⟨selections, exchange, same⟩
  cases set_operation_inj there same
  exact ⟨name, _, exchange, made⟩

/-- Promoting a value to a variable, and putting a variable's default in its place, change only the
declarations and selections of the operation, and not what it asks for when every variable has its
default. -/
theorem evaluated_kept (there : doc.definition? id = some (.operation op))
    (declared : ∀ name ∈ op.mentioned, (op.declaration? name).isSome)
    (constant : ∀ d ∈ op.declarations, ∀ value ∈ d.default?, value.mentioned = [])
    (normal : Selections.normalize op.selections = op.selections)
    (edited : doc.promote id path schema = .ok after ∨ doc.inline id path = .ok after) :
    ∃ declarations selections,
      after = ⟨doc.definitions.set id (.operation { op with declarations, selections })⟩ ∧
      Operation.evaluated { op with declarations, selections } = op.evaluated := by
  rcases edited with promoted | inlined
  · obtain ⟨_, _, current, declaration, selections, _, exchange, introduces, rfl⟩ :=
      promote_ok there normal promoted
    exact ⟨_, selections, rfl,
      Operation.evaluated_promoted exchange declared introduces.new introduces.default_eq⟩
  · obtain ⟨name, selections, exchange, rfl⟩ := inline_ok there normal inlined
    exact ⟨_, selections, rfl, Operation.evaluated_inlined exchange constant⟩

/-- The operation `query ($v: Int = 3, $x: Int) { a(x: $v) b @skip(if: $x) }`. -/
def defaulted : Operation where
  kind := .query
  declarations := [⟨"v", .named "Int", some (.int 3)⟩, ⟨"x", .named "Int", none⟩]
  selections := [
    .field { name := "a", arguments := [⟨"x", .variable "v"⟩] },
    .field { name := "b", directives := [⟨"skip", [⟨"if", .variable "x"⟩]⟩] }]

theorem evaluated_kept_defaulted :
    let path : ArgumentPath := { field := ⟨["a"]⟩, argument := "x" }
    ∃ promoted inlined : Document,
      promote ⟨[.operation defaulted]⟩ 0 path Session.sampleSchema = .ok promoted ∧
      inline ⟨[.operation defaulted]⟩ 0 path = .ok inlined ∧
      ∀ after ∈ [promoted, inlined], ∃ declarations selections,
        after = ⟨[.operation { defaulted with declarations, selections }]⟩ ∧
        Operation.evaluated { defaulted with declarations, selections } = defaulted.evaluated := by
  let promoted : Operation := { defaulted with
    declarations := [⟨"x", .named "Int", none⟩, ⟨"x1", .named "Int", some (.int 3)⟩]
    selections := .field { name := "a", arguments := [⟨"x", .variable "x1"⟩] } ::
      defaulted.selections.tail }
  let inlined : Operation := { defaulted with
    declarations := [⟨"x", .named "Int", none⟩]
    selections := .field { name := "a", arguments := [⟨"x", .int 3⟩] } ::
      defaulted.selections.tail }
  have done : promote ⟨[.operation defaulted]⟩ 0 { field := ⟨["a"]⟩, argument := "x" }
      Session.sampleSchema = .ok ⟨[.operation promoted]⟩ := by decide +kernel
  have done' : inline ⟨[.operation defaulted]⟩ 0 { field := ⟨["a"]⟩, argument := "x" } =
      .ok ⟨[.operation inlined]⟩ := by decide +kernel
  have declared : ∀ name ∈ defaulted.mentioned, (defaulted.declaration? name).isSome := by decide
  have constant : ∀ d ∈ defaulted.declarations, ∀ value ∈ d.default?, value.mentioned = [] := by
    decide
  have normal : Selections.normalize defaulted.selections = defaulted.selections := by decide
  have kept {after : Document} := @evaluated_kept ⟨[.operation defaulted]⟩ after 0
    { field := ⟨["a"]⟩, argument := "x" } defaulted Session.sampleSchema rfl declared constant normal
  refine ⟨_, _, done, done', ?_⟩
  intro after member
  rcases List.mem_cons.mp member with rfl | member
  · exact kept (Or.inl done)
  · rw [List.mem_singleton] at member
    subst member
    exact kept (Or.inr done')

end Document

end QueryEditor
