import Mathlib.Data.List.Forall2
import Mathlib.Logic.Relation
import QueryEditor.Proofs.Catalog
import QueryEditor.Proofs.Nesting

namespace QueryEditor

def Schema.takesLiteral (schema : Schema) (input : InputTarget) : Bool :=
  (schema.innermost? input.type).any fun type => type.isLeaf || type.isInputObject

namespace Defaults

variable {schema : Schema} {policy : Policy} {parent : Field} {expanding after : List String}

def listed (schema : Schema) (policy : Policy) (parent : Field) (inputs : List InputTarget) :
    List InputTarget :=
  inputs.filter fun input => isFilled policy parent input && schema.takesLiteral input

theorem mem_listed {inputs : List InputTarget} {input : InputTarget} :
    input ∈ listed schema policy parent inputs ↔ input ∈ inputs ∧
      isFilled policy parent input = true ∧ schema.takesLiteral input = true := by
  rw [listed, List.mem_filter, Bool.and_eq_true]

theorem slotOver_isSome {fields : InputObjectType → Filling (List Slot)} {input : InputTarget}
    {filled : Option Slot}
    (done : slotOver schema policy parent fields input expanding = some (filled, after)) :
    filled.isSome = schema.takesLiteral input := by
  unfold Schema.takesLiteral
  generalize whole : slotOver schema policy parent fields input = filling at done
  unfold slotOver at whole
  split at whole <;> subst whole
  case h_1 undefined =>
    cases done
    rw [undefined]
    rfl
  case h_2 type there =>
    obtain ⟨_, _, _, same⟩ := bind_eq_some.mp done
    cases same
    rw [there]
    rfl
  case h_3 type notInput there =>
    cases done
    have output : type.isInputObject = false := by
      cases type with
      | input type => exact absurd rfl (notInput type)
      | _ => rfl
    rw [there, Option.any_some, output, Bool.or_false]
    cases type.isLeaf <;> rfl

theorem slotWithin_isSome {depth : Nat} {input : InputTarget} {filled : Option Slot}
    (done : slotWithin schema policy parent depth input expanding = some (filled, after)) :
    filled.isSome = schema.takesLiteral input := by
  cases depth with
  | zero => exact slotOver_isSome done
  | succ depth => exact slotOver_isSome done

/-- Where each slot leaves what is being filled in as it was, there is, in order, one slot for each
input value that can have one. -/
theorem filterMapM_forall₂ {α β : Type} {slot : β → Filling (Option α)} {takes : β → Bool}
    (restores : ∀ input filled after, slot input expanding = some (filled, after) → after = expanding)
    (decides : ∀ input filled after, slot input expanding = some (filled, after) →
      filled.isSome = takes input)
    {inputs : List β} {slots : List α}
    (done : inputs.filterMapM slot expanding = some (slots, after)) :
    List.Forall₂ (fun input filled => slot input expanding = some (some filled, expanding))
      (inputs.filter takes) slots := by
  induction inputs generalizing slots with
  | nil =>
    cases done
    exact .nil
  | cons input rest ih =>
    rw [List.filterMapM_cons] at done
    obtain ⟨first, next, here, done⟩ := bind_eq_some.mp done
    have decided := decides _ _ _ here
    obtain rfl := restores _ _ _ here
    cases first with
    | none =>
      rw [List.filter_cons_of_neg (by simp [← decided])]
      exact ih done
    | some filled =>
      obtain ⟨others, last, beyond, done⟩ := bind_eq_some.mp done
      cases done
      rw [List.filter_cons_of_pos decided.symm]
      exact .cons here (ih beyond)

theorem slotsOver_listed {depth : Nat} {inputs : List InputTarget} {slots : List Slot}
    (done : slotsOver policy parent (slotWithin schema policy parent depth) inputs expanding =
      some (slots, after)) :
    List.Forall₂ (fun input filled =>
        slotWithin schema policy parent depth input expanding = some (some filled, expanding))
      (listed schema policy parent inputs) slots := by
  have each := filterMapM_forall₂ (slotWithin_restores depth) (fun _ _ _ => slotWithin_isSome) done
  rw [List.filter_filter] at each
  unfold listed
  simp only [Bool.and_comm (isFilled policy parent _)]
  exact each

theorem slotsOver_names {depth : Nat} {inputs : List InputTarget} {slots : List Slot}
    (done : slotsOver policy parent (slotWithin schema policy parent depth) inputs expanding =
      some (slots, after)) :
    slots.map (·.name) = (listed schema policy parent inputs).map (·.name) := by
  have each := slotsOver_listed done
  clear done
  generalize listed schema policy parent inputs = inputs at each
  induction each with
  | nil => rfl
  | cons here _ ih => rw [List.map_cons, List.map_cons, slotWithin_name here, ih]

theorem isFilled_of_slot {depth : Nat} {inputs : List InputTarget} {slots : List Slot}
    (distinct : (inputs.map (·.name)).Nodup)
    (done : slotsOver policy parent (slotWithin schema policy parent depth) inputs expanding =
      some (slots, after))
    {input : InputTarget} (among : input ∈ inputs) (named : input.name ∈ slots.map (·.name)) :
    isFilled policy parent input = true := by
  rw [slotsOver_names done] at named
  obtain ⟨other, there, same⟩ := List.mem_map.mp named
  obtain ⟨known, asked, -⟩ := mem_listed.mp there
  rwa [List.inj_on_of_nodup_map distinct known among same] at asked

structure Step where
  input : InputTarget
  type : InputObjectType
  deriving DecidableEq

/-- In the slots of input values, at some depth, there is an object with these fields for the input
value of the last step. Around it stand the objects of the steps before, the outermost first. -/
inductive Holds (schema : Schema) :
    List InputTarget → List Slot → (around : List Step) → Step → (fields : List Slot) → Prop
  | here {inputs : List InputTarget} {slots fields : List Slot} {step : Step} :
      step.input ∈ inputs →
      schema.innermost? step.input.type = some (.input step.type) →
      ⟨step.input.name, .object fields⟩ ∈ slots →
      Holds schema inputs slots [] step fields
  | beneath {inputs : List InputTarget} {slots inner fields : List Slot} {outer step : Step}
      {around : List Step} :
      Holds schema inputs slots [] outer inner →
      Holds schema outer.type.inputs inner around step fields →
      Holds schema inputs slots (outer :: around) step fields

variable {inputs : List InputTarget} {slots fields : List Slot} {around : List Step} {step : Step}

theorem Holds.of_here (holds : Holds schema inputs slots [] step fields) :
    step.input ∈ inputs ∧ schema.innermost? step.input.type = some (.input step.type) ∧
      ⟨step.input.name, .object fields⟩ ∈ slots := by
  cases holds with
  | here listed known filled => exact ⟨listed, known, filled⟩

theorem Holds.known (holds : Holds schema inputs slots around step fields) :
    schema.innermost? step.input.type = some (.input step.type) := by
  induction holds with
  | here _ known _ => exact known
  | beneath _ _ _ ih => exact ih

theorem Holds.around_known (holds : Holds schema inputs slots around step fields) :
    ∀ outer ∈ around, schema.innermost? outer.input.type = some (.input outer.type) := by
  induction holds with
  | here => exact nofun
  | beneath here _ _ ih =>
    intro outer member
    rcases List.mem_cons.mp member with rfl | member
    · exact here.known
    · exact ih outer member

theorem Holds.slots_ne_nil (holds : Holds schema inputs slots around step fields) : slots ≠ [] := by
  cases holds with
  | here _ _ filled => exact List.ne_nil_of_mem filled
  | beneath outer _ => exact List.ne_nil_of_mem outer.of_here.2.2

/-- The slots are filled in for some of the input values, where objects of the types `expanding` are
being filled in. -/
def Made (schema : Schema) (policy : Policy) (parent : Field) (expanding : List String)
    (inputs : List InputTarget) (slots : List Slot) : Prop :=
  ∃ depth, ∀ filled ∈ slots, ∃ input ∈ inputs,
    slotWithin schema policy parent depth input expanding = some (some filled, expanding)

/-- The types of objects around, the innermost first, in front of those that are being filled in
outside of them. -/
def inside (around : List Step) (expanding : List String) : List String :=
  (around.map (·.type.name)).reverse ++ expanding

theorem mem_inside_nil {name : String} :
    name ∈ inside around [] ↔ name ∈ around.map (·.type.name) := by
  rw [inside, List.append_nil, List.mem_reverse]

section Made

variable (made : Made schema policy parent expanding inputs slots)
  (distinct : (inputs.map (·.name)).Nodup)
include made distinct

theorem Made.object (holds : Holds schema inputs slots [] step fields) :
    ∃ depth, fieldsOver policy parent (slotWithin schema policy parent depth) step.type expanding =
      some (fields, expanding) := by
  obtain ⟨depth, each⟩ := made
  obtain ⟨listed, known, filled⟩ := holds.of_here
  obtain ⟨other, among, run⟩ := each _ filled
  have same : other = step.input :=
    List.inj_on_of_nodup_map distinct among listed (slotWithin_name run).symm
  subst same
  exact slotWithin_object known run

theorem Made.beneath (holds : Holds schema inputs slots [] step fields) (full : fields ≠ []) :
    ∃ depth after, slotsOver policy parent (slotWithin schema policy parent depth) step.type.inputs
      (step.type.name :: expanding) = some (fields, after) := by
  obtain ⟨depth, run⟩ := made.object distinct holds
  obtain ⟨-, after, run⟩ := fieldsOver_new full run
  exact ⟨depth, after, run⟩

/-- Where an object is made, the types of all objects around it are being filled in. -/
theorem Holds.run (holds : Holds schema inputs slots around step fields) :
    ∃ depth after, fieldsOver policy parent (slotWithin schema policy parent depth) step.type
      (inside around expanding) = some (fields, after) := by
  induction holds generalizing expanding with
  | here listed known filled =>
    obtain ⟨depth, run⟩ := made.object distinct (.here listed known filled)
    exact ⟨depth, _, run⟩
  | @beneath inputs slots inner fields outer step around here deeper _ ih =>
    obtain ⟨depth, after, run⟩ := made.beneath distinct here deeper.slots_ne_nil
    have further := ih ⟨depth, (slotsOver_cases run).2⟩ outer.type.inputs_distinct
    have whole : inside around (outer.type.name :: expanding) = inside (outer :: around) expanding := by
      simp [inside]
    rwa [whole] at further

theorem Holds.within {front between : List Step} {outer : Step}
    (holds : Holds schema inputs slots (front ++ outer :: between) step fields) :
    ∃ inner depth expanding after,
      slotsOver policy parent (slotWithin schema policy parent depth) outer.type.inputs expanding =
        some (inner, after) ∧
      Holds schema outer.type.inputs inner between step fields := by
  induction front generalizing inputs slots expanding with
  | nil =>
    cases holds with
    | beneath here deeper =>
      obtain ⟨depth, after, run⟩ := made.beneath distinct here deeper.slots_ne_nil
      exact ⟨_, depth, _, after, run, deeper⟩
  | cons first front ih =>
    cases holds with
    | beneath here deeper =>
      obtain ⟨depth, after, run⟩ := made.beneath distinct here deeper.slots_ne_nil
      exact ih ⟨depth, (slotsOver_cases run).2⟩ first.type.inputs_distinct deeper

end Made

theorem Holds.filled {depth : Nat} (distinct : (inputs.map (·.name)).Nodup)
    (run : slotsOver policy parent (slotWithin schema policy parent depth) inputs expanding =
      some (slots, after))
    (holds : Holds schema inputs slots around step fields) :
    ∀ other ∈ around ++ [step], isFilled policy parent other.input = true := by
  induction holds generalizing expanding after depth with
  | here among known filled =>
    intro other member
    rw [List.mem_singleton.mp member]
    exact isFilled_of_slot distinct run among (List.mem_map.mpr ⟨_, filled, rfl⟩)
  | @beneath inputs slots inner fields outer step around here deeper _ ih =>
    have made : Made schema policy parent expanding inputs slots := ⟨depth, (slotsOver_cases run).2⟩
    obtain ⟨_, _, further⟩ := made.beneath distinct here deeper.slots_ne_nil
    intro other member
    rcases List.mem_cons.mp member with rfl | member
    · obtain ⟨among, -, filled⟩ := here.of_here
      exact isFilled_of_slot distinct run among (List.mem_map.mpr ⟨_, filled, rfl⟩)
    · exact ih outer.type.inputs_distinct further other member

def Requires (schema : Schema) (type other : InputObjectType) : Prop :=
  ∃ input ∈ type.inputs, input.isRequired = true ∧
    schema.innermost? input.type = some (.input other)

theorem Holds.requires_here {type : InputObjectType}
    (holds : Holds schema type.inputs slots [] step fields) (required : step.input.isRequired = true) :
    Requires schema type step.type := by
  obtain ⟨among, known, -⟩ := holds.of_here
  exact ⟨step.input, among, required, known⟩

theorem Holds.requires {type : InputObjectType}
    (holds : Holds schema type.inputs slots around step fields)
    (required : ∀ other ∈ around ++ [step], other.input.isRequired = true) :
    Relation.TransGen (Requires schema) type step.type := by
  generalize start : type.inputs = inputs at holds
  induction holds generalizing type with
  | here among known filled =>
    subst start
    exact .single (requires_here (.here among known filled) (required _ (by simp)))
  | @beneath inputs slots inner fields outer step around here deeper _ ih =>
    subst start
    have further := ih (fun other member => required other (List.mem_cons_of_mem _ member)) rfl
    exact .head (here.requires_here (required outer List.mem_cons_self)) further

theorem innermost?_unique {declared other : DeclaredType} {first second : TypeDefinition}
    (one : schema.innermost? declared = some first) (two : schema.innermost? other = some second)
    (same : first.name = second.name) : first = second := by
  have found := Catalog.mem_entries_iff.mp (Catalog.find?_mem one).1
  have again := Catalog.mem_entries_iff.mp (Catalog.find?_mem two).1
  have names : HasName.nameOf first = HasName.nameOf second := same
  rw [names, again] at found
  exact (Option.some.inj found).symm

def Complete (schema : Schema) (type : InputObjectType) (fields : List Slot) : Prop :=
  ∀ input ∈ type.inputs, input.isRequired = true → schema.takesLiteral input = true →
    ∃ value, ⟨input.name, value⟩ ∈ fields

def AskedInto (policy : Policy) (parent : Field) (around : List Step) (step : Step) : Prop :=
  ∃ front outer between, around = front ++ outer :: between ∧ outer.type = step.type ∧
    ∃ other ∈ between ++ [step],
      other.input.isRequired = false ∧ policy.fillsOptional parent other.input = true

/-- The objects in slots are complete, except for those inside an object of their own type: they are
empty, and optional fields lead to them. -/
def CompleteObjects (schema : Schema) (policy : Policy) (parent : Field) (inputs : List InputTarget)
    (slots : List Slot) : Prop :=
  ∀ around step fields, Holds schema inputs slots around step fields →
    (step.type.name ∉ around.map (·.type.name) → Complete schema step.type fields) ∧
    (step.type.name ∈ around.map (·.type.name) → fields = [] ∧ AskedInto policy parent around step)

theorem complete_of_run {type : InputObjectType} {depth : Nat}
    (run : slotsOver policy parent (slotWithin schema policy parent depth) type.inputs expanding =
      some (fields, after)) : Complete schema type fields := by
  intro input among required literal
  have asked : isFilled policy parent input = true := by rw [isFilled, required, Bool.true_or]
  have named : input.name ∈ fields.map (·.name) := by
    rw [slotsOver_names run]
    exact List.mem_map.mpr ⟨input, mem_listed.mpr ⟨among, asked, literal⟩, rfl⟩
  obtain ⟨⟨_, value⟩, member, rfl⟩ := List.mem_map.mp named
  exact ⟨value, member⟩

theorem Made.askedInto (acyclic : ∀ type, ¬ Relation.TransGen (Requires schema) type type)
    (made : Made schema policy parent expanding inputs slots)
    (distinct : (inputs.map (·.name)).Nodup)
    (holds : Holds schema inputs slots around step fields)
    (again : step.type.name ∈ around.map (·.type.name)) : AskedInto policy parent around step := by
  obtain ⟨outer, member, called⟩ := List.mem_map.mp again
  have same : outer.type = step.type :=
    TypeDefinition.input.inj
      (innermost?_unique (holds.around_known outer member) holds.known called)
  obtain ⟨front, between, rfl⟩ := List.append_of_mem member
  obtain ⟨inner, depth, _, _, run, deeper⟩ := holds.within made distinct
  have asked := deeper.filled outer.type.inputs_distinct run
  -- Were every field on the way required, the type would need itself.
  have optional : ¬ ∀ other ∈ between ++ [step], other.input.isRequired = true := by
    intro required
    have cycle := deeper.requires required
    rw [same] at cycle
    exact acyclic _ cycle
  push Not at optional
  obtain ⟨other, among, notRequired⟩ := optional
  have optional : other.input.isRequired = false := by simpa using notRequired
  have wanted : policy.fillsOptional parent other.input = true := by
    have filled := asked other among
    rwa [isFilled, optional, Bool.false_or] at filled
  exact ⟨front, outer, between, rfl, same, other, among, optional, wanted⟩

theorem Made.completeObjects (acyclic : ∀ type, ¬ Relation.TransGen (Requires schema) type type)
    (made : Made schema policy parent [] inputs slots) (distinct : (inputs.map (·.name)).Nodup) :
    CompleteObjects schema policy parent inputs slots := by
  intro around step fields holds
  obtain ⟨depth, after, run⟩ := holds.run made distinct
  rcases fieldsOver_cases run with ⟨again, empty, -⟩ | ⟨new, _, -, filled⟩
  · have again := mem_inside_nil.mp again
    exact ⟨fun new => absurd again new, fun _ => ⟨empty, made.askedInto acyclic distinct holds again⟩⟩
  · exact ⟨fun _ => complete_of_run filled, fun again => absurd (mem_inside_nil.mpr again) new⟩

section Results

variable (schema : Schema) (policy : Policy) (parent : Field)

theorem arguments_made (field : Field) :
    Made schema policy field [] field.inputs (arguments schema policy field) :=
  ⟨_, (slotsOver_cases (arguments_run schema policy field)).2⟩

theorem slot_made (input : InputTarget) :
    Made schema policy parent [] [input] (slot schema policy parent input).toList := by
  refine ⟨maxDepth schema, fun filled member => ⟨input, List.mem_singleton_self _, ?_⟩⟩
  have run := slot_run schema policy parent input
  rwa [Option.mem_toList.mp member] at run

theorem inputFields_made {input : InputTarget} {type : InputObjectType}
    (known : schema.innermost? input.type = some (.input type)) :
    Made schema policy parent [] [input]
      [⟨input.name, .object (inputFields schema policy parent type)⟩] := by
  refine ⟨maxDepth schema + 1, fun filled member => ⟨input, List.mem_singleton_self _, ?_⟩⟩
  rw [List.mem_singleton.mp member]
  have form : slotWithin schema policy parent (maxDepth schema + 1) input = (do
      let fields ← fieldsOver policy parent (slotWithin schema policy parent (maxDepth schema)) type
      return some ⟨input.name, .object fields⟩) := by
    rw [slotWithin, slotOver, known]
  rw [form]
  exact bind_eq_some.mpr ⟨_, _, inputFields_run schema policy parent type, rfl⟩

end Results

/-- Where no input object type needs itself through required fields alone, every object that is filled in
has its required fields, at whatever depth it stands in the arguments of a field, in a single slot or
in the fields of an input type. The exception is an object inside one of its own type, which is empty;
it is there only if the host asks for an optional field between the two. -/
theorem objects_complete (schema : Schema) (policy : Policy) (parent : Field)
    (acyclic : ∀ type, ¬ Relation.TransGen (Requires schema) type type) :
    CompleteObjects schema policy parent parent.inputs (arguments schema policy parent) ∧
    (∀ input, CompleteObjects schema policy parent [input] (slot schema policy parent input).toList) ∧
    ∀ input type, schema.innermost? input.type = some (.input type) →
      CompleteObjects schema policy parent [input]
        [⟨input.name, .object (inputFields schema policy parent type)⟩] := by
  refine ⟨?_, fun input => ?_, fun input type known => ?_⟩
  · exact (arguments_made schema policy parent).completeObjects acyclic parent.inputs_distinct
  · exact (slot_made schema policy parent input).completeObjects acyclic (List.nodup_singleton _)
  · exact (inputFields_made schema policy parent known).completeObjects acyclic
      (List.nodup_singleton _)

def requiredInput (name : String) (type : String) : InputValue :=
  { name, location := .introspection, type := .named type false }

/-- A team needs a lead, and its lead may belong to a team. -/
def team : InputObjectType :=
  inputObject "Team" [requiredInput "name" "String", requiredInput "lead" "Person"]

def person : InputObjectType :=
  inputObject "Person" [requiredInput "id" "ID", nullableInput "team" (.named "Team" true)]

def teamSchema : Schema where
  types := .ofList [.builtin .id, .builtin .string, .input team, .input person]
  queryName := "Query"

def teamField : Field where
  name := "f"
  location := .introspection
  arguments := .ofList [requiredInput "team" "Team"]
  parent := "Query"
  type := .named "Int" true

theorem team_requires {type other : InputObjectType} (requires : Requires teamSchema type other) :
    (type = team → other = person) ∧ type ≠ person ∧ (other = team ∨ other = person) := by
  have ofTeam : ∀ input ∈ team.inputs, input.isRequired = true →
      teamSchema.innermost? input.type = some (.builtin .string) ∨
        teamSchema.innermost? input.type = some (.input person) := by decide +kernel
  have ofPerson : ∀ input ∈ person.inputs, input.isRequired = true →
      teamSchema.innermost? input.type = some (.builtin .id) := by decide +kernel
  have all : ∀ known ∈ teamSchema.types.entries, known = .builtin .id ∨ known = .builtin .string ∨
      known = .input team ∨ known = .input person := by decide +kernel
  obtain ⟨input, among, required, known⟩ := requires
  refine ⟨?_, ?_, ?_⟩
  · rintro rfl
    rcases ofTeam input among required with text | object
    · cases known.symm.trans text
    · exact TypeDefinition.input.inj (Option.some.inj (known.symm.trans object))
  · rintro rfl
    cases known.symm.trans (ofPerson input among required)
  · rcases all _ (Catalog.find?_mem known).1 with same | same | same | same
    · cases same
    · cases same
    · exact Or.inl (TypeDefinition.input.inj same)
    · exact Or.inr (TypeDefinition.input.inj same)

theorem team_acyclic (type : InputObjectType) :
    ¬ Relation.TransGen (Requires teamSchema) type type := by
  -- From a type of the schema there is but one way on, from `team` to `person`.
  have onward : ∀ {type other}, Relation.TransGen (Requires teamSchema) type other →
      type = team ∨ type = person → type = team ∧ other = person := by
    intro type other way start
    induction way with
    | single first =>
      obtain ⟨fromTeam, notPerson, -⟩ := team_requires first
      have source : type = team := start.resolve_right notPerson
      exact ⟨source, fromTeam source⟩
    | tail _ last ih => exact absurd ih.2 (team_requires last).2.1
  intro cycle
  have known : type = team ∨ type = person := by
    obtain ⟨other, -, last⟩ := Relation.TransGen.tail'_iff.mp cycle
    exact (team_requires last).2.2
  obtain ⟨isTeam, isPerson⟩ := onward cycle known
  have differ : team ≠ person := by decide +kernel
  exact differ (isTeam.symm.trans isPerson)

theorem team_holds :
    let outer : Step := ⟨requiredInput "team" "Team", team⟩
    let lead : Step := ⟨inputFieldOf "Team" (requiredInput "lead" "Person"), person⟩
    let again : Step := ⟨inputFieldOf "Person" (nullableInput "team" (.named "Team" true)), team⟩
    let slots := arguments teamSchema eager teamField
    Holds teamSchema teamField.inputs slots [outer] lead
      [⟨"id", .string ""⟩, ⟨"team", .object []⟩] ∧
    Holds teamSchema teamField.inputs slots [outer, lead] again [] := by
  intro outer lead again slots
  have filled : slots = [⟨"team", .object [⟨"name", .string ""⟩,
      ⟨"lead", .object [⟨"id", .string ""⟩, ⟨"team", .object []⟩]⟩]⟩] := by
    decide +kernel
  have first : Holds teamSchema teamField.inputs slots [] outer
      [⟨"name", .string ""⟩, ⟨"lead", .object [⟨"id", .string ""⟩, ⟨"team", .object []⟩]⟩] :=
    .here (by decide +kernel) (by decide +kernel) (by rw [filled]; exact List.mem_cons_self)
  have second : Holds teamSchema team.inputs
      [⟨"name", .string ""⟩, ⟨"lead", .object [⟨"id", .string ""⟩, ⟨"team", .object []⟩]⟩] [] lead
      [⟨"id", .string ""⟩, ⟨"team", .object []⟩] :=
    .here (by decide +kernel) (by decide +kernel) (List.mem_cons_of_mem _ List.mem_cons_self)
  have third : Holds teamSchema person.inputs [⟨"id", .string ""⟩, ⟨"team", .object []⟩] [] again [] :=
    .here (by decide +kernel) (by decide +kernel) (List.mem_cons_of_mem _ List.mem_cons_self)
  exact ⟨.beneath first second, .beneath first (.beneath second third)⟩

theorem objects_complete_teams : (∀ type, ¬ Relation.TransGen (Requires teamSchema) type type) ∧
    Complete teamSchema person [⟨"id", .string ""⟩, ⟨"team", .object []⟩] ∧
    AskedInto eager teamField [⟨requiredInput "team" "Team", team⟩,
      ⟨inputFieldOf "Team" (requiredInput "lead" "Person"), person⟩]
      ⟨inputFieldOf "Person" (nullableInput "team" (.named "Team" true)), team⟩ := by
  have complete := (objects_complete teamSchema eager teamField team_acyclic).1
  exact ⟨team_acyclic, (complete _ _ _ team_holds.1).1 (by decide +kernel),
    ((complete _ _ _ team_holds.2).2 (by decide +kernel)).2⟩

/-- Although no type needs itself, the team inside a team lacks its required name. -/
theorem nested_object_incomplete : (∀ type, ¬ Relation.TransGen (Requires teamSchema) type type) ∧
    ∃ around step fields,
      Holds teamSchema teamField.inputs (arguments teamSchema eager teamField) around step
        fields ∧
      ¬ Complete teamSchema step.type fields := by
  refine ⟨team_acyclic, _, _, _, team_holds.2, fun complete => ?_⟩
  let missing := inputFieldOf "Team" (requiredInput "name" "String")
  have literal : teamSchema.takesLiteral missing = true := by decide +kernel
  obtain ⟨_, member⟩ := complete missing (by decide +kernel) rfl literal
  cases member

end Defaults

end QueryEditor
