import QueryEditor.Schema.Basic
import QueryEditor.Binary64.Numeral

namespace QueryEditor

def Binary64.ofTenths (tenths : Nat) : Binary64 :=
  ofDecimal false tenths (-1)

def TypeDefinition.defaultValue : TypeDefinition → Value
  | .enum type =>
    match type.values.entries with
    | first :: _ => .enum first.name
    | [] => .string ""
  | .builtin .boolean => .boolean false
  | .builtin .float => .float (.ofTenths 15)
  | .builtin .int => .int 10
  | _ => .string ""

def Schema.identifyingFields (schema : Schema) (type : TypeDefinition) : List String :=
  match Schema.fields? type with
  | none => []
  | some fields =>
    if fields.contains "id" then
      if fields.contains "email" then ["id", "email"]
      else if fields.contains "name" then ["id", "name"]
      else ["id"]
    else
      match ["edges", "node", "nodes"].find? fields.contains with
      | some name => [name]
      | none =>
        let isLeaf := fun (field : Field) => ((schema.innermost? field.type).map (·.isLeaf)).getD false
        match (fields.entries.filter isLeaf).take 2 with
        | [] => [typenameField]
        | leaves => leaves.map (·.name)

/-- What a host decides. Each decision about an argument or input field knows the field that it is
filled in for. -/
structure Policy where
  fieldNames : Schema → TypeDefinition → List String := Schema.identifyingFields
  scalarValue : Field → InputTarget → TypeDefinition → Value := fun _ _ type => type.defaultValue
  fillsOptional : Field → InputTarget → Bool := fun _ _ => false

instance : Inhabited Policy := ⟨{}⟩

namespace Defaults

/-- What fills in slots, over the names of the input object types whose fields are being filled in,
the innermost first. There is no result where objects would nest deeper than is allowed. -/
abbrev Filling := StateT (List String) Option

section Filling

variable (schema : Schema) (policy : Policy) (parent : Field)

def isFilled (input : InputTarget) : Bool :=
  input.isRequired || policy.fillsOptional parent input

def slotOver (fields : InputObjectType → Filling (List Slot)) (input : InputTarget) :
    Filling (Option Slot) :=
  match schema.innermost? input.type with
  | none => return none
  | some (.input type) => return some ⟨input.name, .object (← fields type)⟩
  | some type =>
    return if type.isLeaf then some ⟨input.name, policy.scalarValue parent input type⟩ else none

def slotsOver (slot : InputTarget → Filling (Option Slot)) (inputs : List InputTarget) :
    Filling (List Slot) :=
  (inputs.filter (isFilled policy parent)).filterMapM slot

/-- The fields of an input object. An object inside a value of its own type stays empty. -/
def fieldsOver (slot : InputTarget → Filling (Option Slot)) (type : InputObjectType) :
    Filling (List Slot) := do
  if (← get).contains type.name then return []
  modify (type.name :: ·)
  let fields ← slotsOver policy parent slot type.inputs
  modify List.tail
  return fields

def slotWithin : (depth : Nat) → InputTarget → Filling (Option Slot)
  | 0 => slotOver schema policy parent fun _ _ => none
  | depth + 1 => slotOver schema policy parent (fieldsOver policy parent (slotWithin depth))

end Filling

section Settled

variable {schema : Schema} {policy : Policy} {parent : Field} {α β : Type} {bound : Nat}
  {expanding : List String}

theorem bind_eq_some {filling : Filling α} {next : α → Filling β} {result : β × List String} :
    (filling >>= next) expanding = some result ↔
      ∃ a after, filling expanding = some (a, after) ∧ next a after = some result := by
  show (filling expanding >>= fun (a, after) => next a after) = some result ↔ _
  rw [Option.bind_eq_bind, Option.bind_eq_some_iff]
  exact ⟨fun ⟨⟨a, after⟩, first, last⟩ => ⟨a, after, first, last⟩,
    fun ⟨a, after, first, last⟩ => ⟨(a, after), first, last⟩⟩

def unexpanded (schema : Schema) (expanding : List String) : List TypeDefinition :=
  schema.types.entries.filter fun type => type.isInputObject && !expanding.contains type.name

theorem unexpanded_cons_lt {type : InputObjectType} (known : .input type ∈ schema.types.entries)
    (new : type.name ∉ expanding) :
    (unexpanded schema (type.name :: expanding)).length < (unexpanded schema expanding).length := by
  have fewer : unexpanded schema (type.name :: expanding) =
      (unexpanded schema expanding).filter (·.name != type.name) := by
    rw [unexpanded, unexpanded, List.filter_filter]
    congr 1
    funext other
    rw [List.contains_cons, Bool.not_or, bne, Bool.and_left_comm]
  rw [fewer, List.length_filter_lt_length_iff_exists]
  refine ⟨.input type, List.mem_filter.mpr ⟨known, ?_⟩, ?_⟩
  · simpa [TypeDefinition.isInputObject, TypeDefinition.name] using new
  · simp [TypeDefinition.name]

/-- With enough depth there is a result, always the same, and what is being filled in afterwards is
what was before. -/
def Settled (bound : Nat) (expanding : List String) (filling : Nat → Filling α) (result : α) : Prop :=
  ∀ depth, bound ≤ depth → filling depth expanding = some (result, expanding)

theorem filterMapM_settled {slot : Nat → β → Filling (Option α)} {each : β → Option α}
    {inputs : List β}
    (settled : ∀ input ∈ inputs, Settled bound expanding (slot · input) (each input)) :
    Settled bound expanding (fun depth => inputs.filterMapM (slot depth))
      (inputs.filterMap each) := by
  induction inputs with
  | nil => exact fun _ _ => rfl
  | cons input rest ih =>
    intro depth enough
    have first := settled input List.mem_cons_self depth enough
    have others := ih (fun input member => settled input (List.mem_cons_of_mem _ member)) depth enough
    dsimp only at others ⊢
    rw [List.filterMapM_cons, List.filterMap_cons]
    refine bind_eq_some.mpr ⟨_, _, first, ?_⟩
    cases each input with
    | none => exact others
    | some filled => exact bind_eq_some.mpr ⟨_, _, others, rfl⟩

theorem slotsOver_settled (policy : Policy) (parent : Field)
    {slot : Nat → InputTarget → Filling (Option Slot)}
    {each : InputTarget → Option Slot} {inputs : List InputTarget}
    (settled : ∀ input ∈ inputs, Settled bound expanding (slot · input) (each input)) :
    Settled bound expanding (fun depth => slotsOver policy parent (slot depth) inputs)
      ((inputs.filter (isFilled policy parent)).filterMap each) :=
  filterMapM_settled fun input member => settled input (List.mem_filter.mp member).1

theorem fieldsOver_settled {slot : Nat → InputTarget → Filling (Option Slot)}
    {type : InputObjectType}
    (settled : type.name ∉ expanding → ∀ input, ∃ filled,
      Settled bound (type.name :: expanding) (slot · input) filled) :
    ∃ fields, Settled bound expanding (fun depth => fieldsOver policy parent (slot depth) type)
      fields := by
  by_cases inside : type.name ∈ expanding
  · refine ⟨[], fun depth _ => bind_eq_some.mpr ⟨expanding, expanding, rfl, ?_⟩⟩
    rw [if_pos (List.contains_iff_mem.mpr inside)]
    rfl
  · obtain ⟨each, settled⟩ := Classical.axiomOfChoice (settled inside)
    let inputs := type.inputs
    have filled := slotsOver_settled policy parent fun input (_ : input ∈ inputs) => settled input
    refine ⟨(inputs.filter (isFilled policy parent)).filterMap each, fun depth enough => ?_⟩
    refine bind_eq_some.mpr ⟨expanding, expanding, rfl, ?_⟩
    rw [if_neg (mt List.contains_iff_mem.mp inside)]
    refine bind_eq_some.mpr ⟨(), type.name :: expanding, rfl, ?_⟩
    exact bind_eq_some.mpr ⟨_, _, filled depth enough, rfl⟩

theorem slotOver_settled (policy : Policy) (parent : Field)
    {fields : Nat → InputObjectType → Filling (List Slot)}
    (settled : ∀ type, .input type ∈ schema.types.entries → ∃ filled,
      Settled bound expanding (fields · type) filled) (input : InputTarget) :
    ∃ filled, Settled bound expanding
      (fun depth => slotOver schema policy parent (fields depth) input) filled := by
  unfold slotOver
  split
  · exact ⟨none, fun _ _ => rfl⟩
  case h_2 type there =>
    obtain ⟨filled, settled⟩ := settled type (Catalog.find?_mem there).1
    exact ⟨_, fun depth enough => bind_eq_some.mpr ⟨_, _, settled depth enough, rfl⟩⟩
  · exact ⟨_, fun _ _ => rfl⟩

/-- As many objects inside one another as types can still be filled in are always enough. -/
theorem slotWithin_settled (schema : Schema) (policy : Policy) (parent : Field)
    (expanding : List String) (input : InputTarget) :
    ∃ filled, Settled ((unexpanded schema expanding).length + 1) expanding
      (slotWithin schema policy parent · input) filled := by
  -- Each type that is filled in leaves fewer to be filled in beneath it.
  induction left : (unexpanded schema expanding).length using Nat.strongRecOn
    generalizing expanding input with
  | _ left ih =>
    subst left
    have beneath : ∀ type, .input type ∈ schema.types.entries → ∃ filled,
        Settled (unexpanded schema expanding).length expanding
          (fun depth => fieldsOver policy parent (slotWithin schema policy parent depth) type)
          filled := by
      intro type known
      apply fieldsOver_settled
      intro new input
      have fewer := unexpanded_cons_lt known new
      obtain ⟨filled, settled⟩ := ih _ fewer (type.name :: expanding) input rfl
      exact ⟨filled, fun depth enough => settled depth (Nat.le_trans fewer enough)⟩
    obtain ⟨filled, settled⟩ := slotOver_settled policy parent beneath input
    refine ⟨filled, fun depth enough => ?_⟩
    cases depth with
    | zero => cases enough
    | succ depth => exact settled depth (Nat.le_of_succ_le_succ enough)

def maxDepth (schema : Schema) : Nat :=
  schema.types.entries.length + 1

theorem slotWithin_maxDepth (schema : Schema) (policy : Policy) (parent : Field)
    (expanding : List String) (input : InputTarget) :
    ∃ filled, Settled (maxDepth schema) expanding (slotWithin schema policy parent · input) filled := by
  obtain ⟨filled, settled⟩ := slotWithin_settled schema policy parent expanding input
  exact ⟨filled, fun depth enough => settled depth
    (Nat.le_trans (Nat.succ_le_succ (List.length_filter_le _ _)) enough)⟩

theorem slotsOver_maxDepth (schema : Schema) (policy : Policy) (parent : Field)
    (expanding : List String) (inputs : List InputTarget) :
    ∃ slots, Settled (maxDepth schema) expanding
      (fun depth => slotsOver policy parent (slotWithin schema policy parent depth) inputs) slots := by
  obtain ⟨each, settled⟩ :=
    Classical.axiomOfChoice (slotWithin_maxDepth schema policy parent expanding)
  exact ⟨_, slotsOver_settled policy parent fun input _ => settled input⟩

theorem fieldsOver_maxDepth (schema : Schema) (policy : Policy) (parent : Field)
    (expanding : List String) (type : InputObjectType) :
    ∃ fields, Settled (maxDepth schema) expanding
      (fun depth => fieldsOver policy parent (slotWithin schema policy parent depth) type) fields :=
  fieldsOver_settled fun _ => slotWithin_maxDepth schema policy parent (type.name :: expanding)

def result (filling : Nat → Filling α) (settles : ∃ result, Settled bound [] filling result) : α :=
  ((filling bound []).get (by
    obtain ⟨result, settled⟩ := settles
    rw [settled bound (Nat.le_refl bound)]
    rfl)).1

theorem result_settled {filling : Nat → Filling α}
    (settles : ∃ result, Settled bound [] filling result) :
    Settled bound [] filling (result filling settles) := by
  obtain ⟨a, settled⟩ := settles
  have same : result filling ⟨a, settled⟩ = a := by
    simp only [result, settled bound (Nat.le_refl bound), Option.get_some]
  rwa [same]

end Settled

section Results

variable (schema : Schema) (policy : Policy) (parent : Field)

def slot (input : InputTarget) : Option Slot :=
  result (slotWithin schema policy parent · input) (slotWithin_maxDepth schema policy parent [] input)

def inputFields (type : InputObjectType) : List Slot :=
  result (fun depth => fieldsOver policy parent (slotWithin schema policy parent depth) type)
    (fieldsOver_maxDepth schema policy parent [] type)

def arguments (field : Field) : List Slot :=
  result
    (fun depth => slotsOver policy field (slotWithin schema policy field depth) field.inputs)
    (slotsOver_maxDepth schema policy field [] field.inputs)

end Results

end Defaults

end QueryEditor
