import Mathlib.Data.List.Basic
import QueryEditor.Proofs.Document.Induction

namespace QueryEditor.Value

variable {replacement replacement' : String → Value}

theorem mentionedByItems_eq (items : List Value) : mentionedByItems items = items.flatMap mentioned := by
  induction items with
  | nil => rfl
  | cons item rest ih => rw [mentionedByItems, ih, List.flatMap_cons]

theorem mentionedBySlots_eq (fields : List Slot) :
    mentionedBySlots fields = fields.flatMap (·.value.mentioned) := by
  induction fields with
  | nil => rfl
  | cons slot rest ih => rw [mentionedBySlots, ih, List.flatMap_cons]

theorem substituteItems_eq (replacement : String → Value) (items : List Value) :
    substituteItems replacement items = items.map (substitute replacement) := by
  induction items with
  | nil => rfl
  | cons item rest ih => rw [substituteItems, ih, List.map_cons]

theorem substituteSlots_eq (replacement : String → Value) (fields : List Slot) :
    substituteSlots replacement fields =
      fields.map fun slot => ⟨slot.name, slot.value.substitute replacement⟩ := by
  induction fields with
  | nil => rfl
  | cons slot rest ih => rw [substituteSlots, ih, List.map_cons]

/-- The variables of the values put in, in the order of the variables that they take the place of. -/
theorem mentioned_substitute (replacement : String → Value) (value : Value) :
    (value.substitute replacement).mentioned =
      value.mentioned.flatMap fun name => (replacement name).mentioned := by
  induction value using Value.inductionOn with
  | «variable» name => exact (List.append_nil _).symm
  | list items ih =>
    rw [substitute, substituteItems_eq, mentioned, mentioned, mentionedByItems_eq, mentionedByItems_eq,
      List.flatMap_map, List.flatMap_assoc]
    exact List.flatMap_congr ih
  | object fields ih =>
    rw [substitute, substituteSlots_eq, mentioned, mentioned, mentionedBySlots_eq, mentionedBySlots_eq,
      List.flatMap_map, List.flatMap_assoc]
    exact List.flatMap_congr ih
  | _ => rfl

theorem mentioned_substitute_eq_nil_iff {value : Value} :
    (value.substitute replacement).mentioned = [] ↔
      ∀ name ∈ value.mentioned, (replacement name).mentioned = [] := by
  rw [mentioned_substitute, List.flatMap_eq_nil_iff]

/-- Only what is put in the place of the variables mentioned matters. -/
theorem substitute_congr {value : Value}
    (agree : ∀ name ∈ value.mentioned, replacement name = replacement' name) :
    value.substitute replacement = value.substitute replacement' := by
  induction value using Value.inductionOn with
  | «variable» name => exact agree name (List.mem_singleton_self name)
  | list items ih =>
    rw [mentioned, mentionedByItems_eq] at agree
    rw [substitute, substitute, substituteItems_eq, substituteItems_eq]
    refine congrArg list (List.map_congr_left fun item member => ih item member fun name there => ?_)
    exact agree name (List.mem_flatMap.mpr ⟨item, member, there⟩)
  | object fields ih =>
    rw [mentioned, mentionedBySlots_eq] at agree
    rw [substitute, substitute, substituteSlots_eq, substituteSlots_eq]
    refine congrArg object (List.map_congr_left fun slot member => ?_)
    rw [ih slot member fun name there => agree name (List.mem_flatMap.mpr ⟨slot, member, there⟩)]
  | _ => rfl

theorem substituteSlots_congr {fields : List Slot}
    (agree : ∀ name ∈ mentionedBySlots fields, replacement name = replacement' name) :
    substituteSlots replacement fields = substituteSlots replacement' fields :=
  object.inj (@substitute_congr _ _ (object fields) agree)

theorem substitute_variable (value : Value) : value.substitute .variable = value := by
  induction value using Value.inductionOn with
  | list items ih =>
    rw [substitute, substituteItems_eq, List.map_congr_left ih, List.map_id']
  | object fields ih =>
    rw [substitute, substituteSlots_eq]
    refine congrArg object ((List.map_congr_left fun slot member => ?_).trans (List.map_id fields))
    rw [ih slot member, id]
  | _ => rfl

theorem substitute_constant {value : Value} (constant : value.mentioned = []) :
    value.substitute replacement = value := by
  have nothing : ∀ name ∈ value.mentioned, replacement name = .variable name :=
    fun name member => nomatch constant ▸ member
  rw [substitute_congr nothing, substitute_variable]

theorem substitute_substitute (first second : String → Value) (value : Value) :
    (value.substitute first).substitute second =
      value.substitute fun name => (first name).substitute second := by
  induction value using Value.inductionOn with
  | list items ih =>
    rw [substitute, substitute, substitute, substituteItems_eq, substituteItems_eq, substituteItems_eq,
      List.map_map]
    exact congrArg list (List.map_congr_left ih)
  | object fields ih =>
    rw [substitute, substitute, substitute, substituteSlots_eq, substituteSlots_eq, substituteSlots_eq,
      List.map_map]
    refine congrArg object (List.map_congr_left fun slot member => ?_)
    rw [Function.comp_apply, ih slot member]
  | _ => rfl

def isLiteral : Value → Bool
  | .variable _ => false
  | list _ => false
  | object _ => false
  | _ => true

mutual

/-- One value is another with `replacement name` in the place of each variable `name`: the literals are
the same, the lists as long, and the objects have the same names in the same order. -/
inductive Filled (replacement : String → Value) : Value → Value → Prop
  | «variable» (name : String) : Filled replacement (.variable name) (replacement name)
  | literal {value : Value} (isLiteral : value.isLiteral = true) : Filled replacement value value
  | list {items items' : List Value} (each : FilledItems replacement items items') :
      Filled replacement (.list items) (.list items')
  | object {fields fields' : List Slot} (each : FilledSlots replacement fields fields') :
      Filled replacement (.object fields) (.object fields')

inductive FilledItems (replacement : String → Value) : List Value → List Value → Prop
  | nil : FilledItems replacement [] []
  | cons {item item' : Value} {items items' : List Value} (first : Filled replacement item item')
      (others : FilledItems replacement items items') :
      FilledItems replacement (item :: items) (item' :: items')

inductive FilledSlots (replacement : String → Value) : List Slot → List Slot → Prop
  | nil : FilledSlots replacement [] []
  | cons {value value' : Value} {fields fields' : List Slot} (name : String)
      (first : Filled replacement value value') (others : FilledSlots replacement fields fields') :
      FilledSlots replacement (⟨name, value⟩ :: fields) (⟨name, value'⟩ :: fields')

end

mutual

theorem filled_iff (value result : Value) :
    Filled replacement value result ↔ result = value.substitute replacement := by
  constructor
  · intro filled
    cases filled with
    | «variable» name => rfl
    | literal isLiteral =>
      cases value with
      | «variable» => cases isLiteral
      | list => cases isLiteral
      | object => cases isLiteral
      | _ => rfl
    | @list items items' each => rw [substitute, (filledItems_iff items items').mp each]
    | @object fields fields' each => rw [substitute, (filledSlots_iff fields fields').mp each]
  · rintro rfl
    match value with
    | .variable name => exact .variable name
    | .list items => exact .list ((filledItems_iff items _).mpr rfl)
    | .object fields => exact .object ((filledSlots_iff fields _).mpr rfl)
    | .null | .boolean _ | .int _ | .float _ | .string _ | .enum _ => exact .literal rfl

theorem filledItems_iff (items results : List Value) :
    FilledItems replacement items results ↔ results = substituteItems replacement items := by
  constructor
  · intro filled
    cases filled with
    | nil => rfl
    | @cons item item' items items' first others =>
      rw [substituteItems, (filled_iff item item').mp first, (filledItems_iff items items').mp others]
  · rintro rfl
    match items with
    | [] => exact .nil
    | item :: items => exact .cons ((filled_iff item _).mpr rfl) ((filledItems_iff items _).mpr rfl)

theorem filledSlots_iff (fields results : List Slot) :
    FilledSlots replacement fields results ↔ results = substituteSlots replacement fields := by
  constructor
  · intro filled
    cases filled with
    | nil => rfl
    | @cons value value' fields fields' name first others =>
      rw [substituteSlots, (filled_iff value value').mp first, (filledSlots_iff fields fields').mp others]
  · rintro rfl
    match fields with
    | [] => exact .nil
    | ⟨name, value⟩ :: fields =>
      exact .cons name ((filled_iff value _).mpr rfl) ((filledSlots_iff fields _).mpr rfl)

end

/-- The laws of substitution: it is put together like its variables, and goes to the variables alone. -/
theorem substitute_lawful (value : Value) (first second : String → Value) :
    (value.substitute first).mentioned =
        value.mentioned.flatMap (fun name => (first name).mentioned) ∧
      ((value.substitute first).mentioned = [] ↔
        ∀ name ∈ value.mentioned, (first name).mentioned = []) ∧
      value.substitute .variable = value ∧
      (value.substitute first).substitute second =
        value.substitute (fun name => (first name).substitute second) ∧
      ∀ result, Filled first value result ↔ result = value.substitute first :=
  ⟨mentioned_substitute first value, mentioned_substitute_eq_nil_iff, substitute_variable value,
    substitute_substitute first second value, filled_iff value⟩

end QueryEditor.Value
