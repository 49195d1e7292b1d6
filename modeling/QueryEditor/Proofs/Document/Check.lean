import Mathlib.Tactic.Simps.Basic
import QueryEditor.Document.Basic
import QueryEditor.Proofs.Document.Induction

namespace QueryEditor

/-- What is asked of each kind of part. Of the selections beneath a part a check may see whether
there are any. -/
structure Check where
  value : Value → Bool := fun _ => true
  slot : (name : String) → Bool := fun _ => true
  directive : (name : String) → Bool := fun _ => true
  field : (aliasName : Option String) → (name : String) → Bool := fun _ _ => true
  spread : (fragment : String) → Bool := fun _ => true
  inline : (condition : Option String) → (isEmpty : Bool) → Bool := fun _ _ => true
  declaration : VariableDefinition → Bool := fun _ => true
  operation : (name : Option String) → (isEmpty : Bool) → Bool := fun _ _ => true
  fragment : (name condition : String) → (isEmpty : Bool) → Bool := fun _ _ _ => true

namespace Check

@[simps]
def and (a b : Check) : Check where
  value v := a.value v && b.value v
  slot name := a.slot name && b.slot name
  directive name := a.directive name && b.directive name
  field aliasName name := a.field aliasName name && b.field aliasName name
  spread fragment := a.spread fragment && b.spread fragment
  inline condition isEmpty := a.inline condition isEmpty && b.inline condition isEmpty
  declaration d := a.declaration d && b.declaration d
  operation name isEmpty := a.operation name isEmpty && b.operation name isEmpty
  fragment name condition isEmpty := a.fragment name condition isEmpty && b.fragment name condition isEmpty

structure Implies (a b : Check) : Prop where
  value : ∀ v, a.value v = true → b.value v = true
  slot : ∀ name, a.slot name = true → b.slot name = true
  directive : ∀ name, a.directive name = true → b.directive name = true
  field : ∀ aliasName name, a.field aliasName name = true → b.field aliasName name = true
  spread : ∀ fragment, a.spread fragment = true → b.spread fragment = true
  inline : ∀ condition isEmpty, a.inline condition isEmpty = true → b.inline condition isEmpty = true
  declaration : ∀ d, a.declaration d = true → b.declaration d = true
  operation : ∀ name isEmpty, a.operation name isEmpty = true → b.operation name isEmpty = true
  fragment : ∀ name condition isEmpty,
    a.fragment name condition isEmpty = true → b.fragment name condition isEmpty = true

theorem Implies.values {a : Check} {value : Value → Bool}
    (weaker : ∀ v, a.value v = true → value v = true) : a.Implies { value } :=
  ⟨weaker, fun _ _ => rfl, fun _ _ => rfl, fun _ _ _ => rfl, fun _ _ => rfl, fun _ _ _ => rfl,
    fun _ _ => rfl, fun _ _ _ => rfl, fun _ _ _ _ => rfl⟩

theorem Implies.and_eq {a b : Check} (weaker : a.Implies b) : a.and b = a := by
  have absorbed : ∀ {x y : Bool}, (x = true → y = true) → (x && y) = x := by decide
  cases a
  simp only [and, Check.mk.injEq]
  exact ⟨funext fun _ => absorbed (weaker.value _), funext fun _ => absorbed (weaker.slot _),
    funext fun _ => absorbed (weaker.directive _),
    funext fun _ => funext fun _ => absorbed (weaker.field _ _),
    funext fun _ => absorbed (weaker.spread _),
    funext fun _ => funext fun _ => absorbed (weaker.inline _ _),
    funext fun _ => absorbed (weaker.declaration _),
    funext fun _ => funext fun _ => absorbed (weaker.operation _ _),
    funext fun _ => funext fun _ => funext fun _ => absorbed (weaker.fragment _ _ _)⟩

end Check

namespace Value

mutual

def all (check : Check) : Value → Bool
  | list items => check.value (list items) && allItems check items
  | object fields => check.value (object fields) && allSlots check fields
  | leaf => check.value leaf

def allItems (check : Check) : List Value → Bool
  | [] => true
  | item :: rest => all check item && allItems check rest

def allSlots (check : Check) : List Slot → Bool
  | [] => true
  | ⟨name, value⟩ :: rest => check.slot name && all check value && allSlots check rest

end

variable {check : Check}

theorem allItems_eq (check : Check) (items : List Value) :
    allItems check items = items.all (all check) := by
  induction items with
  | nil => rfl
  | cons item rest ih => rw [allItems, ih, List.all_cons]

theorem allItems_iff {items : List Value} :
    allItems check items = true ↔ ∀ item ∈ items, item.all check = true := by
  rw [allItems_eq, List.all_eq_true]

theorem allSlots_iff {fields : List Slot} :
    allSlots check fields = true ↔
      ∀ slot ∈ fields, check.slot slot.name = true ∧ slot.value.all check = true := by
  induction fields with
  | nil => simp [allSlots]
  | cons slot rest ih => simp [allSlots, ih, and_assoc]

@[simp] theorem allSlots_nil : allSlots check [] = true := rfl

theorem allSlots_cons (slot : Slot) (rest : List Slot) :
    allSlots check (slot :: rest) =
      (check.slot slot.name && slot.value.all check && allSlots check rest) := rfl

@[simp] theorem allSlots_append (front rest : List Slot) :
    allSlots check (front ++ rest) = (allSlots check front && allSlots check rest) := by
  induction front with
  | nil => rfl
  | cons slot front ih => simp [allSlots, ih, Bool.and_assoc]

mutual

theorem all_and (a b : Check) (value : Value) : value.all (a.and b) = (value.all a && value.all b) := by
  cases value with
  | list items => simp only [all, allItems_and a b items, Check.and_value]; ac_rfl
  | object fields => simp only [all, allSlots_and a b fields, Check.and_value]; ac_rfl
  | _ => rfl

theorem allItems_and (a b : Check) (items : List Value) :
    allItems (a.and b) items = (allItems a items && allItems b items) := by
  cases items with
  | nil => rfl
  | cons item rest => simp only [allItems, all_and a b item, allItems_and a b rest]; ac_rfl

theorem allSlots_and (a b : Check) (fields : List Slot) :
    allSlots (a.and b) fields = (allSlots a fields && allSlots b fields) := by
  match fields with
  | [] => rfl
  | ⟨name, value⟩ :: rest =>
    simp only [allSlots, all_and a b value, allSlots_and a b rest, Check.and_slot]
    ac_rfl

end

theorem all_mono {a b : Check} (weaker : a.Implies b) {value : Value} (passes : value.all a = true) :
    value.all b = true := by
  rw [← weaker.and_eq, all_and, Bool.and_eq_true] at passes
  exact passes.2

theorem all_congr {a b : Check} (values : a.value = b.value) (slots : a.slot = b.slot) (value : Value) :
    value.all a = value.all b := by
  induction value using Value.inductionOn with
  | list items ih =>
    rw [Bool.eq_iff_iff, all, all, Bool.and_eq_true, Bool.and_eq_true, allItems_iff, allItems_iff, values]
    exact and_congr_right' (forall₂_congr fun item member => by rw [ih item member])
  | object fields ih =>
    rw [Bool.eq_iff_iff, all, all, Bool.and_eq_true, Bool.and_eq_true, allSlots_iff, allSlots_iff, values,
      slots]
    exact and_congr_right' (forall₂_congr fun field member => by rw [ih field member])
  | _ => simp only [all, values]

end Value

namespace Directive

def all (check : Check) (directive : Directive) : Bool :=
  check.directive directive.name && Value.allSlots check directive.arguments

theorem all_and (a b : Check) (directive : Directive) :
    directive.all (a.and b) = (directive.all a && directive.all b) := by
  simp only [all, Value.allSlots_and, Check.and_directive]
  ac_rfl

end Directive

theorem List.all_and_all {α : Type} (p q r : α → Bool) (same : ∀ a, r a = (p a && q a)) (items : List α) :
    items.all r = (items.all p && items.all q) := by
  induction items with
  | nil => rfl
  | cons a items ih => simp only [List.all_cons, same, ih]; ac_rfl

namespace Selection

mutual

def all (check : Check) : Selection → Bool
  | field ⟨aliasName, name, arguments, directives, children⟩ =>
    check.field aliasName name && Value.allSlots check arguments &&
      directives.all (Directive.all check) && allIn check children
  | spread node => check.spread node.fragment && node.directives.all (Directive.all check)
  | inline ⟨condition, directives, children⟩ =>
    check.inline condition children.isEmpty && directives.all (Directive.all check) &&
      allIn check children

def allIn (check : Check) : List Selection → Bool
  | [] => true
  | selection :: rest => all check selection && allIn check rest

end

variable {check : Check}

theorem allIn_eq (check : Check) (selections : List Selection) :
    allIn check selections = selections.all (all check) := by
  induction selections with
  | nil => rfl
  | cons selection rest ih => rw [allIn, List.all_cons, ih]

theorem all_field (check : Check) (node : FieldSelection) :
    (field node).all check = (check.field node.aliasName node.name &&
      Value.allSlots check node.arguments && node.directives.all (Directive.all check) &&
      node.children.all (all check)) := by
  rw [← allIn_eq]
  rfl

theorem all_spread (check : Check) (node : FragmentSpread) :
    (spread node).all check =
      (check.spread node.fragment && node.directives.all (Directive.all check)) := rfl

theorem all_inline (check : Check) (node : InlineFragment) :
    (inline node).all check = (check.inline node.condition node.children.isEmpty &&
      node.directives.all (Directive.all check) && node.children.all (all check)) := by
  rw [← allIn_eq]
  rfl

mutual

theorem all_and (a b : Check) (selection : Selection) :
    selection.all (a.and b) = (selection.all a && selection.all b) := by
  have directives := List.all_and_all _ _ _ (Directive.all_and a b)
  match selection with
  | field ⟨aliasName, name, arguments, _, children⟩ =>
    simp only [all, allIn_and a b children, directives, Value.allSlots_and, Check.and_field]
    ac_rfl
  | spread node =>
    simp only [all, directives, Check.and_spread]
    ac_rfl
  | inline ⟨condition, _, children⟩ =>
    simp only [all, allIn_and a b children, directives, Check.and_inline]
    ac_rfl

theorem allIn_and (a b : Check) (selections : List Selection) :
    allIn (a.and b) selections = (allIn a selections && allIn b selections) := by
  match selections with
  | [] => rfl
  | selection :: rest =>
    simp only [allIn, all_and a b selection, allIn_and a b rest]
    ac_rfl

end

end Selection

namespace VariableDefinition

def all (check : Check) (declared : VariableDefinition) : Bool :=
  check.declaration declared && declared.default?.all (Value.all check)

theorem all_and (a b : Check) (declared : VariableDefinition) :
    declared.all (a.and b) = (declared.all a && declared.all b) := by
  unfold all
  cases declared.default? with
  | none => simp only [Check.and_declaration, Option.all_none]; ac_rfl
  | some value => simp only [Check.and_declaration, Option.all_some, Value.all_and]; ac_rfl

end VariableDefinition

namespace Definition

def all (check : Check) : Definition → Bool
  | operation op =>
    check.operation op.name op.selections.isEmpty &&
      op.declarations.all (VariableDefinition.all check) &&
      op.directives.all (Directive.all check) && op.selections.all (Selection.all check)
  | fragment frag =>
    check.fragment frag.name frag.condition frag.selections.isEmpty &&
      frag.directives.all (Directive.all check) && frag.selections.all (Selection.all check)

theorem all_and (a b : Check) (definition : Definition) :
    definition.all (a.and b) = (definition.all a && definition.all b) := by
  have declarations := List.all_and_all _ _ _ (VariableDefinition.all_and a b)
  have directives := List.all_and_all _ _ _ (Directive.all_and a b)
  have selections := List.all_and_all _ _ _ (Selection.all_and a b)
  cases definition with
  | operation op =>
    simp only [all, declarations, directives, selections, Check.and_operation]
    ac_rfl
  | fragment frag =>
    simp only [all, directives, selections, Check.and_fragment]
    ac_rfl

end Definition

namespace Document

def all (check : Check) (doc : Document) : Bool :=
  doc.definitions.all (Definition.all check)

theorem all_and (a b : Check) (doc : Document) : doc.all (a.and b) = (doc.all a && doc.all b) :=
  List.all_and_all _ _ _ (Definition.all_and a b) doc.definitions

theorem all_mono {a b : Check} (weaker : a.Implies b) {doc : Document} (passes : doc.all a = true) :
    doc.all b = true := by
  rw [← weaker.and_eq, all_and, Bool.and_eq_true] at passes
  exact passes.2

end Document

end QueryEditor
