import QueryEditor.Proofs.Defaults
import QueryEditor.Proofs.Edit.Lists
import QueryEditor.Proofs.Edit.Remembered
import QueryEditor.Proofs.Edit.Resolution

namespace QueryEditor

variable {α : Type}

namespace Selections

variable {p : α → Bool} {items others : List α} {a : α}

theorem removeFirst_some (found : removeFirst p items = some (a, others)) :
    ∃ front back, items = front ++ a :: back ∧ others = front ++ back ∧ p a = true ∧
      front.filter p = [] := by
  induction items generalizing others with
  | nil => cases found
  | cons first rest ih =>
    rw [removeFirst] at found
    split at found
    case isTrue own =>
      cases found
      exact ⟨[], rest, rfl, rfl, own, rfl⟩
    case isFalse other =>
      rcases Option.map_eq_some_iff.mp found with ⟨⟨removed, behind⟩, further, same⟩
      cases same
      rcases ih further with ⟨front, back, rfl, rfl, own, apart⟩
      refine ⟨first :: front, back, rfl, rfl, own, ?_⟩
      rw [List.filter_cons_of_neg other, apart]

theorem removeFirst_none : removeFirst p items = none ↔ items.filter p = [] := by
  induction items with
  | nil => exact ⟨fun _ => rfl, fun _ => rfl⟩
  | cons first rest ih =>
    rw [removeFirst]
    by_cases own : p first = true
    · simp [own]
    · simpa [own] using ih

theorem removeFirst_only (only : items.filter p = [a]) :
    removeFirst p items = some (a, items.filter (!p ·)) := by
  cases found : removeFirst p items with
  | none =>
    rw [removeFirst_none.mp found] at only
    cases only
  | some removed =>
    rcases removed with ⟨first, others⟩
    rcases removeFirst_some found with ⟨front, back, rfl, rfl, own, apart⟩
    rw [List.filter_append, apart, List.nil_append, List.filter_cons_of_pos own] at only
    rcases List.cons.inj only with ⟨rfl, behind⟩
    rw [List.filter_append, filter_not_eq_self apart, List.filter_cons_of_neg (by simp [own]),
      filter_not_eq_self behind]

end Selections

/-- What putting an entry back makes of a list: entries of other names stay as they are, and if there
is none of its own name it comes to stand at the end. -/
structure Restores (own : α → Bool) (restored : Option α) (list new : List α) : Prop where
  others : new.filter (!own ·) = list.filter (!own ·)
  last : list.filter own = [] → ∃ a, restored = some a ∧ own a = true ∧ new = list ++ [a]

namespace Restores

variable {own : α → Bool} {restored : Option α} {list others : List α} {a : α}

theorem removed (found : Selections.removeFirst own list = some (a, others)) :
    Restores own restored list others := by
  rcases Selections.removeFirst_some found with ⟨front, back, rfl, rfl, first, apart⟩
  constructor
  · have dropped : (a :: back).filter (!own ·) = back.filter (!own ·) :=
      List.filter_cons_of_neg (by simp [first])
    rw [List.filter_append, List.filter_append, dropped]
  · intro none
    rw [List.filter_append, List.filter_cons_of_pos first] at none
    cases (List.append_eq_nil_iff.mp none).2

theorem added (called : own a = true) : Restores own (some a) list (list ++ [a]) where
  others := by simp [called]
  last _ := ⟨a, rfl, called, rfl⟩

end Restores

namespace Selections

theorem toggleField_once (schema : Schema) (policy : Policy) {field : Field}
    (previous : Option FieldSelection) {selections : List Selection} {node : FieldSelection}
    (once : selections.filter (·.isFieldNamed field.name) = [.field node]) :
    toggleField schema policy field previous selections =
      ⟨selections.filter (!·.isFieldNamed field.name), some node⟩ := by
  rw [toggleField, removeFirst_only once]
  rfl

theorem toggleField_unselected (schema : Schema) (policy : Policy) {field : Field}
    (previous : Option FieldSelection) {selections : List Selection}
    (none : selections.filter (·.isFieldNamed field.name) = []) :
    toggleField schema policy field previous selections =
      ⟨selections ++ [.field (previous.getD
        { name := field.name, arguments := Defaults.arguments schema policy field })], .none⟩ := by
  rw [toggleField, removeFirst_none.mpr none]

theorem toggleField_restores (schema : Schema) (policy : Policy) {field : Field}
    {previous : Option FieldSelection} (named : ∀ node ∈ previous, node.name = field.name)
    (selections : List Selection) :
    Restores (·.isFieldNamed field.name)
      ((previous.map Selection.field).or
        (some (.field { name := field.name, arguments := Defaults.arguments schema policy field })))
      selections (toggleField schema policy field previous selections).selections := by
  rw [toggleField]
  split
  case h_1 found => exact .removed found
  case h_2 =>
    cases previous with
    | none =>
      apply Restores.added
      simp [Selection.isFieldNamed]
    | some node =>
      apply Restores.added
      simp [Selection.isFieldNamed, named node rfl]

theorem toggleField_removed {schema : Schema} {policy : Policy} {field : Field}
    {previous : Option FieldSelection} {selections : List Selection} {node : FieldSelection}
    (taken : (toggleField schema policy field previous selections).removed = some node) :
    node.name = field.name := by
  rw [toggleField] at taken
  split at taken
  case h_1 removed others found =>
    rcases removeFirst_some found with ⟨front, back, -, -, own, -⟩
    cases removed with
    | field node' =>
      cases taken
      exact beq_iff_eq.mp own
    | _ => cases taken
  case h_2 => cases taken

theorem toggleSpread_restores {fragment : String} {previous : Option FragmentSpread}
    (named : ∀ node ∈ previous, node.fragment = fragment) (selections : List Selection) :
    Restores (·.isSpreadOf fragment)
      ((previous.map Selection.spread).or (some (.spread { fragment }))) selections
      (toggleSpread fragment previous selections).selections := by
  rw [toggleSpread]
  split
  case h_1 found => exact .removed found
  case h_2 found => exact .removed found
  case h_3 =>
    cases previous with
    | none =>
      apply Restores.added
      simp [Selection.isSpreadOf]
    | some node =>
      apply Restores.added
      simp [Selection.isSpreadOf, named node rfl]

theorem toggleSpread_removed {fragment : String} {previous : Option FragmentSpread}
    {selections : List Selection} {node : FragmentSpread}
    (taken : (toggleSpread fragment previous selections).removed = some node) :
    node.fragment = fragment := by
  rw [toggleSpread] at taken
  split at taken
  case h_1 removed others found =>
    rcases removeFirst_some found with ⟨front, back, -, -, own, -⟩
    cases taken
    exact beq_iff_eq.mp own
  case h_2 => cases taken
  case h_3 => cases taken

end Selections

namespace Slots

theorem remove_eq (name : String) (slots : List Slot) :
    remove name slots = match Selections.removeFirst (·.name == name) slots with
      | some (slot, others) => (others, some slot)
      | none => (slots, none) := by
  induction slots with
  | nil => rfl
  | cons slot rest ih =>
    rw [remove, Selections.removeFirst, ih]
    by_cases own : slot.name = name
    · simp [own]
    · have other : ¬ (slot.name == name) = true := by simpa using own
      rw [if_neg own, if_neg other]
      cases Selections.removeFirst (·.name == name) rest <;> rfl

theorem remove_name {name : String} {slots : List Slot} {slot : Slot}
    (taken : (remove name slots).2 = some slot) : slot.name = name := by
  rw [remove_eq] at taken
  split at taken
  case h_1 first others found =>
    rcases Selections.removeFirst_some found with ⟨front, back, -, -, own, -⟩
    cases taken
    exact beq_iff_eq.mp own
  case h_2 => cases taken

theorem add_restores {schema : Schema} {policy : Policy} {parent : Field} {input : InputTarget}
    {previous : Option Slot} (named : ∀ slot ∈ previous, slot.name = input.name)
    {slots result : List Slot} (done : add schema policy parent input previous slots = .ok result) :
    Restores (·.name == input.name) (previous.or (Defaults.slot schema policy parent input))
      slots result := by
  unfold add at done
  split at done
  case isTrue there =>
    cases done
    refine ⟨rfl, fun none => ?_⟩
    rcases List.any_eq_true.mp there with ⟨slot, member, own⟩
    exact absurd own (List.filter_eq_nil_iff.mp none slot member)
  case isFalse =>
    split at done
    case h_1 slot some =>
      cases done
      rw [some]
      apply Restores.added
      have called : slot.name = input.name := by
        rcases Option.or_eq_some_iff.mp some with before | ⟨-, filled⟩
        · exact named slot before
        · exact Defaults.slot_name filled
      simp [called]
    case h_2 => cases done

end Slots

theorem Document.remove_ok {doc result : Document} {id : DefinitionId} :
    doc.remove id = .ok result ↔
      id < doc.definitions.length ∧ result = ⟨doc.definitions.eraseIdx id⟩ := by
  unfold remove
  cases there : doc.definition? id with
  | none =>
    have beyond := List.getElem?_eq_none_iff.mp there
    constructor
    · exact nofun
    · rintro ⟨bound, -⟩
      exact absurd bound (Nat.not_lt_of_le beyond)
  | some d =>
    have bound := id_lt_length there
    constructor
    · intro done
      cases done
      exact ⟨bound, rfl⟩
    · rintro ⟨-, rfl⟩
      rfl

namespace Schema

variable {schema : Schema} {doc doc' : Document} {id id' : DefinitionId}

theorem fieldAt_name {path : FieldPath} {field : Field}
    (found : schema.fieldAt doc id path = .ok field) : path.last? = some field.name := by
  rcases Edited.bind_eq_ok.mp found with ⟨⟨parent, name⟩, split, found⟩
  rcases Edited.bind_eq_ok.mp found with ⟨type, -, found⟩
  have called : field.name = name := by
    unfold fieldOn at found
    split at found
    case h_1 there =>
      cases found
      rcases Option.bind_eq_some_iff.mp there with ⟨fields, -, there⟩
      exact (Catalog.find?_mem there).2
    case h_2 => cases found
  rcases Option.map_eq_some_iff.mp (Document.splitPath_ok.mp split) with ⟨last, there, same⟩
  cases same
  rw [there, called]

/-- What the schema says about an address depends only on the kind of the definition, or on its type
condition. -/
theorem rootTypeOf_rooted {d : Definition} {selections : List Selection}
    (there : doc.definition? id = some d) (there' : doc'.definition? id' = some (d.rooted selections)) :
    schema.rootTypeOf doc' id' = schema.rootTypeOf doc id := by
  unfold rootTypeOf
  rw [there, there']
  cases d <;> rfl

theorem fieldAt_congr (same : schema.rootTypeOf doc' id' = schema.rootTypeOf doc id)
    (path : FieldPath) : schema.fieldAt doc' id' path = schema.fieldAt doc id path := by
  simp only [fieldAt, typeAt, same]

theorem inputAt_congr (same : schema.rootTypeOf doc' id' = schema.rootTypeOf doc id)
    (path : ArgumentPath) : schema.inputAt doc' id' path = schema.inputAt doc id path := by
  simp only [inputAt, fieldAt_congr same]

end Schema

namespace Edit

variable {schema : Schema} {policy : Policy} {removed : Removed} {doc : Document}
  {id : DefinitionId} {outcome : EditOutcome}

theorem performToggleField_ok {path : FieldPath}
    (done : performToggleField schema policy removed doc id path = .ok outcome) :
    ∃ parent field d inside, path.split? = some (parent, field.name) ∧
      schema.fieldAt doc id path = .ok field ∧ doc.definition? id = some d ∧
      Selections.within? parent.segments d.selections = some inside ∧
      let toggled :=
        Selections.toggleField schema policy field (removed.fields.find? (id, path)) inside
      outcome =
        { document := ⟨doc.definitions.set id
            (d.rooted (Selections.putWithin toggled.selections parent.segments d.selections))⟩
          removed := { removed with fields := removed.fields.update (id, path) toggled.removed } } := by
  rcases Edited.bind_eq_ok.mp done with ⟨⟨parent, name⟩, split, done⟩
  rcases Edited.bind_eq_ok.mp done with ⟨field, found, done⟩
  rcases Edited.bind_eq_ok.mp done with ⟨⟨document, taken⟩, edited, same⟩
  cases same
  rcases Document.editSelections_ok.mp edited with ⟨d, inside, new, there, held, toggled, rfl⟩
  cases toggled
  have split := Document.splitPath_ok.mp split
  have called : name = field.name := by
    rcases Option.map_eq_some_iff.mp split with ⟨last, there, same⟩
    cases same
    exact Option.some.inj (there.symm.trans (Schema.fieldAt_name found))
  rw [called] at split
  exact ⟨parent, field, d, inside, split, found, there, held, rfl⟩

theorem performToggleSpread_ok {path : FieldPath} {fragment : String}
    (done : performToggleSpread removed doc id path fragment = .ok outcome) :
    ∃ d inside, doc.definition? id = some d ∧
      Selections.within? path.segments d.selections = some inside ∧
      let toggled :=
        Selections.toggleSpread fragment (removed.spreads.find? (id, path, fragment)) inside
      outcome =
        { document := ⟨doc.definitions.set id
            (d.rooted (Selections.putWithin toggled.selections path.segments d.selections))⟩
          removed := { removed with
            spreads := removed.spreads.update (id, path, fragment) toggled.removed } } := by
  rcases Edited.bind_eq_ok.mp done with ⟨⟨document, taken⟩, edited, same⟩
  cases same
  rcases Document.editSelections_ok.mp edited with ⟨d, inside, new, there, held, toggled, rfl⟩
  cases toggled
  exact ⟨d, inside, there, held, rfl⟩

theorem performAddArgument_ok {path : ArgumentPath}
    (done : performAddArgument schema policy removed doc id path = .ok outcome) :
    ∃ field target d slots new, schema.inputAt doc id path = .ok (field, target) ∧
      doc.definition? id = some d ∧ Selections.slotsAt? path d.selections = some slots ∧
      Slots.add schema policy field target (removed.arguments.find? (id, path)) slots =
        .ok new ∧
      outcome =
        { document := ⟨doc.definitions.set id (d.rooted (Selections.putSlots path new d.selections))⟩
          removed := { removed with arguments := removed.arguments.forget (id, path) } } := by
  rcases Edited.bind_eq_ok.mp done with ⟨⟨field, target⟩, found, done⟩
  rcases Edited.bind_eq_ok.mp done with ⟨document, edited, same⟩
  cases same
  rcases Document.updateSlots_list.mp edited with ⟨d, slots, new, there, held, added, rfl⟩
  exact ⟨field, target, d, slots, new, found, there, held, added, rfl⟩

theorem performRemoveArgument_ok {path : ArgumentPath}
    (done : performRemoveArgument removed doc id path = .ok outcome) :
    ∃ d slots, doc.definition? id = some d ∧ Selections.slotsAt? path d.selections = some slots ∧
      let rest := Slots.remove path.leafName slots
      outcome =
        { document :=
            ⟨doc.definitions.set id (d.rooted (Selections.putSlots path rest.1 d.selections))⟩
          removed := match rest.2 with
            | some slot =>
              { removed with arguments := removed.arguments.remember (id, path) slot }
            | none => removed } := by
  rcases Edited.bind_eq_ok.mp done with ⟨⟨document, taken⟩, edited, done⟩
  rcases Document.editSlots_ok.mp edited with ⟨d, slots, new, there, held, same, rfl⟩
  have removes : Slots.remove path.leafName slots = (new, taken) := Except.ok.inj same
  refine ⟨d, slots, there, held, ?_⟩
  rw [removes]
  cases taken <;>
  · cases done
    rfl

end Edit

end QueryEditor
