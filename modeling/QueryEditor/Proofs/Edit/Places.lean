import QueryEditor.Proofs.Edit.Toggles

namespace QueryEditor

/-- Where something can be taken out of a definition and put back. -/
inductive Place where
  | field (parent : FieldPath) (name : String)
  | spread (path : FieldPath) (fragment : String)
  | argument (path : ArgumentPath)
  deriving DecidableEq

namespace Place

abbrev Entry : Place → Type
  | field _ _ => Selection
  | spread _ _ => Selection
  | argument _ => Slot

instance (place : Place) : DecidableEq place.Entry :=
  match place with
  | field _ _ => inferInstanceAs (DecidableEq Selection)
  | spread _ _ => inferInstanceAs (DecidableEq Selection)
  | argument _ => inferInstanceAs (DecidableEq Slot)

def owns : (place : Place) → place.Entry → Bool
  | field _ name => Selection.isFieldNamed name
  | spread _ fragment => Selection.isSpreadOf fragment
  | argument path => fun slot => slot.name == path.leafName

def takeOut (id : DefinitionId) : Place → Edit
  | field parent name => .toggleField id (parent.child name)
  | spread path fragment => .toggleSpread id path fragment
  | argument path => .removeArgument id path

def putBack (id : DefinitionId) : Place → Edit
  | field parent name => .toggleField id (parent.child name)
  | spread path fragment => .toggleSpread id path fragment
  | argument path => .addArgument id path

def list? : (place : Place) → List Selection → Option (List place.Entry)
  | field parent _, selections => Selections.within? parent.segments selections
  | spread path _, selections => Selections.within? path.segments selections
  | argument path, selections => Selections.slotsAt? path selections

def put : (place : Place) → List place.Entry → List Selection → List Selection
  | field parent _, new, selections => Selections.putWithin new parent.segments selections
  | spread path _, new, selections => Selections.putWithin new path.segments selections
  | argument path, new, selections => Selections.putSlots path new selections

def entries (place : Place) (d : Definition) : List place.Entry :=
  ((place.list? d.selections).getD []).filter place.owns

/-- What was taken out of a place in the definition at a position, if it was not put back. -/
def remembered : (place : Place) → Removed → DefinitionId → Option place.Entry
  | field parent name, removed, id => (removed.fields.find? (id, parent.child name)).map .field
  | spread path fragment, removed, id => (removed.spreads.find? (id, path, fragment)).map .spread
  | argument path, removed, id => removed.arguments.find? (id, path)

def anew (schema : Schema) (policy : Policy) (doc : Document) (id : DefinitionId) :
    (place : Place) → Option place.Entry
  | field parent name =>
    (schema.fieldAt doc id (parent.child name)).toOption.map fun field =>
      .field { name := field.name, arguments := Defaults.arguments schema policy field }
  | spread _ fragment => some (.spread { fragment })
  | argument path =>
    (schema.inputAt doc id path).toOption.bind fun (parent, target) =>
      Defaults.slot schema policy parent target

def way : Place → List String
  | field parent name => parent.segments ++ [name]
  | spread path _ => path.segments
  | argument path => path.field.segments

/-- Whether a place is the `__typename` at the root of an operation, or inside of it: no edit keeps
anything there. -/
def StandsIn (place : Place) (d : Definition) : Prop :=
  d.operation?.isSome = true ∧ place.way.head? = some typenameField

section Lists

variable {place : Place} {d : Definition} {selections : List Selection} {list : List place.Entry}

theorem entries_eq (place : Place) {list : List place.Entry}
    (there : place.list? d.selections = some list) :
    place.entries d = list.filter place.owns := by
  rw [entries, there, Option.getD_some]

theorem list?_put (there : place.list? selections = some list) (new : List place.Entry) :
    place.list? (place.put new selections) = some new := by
  cases place with
  | field parent name => exact Selections.within?_putWithin there new
  | spread path fragment => exact Selections.within?_putWithin there new
  | argument path => exact Selections.slotsAt?_putSlots there new

theorem entries_normalize (apart : place.way.head? ≠ some typenameField)
    (there : place.list? selections = some list) :
    ((place.list? (Selections.normalize selections)).getD []).filter place.owns =
      list.filter place.owns := by
  cases place with
  | field parent name =>
    rcases parent with ⟨segments⟩
    apply Selections.filter_within?_normalize _ _ there
    · cases segments with
      | nil => exact nofun
      | cons first inner => exact apart
    · rintro rfl s own
      have other : name ≠ typenameField := fun same => apart (by rw [same]; rfl)
      cases s with
      | field node =>
        have called : node.name = name := beq_iff_eq.mp own
        simpa [Selection.isFieldNamed, called] using other
      | _ => rfl
  | spread path fragment =>
    apply Selections.filter_within?_normalize apart _ there
    intro _ s own
    cases s with
    | field node => cases own
    | _ => rfl
  | argument path =>
    show ((Selections.slotsAt? path (Selections.normalize selections)).getD []).filter _ = _
    change Selections.slotsAt? path selections = _ at there
    rw [Selections.slotsAt?_normalize apart, there, Option.getD_some]

theorem entries_rooted (apart : ¬ place.StandsIn d) (there : place.list? d.selections = some list)
    (new : List place.Entry) :
    place.entries (d.rooted (place.put new d.selections)) = new.filter place.owns := by
  have found := list?_put there new
  cases d with
  | operation op =>
    have other : place.way.head? ≠ some typenameField := fun first => apart ⟨rfl, first⟩
    exact entries_normalize other found
  | fragment frag =>
    show ((place.list? (place.put new frag.selections)).getD []).filter place.owns = _
    change place.list? (place.put new frag.selections) = _ at found
    rw [found, Option.getD_some]

theorem standsIn_rooted (place : Place) (d : Definition) (selections : List Selection) :
    place.StandsIn (d.rooted selections) ↔ place.StandsIn d := by
  cases d <;> exact Iff.rfl

theorem rooted_standsIn (standsIn : place.StandsIn d) (there : place.list? d.selections = some list)
    {new : List place.Entry}
    (others : new.filter (!place.owns ·) = list.filter (!place.owns ·)) :
    d.rooted (place.put new d.selections) = d.rooted d.selections := by
  rcases standsIn with ⟨operation, first⟩
  cases d with
  | fragment frag => cases operation
  | operation op =>
    show Definition.operation _ = Definition.operation _
    congr 2
    change place.list? op.selections = some list at there
    show Selections.normalize (place.put new op.selections) = Selections.normalize op.selections
    cases place with
    | field parent name =>
      rcases parent with ⟨segments⟩
      cases segments with
      | nil =>
        cases there
        cases first
        show Selections.normalize new = _
        rw [Selections.normalize_filter, Selections.normalize_filter]
        change new.filter (!·.isFieldNamed typenameField) = _ at others
        rw [others]
        rfl
      | cons name' inner =>
        cases first
        exact Selections.normalize_putWithin new inner op.selections
    | spread path fragment =>
      rcases path with ⟨segments⟩
      cases segments with
      | nil => cases first
      | cons name' inner =>
        cases first
        exact Selections.normalize_putWithin new inner op.selections
    | argument path => exact Selections.normalize_putSlots first there new

theorem entries_takenOut (apart : ¬ place.StandsIn d) (there : place.list? d.selections = some list) :
    place.entries (d.rooted (place.put (list.filter (!place.owns ·)) d.selections)) = [] := by
  rw [entries_rooted apart there, List.filter_filter]
  simp

theorem rooted_put_inj {restored restored' : Option place.Entry} {new new' : List place.Entry}
    (there : place.list? d.selections = some list)
    (takenOut : ¬ place.StandsIn d → place.entries d = [])
    (restores : Restores place.owns restored list new)
    (restores' : Restores place.owns restored' list new') :
    d.rooted (place.put new d.selections) = d.rooted (place.put new' d.selections) ↔
      place.StandsIn d ∨ restored = restored' := by
  by_cases standsIn : place.StandsIn d
  · have nothing := rooted_standsIn standsIn there restores.others
    have nothing' := rooted_standsIn standsIn there restores'.others
    exact iff_of_true (nothing.trans nothing'.symm) (Or.inl standsIn)
  · -- What was put back is all that the result has at the place.
    have none : list.filter place.owns = [] := by
      rw [← place.entries_eq there]
      exact takenOut standsIn
    rcases restores.last none with ⟨a, rfl, own, rfl⟩
    rcases restores'.last none with ⟨b, rfl, own', rfl⟩
    rw [or_iff_right standsIn, Option.some.injEq]
    constructor
    · intro same
      have entries := congrArg place.entries same
      rw [entries_rooted standsIn there, entries_rooted standsIn there, List.filter_append,
        List.filter_append, none, List.filter_cons_of_pos own, List.filter_cons_of_pos own'] at entries
      exact (List.cons.inj entries).1
    · rintro rfl
      rfl

end Lists

end Place

def Removed.Named (removed : Removed) : Prop :=
  ∀ (place : Place) (id : DefinitionId) (a : place.Entry),
    place.remembered removed id = some a → place.owns a = true

namespace Place

variable {schema : Schema} {policy : Policy} {removed : Removed} {doc : Document}
  {id : DefinitionId} {outcome : EditOutcome} {place : Place} {d : Definition}

/-- Only taking out and putting back change what is remembered under a place. -/
theorem remembered_kept {edit : Edit} (notTaken : edit ≠ place.takeOut id)
    (notPut : edit ≠ place.putBack id)
    (done : edit.perform schema policy removed doc = .ok outcome) :
    place.remembered outcome.removed id = place.remembered removed id := by
  have remembers := (Edit.perform_remembers done).1
  cases place with
  | field parent name => exact congrArg (Option.map Selection.field) (remembers.fields notTaken)
  | spread path fragment => exact congrArg (Option.map Selection.spread) (remembers.spreads notTaken)
  | argument path => exact remembers.arguments notPut notTaken

theorem anew_congr {doc' : Document} {id' : DefinitionId}
    (same : schema.rootTypeOf doc' id' = schema.rootTypeOf doc id) :
    place.anew schema policy doc' id' = place.anew schema policy doc id := by
  cases place with
  | field parent name => rw [anew, anew, Schema.fieldAt_congr same]
  | spread path fragment => rfl
  | argument path => rw [anew, anew, Schema.inputAt_congr same]

theorem toggleField_split {parent parent' : FieldPath} {name name' : String}
    (split : (parent.child name).split? = some (parent', name')) : parent' = parent ∧ name' = name := by
  rw [FieldPath.split?_child] at split
  cases split
  exact ⟨rfl, rfl⟩

theorem takeOut_ok {taken : place.Entry} (there : doc.definition? id = some d)
    (once : place.entries d = [taken])
    (done : (place.takeOut id).perform schema policy removed doc = .ok outcome) :
    ∃ list, place.list? d.selections = some list ∧
      outcome.document =
        ⟨doc.definitions.set id (d.rooted (place.put (list.filter (!place.owns ·)) d.selections))⟩ ∧
      place.remembered outcome.removed id = some taken := by
  cases place with
  | field parent name =>
    rcases Edit.performToggleField_ok done with ⟨parent', field, d', list, split, -, there', held, rfl⟩
    rcases toggleField_split split with ⟨rfl, called⟩
    cases there.symm.trans there'
    have only : list.filter (·.isFieldNamed field.name) = [taken] := by
      rw [called, ← once]
      exact (entries_eq (.field parent' name) held).symm
    have member : taken ∈ list.filter (·.isFieldNamed field.name) := by
      rw [only]
      exact List.mem_cons_self
    cases taken with
    | field node =>
      have toggled := Selections.toggleField_once schema policy
        (removed.fields.find? (id, parent'.child name)) only
      refine ⟨list, held, ?_, ?_⟩
      · rw [toggled, called]
        rfl
      · rw [toggled, remembered, Memory.find?_update_self]
        rfl
    | _ => cases (List.mem_filter.mp member).2
  | spread path fragment =>
    rcases Edit.performToggleSpread_ok done with ⟨d', list, there', held, rfl⟩
    cases there.symm.trans there'
    have only : list.filter (·.isSpreadOf fragment) = [taken] := by
      rw [← once]
      exact (entries_eq (.spread path fragment) held).symm
    have member : taken ∈ list.filter (·.isSpreadOf fragment) := by
      rw [only]
      exact List.mem_cons_self
    cases taken with
    | spread node =>
      have toggled : Selections.toggleSpread fragment
          (removed.spreads.find? (id, path, fragment)) list =
            ⟨list.filter (!·.isSpreadOf fragment), some node⟩ := by
        rw [Selections.toggleSpread, Selections.removeFirst_only only]
      refine ⟨list, held, ?_, ?_⟩
      · rw [toggled]
        rfl
      · rw [toggled, remembered, Memory.find?_update_self]
        rfl
    | _ => cases (List.mem_filter.mp member).2
  | argument path =>
    rcases Edit.performRemoveArgument_ok done with ⟨d', slots, there', held, rfl⟩
    cases there.symm.trans there'
    have only : slots.filter (·.name == path.leafName) = [taken] := by
      rw [← once]
      exact (entries_eq (.argument path) held).symm
    have removes : Slots.remove path.leafName slots =
        (slots.filter (!·.name == path.leafName), some taken) := by
      rw [Slots.remove_eq, Selections.removeFirst_only only]
    refine ⟨slots, held, ?_, ?_⟩
    · rw [removes]
      rfl
    · rw [removes]
      exact Memory.find?_remember_self _ _ _

theorem putBack_ok (named : removed.Named) (there : doc.definition? id = some d)
    (done : (place.putBack id).perform schema policy removed doc = .ok outcome) :
    ∃ list new, place.list? d.selections = some list ∧
      outcome.document = ⟨doc.definitions.set id (d.rooted (place.put new d.selections))⟩ ∧
      Restores place.owns ((place.remembered removed id).or (place.anew schema policy doc id))
        list new := by
  cases place with
  | field parent name =>
    rcases Edit.performToggleField_ok done with ⟨parent', field, d', list, split, found, there', held, rfl⟩
    rcases toggleField_split split with ⟨rfl, rfl⟩
    cases there.symm.trans there'
    have previous : ∀ node ∈ removed.fields.find? (id, parent'.child field.name),
        node.name = field.name := by
      intro node before
      have own := named (.field parent' field.name) id (.field node)
        (by rw [remembered, Option.mem_def.mp before]; rfl)
      simpa [owns, Selection.isFieldNamed] using own
    have restores := Selections.toggleField_restores schema policy previous list
    refine ⟨list, _, held, rfl, ?_⟩
    rw [anew, found]
    exact restores
  | spread path fragment =>
    rcases Edit.performToggleSpread_ok done with ⟨d', list, there', held, rfl⟩
    cases there.symm.trans there'
    have previous : ∀ node ∈ removed.spreads.find? (id, path, fragment),
        node.fragment = fragment := by
      intro node before
      have own := named (.spread path fragment) id (.spread node)
        (by rw [remembered, Option.mem_def.mp before]; rfl)
      simpa [owns, Selection.isSpreadOf] using own
    exact ⟨list, _, held, rfl, Selections.toggleSpread_restores previous list⟩
  | argument path =>
    rcases Edit.performAddArgument_ok done with
      ⟨field, target, d', slots, new, found, there', held, added, rfl⟩
    cases there.symm.trans there'
    have called : target.name = path.leafName := (Schema.inputAt_has found).2.2
    have previous : ∀ slot ∈ removed.arguments.find? (id, path), slot.name = target.name := by
      intro slot before
      have own := named (.argument path) id slot before
      rw [called]
      simpa [owns] using own
    have restores := Slots.add_restores previous added
    rw [called] at restores
    refine ⟨slots, new, held, rfl, ?_⟩
    rw [anew, found]
    exact restores

/-- What taking out and putting back leave remembered bears the name of the place, unless it is what was
remembered before. -/
theorem remembered_own {edit : Edit} (own : edit = place.takeOut id ∨ edit = place.putBack id)
    (done : edit.perform schema policy removed doc = .ok outcome) :
    place.remembered outcome.removed id = place.remembered removed id ∨
      ∀ a, place.remembered outcome.removed id = some a → place.owns a = true := by
  cases place with
  | field parent name =>
    have toggled : Edit.performToggleField schema policy removed doc id (parent.child name) =
        .ok outcome := by
      rcases own with rfl | rfl <;> exact done
    rcases Edit.performToggleField_ok toggled with ⟨parent', field, d, list, split, -, -, -, rfl⟩
    rcases toggleField_split split with ⟨rfl, rfl⟩
    right
    intro a found
    rw [remembered, Memory.find?_update_self] at found
    rcases Option.map_eq_some_iff.mp found with ⟨node, taken, rfl⟩
    exact beq_iff_eq.mpr (Selections.toggleField_removed taken)
  | spread path fragment =>
    have toggled : Edit.performToggleSpread removed doc id path fragment = .ok outcome := by
      rcases own with rfl | rfl <;> exact done
    rcases Edit.performToggleSpread_ok toggled with ⟨d, list, -, -, rfl⟩
    right
    intro a found
    rw [remembered, Memory.find?_update_self] at found
    rcases Option.map_eq_some_iff.mp found with ⟨node, taken, rfl⟩
    exact beq_iff_eq.mpr (Selections.toggleSpread_removed taken)
  | argument path =>
    rcases own with rfl | rfl
    · rcases Edit.performRemoveArgument_ok done with ⟨d, slots, -, -, rfl⟩
      dsimp only
      split
      case h_1 slot taken =>
        right
        intro a found
        rw [remembered, Memory.find?_remember_self] at found
        cases found
        exact beq_iff_eq.mpr (Slots.remove_name taken)
      case h_2 => exact Or.inl rfl
    · rcases Edit.performAddArgument_ok done with ⟨field, target, d, slots, new, -, -, -, -, rfl⟩
      right
      intro a found
      rw [remembered, Memory.find?_forget_self] at found
      cases found

end Place

theorem Removed.Named.perform {schema : Schema} {policy : Policy} {removed : Removed}
    (named : removed.Named) {doc : Document} {edit : Edit} {outcome : EditOutcome}
    (done : edit.perform schema policy removed doc = .ok outcome) : outcome.removed.Named := by
  intro place id a found
  by_cases own : edit = place.takeOut id ∨ edit = place.putBack id
  · rcases Place.remembered_own own done with same | called
    · rw [same] at found
      exact named place id a found
    · exact called a found
  · have kept := Place.remembered_kept (fun same => own (Or.inl same))
      (fun same => own (Or.inr same)) done
    rw [kept] at found
    exact named place id a found

end QueryEditor
