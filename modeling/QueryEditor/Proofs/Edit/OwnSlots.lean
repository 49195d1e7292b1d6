import QueryEditor.Proofs.Edit.Toggles

namespace QueryEditor.Slots

variable {name : String} {slots result : List Slot}

/-- Edits of the slots of one name: the others come out as they went in and in the same order, and where
no name occurs twice none does afterwards. -/
structure EditsOwn (name : String) (edit : List Slot → Edited (List Slot)) : Prop where
  others : ∀ slots result, edit slots = .ok result →
    result.filter (·.name != name) = slots.filter (·.name != name)
  distinct : ∀ slots result, edit slots = .ok result →
    (slots.map (·.name)).Nodup → (result.map (·.name)).Nodup

section Update

variable {change : Value → Edited Value}

theorem update_names (done : update name change slots = .ok result) :
    result.map (·.name) = slots.map (·.name) := by
  induction slots generalizing result with
  | nil => cases done
  | cons slot rest ih =>
    rw [update] at done
    split at done
    · rcases Edited.bind_eq_ok.mp done with ⟨value, -, same⟩
      cases same
      rfl
    · rcases Edited.bind_eq_ok.mp done with ⟨behind, further, same⟩
      cases same
      rw [List.map_cons, List.map_cons, ih further]

theorem update_others (done : update name change slots = .ok result) :
    result.filter (·.name != name) = slots.filter (·.name != name) := by
  induction slots generalizing result with
  | nil => cases done
  | cons slot rest ih =>
    rw [update] at done
    split at done
    case isTrue own =>
      rcases Edited.bind_eq_ok.mp done with ⟨value, -, same⟩
      cases same
      rw [List.filter_cons_of_neg (by simp [own]), List.filter_cons_of_neg (by simp [own])]
    case isFalse other =>
      rcases Edited.bind_eq_ok.mp done with ⟨behind, further, same⟩
      cases same
      rw [List.filter_cons_of_pos (by simp [other]), List.filter_cons_of_pos (by simp [other]),
        ih further]

theorem editsOwn_update (name : String) (change : Value → Edited Value) :
    EditsOwn name (update name change) where
  others _ _ := update_others
  distinct _ _ done distinct := by rwa [update_names done]

theorem editsOwn_set (name : String) (input : SlotInput) (type : TypeDefinition) :
    EditsOwn name (set name input type) where
  others slots result done := by
    rcases Edited.bind_eq_ok.mp done with ⟨value, -, replaced⟩
    exact update_others replaced
  distinct slots result done distinct := by
    rcases Edited.bind_eq_ok.mp done with ⟨value, -, replaced⟩
    rwa [update_names replaced]

end Update

section Remove

theorem remove_only {slot : Slot} (only : slots.filter (·.name == name) = [slot]) :
    remove name slots = (slots.filter (·.name != name), some slot) := by
  rw [remove_eq, Selections.removeFirst_only only]
  rfl

theorem remove_sublist (name : String) (slots : List Slot) : (remove name slots).1.Sublist slots := by
  rw [remove_eq]
  cases found : Selections.removeFirst (·.name == name) slots with
  | none => exact .refl slots
  | some taken =>
    rcases Selections.removeFirst_some found with ⟨front, back, rfl, others, -⟩
    show taken.2.Sublist _
    rw [others]
    exact (List.sublist_cons_self taken.1 back).append_left front

theorem remove_others (name : String) (slots : List Slot) :
    (remove name slots).1.filter (·.name != name) = slots.filter (·.name != name) := by
  rw [remove_eq]
  cases found : Selections.removeFirst (·.name == name) slots with
  | none => rfl
  | some taken =>
    have kept : Restores (·.name == name) none slots taken.2 := .removed found
    exact kept.others

theorem editsOwn_remove (name : String) : EditsOwn name fun slots => .ok (remove name slots).1 where
  others slots result done := by
    cases done
    exact remove_others name slots
  distinct slots result done distinct := by
    cases done
    exact distinct.sublist ((remove_sublist name slots).map _)

end Remove

section Add

variable {schema : Schema} {policy : Policy} {parent : Field} {input : InputTarget}
  {previous : Option Slot} {slot : Slot}

theorem supplied_name (named : ∀ slot ∈ previous, slot.name = input.name)
    (supplied : previous.or (Defaults.slot schema policy parent input) = some slot) :
    slot.name = input.name := by
  rcases Option.or_eq_some_iff.mp supplied with before | ⟨-, filled⟩
  · exact named slot before
  · exact Defaults.slot_name filled

theorem add_ok : add schema policy parent input previous slots = .ok result ↔
    slots.any (·.name == input.name) = true ∧ result = slots ∨
    slots.any (·.name == input.name) = false ∧ ∃ slot,
      previous.or (Defaults.slot schema policy parent input) = some slot ∧ result = slots ++ [slot] := by
  rw [add]
  cases slots.any (·.name == input.name) with
  | true => simp [eq_comm]
  | false => cases previous.or (Defaults.slot schema policy parent input) <;> simp [eq_comm]

theorem editsOwn_add (schema : Schema) (policy : Policy) (parent : Field)
    (named : ∀ slot ∈ previous, slot.name = input.name) :
    EditsOwn input.name (add schema policy parent input previous) where
  others _ _ done := (add_restores named done).others
  distinct slots result done distinct := by
    rcases add_ok.mp done with ⟨-, rfl⟩ | ⟨absent, slot, supplied, rfl⟩
    · exact distinct
    · rw [List.map_append, List.map_singleton, supplied_name named supplied, List.nodup_append]
      refine ⟨distinct, List.pairwise_singleton _ _, ?_⟩
      intro name member own last same
      rcases List.mem_map.mp member with ⟨other, there, rfl⟩
      rw [List.mem_singleton.mp last] at same
      exact List.any_eq_false.mp absent other there (beq_iff_eq.mpr same)

theorem add_add (schema : Schema) (policy : Policy) (parent : Field)
    (named : ∀ slot ∈ previous, slot.name = input.name) (again : Option Slot) (slots : List Slot) :
    (add schema policy parent input previous slots >>= add schema policy parent input again) =
      add schema policy parent input previous slots := by
  cases done : add schema policy parent input previous slots with
  | error cause => rfl
  | ok result =>
    refine add_ok.mpr (.inl ⟨?_, rfl⟩)
    rcases add_ok.mp done with ⟨there, rfl⟩ | ⟨-, slot, supplied, rfl⟩
    · exact there
    · simp [supplied_name named supplied]

theorem add_remove (schema : Schema) (policy : Policy) (parent : Field)
    (only : slots.filter (·.name == input.name) = [slot]) :
    add schema policy parent input (some slot) (remove input.name slots).1 =
      .ok (slots.filter (·.name != input.name) ++ [slot]) := by
  rw [remove_only only]
  refine add_ok.mpr (.inr ⟨?_, slot, rfl, rfl⟩)
  rw [List.any_filter, List.any_eq_false]
  simp

theorem remove_add (named : ∀ slot ∈ previous, slot.name = input.name)
    (none : slots.filter (·.name == input.name) = [])
    (done : add schema policy parent input previous slots = .ok result) :
    ∃ slot, slot.name = input.name ∧ result = slots ++ [slot] ∧
      remove input.name result = (slots, some slot) := by
  rcases (add_restores named done).last none with ⟨slot, -, own, rfl⟩
  have only : (slots ++ [slot]).filter (·.name == input.name) = [slot] := by
    rw [List.filter_append, none, List.nil_append]
    exact List.filter_cons_of_pos own
  have others : (slots ++ [slot]).filter (·.name != input.name) = slots :=
    (add_restores named done).others.trans (Selections.filter_not_eq_self none)
  refine ⟨slot, beq_iff_eq.mp own, rfl, ?_⟩
  rw [remove_only only, others]

/-- Taking out the only slot of a name and adding it again moves it to the end; adding a slot where there
is none of its name and taking it out again changes nothing, and neither does adding twice. Whatever is
done to the slots of a name, the others stay as they are, and distinct names stay distinct. -/
theorem own_slot_edits (schema : Schema) (policy : Policy) (parent : Field)
    (named : ∀ slot ∈ previous, slot.name = input.name) (slots : List Slot) :
    (∀ slot, slots.filter (·.name == input.name) = [slot] →
      remove input.name slots = (slots.filter (·.name != input.name), some slot) ∧
      add schema policy parent input (some slot) (remove input.name slots).1 =
        .ok (slots.filter (·.name != input.name) ++ [slot])) ∧
    (slots.filter (·.name == input.name) = [] → ∀ result,
      add schema policy parent input previous slots = .ok result →
      ∃ slot, slot.name = input.name ∧ result = slots ++ [slot] ∧
        remove input.name result = (slots, some slot)) ∧
    (∀ again, (add schema policy parent input previous slots >>= add schema policy parent input again) =
      add schema policy parent input previous slots) ∧
    EditsOwn input.name (add schema policy parent input previous) ∧
    EditsOwn input.name (fun slots => .ok (remove input.name slots).1) ∧
    (∀ given type, EditsOwn input.name (set input.name given type)) ∧
    ∀ fields, EditsOwn input.name (setFields input.name fields) := by
  refine ⟨?_, ?_, fun again => add_add schema policy parent named again slots,
    editsOwn_add schema policy parent named, editsOwn_remove input.name, editsOwn_set input.name,
    fun fields => editsOwn_update input.name _⟩
  · intro slot only
    exact ⟨remove_only only, add_remove schema policy parent only⟩
  · intro none result done
    exact remove_add named none done

/-- An argument between two of one other name, put back with the value it had, and with an earlier one. -/
theorem own_slot_edits_repeated :
    let schema : Schema := ⟨.ofList [], "Query", none, none⟩
    let parent : Field :=
      { name := "users", location := .introspection, parent := "Query", type := .named "User" true }
    let input : InputTarget :=
      .argument { name := "first", location := .introspection, type := .named "Int" true }
    let previous : Option Slot := some ⟨"first", .int 3⟩
    let others : List Slot := [⟨"after", .string "x"⟩, ⟨"after", .null⟩]
    let slots : List Slot := [⟨"after", .string "x"⟩, ⟨"first", .int 5⟩, ⟨"after", .null⟩]
    (∀ slot ∈ previous, slot.name = input.name) ∧
      slots.filter (·.name == input.name) = [⟨"first", .int 5⟩] ∧
      add schema {} parent input (some ⟨"first", .int 5⟩) (remove "first" slots).1 =
        .ok (others ++ [⟨"first", .int 5⟩]) ∧
      others.filter (·.name == input.name) = [] ∧
      add schema {} parent input previous others = .ok (others ++ [⟨"first", .int 3⟩]) ∧
      remove "first" (others ++ [⟨"first", .int 3⟩]) = (others, some ⟨"first", .int 3⟩) := by
  intro schema parent input previous others slots
  have named : ∀ slot ∈ previous, slot.name = input.name := by
    intro slot before
    cases Option.some.inj before
    rfl
  have only : slots.filter (·.name == input.name) = [⟨"first", .int 5⟩] := by decide
  have none : others.filter (·.name == input.name) = [] := by decide
  have added : add schema {} parent input previous others = .ok (others ++ [⟨"first", .int 3⟩]) := by
    rfl
  have moved := ((own_slot_edits schema {} parent named slots).1 _ only).2
  rcases (own_slot_edits schema {} parent named others).2.1 none _ added with ⟨slot, -, last, taken⟩
  have same : slot = ⟨"first", .int 3⟩ := (List.singleton_inj.mp (List.append_cancel_left last)).symm
  rw [same] at taken
  exact ⟨named, only, moved, none, added, taken⟩

end Add

end QueryEditor.Slots
