import QueryEditor.Defaults

namespace QueryEditor

namespace Defaults

variable {schema : Schema} {policy : Policy} {parent : Field} {expanding after : List String}

theorem slotOver_cases {fields : InputObjectType → Filling (List Slot)} {input : InputTarget}
    {filled : Option Slot}
    (done : slotOver schema policy parent fields input expanding = some (filled, after)) :
    (∃ type inner, schema.innermost? input.type = some (.input type) ∧
        fields type expanding = some (inner, after) ∧
        filled = some ⟨input.name, .object inner⟩) ∨
      after = expanding ∧ ∀ slot ∈ filled, ∃ type, schema.innermost? input.type = some type ∧
        type.isLeaf = true ∧ slot = ⟨input.name, policy.scalarValue parent input type⟩ := by
  generalize whole : slotOver schema policy parent fields input = filling at done
  unfold slotOver at whole
  split at whole <;> subst whole
  · cases done
    exact Or.inr ⟨rfl, nofun⟩
  case h_2 type there =>
    obtain ⟨inner, next, done, same⟩ := bind_eq_some.mp done
    cases same
    exact Or.inl ⟨type, inner, there, done, rfl⟩
  case h_3 type _ there =>
    cases done
    refine Or.inr ⟨rfl, fun slot filled => ?_⟩
    split at filled
    case isTrue leaf =>
      cases filled
      exact ⟨type, there, leaf, rfl⟩
    · cases filled

theorem slotOver_name {fields : InputObjectType → Filling (List Slot)} {input : InputTarget}
    {slot : Slot}
    (done : slotOver schema policy parent fields input expanding = some (some slot, after)) :
    slot.name = input.name := by
  rcases slotOver_cases done with ⟨type, inner, -, -, same⟩ | ⟨-, leaf⟩
  · cases same
    rfl
  · obtain ⟨type, -, -, same⟩ := leaf slot rfl
    rw [same]

theorem fieldsOver_cases {slot : InputTarget → Filling (Option Slot)} {type : InputObjectType}
    {fields : List Slot}
    (done : fieldsOver policy parent slot type expanding = some (fields, after)) :
    type.name ∈ expanding ∧ fields = [] ∧ after = expanding ∨
      type.name ∉ expanding ∧ ∃ full, after = full.tail ∧
        slotsOver policy parent slot type.inputs
          (type.name :: expanding) = some (fields, full) := by
  obtain ⟨current, next, read, done⟩ := bind_eq_some.mp done
  cases read
  split at done
  case isTrue inside =>
    cases done
    exact Or.inl ⟨List.contains_iff_mem.mp inside, rfl, rfl⟩
  case isFalse outside =>
    obtain ⟨_, pushed, push, done⟩ := bind_eq_some.mp done
    cases push
    obtain ⟨filled, full, filling, done⟩ := bind_eq_some.mp done
    obtain ⟨_, popped, pop, done⟩ := bind_eq_some.mp done
    cases pop
    cases done
    exact Or.inr ⟨mt List.contains_iff_mem.mpr outside, full, rfl, filling⟩

/-- Where each slot leaves what is being filled in as it was, so do several, and each comes from one
input value. -/
theorem filterMapM_cases {α β : Type} {slot : β → Filling (Option α)}
    (restores : ∀ input filled after, slot input expanding = some (filled, after) → after = expanding)
    {inputs : List β} {slots : List α}
    (done : inputs.filterMapM slot expanding = some (slots, after)) :
    after = expanding ∧
      ∀ filled ∈ slots, ∃ input ∈ inputs, slot input expanding = some (some filled, expanding) := by
  induction inputs generalizing slots with
  | nil =>
    cases done
    exact ⟨rfl, nofun⟩
  | cons input rest ih =>
    rw [List.filterMapM_cons] at done
    obtain ⟨first, next, here, done⟩ := bind_eq_some.mp done
    obtain rfl := restores _ _ _ here
    cases first with
    | none =>
      obtain ⟨same, each⟩ := ih done
      refine ⟨same, fun filled member => ?_⟩
      obtain ⟨other, listed, from'⟩ := each filled member
      exact ⟨other, List.mem_cons_of_mem _ listed, from'⟩
    | some filled =>
      obtain ⟨others, last, beyond, done⟩ := bind_eq_some.mp done
      cases done
      obtain ⟨same, each⟩ := ih beyond
      refine ⟨same, fun other member => ?_⟩
      rcases List.mem_cons.mp member with rfl | member
      · exact ⟨input, List.mem_cons_self, here⟩
      · obtain ⟨another, listed, from'⟩ := each other member
        exact ⟨another, List.mem_cons_of_mem _ listed, from'⟩

theorem slotWithin_restores (depth : Nat) {expanding : List String} (input : InputTarget)
    (filled : Option Slot) (after : List String)
    (done : slotWithin schema policy parent depth input expanding = some (filled, after)) :
    after = expanding := by
  induction depth generalizing expanding input filled after with
  | zero =>
    rcases slotOver_cases done with ⟨type, inner, -, none, -⟩ | ⟨same, -⟩
    · cases none
    · exact same
  | succ depth ih =>
    rcases slotOver_cases done with ⟨type, inner, -, fields, -⟩ | ⟨same, -⟩
    · rcases fieldsOver_cases fields with ⟨-, -, same⟩ | ⟨-, full, rfl, filled⟩
      · exact same
      · rw [(filterMapM_cases ih filled).1, List.tail_cons]
    · exact same

theorem slotsOver_cases {depth : Nat} {inputs : List InputTarget} {slots : List Slot}
    (done : slotsOver policy parent (slotWithin schema policy parent depth) inputs expanding =
      some (slots, after)) :
    after = expanding ∧ ∀ filled ∈ slots, ∃ input ∈ inputs,
      slotWithin schema policy parent depth input expanding = some (some filled, expanding) := by
  obtain ⟨same, each⟩ := filterMapM_cases (slotWithin_restores depth) done
  refine ⟨same, fun filled member => ?_⟩
  obtain ⟨input, listed, done⟩ := each filled member
  exact ⟨input, (List.mem_filter.mp listed).1, done⟩

theorem slotWithin_name {depth : Nat} {input : InputTarget} {slot : Slot}
    (done : slotWithin schema policy parent depth input expanding = some (some slot, after)) :
    slot.name = input.name := by
  cases depth with
  | zero => exact slotOver_name done
  | succ depth => exact slotOver_name done

section Runs

variable (schema : Schema) (policy : Policy) (parent : Field)

theorem slot_run (input : InputTarget) :
    slotWithin schema policy parent (maxDepth schema) input [] =
      some (slot schema policy parent input, []) :=
  result_settled (slotWithin_maxDepth schema policy parent [] input) _ (Nat.le_refl _)

theorem inputFields_run (type : InputObjectType) :
    fieldsOver policy parent (slotWithin schema policy parent (maxDepth schema)) type [] =
      some (inputFields schema policy parent type, []) :=
  result_settled (fieldsOver_maxDepth schema policy parent [] type) _ (Nat.le_refl _)

theorem arguments_run (field : Field) :
    slotsOver policy field (slotWithin schema policy field (maxDepth schema)) field.inputs
      [] = some (arguments schema policy field, []) :=
  result_settled (slotsOver_maxDepth schema policy field [] field.inputs) _ (Nat.le_refl _)

end Runs

theorem slot_name {input : InputTarget} {filled : Slot}
    (done : slot schema policy parent input = some filled) : filled.name = input.name := by
  have run := slot_run schema policy parent input
  rw [done] at run
  exact slotWithin_name run

end Defaults

end QueryEditor
