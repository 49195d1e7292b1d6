import QueryEditor.Proofs.Edit.Selections
import QueryEditor.Edit.Addressed

namespace QueryEditor

variable {old new : Value}

namespace Slots

/-- Through the first slot of each name, names lead to `old` before and to `new` after. All else is
the same. -/
inductive Exchange (old new : Value) : (names : List String) → (before after : List Slot) → Prop where
  | here {name : String} {rest : List Slot} :
      Exchange old new [name] (⟨name, old⟩ :: rest) (⟨name, new⟩ :: rest)
  | within {name next : String} {inner : List String} {fields fields' rest : List Slot}
      (inside : Exchange old new (next :: inner) fields fields') :
      Exchange old new (name :: next :: inner) (⟨name, .object fields⟩ :: rest)
        (⟨name, .object fields'⟩ :: rest)
  | behind {name : String} {inner : List String} {slot : Slot} {rest rest' : List Slot}
      (other : slot.name ≠ name) (further : Exchange old new (name :: inner) rest rest') :
      Exchange old new (name :: inner) (slot :: rest) (slot :: rest')

def write (new : Value) (argument : String) (inner : List String) (slots : List Slot) :
    Edited (List Slot × Unit) :=
  updateWithin (fun slots => do return (← replace (inner.getLastD argument) new slots, ()))
    (argument :: inner).dropLast slots

variable {argument next : String} {inner : List String} {before after : List Slot}

theorem write_nil (new : Value) (argument : String) (slots : List Slot) :
    write new argument [] slots = (do return (← replace argument new slots, ())) := rfl

theorem write_cons (new : Value) (argument next : String) (inner : List String) (slots : List Slot) :
    write new argument (next :: inner) slots =
      updateWithin.inFirst argument (write new next inner) slots := by
  rw [write, List.dropLast_cons_cons, updateWithin, List.getLastD_cons]
  rfl

theorem write_cons_ne {slot : Slot} (other : slot.name ≠ argument) (rest : List Slot)
    (inner : List String) (new : Value) :
    write new argument inner (slot :: rest) =
      (write new argument inner rest).map fun result => (slot :: result.1, result.2) := by
  cases inner with
  | nil =>
    simp only [write_nil, replace, update, if_neg other]
    cases update argument (fun _ => .ok new) rest <;> rfl
  | cons next inner =>
    rw [write_cons, write_cons, updateWithin.inFirst, if_neg other]
    cases updateWithin.inFirst argument (write new next inner) rest <;> rfl

theorem write_self (slot : Slot) (rest : List Slot) (new : Value) :
    write new slot.name [] (slot :: rest) = .ok (⟨slot.name, new⟩ :: rest, ()) := by
  rw [write_nil, replace, update, if_pos rfl]
  rfl

theorem write_object (name next : String) (inner : List String) (fields rest : List Slot)
    (new : Value) :
    write new name (next :: inner) (⟨name, .object fields⟩ :: rest) =
      (write new next inner fields).map fun result =>
        (⟨name, .object result.1⟩ :: rest, result.2) := by
  rw [write_cons, updateWithin.inFirst, if_pos rfl]
  dsimp only
  cases write new next inner fields <;> rfl

theorem write_object_of_ok {slot : Slot} {rest : List Slot} {result : List Slot × Unit}
    (done : write new slot.name (next :: inner) (slot :: rest) = .ok result) :
    ∃ fields, slot.value = .object fields := by
  rw [write_cons, updateWithin.inFirst, if_pos rfl] at done
  split at done
  case h_1 fields value => exact ⟨fields, value⟩
  · cases done

theorem valueAt_cons_ne {slot : Slot} (other : slot.name ≠ argument) (rest : List Slot)
    (inner : List String) :
    valueAt (slot :: rest) argument inner = valueAt rest argument inner := by
  have skipped : Named.find? (slot :: rest) argument = Named.find? rest argument := by
    simp [Named.find?, other]
  cases inner <;> simp only [valueAt, skipped]

theorem valueAt_cons_self (slot : Slot) (rest rest' : List Slot) (inner : List String) :
    valueAt (slot :: rest) slot.name inner = valueAt (slot :: rest') slot.name inner := by
  cases inner <;> simp [valueAt, Named.find?]

theorem valueAt_object (name next : String) (inner : List String) (fields rest : List Slot) :
    valueAt (⟨name, .object fields⟩ :: rest) name (next :: inner) = valueAt fields next inner := by
  simp [valueAt, Named.find?]

namespace Exchange

variable {names : List String}

theorem symm (exchange : Exchange old new names before after) :
    Exchange new old names after before := by
  induction exchange with
  | here => exact .here
  | within _ ih => exact .within ih
  | behind other _ ih => exact .behind other ih

theorem eq_of_same (exchange : Exchange old old names before after) : after = before := by
  induction exchange with
  | here => rfl
  | within _ ih => rw [ih]
  | behind _ _ ih => rw [ih]

theorem valueAt (exchange : Exchange old new (argument :: inner) before after) :
    Slots.valueAt before argument inner = .ok old := by
  generalize names : argument :: inner = chain at exchange
  induction exchange generalizing argument inner with
  | here =>
    cases names
    simp [Slots.valueAt, Named.find?]
  | within _ ih =>
    cases names
    rw [valueAt_object]
    exact ih rfl
  | behind other _ ih =>
    cases names
    rw [valueAt_cons_ne other]
    exact ih rfl

/-- What other names lead to stays, unless the way to it is part of the way to the value, or the other
way round. -/
theorem valueAt_apart (exchange : Exchange old new names before after)
    (shorter : ¬ names <+: argument :: inner) (longer : ¬ argument :: inner <+: names) :
    Slots.valueAt after argument inner = Slots.valueAt before argument inner := by
  induction exchange generalizing argument inner with
  | @here name rest =>
    have other : name ≠ argument := by
      rintro rfl
      exact shorter ⟨inner, rfl⟩
    rw [valueAt_cons_ne other, valueAt_cons_ne other]
  | @within name next more fields fields' rest _ ih =>
    by_cases same : name = argument
    · subst same
      cases inner with
      | nil => exact absurd ⟨next :: more, rfl⟩ longer
      | cons first others =>
        rw [valueAt_object, valueAt_object]
        rw [List.cons_prefix_cons] at shorter longer
        exact ih (fun lead => shorter ⟨rfl, lead⟩) (fun lead => longer ⟨rfl, lead⟩)
    · rw [valueAt_cons_ne same, valueAt_cons_ne same]
  | @behind name more slot rest rest' _ _ ih =>
    by_cases same : slot.name = argument
    · subst same
      exact valueAt_cons_self slot rest' rest inner
    · rw [valueAt_cons_ne same, valueAt_cons_ne same]
      exact ih shorter longer

theorem write (exchange : Exchange old new (argument :: inner) before after) :
    Slots.write new argument inner before = .ok (after, ()) := by
  generalize names : argument :: inner = chain at exchange
  induction exchange generalizing argument inner with
  | here =>
    cases names
    exact write_self ⟨_, old⟩ _ new
  | within _ ih =>
    cases names
    rw [write_object, ih rfl]
    rfl
  | behind other _ ih =>
    cases names
    rw [write_cons_ne other, ih rfl]
    rfl

end Exchange

theorem exists_exchange_of_valueAt (found : valueAt before argument inner = .ok old) (new : Value) :
    ∃ after, Exchange old new (argument :: inner) before after := by
  -- The outer induction goes down the names, the inner one along the slots in front of each.
  induction inner generalizing before argument with
  | nil =>
    induction before with
    | nil => cases found
    | cons slot rest ih =>
      by_cases same : slot.name = argument
      · subst same
        simp only [valueAt, Named.find?, List.find?_cons, BEq.rfl, Option.map_some] at found
        cases found
        exact ⟨_, .here⟩
      · rw [valueAt_cons_ne same] at found
        obtain ⟨after, exchange⟩ := ih found
        exact ⟨slot :: after, .behind same exchange⟩
  | cons next inner deeper =>
    induction before with
    | nil => cases found
    | cons slot rest ih =>
      by_cases same : slot.name = argument
      · subst same
        obtain ⟨name, value⟩ := slot
        cases value with
        | object fields =>
          rw [valueAt_object] at found
          obtain ⟨fields', exchange⟩ := deeper found
          exact ⟨_, .within exchange⟩
        | _ => simp [valueAt, Named.find?] at found
      · rw [valueAt_cons_ne same] at found
        obtain ⟨after, exchange⟩ := ih found
        exact ⟨slot :: after, .behind same exchange⟩

theorem exists_exchange_of_write {result : List Slot × Unit}
    (done : write new argument inner before = .ok result) :
    ∃ old, Exchange old new (argument :: inner) before result.1 := by
  induction inner generalizing before argument result with
  | nil =>
    induction before generalizing result with
    | nil => cases done
    | cons slot rest ih =>
      by_cases same : slot.name = argument
      · subst same
        rw [write_self] at done
        cases done
        exact ⟨slot.value, .here⟩
      · rw [write_cons_ne same, Edited.map_eq_ok] at done
        obtain ⟨further, done, rfl⟩ := done
        obtain ⟨old, exchange⟩ := ih done
        exact ⟨old, .behind same exchange⟩
  | cons next inner deeper =>
    induction before generalizing result with
    | nil => cases done
    | cons slot rest ih =>
      by_cases same : slot.name = argument
      · subst same
        obtain ⟨fields, value⟩ := write_object_of_ok done
        obtain ⟨name, _⟩ := slot
        cases value
        rw [write_object, Edited.map_eq_ok] at done
        obtain ⟨inside, done, rfl⟩ := done
        obtain ⟨old, exchange⟩ := deeper done
        exact ⟨old, .within exchange⟩
      · rw [write_cons_ne same, Edited.map_eq_ok] at done
        obtain ⟨further, done, rfl⟩ := done
        obtain ⟨old, exchange⟩ := ih done
        exact ⟨old, .behind same exchange⟩

end Slots

namespace Selections

/-- Through the first field of each name, names lead to a field in whose arguments further names lead
to `old` before and to `new` after. All else is the same. -/
inductive Exchange (old new : Value) (names : List String) :
    (segments : List String) → (before after : List Selection) → Prop where
  | argument {node : FieldSelection} {arguments : List Slot} {rest : List Selection}
      (inside : Slots.Exchange old new names node.arguments arguments) :
      Exchange old new names [node.name] (.field node :: rest) (.field { node with arguments } :: rest)
  | beneath {node : FieldSelection} {next : String} {inner : List String} {children rest : List Selection}
      (inside : Exchange old new names (next :: inner) node.children children) :
      Exchange old new names (node.name :: next :: inner) (.field node :: rest)
        (.field { node with children } :: rest)
  | behind {name : String} {inner : List String} {selection : Selection} {rest rest' : List Selection}
      (other : selection.isFieldNamed name = false)
      (further : Exchange old new names (name :: inner) rest rest') :
      Exchange old new names (name :: inner) (selection :: rest) (selection :: rest')

section Fields

variable {α : Type} {name : String} {selection : Selection}

theorem field?_self (node : FieldSelection) (rest : List Selection) :
    field? node.name (.field node :: rest) = some node := by
  rw [field?, if_pos rfl]

theorem field?_cons_ne (other : selection.isFieldNamed name = false) (rest : List Selection) :
    field? name (selection :: rest) = field? name rest := by
  cases selection with
  | field node => rw [field?, if_neg (by simpa [Selection.isFieldNamed] using other)]
  | _ => rfl

theorem fieldAt?_self (node : FieldSelection) (rest : List Selection) (next : String)
    (inner : List String) :
    fieldAt? (.field node :: rest) (node.name :: next :: inner) =
      fieldAt? node.children (next :: inner) := by
  rw [fieldAt?, field?_self]
  · rfl
  · simp

theorem fieldAt?_cons_ne (other : selection.isFieldNamed name = false) (rest : List Selection)
    (inner : List String) :
    fieldAt? (selection :: rest) (name :: inner) = fieldAt? rest (name :: inner) := by
  cases inner <;> simp only [fieldAt?, field?_cons_ne other]

variable {missing : EditError} {update : FieldSelection → Edited (FieldSelection × α)}

theorem updateField_self (node : FieldSelection) (rest : List Selection) :
    updateField missing node.name update (.field node :: rest) =
      (update node).map fun result => (.field result.1 :: rest, result.2) := by
  rw [updateField, if_pos rfl]
  cases update node <;> rfl

theorem updateField_cons_ne (other : selection.isFieldNamed name = false) (rest : List Selection) :
    updateField missing name update (selection :: rest) =
      (updateField missing name update rest).map fun result => (selection :: result.1, result.2) := by
  cases selection with
  | field node =>
    rw [updateField, if_neg (by simpa [Selection.isFieldNamed] using other)]
    cases updateField missing name update rest <;> rfl
  | _ =>
    rw [updateField]
    · cases updateField missing name update rest <;> rfl
    · simp

end Fields

def write (outer missing : EditError) (new : Value) (argument : String) (inner : List String)
    (segments : List String) (selections : List Selection) : Edited (List Selection × Unit) :=
  updateAt outer (updateField missing (segments.getLastD "") fun node => do
    let (arguments, found) ← Slots.write new argument inner node.arguments
    return ({ node with arguments }, found)) segments.dropLast selections

section Writing

variable {outer missing : EditError} {argument next : String} {inner : List String}

theorem write_single (name : String) (selections : List Selection) :
    write outer missing new argument inner [name] selections =
      updateField missing name (fun node => do
        let (arguments, found) ← Slots.write new argument inner node.arguments
        return ({ node with arguments }, found)) selections := rfl

theorem write_cons (name next : String) (more : List String) (selections : List Selection) :
    write outer missing new argument inner (name :: next :: more) selections =
      updateField outer name (fun node => do
        let (children, found) ← write outer missing new argument inner (next :: more) node.children
        return ({ node with children }, found)) selections := by
  rw [write, List.dropLast_cons_cons, updateAt, List.getLastD_cons]
  rfl

theorem write_cons_ne {name : String} {selection : Selection}
    (other : selection.isFieldNamed name = false) (more : List String) (rest : List Selection) :
    write outer missing new argument inner (name :: more) (selection :: rest) =
      (write outer missing new argument inner (name :: more) rest).map fun result =>
        (selection :: result.1, result.2) := by
  cases more with
  | nil => rw [write_single, write_single, updateField_cons_ne other]
  | cons next more => rw [write_cons, write_cons, updateField_cons_ne other]

theorem write_argument (node : FieldSelection) (rest : List Selection) :
    write outer missing new argument inner [node.name] (.field node :: rest) =
      (Slots.write new argument inner node.arguments).map fun result =>
        (.field { node with arguments := result.1 } :: rest, result.2) := by
  rw [write_single, updateField_self]
  cases Slots.write new argument inner node.arguments <;> rfl

theorem write_beneath (node : FieldSelection) (rest : List Selection) (more : List String) :
    write outer missing new argument inner (node.name :: next :: more) (.field node :: rest) =
      (write outer missing new argument inner (next :: more) node.children).map fun result =>
        (.field { node with children := result.1 } :: rest, result.2) := by
  rw [write_cons, updateField_self]
  cases write outer missing new argument inner (next :: more) node.children <;> rfl

end Writing

def valueAt? (selections : List Selection) (segments : List String) (argument : String)
    (inner : List String) : Option (Edited Value) :=
  (fieldAt? selections segments).map fun node => Slots.valueAt node.arguments argument inner

section Reading

variable {argument next : String} {inner : List String}

theorem valueAt?_cons_ne {name : String} {selection : Selection}
    (other : selection.isFieldNamed name = false) (rest : List Selection) (more : List String) :
    valueAt? (selection :: rest) (name :: more) argument inner =
      valueAt? rest (name :: more) argument inner := by
  rw [valueAt?, valueAt?, fieldAt?_cons_ne other]

theorem valueAt?_argument (node : FieldSelection) (rest : List Selection) :
    valueAt? (.field node :: rest) [node.name] argument inner =
      some (Slots.valueAt node.arguments argument inner) := by
  rw [valueAt?, fieldAt?, field?_self]
  rfl

theorem valueAt?_beneath (node : FieldSelection) (rest : List Selection) (more : List String) :
    valueAt? (.field node :: rest) (node.name :: next :: more) argument inner =
      valueAt? node.children (next :: more) argument inner := by
  rw [valueAt?, valueAt?, fieldAt?_self]

theorem valueAt?_self (node : FieldSelection) (rest rest' : List Selection) (more : List String) :
    valueAt? (.field node :: rest) (node.name :: more) argument inner =
      valueAt? (.field node :: rest') (node.name :: more) argument inner := by
  cases more with
  | nil => rw [valueAt?_argument, valueAt?_argument]
  | cons next more => rw [valueAt?_beneath, valueAt?_beneath]

end Reading

theorem isFieldNamed_cases (name : String) (selection : Selection) :
    selection.isFieldNamed name = false ∨
      ∃ node : FieldSelection, selection = .field node ∧ node.name = name := by
  cases selection with
  | field node =>
    by_cases same : node.name = name
    · exact Or.inr ⟨node, rfl, same⟩
    · exact Or.inl (by simp [Selection.isFieldNamed, same])
  | _ => exact Or.inl rfl

namespace Exchange

variable {names segments : List String} {before after : List Selection} {argument : String}
  {inner : List String}

theorem symm (exchange : Exchange old new names segments before after) :
    Exchange new old names segments after before := by
  induction exchange with
  | @argument node arguments rest inside =>
    exact @argument new old names { node with arguments } node.arguments rest inside.symm
  | @beneath node next inner children rest _ ih =>
    exact @beneath new old names { node with children } next inner node.children rest ih
  | behind other _ ih => exact .behind other ih

theorem eq_of_same (exchange : Exchange old old names segments before after) : after = before := by
  induction exchange with
  | argument inside => rw [inside.eq_of_same]
  | beneath _ ih => rw [ih]
  | behind _ _ ih => rw [ih]

theorem valueAt? (exchange : Exchange old new (argument :: inner) segments before after) :
    Selections.valueAt? before segments argument inner = some (.ok old) := by
  induction exchange with
  | argument inside => rw [valueAt?_argument, inside.valueAt]
  | beneath _ ih => rw [valueAt?_beneath, ih]
  | behind other _ ih => rw [valueAt?_cons_ne other, ih]

theorem valueAt?_apart (exchange : Exchange old new names segments before after)
    {segments' : List String}
    (apart : segments' ≠ segments ∨ ¬ names <+: argument :: inner ∧ ¬ argument :: inner <+: names) :
    Selections.valueAt? after segments' argument inner =
      Selections.valueAt? before segments' argument inner := by
  induction exchange generalizing segments' with
  | @argument node arguments rest inside =>
    cases segments' with
    | nil => rfl
    | cons name more =>
      rcases isFieldNamed_cases name (.field node) with other | ⟨_, same, rfl⟩
      · have other' : (Selection.field { node with arguments }).isFieldNamed name = false := other
        rw [valueAt?_cons_ne other, valueAt?_cons_ne other']
      · cases same
        cases more with
        | nil =>
          obtain ⟨shorter, longer⟩ := apart.resolve_left fun differs => differs rfl
          rw [valueAt?_argument, valueAt?_argument, inside.valueAt_apart shorter longer]
        | cons next more => rw [valueAt?_beneath, valueAt?_beneath]
  | @beneath node next inner children rest _ ih =>
    cases segments' with
    | nil => rfl
    | cons name more =>
      rcases isFieldNamed_cases name (.field node) with other | ⟨_, same, rfl⟩
      · have other' : (Selection.field { node with children }).isFieldNamed name = false := other
        rw [valueAt?_cons_ne other, valueAt?_cons_ne other']
      · cases same
        cases more with
        | nil => rw [valueAt?_argument, valueAt?_argument]
        | cons first more =>
          rw [valueAt?_beneath, valueAt?_beneath]
          exact ih (apart.imp_left fun differs same => differs (congrArg (node.name :: ·) same))
  | @behind name inner selection rest rest' _ _ ih =>
    cases segments' with
    | nil => rfl
    | cons first more =>
      rcases isFieldNamed_cases first selection with other | ⟨node, rfl, rfl⟩
      · rw [valueAt?_cons_ne other, valueAt?_cons_ne other]
        exact ih apart
      · exact valueAt?_self node rest' rest more

theorem write (exchange : Exchange old new (argument :: inner) segments before after)
    (outer missing : EditError) :
    Selections.write outer missing new argument inner segments before = .ok (after, ()) := by
  induction exchange with
  | argument inside =>
    rw [write_argument, inside.write]
    rfl
  | beneath _ ih =>
    rw [write_beneath, ih]
    rfl
  | behind other _ ih =>
    rw [write_cons_ne other, ih]
    rfl

end Exchange

variable {segments : List String} {before : List Selection} {argument : String} {inner : List String}

theorem exists_exchange_of_valueAt?
    (found : valueAt? before segments argument inner = some (.ok old)) (new : Value) :
    ∃ after, Exchange old new (argument :: inner) segments before after := by
  -- As for slots: down the segments, and along the selections in front of each field.
  induction segments generalizing before with
  | nil => cases found
  | cons name more deeper =>
    induction before with
    | nil => cases more <;> cases found
    | cons selection rest ih =>
      rcases isFieldNamed_cases name selection with other | ⟨node, rfl, rfl⟩
      · rw [valueAt?_cons_ne other] at found
        obtain ⟨after, exchange⟩ := ih found
        exact ⟨selection :: after, .behind other exchange⟩
      · cases more with
        | nil =>
          rw [valueAt?_argument] at found
          obtain ⟨arguments, exchange⟩ :=
            Slots.exists_exchange_of_valueAt (Option.some.inj found) new
          exact ⟨_, .argument exchange⟩
        | cons next more =>
          rw [valueAt?_beneath] at found
          obtain ⟨children, exchange⟩ := deeper found
          exact ⟨_, .beneath exchange⟩

theorem exchange_of_valueAt?
    (found : valueAt? before segments argument inner = some (.ok old)) :
    Exchange old old (argument :: inner) segments before before := by
  obtain ⟨after, exchange⟩ := exists_exchange_of_valueAt? found old
  cases exchange.eq_of_same
  exact exchange

theorem exists_exchange_of_write {outer missing : EditError} {result : List Selection × Unit}
    (nonempty : segments ≠ [])
    (done : write outer missing new argument inner segments before = .ok result) :
    ∃ old, Exchange old new (argument :: inner) segments before result.1 := by
  induction segments generalizing before result with
  | nil => exact absurd rfl nonempty
  | cons name more deeper =>
    induction before generalizing result with
    | nil => cases more <;> cases done
    | cons selection rest ih =>
      rcases isFieldNamed_cases name selection with other | ⟨node, rfl, rfl⟩
      · rw [write_cons_ne other, Edited.map_eq_ok] at done
        obtain ⟨further, done, rfl⟩ := done
        obtain ⟨old, exchange⟩ := ih done
        exact ⟨old, .behind other exchange⟩
      · cases more with
        | nil =>
          rw [write_argument, Edited.map_eq_ok] at done
          obtain ⟨arguments, done, rfl⟩ := done
          obtain ⟨old, exchange⟩ := Slots.exists_exchange_of_write done
          exact ⟨old, .argument exchange⟩
        | cons next more =>
          rw [write_beneath, Edited.map_eq_ok] at done
          obtain ⟨children, done, rfl⟩ := done
          obtain ⟨old, exchange⟩ := deeper (List.cons_ne_nil next more) done
          exact ⟨old, .beneath exchange⟩

end Selections

end QueryEditor
