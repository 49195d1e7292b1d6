import QueryEditor.Proofs.Edit.ReadWrite
import QueryEditor.Proofs.Edit.Resolution

namespace QueryEditor

variable {α β γ : Type}

theorem Edited.elim_eq_ok {found : Option α} {missing : EditError} {edit : α → Edited β}
    {f : α → β → γ} {c : γ} : (found.elim (.error missing) fun a => (edit a).map (f a)) = .ok c ↔
      ∃ a b, found = some a ∧ edit a = .ok b ∧ f a b = c := by
  cases found with
  | none => exact ⟨nofun, nofun⟩
  | some a =>
    rw [Option.elim_some, map_eq_ok]
    constructor
    · rintro ⟨b, edited, same⟩
      exact ⟨a, b, rfl, edited, same⟩
    · rintro ⟨_, b, there, edited, same⟩
      cases there
      exact ⟨b, edited, same⟩

theorem Edited.bind_unit_eq_ok {edited : Edited α} {a : α} {u : Unit} :
    (edited >>= fun result => pure (result, ())) = (.ok (a, u) : Edited (α × Unit)) ↔
      edited = .ok a := by
  cases edited with
  | error cause => exact ⟨nofun, nofun⟩
  | ok result =>
    show Except.ok (result, ()) = Except.ok (a, ()) ↔ _
    simp

theorem FieldPath.split?_child (parent : FieldPath) (name : String) :
    (parent.child name).split? = some (parent, name) := by
  simp [split?, last?, child]

theorem FieldPath.split?_of_ne_nil {path : FieldPath} (below : path.segments ≠ []) :
    ∃ parent name, path.split? = some (parent, name) := by
  rcases List.getLast?_isSome.mpr below |> Option.isSome_iff_exists.mp with ⟨name, last⟩
  exact ⟨⟨path.segments.dropLast⟩, name, Option.map_eq_some_iff.mpr ⟨name, last, rfl⟩⟩

namespace Slots

def within? : (names : List String) → List Slot → Option (List Slot)
  | [], slots => some slots
  | name :: inner, slots =>
    match Named.find? slots name with
    | some (.object fields) => within? inner fields
    | _ => none

def put (name : String) (value : Value) : List Slot → List Slot
  | [] => []
  | slot :: rest => if slot.name = name then ⟨name, value⟩ :: rest else slot :: put name value rest

def putWithin (new : List Slot) : (names : List String) → List Slot → List Slot
  | [], _ => new
  | name :: inner, slots =>
    match Named.find? slots name with
    | some (.object fields) => put name (.object (putWithin new inner fields)) slots
    | _ => slots

theorem find?_put {slots : List Slot} {name : String} {old : Value}
    (there : Named.find? slots name = some old) (value : Value) :
    Named.find? (put name value slots) name = some value := by
  induction slots with
  | nil => cases there
  | cons slot rest ih =>
    by_cases same : slot.name = name
    · simp [put, same, Named.find?]
    · have further : Named.find? rest name = some old := by
        simpa [Named.find?, same] using there
      simpa [put, same, Named.find?] using ih further

theorem within?_putWithin {names : List String} {slots inside : List Slot}
    (there : within? names slots = some inside) (new : List Slot) :
    within? names (putWithin new names slots) = some new := by
  induction names generalizing slots with
  | nil => rfl
  | cons name inner ih =>
    rw [within?] at there
    split at there
    case h_1 fields found =>
      rw [putWithin, found]
      show within? (name :: inner) (put name _ slots) = _
      rw [within?, find?_put found]
      exact ih there
    case h_2 => cases there

theorem inFirst_ok {name : String} {edit : List Slot → Edited (List Slot × α)}
    {slots result : List Slot} {a : α} :
    updateWithin.inFirst name edit slots = .ok (result, a) ↔ ∃ fields new,
      Named.find? slots name = some (.object fields) ∧ edit fields = .ok (new, a) ∧
        result = put name (.object new) slots := by
  induction slots generalizing result with
  | nil => exact ⟨nofun, nofun⟩
  | cons slot rest ih =>
    rw [updateWithin.inFirst]
    by_cases same : slot.name = name
    · have first : Named.find? (slot :: rest) name = some slot.value := by
        simp [Named.find?, same]
      rw [if_pos same, first]
      cases slot.value with
      | object fields =>
        simp only [Edited.bind_eq_ok, put, same]
        constructor
        · rintro ⟨⟨new, found⟩, edited, same⟩
          cases same
          exact ⟨fields, new, rfl, edited, rfl⟩
        · rintro ⟨_, new, same, edited, rfl⟩
          cases same
          exact ⟨(new, a), edited, rfl⟩
      | _ => simp
    · have further : Named.find? (slot :: rest) name = Named.find? rest name := by
        simp [Named.find?, same]
      rw [if_neg same, further, Edited.bind_eq_ok]
      constructor
      · rintro ⟨⟨others, found⟩, edited, same'⟩
        cases same'
        rcases ih.mp edited with ⟨fields, new, there, changed, rfl⟩
        exact ⟨fields, new, there, changed, by rw [put, if_neg same]⟩
      · rintro ⟨fields, new, there, edited, rfl⟩
        exact ⟨(_, a), ih.mpr ⟨fields, new, there, edited, rfl⟩, by rw [put, if_neg same]; rfl⟩

theorem updateWithin_ok {names : List String} {edit : List Slot → Edited (List Slot × α)}
    {slots result : List Slot} {a : α} :
    updateWithin edit names slots = .ok (result, a) ↔ ∃ inside new, within? names slots = some inside ∧
      edit inside = .ok (new, a) ∧ result = putWithin new names slots := by
  induction names generalizing slots result with
  | nil =>
    constructor
    · intro edited
      exact ⟨slots, result, rfl, edited, rfl⟩
    · rintro ⟨_, new, same, edited, rfl⟩
      cases same
      exact edited
  | cons name inner ih =>
    rw [updateWithin, inFirst_ok]
    constructor
    · rintro ⟨fields, fields', first, edited, rfl⟩
      rcases ih.mp edited with ⟨inside, new, there, changed, rfl⟩
      exact ⟨inside, new, by rw [within?, first]; exact there, changed, by rw [putWithin, first]⟩
    · rintro ⟨inside, new, there, edited, rfl⟩
      rw [within?] at there
      split at there
      case h_1 fields first =>
        exact ⟨fields, _, first, ih.mpr ⟨inside, new, there, edited, rfl⟩, by rw [putWithin, first]⟩
      case h_2 => cases there

end Slots

namespace Selections

theorem filter_not_eq_self {p : α → Bool} {items : List α} (none : items.filter p = []) :
    items.filter (!p ·) = items := by
  apply List.filter_eq_self.mpr
  intro a member
  simpa using List.filter_eq_nil_iff.mp none a member

def within? : (segments : List String) → List Selection → Option (List Selection)
  | [], selections => some selections
  | name :: inner, selections =>
    match field? name selections with
    | some node => within? inner node.children
    | none => none

def putField (name : String) (new : FieldSelection) : List Selection → List Selection
  | [] => []
  | selection :: rest =>
    if selection.isFieldNamed name then .field new :: rest else selection :: putField name new rest

def putWithin (new : List Selection) : (segments : List String) → List Selection → List Selection
  | [], _ => new
  | name :: inner, selections =>
    match field? name selections with
    | some node => putField name { node with children := putWithin new inner node.children } selections
    | none => selections

variable {name : String} {node : FieldSelection} {selections : List Selection}

theorem putField_self (node new : FieldSelection) (rest : List Selection) :
    putField node.name new (.field node :: rest) = .field new :: rest := by
  simp [putField, Selection.isFieldNamed]

theorem putField_cons_ne {selection : Selection} (other : selection.isFieldNamed name = false)
    (new : FieldSelection) (rest : List Selection) :
    putField name new (selection :: rest) = selection :: putField name new rest := by
  simp [putField, other]

theorem field?_name (found : field? name selections = some node) : node.name = name := by
  induction selections with
  | nil => cases found
  | cons selection rest ih =>
    rcases isFieldNamed_cases name selection with other | ⟨first, rfl, rfl⟩
    · rw [field?_cons_ne other] at found
      exact ih found
    · rw [field?_self] at found
      cases found
      rfl

theorem field?_putField {new : FieldSelection} (found : field? name selections = some node)
    (called : new.name = name) : field? name (putField name new selections) = some new := by
  induction selections with
  | nil => cases found
  | cons selection rest ih =>
    rcases isFieldNamed_cases name selection with other | ⟨first, rfl, rfl⟩
    · rw [field?_cons_ne other] at found
      rw [putField_cons_ne other, field?_cons_ne other]
      exact ih found
    · rw [putField_self, ← called]
      exact field?_self new rest

theorem updateField_eq (missing : EditError) (update : FieldSelection → Edited (FieldSelection × α))
    (name : String) (selections : List Selection) :
    updateField missing name update selections = (field? name selections).elim (.error missing)
      fun node => (update node).map fun result => (putField name result.1 selections, result.2) := by
  induction selections with
  | nil => rfl
  | cons selection rest ih =>
    rcases isFieldNamed_cases name selection with other | ⟨first, rfl, rfl⟩
    · rw [updateField_cons_ne other, field?_cons_ne other, ih]
      simp only [putField_cons_ne other]
      cases field? name rest with
      | none => rfl
      | some node => exact Functor.map_map _ _ (update node)
    · simp only [updateField_self, field?_self, putField_self, Option.elim_some]

theorem updateField_ok {missing : EditError} {update : FieldSelection → Edited (FieldSelection × α)}
    {result : List Selection} {a : α} :
    updateField missing name update selections = .ok (result, a) ↔ ∃ node new,
      field? name selections = some node ∧ update node = .ok (new, a) ∧
        result = putField name new selections := by
  rw [updateField_eq, Edited.elim_eq_ok]
  constructor
  · rintro ⟨node, ⟨new, found⟩, first, updated, same⟩
    cases same
    exact ⟨node, new, first, updated, rfl⟩
  · rintro ⟨node, new, first, updated, rfl⟩
    exact ⟨node, (new, a), first, updated, rfl⟩

theorem updateAt_eq (missing : EditError) (edit : List Selection → Edited (List Selection × α))
    (segments : List String) (selections : List Selection) :
    updateAt missing edit segments selections = (within? segments selections).elim (.error missing)
      fun inside => (edit inside).map fun result => (putWithin result.1 segments selections, result.2) := by
  induction segments generalizing selections with
  | nil => exact (id_map (edit selections)).symm
  | cons name inner ih =>
    rw [updateAt, updateField_eq, within?]
    cases first : field? name selections with
    | none => rfl
    | some node =>
      simp only [ih, putWithin, first, Option.elim_some]
      cases within? inner node.children with
      | none => rfl
      | some inside =>
        rw [Option.elim_some, Option.elim_some]
        cases edit inside <;> rfl

theorem within?_putWithin {segments : List String} {inside : List Selection}
    (there : within? segments selections = some inside) (new : List Selection) :
    within? segments (putWithin new segments selections) = some new := by
  induction segments generalizing selections with
  | nil => rfl
  | cons name inner ih =>
    rw [within?] at there
    split at there
    case h_1 node first =>
      have called : node.name = name := field?_name first
      have put : field? name (putField name
          { node with children := putWithin new inner node.children } selections) = some _ :=
        field?_putField first called
      rw [putWithin, first]
      dsimp only
      rw [within?, put]
      exact ih there
    case h_2 => cases there

theorem putField_found (found : field? name selections = some node) :
    putField name node selections = selections := by
  induction selections with
  | nil => cases found
  | cons selection rest ih =>
    rcases isFieldNamed_cases name selection with other | ⟨first, rfl, rfl⟩
    · rw [field?_cons_ne other] at found
      rw [putField_cons_ne other, ih found]
    · rw [field?_self] at found
      cases found
      exact putField_self node node rest

theorem putField_putField {new : FieldSelection} (called : new.name = name) (newer : FieldSelection)
    (selections : List Selection) :
    putField name newer (putField name new selections) = putField name newer selections := by
  induction selections with
  | nil => rfl
  | cons selection rest ih =>
    rcases isFieldNamed_cases name selection with other | ⟨first, rfl, rfl⟩
    · rw [putField_cons_ne other, putField_cons_ne other, putField_cons_ne other, ih]
    · rw [putField_self, putField_self, ← called, putField_self]

theorem isFieldNamed_putField {new : FieldSelection} (called : new.name = name) (other : String)
    (selections : List Selection) : (putField name new selections).map (·.isFieldNamed other) =
      selections.map (·.isFieldNamed other) := by
  induction selections with
  | nil => rfl
  | cons selection rest ih =>
    rcases isFieldNamed_cases name selection with different | ⟨first, rfl, rfl⟩
    · rw [putField_cons_ne different, List.map_cons, List.map_cons, ih]
    · rw [putField_self, List.map_cons, List.map_cons, Selection.isFieldNamed, Selection.isFieldNamed,
        called]

theorem putWithin_found {segments : List String} {inside : List Selection}
    (there : within? segments selections = some inside) :
    putWithin inside segments selections = selections := by
  induction segments generalizing selections with
  | nil => exact (Option.some.inj there).symm
  | cons name inner ih =>
    rw [within?] at there
    split at there
    case h_1 node first =>
      have same : { node with children := putWithin inside inner node.children } = node := by
        rw [ih there]
      rw [putWithin, first]
      dsimp only
      rw [same]
      exact putField_found first
    case h_2 => cases there

theorem putWithin_putWithin (new newer : List Selection) (segments : List String)
    (selections : List Selection) : putWithin newer segments (putWithin new segments selections) =
      putWithin newer segments selections := by
  induction segments generalizing selections with
  | nil => rfl
  | cons name inner ih =>
    cases first : field? name selections with
    | none => simp only [putWithin, first]
    | some node =>
      have called : node.name = name := field?_name first
      have put : field? name (putField name
          { node with children := putWithin new inner node.children } selections) = some _ :=
        field?_putField first called
      simp only [putWithin, first, put, ih]
      apply putField_putField
      exact called

theorem within?_concat {segments : List String} :
    within? (segments ++ [name]) selections = (within? segments selections).bind fun inside =>
      (field? name inside).map (·.children) := by
  induction segments generalizing selections with
  | nil =>
    show (match field? name selections with | some node => some node.children | none => none) =
      (field? name selections).map (·.children)
    cases field? name selections <;> rfl
  | cons first inner ih =>
    rw [List.cons_append, within?, within?]
    cases field? first selections with
    | none => rfl
    | some node => exact ih

/-- To put a list beneath a field is to put the field with that list among the fields beside it. -/
theorem putWithin_concat {segments : List String} {inside : List Selection}
    (there : within? segments selections = some inside) (found : field? name inside = some node)
    (new : List Selection) : putWithin new (segments ++ [name]) selections =
      putWithin (putField name { node with children := new } inside) segments selections := by
  induction segments generalizing selections with
  | nil =>
    cases there
    simp only [List.nil_append, putWithin, found]
  | cons first inner ih =>
    rw [within?] at there
    split at there
    case h_1 outer holds =>
      rw [List.cons_append, putWithin, putWithin, holds]
      dsimp only
      rw [ih there]
    case h_2 => cases there

section Normalizing

theorem normalize_filter (selections : List Selection) :
    normalize selections = if selections.filter (!·.isFieldNamed typenameField) = [] then
      [.leaf typenameField] else selections.filter (!·.isFieldNamed typenameField) := by
  unfold normalize
  split
  case h_1 empty => rw [if_pos empty]
  case h_2 some => rw [if_neg some]

theorem filter_other (node : FieldSelection) (different : node.name ≠ typenameField)
    (rest : List Selection) :
    (Selection.field node :: rest).filter (!·.isFieldNamed typenameField) =
      .field node :: rest.filter (!·.isFieldNamed typenameField) :=
  List.filter_cons_of_pos (by simpa [Selection.isFieldNamed] using different)

theorem filter_normalize {own : Selection → Bool}
    (apart : ∀ s, own s = true → s.isFieldNamed typenameField = false) (selections : List Selection) :
    (normalize selections).filter own = selections.filter own := by
  have kept : (selections.filter (!·.isFieldNamed typenameField)).filter own =
      selections.filter own := by
    rw [List.filter_filter]
    apply List.filter_congr
    intro s _
    cases called : own s with
    | false => rfl
    | true => rw [apart s called]; rfl
  rw [normalize_filter]
  split
  case isTrue empty =>
    have other : ¬ own (.leaf typenameField) = true := by
      intro called
      have free := apart _ called
      cases free
    rw [← kept, empty, List.filter_cons_of_neg other]
  case isFalse => exact kept

theorem field?_normalize (other : name ≠ typenameField) (selections : List Selection) :
    field? name (normalize selections) = field? name selections := by
  have filtered : field? name (selections.filter (!·.isFieldNamed typenameField)) =
      field? name selections := by
    induction selections with
    | nil => rfl
    | cons selection rest ih =>
      rcases isFieldNamed_cases name selection with different | ⟨first, rfl, rfl⟩
      · rw [field?_cons_ne different, ← ih, List.filter_cons]
        split
        · exact field?_cons_ne different _
        · rfl
      · have kept : (!(Selection.field first).isFieldNamed typenameField) = true := by
          simpa [Selection.isFieldNamed] using other
        rw [List.filter_cons, if_pos kept, field?_self, field?_self]
  rw [normalize_filter]
  split
  case isTrue empty =>
    rw [← filtered, empty]
    show field? name [.leaf typenameField] = none
    simp [field?, Selection.leaf, Ne.symm other]
  case isFalse => exact filtered

theorem within?_normalize {inner : List String} (other : name ≠ typenameField)
    (selections : List Selection) :
    within? (name :: inner) (normalize selections) = within? (name :: inner) selections := by
  rw [within?, within?, field?_normalize other]

/-- A `__typename` field at the root may be changed at will, and is gone afterwards. -/
theorem normalize_putField {new : FieldSelection} (called : new.name = typenameField)
    (selections : List Selection) :
    normalize (putField typenameField new selections) = normalize selections := by
  have dropped : (!(Selection.field new).isFieldNamed typenameField) = false := by
    simp [Selection.isFieldNamed, called]
  have same : (putField typenameField new selections).filter (!·.isFieldNamed typenameField) =
      selections.filter (!·.isFieldNamed typenameField) := by
    induction selections with
    | nil => rfl
    | cons selection rest ih =>
      cases first : selection.isFieldNamed typenameField with
      | true => simp [putField, first, dropped]
      | false => simp [putField, first, ih]
  rw [normalize_filter, normalize_filter, same]

theorem normalize_putWithin (new : List Selection) (inner : List String)
    (selections : List Selection) :
    normalize (putWithin new (typenameField :: inner) selections) = normalize selections := by
  rw [putWithin]
  split
  case h_1 node first =>
    have called : node.name = typenameField := field?_name first
    apply normalize_putField
    exact called
  case h_2 => rfl

theorem normalize_putWithin_eq_self {segments : List String} {inside : List Selection}
    (normal : normalize selections = selections) (below : segments ≠ [])
    (there : within? segments selections = some inside) (filled : inside ≠ []) (new : List Selection) :
    normalize (putWithin new segments selections) = putWithin new segments selections := by
  rcases List.exists_cons_of_ne_nil below with ⟨name, inner, rfl⟩
  rw [within?] at there
  split at there
  case h_1 node first =>
    have free : selections ≠ [.leaf typenameField] := by
      rintro rfl
      have bare : node = { name := typenameField } := by
        simp only [field?, Selection.leaf] at first
        split at first <;> cases first
        rfl
      rw [bare] at there
      cases inner with
      | nil => exact filled (Option.some.inj there).symm
      | cons => cases there
    have called : node.name = name := field?_name first
    rw [putWithin, first]
    apply normalize_of_names free normal
    apply isFieldNamed_putField
    exact called
  case h_2 => cases there

theorem filter_within?_normalize {own : Selection → Bool} {segments : List String}
    {inside : List Selection} (apart : segments.head? ≠ some typenameField)
    (other : segments = [] → ∀ s, own s = true → s.isFieldNamed typenameField = false)
    (there : within? segments selections = some inside) :
    ((within? segments (normalize selections)).getD []).filter own = inside.filter own := by
  cases segments with
  | nil =>
    cases there
    exact filter_normalize (other rfl) selections
  | cons first inner =>
    have different : first ≠ typenameField := fun same => apart (by rw [same]; rfl)
    rw [within?_normalize different, there, Option.getD_some]

theorem normalize_normalize (selections : List Selection) :
    normalize (normalize selections) = normalize selections := by
  rw [normalize_eq_self, normalize_filter]
  split
  case isTrue => exact Or.inl rfl
  case isFalse some =>
    refine Or.inr ⟨some, fun s member => ?_⟩
    simpa using (List.mem_filter.mp member).2

end Normalizing

def slotsAt? (path : ArgumentPath) (selections : List Selection) : Option (List Slot) := do
  let (parent, name) ← path.field.split?
  let inside ← within? parent.segments selections
  let node ← field? name inside
  Slots.within? path.containers node.arguments

def putSlots (path : ArgumentPath) (new : List Slot) (selections : List Selection) :
    List Selection :=
  match path.field.split? with
  | none => selections
  | some (parent, name) =>
    match within? parent.segments selections with
    | none => selections
    | some inside =>
      match field? name inside with
      | none => selections
      | some node =>
        let arguments := Slots.putWithin new path.containers node.arguments
        putWithin (putField name { node with arguments } inside) parent.segments selections

section Slots

variable {path : ArgumentPath} {slots : List Slot}

theorem slotsAt?_eq {parent : FieldPath} (split : path.field.split? = some (parent, name))
    (selections : List Selection) :
    slotsAt? path selections = (within? parent.segments selections).bind fun inside =>
      (field? name inside).bind fun node => Slots.within? path.containers node.arguments := by
  rw [slotsAt?, split]
  rfl

theorem slotsAt?_some : slotsAt? path selections = some slots ↔ ∃ parent name inside node,
    path.field.split? = some (parent, name) ∧ within? parent.segments selections = some inside ∧
      field? name inside = some node ∧ Slots.within? path.containers node.arguments = some slots := by
  simp only [slotsAt?, Option.bind_eq_bind, Option.bind_eq_some_iff, Prod.exists]
  grind

theorem putSlots_eq {parent : FieldPath} {inside : List Selection}
    (split : path.field.split? = some (parent, name))
    (there : within? parent.segments selections = some inside)
    (first : field? name inside = some node) (new : List Slot) :
    putSlots path new selections = putWithin (putField name
      { node with arguments := Slots.putWithin new path.containers node.arguments } inside)
        parent.segments selections := by
  simp only [putSlots, split, there, first]

theorem slotsAt?_putSlots (found : slotsAt? path selections = some slots) (new : List Slot) :
    slotsAt? path (putSlots path new selections) = some new := by
  rcases slotsAt?_some.mp found with ⟨parent, name, inside, node, split, there, first, found⟩
  rw [putSlots_eq split there first, slotsAt?_some]
  have called : node.name = name := field?_name first
  exact ⟨parent, name, _, _, split, within?_putWithin there _, field?_putField first called,
    Slots.within?_putWithin found new⟩

theorem slotsAt?_normalize (apart : path.field.segments.head? ≠ some typenameField)
    (selections : List Selection) :
    slotsAt? path (normalize selections) = slotsAt? path selections := by
  cases split : path.field.split? with
  | none =>
    rw [slotsAt?, slotsAt?, split]
    rfl
  | some last =>
    rcases last with ⟨⟨segments⟩, name⟩
    have whole : path.field.segments = segments ++ [name] := FieldPath.split?_some split
    rw [whole] at apart
    rw [slotsAt?_eq split, slotsAt?_eq split]
    cases segments with
    | nil =>
      have other : name ≠ typenameField := fun same => apart (by rw [same]; rfl)
      show (field? name _).bind _ = (field? name _).bind _
      rw [field?_normalize other]
    | cons first inner =>
      have other : first ≠ typenameField := fun same => apart (by rw [same]; rfl)
      rw [within?_normalize other]

theorem normalize_putSlots (inside : path.field.segments.head? = some typenameField)
    (found : slotsAt? path selections = some slots) (new : List Slot) :
    normalize (putSlots path new selections) = normalize selections := by
  rcases slotsAt?_some.mp found with ⟨⟨segments⟩, name, holding, node, split, there, first, -⟩
  have whole : path.field.segments = segments ++ [name] := FieldPath.split?_some split
  rw [whole] at inside
  rw [putSlots_eq split there first]
  cases segments with
  | nil =>
    cases there
    cases inside
    have called : node.name = typenameField := field?_name first
    apply normalize_putField
    exact called
  | cons outer inner =>
    cases inside
    exact normalize_putWithin _ inner selections

end Slots

end Selections

namespace Document

variable {doc result : Document} {id : DefinitionId} {a : α}

theorem updateSelections_definition_eq (d : Definition)
    (edit : List Selection → Edited (List Selection × α)) :
    d.updateSelections edit = (edit d.selections).map fun result => (d.rooted result.1, result.2) := by
  cases d with
  | operation op => exact bind_pure_comp _ (edit op.selections)
  | fragment frag => exact bind_pure_comp _ (edit frag.selections)

/-- An edit of selections is an edit of the list that the path leads to. It puts another list there, and
changes nothing else. -/
theorem editSelections_eq (doc : Document) (id : DefinitionId) (path : FieldPath)
    (edit : List Selection → Edited (List Selection × α)) :
    doc.editSelections id path edit = (doc.definition? id).elim (.error (.unknownDefinition id))
      fun d => (Selections.within? path.segments d.selections).elim (.error (.missingField path))
        fun inside => (edit inside).map fun result => (⟨doc.definitions.set id
          (d.rooted (Selections.putWithin result.1 path.segments d.selections))⟩, result.2) := by
  unfold editSelections updateDefinition
  cases doc.definition? id with
  | none => rfl
  | some d =>
    simp only [updateSelections_definition_eq, Selections.updateAt_eq, Option.elim_some]
    cases Selections.within? path.segments d.selections with
    | none => rfl
    | some inside =>
      rw [Option.elim_some, Option.elim_some]
      cases edit inside <;> rfl

theorem editSelections_ok {path : FieldPath} {edit : List Selection → Edited (List Selection × α)} :
    doc.editSelections id path edit = .ok (result, a) ↔ ∃ d inside new, doc.definition? id = some d ∧
      Selections.within? path.segments d.selections = some inside ∧ edit inside = .ok (new, a) ∧
      result = ⟨doc.definitions.set id
        (d.rooted (Selections.putWithin new path.segments d.selections))⟩ := by
  rw [editSelections_eq]
  constructor
  · intro done
    cases there : doc.definition? id with
    | none =>
      rw [there] at done
      cases done
    | some d =>
      rw [there, Option.elim_some, Edited.elim_eq_ok] at done
      rcases done with ⟨inside, ⟨new, found⟩, held, edited, same⟩
      cases same
      exact ⟨d, inside, new, rfl, held, edited, rfl⟩
  · rintro ⟨d, inside, new, there, held, edited, rfl⟩
    rw [there, Option.elim_some, Edited.elim_eq_ok]
    exact ⟨inside, (new, a), held, edited, rfl⟩

theorem updateSelections_eq (doc : Document) (id : DefinitionId) (path : FieldPath)
    (edit : List Selection → Edited (List Selection)) :
    doc.updateSelections id path edit = (doc.definition? id).elim (.error (.unknownDefinition id))
      fun d => (Selections.within? path.segments d.selections).elim (.error (.missingField path))
        fun inside => (edit inside).map fun new =>
          ⟨doc.definitions.set id (d.rooted (Selections.putWithin new path.segments d.selections))⟩ := by
  rw [updateSelections, editSelections_eq]
  cases doc.definition? id with
  | none => rfl
  | some d =>
    cases held : Selections.within? path.segments d.selections with
    | none =>
      rw [Option.elim_some, Option.elim_some, held]
      rfl
    | some inside =>
      rw [Option.elim_some, Option.elim_some, held]
      cases edited : edit inside <;> simp [edited] <;> rfl

theorem updateSelections_ok {path : FieldPath} {edit : List Selection → Edited (List Selection)} :
    doc.updateSelections id path edit = .ok result ↔ ∃ d inside new, doc.definition? id = some d ∧
      Selections.within? path.segments d.selections = some inside ∧ edit inside = .ok new ∧
      result = ⟨doc.definitions.set id
        (d.rooted (Selections.putWithin new path.segments d.selections))⟩ := by
  simp only [updateSelections, Edited.bind_eq_ok]
  constructor
  · rintro ⟨⟨document, _⟩, edited, same⟩
    cases same
    rcases editSelections_ok.mp edited with ⟨d, inside, new, there, found, changed, rfl⟩
    exact ⟨d, inside, new, there, found, Edited.bind_unit_eq_ok.mp changed, rfl⟩
  · rintro ⟨d, inside, new, there, found, changed, rfl⟩
    refine ⟨(_, ()), editSelections_ok.mpr ⟨d, inside, new, there, found, ?_, rfl⟩, rfl⟩
    exact Edited.bind_unit_eq_ok.mpr changed

theorem editSlots_ok {path : ArgumentPath} {edit : List Slot → Edited (List Slot × α)} :
    doc.editSlots id path edit = .ok (result, a) ↔ ∃ d slots new, doc.definition? id = some d ∧
      Selections.slotsAt? path d.selections = some slots ∧ edit slots = .ok (new, a) ∧
      result = ⟨doc.definitions.set id (d.rooted (Selections.putSlots path new d.selections))⟩ := by
  rw [editSlots, Edited.bind_eq_ok]
  constructor
  · rintro ⟨⟨parent, name⟩, split, edited⟩
    have split := splitPath_ok.mp split
    rcases editSelections_ok.mp edited with ⟨d, inside, _, there, found, changed, rfl⟩
    rcases Selections.updateField_ok.mp changed with ⟨node, _, first, updated, rfl⟩
    rcases Edited.bind_eq_ok.mp updated with ⟨⟨arguments, _⟩, within, same⟩
    cases same
    rcases Slots.updateWithin_ok.mp within with ⟨slots, new, held, replaced, rfl⟩
    refine ⟨d, slots, new, there, ?_, replaced, ?_⟩
    · exact Selections.slotsAt?_some.mpr ⟨parent, name, inside, node, split, found, first, held⟩
    · rw [Selections.putSlots_eq split found first]
  · rintro ⟨d, slots, new, there, found, edited, rfl⟩
    rcases Selections.slotsAt?_some.mp found with
      ⟨parent, name, inside, node, split, found, first, held⟩
    refine ⟨(parent, name), splitPath_ok.mpr split, editSelections_ok.mpr ?_⟩
    let arguments := Slots.putWithin new path.containers node.arguments
    refine ⟨d, inside, Selections.putField name { node with arguments } inside, there, found, ?_, ?_⟩
    · have within := Slots.updateWithin_ok.mpr ⟨slots, new, held, edited, rfl⟩
      refine Selections.updateField_ok.mpr ⟨node, { node with arguments }, first, ?_, rfl⟩
      exact Edited.bind_eq_ok.mpr ⟨(arguments, a), within, rfl⟩
    · rw [Selections.putSlots_eq split found first]

theorem updateSlots_list {path : ArgumentPath} {edit : List Slot → Edited (List Slot)} :
    doc.updateSlots id path edit = .ok result ↔ ∃ d slots new, doc.definition? id = some d ∧
      Selections.slotsAt? path d.selections = some slots ∧ edit slots = .ok new ∧
      result = ⟨doc.definitions.set id (d.rooted (Selections.putSlots path new d.selections))⟩ := by
  simp only [updateSlots, Edited.bind_eq_ok]
  constructor
  · rintro ⟨⟨document, _⟩, edited, same⟩
    cases same
    rcases editSlots_ok.mp edited with ⟨d, slots, new, there, found, changed, rfl⟩
    exact ⟨d, slots, new, there, found, Edited.bind_unit_eq_ok.mp changed, rfl⟩
  · rintro ⟨d, slots, new, there, found, changed, rfl⟩
    refine ⟨(_, ()), editSlots_ok.mpr ⟨d, slots, new, there, found, ?_, rfl⟩, rfl⟩
    exact Edited.bind_unit_eq_ok.mpr changed

end Document

end QueryEditor
