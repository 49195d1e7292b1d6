import QueryEditor.Proofs.Edit.Lists

namespace QueryEditor

namespace Selections

def besides (name : String) (selections : List Selection) : List Selection :=
  selections.filter (!·.isFieldNamed name)

/-- The first field of a name is one before and another one after. Every other selection stays in its
place. -/
inductive FirstReplaced (name : String) (old new : FieldSelection) :
    (before after : List Selection) → Prop where
  | mk (front rest : List Selection) (free : ∀ s ∈ front, s.isFieldNamed name = false)
      (called : old.name = name) (named : new.name = name) :
      FirstReplaced name old new (front ++ .field old :: rest) (front ++ .field new :: rest)

/-- Through the first field of each name, names lead to a list that is `old` before and `new` after. All
else is the same. -/
inductive Grafted (old new : List Selection) :
    (segments : List String) → (before after : List Selection) → Prop where
  | here : Grafted old new [] old new
  | beneath {name : String} {inner : List String} {node : FieldSelection}
      {children before after : List Selection} (inside : Grafted old new inner node.children children)
      (replaced : FirstReplaced name node { node with children } before after) :
      Grafted old new (name :: inner) before after

variable {name : String} {old new : FieldSelection} {before after selections : List Selection}

theorem filter_named_besides (name : String) (selections : List Selection) :
    (besides name selections).filter (·.isFieldNamed name) = [] := by
  simp [besides, List.filter_filter]

theorem besides_of_unselected (unselected : selections.filter (·.isFieldNamed name) = []) :
    besides name selections = selections :=
  filter_not_eq_self unselected

theorem filter_named_append (node : FieldSelection)
    (unselected : selections.filter (·.isFieldNamed node.name) = []) :
    (selections ++ [Selection.field node]).filter (·.isFieldNamed node.name) = [.field node] := by
  rw [List.filter_append, unselected]
  simp [Selection.isFieldNamed]

theorem besides_append (node : FieldSelection)
    (unselected : selections.filter (·.isFieldNamed node.name) = []) :
    besides node.name (selections ++ [.field node]) = selections := by
  have same := besides_of_unselected unselected
  rw [besides] at *
  rw [List.filter_append, same]
  simp [Selection.isFieldNamed]

theorem field?_append {front : List Selection} (free : ∀ s ∈ front, s.isFieldNamed name = false)
    (rest : List Selection) : field? name (front ++ rest) = field? name rest := by
  induction front with
  | nil => rfl
  | cons selection front ih =>
    rw [List.cons_append, field?_cons_ne (free selection List.mem_cons_self)]
    exact ih fun s member => free s (List.mem_cons_of_mem selection member)

theorem putField_append {front : List Selection} (free : ∀ s ∈ front, s.isFieldNamed name = false)
    (new : FieldSelection) (rest : List Selection) :
    putField name new (front ++ rest) = front ++ putField name new rest := by
  induction front with
  | nil => rfl
  | cons selection front ih =>
    rw [List.cons_append, putField_cons_ne (free selection List.mem_cons_self)]
    rw [ih fun s member => free s (List.mem_cons_of_mem selection member), List.cons_append]

theorem exists_front_of_field? {node : FieldSelection} (found : field? name selections = some node) :
    ∃ front rest, (∀ s ∈ front, s.isFieldNamed name = false) ∧
      selections = front ++ .field node :: rest := by
  induction selections with
  | nil => cases found
  | cons selection rest ih =>
    rcases isFieldNamed_cases name selection with other | ⟨first, rfl, rfl⟩
    · rw [field?_cons_ne other] at found
      rcases ih found with ⟨front, back, free, rfl⟩
      exact ⟨selection :: front, back, List.forall_mem_cons.mpr ⟨other, free⟩, rfl⟩
    · rw [field?_self] at found
      cases found
      exact ⟨[], rest, nofun, rfl⟩

theorem firstReplaced_iff : FirstReplaced name old new before after ↔
    field? name before = some old ∧ new.name = name ∧ after = putField name new before := by
  constructor
  · rintro ⟨front, rest, free, rfl, named⟩
    rw [field?_append free, putField_append free, putField_self]
    exact ⟨field?_self old rest, named, rfl⟩
  · rintro ⟨found, named, rfl⟩
    have called : old.name = name := field?_name found
    rcases exists_front_of_field? found with ⟨front, rest, free, rfl⟩
    rw [putField_append free, ← called, putField_self, called]
    exact .mk front rest free called named

theorem grafted_iff {old new : List Selection} {segments : List String} :
    Grafted old new segments before after ↔
      within? segments before = some old ∧ after = putWithin new segments before := by
  induction segments generalizing before after with
  | nil =>
    constructor
    · rintro ⟨⟩
      exact ⟨rfl, rfl⟩
    · rintro ⟨same, rfl⟩
      cases same
      exact .here
  | cons name inner ih =>
    constructor
    · intro grafted
      cases grafted with
      | beneath inside replaced =>
        rcases ih.mp inside with ⟨held, rfl⟩
        rcases firstReplaced_iff.mp replaced with ⟨first, -, rfl⟩
        constructor
        · rw [within?, first]
          exact held
        · rw [putWithin, first]
    · rintro ⟨there, rfl⟩
      rw [within?] at there
      split at there
      case h_1 node first =>
        have called : node.name = name := field?_name first
        refine .beneath (ih.mpr ⟨there, rfl⟩) (firstReplaced_iff.mpr ⟨first, called, ?_⟩)
        rw [putWithin, first]
      case h_2 => cases there

theorem grafted_putWithin {old : List Selection} {segments : List String}
    (there : within? segments selections = some old) (new : List Selection) :
    Grafted old new segments selections (putWithin new segments selections) :=
  grafted_iff.mpr ⟨there, rfl⟩

namespace FirstReplaced

theorem symm (replaced : FirstReplaced name old new before after) :
    FirstReplaced name new old after before := by
  rcases replaced with ⟨front, rest, free, called, named⟩
  exact .mk front rest free named called

theorem normalized (replaced : FirstReplaced name old new before after)
    (other : name ≠ typenameField) :
    FirstReplaced name old new (normalize before) (normalize after) := by
  rcases replaced with ⟨front, rest, free, rfl, named⟩
  have kept (node : FieldSelection) (called : node.name = old.name) :
      normalize (front ++ .field node :: rest) = front.filter (!·.isFieldNamed typenameField) ++
        .field node :: rest.filter (!·.isFieldNamed typenameField) := by
    have different : node.name ≠ typenameField := called ▸ other
    rw [normalize_filter, List.filter_append, filter_other node different]
    exact if_neg (List.append_ne_nil_of_right_ne_nil _ (List.cons_ne_nil _ _))
  rw [kept old rfl, kept new named]
  exact .mk _ _ (fun s member => free s (List.mem_filter.mp member).1) rfl named

end FirstReplaced

namespace Grafted

variable {old new newer : List Selection} {segments : List String}

theorem symm (grafted : Grafted old new segments before after) :
    Grafted new old segments after before := by
  induction grafted with
  | here => exact .here
  | beneath _ replaced ih => exact .beneath ih replaced.symm

theorem trans {between : List Selection} (first : Grafted old new segments before between)
    (second : Grafted new newer segments between after) : Grafted old newer segments before after := by
  rcases grafted_iff.mp first with ⟨there, rfl⟩
  rcases grafted_iff.mp second with ⟨-, rfl⟩
  exact grafted_iff.mpr ⟨there, putWithin_putWithin new newer segments before⟩

theorem unique {after' : List Selection} (first : Grafted old new segments before after)
    (second : Grafted old new segments before after') : after = after' := by
  rcases grafted_iff.mp first with ⟨-, rfl⟩
  rcases grafted_iff.mp second with ⟨-, rfl⟩
  rfl

theorem normalized (grafted : Grafted old new segments before after) (below : segments ≠ [])
    (apart : segments.head? ≠ some typenameField) :
    Grafted old new segments (normalize before) (normalize after) := by
  cases grafted with
  | here => exact absurd rfl below
  | beneath inside replaced =>
    have other : _ ≠ typenameField := fun same => apart (congrArg some same)
    exact .beneath inside (replaced.normalized other)

theorem normalize_eq (grafted : Grafted old new segments before after)
    (root : segments.head? = some typenameField) : normalize after = normalize before := by
  rcases grafted_iff.mp grafted with ⟨-, rfl⟩
  cases segments with
  | nil => cases root
  | cons name inner =>
    cases root
    exact normalize_putWithin new inner before

end Grafted

end Selections

/-- In the definition names lead to a list that is `old` before and `new` after. All else is the same, but
the root of an operation is normalized afterwards. -/
inductive Definition.Grafted (old new : List Selection) (segments : List String) :
    (before after : Definition) → Prop where
  | operation {op : Operation} {selections : List Selection}
      (inside : Selections.Grafted old new segments op.selections selections) :
      Grafted old new segments (.operation op)
        (.operation { op with selections := Selections.normalize selections })
  | fragment {frag : Fragment} {selections : List Selection}
      (inside : Selections.Grafted old new segments frag.selections selections) :
      Grafted old new segments (.fragment frag) (.fragment { frag with selections })

theorem Definition.grafted_rooted {old new selections : List Selection} {segments : List String}
    {d : Definition} (inside : Selections.Grafted old new segments d.selections selections) :
    d.Grafted old new segments (d.rooted selections) := by
  cases d with
  | operation op => exact .operation inside
  | fragment frag => exact .fragment inside

/-- Names that lead to the `__typename` fields at the root of an operation, or beneath them: no edit keeps
anything there. -/
def Definition.Discards (d : Definition) (segments : List String) : Prop :=
  d.operation?.isSome = true ∧ segments.head? = some typenameField

instance (d : Definition) (segments : List String) : Decidable (d.Discards segments) :=
  inferInstanceAs (Decidable (_ ∧ _))

section Rooted

variable {d : Definition} {old new selections : List Selection} {segments : List String}

theorem Selections.Grafted.rooted (grafted : Grafted old new segments d.selections selections)
    (below : segments ≠ []) (kept : ¬ d.Discards segments) :
    Grafted old new segments (d.rooted d.selections).selections (d.rooted selections).selections := by
  cases d with
  | operation op => exact grafted.normalized below fun root => kept ⟨rfl, root⟩
  | fragment frag => exact grafted

theorem Selections.Grafted.rooted_eq (grafted : Grafted old new segments d.selections selections)
    (discards : d.Discards segments) : d.rooted selections = d.rooted d.selections := by
  cases d with
  | operation op =>
    have same : normalize selections = normalize op.selections := grafted.normalize_eq discards.2
    simp only [Definition.rooted, Definition.selections, same]
  | fragment frag => cases discards.1

theorem Definition.rooted_selections_rooted (d : Definition) (selections : List Selection) :
    d.rooted (d.rooted selections).selections = d.rooted selections := by
  cases d with
  | operation op => simp only [rooted, Definition.selections, Selections.normalize_normalize]
  | fragment frag => rfl

end Rooted

/-- An edit of the selections at a path works exactly if there is the definition, if each name of the path
leads to a field of the list reached so far, and if the edit of the list reached works; else it says which of
them fails. It puts the edited list in the place of that list, and leaves all else as it is. -/
theorem Document.updateSelections_framed (doc : Document) (id : DefinitionId) (path : FieldPath)
    (edit : List Selection → Edited (List Selection)) :
    ((∃ after, doc.updateSelections id path edit = .ok after) ↔ ∃ d list new,
      doc.definition? id = some d ∧ Selections.within? path.segments d.selections = some list ∧
        edit list = .ok new) ∧
    (doc.definitions.length ≤ id →
      doc.updateSelections id path edit = .error (.unknownDefinition id)) ∧
    (∀ d, doc.definition? id = some d → Selections.within? path.segments d.selections = none →
      doc.updateSelections id path edit = .error (.missingField path)) ∧
    (∀ d list cause, doc.definition? id = some d →
      Selections.within? path.segments d.selections = some list → edit list = .error cause →
      doc.updateSelections id path edit = .error cause) ∧
    ∀ after, doc.updateSelections id path edit = .ok after → ∃ d list new edited,
      doc.definition? id = some d ∧ edit list = .ok new ∧ d.Grafted list new path.segments edited ∧
      after.definition? id = some edited ∧ after.definitions.length = doc.definitions.length ∧
      ∀ other, other ≠ id → after.definition? other = doc.definition? other := by
  refine ⟨?_, ?_, ?_, ?_, ?_⟩
  · constructor
    · rintro ⟨after, done⟩
      rcases updateSelections_ok.mp done with ⟨d, list, new, there, held, edited, -⟩
      exact ⟨d, list, new, there, held, edited⟩
    · rintro ⟨d, list, new, there, held, edited⟩
      exact ⟨_, updateSelections_ok.mpr ⟨d, list, new, there, held, edited, rfl⟩⟩
  · intro beyond
    have nothing : doc.definition? id = none := List.getElem?_eq_none_iff.mpr beyond
    rw [updateSelections_eq, nothing]
    rfl
  · intro d there nowhere
    rw [updateSelections_eq, there, Option.elim_some, nowhere]
    rfl
  · intro d list cause there held refused
    rw [updateSelections_eq, there, Option.elim_some, held, Option.elim_some, refused]
    rfl
  · intro after done
    rcases updateSelections_ok.mp done with ⟨d, list, new, there, held, edited, rfl⟩
    have grafted := Definition.grafted_rooted (Selections.grafted_putWithin held new)
    refine ⟨d, list, new, _, there, edited, grafted, ?_, List.length_set, ?_⟩
    · exact List.getElem?_set_self (id_lt_length there)
    · intro other different
      exact List.getElem?_set_ne (Ne.symm different)

end QueryEditor
