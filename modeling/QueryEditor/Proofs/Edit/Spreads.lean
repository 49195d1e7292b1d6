import QueryEditor.Proofs.Edit.Framed

namespace QueryEditor

namespace Selection

mutual

def spreads : Selection → List String
  | field ⟨_, _, _, _, children⟩ => spreadsOfAll children
  | spread node => [node.fragment]
  | inline ⟨_, _, children⟩ => spreadsOfAll children

def spreadsOfAll : List Selection → List String
  | [] => []
  | selection :: rest => spreads selection ++ spreadsOfAll rest

end

theorem spreads_field (node : FieldSelection) : (field node).spreads = spreadsOfAll node.children := by
  rw [spreads]

theorem spreadsOfAll_eq (selections : List Selection) :
    spreadsOfAll selections = selections.flatMap spreads := by
  induction selections with
  | nil => rfl
  | cons selection rest ih => rw [spreadsOfAll, ih, List.flatMap_cons]

theorem spreadsOfAll_append (front rest : List Selection) :
    spreadsOfAll (front ++ rest) = spreadsOfAll front ++ spreadsOfAll rest := by
  simp only [spreadsOfAll_eq, List.flatMap_append]

end Selection

def Document.spreads (doc : Document) : List String :=
  doc.definitions.flatMap fun d => Selection.spreadsOfAll d.selections

open Selection

namespace Selections

variable {name : String} {before after selections : List Selection} {segments : List String}

/-- Normalizing takes away the spreads beneath a `__typename`, and adds none. -/
theorem spreadsOfAll_normalize_subset (selections : List Selection) :
    spreadsOfAll (normalize selections) ⊆ spreadsOfAll selections := by
  intro name member
  rw [normalize_filter] at member
  split at member
  case isTrue => cases member
  case isFalse =>
    rw [spreadsOfAll_eq, List.mem_flatMap] at *
    rcases member with ⟨s, kept, there⟩
    exact ⟨s, (List.mem_filter.mp kept).1, there⟩

theorem FirstReplaced.spreads_perm {old new : FieldSelection}
    (replaced : FirstReplaced name old new before after) :
    (spreadsOfAll after ++ spreadsOfAll old.children).Perm
      (spreadsOfAll before ++ spreadsOfAll new.children) := by
  rcases replaced with ⟨front, rest, -, -, -⟩
  simp only [List.perm_iff_count, spreadsOfAll_append, spreadsOfAll, spreads_field, List.count_append]
  omega

theorem Grafted.spreads_perm {old new : List Selection} (grafted : Grafted old new segments before after) :
    (spreadsOfAll after ++ spreadsOfAll old).Perm (spreadsOfAll before ++ spreadsOfAll new) := by
  induction grafted with
  | here => exact List.perm_append_comm
  | beneath inside replaced ih =>
    have beside := replaced.spreads_perm
    simp only [List.perm_iff_count, List.count_append] at *
    intro name
    have inner := ih name
    have outer := beside name
    omega

theorem spreadsOfAll_within?_subset {inside : List Selection}
    (there : within? segments selections = some inside) :
    spreadsOfAll inside ⊆ spreadsOfAll selections := by
  have perm := (grafted_putWithin there []).spreads_perm
  rw [spreadsOfAll, List.append_nil] at perm
  exact fun name member => perm.subset (List.mem_append_right _ member)

end Selections

theorem Definition.spreads_rooted_subset (d : Definition) :
    spreadsOfAll (d.rooted d.selections).selections ⊆ spreadsOfAll d.selections := by
  cases d with
  | operation op => exact Selections.spreadsOfAll_normalize_subset op.selections
  | fragment frag => exact List.Subset.refl _

namespace Document

variable {doc : Document} {id : DefinitionId} {d : Definition}

theorem spreads_set (there : doc.definition? id = some d) (other : Definition) :
    (spreads ⟨doc.definitions.set id other⟩ ++ spreadsOfAll d.selections).Perm
      (doc.spreads ++ spreadsOfAll other.selections) := by
  rcases doc with ⟨definitions⟩
  show (List.flatMap _ _ ++ _).Perm (List.flatMap _ _ ++ _)
  change definitions[id]? = some d at there
  induction definitions generalizing id with
  | nil => cases there
  | cons first rest ih =>
    cases id with
    | zero =>
      cases there
      simp only [List.perm_iff_count, List.set_cons_zero, List.flatMap_cons, List.count_append]
      omega
    | succ id =>
      rw [List.set_cons_succ, List.flatMap_cons, List.flatMap_cons, List.append_assoc, List.append_assoc]
      exact (ih there).append_left _

theorem spreads_set_grafted {before after : Definition} {old new : List Selection}
    {segments : List String} (there : doc.definition? id = some d)
    (grafted : Selections.Grafted old new segments before.selections after.selections) :
    (spreads ⟨doc.definitions.set id after⟩ ++ spreadsOfAll old).Perm
      (spreads ⟨doc.definitions.set id before⟩ ++ spreadsOfAll new) := by
  have exchanged := grafted.spreads_perm
  have setBefore := spreads_set there before
  have setAfter := spreads_set there after
  simp only [List.perm_iff_count, List.count_append] at *
  intro name
  have exchanged := exchanged name
  have setBefore := setBefore name
  have setAfter := setAfter name
  omega

theorem spreads_definition_subset (there : doc.definition? id = some d) :
    spreadsOfAll d.selections ⊆ doc.spreads := by
  intro name member
  exact List.mem_flatMap.mpr ⟨d, List.mem_of_getElem? there, member⟩

/-- A definition of which an edit keeps all that normalizing its root leaves. -/
theorem spreads_rooted_subset (there : doc.definition? id = some d) :
    spreads ⟨doc.definitions.set id (d.rooted d.selections)⟩ ⊆ doc.spreads := by
  intro name member
  have set := spreads_set there (d.rooted d.selections)
  rcases List.mem_append.mp (set.subset (List.mem_append_left _ member)) with kept | rooted
  · exact kept
  · exact spreads_definition_subset there (d.spreads_rooted_subset rooted)

theorem spreads_append (doc : Document) (d : Definition) :
    spreads ⟨doc.definitions ++ [d]⟩ = doc.spreads ++ spreadsOfAll d.selections := by
  simp [spreads]

end Document

end QueryEditor
