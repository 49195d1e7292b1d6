import QueryEditor.Proofs.Edit.Touched
import QueryEditor.Proofs.Naming
import QueryEditor.Proofs.Session.Run

namespace QueryEditor

namespace Document

variable {doc after : Document} {schema : Schema} {id : DefinitionId} {path : FieldPath}

theorem name_mem_fragments {frag : Fragment} (member : .fragment frag ∈ doc.definitions) :
    frag.name ∈ doc.fragments.map (·.2.name) := by
  rcases List.getElem?_of_mem member with ⟨id, there⟩
  have listed : (id, frag) ∈ doc.fragments :=
    List.mem_filterMap.mpr ⟨(.fragment frag, id), List.mem_zipIdx_iff_getElem?.mpr there, rfl⟩
  exact List.mem_map.mpr ⟨_, listed, rfl⟩

def newFragment (doc : Document) (type : String) (selections : List Selection) : Fragment where
  name := Naming.unique (type ++ "Fragment") (doc.fragments.map (·.2.name))
  condition := type
  selections := selections

theorem newFragment_name (type : String) (selections : List Selection) {other : Fragment}
    (member : .fragment other ∈ doc.definitions) :
    other.name ≠ (doc.newFragment type selections).name := by
  intro same
  have taken := name_mem_fragments member
  rw [same] at taken
  exact Naming.unique_not_mem _ _ taken

/-- All that extracting a fragment does: its spread takes the place of what was selected beneath a field,
and it comes last. -/
structure Extracts (doc : Document) (schema : Schema) (id : DefinitionId) (path : FieldPath)
    (type : TypeDefinition) (d : Definition) (children : List Selection) (after : Document) :
    Prop where
  typed : schema.typeAt doc id path = .ok type
  there : doc.definition? id = some d
  below : path.segments ≠ []
  inside : Selections.within? path.segments d.selections = some children
  filled : children ≠ []
  made : after.definitions = doc.definitions.set id (d.rooted (Selections.putWithin
    [.spread { fragment := (doc.newFragment type.name children).name }] path.segments d.selections)) ++
      [.fragment (doc.newFragment type.name children)]

theorem performExtract_ok : Edit.performExtract schema doc id path = .ok after ↔
    ∃ type d children, doc.Extracts schema id path type d children after := by
  simp only [Edit.performExtract, Edited.bind_eq_ok]
  constructor
  · rintro ⟨⟨parent, name⟩, split, type, typed, ⟨document, fragment⟩, edited, same⟩
    cases same
    have whole := FieldPath.split?_some (splitPath_ok.mp split)
    rcases editSelections_ok.mp edited with ⟨d, inside, result, there, held, moved, rfl⟩
    rcases Selections.extract_ok.mp moved with ⟨node, first, filled, rfl, rfl⟩
    refine ⟨type, d, node.children, typed, there, ?_, ?_, filled, ?_⟩
    · rw [whole]
      exact List.append_ne_nil_of_right_ne_nil _ (List.cons_ne_nil _ _)
    · rw [whole, Selections.within?_concat, held, Option.bind_some, first, Option.map_some]
    · rw [whole, Selections.putWithin_concat held first]
      rfl
  · rintro ⟨type, d, children, typed, there, below, inside, filled, made⟩
    rcases FieldPath.split?_of_ne_nil below with ⟨parent, name, split⟩
    have whole := FieldPath.split?_some split
    rw [whole, Selections.within?_concat, Option.bind_eq_some_iff] at inside
    rcases inside with ⟨inside, held, beneath⟩
    rcases Option.map_eq_some_iff.mp beneath with ⟨node, first, rfl⟩
    rw [whole, Selections.putWithin_concat held first] at made
    have moved : Selections.extract name type.name (doc.fragments.map (·.2.name)) inside = .ok (_, _) :=
      Selections.extract_ok.mpr ⟨node, first, filled, rfl, rfl⟩
    have edited := editSelections_ok.mpr ⟨d, inside, _, there, held, moved, rfl⟩
    refine ⟨(parent, name), splitPath_ok.mpr split, type, typed, _, edited, ?_⟩
    exact congrArg Except.ok (congrArg Document.mk made.symm)

namespace Extracts

variable {type : TypeDefinition} {d : Definition} {children : List Selection}

theorem selections_rooted (extracts : doc.Extracts schema id path type d children after)
    (normalized : doc.Normalized) (new : List Selection) :
    (d.rooted (Selections.putWithin new path.segments d.selections)).selections =
      Selections.putWithin new path.segments d.selections := by
  cases d with
  | operation op =>
    have normal := normalized op (List.mem_of_getElem? extracts.there)
    exact Selections.normalize_putWithin_eq_self normal extracts.below extracts.inside
      extracts.filled new
  | fragment frag => rfl

theorem definition?_after (extracts : doc.Extracts schema id path type d children after) :
    after.definition? id = some (d.rooted (Selections.putWithin
      [.spread { fragment := (doc.newFragment type.name children).name }] path.segments
        d.selections)) := by
  have bound := id_lt_length extracts.there
  rw [definition?, extracts.made, List.getElem?_append_left (by rwa [List.length_set])]
  exact List.getElem?_set_self bound

theorem within?_after (extracts : doc.Extracts schema id path type d children after)
    (normalized : doc.Normalized) :
    (after.definition? id).bind (Selections.within? path.segments ·.selections) =
      some [.spread { fragment := (doc.newFragment type.name children).name }] := by
  rw [extracts.definition?_after, Option.bind_some, extracts.selections_rooted normalized]
  exact Selections.within?_putWithin extracts.inside _

theorem moved_back (extracts : doc.Extracts schema id path type d children after)
    (normalized : doc.Normalized) : after.updateSelections id path (fun _ => .ok children) =
      .ok (doc.append (.fragment (doc.newFragment type.name children))) := by
  have bound := id_lt_length extracts.there
  have definition := extracts.definition?_after
  have spread := extracts.within?_after normalized
  rw [definition, Option.bind_some] at spread
  refine updateSelections_ok.mpr ⟨_, _, children, definition, spread, rfl, ?_⟩
  -- The definition is as it was; what stands behind it plays no part.
  rw [extracts.selections_rooted normalized, Selections.putWithin_putWithin,
    Selections.putWithin_found extracts.inside, Definition.rooted_rooted,
    rooted_self normalized extracts.there, extracts.made,
    List.set_append_left _ _ (by rwa [List.length_set]), List.set_set]
  exact congrArg (append · _) (set_definition_self extracts.there).symm

theorem undone (extracts : doc.Extracts schema id path type d children after)
    (normalized : doc.Normalized) : (after.updateSelections id path (fun _ => .ok children) >>=
      (·.remove doc.definitions.length)) = .ok doc := by
  rw [extracts.moved_back normalized]
  refine remove_ok.mpr ⟨?_, ?_⟩
  · simp [append]
  · simp [append, List.eraseIdx_append_of_length_le]

end Extracts

end Document

namespace Session

variable {session : Session}

theorem apply_extract_ok {id : DefinitionId} {path : FieldPath} {committing : Bool} {after : Document}
    (done : (session.apply (.extract id path) committing).1 = .ok after) :
    ∃ type d children,
      session.document.1.Extracts session.schema id path type d children after := by
  rcases (session.apply_applied (.extract id path) committing).performed done with
    ⟨outcome, performed, rfl⟩
  rcases Edited.map_eq_ok.mp performed with ⟨document, extracted, rfl⟩
  exact Document.performExtract_ok.mp extracted

/-- Extracting a fragment adds it at the end, under a new name and on the type of the field, and spreads it
in the place of what was selected. Putting that in the place of the spread, and removing the fragment,
restores the document. -/
theorem extract_undone {id : DefinitionId} {path : FieldPath} {committing : Bool} {after : Document}
    (normalized : session.document.1.Normalized)
    (done : (session.apply (.extract id path) committing).1 = .ok after) :
    let doc := session.document.1
    ∃ type fragment, session.schema.typeAt doc id path = .ok type ∧
      after.definitions.length = doc.definitions.length + 1 ∧
      after.definitions.getLast? = some (.fragment fragment) ∧
      (∀ other, .fragment other ∈ doc.definitions → other.name ≠ fragment.name) ∧
      fragment.condition = type.name ∧ fragment.selections ≠ [] ∧
      (after.definition? id).bind (Selections.within? path.segments ·.selections) =
        some [.spread { fragment := fragment.name }] ∧
      (after.updateSelections id path (fun _ => .ok fragment.selections) >>=
        (·.remove doc.definitions.length)) = .ok doc := by
  intro doc
  rcases apply_extract_ok done with ⟨type, d, children, extracts⟩
  refine ⟨type, doc.newFragment type.name children, extracts.typed, ?_, ?_, ?_, rfl, extracts.filled,
    extracts.within?_after normalized, extracts.undone normalized⟩
  · rw [extracts.made, List.length_append, List.length_set, List.length_singleton]
  · rw [extracts.made, List.getLast?_concat]
  · exact fun other member => Document.newFragment_name _ _ member

/-- The schema `type Query { viewer: User } type User { id: String name: String }`. -/
def viewerSchema : Schema where
  types := .ofList (BuiltinScalar.all.map .builtin ++ [
    .object { name := "Query", location := .introspection, fields := .ofList [
      { name := "viewer", location := .introspection, parent := "Query",
        type := .named "User" true }] },
    .object { name := "User", location := .introspection, fields := .ofList [
      { name := "id", location := .introspection, parent := "User", type := .named "String" true },
      { name := "name", location := .introspection, parent := "User",
        type := .named "String" true }] }])
  queryName := "Query"

theorem extract_undone_viewer :
    let session := start viewerSchema {}
      "fragment UserFragment on User \x7b id \x7d \x7b me: viewer \x7b id name \x7d \x7d"
    let path : FieldPath := ⟨["viewer"]⟩
    let doc := session.document.1
    doc.Normalized ∧ ∃ after fragment, (session.apply (.extract 1 path) true).1 = .ok after ∧
      after.definitions.getLast? = some (.fragment fragment) ∧ fragment.name ≠ "UserFragment" ∧
      fragment.selections ≠ [] ∧
      (after.updateSelections 1 path (fun _ => .ok fragment.selections) >>=
        (·.remove doc.definitions.length)) = .ok doc := by
  intro session path doc
  let held : Fragment := { name := "UserFragment", condition := "User", selections := [.leaf "id"] }
  let viewer (children : List Selection) : Definition := .operation
    { kind := .query, selections := [.field { name := "viewer", aliasName := some "me", children }] }
  let moved : Fragment :=
    { name := "UserFragment1", condition := "User", selections := [.leaf "id", .leaf "name"] }
  have start : doc = ⟨[.fragment held, viewer [.leaf "id", .leaf "name"]]⟩ := by decide +kernel
  have normalized : doc.Normalized := by
    intro op member
    rw [start] at member
    simp only [List.mem_cons, List.not_mem_nil, or_false, reduceCtorEq, false_or] at member
    cases member
    rfl
  have done : (session.apply (.extract 1 path) true).1 = .ok
      ⟨[.fragment held, viewer [.spread { fragment := "UserFragment1" }], .fragment moved]⟩ := by
    decide +kernel
  rcases extract_undone normalized done with
    ⟨type, fragment, -, -, last, new, -, filled, -, undone⟩
  have different : held.name ≠ fragment.name := by
    apply new held
    show Definition.fragment held ∈ doc.definitions
    rw [start]
    exact List.mem_cons_self
  exact ⟨normalized, _, fragment, done, last, different.symm, filled, undone⟩

end Session

end QueryEditor
