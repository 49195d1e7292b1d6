import QueryEditor.Proofs.Edit.Spreads
import QueryEditor.Proofs.Session.Extracted

namespace QueryEditor

open Selection

namespace Document.Extracts

variable {doc after : Document} {schema : Schema} {id : DefinitionId} {path : FieldPath}
  {type : TypeDefinition} {d : Definition} {children : List Selection}

theorem spreads_perm (extracts : doc.Extracts schema id path type d children after) :
    after.spreads.Perm ((if d.Discards path.segments then spreadsOfAll children
      else [(doc.newFragment type.name children).name]) ++
        spreads ⟨doc.definitions.set id (d.rooted d.selections)⟩) := by
  let fragment := doc.newFragment type.name children
  let spread : List Selection := [.spread { fragment := fragment.name }]
  let edited := d.rooted (Selections.putWithin spread path.segments d.selections)
  have grafted := Selections.grafted_putWithin extracts.inside spread
  have made : after = ⟨doc.definitions.set id edited ++ [.fragment fragment]⟩ :=
    congrArg Document.mk extracts.made
  have whole : after.spreads = spreads ⟨doc.definitions.set id edited⟩ ++ spreadsOfAll children := by
    rw [made]
    exact spreads_append ⟨doc.definitions.set id edited⟩ (.fragment fragment)
  rw [whole]
  split
  case isTrue discards =>
    have same : edited = d.rooted d.selections := grafted.rooted_eq discards
    rw [same]
    exact List.perm_append_comm
  case isFalse kept =>
    have written : spreadsOfAll spread = [fragment.name] := by
      simp only [spread, spreadsOfAll, Selection.spreads, List.append_nil]
    have exchanged := spreads_set_grafted extracts.there (grafted.rooted extracts.below kept)
    rw [written] at exchanged
    exact exchanged.trans List.perm_append_comm

end Document.Extracts

namespace Session

variable {session : Session}

/-- Extracting a fragment gives it the name of no fragment that there is, and adds one spread to those of the
document. If the name is spread nowhere before, which is so if each spread is of a fragment that there is,
the fragment does not spread itself and the only spread of it is the one in the place of what was selected;
at the root of an operation, nothing stays in a `__typename`. -/
theorem extract_spreads {id : DefinitionId} {path : FieldPath} {committing : Bool} {after : Document}
    (done : (session.apply (.extract id path) committing).1 = .ok after) :
    let doc := session.document.1
    ∃ d edited fragment, doc.definition? id = some d ∧
      d.Grafted fragment.selections [.spread { fragment := fragment.name }] path.segments edited ∧
      after.definitions = doc.definitions.set id edited ++ [.fragment fragment] ∧
      (∀ other, .fragment other ∈ doc.definitions → other.name ≠ fragment.name) ∧
      after.spreads.Perm
        ((if d.Discards path.segments then spreadsOfAll fragment.selections else [fragment.name]) ++
          Document.spreads ⟨doc.definitions.set id (d.rooted d.selections)⟩) ∧
      (fragment.name ∉ doc.spreads → fragment.name ∉ spreadsOfAll fragment.selections ∧
        after.spreads.count fragment.name = if d.Discards path.segments then 0 else 1) ∧
      ((∀ name ∈ doc.spreads, ∃ other, .fragment other ∈ doc.definitions ∧ other.name = name) →
        fragment.name ∉ doc.spreads) := by
  intro doc
  rcases apply_extract_ok done with ⟨type, d, children, extracts⟩
  let fragment := doc.newFragment type.name children
  have grafted := Selections.grafted_putWithin extracts.inside [.spread { fragment := fragment.name }]
  have new : ∀ other, .fragment other ∈ doc.definitions → other.name ≠ fragment.name :=
    fun other member => Document.newFragment_name _ _ member
  have perm := extracts.spreads_perm
  have fewer := Document.spreads_rooted_subset extracts.there
  refine ⟨d, _, fragment, extracts.there, Definition.grafted_rooted grafted, extracts.made, new,
    perm, ?_, ?_⟩
  · intro unspread
    have outside : fragment.name ∉ spreadsOfAll children := by
      intro member
      have inside := Selections.spreadsOfAll_within?_subset extracts.inside member
      exact unspread (Document.spreads_definition_subset extracts.there inside)
    refine ⟨outside, ?_⟩
    rw [perm.count_eq, List.count_append,
      List.count_eq_zero_of_not_mem fun member => unspread (fewer member)]
    split
    · exact List.count_eq_zero_of_not_mem outside
    · exact List.count_singleton_self
  · intro defined spread
    rcases defined fragment.name spread with ⟨other, member, same⟩
    exact new other member same

theorem extract_spreads_viewer :
    let session := start viewerSchema {}
      "fragment UserFragment on User \x7b id \x7d \x7b viewer \x7b ...UserFragment name \x7d \x7d"
    ∃ after fragment, (session.apply (.extract 1 ⟨["viewer"]⟩) true).1 = .ok after ∧
      after.definitions.getLast? = some (.fragment fragment) ∧
      session.document.1.spreads = ["UserFragment"] ∧
      (∀ name ∈ session.document.1.spreads,
        ∃ other, .fragment other ∈ session.document.1.definitions ∧ other.name = name) ∧
      fragment.name ∉ session.document.1.spreads ∧
      fragment.name ∉ spreadsOfAll fragment.selections ∧ after.spreads.count fragment.name = 1 := by
  intro session
  let held : Fragment := { name := "UserFragment", condition := "User", selections := [.leaf "id"] }
  let moved : Fragment :=
    { name := "UserFragment1", condition := "User",
      selections := [.spread { fragment := "UserFragment" }, .leaf "name"] }
  let query (children : List Selection) : Definition :=
    .operation { kind := .query, selections := [.field { name := "viewer", children }] }
  have opened : session.document.1 = ⟨[.fragment held, query moved.selections]⟩ := by decide +kernel
  have done : (session.apply (.extract 1 ⟨["viewer"]⟩) true).1 = .ok
      ⟨[.fragment held, query [.spread { fragment := "UserFragment1" }], .fragment moved]⟩ := by
    decide +kernel
  have spread : session.document.1.spreads = ["UserFragment"] := by
    rw [opened]
    decide
  have defined : ∀ name ∈ session.document.1.spreads,
      ∃ other, .fragment other ∈ session.document.1.definitions ∧ other.name = name := by
    intro name member
    rw [spread, List.mem_singleton] at member
    rw [opened]
    exact ⟨held, List.mem_cons_self, member.symm⟩
  rcases extract_spreads done with ⟨d, edited, fragment, -, -, made, -, -, once, unspread⟩
  have new : fragment.name ∉ session.document.1.spreads := unspread defined
  rcases once new with ⟨outside, count⟩
  have apart : ¬ d.Discards ["viewer"] := fun discards => absurd discards.2 (by decide)
  refine ⟨_, fragment, done, ?_, spread, defined, new, outside, count.trans (if_neg apart)⟩
  rw [made, List.getLast?_concat]

/-- The spread that is left of a removed fragment is taken for one of the next fragment of its name: what is
extracted then spreads itself. -/
theorem spread_captured :
    let started := start viewerSchema {} "\x7b viewer \x7b id \x7d \x7d"
    let extracted := (started.apply (.extract 0 ⟨["viewer"]⟩) true).2
    let removed := (extracted.apply (.remove 1) true).2
    ∃ after fragment, (removed.apply (.extract 0 ⟨["viewer"]⟩) true).1 = .ok after ∧
      after.definitions.getLast? = some (.fragment fragment) ∧
      fragment.name ∈ removed.document.1.spreads ∧
      fragment.name ∈ spreadsOfAll fragment.selections ∧ after.spreads.count fragment.name = 2 := by
  intro started extracted removed
  let spread : Selection := .spread { fragment := "UserFragment" }
  have ran : removed.document.1.spreads = ["UserFragment"] ∧
      (removed.apply (.extract 0 ⟨["viewer"]⟩) true).1 = .ok
        ⟨[.operation { kind := .query, selections := [.field { name := "viewer", children := [spread] }] },
          .fragment { name := "UserFragment", condition := "User", selections := [spread] }]⟩ := by
    decide +kernel
  rcases ran with ⟨left, done⟩
  refine ⟨_, { name := "UserFragment", condition := "User", selections := [spread] }, done, rfl, ?_, ?_, ?_⟩
  · rw [left]
    exact List.mem_cons_self
  · decide
  · decide

end Session

end QueryEditor
