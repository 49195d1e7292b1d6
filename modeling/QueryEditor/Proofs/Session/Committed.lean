import Mathlib.Control.Monad.Basic
import QueryEditor.Proofs.Document.RoundTrip
import QueryEditor.Proofs.Session.Run

namespace QueryEditor

open Text

def Check.filled : Check where
  value
    | .variable name => name != ""
    | _ => true
  spread fragment := fragment != ""

/-- A document in which nothing is left open, and nothing stands that text cannot say. -/
structure Document.Settled (doc : Document) : Prop where
  filled : doc.all .filled = true
  fragmentNames : doc.all .fragmentNames = true
  enums : doc.all .enums = true
  floats : doc.all .floats = true
  selections : doc.all .selections = true
  depth : doc.depth ≤ Grammar.maxDepth

theorem Check.grammatical_eq_edited :
    grammatical Binary64.isFinite =
      edited.and (filled.and (fragmentNames.and (enums.and (floats.and selections)))) := by
  have filled_name : ∀ name : String, ((name == "" || isName name) && name != "") = isName name := by
    intro name
    cases blank : name == "" with
    | true =>
      rw [beq_iff_eq.mp blank]
      decide
    | false => simp [bne, blank]
  simp only [grammatical, Check.and, edited, filled, fragmentNames, enums, floats, selections,
    Bool.true_and, Bool.and_true, Check.mk.injEq]
  refine ⟨?value, trivial, trivial, trivial, ?spread, ?inline, trivial, ?operation, ?fragment⟩
  case value =>
    funext value
    cases value <;> simp [filled_name]
  case spread =>
    funext fragment
    rw [← Bool.and_assoc, filled_name]
  case inline =>
    funext condition isEmpty
    rw [Bool.and_assoc, Bool.and_self]
  case operation =>
    funext name isEmpty
    rw [Bool.and_assoc, Bool.and_self]
  case fragment =>
    funext name condition isEmpty
    rw [Bool.and_assoc (isName name && isName condition)]

theorem Document.wellFormed_iff_settled {doc : Document} (nonempty : doc.definitions ≠ [])
    (edited : doc.all .edited = true) : doc.WellFormed ↔ doc.Settled := by
  rw [wellFormed_iff, Check.grammatical_eq_edited]
  simp only [all_and, Bool.and_eq_true]
  constructor
  · rintro ⟨-, ⟨-, filled, fragmentNames, enums, floats, selections⟩, depth⟩
    exact ⟨filled, fragmentNames, enums, floats, selections, depth⟩
  · rintro ⟨filled, fragmentNames, enums, floats, selections, depth⟩
    exact ⟨nonempty, ⟨edited, filled, fragmentNames, enums, floats, selections⟩, depth⟩

/-- A document that is read from the text of another is the other exactly if that is well formed. -/
theorem Document.eq_iff_wellFormed {doc held : Document} (parsed : parse doc.print = .ok held) :
    held = doc ↔ doc.WellFormed := by
  constructor
  · rintro rfl
    exact wellFormed_of_parse_print parsed
  · intro wellFormed
    rw [parse_print wellFormed] at parsed
    exact (Except.ok.inj parsed).symm

theorem Document.parse_print_nil (held : Document) : parse (print ⟨[]⟩) ≠ .ok held := by
  intro parsed
  have typed := (parse_ok.mp parsed).1
  have blank : allBlank (print ⟨[]⟩) = true := by decide
  rw [blank] at typed
  cases typed

namespace Session

theorem apply_committed {session after : Session} {edit : Edit} {doc : Document}
    (applied : session.apply edit true = (.ok doc, after)) :
    ∃ outcome held, edit.perform session.schema session.policy session.removed session.document.1 =
        .ok outcome ∧ outcome.document = doc ∧ Document.parse doc.print = .ok held ∧
      after = { session.remembering outcome with
        text := doc.print, commits := session.commits ++ [doc.print] } := by
  have cases := session.apply_applied edit true
  rw [applied] at cases
  cases cases with
  | committed performed parsed => exact ⟨_, _, performed, rfl, parsed, rfl⟩

/-- The text of a committed edit is the print of its document. The session then holds the document
that the text parses to: the one that the edit made exactly if that is well formed, and with names
throughout, exactly if that is settled. -/
theorem committed_document (schema : Schema) (policy : Policy) (text : String) (steps : List Step)
    {edit : Edit} {doc : Document} {after : Session}
    (applied : ((start schema policy text).run steps).apply edit true = (.ok doc, after)) :
    after.text = doc.print ∧ ∃ held, Document.parse after.text = .ok held ∧ after.document.1 = held ∧
      (held = doc ↔ doc.WellFormed) ∧
      (WellNamed schema policy (steps ++ [.edit edit true]) → (held = doc ↔ doc.Settled)) := by
  obtain ⟨outcome, held, performed, made, parsed, rfl⟩ := apply_committed applied
  have coherent := (start_coherent schema policy text steps).read
    ((start schema policy text).run steps).text
  have same := Document.eq_iff_wellFormed parsed
  refine ⟨rfl, held, parsed, ?_, same, fun named => ?_⟩
  · rw [document_fst]
    exact congrArg Prod.fst (coherent.read_parsed parsed)
  · have before : WellNamed schema policy steps :=
      ⟨named.named, named.host, fun step member =>
        named.supplied step (List.mem_append_left _ member)⟩
    have supplied : edit.isWellNamed = true :=
      named.supplied (.edit edit true) (List.mem_append_right _ List.mem_cons_self)
    have passes := (run_sound before text).performed named.named named.host supplied performed
    have nonempty : doc.definitions ≠ [] := by
      intro empty
      obtain ⟨definitions⟩ := doc
      cases empty
      exact Document.parse_print_nil held parsed
    rw [same, Document.wellFormed_iff_settled nonempty (made ▸ passes.document)]

theorem committed_document_toggled :
    let edited := ((start sampleSchema {} "\x7b a \x7d").run [.document]).apply
      (.toggleField 0 ⟨["b"]⟩) true
    let doc : Document :=
      ⟨[.operation { kind := .query, selections := [.leaf "a", .leaf "b"] }]⟩
    edited.1 = .ok doc ∧ edited.2.text = doc.print ∧ edited.2.document.1 = doc := by
  intro edited doc
  have applied : edited = (.ok doc, edited.2) := Prod.ext (by decide +kernel) rfl
  obtain ⟨text, held, _, kept, _, same⟩ :=
    committed_document sampleSchema {} "\x7b a \x7d" [.document] applied
  have named : WellNamed sampleSchema {} [.document, .edit (.toggleField 0 ⟨["b"]⟩) true] :=
    ⟨by decide, Policy.default_wellNamed (by decide), by decide⟩
  have settled : doc.Settled :=
    ⟨by decide, by decide, by decide, by decide, by decide, by decide⟩
  exact ⟨congrArg Prod.fst applied, text, kept.trans ((same named).mpr settled)⟩

/-- A fragment that is left empty is committed in front of an unnamed query, whose selections are
then taken for its own. -/
theorem emptied_fragment_committed :
    let edited := (start sampleSchema {} "fragment F on Query \x7b a \x7d\n\n\x7b b \x7d").apply
      (.toggleField 0 ⟨["a"]⟩) true
    WellNamed sampleSchema {} [.edit (.toggleField 0 ⟨["a"]⟩) true] ∧
      edited.1 = .ok ⟨[.fragment { name := "F", condition := "Query" },
        .operation { kind := .query, selections := [.leaf "b"] }]⟩ ∧
      edited.2.document.1 =
        ⟨[.fragment { name := "F", condition := "Query", selections := [.leaf "b"] }]⟩ :=
  ⟨⟨by decide, Policy.default_wellNamed (by decide), by decide⟩, by decide +kernel,
    by decide +kernel⟩

end Session

end QueryEditor
