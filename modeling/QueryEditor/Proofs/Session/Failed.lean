import Mathlib.Control.Monad.Basic
import QueryEditor.Proofs.Edit.Remembered
import QueryEditor.Proofs.Session.Run

namespace QueryEditor.Session

/-- All that the user can see of a session is the same, now and in what later edits put back. -/
structure Alike (before after : Session) : Prop where
  text : after.text = before.text
  commits : after.commits = before.commits
  document : after.document.1 = before.document.1
  scroll : after.scroll = before.scroll
  fields : ∀ key, after.removed.fields.find? key = before.removed.fields.find? key
  spreads : ∀ key, after.removed.spreads.find? key = before.removed.spreads.find? key
  arguments : ∀ key, after.removed.arguments.find? key = before.removed.arguments.find? key

/-- All that the user can see is the same but for what is remembered under the place of the edit
itself, and where to scroll if the edit asks to. -/
structure AlikeBut (edit : Edit) (before after : Session) : Prop where
  text : after.text = before.text
  commits : after.commits = before.commits
  document : after.document.1 = before.document.1
  scroll : edit.scrolls = false → after.scroll = before.scroll
  fields : ∀ id path, edit ≠ .toggleField id path →
    after.removed.fields.find? (id, path) = before.removed.fields.find? (id, path)
  spreads : ∀ id path fragment, edit ≠ .toggleSpread id path fragment →
    after.removed.spreads.find? (id, path, fragment) =
      before.removed.spreads.find? (id, path, fragment)
  arguments : ∀ id path, edit ≠ .addArgument id path → edit ≠ .removeArgument id path →
    after.removed.arguments.find? (id, path) = before.removed.arguments.find? (id, path)

theorem Alike.but {before after : Session} (alike : Alike before after) (edit : Edit) :
    AlikeBut edit before after where
  text := alike.text
  commits := alike.commits
  document := alike.document
  scroll _ := alike.scroll
  fields _ _ _ := alike.fields _
  spreads _ _ _ _ := alike.spreads _
  arguments _ _ _ _ := alike.arguments _

variable (session : Session)

theorem alike_document : Alike session session.document.2 where
  text := rfl
  commits := rfl
  document := by rw [document_snd, document_fst, document_fst, RecentDocument.read_again]
  scroll := rfl
  fields _ := rfl
  spreads _ := rfl
  arguments _ := rfl

theorem alikeBut_remembering {edit : Edit} {outcome : EditOutcome}
    (performed : edit.perform session.schema session.policy session.removed session.document.1 =
      .ok outcome) : AlikeBut edit session (session.remembering outcome) := by
  obtain ⟨remembers, scroll⟩ := Edit.perform_remembers performed
  exact
    { text := rfl
      commits := rfl
      document := session.alike_document.document
      scroll := fun still => by rw [remembering, scroll still, Option.none_or]
      fields := fun _ _ other => remembers.fields other
      spreads := fun _ _ _ other => remembers.spreads other
      arguments := fun _ _ notAdded notRemoved => remembers.arguments notAdded notRemoved }

/-- A failed edit changes at most what is remembered under its own place, and where to scroll. It
changes nothing if it fails for anything but its text; otherwise it changes nothing exactly if the edit
has nothing to remember or forget and nowhere new to scroll. -/
theorem failed_edit {session after : Session} {edit : Edit} {committing : Bool} {cause : EditError}
    (failed : session.apply edit committing = (.error cause, after)) :
    AlikeBut edit session after ∧
      ((∀ message, cause ≠ .unparseable message) → Alike session after) ∧
      (Alike session after ↔ ∀ outcome,
        edit.perform session.schema session.policy session.removed session.document.1 = .ok outcome →
          Alike session (session.remembering outcome)) := by
  have applied := session.apply_applied edit committing
  rw [failed] at applied
  cases applied with
  | refused performed =>
    have alike := session.alike_document
    refine ⟨alike.but edit, fun _ => alike, fun _ outcome done => ?_, fun _ => alike⟩
    rw [performed] at done
    cases done
  | unparseable performed parsed =>
    refine ⟨session.alikeBut_remembering performed, fun other => absurd rfl (other _),
      fun alike outcome done => ?_, fun each => each _ performed⟩
    rw [performed] at done
    cases done
    exact alike

theorem failed_edit_unknownField :
    let session := start sampleSchema {} "\x7b a \x7d"
    let failed := session.apply (.toggleField 0 ⟨["c"]⟩) true
    failed.1 = .error (.unknownField "Query" "c") ∧ Alike session failed.2 := by
  intro session failed
  have refused : failed = (.error (.unknownField "Query" "c"), failed.2) :=
    Prod.ext (by decide +kernel) rfl
  exact ⟨congrArg Prod.fst refused, (failed_edit refused).2.1 nofun⟩

/-- The last field of a fragment cannot be taken away, for want of a text to commit. It is remembered
with its argument all the same, and comes back with it in another fragment. -/
theorem emptied_fragment_remembered :
    let session := start sampleSchema {} "fragment F on Query \x7b a(x: 1) \x7d"
    let toggle := Edit.toggleField 0 ⟨["a"]⟩
    let failed := session.apply toggle true
    let fragment (selections : List Selection) : Document :=
      ⟨[.fragment { name := "F", condition := "Query", selections }]⟩
    failed.1 = .error (.unparseable DocumentError.malformed.message) ∧
      failed.2.removed ≠ session.removed ∧
      ((session.setText "fragment F on Query \x7b b \x7d").apply toggle true).1 =
        .ok (fragment [.leaf "b", .leaf "a"]) ∧
      ((failed.2.setText "fragment F on Query \x7b b \x7d").apply toggle true).1 =
        .ok (fragment [.leaf "b", .field { name := "a", arguments := [⟨"x", .int 1⟩] }]) := by
  decide +kernel

end QueryEditor.Session
