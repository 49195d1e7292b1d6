import QueryEditor.Proofs.Session.Run

namespace QueryEditor.Session

/-- The text that a step commits: the print of the document that it answers with. -/
def committed? (session : Session) : Step → Option String
  | .edit edit committing =>
    if committing then (session.apply edit committing).1.toOption.map Document.print else none
  | .commit doc => (session.commit doc).toOption.map fun _ => doc.print
  | _ => none

/-- The text that a step puts in the place of the session's text. -/
def written? (session : Session) : Step → Option String
  | .setText text => some text
  | step => session.committed? step

def collect {α : Type} (given? : Session → Step → Option α) (session : Session) : List Step → List α
  | [] => []
  | first :: rest => (given? session first).toList ++ collect given? (session.step first) rest

theorem step_commits_eq (session : Session) (step : Step) :
    (session.step step).commits = session.commits ++ (session.committed? step).toList := by
  cases step with
  | edit edit committing =>
    have applied := session.apply_applied edit committing
    rw [Session.step, committed?]
    generalize session.apply edit committing = result at applied
    cases applied with
    | refused _ => cases committing <;> exact (List.append_nil _).symm
    | committed _ _ => rfl
    | _ => exact (List.append_nil _).symm
  | commit doc =>
    rw [Session.step, committed?]
    rcases session.commit_cases doc with ⟨held, _, done⟩ | ⟨cause, _, refused⟩
    · rw [done]
      rfl
    · rw [refused]
      exact (List.append_nil _).symm
  | _ => exact (List.append_nil _).symm

theorem step_text_eq (session : Session) (step : Step) :
    (session.step step).text = (session.written? step).getD session.text := by
  cases step with
  | edit edit committing =>
    have applied := session.apply_applied edit committing
    show (session.apply edit committing).2.text =
      (session.committed? (.edit edit committing)).getD session.text
    rw [committed?]
    generalize session.apply edit committing = result at applied
    cases applied with
    | refused _ => cases committing <;> rfl
    | _ => rfl
  | commit doc =>
    show _ = (session.committed? (.commit doc)).getD session.text
    rw [Session.step, committed?]
    rcases session.commit_cases doc with ⟨held, _, done⟩ | ⟨cause, _, refused⟩
    · rw [done]
      rfl
    · rw [refused]
      rfl
  | _ => rfl

theorem run_commits (session : Session) (steps : List Step) :
    (session.run steps).commits = session.commits ++ session.collect committed? steps := by
  induction steps generalizing session with
  | nil => exact (List.append_nil _).symm
  | cons first rest ih =>
    rw [run_cons, ih, step_commits_eq, collect, List.append_assoc]

theorem run_text (session : Session) (steps : List Step) :
    (session.run steps).text = (session.collect written? steps).getLastD session.text := by
  induction steps generalizing session with
  | nil => rfl
  | cons first rest ih =>
    rw [run_cons, ih, step_text_eq, collect]
    cases session.written? first with
    | none => rfl
    | some text => exact (List.getLastD_cons ..).symm

/-- An edit that is committed does what the edit does by itself and a commit of its document after it. -/
theorem apply_then_commit (session : Session) (edit : Edit) :
    session.apply edit true = match session.apply edit false with
      | (.ok doc, edited) =>
        ((edited.commit doc).map fun _ => doc, edited.step (.commit doc))
      | (.error cause, edited) => (.error cause, edited) := by
  rw [apply_eq, apply_eq]
  cases edit.perform session.schema session.policy session.removed session.document.1 with
  | error cause => rfl
  | ok outcome =>
    simp only [conclude, finish, step, if_true, Bool.false_eq_true, if_false]
    cases (session.remembering outcome).commit outcome.document <;> rfl

/-- What is committed in a run is what its steps committed, in their order; the text is the last that
was committed or typed, or else the text at first; and an edit may be committed with the edit or after
it. -/
theorem commit_discipline (session : Session) (steps : List Step) :
    (session.run steps).commits = session.commits ++ session.collect committed? steps ∧
    (session.run steps).text = (session.collect written? steps).getLastD session.text ∧
    ∀ edit, (session.run steps).apply edit true = match (session.run steps).apply edit false with
      | (.ok doc, edited) =>
        ((edited.commit doc).map fun _ => doc, edited.step (.commit doc))
      | (.error cause, edited) => (.error cause, edited) :=
  ⟨session.run_commits steps, session.run_text steps, (session.run steps).apply_then_commit⟩

end QueryEditor.Session
