import QueryEditor.Session
import QueryEditor.Proofs.Document.Recent
import QueryEditor.Proofs.Edit.Supplied

namespace QueryEditor.Session

inductive Step where
  | setText (text : String)
  | edit (edit : Edit) (committing : Bool)
  | commit (doc : Document)
  | document
  | fragments
  | takeScroll

def step (session : Session) : Step → Session
  | .setText text => session.setText text
  | .edit edit committing => (session.apply edit committing).2
  | .commit doc =>
    match session.commit doc with
    | .ok committed => committed
    | .error _ => session
  | .document => session.document.2
  | .fragments => session.fragments.2
  | .takeScroll => session.takeScroll.2

def run (session : Session) (steps : List Step) : Session :=
  steps.foldl step session

def start (schema : Schema) (policy : Policy) (text : String) : Session :=
  { schema, policy, text }

@[simp] theorem run_nil (session : Session) : session.run [] = session := rfl

@[simp] theorem run_cons (session : Session) (first : Step) (rest : List Step) :
    session.run (first :: rest) = (session.step first).run rest := rfl

/-- What a property of sessions needs to hold after every run. -/
theorem run_induction {property : Session → Prop} {allowed : Step → Prop}
    (keeps : ∀ session step, property session → allowed step → property (session.step step))
    {session : Session} {steps : List Step} (holds : property session)
    (each : ∀ step ∈ steps, allowed step) : property (session.run steps) := by
  induction steps generalizing session with
  | nil => exact holds
  | cons first rest ih =>
    exact ih (keeps session first holds (each first List.mem_cons_self))
      fun step member => each step (List.mem_cons_of_mem first member)

theorem document_snd (session : Session) :
    session.document.2 = { session with recent := (session.recent.read session.text).2 } := rfl

theorem document_fst (session : Session) :
    session.document.1 = (session.recent.read session.text).1 := rfl

def remembering (session : Session) (outcome : EditOutcome) : Session :=
  { session.document.2 with
    removed := outcome.removed, scroll := outcome.scroll.or session.scroll }

def conclude (session : Session) (committing : Bool) : Edited EditOutcome → Edited Document × Session
  | .error cause => (.error cause, session.document.2)
  | .ok outcome => (session.remembering outcome).finish outcome.document committing

theorem apply_eq (session : Session) (edit : Edit) (committing : Bool) :
    session.apply edit committing = session.conclude committing
      (edit.perform session.schema session.policy session.removed session.document.1) := rfl

theorem commit_cases (session : Session) (doc : Document) :
    (∃ held, Document.parse doc.print = .ok held ∧
      session.commit doc =
        .ok { session with text := doc.print, commits := session.commits ++ [doc.print] }) ∨
    (∃ cause, Document.parse doc.print = .error cause ∧
      session.commit doc = .error (.unparseable cause.message)) := by
  unfold commit
  dsimp only
  cases parsed : Document.parse doc.print with
  | error cause => exact Or.inr ⟨cause, rfl, rfl⟩
  | ok held => exact Or.inl ⟨held, rfl, rfl⟩

/-- All that an edit can do to a session. -/
inductive Applied (session : Session) (edit : Edit) : (committing : Bool) →
    Edited Document × Session → Prop where
  | refused {committing : Bool} {cause : EditError}
      (performed : edit.perform session.schema session.policy session.removed session.document.1 =
        .error cause) :
      Applied session edit committing (.error cause, session.document.2)
  | done {outcome : EditOutcome}
      (performed : edit.perform session.schema session.policy session.removed session.document.1 =
        .ok outcome) :
      Applied session edit false (.ok outcome.document, session.remembering outcome)
  | committed {outcome : EditOutcome} {held : Document}
      (performed : edit.perform session.schema session.policy session.removed session.document.1 =
        .ok outcome)
      (parsed : Document.parse outcome.document.print = .ok held) :
      Applied session edit true (.ok outcome.document,
        { session.remembering outcome with
          text := outcome.document.print, commits := session.commits ++ [outcome.document.print] })
  | unparseable {outcome : EditOutcome} {cause : DocumentError}
      (performed : edit.perform session.schema session.policy session.removed session.document.1 =
        .ok outcome)
      (parsed : Document.parse outcome.document.print = .error cause) :
      Applied session edit true (.error (.unparseable cause.message), session.remembering outcome)

theorem apply_applied (session : Session) (edit : Edit) (committing : Bool) :
    Applied session edit committing (session.apply edit committing) := by
  rw [apply_eq]
  cases performed : edit.perform session.schema session.policy session.removed session.document.1 with
  | error cause => exact .refused performed
  | ok outcome =>
    cases committing with
    | false => exact .done performed
    | true =>
      rw [conclude, finish, if_pos rfl]
      rcases (session.remembering outcome).commit_cases outcome.document with
        ⟨held, parsed, committed⟩ | ⟨cause, parsed, refused⟩
      · rw [committed]
        exact .committed performed parsed
      · rw [refused]
        exact .unparseable performed parsed

namespace Applied

variable {session : Session} {edit : Edit} {committing : Bool} {result : Edited Document × Session}

theorem schema (applied : Applied session edit committing result) :
    result.2.schema = session.schema := by
  cases applied <;> rfl

theorem policy (applied : Applied session edit committing result) :
    result.2.policy = session.policy := by
  cases applied <;> rfl

theorem recent (applied : Applied session edit committing result) :
    result.2.recent = (session.recent.read session.text).2 := by
  cases applied <;> rfl

/-- An edit that is refused changes nothing that is remembered; any other changes it, even if it is
not committed in the end. -/
theorem removed (applied : Applied session edit committing result) :
    result.2.removed = session.removed ∨ ∃ outcome,
      edit.perform session.schema session.policy session.removed session.document.1 = .ok outcome ∧
        result.2.removed = outcome.removed := by
  cases applied with
  | refused _ => exact Or.inl rfl
  | done performed => exact Or.inr ⟨_, performed, rfl⟩
  | committed performed _ => exact Or.inr ⟨_, performed, rfl⟩
  | unparseable performed _ => exact Or.inr ⟨_, performed, rfl⟩

theorem performed {doc : Document} (applied : Applied session edit committing result)
    (done : result.1 = .ok doc) : ∃ outcome,
      edit.perform session.schema session.policy session.removed session.document.1 = .ok outcome ∧
        outcome.document = doc := by
  cases applied with
  | refused _ => cases done
  | done performed => exact ⟨_, performed, Except.ok.inj done⟩
  | committed performed _ => exact ⟨_, performed, Except.ok.inj done⟩
  | unparseable _ _ => cases done

end Applied

theorem step_commit_eq (session : Session) (doc : Document) :
    session.step (.commit doc) = session ∨ session.step (.commit doc) =
      { session with text := doc.print, commits := session.commits ++ [doc.print] } := by
  rcases session.commit_cases doc with ⟨held, _, committed⟩ | ⟨cause, _, refused⟩
  · exact Or.inr (by rw [step, committed])
  · exact Or.inl (by rw [step, refused])

@[simp] theorem step_schema (session : Session) (step : Step) :
    (session.step step).schema = session.schema := by
  cases step with
  | edit edit committing => exact (session.apply_applied edit committing).schema
  | commit doc => rcases session.step_commit_eq doc with same | same <;> rw [same]
  | _ => rfl

@[simp] theorem step_policy (session : Session) (step : Step) :
    (session.step step).policy = session.policy := by
  cases step with
  | edit edit committing => exact (session.apply_applied edit committing).policy
  | commit doc => rcases session.step_commit_eq doc with same | same <;> rw [same]
  | _ => rfl

def Step.reads : Step → Bool
  | .edit _ _ => true
  | .document => true
  | .fragments => true
  | _ => false

theorem step_recent (session : Session) (step : Step) :
    (session.step step).recent =
      if step.reads then (session.recent.read session.text).2 else session.recent := by
  cases step with
  | edit edit committing => exact (session.apply_applied edit committing).recent
  | commit doc => rcases session.step_commit_eq doc with same | same <;> rw [same] <;> rfl
  | _ => rfl

theorem run_coherent {session : Session} (coherent : session.recent.Coherent) (steps : List Step) :
    (session.run steps).recent.Coherent := by
  have step_coherent : ∀ (session : Session) (step : Step), session.recent.Coherent → True →
      (session.step step).recent.Coherent := by
    intro session step coherent _
    rw [step_recent]
    split
    · exact coherent.read session.text
    · exact coherent
  exact @run_induction (fun session => session.recent.Coherent) (fun _ => True) step_coherent session
    steps coherent fun _ _ => trivial

theorem start_coherent (schema : Schema) (policy : Policy) (text : String) (steps : List Step) :
    ((start schema policy text).run steps).recent.Coherent :=
  run_coherent RecentDocument.coherent_empty steps

def Step.isWellNamed : Step → Bool
  | .edit supplied _ => supplied.isWellNamed
  | _ => true

structure WellNamed (schema : Schema) (policy : Policy) (steps : List Step) : Prop where
  named : schema.isWellNamed = true
  host : policy.WellNamed schema
  supplied : ∀ step ∈ steps, step.isWellNamed = true

/-- What holds of a session in which only names are supplied. -/
structure Sound (schema : Schema) (policy : Policy) (session : Session) : Prop where
  schema : session.schema = schema
  policy : session.policy = policy
  coherent : session.recent.Coherent
  removed : session.removed.Passes .edited

theorem grammatical_edited : (Check.grammatical fun _ => true).Implies .edited where
  value v := by cases v <;> simp +contextual [Check.grammatical, Check.edited]
  slot _ valid := valid
  directive _ valid := valid
  field _ _ valid := valid
  spread _ := by simp +contextual [Check.grammatical]
  inline _ _ valid := valid
  declaration _ valid := valid
  operation _ _ valid := valid
  fragment _ _ _ := by simp +contextual [Check.grammatical]

namespace Sound

variable {schema : Schema} {policy : Policy} {session : Session}

theorem document (sound : session.Sound schema policy) : session.document.1.all .edited = true :=
  Document.all_mono grammatical_edited (sound.coherent.read_grammatical session.text)

theorem performed (sound : session.Sound schema policy) (named : schema.isWellNamed = true)
    (host : policy.WellNamed schema) {edit : Edit} (supplied : edit.isWellNamed = true)
    {outcome : EditOutcome}
    (performed : edit.perform session.schema session.policy session.removed session.document.1 =
      .ok outcome) : Edit.Passes .edited outcome := by
  rw [sound.schema, sound.policy] at performed
  exact Edit.perform_passes (Check.edited_suits named host) sound.removed sound.document
    (Edit.supplies_edited supplied) performed

theorem step (sound : session.Sound schema policy) (named : schema.isWellNamed = true)
    (host : policy.WellNamed schema) {step : Step} (supplied : step.isWellNamed = true) :
    (session.step step).Sound schema policy := by
  refine ⟨by rw [step_schema, sound.schema], by rw [step_policy, sound.policy],
    run_coherent sound.coherent [step], ?_⟩
  cases step with
  | edit edit committing =>
    rw [Session.step]
    rcases (session.apply_applied edit committing).removed with same | ⟨outcome, performed, same⟩
    · rw [same]
      exact sound.removed
    · rw [same]
      exact (sound.performed named host supplied performed).removed
  | commit doc =>
    rcases session.step_commit_eq doc with same | same <;> rw [same] <;> exact sound.removed
  | _ => exact sound.removed

end Sound

theorem start_sound (schema : Schema) (policy : Policy) (text : String) :
    (start schema policy text).Sound schema policy :=
  ⟨rfl, rfl, RecentDocument.coherent_empty, nofun, nofun, nofun⟩

theorem run_sound {schema : Schema} {policy : Policy} {steps : List Step}
    (named : WellNamed schema policy steps) (text : String) :
    ((start schema policy text).run steps).Sound schema policy :=
  run_induction (fun _ _ sound supplied => sound.step named.named named.host supplied)
    (start_sound schema policy text) named.supplied

/-- The schema `type Query { a(x: Int): String b: String }`. -/
def sampleSchema : Schema where
  types := .ofList (BuiltinScalar.all.map .builtin ++ [.object
    { name := "Query", location := .introspection, fields := .ofList [
      { name := "a", location := .introspection, parent := "Query", type := .named "String" true,
        arguments := .ofList [{ name := "x", location := .introspection, type := .named "Int" true }] },
      { name := "b", location := .introspection, parent := "Query",
        type := .named "String" true }] }])
  queryName := "Query"

end QueryEditor.Session
