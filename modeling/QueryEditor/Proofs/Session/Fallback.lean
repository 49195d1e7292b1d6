import QueryEditor.Proofs.Session.Committed

namespace QueryEditor.Session

open Text

def Reachable (session : Session) : Prop :=
  ∃ schema policy text steps, (start schema policy text).run steps = session

theorem Reachable.coherent {session : Session} (reachable : session.Reachable) :
    session.recent.Coherent := by
  obtain ⟨schema, policy, text, steps, rfl⟩ := reachable
  exact start_coherent schema policy text steps

theorem step_commits (session : Session) (step : Step) :
    ((session.step step).commits = session.commits ∧
      ((session.step step).text = session.text ∨ ∃ text, step = .setText text)) ∨
    ∃ text, (session.step step).commits = session.commits ++ [text] := by
  cases step with
  | setText text => exact Or.inl ⟨rfl, Or.inr ⟨text, rfl⟩⟩
  | edit edit committing =>
    rw [Session.step]
    have applied := session.apply_applied edit committing
    generalize session.apply edit committing = result at applied ⊢
    cases applied with
    | committed _ _ => exact Or.inr ⟨_, rfl⟩
    | _ => exact Or.inl ⟨rfl, Or.inl rfl⟩
  | commit doc =>
    rcases session.step_commit_eq doc with same | same <;> rw [same]
    · exact Or.inl ⟨rfl, Or.inl rfl⟩
    · exact Or.inr ⟨_, rfl⟩
  | _ => exact Or.inl ⟨rfl, Or.inl rfl⟩

theorem commits_prefix_run (session : Session) (steps : List Step) :
    session.commits <+: (session.run steps).commits := by
  induction steps generalizing session with
  | nil => exact List.prefix_refl _
  | cons first rest ih =>
    refine List.IsPrefix.trans ?_ (ih (session.step first))
    rcases session.step_commits first with ⟨same, _⟩ | ⟨text, same⟩
    · exact ⟨[], by rw [List.append_nil, same]⟩
    · exact ⟨[text], same.symm⟩

/-- While nothing is typed or committed, the text stays, and the document that is remembered is the
text's own as soon as one step looks at it. -/
theorem run_quiet {session : Session} {steps : List Step}
    (untyped : ∀ step ∈ steps, ∀ text, step ≠ .setText text)
    (uncommitted : (session.run steps).commits = session.commits) :
    (session.run steps).text = session.text ∧ (session.run steps).recent =
      if steps.any Step.reads then (session.recent.read session.text).2 else session.recent := by
  induction steps generalizing session with
  | nil => exact ⟨rfl, rfl⟩
  | cons first rest ih =>
    rw [run_cons] at uncommitted ⊢
    have further := commits_prefix_run (session.step first) rest
    rw [uncommitted] at further
    rcases session.step_commits first with ⟨same, text | ⟨text, typed⟩⟩ | ⟨text, same⟩
    · obtain ⟨stays, recent⟩ := ih (fun step member => untyped step (List.mem_cons_of_mem _ member))
        (uncommitted.trans same.symm)
      refine ⟨stays.trans text, ?_⟩
      rw [recent, text, step_recent, List.any_cons]
      -- The later looks are at the same text, and find what the first one found.
      cases first.reads with
      | false => rfl
      | true =>
        rw [if_pos rfl, RecentDocument.read_again]
        exact ite_self _
    · exact absurd typed (untyped first List.mem_cons_self text)
    · rw [same] at further
      have shorter := further.length_le
      rw [List.length_append, List.length_singleton] at shorter
      omega

/-- After a committed edit and steps that leave its text alone, typing text that does not parse brings
back the committed document if one of the steps looked at it, provided that it is well formed. If none
did, it brings back what was the document before the edit. -/
theorem unparsed_document {before committed : Session} {edit : Edit} {doc : Document}
    {steps : List Step} {typed : String} (reachable : before.Reachable)
    (applied : before.apply edit true = (.ok doc, committed))
    (untyped : ∀ step ∈ steps, ∀ text, step ≠ .setText text)
    (uncommitted : (committed.run steps).commits = committed.commits)
    (filled : allBlank typed = false) (unparsed : ∀ doc, Document.parse typed ≠ .ok doc) :
    ((committed.run steps).setText typed).document.1 = doc ↔
      if steps.any Step.reads then doc.WellFormed
      else if allBlank before.text then before.recent.fallback = doc
      else before.document.1 = doc := by
  obtain ⟨outcome, held, _, _, parsed, same⟩ := apply_committed applied
  have coherent : committed.recent.Coherent := by
    rw [same]
    exact reachable.coherent.read before.text
  have shown : ((committed.run steps).setText typed).document.1 = (committed.run steps).recent.fallback :=
    congrArg Prod.fst ((run_coherent coherent steps).read_unparsed filled unparsed)
  rw [shown, (run_quiet untyped uncommitted).2]
  split
  · have read : committed.recent.read committed.text = (held, ⟨some (doc.print, held)⟩) := by
      have text : committed.text = doc.print := by rw [same]
      rw [text, coherent.read_parsed parsed]
    rw [read]
    exact Document.eq_iff_wellFormed parsed
  · have recent : committed.recent = (before.recent.read before.text).2 := by rw [same]; rfl
    rw [recent]
    split
    case isTrue blank => rw [reachable.coherent.read_blank blank]
    case isFalse written =>
      rw [reachable.coherent.fallback_read (Bool.eq_false_iff.mpr written)]
      rfl

theorem unparsed_document_read :
    let before := start sampleSchema {} "\x7b a \x7d"
    let edited := before.apply (.toggleField 0 ⟨["b"]⟩) true
    let doc : Document := ⟨[.operation { kind := .query, selections := [.leaf "a", .leaf "b"] }]⟩
    edited.1 = .ok doc ∧ ((edited.2.run [.document]).setText "\x7b a b").document.1 = doc := by
  intro before edited doc
  have applied : edited = (.ok doc, edited.2) := Prod.ext (by decide +kernel) rfl
  have malformed : Document.parse "\x7b a b" = .error .malformed := by decide +kernel
  have typed : allBlank "\x7b a b" = false := by decide
  have untyped : ∀ step ∈ [Step.document], ∀ text, step ≠ .setText text :=
    List.forall_mem_singleton.mpr fun _ => nofun
  have shown := unparsed_document ⟨sampleSchema, {}, "\x7b a \x7d", [], rfl⟩ applied untyped rfl
    typed (by rw [malformed]; exact nofun)
  have wellFormed : doc.WellFormed :=
    ⟨by decide, by decide, by decide, by decide, by decide, by decide, by decide, by decide, by decide⟩
  exact ⟨congrArg Prod.fst applied, shown.mpr wellFormed⟩

/-- Nothing looked at the document between the edit and the typing: the edit is lost. -/
theorem unread_edit_lost :
    let before := start sampleSchema {} "\x7b a \x7d"
    let edited := before.apply (.toggleField 0 ⟨["b"]⟩) true
    let query (names : List String) : Document :=
      ⟨[.operation { kind := .query, selections := names.map .leaf }]⟩
    edited.1 = .ok (query ["a", "b"]) ∧ Document.parse "\x7b a b" = .error .malformed ∧
      (edited.2.setText "\x7b a b").document.1 = query ["a"] := by
  decide +kernel

end QueryEditor.Session
