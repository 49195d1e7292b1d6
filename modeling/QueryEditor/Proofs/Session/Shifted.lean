import QueryEditor.Proofs.Edit.Places
import QueryEditor.Proofs.Session.Fallback

namespace QueryEditor

namespace Document

variable {doc : Document} {id : DefinitionId}

theorem definition?_eraseIdx {i j : DefinitionId} (before : i < j) :
    definition? ⟨doc.definitions.eraseIdx i⟩ (j - 1) = doc.definition? j := by
  have behind : i ≤ j - 1 := Nat.le_sub_one_of_lt before
  have next : j - 1 + 1 = j := Nat.sub_add_cancel (Nat.one_le_of_lt before)
  show (doc.definitions.eraseIdx i)[j - 1]? = _
  rw [List.getElem?_eraseIdx_of_ge behind, next]
  rfl

theorem WellFormed.eraseIdx (wellFormed : doc.WellFormed) (i : DefinitionId)
    (nonempty : doc.definitions.eraseIdx i ≠ []) : WellFormed ⟨doc.definitions.eraseIdx i⟩ := by
  rcases (wellFormed_iff doc).mp wellFormed with ⟨-, grammatical, depth⟩
  have each := List.all_eq_true.mp grammatical
  have within : ∀ d ∈ doc.definitions.eraseIdx i, d ∈ doc.definitions :=
    fun d member => List.mem_of_mem_eraseIdx member
  apply (wellFormed_iff _).mpr
  refine ⟨nonempty, List.all_eq_true.mpr fun d member => each d (within d member), ?_⟩
  apply deepest_le.mpr
  intro d member
  exact deepest_le.mp depth d (within d member)

end Document

namespace Place

variable {schema : Schema} {policy : Policy} {removed : Removed} {doc : Document} {place : Place}
  {i j : DefinitionId} {d : Definition} {taken : place.Entry}

theorem takeOut_ne {id id' : DefinitionId} (different : id ≠ id') :
    place.takeOut id ≠ place.takeOut id' ∧ place.takeOut id ≠ place.putBack id' := by
  cases place <;> simp [takeOut, putBack, different]

theorem putBack_ne {id id' : DefinitionId} (different : id ≠ id') :
    place.putBack id ≠ place.takeOut id' ∧ place.putBack id ≠ place.putBack id' := by
  cases place <;> simp [takeOut, putBack, different]

/-- What is taken out of a definition is put back there if the definition has not moved in between. If it
has moved up, then what is put there is what was remembered under the position before it, or a new
entry; and what was taken out stays remembered under the position that the definition had. -/
theorem putBack_shifted (named : removed.Named) (before : i < j)
    (there : doc.definition? j = some d) (once : place.entries d = [taken])
    {off shifted back : EditOutcome} {gone direct : Document}
    (takenOut : (place.takeOut j).perform schema policy removed doc = .ok off)
    (removedFirst : off.document.remove i = .ok gone)
    (putBackShifted : (place.putBack (j - 1)).perform schema policy off.removed gone = .ok shifted)
    (putBack : (place.putBack j).perform schema policy off.removed off.document = .ok back)
    (removedLast : back.document.remove i = .ok direct) :
    (shifted.document = direct ↔ place.StandsIn d ∨
      (place.remembered removed (j - 1)).or (place.anew schema policy doc j) = some taken) ∧
    place.remembered shifted.removed j = some taken := by
  have apart : j - 1 ≠ j := Nat.ne_of_lt (Nat.sub_one_lt_of_lt before)
  have namedOff := named.perform takenOut
  rcases takeOut_ok there once takenOut with ⟨list, held, made, kept⟩
  -- The definition without the entry; it is at its position first, and then at the one before.
  let cleared := place.put (list.filter (!place.owns ·)) d.selections
  have offThere : off.document.definition? j = some (d.rooted cleared) := by
    rw [made, Document.definition?_set there, if_pos rfl]
  rcases Document.remove_ok.mp removedFirst with ⟨-, rfl⟩
  have goneThere : Document.definition? ⟨off.document.definitions.eraseIdx i⟩ (j - 1) =
      some (d.rooted cleared) := by
    rw [Document.definition?_eraseIdx before, offThere]
  rcases putBack_ok namedOff goneThere putBackShifted with ⟨inside, new, held', shiftedMade, restores⟩
  rcases putBack_ok namedOff offThere putBack with ⟨_, new', held'', backMade, restores'⟩
  cases held'.symm.trans held''
  rcases Document.remove_ok.mp removedLast with ⟨-, rfl⟩
  have earlier : place.remembered off.removed (j - 1) = place.remembered removed (j - 1) :=
    remembered_kept (takeOut_ne apart.symm).1 (takeOut_ne apart.symm).2 takenOut
  have later : place.remembered shifted.removed j = place.remembered off.removed j :=
    remembered_kept (putBack_ne apart).1 (putBack_ne apart).2 putBackShifted
  have asBefore : place.anew schema policy ⟨off.document.definitions.eraseIdx i⟩ (j - 1) =
      place.anew schema policy doc j :=
    anew_congr (Schema.rootTypeOf_rooted there goneThere)
  rw [earlier, asBefore] at restores
  rw [kept, Option.some_or] at restores'
  refine ⟨?_, later.trans kept⟩
  have bound := Document.id_lt_length goneThere
  have standsIn := place.standsIn_rooted d cleared
  rw [shiftedMade, backMade, List.eraseIdx_set_lt before, Document.set_definition_inj bound, ← standsIn]
  apply rooted_put_inj held' _ restores restores'
  intro apart
  exact entries_takenOut (fun inside => apart (standsIn.mpr inside)) held

end Place

namespace Session

variable {session : Session}

theorem Reachable.named (reachable : session.Reachable) : session.removed.Named := by
  rcases reachable with ⟨schema, policy, text, steps, rfl⟩
  have step_named : ∀ (session : Session) (step : Step), session.removed.Named → True →
      (session.step step).removed.Named := by
    intro session step named _
    cases step with
    | edit edit committing =>
      rw [Session.step]
      rcases (session.apply_applied edit committing).removed with same | ⟨outcome, performed, same⟩
      · rw [same]
        exact named
      · rw [same]
        exact named.perform performed
    | commit doc => rcases session.step_commit_eq doc with same | same <;> rw [same] <;> exact named
    | _ => exact named
  have nothing : (start schema policy text).removed.Named := by
    intro place id a found
    cases place <;> cases found
  exact @run_induction (fun session => session.removed.Named) (fun _ => True) step_named _ steps
    nothing fun _ _ => trivial

/-- What a committed edit leaves to the edits after it. -/
structure Leads (session : Session) (edit : Edit) (outcome : EditOutcome) (after : Session) : Prop where
  performed : edit.perform session.schema session.policy session.removed session.document.1 =
    .ok outcome
  schema : after.schema = session.schema
  policy : after.policy = session.policy
  removed : after.removed = outcome.removed
  coherent : after.recent.Coherent
  nonempty : outcome.document.definitions ≠ []
  document : outcome.document.WellFormed → after.document.1 = outcome.document

theorem apply_leads {after : Session} {edit : Edit} {doc : Document}
    (coherent : session.recent.Coherent) (applied : session.apply edit true = (.ok doc, after)) :
    ∃ outcome, outcome.document = doc ∧ session.Leads edit outcome after := by
  rcases apply_committed applied with ⟨outcome, held, performed, rfl, parsed, rfl⟩
  have coherent' := coherent.read session.text
  refine ⟨outcome, rfl, performed, rfl, rfl, rfl, coherent', ?_, ?_⟩
  · intro empty
    have same : outcome.document = ⟨[]⟩ := congrArg Document.mk empty
    rw [same] at parsed
    exact Document.parse_print_nil held parsed
  · intro wellFormed
    have read := congrArg Prod.fst (coherent'.read_parsed parsed)
    exact read.trans ((Document.eq_iff_wellFormed parsed).mpr wellFormed)

theorem Leads.remove {after : Session} {i : DefinitionId} {outcome : EditOutcome}
    (leads : session.Leads (.remove i) outcome after) :
    session.document.1.remove i = .ok outcome.document ∧ after.removed = session.removed := by
  rcases Edited.map_eq_ok.mp leads.performed with ⟨document, removes, rfl⟩
  exact ⟨removes, leads.removed⟩

/-- An entry is taken out of a definition and put back after another definition before it is removed.
That comes to the same as putting it back first exactly if what is put back is the entry; but what is
put back is what was taken out of the definition that was before it, or a new entry, while the entry
stays remembered for the definition that takes its old position. -/
theorem removal_between (reachable : session.Reachable) {place : Place} {i j : DefinitionId}
    {d : Definition} {taken : place.Entry} {off gone shifted back direct : Document}
    {s₁ s₂ s₃ t₂ t₃ : Session} (before : i < j) (there : session.document.1.definition? j = some d)
    (once : place.entries d = [taken])
    (takenOut : session.apply (place.takeOut j) true = (.ok off, s₁))
    (removedFirst : s₁.apply (.remove i) true = (.ok gone, s₂))
    (putBackShifted : s₂.apply (place.putBack (j - 1)) true = (.ok shifted, s₃))
    (putBack : s₁.apply (place.putBack j) true = (.ok back, t₂))
    (removedLast : t₂.apply (.remove i) true = (.ok direct, t₃))
    (offHeld : off.WellFormed) (backHeld : back.WellFormed) :
    (shifted = direct ↔ place.StandsIn d ∨ (place.remembered session.removed (j - 1)).or
      (place.anew session.schema session.policy session.document.1 j) = some taken) ∧
    place.remembered s₃.removed j = some taken := by
  rcases apply_leads reachable.coherent takenOut with ⟨off, rfl, first⟩
  rcases apply_leads first.coherent removedFirst with ⟨gone, rfl, second⟩
  rcases apply_leads second.coherent putBackShifted with ⟨shifted, rfl, third⟩
  rcases apply_leads first.coherent putBack with ⟨back, rfl, second'⟩
  rcases apply_leads second'.coherent removedLast with ⟨direct, rfl, third'⟩
  -- Each edit starts from the document that the edit before it committed.
  have offNext := first.document offHeld
  have removes := second.remove.1
  have removes' := third'.remove.1
  rw [offNext] at removes
  rw [second'.document backHeld] at removes'
  have goneNext : s₂.document.1 = gone.document := by
    apply second.document
    rcases Document.remove_ok.mp removes with ⟨-, same⟩
    have nonempty := second.nonempty
    rw [same] at nonempty ⊢
    exact offHeld.eraseIdx i nonempty
  have shiftedDone := third.performed
  have backDone := second'.performed
  rw [goneNext, second.schema, second.policy, second.remove.2, first.schema, first.policy,
    first.removed] at shiftedDone
  rw [offNext, first.schema, first.policy, first.removed] at backDone
  rw [third.removed]
  exact Place.putBack_shifted reachable.named before there once first.performed removes shiftedDone
    backDone removes'

theorem answered {result : Edited Document × Session} {doc : Document} (ok : result.1 = .ok doc) :
    result = (.ok doc, result.2) :=
  Prod.ext ok rfl

/-- A field without arguments looks the same when it is selected anew. -/
theorem removal_between_plain :
    let session := start sampleSchema {} "\x7b b \x7d \x7b a b \x7d"
    let place := Place.field .root "a"
    let query (fields : List String) : Definition :=
      .operation { kind := .query, selections := fields.map .leaf }
    let off := session.apply (place.takeOut 1) true
    let gone := off.2.apply (.remove 0) true
    let shifted := gone.2.apply (place.putBack 0) true
    let back := off.2.apply (place.putBack 1) true
    let direct := back.2.apply (.remove 0) true
    shifted.1 = .ok ⟨[query ["b", "a"]]⟩ ∧ direct.1 = shifted.1 ∧
      place.remembered shifted.2.removed 1 = some (.leaf "a") := by
  intro session place query off gone shifted back direct
  have offDone : off = (.ok ⟨[query ["b"], query ["b"]]⟩, off.2) := answered (by decide +kernel)
  have goneDone : gone = (.ok ⟨[query ["b"]]⟩, gone.2) := answered (by decide +kernel)
  have shiftedDone : shifted = (.ok ⟨[query ["b", "a"]]⟩, shifted.2) := answered (by decide +kernel)
  have backDone : back = (.ok ⟨[query ["b"], query ["b", "a"]]⟩, back.2) :=
    answered (by decide +kernel)
  have directDone : direct = (.ok ⟨[query ["b", "a"]]⟩, direct.2) := answered (by decide +kernel)
  have there : session.document.1.definition? 1 = some (query ["a", "b"]) := by decide +kernel
  have once : place.entries (query ["a", "b"]) = [.leaf "a"] := by decide +kernel
  have law := removal_between ⟨sampleSchema, {}, _, [], rfl⟩ Nat.zero_lt_one there once offDone goneDone
    shiftedDone backDone directDone
    ⟨by decide, by decide, by decide, by decide, by decide, by decide, by decide, by decide, by decide⟩
    ⟨by decide, by decide, by decide, by decide, by decide, by decide, by decide, by decide, by decide⟩
  have same := law.1.mpr (Or.inr (by decide +kernel))
  refine ⟨congrArg Prod.fst shiftedDone, ?_, law.2⟩
  rw [shiftedDone, directDone, same]

/-- The argument that `a` has in `B` is lost when `B` moves up, and comes back in `C`. -/
theorem moved_definition_forgotten :
    let session := start sampleSchema {}
      "query A \x7b b \x7d query B \x7b a(x: 1) b \x7d query C \x7b b \x7d"
    let toggle (id : DefinitionId) := Edit.toggleField id ⟨["a"]⟩
    let query (name : String) (selections : List Selection) : Definition :=
      .operation { kind := .query, name := some name, selections }
    let given : Selection := .field { name := "a", arguments := [⟨"x", .int 1⟩] }
    let off := session.apply (toggle 1) true
    let gone := off.2.apply (.remove 0) true
    let shifted := gone.2.apply (toggle 0) true
    let back := off.2.apply (toggle 1) true
    let direct := back.2.apply (.remove 0) true
    off.1 = .ok ⟨[query "A" [.leaf "b"], query "B" [.leaf "b"], query "C" [.leaf "b"]]⟩ ∧
    gone.1 = .ok ⟨[query "B" [.leaf "b"], query "C" [.leaf "b"]]⟩ ∧
    direct.1 = .ok ⟨[query "B" [.leaf "b", given], query "C" [.leaf "b"]]⟩ ∧
    shifted.1 = .ok ⟨[query "B" [.leaf "b", .leaf "a"], query "C" [.leaf "b"]]⟩ ∧
    (shifted.2.apply (toggle 1) true).1 =
      .ok ⟨[query "B" [.leaf "b", .leaf "a"], query "C" [.leaf "b", given]]⟩ := by
  decide +kernel

end Session

end QueryEditor
