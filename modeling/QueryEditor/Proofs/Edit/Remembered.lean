import QueryEditor.Edit.Basic
import QueryEditor.Proofs.Edit.Slots

namespace QueryEditor

namespace Memory

variable {κ α : Type} [DecidableEq κ] {memory : Memory κ α} {key other : κ}

theorem find?_forget_self (memory : Memory κ α) (key : κ) : (memory.forget key).find? key = none := by
  rw [find?, forget, List.find?_filter, Option.map_eq_none_iff, List.find?_eq_none]
  simp

theorem find?_remember_self (memory : Memory κ α) (key : κ) (a : α) :
    (memory.remember key a).find? key = some a := by
  simp [find?, remember]

theorem find?_update_self (memory : Memory κ α) (key : κ) (taken : Option α) :
    (memory.update key taken).find? key = taken := by
  cases taken with
  | none => exact memory.find?_forget_self key
  | some a => exact memory.find?_remember_self key a

theorem find?_forget_ne (different : other ≠ key) :
    (memory.forget key).find? other = memory.find? other := by
  rw [find?, forget, List.find?_filter]
  congr 2
  funext entry
  by_cases there : entry.1 = other
  · simp [there, different]
  · simp [there]

theorem find?_remember_ne (a : α) (different : other ≠ key) :
    (memory.remember key a).find? other = memory.find? other := by
  rw [find?, remember, List.find?_cons_of_neg (by simpa using different.symm)]
  exact find?_forget_ne different

theorem find?_update_ne (taken : Option α) (different : other ≠ key) :
    (memory.update key taken).find? other = memory.find? other := by
  cases taken with
  | none => exact find?_forget_ne different
  | some a => exact find?_remember_ne a different

end Memory

namespace Edit

/-- What an edit does to what is remembered. -/
inductive Remembers (removed : Removed) : Edit → Removed → Prop where
  | nothing (edit : Edit) : Remembers removed edit removed
  | field (id : DefinitionId) (path : FieldPath) (taken : Option FieldSelection) :
    Remembers removed (.toggleField id path)
      { removed with fields := removed.fields.update (id, path) taken }
  | spread (id : DefinitionId) (path : FieldPath) (fragment : String)
      (taken : Option FragmentSpread) :
    Remembers removed (.toggleSpread id path fragment)
      { removed with spreads := removed.spreads.update (id, path, fragment) taken }
  | added (id : DefinitionId) (path : ArgumentPath) :
    Remembers removed (.addArgument id path)
      { removed with arguments := removed.arguments.forget (id, path) }
  | taken (id : DefinitionId) (path : ArgumentPath) (slot : Slot) :
    Remembers removed (.removeArgument id path)
      { removed with arguments := removed.arguments.remember (id, path) slot }

def scrolls : Edit → Bool
  | .copy _ => true
  | .create _ => true
  | _ => false

variable {schema : Schema} {policy : Policy} {removed : Removed} {doc : Document} {edit : Edit}
  {outcome : EditOutcome}

theorem perform_remembers (done : edit.perform schema policy removed doc = .ok outcome) :
    edit.Remembers removed outcome.removed ∧ (edit.scrolls = false → outcome.scroll = none) := by
  have plain : ∀ {edit : Edit} {edited : Edited Document}, perform.plain removed edited = .ok outcome →
      edit.Remembers removed outcome.removed ∧ (edit.scrolls = false → outcome.scroll = none) := by
    intro edit edited done
    obtain ⟨result, _, rfl⟩ := Edited.map_eq_ok.mp done
    exact ⟨.nothing _, fun _ => rfl⟩
  cases edit with
  | toggleField id path =>
    obtain ⟨_, _, done⟩ := Edited.bind_eq_ok.mp done
    obtain ⟨_, _, done⟩ := Edited.bind_eq_ok.mp done
    obtain ⟨⟨_, taken⟩, _, same⟩ := Edited.bind_eq_ok.mp done
    cases same
    exact ⟨.field id path taken, fun _ => rfl⟩
  | toggleSpread id path fragment =>
    obtain ⟨⟨_, taken⟩, _, same⟩ := Edited.bind_eq_ok.mp done
    cases same
    exact ⟨.spread id path fragment taken, fun _ => rfl⟩
  | addArgument id path =>
    obtain ⟨_, _, done⟩ := Edited.bind_eq_ok.mp done
    obtain ⟨_, _, same⟩ := Edited.bind_eq_ok.mp done
    cases same
    exact ⟨.added id path, fun _ => rfl⟩
  | removeArgument id path =>
    obtain ⟨⟨_, taken⟩, _, done⟩ := Edited.bind_eq_ok.mp done
    cases taken with
    | some slot =>
      cases done
      exact ⟨.taken id path slot, fun _ => rfl⟩
    | none =>
      cases done
      exact ⟨.nothing _, fun _ => rfl⟩
  | copy id =>
    obtain ⟨_, _, rfl⟩ := Edited.map_eq_ok.mp done
    exact ⟨.nothing _, nofun⟩
  | create kind =>
    cases done
    exact ⟨.nothing _, nofun⟩
  | _ => exact plain done

namespace Remembers

variable {result : Removed}

theorem fields (remembers : edit.Remembers removed result) {id : DefinitionId} {path : FieldPath}
    (other : edit ≠ .toggleField id path) :
    result.fields.find? (id, path) = removed.fields.find? (id, path) := by
  cases remembers with
  | field id' path' taken =>
    refine Memory.find?_update_ne taken fun same => other ?_
    cases same
    rfl
  | _ => rfl

theorem spreads (remembers : edit.Remembers removed result) {id : DefinitionId} {path : FieldPath}
    {fragment : String} (other : edit ≠ .toggleSpread id path fragment) :
    result.spreads.find? (id, path, fragment) = removed.spreads.find? (id, path, fragment) := by
  cases remembers with
  | spread id' path' fragment' taken =>
    refine Memory.find?_update_ne taken fun same => other ?_
    cases same
    rfl
  | _ => rfl

theorem arguments (remembers : edit.Remembers removed result) {id : DefinitionId}
    {path : ArgumentPath} (notAdded : edit ≠ .addArgument id path)
    (notRemoved : edit ≠ .removeArgument id path) :
    result.arguments.find? (id, path) = removed.arguments.find? (id, path) := by
  cases remembers with
  | added id' path' =>
    refine Memory.find?_forget_ne fun same => notAdded ?_
    cases same
    rfl
  | taken id' path' slot =>
    refine Memory.find?_remember_ne slot fun same => notRemoved ?_
    cases same
    rfl
  | _ => rfl

end Remembers

end Edit

end QueryEditor
