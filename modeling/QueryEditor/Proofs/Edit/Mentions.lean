import QueryEditor.Proofs.Edit.Evaluation
import QueryEditor.Proofs.Edit.Lists

namespace QueryEditor

open Selection

namespace Selections

theorem mentionedByAll_normalize {selections : List Selection} {name : String}
    (member : name ∈ mentionedByAll (normalize selections)) : name ∈ mentionedByAll selections := by
  rw [normalize_filter] at member
  split at member
  case isTrue => cases member
  case isFalse =>
    rw [mentionedByAll_eq, List.mem_flatMap] at member ⊢
    rcases member with ⟨s, kept, there⟩
    exact ⟨s, (List.mem_filter.mp kept).1, there⟩

namespace Exchange

variable {old new : Value} {names segments : List String}
  {before after without : List Selection}

theorem nonempty (exchange : Exchange old new names segments before after) : before ≠ [] := by
  cases exchange <;> exact List.cons_ne_nil _ _

theorem normalized (exchange : Exchange old new names segments before after)
    (apart : segments.head? ≠ some typenameField) :
    Exchange old new names segments (Selections.normalize before) (Selections.normalize after) := by
  have kept : Exchange old new names segments (before.filter (!·.isFieldNamed typenameField))
      (after.filter (!·.isFieldNamed typenameField)) := by
    induction exchange with
    | @argument node arguments rest inside =>
      have different : node.name ≠ typenameField := fun same => apart (congrArg some same)
      rw [filter_other node different, filter_other { node with arguments } different]
      exact .argument inside
    | @beneath node next inner children rest inside =>
      have different : node.name ≠ typenameField := fun same => apart (congrArg some same)
      rw [filter_other node different, filter_other { node with children } different]
      exact .beneath inside
    | behind other _ ih =>
      rw [List.filter_cons, List.filter_cons]
      split
      · exact .behind other (ih apart)
      · exact ih apart
  rw [normalize_filter, normalize_filter, if_neg kept.nonempty, if_neg kept.symm.nonempty]
  exact kept

theorem normalize_eq (exchange : Exchange old new names segments before after)
    (root : segments.head? = some typenameField) :
    Selections.normalize after = Selections.normalize before := by
  have same : after.filter (!·.isFieldNamed typenameField) =
      before.filter (!·.isFieldNamed typenameField) := by
    induction exchange with
    | @argument node =>
      have called : node.name = typenameField := Option.some.inj root
      simp [Selection.isFieldNamed, called]
    | @beneath node =>
      have called : node.name = typenameField := Option.some.inj root
      simp [Selection.isFieldNamed, called]
    | behind _ _ ih => rw [List.filter_cons, List.filter_cons, ih root]
  rw [normalize_filter, normalize_filter, same]

theorem mentioned_perm (exchange : Exchange old new names segments before after)
    (emptied : Exchange old .null names segments before without) :
    (mentionedByAll after).Perm (new.mentioned ++ mentionedByAll without) := by
  rcases exchange.besides with ⟨others, countBefore, countAfter, -⟩
  rcases emptied.besides with ⟨others', countBefore', countWithout, -⟩
  rw [List.perm_iff_count]
  intro name
  have before := countBefore name
  have before' := countBefore' name
  have after := countAfter name
  have without := countWithout name
  have nothing : Value.null.mentioned = [] := rfl
  rw [nothing, List.count_nil] at without
  rw [List.count_append]
  omega

end Exchange

end Selections

namespace Operation

variable {op : Operation} {old new : Value} {names segments : List String}
  {selections without : List Selection}

/-- What is written in the place of a value is mentioned, with what was mentioned beside the value. -/
theorem mentioned_perm
    (exchange : Selections.Exchange old new names segments op.selections selections)
    (emptied : Selections.Exchange old .null names segments op.selections without) :
    (mentioned { op with selections }).Perm
      (new.mentioned ++ mentioned { op with selections := without }) := by
  have perm := exchange.mentioned_perm emptied
  rw [mentioned, mentioned, ← List.append_assoc]
  apply (perm.append_left _).trans
  rw [← List.append_assoc]
  exact List.perm_append_comm.append_right _

theorem mentions_exchanged {name : String}
    (exchange : Selections.Exchange old new names segments op.selections selections)
    (emptied : Selections.Exchange old .null names segments op.selections without) :
    Mentions name { op with selections } ↔
      new.Mentions name ∨ Mentions name { op with selections := without } := by
  rw [← mem_mentioned, ← mem_mentioned, ← Value.mem_mentioned,
    (mentioned_perm exchange emptied).mem_iff, List.mem_append]

end Operation

namespace Document

variable {doc after : Document} {id : DefinitionId} {path : ArgumentPath} {op edited : Operation}
  {value : Value}

/-- The variables that an operation mentions beside the value at an address: those that it mentions
when the value is null. -/
def mentionedBeside (doc : Document) (id : DefinitionId) (path : ArgumentPath) : List String :=
  match doc.updateSlots id path (Slots.replace path.leafName .null) >>= (·.operationAt id) with
  | .ok emptied => emptied.mentioned
  | .error _ => []

theorem mentionedBeside_eq (there : doc.definition? id = some (.operation op))
    {without : List Selection}
    (emptied : Selections.Exchange value .null path.names path.field.segments op.selections without) :
    doc.mentionedBeside id path =
      Operation.mentioned { op with selections := Selections.normalize without } := by
  have written : doc.updateSlots id path (Slots.replace path.leafName .null) = .ok
      ⟨doc.definitions.set id (.operation { op with selections := Selections.normalize without })⟩ :=
    updateSlots_ok.mpr ⟨_, value, without, there, emptied, rfl⟩
  rw [mentionedBeside, written]
  show (match operationAt _ id with | .ok emptied => emptied.mentioned | .error _ => []) = _
  rw [operationAt_set there]

theorem mentioned_written (there : doc.definition? id = some (.operation op))
    (done : doc.updateSlots id path (Slots.replace path.leafName value) =
      .ok ⟨doc.definitions.set id (.operation edited)⟩) :
    edited.mentioned.Perm ((if path.field.segments.head? = some typenameField then []
      else value.mentioned) ++ doc.mentionedBeside id path) := by
  rcases updateSlots_ok.mp done with ⟨d, old, selections, there', exchange, made⟩
  cases there.symm.trans there'
  rcases Selections.exists_exchange_of_valueAt? exchange.valueAt? .null with ⟨without, emptied⟩
  have same : edited = { op with selections := Selections.normalize selections } :=
    set_operation_inj there made
  rw [mentionedBeside_eq there emptied, same]
  split
  case isTrue root =>
    rw [exchange.normalize_eq root, emptied.normalize_eq root]
    exact List.Perm.refl _
  case isFalse apart =>
    let normalized : Operation := { op with selections := Selections.normalize op.selections }
    exact normalized.mentioned_perm (exchange.normalized apart) (emptied.normalized apart)

theorem mentionedBeside_subset (there : doc.definition? id = some (.operation op))
    (held : doc.valueAt id path = .ok value) : doc.mentionedBeside id path ⊆ op.mentioned := by
  rcases valueAt_ok.mp held with ⟨d, there', found⟩
  cases there.symm.trans there'
  rcases Selections.exists_exchange_of_valueAt? found .null with ⟨without, emptied⟩
  have perm := (Selections.exchange_of_valueAt? found).mentioned_perm emptied
  intro name member
  rw [mentionedBeside_eq there emptied, Operation.mentioned] at member
  rw [Operation.mentioned]
  rcases List.mem_append.mp member with member | member
  · exact List.mem_append_left _ member
  · have inside := Selections.mentionedByAll_normalize member
    exact List.mem_append_right _ (perm.mem_iff.mpr (List.mem_append_right _ inside))

end Document

end QueryEditor
