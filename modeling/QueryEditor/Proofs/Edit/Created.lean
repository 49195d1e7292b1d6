import QueryEditor.Edit.Definitions
import QueryEditor.Proofs.Naming

namespace QueryEditor

open Text

namespace ScrollTarget

theorem keyword_hyphenless (definition : Definition) :
    definition.keyword.toList.all (· != '-') = true := by
  cases definition with
  | operation op =>
    rw [Definition.keyword]
    cases op.kind <;> decide
  | fragment frag =>
    rw [Definition.keyword]
    decide

theorem name_of_print {definition other : Definition}
    (same : (ofDefinition definition).print = (ofDefinition other).print) :
    definition.name?.getD "unknown" = other.name?.getD "unknown" := by
  have spelled (d : Definition) : (ofDefinition d).print.toList =
      d.keyword.toList ++ '-' :: (d.name?.getD "unknown").toList := by
    simp [print, ofDefinition]
  have name (d : Definition) : (ofDefinition d).print.toList.dropWhile (· != '-') =
      '-' :: (d.name?.getD "unknown").toList := by
    rw [spelled]
    exact dropWhile_run (keyword_hyphenless d) rfl
  rw [← String.toList_inj, ← List.cons_inj_right '-', ← name definition, same, name]

end ScrollTarget

namespace Document

variable {doc : Document} {kind : OperationKind} {name : String}

def names (doc : Document) : List String :=
  doc.definitions.filterMap (·.name?)

theorem mem_names :
    name ∈ doc.names ↔ ∃ definition ∈ doc.definitions, definition.name? = some name :=
  List.mem_filterMap

theorem names_append (doc : Document) (definition : Definition) :
    (doc.append definition).names = doc.names ++ definition.name?.toList := by
  rw [names, append, List.filterMap_append]
  cases called : definition.name? <;> simp [called, names]

theorem find?_isSome : (doc.find? name).isSome = true ↔ name ∈ doc.names := by
  rw [find?, List.findIdx?_isSome, List.any_eq_true, mem_names]
  simp only [beq_iff_eq]

theorem find?_append_new (new : name ∉ doc.names) {definition : Definition}
    (named : definition.name? = some name) :
    (doc.append definition).find? name = some doc.definitions.length := by
  have none : doc.find? name = none := by
    rw [← Option.not_isSome_iff_eq_none, find?_isSome]
    exact new
  rw [find?] at none
  simp [find?, append, List.findIdx?_append, none, named]

theorem operationName_eq_numbered (kind : OperationKind) (count : Nat) :
    operationName kind count =
      Naming.numbered ("My" ++ kind.capitalized) (if count = 0 then 0 else count + 1) := by
  rw [operationName, Naming.numbered]
  by_cases zero : count = 0
  · simp [zero]
  · simp [zero]

theorem operationName_injective (kind : OperationKind) :
    Function.Injective (operationName kind) := by
  intro first second same
  rw [operationName_eq_numbered, operationName_eq_numbered] at same
  have number := Naming.numbered_injective _ same
  split at number <;> split at number <;> omega

theorem operationName_ne_unknown (kind : OperationKind) (count : Nat) :
    operationName kind count ≠ "unknown" := by
  intro same
  have first := congrArg (·.toList.head?) same
  simp [operationName] at first

def newOperation (kind : OperationKind) (name : String) : Definition :=
  .operation { kind, name := some name, selections := [.leaf typenameField] }

theorem create_standard (standard : doc.isStandard = true) (kind : OperationKind) :
    doc.create kind = (⟨[newOperation kind (operationName kind 0)]⟩,
      .ofDefinition (newOperation kind (operationName kind 0))) :=
  if_pos standard

theorem create_ordinary (ordinary : doc.isStandard = false) (kind : OperationKind) :
    doc.create kind = (doc.append (newOperation kind (doc.freshOperationName kind)),
      .ofDefinition (newOperation kind (doc.freshOperationName kind))) :=
  if_neg (by simp [ordinary])

/-- The search for a name, which tries the names in turn as long as there is a definition of the name. -/
theorem freshOperationName_search (doc : Document) (kind : OperationKind) :
    ∃ bumps ≤ doc.names.length, Naming.Search (operationName kind)
      (fun name => (doc.find? name).isSome = true)
      (doc.operations.filter (·.2.kind == kind)).length bumps (doc.freshOperationName kind) := by
  have used : (fun name => (doc.find? name).isSome = true) = (· ∈ doc.names) :=
    funext fun name => propext find?_isSome
  rw [used]
  exact Naming.firstUnused_search (operationName_injective kind) doc.names _

theorem freshOperationName_not_mem (doc : Document) (kind : OperationKind) :
    doc.freshOperationName kind ∉ doc.names := by
  obtain ⟨bumps, -, search⟩ := freshOperationName_search doc kind
  rw [← find?_isSome]
  exact search.unused

theorem freshOperationName_ne_unknown (doc : Document) (kind : OperationKind) :
    doc.freshOperationName kind ≠ "unknown" := by
  obtain ⟨bumps, -, search⟩ := freshOperationName_search doc kind
  rw [search.found_eq]
  exact operationName_ne_unknown kind _

theorem print_target_iff {definition : Definition} (named : definition.name? = some name)
    (new : name ∉ doc.names) (known : name ≠ "unknown") {id : DefinitionId} {other : Definition}
    (there : (doc.append definition).definition? id = some other) :
    (ScrollTarget.ofDefinition other).print = (ScrollTarget.ofDefinition definition).print ↔
      id = doc.definitions.length := by
  constructor
  · intro same
    by_contra elsewhere
    have bound := (List.getElem?_eq_some_iff.mp there).1
    rw [append, List.length_append, List.length_singleton] at bound
    have inside : id < doc.definitions.length :=
      Nat.lt_of_le_of_ne (Nat.le_of_lt_succ bound) elsewhere
    have before : doc.definitions[id]? = some other := by
      rw [← there, definition?, append, List.getElem?_append_left inside]
    have called := ScrollTarget.name_of_print same
    rw [named] at called
    cases own : other.name? with
    | none =>
      rw [own] at called
      exact known called.symm
    | some otherName =>
      rw [own] at called
      cases called
      exact new (mem_names.mpr ⟨other, List.mem_of_getElem? before, own⟩)
  · rintro rfl
    rw [definition?, append, List.getElem?_concat_length] at there
    cases there
    rfl

theorem names_create_distinct (distinct : doc.names.Nodup) (kind : OperationKind) :
    (doc.create kind).1.names.Nodup := by
  cases standard : doc.isStandard with
  | true =>
    rw [create_standard standard]
    exact List.nodup_singleton _
  | false =>
    rw [create_ordinary standard, names_append]
    have added := distinct.concat (freshOperationName_not_mem doc kind)
    rwa [List.concat_eq_append] at added

def createAll (doc : Document) (kinds : List OperationKind) : Document :=
  kinds.foldl (fun doc kind => (doc.create kind).1) doc

theorem names_createAll_distinct (distinct : doc.names.Nodup) (kinds : List OperationKind) :
    (doc.createAll kinds).names.Nodup := by
  induction kinds generalizing doc with
  | nil => exact distinct
  | cons kind others ih => exact ih (names_create_distinct distinct kind)

/-- A new operation stands behind all definitions, or alone where the standard document was. The search
for its name comes to an end, no definition goes by that name, and the name and the target to scroll to
lead to the new operation. However many are created, no two definitions come to share a name. -/
theorem create_named (doc : Document) :
    (doc.isStandard = false → ∀ kind, ∃ name,
      (∃ bumps ≤ doc.names.length, Naming.Search (operationName kind)
        (fun name => (doc.find? name).isSome = true)
        (doc.operations.filter (·.2.kind == kind)).length bumps name) ∧
      doc.create kind = (⟨doc.definitions ++ [newOperation kind name]⟩,
        .ofDefinition (newOperation kind name)) ∧
      (∀ definition ∈ doc.definitions, definition.name? ≠ some name) ∧
      (doc.create kind).1.find? name = some doc.definitions.length ∧
      ∀ id definition, (doc.create kind).1.definition? id = some definition →
        ((ScrollTarget.ofDefinition definition).print = (doc.create kind).2.print ↔
          id = doc.definitions.length)) ∧
    (doc.isStandard = true → ∀ kind,
      doc.create kind = (⟨[newOperation kind (operationName kind 0)]⟩,
        .ofDefinition (newOperation kind (operationName kind 0)))) ∧
    (doc.names.Nodup → ∀ kinds, (doc.createAll kinds).names.Nodup) := by
  refine ⟨?_, create_standard, names_createAll_distinct⟩
  intro ordinary kind
  have new := freshOperationName_not_mem doc kind
  rw [create_ordinary ordinary]
  refine ⟨doc.freshOperationName kind, freshOperationName_search doc kind, rfl, ?_,
    find?_append_new new rfl, ?_⟩
  · intro definition member named
    exact new (mem_names.mpr ⟨definition, member, named⟩)
  · intro id definition there
    exact print_target_iff rfl new (freshOperationName_ne_unknown doc kind) there

def crowded : Document :=
  ⟨[newOperation .query "MyQuery", .fragment { name := "MyQuery2", condition := "Query" }]⟩

theorem create_named_crowded :
    crowded.isStandard = false ∧ crowded.names.Nodup ∧
      (crowded.create .query).1.find? "MyQuery3" = some 2 ∧
      (crowded.createAll [.query, .mutation, .query]).names.Nodup := by
  have ordinary : crowded.isStandard = false := by decide
  have distinct : crowded.names.Nodup := by decide
  have called : (crowded.create .query).2.name = some "MyQuery3" := by decide
  obtain ⟨name, -, created, -, found, -⟩ := (create_named crowded).1 ordinary .query
  rw [created] at called
  cases called
  exact ⟨ordinary, distinct, found, (create_named crowded).2.2 distinct _⟩

end Document

end QueryEditor
