import QueryEditor.Proofs.DeclaredType
import QueryEditor.Schema.Introspection

namespace QueryEditor.Introspection

namespace TypeReference

open DeclaredType

def isWrapper (reference : TypeReference) : Bool :=
  reference.kind = .list || reference.kind = .nonNull

def ofType : TypeReference → Option TypeReference
  | mk _ _ ofType => ofType

/-- A reference and what it leads to, through lists and marks, down to the first that is neither. -/
def chain : TypeReference → List TypeReference
  | mk .list name (some item) => mk .list name (some item) :: item.chain
  | mk .nonNull name (some type) => mk .nonNull name (some type) :: type.chain
  | reference => [reference]

/-- A list or mark stands around something, a mark not directly around another, and what is neither list
nor mark has a name. -/
structure Proper (node : TypeReference) : Prop where
  filled : node.isWrapper = true → node.ofType.isSome = true
  single : node.kind = .nonNull → ∀ inner ∈ node.ofType, inner.kind ≠ .nonNull
  named : node.isWrapper = false → node.name.isSome = true

/-- The written type that a reference spells, level by level. -/
inductive Spells : TypeReference → TypeRef → Prop where
  | named {kind : Kind} {ofType : Option TypeReference} (name : String)
      (plain : (mk kind (some name) ofType).isWrapper = false) :
      Spells (mk kind (some name) ofType) (.named name)
  | list {name : Option String} {item : TypeReference} {type : TypeRef} (inside : Spells item type) :
      Spells (mk .list name (some item)) (.list type)
  | nonNull {name : Option String} {marked : TypeReference} {type : TypeRef}
      (inside : Spells marked type) : Spells (mk .nonNull name (some marked)) (.nonNull type)

theorem isWrapper_eq_false {reference : TypeReference} :
    reference.isWrapper = false ↔ reference.kind ≠ .list ∧ reference.kind ≠ .nonNull := by
  rw [isWrapper, Bool.or_eq_false_iff, decide_eq_false_iff_not, decide_eq_false_iff_not]

section Spells

variable {kind : Kind} {name : Option String} {ofType : Option TypeReference}
  {reference inner : TypeReference} {type : TypeRef}

theorem spells_list :
    (mk .list name (some inner)).Spells type ↔ ∃ item, inner.Spells item ∧ type = .list item := by
  constructor
  · intro spells
    cases spells with
    | named _ plain => cases plain
    | list inside => exact ⟨_, inside, rfl⟩
  · rintro ⟨item, inside, rfl⟩
    exact .list inside

theorem spells_nonNull :
    (mk .nonNull name (some inner)).Spells type ↔ ∃ bare, inner.Spells bare ∧ type = .nonNull bare := by
  constructor
  · intro spells
    cases spells with
    | named _ plain => cases plain
    | nonNull inside => exact ⟨_, inside, rfl⟩
  · rintro ⟨bare, inside, rfl⟩
    exact .nonNull inside

theorem spells_named (plain : (mk kind name ofType).isWrapper = false) :
    (mk kind name ofType).Spells type ↔ ∃ called, name = some called ∧ type = .named called := by
  constructor
  · intro spells
    cases spells with
    | named called => exact ⟨called, rfl, rfl⟩
    | list => cases plain
    | nonNull => cases plain
  · rintro ⟨called, rfl, rfl⟩
    exact .named called plain

theorem not_spells_empty (wrapper : (mk kind name none).isWrapper = true) :
    ¬ (mk kind name none).Spells type := by
  intro spells
  cases spells with
  | named _ plain =>
    rw [plain] at wrapper
    cases wrapper

theorem Spells.isNonNull_iff (spells : reference.Spells type) :
    type.isNonNull = true ↔ reference.kind = .nonNull := by
  cases spells with
  | named name plain =>
    exact ⟨nofun, fun mark => absurd mark (isWrapper_eq_false.mp plain).2⟩
  | list inside => exact ⟨nofun, nofun⟩
  | nonNull inside => exact ⟨fun _ => rfl, fun _ => rfl⟩

theorem Spells.unique {other : TypeRef} (left : reference.Spells type)
    (right : reference.Spells other) : type = other := by
  induction left generalizing other with
  | named name plain =>
    rcases (spells_named plain).mp right with ⟨called, same, rfl⟩
    cases same
    rfl
  | list inside ih =>
    rcases spells_list.mp right with ⟨item, further, rfl⟩
    rw [ih further]
  | nonNull inside ih =>
    rcases spells_nonNull.mp right with ⟨bare, further, rfl⟩
    rw [ih further]

theorem Spells.nonNull_isRegular (spells : reference.Spells type) :
    (TypeRef.nonNull type).isRegular = true ↔ reference.kind ≠ .nonNull ∧ type.isRegular = true := by
  rw [TypeRef.isRegular, Bool.and_eq_true, Bool.not_eq_true', ← Bool.not_eq_true, spells.isNonNull_iff]

end Spells

theorem declared?_eq_some {nullable : Bool} {reference : TypeReference} {declared : DeclaredType} :
    reference.declared? nullable = some declared ↔ ∃ type, reference.Spells type ∧
      (marked nullable type).isRegular = true ∧ declared = .ofTypeRef nullable type := by
  fun_induction declared? nullable reference generalizing declared with
  | case1 nullable name item ih =>
    rw [Option.map_eq_some_iff]
    constructor
    · rintro ⟨inner, taken, rfl⟩
      rcases ih.mp taken with ⟨type, inside, regular, rfl⟩
      exact ⟨.list type, .list inside, marked_isRegular.mpr ⟨regular, fun _ => rfl⟩, rfl⟩
    · rintro ⟨_, spells, regular, rfl⟩
      rcases spells_list.mp spells with ⟨type, inside, rfl⟩
      exact ⟨_, ih.mpr ⟨type, inside, (marked_isRegular.mp regular).1, rfl⟩, rfl⟩
  | case2 nullable name =>
    refine ⟨nofun, ?_⟩
    rintro ⟨_, spells, -⟩
    exact absurd spells (not_spells_empty rfl)
  | case3 nullable name type doubled =>
    refine ⟨nofun, ?_⟩
    rintro ⟨_, spells, regular, -⟩
    rcases spells_nonNull.mp spells with ⟨bare, inside, rfl⟩
    rcases marked_isRegular.mp regular with ⟨single, unmarked⟩
    have apart := (inside.nonNull_isRegular.mp single).1
    cases nullable with
    | false => cases unmarked rfl
    | true => exact absurd (decide_eq_true_eq.mp doubled) apart
  | case4 nullable name type single ih =>
    have unmarked : nullable = true := by
      cases nullable with
      | false => exact absurd rfl single
      | true => rfl
    subst unmarked
    constructor
    · intro taken
      rcases ih.mp taken with ⟨bare, inside, regular, rfl⟩
      exact ⟨.nonNull bare, .nonNull inside, regular, rfl⟩
    · rintro ⟨_, spells, regular, rfl⟩
      rcases spells_nonNull.mp spells with ⟨bare, inside, rfl⟩
      exact ih.mpr ⟨bare, inside, regular, rfl⟩
  | case5 nullable name =>
    refine ⟨nofun, ?_⟩
    rintro ⟨_, spells, -⟩
    exact absurd spells (not_spells_empty rfl)
  | case6 nullable kind name ofType noItem noList noMarked noMark =>
    have plain : (mk kind name ofType).isWrapper = false := by
      rw [isWrapper_eq_false]
      constructor
      · rintro rfl
        cases ofType with
        | none => exact noList rfl rfl
        | some item => exact noItem item rfl rfl
      · rintro rfl
        cases ofType with
        | none => exact noMark rfl rfl
        | some type => exact noMarked type rfl rfl
    rw [Option.map_eq_some_iff]
    constructor
    · rintro ⟨called, rfl, rfl⟩
      exact ⟨.named called, .named called plain, marked_isRegular.mpr ⟨rfl, fun _ => rfl⟩, rfl⟩
    · rintro ⟨_, spells, -, rfl⟩
      rcases (spells_named plain).mp spells with ⟨called, rfl, rfl⟩
      exact ⟨called, rfl, rfl⟩

theorem proper_chain_iff {reference : TypeReference} :
    (∀ node ∈ reference.chain, node.Proper) ↔
      ∃ type, reference.Spells type ∧ type.isRegular = true := by
  fun_induction chain reference with
  | case1 name item ih =>
    have proper : (mk .list name (some item)).Proper := ⟨fun _ => rfl, nofun, nofun⟩
    rw [List.forall_mem_cons, ih]
    constructor
    · rintro ⟨-, type, inside, regular⟩
      exact ⟨.list type, .list inside, regular⟩
    · rintro ⟨_, spells, regular⟩
      rcases spells_list.mp spells with ⟨type, inside, rfl⟩
      exact ⟨proper, type, inside, regular⟩
  | case2 name type ih =>
    rw [List.forall_mem_cons, ih]
    constructor
    · rintro ⟨proper, bare, inside, regular⟩
      have apart := proper.single rfl type rfl
      exact ⟨.nonNull bare, .nonNull inside, inside.nonNull_isRegular.mpr ⟨apart, regular⟩⟩
    · rintro ⟨_, spells, regular⟩
      rcases spells_nonNull.mp spells with ⟨bare, inside, rfl⟩
      rcases inside.nonNull_isRegular.mp regular with ⟨apart, regular⟩
      refine ⟨⟨fun _ => rfl, ?_, nofun⟩, bare, inside, regular⟩
      rintro - inner held
      cases held
      exact apart
  | case3 reference noItem noMarked =>
    obtain ⟨kind, name, ofType⟩ := reference
    rw [List.forall_mem_singleton]
    cases wrapper : (mk kind name ofType).isWrapper with
    | true =>
      have empty : ofType = none := by
        cases ofType with
        | none => rfl
        | some inner =>
          rcases (Bool.or_eq_true _ _).mp wrapper with list | mark
          · cases of_decide_eq_true list
            exact absurd rfl (noItem name inner)
          · cases of_decide_eq_true mark
            exact absurd rfl (noMarked name inner)
      subst empty
      constructor
      · intro proper
        cases proper.filled wrapper
      · rintro ⟨type, spells, -⟩
        exact absurd spells (not_spells_empty wrapper)
    | false =>
      constructor
      · intro proper
        rcases Option.isSome_iff_exists.mp (proper.named wrapper) with ⟨called, rfl⟩
        exact ⟨.named called, .named called wrapper, rfl⟩
      · rintro ⟨type, spells, -⟩
        rcases (spells_named wrapper).mp spells with ⟨called, rfl, rfl⟩
        refine ⟨fun held => ?_, fun mark => ?_, fun _ => rfl⟩
        · exact absurd held (Bool.eq_false_iff.mp wrapper)
        · exact absurd mark (isWrapper_eq_false.mp wrapper).2

end TypeReference

open TypeReference

theorem declaredType_ok {owner : String} {reference : TypeReference} {declared : DeclaredType} :
    declaredType owner reference = .ok declared ↔ ∃ written, reference.Spells written ∧
      written.isRegular = true ∧ declared = .ofTypeRef true written := by
  have taken : declaredType owner reference = .ok declared ↔
      reference.declared? true = some declared := by
    rw [declaredType]
    cases reference.declared? true <;> simp
  rw [taken, declared?_eq_some]
  rfl

/-- A reference is taken exactly if it is proper all along. It then stands for the same declared type as
the one written type that it spells does in schema text, and nothing of that is lost. -/
theorem declaredType_written (owner : String) (reference : TypeReference) :
    ((∃ declared, declaredType owner reference = .ok declared) ↔
      ∀ node ∈ reference.chain, node.Proper) ∧
    (∀ declared, declaredType owner reference = .ok declared →
      ∃ written, reference.Spells written ∧ (∀ other, reference.Spells other → other = written) ∧
        declared = .ofTypeRef true written ∧ declared.toTypeRef = written) ∧
    ((¬ ∀ node ∈ reference.chain, node.Proper) →
      declaredType owner reference = .error (.malformedTypeReference owner)) := by
  have accepted : (∃ declared, declaredType owner reference = .ok declared) ↔
      ∀ node ∈ reference.chain, node.Proper := by
    rw [proper_chain_iff]
    constructor
    · rintro ⟨declared, taken⟩
      rcases declaredType_ok.mp taken with ⟨written, spells, regular, -⟩
      exact ⟨written, spells, regular⟩
    · rintro ⟨written, spells, regular⟩
      exact ⟨_, declaredType_ok.mpr ⟨written, spells, regular, rfl⟩⟩
  refine ⟨accepted, ?_, ?_⟩
  · intro declared taken
    rcases declaredType_ok.mp taken with ⟨written, spells, regular, rfl⟩
    exact ⟨written, spells, fun _ other => other.unique spells, rfl,
      DeclaredType.toTypeRef_ofTypeRef regular⟩
  · intro improper
    cases outcome : declaredType owner reference with
    | ok declared => exact absurd (accepted.mp ⟨declared, outcome⟩) improper
    | error cause =>
      rw [declaredType] at outcome
      split at outcome
      · cases outcome
      · exact outcome.symm

/-- A list with marks on both levels is taken, a mark on a mark is not. -/
theorem declaredType_written_nested :
    let marked (type : TypeReference) : TypeReference := .mk .nonNull none (some type)
    let int : TypeReference := .mk .scalar (some "Int") none
    let items : TypeReference := marked (.mk .list none (some (marked int)))
    (∃ written, items.Spells written ∧ (∀ other, items.Spells other → other = written) ∧
      DeclaredType.list (.named "Int" false) false = .ofTypeRef true written ∧
      (DeclaredType.list (.named "Int" false) false).toTypeRef = written) ∧
    (¬ ∀ node ∈ (marked (marked int)).chain, node.Proper) ∧
      declaredType "Query.count" (marked (marked int)) = .error (.malformedTypeReference "Query.count") := by
  intro marked int items
  have taken : declaredType "Query.count" items = .ok (.list (.named "Int" false) false) := rfl
  have improper : ¬ ∀ node ∈ (marked (marked int)).chain, node.Proper := by
    intro proper
    exact (proper _ List.mem_cons_self).single rfl (marked int) rfl rfl
  exact ⟨(declaredType_written "Query.count" items).2.1 _ taken, improper,
    (declaredType_written "Query.count" (marked (marked int))).2.2 improper⟩

end QueryEditor.Introspection
