import QueryEditor.Document.Parser
import QueryEditor.Proofs.Token.Consumed

namespace QueryEditor.Grammar

open Reader

variable {constant : Bool} {levels : Nat}

theorem consumes_slot {read : Reader Value} (consumes : Consumes 1 read) : Consumes 1 (slot read) := by
  refine ⟨fun {tokens rest s} found => ?_⟩
  unfold slot at found
  split at found
  · obtain ⟨⟨v, after⟩, taken, same⟩ := Option.bind_eq_some_iff.mp found
    cases same
    have inside := consumes.of taken
    simp only [List.length_cons]
    omega
  · cases found
    exact Nat.le_refl _
  · cases found

theorem consumes_valueOver {inner : Reader Value} (consumes : Consumes 1 inner) :
    Consumes 1 (valueOver constant inner) := by
  refine ⟨fun {tokens rest v} found => ?_⟩
  unfold valueOver at found
  split at found
  case h_1 =>
    split at found
    · cases found
    · cases found
      simp only [List.length_cons]
      omega
  case h_6 =>
    obtain ⟨⟨items, after⟩, taken, same⟩ := Option.bind_eq_some_iff.mp found
    cases same
    have inside := (consumes.closedBy _).of taken
    rw [List.length_cons]
    omega
  case h_7 =>
    obtain ⟨⟨fields, after⟩, taken, same⟩ := Option.bind_eq_some_iff.mp found
    cases same
    have inside := ((consumes_slot consumes).closedBy _).of taken
    rw [List.length_cons]
    omega
  case h_8 => cases found
  -- A single token is the whole value.
  all_goals
    cases found
    exact Nat.le_refl _

theorem consumes_value : Consumes 1 (value constant levels) := by
  induction levels with
  | zero => exact consumes_valueOver ⟨fun found => nomatch found⟩
  | succ levels ih => exact consumes_valueOver ih

theorem consumes_arguments : Consumes 0 (arguments constant levels) := by
  refine Consumes.whenever (show Consumes 1 _ from ⟨fun {tokens rest slots} found => ?_⟩) _ _
  obtain ⟨⟨_, behind⟩, opening, found⟩ := Option.bind_eq_some_iff.mp found
  obtain ⟨⟨inside, after⟩, taken, same⟩ := Option.bind_eq_some_iff.mp found
  cases same
  have mark := (consumes_symbol _).of opening
  have slots := ((consumes_slot consumes_value).someClosedBy _).of taken
  omega

theorem consumes_directive : Consumes 1 (directive constant levels) := by
  refine ⟨fun {tokens rest d} found => ?_⟩
  obtain ⟨⟨_, behind⟩, mark, found⟩ := Option.bind_eq_some_iff.mp found
  obtain ⟨⟨name, behindName⟩, called, found⟩ := Option.bind_eq_some_iff.mp found
  obtain ⟨⟨slots, after⟩, taken, same⟩ := Option.bind_eq_some_iff.mp found
  cases same
  have first := (consumes_symbol _).of mark
  have second := consumes_name.of called
  have further := consumes_arguments.of taken
  omega

theorem consumes_directives : Consumes 0 (directives constant levels) :=
  consumes_directive.many _

theorem consumes_typeCondition : Consumes 1 typeCondition := by
  refine ⟨fun {tokens rest type} found => ?_⟩
  obtain ⟨⟨_, behind⟩, word, called⟩ := Option.bind_eq_some_iff.mp found
  have first := (consumes_keyword _).of word
  have second := consumes_name.of called
  omega

section Selections

variable {set : Reader (List Selection)} (consumes : Consumes 1 set)
include consumes

theorem consumes_field (aliasName : Option String) (name : String) :
    Consumes 0 (selectionOver.field levels set aliasName name) := by
  refine ⟨fun {tokens rest s} found => ?_⟩
  obtain ⟨⟨slots, behindSlots⟩, argued, found⟩ := Option.bind_eq_some_iff.mp found
  obtain ⟨⟨ds, behindDirectives⟩, marked, found⟩ := Option.bind_eq_some_iff.mp found
  obtain ⟨⟨children, after⟩, taken, same⟩ := Option.bind_eq_some_iff.mp found
  cases same
  have first := consumes_arguments.of argued
  have second := consumes_directives.of marked
  have third := (consumes.whenever _ _).of taken
  omega

theorem consumes_selectionOver : Consumes 1 (selectionOver levels set) := by
  refine ⟨fun {tokens rest s} found => ?_⟩
  unfold selectionOver at found
  split at found
  case h_1 behind =>
    rw [List.length_cons]
    split at found
    · cases found
    · split at found
      · obtain ⟨⟨fragment, _⟩, called, found⟩ := Option.bind_eq_some_iff.mp found
        obtain ⟨⟨ds, after⟩, marked, same⟩ := Option.bind_eq_some_iff.mp found
        cases same
        have first := consumes_name.of called
        have second := consumes_directives.of marked
        omega
      · obtain ⟨⟨condition, _⟩, typed, found⟩ := Option.bind_eq_some_iff.mp found
        obtain ⟨⟨ds, behindDirectives⟩, marked, found⟩ := Option.bind_eq_some_iff.mp found
        obtain ⟨⟨children, after⟩, taken, same⟩ := Option.bind_eq_some_iff.mp found
        cases same
        have first := (consumes_typeCondition.optional _).of typed
        have second := consumes_directives.of marked
        have third := consumes.of taken
        omega
  case h_2 aliasName _ behind =>
    obtain ⟨⟨called, after⟩, name', found⟩ := Option.bind_eq_some_iff.mp found
    have first := consumes_name.of name'
    have second := (consumes_field consumes _ _).of found
    simp only [List.length_cons]
    omega
  case h_3 called _ behind _ =>
    have further := (consumes_field consumes _ _).of found
    rw [List.length_cons]
    omega
  · cases found

end Selections

theorem consumes_selectionSet : Consumes 1 (selectionSet levels) := by
  induction levels with
  | zero => exact ⟨fun found => nomatch found⟩
  | succ levels ih =>
    refine ⟨fun {tokens rest selections} found => ?_⟩
    obtain ⟨⟨_, behind⟩, opening, taken⟩ := Option.bind_eq_some_iff.mp found
    have mark := (consumes_symbol _).of opening
    have inside := ((consumes_selectionOver ih).someClosedBy _).of taken
    omega

theorem nonNullMark_length (type : TypeRef) (tokens : List Lexeme) :
    (nonNullMark type tokens).2.length ≤ tokens.length := by
  unfold nonNullMark
  split
  · exact Nat.le_succ _
  · exact Nat.le_refl _

theorem consumes_typeRefOver {inner : Reader TypeRef} (consumes : Consumes 1 inner) :
    Consumes 1 (typeRefOver inner) := by
  refine ⟨fun {tokens rest type} found => ?_⟩
  unfold typeRefOver at found
  split at found
  case h_1 name _ behind =>
    have marked := nonNullMark_length (.named name) behind
    rw [Option.some.inj found] at marked
    rw [List.length_cons]
    exact Nat.succ_le_succ marked
  case h_2 behind =>
    obtain ⟨⟨item, behindItem⟩, taken, found⟩ := Option.bind_eq_some_iff.mp found
    obtain ⟨⟨_, after⟩, closing, found⟩ := Option.bind_eq_some_iff.mp found
    have inside := consumes.of taken
    have mark := (consumes_symbol _).of closing
    have marked := nonNullMark_length (.list item) after
    dsimp only at found
    rw [Option.some.inj found] at marked
    dsimp only at marked
    rw [List.length_cons]
    omega
  · cases found

theorem consumes_typeRef : Consumes 1 (typeRef levels) := by
  induction levels with
  | zero => exact consumes_typeRefOver ⟨fun found => nomatch found⟩
  | succ levels ih => exact consumes_typeRefOver ih

theorem consumes_defaultValue : Consumes 0 defaultValue := by
  refine Consumes.whenever (show Consumes 1 _ from ⟨fun {tokens rest default?} found => ?_⟩) _ _
  obtain ⟨⟨_, behind⟩, mark, found⟩ := Option.bind_eq_some_iff.mp found
  obtain ⟨⟨v, after⟩, taken, same⟩ := Option.bind_eq_some_iff.mp found
  cases same
  have first := (consumes_symbol _).of mark
  have second := consumes_value.of taken
  omega

theorem consumes_variableDefinition : Consumes 1 variableDefinition := by
  refine ⟨fun {tokens rest d} found => ?_⟩
  obtain ⟨⟨_, _⟩, mark, found⟩ := Option.bind_eq_some_iff.mp found
  obtain ⟨⟨name, _⟩, called, found⟩ := Option.bind_eq_some_iff.mp found
  obtain ⟨⟨_, _⟩, colon, found⟩ := Option.bind_eq_some_iff.mp found
  obtain ⟨⟨type, _⟩, typed, found⟩ := Option.bind_eq_some_iff.mp found
  obtain ⟨⟨default?, _⟩, initial, found⟩ := Option.bind_eq_some_iff.mp found
  obtain ⟨⟨_, _⟩, marked, same⟩ := Option.bind_eq_some_iff.mp found
  cases same
  have dollar := (consumes_symbol _).of mark
  have variableName := consumes_name.of called
  have between := (consumes_symbol _).of colon
  have ofType := consumes_typeRef.of typed
  have behindType := consumes_defaultValue.of initial
  have last := consumes_directives.of marked
  omega

theorem consumes_variableDefinitions : Consumes 0 variableDefinitions := by
  refine Consumes.whenever (show Consumes 1 _ from ⟨fun {tokens rest ds} found => ?_⟩) _ _
  obtain ⟨⟨_, behind⟩, opening, taken⟩ := Option.bind_eq_some_iff.mp found
  have mark := (consumes_symbol _).of opening
  have inside := (consumes_variableDefinition.someClosedBy _).of taken
  omega

theorem consumes_operationKind : Consumes 1 operationKind := by
  refine ⟨fun {tokens rest kind} found => ?_⟩
  obtain ⟨⟨word, behind⟩, called, found⟩ := Option.bind_eq_some_iff.mp found
  obtain ⟨kind', _, same⟩ := Option.bind_eq_some_iff.mp found
  cases same
  exact consumes_name.of called

theorem consumes_operation : Consumes 1 operation := by
  refine ⟨fun {tokens rest op} found => ?_⟩
  unfold operation at found
  split at found
  · obtain ⟨⟨selections, after⟩, taken, same⟩ := Option.bind_eq_some_iff.mp found
    cases same
    exact consumes_selectionSet.of taken
  · obtain ⟨⟨kind, _⟩, word, found⟩ := Option.bind_eq_some_iff.mp found
    obtain ⟨⟨name, _⟩, called, found⟩ := Option.bind_eq_some_iff.mp found
    obtain ⟨⟨declarations, _⟩, declared, found⟩ := Option.bind_eq_some_iff.mp found
    obtain ⟨⟨ds, _⟩, marked, found⟩ := Option.bind_eq_some_iff.mp found
    obtain ⟨⟨selections, _⟩, taken, same⟩ := Option.bind_eq_some_iff.mp found
    cases same
    have keyword := consumes_operationKind.of word
    have behindKeyword := (consumes_name.optional _).of called
    have behindName := consumes_variableDefinitions.of declared
    have behindDeclarations := consumes_directives.of marked
    have last := consumes_selectionSet.of taken
    omega

theorem consumes_fragment : Consumes 1 fragment := by
  refine ⟨fun {tokens rest frag} found => ?_⟩
  obtain ⟨⟨name, _⟩, called, found⟩ := Option.bind_eq_some_iff.mp found
  obtain ⟨⟨condition, _⟩, typed, found⟩ := Option.bind_eq_some_iff.mp found
  obtain ⟨⟨ds, _⟩, marked, found⟩ := Option.bind_eq_some_iff.mp found
  obtain ⟨⟨selections, _⟩, taken, same⟩ := Option.bind_eq_some_iff.mp found
  cases same
  obtain ⟨⟨name', _⟩, called, found⟩ := Option.bind_eq_some_iff.mp called
  dsimp only at found
  split at found
  · cases found
  · cases found
    have first := consumes_name.of called
    have second := consumes_typeCondition.of typed
    have third := consumes_directives.of marked
    have last := consumes_selectionSet.of taken
    omega

def executable : Reader Definition := fun tokens => do
  let (definition?, rest) ← definition tokens
  some (← definition?, rest)

theorem executable_eq_some {tokens rest : List Lexeme} {d : Definition} :
    executable tokens = some (d, rest) ↔ definition tokens = some (some d, rest) := by
  unfold executable
  cases definition tokens with
  | none => simp
  | some answer =>
    obtain ⟨definition?, after⟩ := answer
    cases definition? <;> simp

theorem consumes_executable : Consumes 1 executable := by
  refine ⟨fun {tokens rest d} found => ?_⟩
  have taken := executable_eq_some.mp found
  unfold definition at taken
  split at taken
  · obtain ⟨⟨op, after⟩, taken, same⟩ := Option.bind_eq_some_iff.mp taken
    cases same
    exact consumes_operation.of taken
  · split at taken
    case h_1 behind keyword =>
      obtain ⟨⟨frag, after⟩, taken, same⟩ := Option.bind_eq_some_iff.mp taken
      cases same
      have inside := consumes_fragment.of taken
      have shorter : behind.length < tokens.length := by
        unfold behindFragmentKeyword? at keyword
        split at keyword
        · cases keyword
          exact Nat.lt_succ_self _
        · split at keyword
          · cases keyword
            exact Nat.lt_succ_self _
          · cases keyword
        · cases keyword
      omega
    case h_2 =>
      obtain ⟨after, _, same⟩ := Option.bind_eq_some_iff.mp taken
      cases same

theorem rounds_executable {goesOn : List Lexeme → Bool} {steps : Nat} {tokens rest : List Lexeme}
    {ds : List Definition} :
    rounds goesOn executable steps tokens = some (ds, rest) ↔
      rounds goesOn definition steps tokens = some (ds.map some, rest) := by
  induction steps generalizing tokens ds with
  | zero =>
    rw [rounds, rounds]
    split
    · simp
    · cases ds <;> simp
  | succ steps ih =>
    rw [rounds, rounds]
    split
    case isFalse => cases ds <;> simp
    case isTrue =>
      simp only [Option.bind_eq_bind, Option.bind_eq_some_iff, Prod.exists, Option.some.injEq,
        Prod.mk.injEq]
      constructor
      · rintro ⟨d, middle, taken, others, after, further, rfl, rfl⟩
        exact ⟨some d, middle, executable_eq_some.mp taken, others.map some, after, ih.mp further,
          rfl, rfl⟩
      · rintro ⟨definition?, middle, taken, others?, after, further, same, rfl⟩
        cases ds with
        | nil => cases same
        | cons d ds =>
          cases same
          exact ⟨d, middle, executable_eq_some.mpr taken, ds, after, ih.mpr further, rfl, rfl⟩

/-- The definitions of a document are the operations and fragments that its tokens hold, one after the
other to the end. -/
theorem definitions_eq_some {tokens : List Lexeme} {ds : List Definition} :
    definitions tokens = some (ds.map some) ↔
      ds ≠ [] ∧ ∃ rest, many (!·.isEmpty) executable tokens = some (ds, rest) := by
  rw [definitions]
  simp only [many, rounds_executable, Option.bind_eq_bind, Option.bind_eq_some_iff, Prod.exists]
  constructor
  · rintro ⟨all, rest, taken, same⟩
    split at same
    · cases same
    case isFalse nonempty =>
      cases same
      exact ⟨by simpa using nonempty, rest, taken⟩
  · rintro ⟨nonempty, rest, taken⟩
    exact ⟨ds.map some, rest, taken, by simp [nonempty]⟩

end QueryEditor.Grammar
