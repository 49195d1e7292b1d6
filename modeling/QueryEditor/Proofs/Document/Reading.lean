import QueryEditor.Document.Parser
import QueryEditor.Proofs.Document.Lexemes
import QueryEditor.Proofs.Token.Repetition

namespace QueryEditor

open Text Lexeme Reader

abbrev Check.finite : Check :=
  grammatical Binary64.isFinite

namespace Grammar

def innerValue (constant : Bool) : Nat → Reader Value
  | 0 => fun _ => none
  | levels + 1 => value constant levels

theorem value_eq (constant : Bool) (levels : Nat) :
    value constant levels = valueOver constant (innerValue constant levels) := by
  cases levels <;> rfl

theorem namedValue_enum {name : String} (plain : isLiteralWord name = false) :
    namedValue name = .enum name := by
  simp only [isLiteralWord, Bool.or_eq_false_iff, beq_eq_false_iff_ne] at plain
  unfold namedValue
  split
  · exact absurd rfl plain.1.1
  · exact absurd rfl plain.1.2
  · exact absurd rfl plain.2
  · rfl

theorem startsWith_value {mark : Symbol}
    (other : mark ≠ .dollar ∧ mark ≠ .openBracket ∧ mark ≠ .openBrace) (v : Value)
    (afterComma : Bool) (after : List Lexeme) :
    startsWith mark (v.lexemes afterComma ++ after) = false := by
  obtain ⟨dollar, bracket, brace⟩ := other
  cases v with
  | float number => cases finite : number.isFinite <;> simp [Value.lexemes, startsWith, finite]
  | _ => simp [Value.lexemes, startsWith, Ne.symm dollar, Ne.symm bracket, Ne.symm brace]

theorem slot_takes {read : Reader Value} {s : Slot}
    (value : Takes read [] (s.value.lexemes ·) s.value) :
    Takes (slot read) [] (Value.lexemesOfSlot · s) (some s) where
  reads afterComma after _ := by
    simp [Value.lexemesOfSlot, slot, value.reads false after rfl]
  begins _ _ := rfl
  nonempty _ := by simp [Value.lexemesOfSlot]

theorem innerValue_takes {constant : Bool} {levels : Nat} {v : Value} (depth : v.depth < levels)
    (reads : ∀ fewer, v.depth ≤ fewer → ∀ afterComma after, avoids [] after = true →
      valueOver constant (innerValue constant fewer) (v.lexemes afterComma ++ after) =
        some (v, after)) : Takes (innerValue constant levels) [] (v.lexemes ·) v := by
  obtain ⟨fewer, rfl⟩ : ∃ fewer, levels = fewer + 1 := ⟨levels - 1, by omega⟩
  refine ⟨fun afterComma after follows => ?_, fun _ _ => rfl,
    fun _ => by cases v <;> simp [Value.lexemes]⟩
  rw [innerValue, value_eq]
  exact reads fewer (Nat.le_of_lt_succ depth) afterComma after follows

theorem value_takes {constant : Bool} {levels : Nat} {v : Value} (good : v.all .finite = true)
    (plain : constant = true → v.mentioned = []) (depth : v.depth ≤ levels) :
    Takes (value constant levels) [] (v.lexemes ·) v := by
  refine ⟨fun afterComma after _ => ?_, fun _ _ => rfl, fun _ => by cases v <;> simp [Value.lexemes]⟩
  rw [value_eq]
  induction v using Value.inductionOn generalizing levels afterComma after with
  | null => rfl
  | boolean truth => cases truth <;> rfl
  | int number => rfl
  | float number =>
    have finite : number.isFinite = true := good
    simp [Value.lexemes, finite, valueOver]
  | string content => rfl
  | enum name =>
    have named : (isName name && !isLiteralWord name) = true := good
    rw [Bool.and_eq_true, Bool.not_eq_true'] at named
    simp [Value.lexemes, valueOver, namedValue_enum named.2]
  | «variable» name =>
    have free : constant = false := by
      cases constant with
      | false => rfl
      | true => cases plain rfl
    simp [Value.lexemes, valueOver, free]
  | list items ih =>
    rw [Value.all, Bool.and_eq_true, Value.allItems_iff] at good
    rw [Value.depth_list_le] at depth
    have each : ∀ item ∈ items, Takes (innerValue constant levels) [] (item.lexemes ·) item :=
      fun item member => innerValue_takes (depth item member) fun _ fits =>
        ih item member (good.2 item member)
          (fun c => Value.mentioned_list.mp (plain c) item member) fits
    have inside := closedBy_series after .closeBracket each
      (fun item _ => startsWith_value (by decide) item) rfl
    simp [Value.lexemes, Value.lexemesOfItems_eq, valueOver, inside]
  | object fields ih =>
    rw [Value.all, Bool.and_eq_true, Value.allSlots_iff] at good
    rw [Value.depth_object_le] at depth
    have each : ∀ s ∈ fields,
        Takes (slot (innerValue constant levels)) [] (Value.lexemesOfSlot · s) (some s) :=
      fun s member => slot_takes (innerValue_takes (depth s member) fun _ fits =>
        ih s member (good.2 s member).2
          (fun c => Value.mentioned_object.mp (plain c) s member) fits)
    have inside := closedBy_series after .closeBrace each
      (fun s _ _ _ => rfl) rfl
    simp [Value.lexemes, Value.lexemesOfSlots_eq, valueOver, inside]

section Arguments

variable {levels : Nat}

theorem arguments_read {slots : List Slot} (good : Value.allSlots .finite slots = true)
    (depth : argumentsDepth slots ≤ levels) {after : List Lexeme}
    (follows : startsWith .openParen after = false) :
    arguments false levels (lexemesOfArguments slots ++ after) = some (slots, after) := by
  cases slots with
  | nil => exact whenever_absent follows
  | cons first others =>
    rw [Value.allSlots_iff] at good
    rw [argumentsDepth, deepest_le] at depth
    have inside := someClosedBy_series after .closeParen (List.cons_ne_nil first others)
      (fun s member => slot_takes
        (value_takes (good s member).2 (fun never : false = true => nomatch never) (depth s member)))
      (fun s _ _ _ => rfl) rfl
    rw [arguments, whenever_present (by rfl)]
    simp [lexemesOfArguments, inside]

theorem directive_takes {d : Directive} (good : d.all .finite = true)
    (depth : argumentsDepth d.arguments ≤ levels) :
    Takes (directive false levels) [.openParen] (fun _ => d.lexemes) d where
  reads _ after follows := by
    rw [Directive.all, Bool.and_eq_true] at good
    have inside := arguments_read good.2 depth (startsWith_of_avoids follows _ (by simp))
    simp [Directive.lexemes, directive, inside]
  begins _ _ := by simp [Directive.lexemes]
  nonempty _ := by simp [Directive.lexemes]

theorem directives_read {ds : List Directive} (good : ds.all (Directive.all .finite) = true)
    (depth : directivesDepth ds ≤ levels) {after : List Lexeme}
    (follows : avoids [.openParen, .atSign] after = true) :
    directives false levels (lexemesOfDirectives ds ++ after) = some (ds, after) := by
  rw [List.all_eq_true] at good
  rw [directivesDepth, deepest_le] at depth
  have open' := startsWith_of_avoids follows .openParen (by simp)
  have read := many_series (startsWith .atSign) after
    (fun d member => directive_takes (good d member) (depth d member))
    (fun d _ _ _ => by simp [Directive.lexemes]) (by simp [avoids, open'])
    (startsWith_of_avoids follows _ (by simp)) false
  rw [series_plain, List.map_id'] at read
  exact read

end Arguments

section Selections

variable {levels : Nat}

/-- The marks that would be taken for a part of the selection in front of them. -/
abbrev selectionMarks : List Symbol :=
  [.colon, .openParen, .atSign, .openBrace]

theorem avoids_lexemes (s : Selection) (after : List Lexeme) :
    avoids selectionMarks (s.lexemes ++ after) = true := by
  cases s with
  | field node =>
    rw [Selection.lexemes_field]
    cases node.aliasName <;> simp
  | spread node => simp [Selection.lexemes]
  | inline node =>
    rw [Selection.lexemes_inline]
    simp

theorem lexemes_ne_nil (s : Selection) : s.lexemes ≠ [] := by
  cases s with
  | field node => simp [Selection.lexemes_field]
  | spread node => simp [Selection.lexemes]
  | inline node => simp [Selection.lexemes_inline]

theorem startsWith_selection {mark : Symbol} (other : mark ≠ .ellipsis) (s : Selection)
    (after : List Lexeme) : startsWith mark (s.lexemes ++ after) = false := by
  cases s with
  | field node =>
    rw [Selection.lexemes_field]
    cases node.aliasName <;> simp
  | spread node => simp [Selection.lexemes, Ne.symm other]
  | inline node => simp [Selection.lexemes_inline, Ne.symm other]

theorem selectionSet_read {children : List Selection} (nonempty : children ≠ [])
    (each : ∀ child ∈ children, ∀ fewer, child.depth ≤ fewer →
      Takes (selectionOver fewer (selectionSet fewer)) selectionMarks (fun _ => child.lexemes) child)
    (depth : Selection.depthOfSet children ≤ levels) (after : List Lexeme) :
    selectionSet levels (Selection.lexemesOfSet children ++ after) = some (children, after) := by
  rw [Selection.depthOfSet_le] at depth
  obtain ⟨first, others, rfl⟩ := List.exists_cons_of_ne_nil nonempty
  obtain ⟨fewer, rfl⟩ : ∃ fewer, levels = fewer + 1 :=
    ⟨levels - 1, by have := depth first List.mem_cons_self; omega⟩
  have inside := someClosedBy_series after .closeBrace nonempty
    (fun child member => each child member fewer (Nat.le_of_lt_succ (depth child member)))
    (fun child _ _ => startsWith_selection (by decide) child) rfl
  rw [series_plain, List.map_id'] at inside
  have tokens : Selection.lexemesOfSet (first :: others) ++ after = ⟨.symbol .openBrace, false⟩ ::
      ((first :: others).flatMap Selection.lexemes ++ ⟨.symbol .closeBrace, false⟩ :: after) := by
    simp [Selection.lexemesOfSet, Selection.lexemesOfBraces]
  rw [tokens, selectionSet]
  simpa using inside

theorem children_read {children : List Selection}
    (each : ∀ child ∈ children, ∀ fewer, child.depth ≤ fewer →
      Takes (selectionOver fewer (selectionSet fewer)) selectionMarks (fun _ => child.lexemes) child)
    (depth : Selection.depthOfSet children ≤ levels) {after : List Lexeme}
    (follows : startsWith .openBrace after = false) :
    whenever (startsWith .openBrace) [] (selectionSet levels)
      (Selection.lexemesOfSet children ++ after) = some (children, after) := by
  cases children with
  | nil => exact whenever_absent follows
  | cons first others =>
    rw [whenever_present (by rfl)]
    exact selectionSet_read (List.cons_ne_nil first others) each depth after

theorem avoids_directives {marks : List Symbol} (other : marks.contains .atSign = false)
    (ds : List Directive) {rest : List Lexeme} (follows : avoids marks rest = true) :
    avoids marks (lexemesOfDirectives ds ++ rest) = true := by
  cases ds with
  | nil => exact follows
  | cons d ds =>
    have tokens : lexemesOfDirectives (d :: ds) ++ rest = ⟨.symbol .atSign, false⟩ ::
        (⟨.name d.name, false⟩ :: lexemesOfArguments d.arguments ++
          (lexemesOfDirectives ds ++ rest)) := by
      simp [lexemesOfDirectives, Directive.lexemes]
    rw [tokens, avoids_symbol, other]
    rfl

theorem avoids_arguments {marks : List Symbol} (other : marks.contains .openParen = false)
    (slots : List Slot) {rest : List Lexeme} (follows : avoids marks rest = true) :
    avoids marks (lexemesOfArguments slots ++ rest) = true := by
  cases slots with
  | nil => exact follows
  | cons first others =>
    rw [lexemesOfArguments, if_neg (by simp), List.cons_append, avoids_symbol, other]
    rfl

theorem avoids_set {marks : List Symbol} (other : marks.contains .openBrace = false)
    (children : List Selection) {rest : List Lexeme} (follows : avoids marks rest = true) :
    avoids marks (Selection.lexemesOfSet children ++ rest) = true := by
  cases children with
  | nil => exact follows
  | cons first others =>
    rw [Selection.lexemesOfSet, Selection.lexemesOfBraces, if_neg (by simp), List.cons_append,
      avoids_symbol, other]
    rfl

theorem avoids_fewer {marks more : List Symbol} (fewer : ∀ mark ∈ marks, mark ∈ more)
    {tokens : List Lexeme} (free : avoids more tokens = true) : avoids marks tokens = true := by
  rw [avoids, List.all_eq_true] at free ⊢
  exact fun mark member => free mark (fewer mark member)

theorem field_read {node : FieldSelection} (good : (Selection.field node).all .finite = true)
    (depth : (Selection.field node).depth ≤ levels)
    (each : ∀ child ∈ node.children, ∀ fewer, child.depth ≤ fewer →
      Takes (selectionOver fewer (selectionSet fewer)) selectionMarks (fun _ => child.lexemes) child)
    {after : List Lexeme} (follows : avoids selectionMarks after = true) :
    selectionOver.field levels (selectionSet levels) node.aliasName node.name
      (lexemesOfArguments node.arguments ++ (lexemesOfDirectives node.directives ++
        (Selection.lexemesOfSet node.children ++ after))) = some (.field node, after) := by
  simp only [Selection.all_field, Bool.and_eq_true] at good
  obtain ⟨⟨⟨_, arguments'⟩, directives'⟩, _⟩ := good
  obtain ⟨argumentsDepth, directivesDepth, setDepth⟩ := Selection.depth_field_le.mp depth
  have behindDirectives : avoids [.openParen, .atSign]
      (Selection.lexemesOfSet node.children ++ after) = true :=
    avoids_set rfl _ (avoids_fewer (by decide) follows)
  have behindArguments : avoids [.openParen] (lexemesOfDirectives node.directives ++
      (Selection.lexemesOfSet node.children ++ after)) = true :=
    avoids_directives rfl _ (avoids_fewer (by decide) behindDirectives)
  rw [selectionOver.field,
    arguments_read arguments' argumentsDepth (startsWith_of_avoids behindArguments _ (by simp))]
  simp only [Option.bind_eq_bind, Option.bind_some]
  rw [directives_read directives' directivesDepth behindDirectives, Option.bind_some,
    children_read each setDepth (startsWith_of_avoids follows _ (by simp))]
  rfl

theorem selectionOver_field {selectionSet : Reader (List Selection)} {name : String}
    {afterComma : Bool} {rest : List Lexeme} (plain : startsWith .colon rest = false) :
    selectionOver levels selectionSet (⟨.name name, afterComma⟩ :: rest) =
      selectionOver.field levels selectionSet none name rest := by
  rcases rest with _ | ⟨⟨token, comma⟩, rest⟩
  · rfl
  · cases token with
    | symbol mark =>
      have other : mark ≠ .colon := by rintro rfl; cases plain
      cases mark <;> first | rfl | exact absurd rfl other
    | _ => rfl

theorem leads_with_mark (ds : List Directive) {children : List Selection} (nonempty : children ≠ [])
    (after : List Lexeme) : ∃ mark more,
      lexemesOfDirectives ds ++ (Selection.lexemesOfSet children ++ after) =
        ⟨.symbol mark, false⟩ :: more := by
  obtain ⟨first, others, rfl⟩ := List.exists_cons_of_ne_nil nonempty
  cases ds with
  | nil => exact ⟨.openBrace, _, rfl⟩
  | cons d ds => exact ⟨.atSign, _, rfl⟩

theorem directives_lead {ds : List Directive} (good : ds.all (Directive.all .finite) = true)
    (depth : directivesDepth ds ≤ levels) {children : List Selection} (nonempty : children ≠ [])
    (after : List Lexeme) :
    directives false levels (lexemesOfDirectives ds ++ (Selection.lexemesOfSet children ++ after)) =
      some (ds, Selection.lexemesOfSet children ++ after) := by
  refine directives_read good depth ?_
  obtain ⟨first, others, rfl⟩ := List.exists_cons_of_ne_nil nonempty
  rfl

/-- A selection is read from its tokens, unless what follows could be a part of it. -/
theorem labelled_read {node : FieldSelection} (good : (Selection.field node).all .finite = true)
    (depth : (Selection.field node).depth ≤ levels)
    (each : ∀ child ∈ node.children, ∀ fewer, child.depth ≤ fewer →
      Takes (selectionOver fewer (selectionSet fewer)) selectionMarks (fun _ => child.lexemes) child)
    {after : List Lexeme} (follows : avoids selectionMarks after = true) :
    selectionOver levels (selectionSet levels) ((Selection.field node).lexemes ++ after) =
      some (.field node, after) := by
  have read := field_read good depth each follows
  rw [Selection.lexemes_field]
  cases label : node.aliasName with
  | some aliasName =>
    rw [label] at read
    simpa [selectionOver] using read
  | none =>
    rw [label] at read
    have behindName : startsWith .colon (lexemesOfArguments node.arguments ++
        (lexemesOfDirectives node.directives ++
          (Selection.lexemesOfSet node.children ++ after))) = false := by
      have free : avoids [.colon] after = true := avoids_fewer (by decide) follows
      exact startsWith_of_avoids (avoids_arguments rfl _ (avoids_directives rfl _
        (avoids_set rfl _ free))) _ List.mem_cons_self
    simpa [selectionOver_field behindName] using read

theorem spread_read {node : FragmentSpread} (good : (Selection.spread node).all .finite = true)
    (depth : (Selection.spread node).depth ≤ levels) {after : List Lexeme}
    (follows : avoids selectionMarks after = true) :
    selectionOver levels (selectionSet levels) ((Selection.spread node).lexemes ++ after) =
      some (.spread node, after) := by
  simp only [Selection.all_spread, Bool.and_eq_true] at good
  have proper : (isName node.fragment && node.fragment != "on") = true := good.1
  rw [Bool.and_eq_true, bne_iff_ne] at proper
  have notOn : (node.fragment == "on") = false := by simpa using proper.2
  have marked := directives_read good.2 depth (avoids_fewer (by decide) follows)
  simp [Selection.lexemes, selectionOver, followsDirectly, startsWithName, startsWithWord, notOn, marked]

theorem inline_read {node : InlineFragment} (good : (Selection.inline node).all .finite = true)
    (depth : (Selection.inline node).depth ≤ levels)
    (each : ∀ child ∈ node.children, ∀ fewer, child.depth ≤ fewer →
      Takes (selectionOver fewer (selectionSet fewer)) selectionMarks (fun _ => child.lexemes) child)
    (after : List Lexeme) :
    selectionOver levels (selectionSet levels) ((Selection.inline node).lexemes ++ after) =
      some (.inline node, after) := by
  obtain ⟨condition, ds, children⟩ := node
  simp only [Selection.all_inline, Bool.and_eq_true] at good
  obtain ⟨⟨own, directives'⟩, -⟩ := good
  obtain ⟨directivesDepth, setDepth⟩ := Selection.depth_inline_le.mp depth
  have nonempty : children ≠ [] := by
    have some : (condition.all isName && !children.isEmpty) = true := own
    rw [Bool.and_eq_true, Bool.not_eq_true', List.isEmpty_eq_false_iff] at some
    exact some.2
  have set := selectionSet_read nonempty each setDepth after
  have marked := directives_lead directives' directivesDepth nonempty after
  rw [Selection.lexemes_inline]
  cases condition with
  | none =>
    -- A mark follows the ellipsis, so that it is taken neither for a spread nor for a condition.
    obtain ⟨mark, more, lead⟩ := leads_with_mark ds nonempty after
    have direct : followsDirectly (lexemesOfDirectives ds ++
        (Selection.lexemesOfSet children ++ after)) = true := by
      rw [lead]
      rfl
    have unnamed : startsWithName (lexemesOfDirectives ds ++
        (Selection.lexemesOfSet children ++ after)) = false := by
      rw [lead]
      rfl
    simp [selectionOver, whenever, direct, unnamed, marked, set]
  | some type =>
    simp [selectionOver, whenever, followsDirectly, startsWithName, startsWithWord, typeCondition,
      marked, set]

theorem selection_takes {s : Selection} (good : s.all .finite = true) (depth : s.depth ≤ levels) :
    Takes (selectionOver levels (selectionSet levels)) selectionMarks (fun _ => s.lexemes) s := by
  refine ⟨fun _ after follows => ?_, fun _ => avoids_lexemes s, fun _ => lexemes_ne_nil s⟩
  induction s using Selection.inductionOn generalizing levels after with
  | field node ih =>
    have children := good
    simp only [Selection.all_field, Bool.and_eq_true, List.all_eq_true] at children
    exact labelled_read good depth (fun child member fewer depth =>
      ⟨fun _ after follows => ih child member (children.2 child member) depth after follows,
        fun _ => avoids_lexemes child, fun _ => lexemes_ne_nil child⟩) follows
  | spread node => exact spread_read good depth follows
  | inline node ih =>
    have children := good
    simp only [Selection.all_inline, Bool.and_eq_true, List.all_eq_true] at children
    exact inline_read good depth (fun child member fewer depth =>
      ⟨fun _ after follows => ih child member (children.2 child member) depth after follows,
        fun _ => avoids_lexemes child, fun _ => lexemes_ne_nil child⟩) after

end Selections

theorem nonNullMark_absent (type : TypeRef) {after : List Lexeme}
    (follows : startsWith .bang after = false) : nonNullMark type after = (type, after) := by
  unfold nonNullMark
  split
  · cases follows
  · rfl

theorem typeRef_eq (levels : Nat) :
    typeRef levels = typeRefOver (levels.casesOn (fun _ => none) typeRef) := by
  cases levels <;> rfl

theorem typeRef_read {type : TypeRef} (regular : type.isRegular = true) {levels : Nat}
    (depth : type.depth ≤ levels) (after : List Lexeme) :
    (type.isNonNull = false →
      typeRef levels (type.lexemes ++ after) = some (nonNullMark type after)) ∧
    (startsWith .bang after = false → typeRef levels (type.lexemes ++ after) = some (type, after)) := by
  induction type generalizing levels after with
  | named name =>
    have read : typeRef levels ((TypeRef.named name).lexemes ++ after) =
        some (nonNullMark (.named name) after) := by
      rw [typeRef_eq]
      rfl
    exact ⟨fun _ => read, fun follows => by rw [read, nonNullMark_absent _ follows]⟩
  | list item ih =>
    obtain ⟨fewer, rfl⟩ : ∃ fewer, levels = fewer + 1 :=
      ⟨levels - 1, by rw [TypeRef.depth] at depth; omega⟩
    have inside := (ih regular (Nat.le_of_succ_le_succ depth)
      (⟨.symbol .closeBracket, false⟩ :: after)).2 rfl
    have read : typeRef (fewer + 1) ((TypeRef.list item).lexemes ++ after) =
        some (nonNullMark (.list item) after) := by
      simp [TypeRef.lexemes, typeRef, typeRefOver, inside]
    exact ⟨fun _ => read, fun follows => by rw [read, nonNullMark_absent _ follows]⟩
  | nonNull type ih =>
    rw [TypeRef.isRegular, Bool.and_eq_true, Bool.not_eq_true'] at regular
    refine ⟨nofun, fun _ => ?_⟩
    have marked := (ih regular.2 depth (⟨.symbol .bang, false⟩ :: after)).1 regular.1
    rw [TypeRef.lexemes, List.append_assoc, List.singleton_append, marked]
    rfl

section Definitions

abbrev declarationMarks : List Symbol :=
  [.bang, .equals, .atSign]

theorem no_directives (constant : Bool) (levels : Nat) {after : List Lexeme}
    (follows : startsWith .atSign after = false) :
    directives constant levels after = some ([], after) := by
  rw [directives, many]
  cases after <;> simp [rounds, follows]

theorem variableDefinition_takes {d : VariableDefinition} (good : d.all .finite = true)
    (depth : d.depth ≤ maxDepth) :
    Takes variableDefinition declarationMarks (d.lexemes ·) d := by
  obtain ⟨name, type, default?⟩ := d
  simp only [VariableDefinition.all, Check.finite, Check.grammatical, Bool.and_eq_true] at good
  obtain ⟨⟨⟨⟨_, _⟩, regular⟩, constant⟩, default'⟩ := good
  rw [VariableDefinition.depth, Nat.max_le] at depth
  refine ⟨fun afterComma after follows => ?_, fun _ _ => by simp [VariableDefinition.lexemes],
    fun _ => by simp [VariableDefinition.lexemes]⟩
  have bang := startsWith_of_avoids follows .bang (by simp)
  have equals := startsWith_of_avoids follows .equals (by simp)
  have bare := no_directives true maxDepth (startsWith_of_avoids follows .atSign (by simp))
  cases default? with
  | none =>
    have typed := (typeRef_read regular depth.1 after).2 bang
    simp [VariableDefinition.lexemes, variableDefinition, typed, defaultValue, whenever, equals, bare]
  | some initial =>
    have typed := (typeRef_read regular depth.1
      (⟨.symbol .equals, false⟩ :: (initial.lexemes false ++ after))).2 rfl
    have plain : initial.mentioned = [] := by simpa using constant
    have read :=
      (value_takes default' (fun _ : true = true => plain) depth.2).reads false after rfl
    simp [VariableDefinition.lexemes, variableDefinition, typed, defaultValue, whenever, read, bare]

theorem variableDefinitions_read {ds : List VariableDefinition}
    (good : ds.all (VariableDefinition.all .finite) = true)
    (depth : deepest VariableDefinition.depth ds ≤ maxDepth) {after : List Lexeme}
    (follows : startsWith .openParen after = false) :
    variableDefinitions (Operation.lexemesOfDeclarations ds ++ after) = some (ds, after) := by
  cases ds with
  | nil => exact whenever_absent follows
  | cons first others =>
    rw [List.all_eq_true] at good
    rw [deepest_le] at depth
    have inside := someClosedBy_series after .closeParen (List.cons_ne_nil first others)
      (fun d member => variableDefinition_takes (good d member) (depth d member))
      (fun d _ _ _ => rfl) rfl
    rw [variableDefinitions, whenever_present (by rfl)]
    simpa [Operation.lexemesOfDeclarations] using inside

theorem ofKeyword?_keyword (kind : OperationKind) :
    OperationKind.ofKeyword? kind.keyword = some kind := by
  cases kind <;> rfl

theorem startsWithName_behind_keyword (declarations : List VariableDefinition) (ds : List Directive)
    {selections : List Selection} (nonempty : selections ≠ []) (after : List Lexeme) :
    startsWithName (Operation.lexemesOfDeclarations declarations ++ (lexemesOfDirectives ds ++
      (Selection.lexemesOfSet selections ++ after))) = false := by
  cases declarations with
  | nil =>
    obtain ⟨mark, more, lead⟩ := leads_with_mark ds nonempty after
    have bare : Operation.lexemesOfDeclarations [] = [] := rfl
    rw [bare, List.nil_append, lead]
    rfl
  | cons first others => rfl

theorem set_read {selections : List Selection} (nonempty : selections ≠ [])
    (good : selections.all (Selection.all .finite) = true)
    (depth : Selection.depthOfSet selections ≤ maxDepth) (after : List Lexeme) :
    selectionSet maxDepth (Selection.lexemesOfSet selections ++ after) = some (selections, after) := by
  rw [List.all_eq_true] at good
  exact selectionSet_read nonempty
    (fun child member fewer depth => selection_takes (good child member) depth) depth after

theorem operation_read {op : Operation} (good : (Definition.operation op).all .finite = true)
    (depth : (Definition.operation op).depth ≤ maxDepth) (after : List Lexeme) :
    operation (op.lexemes ++ after) = some (op, after) := by
  obtain ⟨kind, name, declarations, ds, selections⟩ := op
  simp only [Definition.all, Bool.and_eq_true] at good
  obtain ⟨⟨⟨own, declarations'⟩, directives'⟩, selections'⟩ := good
  rw [Definition.depth, Nat.max_le, Nat.max_le] at depth
  obtain ⟨⟨declarationsDepth, directivesDepth⟩, setDepth⟩ := depth
  have nonempty : selections ≠ [] := by
    have some : (name.all isName && !selections.isEmpty) = true := own
    rw [Bool.and_eq_true, Bool.not_eq_true', List.isEmpty_eq_false_iff] at some
    exact some.2
  have set := set_read nonempty selections' setDepth after
  have marked := directives_lead directives' directivesDepth nonempty after
  by_cases shorthand : Operation.isShorthand ⟨kind, name, declarations, ds, selections⟩ = true
  · have opens : startsWith .openBrace (Selection.lexemesOfSet selections ++ after) = true := by
      obtain ⟨first, others, rfl⟩ := List.exists_cons_of_ne_nil nonempty
      rfl
    rw [Operation.lexemes, if_pos shorthand, operation, if_pos opens]
    simp only [Operation.isShorthand, Bool.and_eq_true, beq_iff_eq, Option.isNone_iff_eq_none,
      List.isEmpty_iff] at shorthand
    obtain ⟨⟨⟨rfl, rfl⟩, rfl⟩, rfl⟩ := shorthand
    simp [set]
  · have declared : variableDefinitions (Operation.lexemesOfDeclarations declarations ++
        (lexemesOfDirectives ds ++ (Selection.lexemesOfSet selections ++ after))) =
        some (declarations, lexemesOfDirectives ds ++ (Selection.lexemesOfSet selections ++ after)) := by
      refine variableDefinitions_read declarations' declarationsDepth ?_
      cases ds with
      | nil =>
        obtain ⟨first, others, rfl⟩ := List.exists_cons_of_ne_nil nonempty
        rfl
      | cons d ds => rfl
    have unnamed := startsWithName_behind_keyword declarations ds nonempty after
    rw [Operation.lexemes, if_neg shorthand]
    cases name with
    | none =>
      simp [operation, operationKind, ofKeyword?_keyword, whenever, unnamed, declared, marked, set]
    | some given =>
      simp [operation, operationKind, ofKeyword?_keyword, whenever, startsWithName, declared, marked,
        set]

theorem fragment_read {frag : Fragment} (good : (Definition.fragment frag).all .finite = true)
    (depth : (Definition.fragment frag).depth ≤ maxDepth) (after : List Lexeme) :
    fragment (⟨.name frag.name, false⟩ :: ⟨.name "on", false⟩ :: ⟨.name frag.condition, false⟩ ::
      (lexemesOfDirectives frag.directives ++ (Selection.lexemesOfSet frag.selections ++ after))) =
      some (frag, after) := by
  obtain ⟨name, condition, ds, selections⟩ := frag
  simp only [Definition.all, Check.finite, Check.grammatical, Bool.and_eq_true, bne_iff_ne,
    Bool.not_eq_true', List.isEmpty_eq_false_iff] at good
  obtain ⟨⟨⟨⟨_, notOn⟩, nonempty⟩, directives'⟩, selections'⟩ := good
  rw [Definition.depth, Nat.max_le] at depth
  have set := set_read nonempty selections' depth.2 after
  have marked := directives_lead directives' depth.1 nonempty after
  simp [fragment, fragmentName, typeCondition, notOn, marked, set]

theorem selections_of_finite {op : Operation} (good : (Definition.operation op).all .finite = true) :
    op.selections ≠ [] := by
  simp only [Definition.all, Check.finite, Check.grammatical, Bool.and_eq_true, Bool.not_eq_true',
    List.isEmpty_eq_false_iff] at good
  exact good.1.1.1.2

theorem startsOperation {op : Operation} (nonempty : op.selections ≠ []) (after : List Lexeme) :
    (startsWith .openBrace (op.lexemes ++ after) || startsWithWord "query" (op.lexemes ++ after) ||
      startsWithWord "mutation" (op.lexemes ++ after) ||
      startsWithWord "subscription" (op.lexemes ++ after)) = true := by
  by_cases shorthand : op.isShorthand = true
  · obtain ⟨first, others, selections⟩ := List.exists_cons_of_ne_nil nonempty
    rw [Operation.lexemes, if_pos shorthand, selections]
    rfl
  · rw [Operation.lexemes, if_neg shorthand]
    cases op.kind <;> rfl

theorem definition_takes {d : Definition} (good : d.all .finite = true) (depth : d.depth ≤ maxDepth) :
    Takes definition [] (fun _ => d.lexemes) (some d) := by
  cases d with
  | operation op =>
    have starts := startsOperation (selections_of_finite good)
    refine ⟨fun _ after _ => ?_, fun _ _ => rfl, fun _ none => ?_⟩
    · have read := operation_read good depth after
      rw [Definition.lexemes, definition, if_pos (starts after), read]
      rfl
    · have never := starts []
      rw [Definition.lexemes] at none
      rw [none] at never
      cases never
  | fragment frag =>
    refine ⟨fun _ after _ => ?_, fun _ _ => rfl, fun _ => by simp [Definition.lexemes, Fragment.lexemes]⟩
    have read := fragment_read good depth after
    simp [Definition.lexemes, Fragment.lexemes, definition, startsWith, startsWithWord,
      behindFragmentKeyword?, read]

/-- The tokens of a document that is well formed are read as that document. -/
theorem definitions_read {doc : Document} (nonempty : doc.definitions ≠ [])
    (good : doc.all .finite = true) (depth : doc.depth ≤ maxDepth) :
    definitions doc.lexemes = some (doc.definitions.map some) := by
  rw [Document.all, List.all_eq_true] at good
  rw [Document.depth, deepest_le] at depth
  have each := fun d member => definition_takes (good d member) (depth d member)
  have read := many_series (fun tokens => !tokens.isEmpty) [] each
    (fun d member afterComma after => by
      have some := (each d member).nonempty afterComma
      cases tokens : d.lexemes with
      | nil => exact absurd tokens some
      | cons first rest => rfl) rfl rfl false
  rw [series_plain, List.append_nil] at read
  rw [definitions, Document.lexemes, read]
  simp [nonempty]

end Definitions

end Grammar

end QueryEditor
