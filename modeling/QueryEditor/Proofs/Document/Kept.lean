import QueryEditor.Proofs.Document.Image
import QueryEditor.Proofs.Document.Tokens
import QueryEditor.Proofs.Token.Kept

namespace QueryEditor

namespace Grammar

open Reader Token

def Expecting (opened : List Symbol) (before : Option Token) : Prop :=
  expects opened before = true ∧ before ≠ some (.symbol .atSign)

variable {opened : List Symbol} {read : Reader Value} {constant : Bool}

theorem expecting_item {before : Option Token} (settled : Settled before) :
    Expecting (.openBracket :: opened) before :=
  ⟨rfl, settled.2⟩

theorem expecting_behind (mark : Symbol) (leads : mark = .colon ∨ mark = .equals ∨ mark = .dollar) :
    Expecting opened (some (.symbol mark)) := by
  rcases leads with rfl | rfl | rfl <;> exact ⟨by simp [expects, leadsOn], by simp⟩

/-- In parentheses, a reader of values takes what its answer stands for. -/
def KeepsValue (read : Reader Value) : Prop :=
  ∀ opened, 0 < opened.count .openParen →
    Keeps opened (Expecting opened) Settled read (shown opened ·.tokens)

theorem keeps_slot (keeps : KeepsValue read) (inside : 0 < opened.count .openParen)
    (notList : opened.head? ≠ some .openBracket) :
    Keeps opened Settled Settled (slot read) fun s => shown opened (s.elim [] Value.tokensOfSlot) := by
  refine ⟨fun {ts rest s before} start found => ?_⟩
  unfold slot at found
  split at found
  case h_1 name _ _ ts =>
    obtain ⟨⟨v, rest⟩, taken, same⟩ := Option.bind_eq_some_iff.mp found
    cases same
    obtain ⟨after, settled, whole⟩ := (keeps _ inside).of (expecting_behind .colon (by decide)) taken
    refine ⟨after, settled, ?_⟩
    have parts : Value.tokensOfSlot ⟨name, v⟩ =
        [.name name] ++ ([.symbol .colon] ++ v.tokens) := rfl
    rw [keptOf_valued inside start.2, keptOf_mark inside .colon (by decide)]
    dsimp only [nested]
    rw [whole, Option.elim_some, parts, shown_append, shown_append, List.append_assoc,
      List.append_assoc]
  case h_2 name _ _ alone =>
    cases found
    have unexpected : expects opened before = false := by simp [expects, notList, start.1]
    refine ⟨some (.name name), settled_name name, ?_⟩
    rw [keptOf_unvalued inside unexpected fun comma others same => alone comma others (same ▸ rfl)]
    simp [shown]
  · cases found

theorem flatMap_slots (slots : List (Option Slot)) :
    (slots.flatMap fun s => s.elim [] Value.tokensOfSlot) =
      (slots.filterMap id).flatMap Value.tokensOfSlot := by
  induction slots with
  | nil => rfl
  | cons s others ih => cases s <;> simp [ih]

theorem namedValue_tokens (name : String) : (namedValue name).tokens = [.name name] := by
  unfold namedValue
  split <;> rfl

theorem keeps_valueOver (keeps : KeepsValue read) : KeepsValue (valueOver constant read) := by
  intro opened inside
  refine ⟨fun {ts rest v before} start found => ?_⟩
  unfold valueOver at found
  split at found
  case h_1 name _ _ =>
    split at found
    · cases found
    · cases found
      have behind : Expecting opened (some (.symbol .dollar)) := expecting_behind .dollar (by decide)
      refine ⟨some (.name name), settled_name name, ?_⟩
      rw [keptOf_mark inside .dollar (by decide)]
      dsimp only [nested]
      rw [keptOf_expected inside behind.1 behind.2, ← List.append_assoc, ← shown_append]
      rfl
  case h_2 number _ _ =>
    cases found
    exact ⟨some (.int number), ⟨rfl, by simp⟩, keptOf_literal inside (by simp) (by simp)⟩
  case h_3 number _ _ =>
    cases found
    exact ⟨some (.float number), ⟨rfl, by simp⟩, keptOf_literal inside (by simp) (by simp)⟩
  case h_4 content _ _ =>
    cases found
    exact ⟨some (.string content), ⟨rfl, by simp⟩, keptOf_literal inside (by simp) (by simp)⟩
  case h_5 name _ _ =>
    cases found
    rw [namedValue_tokens]
    exact ⟨some (.name name), settled_name name, keptOf_expected inside start.1 start.2⟩
  case h_6 =>
    obtain ⟨⟨items, after⟩, taken, same⟩ := Option.bind_eq_some_iff.mp found
    cases same
    have within : 0 < List.count .openParen (.openBracket :: opened) := by simpa using inside
    have item := (keeps _ within).weaken (fun _ => expecting_item) fun _ settled => settled
    simp only [shown_cons (show Symbol.openBracket ≠ .openParen by decide)] at item
    refine ⟨some (.symbol .closeBracket), settled_symbol .closeBracket (by decide), ?_⟩
    rw [Value.tokens, Value.tokensOfItems_eq]
    exact item.enclosed inside (Or.inl ⟨rfl, rfl⟩) taken
  case h_7 =>
    obtain ⟨⟨fields, after⟩, taken, same⟩ := Option.bind_eq_some_iff.mp found
    cases same
    have within : 0 < List.count .openParen (.openBrace :: opened) := by simpa using inside
    have slot := keeps_slot keeps within (by simp)
    simp only [shown_cons (show Symbol.openBrace ≠ .openParen by decide)] at slot
    refine ⟨some (.symbol .closeBrace), settled_symbol .closeBrace (by decide), ?_⟩
    rw [Value.tokens, Value.tokensOfSlots_eq, ← flatMap_slots]
    exact slot.enclosed inside (Or.inr ⟨rfl, rfl⟩) taken
  · cases found

theorem keeps_value (constant : Bool) (levels : Nat) : KeepsValue (value constant levels) := by
  induction levels with
  | zero =>
    refine keeps_valueOver fun _ _ => ⟨fun _ found => ?_⟩
    cases found
  | succ levels ih => exact keeps_valueOver ih

section Lost

variable {levels : Nat}

theorem loses_arguments (inside : 0 < opened.count .openParen) :
    Keeps opened Settled Settled (arguments constant levels) fun _ => [] := by
  refine Keeps.whenever ⟨fun {ts rest slots before} _ found => ?_⟩ _ rfl
  obtain ⟨⟨_, middle⟩, opening, found⟩ := Option.bind_eq_some_iff.mp found
  obtain ⟨⟨items, after⟩, taken, same⟩ := Option.bind_eq_some_iff.mp found
  cases same
  obtain ⟨comma, rfl⟩ := of_symbol opening
  have within : 0 < List.count .openParen (.openParen :: opened) := by simp
  have nothing (tokens : List Token) : shown (.openParen :: opened) tokens = [] := by
    rw [shown, if_neg]
    rw [List.count_cons_self]
    omega
  have slot := keeps_slot (keeps_value constant levels) within (by simp)
  have behind := slot.closedBy (fun {_ _ _} => keptOf_mark within .closeParen (by decide))
    (settled_symbol .openParen (by decide)) (closedBy_of_someClosedBy taken).1
  refine ⟨some (.symbol .closeParen), settled_symbol .closeParen (by decide), ?_⟩
  rw [shown_flatMap, nothing, nothing] at behind
  exact (keptOf_lostMark inside .openParen (Or.inl rfl)).trans behind

theorem loses_directives (inside : 0 < opened.count .openParen) :
    Keeps opened Settled Settled (directives constant levels) fun _ => [] := by
  have each : Keeps opened Settled Settled (directive constant levels) fun _ => [] := by
    refine ⟨fun {ts rest d before} _ found => ?_⟩
    obtain ⟨⟨_, middle⟩, mark, found⟩ := Option.bind_eq_some_iff.mp found
    obtain ⟨⟨name, behind⟩, called, found⟩ := Option.bind_eq_some_iff.mp found
    obtain ⟨⟨slots, after⟩, taken, same⟩ := Option.bind_eq_some_iff.mp found
    cases same
    obtain ⟨comma, rfl⟩ := of_symbol mark
    obtain ⟨comma, rfl⟩ := of_name called
    obtain ⟨last, settled, whole⟩ := (loses_arguments inside).of (settled_name name) taken
    refine ⟨last, settled, ?_⟩
    rw [keptOf_lostMark inside .atSign (Or.inr rfl)]
    exact (keptOf_directive inside).trans whole
  refine ⟨fun {ts rest ds before} start found => ?_⟩
  obtain ⟨after, settled, whole⟩ := (each.many _).of start found
  refine ⟨after, settled, ?_⟩
  rw [whole]
  simp

end Lost

theorem tokensOfSlots_head (slots : List Slot) :
    (slots.flatMap Value.tokensOfSlot).head? ≠ some (.symbol .closeParen) := by
  cases slots <;> simp [Value.tokensOfSlot]

theorem tokensOfArguments_eq (slots : List Slot) :
    tokensOfArguments slots =
      if (slots.flatMap Value.tokensOfSlot).isEmpty then []
      else .symbol .openParen :: slots.flatMap Value.tokensOfSlot ++ [.symbol .closeParen] := by
  cases slots <;> rfl

section Kept

variable {levels : Nat} (outside : opened.count .openParen = 0)
include outside

theorem keeps_arguments :
    Keeps opened (Within opened) (Within opened) (arguments constant levels) tokensOfArguments := by
  refine Keeps.whenever ⟨fun {ts rest slots before} _ found => ?_⟩ _ rfl
  obtain ⟨⟨_, middle⟩, opening, found⟩ := Option.bind_eq_some_iff.mp found
  obtain ⟨⟨items, after⟩, taken, same⟩ := Option.bind_eq_some_iff.mp found
  cases same
  obtain ⟨comma, rfl⟩ := of_symbol opening
  have within : 0 < List.count .openParen (.openParen :: opened) := by simp
  have single : List.count .openParen (.openParen :: opened) = 1 := by simp [outside]
  have slot := keeps_slot (keeps_value constant levels) within (by simp)
  have behind := slot.closedBy (fun {_ _ _} => keptOf_mark within .closeParen (by decide))
    (settled_symbol .openParen (by decide)) (closedBy_of_someClosedBy taken).1
  rw [shown_flatMap, shown_single single, shown_single single, flatMap_slots] at behind
  refine ⟨some (.symbol .closeParen), within_symbol .closeParen (by decide), ?_⟩
  rw [keptOf_parens outside behind (tokensOfSlots_head _), tokensOfArguments_eq]
  rfl

theorem keeps_directives :
    Keeps opened (Within opened) (Within opened) (directives constant levels)
      (·.flatMap Directive.tokens) := by
  refine Keeps.many ⟨fun {ts rest d before} _ found => ?_⟩ _
  obtain ⟨⟨_, middle⟩, mark, found⟩ := Option.bind_eq_some_iff.mp found
  obtain ⟨⟨name, behind⟩, called, found⟩ := Option.bind_eq_some_iff.mp found
  obtain ⟨⟨slots, after⟩, taken, same⟩ := Option.bind_eq_some_iff.mp found
  cases same
  obtain ⟨comma, rfl⟩ := of_symbol mark
  obtain ⟨comma, rfl⟩ := of_name called
  obtain ⟨last, within, whole⟩ := (keeps_arguments outside).of (within_name name) taken
  refine ⟨last, within, ?_⟩
  rw [keptOf_symbol outside .atSign (by decide)]
  dsimp only [nested]
  rw [keptOf_name outside (within_symbol .atSign (by decide)), whole]
  rfl

end Kept

section Declarations

theorem keeps_nonNullMark (inside : 0 < opened.count .openParen) {type marked : TypeRef}
    {ts rest : List Lexeme} {before : Option Token} (settled : Settled before)
    (found : nonNullMark type ts = (marked, rest)) : ∃ after, Settled after ∧
      shown opened type.tokens ++ keptOf opened before ts =
        shown opened marked.tokens ++ keptOf opened after rest := by
  unfold nonNullMark at found
  split at found
  · cases found
    refine ⟨some (.symbol .bang), settled_symbol .bang (by decide), ?_⟩
    rw [keptOf_mark inside .bang (by decide), ← List.append_assoc, ← shown_append]
    rfl
  · cases found
    exact ⟨before, settled, rfl⟩

def KeepsType (read : Reader TypeRef) : Prop :=
  ∀ opened, 0 < opened.count .openParen →
    Keeps opened (Expecting opened) Settled read (shown opened ·.tokens)

theorem keeps_typeRefOver {inner : Reader TypeRef} (keeps : KeepsType inner) :
    KeepsType (typeRefOver inner) := by
  intro opened inside
  refine ⟨fun {ts rest type before} start found => ?_⟩
  unfold typeRefOver at found
  split at found
  case h_1 name _ behind =>
    obtain ⟨after, settled, whole⟩ :=
      keeps_nonNullMark inside (settled_name name) (Option.some.inj found)
    refine ⟨after, settled, ?_⟩
    rw [keptOf_expected inside start.1 start.2]
    exact whole
  case h_2 behind =>
    obtain ⟨⟨item, behindItem⟩, taken, found⟩ := Option.bind_eq_some_iff.mp found
    obtain ⟨⟨_, after⟩, closing, found⟩ := Option.bind_eq_some_iff.mp found
    obtain ⟨comma, rfl⟩ := of_symbol closing
    have within : 0 < List.count .openParen (.openBracket :: opened) := by simpa using inside
    obtain ⟨between, -, whole⟩ :=
      (keeps _ within).of (expecting_item (settled_symbol .openBracket (by decide))) taken
    obtain ⟨last, settled, marked⟩ :=
      keeps_nonNullMark inside (settled_symbol .closeBracket (by decide)) (Option.some.inj found)
    refine ⟨last, settled, ?_⟩
    rw [keptOf_mark within .closeBracket (by decide), shown_cons (by decide), shown_cons (by decide)] at whole
    have parts : (TypeRef.list item).tokens =
        [.symbol .openBracket] ++ (item.tokens ++ [.symbol .closeBracket]) := rfl
    rw [parts, shown_append, shown_append, List.append_assoc, List.append_assoc] at marked
    rw [keptOf_mark inside .openBracket (by decide), ← marked]
    exact congrArg _ whole
  · cases found

theorem keeps_typeRef (levels : Nat) : KeepsType (typeRef levels) := by
  induction levels with
  | zero =>
    refine keeps_typeRefOver fun _ _ => ⟨fun _ found => ?_⟩
    cases found
  | succ levels ih => exact keeps_typeRefOver ih

def tokensOfDefault (default? : Option Value) : List Token :=
  default?.elim [] fun value => .symbol .equals :: value.tokens

theorem keeps_defaultValue (inside : 0 < opened.count .openParen) :
    Keeps opened Settled Settled defaultValue (shown opened <| tokensOfDefault ·) := by
  refine Keeps.whenever ⟨fun {ts rest default? before} _ found => ?_⟩ _ (by simp [tokensOfDefault, shown])
  obtain ⟨⟨_, behind⟩, mark, found⟩ := Option.bind_eq_some_iff.mp found
  obtain ⟨⟨v, after⟩, taken, same⟩ := Option.bind_eq_some_iff.mp found
  cases same
  obtain ⟨comma, rfl⟩ := of_symbol mark
  obtain ⟨last, settled, whole⟩ :=
    (keeps_value true maxDepth _ inside).of (expecting_behind .equals (by decide)) taken
  refine ⟨last, settled, ?_⟩
  have parts : tokensOfDefault (some v) = [.symbol .equals] ++ v.tokens := rfl
  rw [parts, shown_append, List.append_assoc, ← whole]
  exact keptOf_mark inside .equals (by decide)

theorem keeps_variableDefinition (inside : 0 < opened.count .openParen) :
    Keeps opened Settled Settled variableDefinition (shown opened ·.tokens) := by
  refine ⟨fun {ts rest d before} _ found => ?_⟩
  obtain ⟨⟨_, _⟩, mark, found⟩ := Option.bind_eq_some_iff.mp found
  obtain ⟨⟨name, _⟩, called, found⟩ := Option.bind_eq_some_iff.mp found
  obtain ⟨⟨_, _⟩, colon, found⟩ := Option.bind_eq_some_iff.mp found
  obtain ⟨⟨type, _⟩, typed, found⟩ := Option.bind_eq_some_iff.mp found
  obtain ⟨⟨default?, _⟩, initial, found⟩ := Option.bind_eq_some_iff.mp found
  obtain ⟨⟨_, _⟩, marked, same⟩ := Option.bind_eq_some_iff.mp found
  cases same
  obtain ⟨comma, rfl⟩ := of_symbol mark
  obtain ⟨comma, rfl⟩ := of_name called
  obtain ⟨comma, rfl⟩ := of_symbol colon
  have behindDollar : Expecting opened (some (.symbol .dollar)) := expecting_behind .dollar (by decide)
  obtain ⟨behindType, settled, typeWhole⟩ :=
    (keeps_typeRef maxDepth _ inside).of (expecting_behind .colon (by decide)) typed
  obtain ⟨behindDefault, settled, defaultWhole⟩ := (keeps_defaultValue inside).of settled initial
  obtain ⟨last, settled, directivesWhole⟩ := (loses_directives inside).of settled marked
  refine ⟨last, settled, ?_⟩
  have parts : VariableDefinition.tokens ⟨name, type, default?⟩ =
      [.symbol .dollar] ++ ([.name name] ++ ([.symbol .colon] ++ (type.tokens ++ tokensOfDefault default?))) := by
    simp [VariableDefinition.tokens, tokensOfDefault]
  simp only [parts, shown_append, List.append_assoc]
  rw [List.nil_append] at directivesWhole
  rw [← directivesWhole, ← defaultWhole, ← typeWhole, keptOf_mark inside .dollar (by decide)]
  refine congrArg _ ?_
  dsimp only [nested]
  rw [keptOf_expected inside behindDollar.1 behindDollar.2, keptOf_mark inside .colon (by decide)]
  rfl

theorem keeps_variableDefinitions (outside : opened.count .openParen = 0) :
    Keeps opened (Within opened) (Within opened) variableDefinitions Operation.tokensOfDeclarations := by
  refine Keeps.whenever ⟨fun {ts rest ds before} _ found => ?_⟩ _ rfl
  obtain ⟨⟨_, middle⟩, opening, found⟩ := Option.bind_eq_some_iff.mp found
  obtain ⟨comma, rfl⟩ := of_symbol opening
  obtain ⟨taken, nonempty⟩ := closedBy_of_someClosedBy found
  have within : 0 < List.count .openParen (.openParen :: opened) := by simp
  have single : List.count .openParen (.openParen :: opened) = 1 := by simp [outside]
  have behind := (keeps_variableDefinition within).closedBy
    (fun {_ _ _} => keptOf_mark within .closeParen (by decide))
    (settled_symbol .openParen (by decide)) taken
  rw [shown_flatMap, shown_single single, shown_single single] at behind
  obtain ⟨first, others, rfl⟩ := List.exists_cons_of_ne_nil nonempty
  refine ⟨some (.symbol .closeParen), within_symbol .closeParen (by decide), ?_⟩
  rw [keptOf_parens outside behind (by simp [VariableDefinition.tokens])]
  rfl

end Declarations

section Selections

variable {levels : Nat} {set : Reader (List Selection)}

def KeepsSet (set : Reader (List Selection)) : Prop :=
  ∀ opened, opened.count .openParen = 0 →
    Keeps opened (fun _ => True) (· = some (.symbol .closeBrace)) set Selection.tokensOfSet

variable (outside : opened.count .openParen = 0)
include outside

theorem keeps_typeCondition : Keeps opened (Within opened) (Within opened) typeCondition
    fun type => [.name "on", .name type] := by
  refine ⟨fun {ts rest type before} within found => ?_⟩
  obtain ⟨⟨_, behind⟩, word, called⟩ := Option.bind_eq_some_iff.mp found
  obtain ⟨comma, rfl⟩ := of_keyword word
  obtain ⟨comma, rfl⟩ := of_name called
  refine ⟨some (.name type), within_name type, ?_⟩
  rw [keptOf_name outside within, keptOf_name outside (within_name "on")]
  rfl

variable (keeps : KeepsSet set)
include keeps

theorem keeps_field {aliasName : Option String} {name : String} {ts rest : List Lexeme} {s : Selection}
    (found : selectionOver.field levels set aliasName name ts = some (s, rest)) :
    ∃ behind after, s.tokens =
        aliasName.elim [] (fun aliasName => [.name aliasName, .symbol .colon]) ++ .name name :: behind ∧
      keptOf opened (some (.name name)) ts = behind ++ keptOf opened after rest := by
  obtain ⟨⟨slots, behindSlots⟩, argued, found⟩ := Option.bind_eq_some_iff.mp found
  obtain ⟨⟨ds, behindDirectives⟩, marked, found⟩ := Option.bind_eq_some_iff.mp found
  obtain ⟨⟨children, after⟩, taken, same⟩ := Option.bind_eq_some_iff.mp found
  cases same
  obtain ⟨_, within, argumentsWhole⟩ := (keeps_arguments outside).of (within_name name) argued
  obtain ⟨_, within, directivesWhole⟩ := (keeps_directives outside).of within marked
  have beneath : Keeps opened (fun _ => True) (fun _ => True) (whenever (startsWith .openBrace) [] set)
      Selection.tokensOfSet :=
    ((keeps _ outside).weaken (fun _ start => start) fun _ _ => trivial).whenever _ rfl
  obtain ⟨last, -, setWhole⟩ := beneath.of trivial taken
  refine ⟨tokensOfArguments slots ++ (ds.flatMap Directive.tokens ++ Selection.tokensOfSet children),
    last, Selection.tokens_field _, ?_⟩
  rw [argumentsWhole, directivesWhole, setWhole, List.append_assoc, List.append_assoc]

theorem keeps_selectionOver (inner : opened ≠ []) :
    Keeps opened (fun _ => True) (fun _ => True) (selectionOver levels set) Selection.tokens := by
  refine ⟨fun {ts rest s before} _ found => ?_⟩
  unfold selectionOver at found
  split at found
  case h_1 behind =>
    split at found
    · cases found
    rw [keptOf_symbol outside .ellipsis (by decide)]
    dsimp only [nested]
    split at found
    · obtain ⟨⟨fragment, _⟩, called, found⟩ := Option.bind_eq_some_iff.mp found
      obtain ⟨⟨ds, after⟩, marked, same⟩ := Option.bind_eq_some_iff.mp found
      cases same
      obtain ⟨comma, rfl⟩ := of_name called
      obtain ⟨last, -, whole⟩ := (keeps_directives outside).of (within_name fragment) marked
      refine ⟨last, trivial, ?_⟩
      rw [keptOf_name outside (within_symbol .ellipsis (by decide)), whole]
      rfl
    · obtain ⟨⟨condition, _⟩, typed, found⟩ := Option.bind_eq_some_iff.mp found
      obtain ⟨⟨ds, behindDirectives⟩, marked, found⟩ := Option.bind_eq_some_iff.mp found
      obtain ⟨⟨children, after⟩, taken, same⟩ := Option.bind_eq_some_iff.mp found
      cases same
      obtain ⟨_, within, conditionWhole⟩ := ((keeps_typeCondition outside).optional _).of
        (within_symbol .ellipsis (by decide)) typed
      obtain ⟨_, within, directivesWhole⟩ := (keeps_directives outside).of within marked
      obtain ⟨last, -, setWhole⟩ := (keeps _ outside).of trivial taken
      refine ⟨last, trivial, ?_⟩
      rw [conditionWhole, directivesWhole, setWhole, Selection.tokens_inline]
      simp
  case h_2 aliasName _ behind =>
    obtain ⟨⟨called, after⟩, name', found⟩ := Option.bind_eq_some_iff.mp found
    obtain ⟨comma, rfl⟩ := of_name name'
    obtain ⟨further, last, parts, whole⟩ := keeps_field outside keeps found
    refine ⟨last, trivial, ?_⟩
    rw [keptOf_name outside (Or.inl inner), keptOf_symbol outside .colon (by decide)]
    dsimp only [nested]
    rw [keptOf_name outside (within_symbol .colon (by decide)), whole, parts]
    rfl
  case h_3 called _ behind _ =>
    obtain ⟨further, last, parts, whole⟩ := keeps_field outside keeps found
    refine ⟨last, trivial, ?_⟩
    rw [keptOf_name outside (Or.inl inner), whole, parts]
    rfl
  · cases found

end Selections

theorem keeps_selectionSet (levels : Nat) : KeepsSet (selectionSet levels) := by
  induction levels with
  | zero =>
    refine fun _ _ => ⟨fun _ found => ?_⟩
    cases found
  | succ levels ih =>
    intro opened outside
    refine ⟨fun {ts rest selections before} _ found => ?_⟩
    obtain ⟨⟨_, behind⟩, opening, found⟩ := Option.bind_eq_some_iff.mp found
    obtain ⟨comma, rfl⟩ := of_symbol opening
    obtain ⟨taken, nonempty⟩ := closedBy_of_someClosedBy found
    have inside : List.count .openParen (.openBrace :: opened) = 0 := by simpa using outside
    have ends {before afterComma rest} :
        keptOf (.openBrace :: opened) before (⟨.symbol .closeBrace, afterComma⟩ :: rest) =
          [.symbol .closeBrace] ++ keptOf opened (some (.symbol .closeBrace)) rest :=
      keptOf_symbol inside .closeBrace (by decide)
    have each := @keeps_selectionOver _ levels _ inside ih (List.cons_ne_nil _ _)
    refine ⟨some (.symbol .closeBrace), rfl, ?_⟩
    rw [keptOf_symbol outside .openBrace (by decide)]
    refine (congrArg _ (each.closedBy ends trivial taken)).trans ?_
    simp [Selection.tokensOfSet, Selection.tokensOfBraces, nonempty]

def Starts (before : Option Token) : Prop :=
  before = none ∨ before = some (.symbol .closeBrace)

theorem keyword_of_ofKeyword? {word : String} {kind : OperationKind}
    (found : OperationKind.ofKeyword? word = some kind) : word = kind.keyword := by
  unfold OperationKind.ofKeyword? at found
  split at found <;> cases found <;> rfl

theorem keptOf_keyword {before : Option Token} (starts : Starts before) (word : String) (comma : Bool)
    (ts : List Lexeme) : keptOf [] before (⟨.name word, comma⟩ :: ts) =
      (if word = "query" ∧ startsWith .openBrace ts = true then [] else [.name word]) ++
        keptOf [] (some (.name word)) ts := by
  have next : ((ts.map (·.token)).head? = some (.symbol .openBrace)) ↔
      startsWith .openBrace ts = true := by
    rcases ts with _ | ⟨⟨token, _⟩, others⟩
    · simp [startsWith]
    · cases token <;> simp [startsWith]
  have lost : isLost [] before (.name word) (ts.map (·.token)) =
      decide (word = "query" ∧ startsWith .openBrace ts = true) := by
    rcases starts with rfl | rfl <;> simp only [isLost, ← next] <;> simp
  by_cases shorthand : word = "query" ∧ startsWith .openBrace ts = true
  · rw [if_pos shorthand]
    exact kept_lost (by rw [lost, decide_eq_true shorthand])
  · rw [if_neg shorthand]
    exact kept_token (by rw [lost, decide_eq_false shorthand]) (by simp) (by simp)

theorem startsWith_inj {mark other : Symbol} {ts : List Lexeme} (first : startsWith mark ts = true)
    (second : startsWith other ts = true) : mark = other := by
  rcases ts with _ | ⟨⟨token, _⟩, others⟩
  · cases first
  · cases token with
    | symbol _ =>
      rw [startsWith_symbol, beq_iff_eq] at first second
      exact first.symm.trans second
    | _ => cases first

theorem startsWithName_not {mark : Symbol} {ts : List Lexeme} (first : startsWith mark ts = true) :
    startsWithName ts = false := by
  rcases ts with _ | ⟨⟨token, _⟩, others⟩
  · rfl
  · cases token with
    | name _ => cases first
    | _ => rfl

theorem startsWith_of_selectionSet {levels : Nat} {ts rest : List Lexeme} {selections : List Selection}
    (found : selectionSet levels ts = some (selections, rest)) : startsWith .openBrace ts = true := by
  cases levels with
  | zero => cases found
  | succ levels =>
    obtain ⟨⟨_, behind⟩, opening, _⟩ := Option.bind_eq_some_iff.mp found
    obtain ⟨comma, rfl⟩ := of_symbol opening
    rfl

theorem startsWith_brace_iff {ts ts₁ ts₂ ts₃ rest : List Lexeme} {name : Option String}
    {declarations : List VariableDefinition} {ds : List Directive} {selections : List Selection}
    (called : whenever startsWithName none (fun tokens => do
      let (name, rest) ← Reader.name tokens
      some (some name, rest)) ts = some (name, ts₁))
    (declared : variableDefinitions ts₁ = some (declarations, ts₂))
    (marked : directives false maxDepth ts₂ = some (ds, ts₃))
    (read : selectionSet maxDepth ts₃ = some (selections, rest)) :
    startsWith .openBrace ts = true ↔ name = none ∧ declarations = [] ∧ ds = [] := by
  -- What is in front of the selections is absent only if the text does not start with it.
  have unnamed := whenever_cases (fun after answer => by
    obtain ⟨_, _, same⟩ := Option.bind_eq_some_iff.mp answer
    cases same) called
  have undeclared := whenever_cases (fun after answer => by
    obtain ⟨_, _, taken⟩ := Option.bind_eq_some_iff.mp answer
    exact (closedBy_of_someClosedBy taken).2 rfl) declared
  have unmarked := many_cases rfl marked
  rcases unnamed with ⟨-, rfl, rfl⟩ | ⟨starts, named⟩
  · rcases undeclared with ⟨-, rfl, rfl⟩ | ⟨starts, declares⟩
    · rcases unmarked with ⟨-, rfl, rfl⟩ | ⟨starts, marks⟩
      · simp [startsWith_of_selectionSet read]
      · simp only [marks, and_false, iff_false]
        intro brace
        cases startsWith_inj brace starts
    · simp only [declares, false_and, and_false, iff_false]
      intro brace
      cases startsWith_inj brace starts
  · simp only [named, false_and, iff_false]
    intro brace
    rw [startsWithName_not brace] at starts
    cases starts

theorem keeps_operation : Keeps [] Starts (· = some (.symbol .closeBrace)) operation Operation.tokens := by
  refine ⟨fun {ts rest op before} starts found => ?_⟩
  have outside : List.count Symbol.openParen [] = 0 := rfl
  unfold operation at found
  split at found
  · obtain ⟨⟨selections, after⟩, taken, same⟩ := Option.bind_eq_some_iff.mp found
    cases same
    obtain ⟨last, closed, whole⟩ := (keeps_selectionSet maxDepth [] outside).of trivial taken
    exact ⟨last, closed, whole⟩
  · obtain ⟨⟨kind, ts⟩, word, found⟩ := Option.bind_eq_some_iff.mp found
    obtain ⟨⟨name, _⟩, called, found⟩ := Option.bind_eq_some_iff.mp found
    obtain ⟨⟨declarations, _⟩, declared, found⟩ := Option.bind_eq_some_iff.mp found
    obtain ⟨⟨ds, _⟩, marked, found⟩ := Option.bind_eq_some_iff.mp found
    obtain ⟨⟨selections, _⟩, taken, same⟩ := Option.bind_eq_some_iff.mp found
    cases same
    obtain ⟨⟨text, _⟩, first, word⟩ := Option.bind_eq_some_iff.mp word
    obtain ⟨kind', keyword, same⟩ := Option.bind_eq_some_iff.mp word
    cases same
    obtain ⟨comma, rfl⟩ := of_name first
    obtain ⟨_, within, nameWhole⟩ := ((keeps_name outside).optional _).of (within_name text) called
    obtain ⟨_, within, declarationsWhole⟩ := (keeps_variableDefinitions outside).of within declared
    obtain ⟨_, within, directivesWhole⟩ := (keeps_directives outside).of within marked
    obtain ⟨last, closed, setWhole⟩ := (keeps_selectionSet maxDepth [] outside).of trivial taken
    refine ⟨last, closed, ?_⟩
    obtain rfl := keyword_of_ofKeyword? keyword
    have shorthand : (kind.keyword = "query" ∧ startsWith .openBrace ts = true) ↔
        Operation.isShorthand ⟨kind, name, declarations, ds, selections⟩ = true := by
      have query : kind.keyword = "query" ↔ kind = .query := by
        cases kind <;> simp [OperationKind.keyword]
      rw [startsWith_brace_iff called declared marked taken, query]
      simp [Operation.isShorthand, and_assoc]
    rw [keptOf_keyword starts, nameWhole, declarationsWhole, directivesWhole, setWhole]
    simp only [shorthand, Operation.tokens, List.append_assoc]

theorem keptOf_behindFragmentKeyword {ts behind : List Lexeme} {before : Option Token}
    (found : behindFragmentKeyword? ts = some behind) : ∃ first, Within [] first ∧
      keptOf [] before ts = .name "fragment" :: keptOf [] first behind := by
  unfold behindFragmentKeyword? at found
  split at found
  · cases found
    refine ⟨some (.name "fragment"), within_name "fragment", kept_token ?_ (by simp) (by simp)⟩
    simp [isLost]
  case h_2 content _ _ =>
    split at found
    · cases found
      refine ⟨some (.string content), Or.inr ⟨by simp, by simp⟩, ?_⟩
      have stays : isLost [] before (.string content) (behind.map (·.token)) = false := by simp [isLost]
      rw [keptOf, List.map_cons, kept, if_neg (by simp [stays])]
      rfl
    · cases found
  · cases found

theorem keeps_fragment {ts behind rest : List Lexeme} {frag : Fragment} {before : Option Token}
    (keyword : behindFragmentKeyword? ts = some behind)
    (found : fragment behind = some (frag, rest)) :
    keptOf [] before ts = frag.tokens ++ keptOf [] (some (.symbol .closeBrace)) rest := by
  have outside : List.count Symbol.openParen [] = 0 := rfl
  obtain ⟨first, within, opening⟩ := @keptOf_behindFragmentKeyword _ _ before keyword
  obtain ⟨⟨name, _⟩, called, found⟩ := Option.bind_eq_some_iff.mp found
  obtain ⟨⟨condition, _⟩, typed, found⟩ := Option.bind_eq_some_iff.mp found
  obtain ⟨⟨ds, _⟩, marked, found⟩ := Option.bind_eq_some_iff.mp found
  obtain ⟨⟨selections, _⟩, taken, same⟩ := Option.bind_eq_some_iff.mp found
  cases same
  obtain ⟨⟨name', _⟩, called, found⟩ := Option.bind_eq_some_iff.mp called
  dsimp only at found
  split at found
  · cases found
  · cases found
    obtain ⟨comma, rfl⟩ := of_name called
    obtain ⟨_, behind, conditionWhole⟩ := (keeps_typeCondition outside).of (within_name name) typed
    obtain ⟨_, _, directivesWhole⟩ := (keeps_directives outside).of behind marked
    obtain ⟨last, rfl, setWhole⟩ := (keeps_selectionSet maxDepth [] outside).of trivial taken
    rw [opening, keptOf_name outside within, conditionWhole, directivesWhole, setWhole]
    simp [Fragment.tokens]

theorem keeps_definition {ts rest : List Lexeme} {d : Definition} {before : Option Token}
    (starts : Starts before) (found : definition ts = some (some d, rest)) :
    keptOf [] before ts = d.tokens ++ keptOf [] (some (.symbol .closeBrace)) rest := by
  unfold definition at found
  split at found
  · obtain ⟨⟨op, after⟩, taken, same⟩ := Option.bind_eq_some_iff.mp found
    cases same
    obtain ⟨last, rfl, whole⟩ := keeps_operation.of starts taken
    exact whole
  · split at found
    case h_1 behind keyword =>
      obtain ⟨⟨frag, after⟩, taken, same⟩ := Option.bind_eq_some_iff.mp found
      cases same
      exact keeps_fragment keyword taken
    case h_2 =>
      obtain ⟨after, _, same⟩ := Option.bind_eq_some_iff.mp found
      cases same

theorem keeps_definitions {ts : List Lexeme} {ds : List Definition}
    (found : definitions ts = some (ds.map some)) :
    keptOf [] none ts = ds.flatMap Definition.tokens := by
  have each : ∀ steps {ts rest : List Lexeme} {ds : List Definition} {before : Option Token},
      Starts before →
      rounds (!·.isEmpty) definition steps ts = some (ds.map some, rest) →
      keptOf [] before ts = ds.flatMap Definition.tokens := by
    intro steps
    induction steps with
    | zero =>
      intro ts rest ds before _ found
      rw [rounds] at found
      split at found
      · cases found
      case isFalse finished =>
        have empty : ts = [] := by simpa using finished
        cases ds with
        | nil => rw [empty]; rfl
        | cons => cases found
    | succ steps ih =>
      intro ts rest ds before starts found
      rw [rounds] at found
      split at found
      · obtain ⟨⟨first, middle⟩, taken, found⟩ := Option.bind_eq_some_iff.mp found
        obtain ⟨⟨others, after⟩, further, same⟩ := Option.bind_eq_some_iff.mp found
        cases ds with
        | nil => cases same
        | cons d ds =>
          cases same
          rw [keeps_definition starts taken, ih (Or.inr rfl) further, List.flatMap_cons]
      case isFalse finished =>
        have empty : ts = [] := by simpa using finished
        cases ds with
        | nil => rw [empty]; rfl
        | cons => cases found
  obtain ⟨⟨all, rest⟩, read, same⟩ := Option.bind_eq_some_iff.mp found
  dsimp only at same
  split at same
  · cases same
  · cases same
    exact each _ (Or.inl rfl) read

end Grammar

namespace Document

variable {doc : Document}

theorem parse_kept {text : String} (parsed : parse text = .ok doc) :
    ∃ lexemes, Lexeme.ofText? text = some lexemes ∧
      Token.kept [] none (lexemes.map (·.token)) = doc.tokens := by
  obtain ⟨_, lexemes, lexed, read⟩ := parse_ok.mp parsed
  exact ⟨lexemes, lexed, Grammar.keeps_definitions read⟩

theorem print_tokens {text : String} (parsed : parse text = .ok doc) :
    (Lexeme.ofText? doc.print).map (·.map (·.token)) =
      if doc.all .readable then some (doc.tokens.map Token.printed) else none := by
  obtain ⟨_, good, _⟩ := parse_grammatical parsed
  have names : doc.all .names = true := all_mono (Check.grammatical_names _) good
  rw [lex_print names, ← lexemes_tokens]
  split <;> rfl

/-- Texts of one document have the same tokens, but for those that a scan knows to be lost. What is kept
of them is what the document is printed as. -/
theorem parse_same_kept {first second : String} (parsedFirst : parse first = .ok doc)
    (parsedSecond : parse second = .ok doc) :
    ∃ ts us, Lexeme.ofText? first = some ts ∧ Lexeme.ofText? second = some us ∧
      Token.kept [] none (ts.map (·.token)) = Token.kept [] none (us.map (·.token)) ∧
      (Lexeme.ofText? doc.print).map (·.map (·.token)) =
        if doc.all .readable then some ((Token.kept [] none (ts.map (·.token))).map Token.printed)
        else none := by
  obtain ⟨ts, lexedFirst, keptFirst⟩ := parse_kept parsedFirst
  obtain ⟨us, lexedSecond, keptSecond⟩ := parse_kept parsedSecond
  refine ⟨ts, us, lexedFirst, lexedSecond, keptFirst.trans keptSecond.symm, ?_⟩
  rw [keptFirst]
  exact print_tokens parsedFirst

/-- A directive on a variable definition, and slots without a value. -/
def lossyText : String :=
  "query ($a: Int = 1 @d(y: [2])) \x7b f(x: $a, y), g(z) \x7d"

theorem parse_same_kept_lossy : ∃ doc ts us, parse lossyText = .ok doc ∧ parse doc.print = .ok doc ∧
    Lexeme.ofText? lossyText = some ts ∧ Lexeme.ofText? doc.print = some us ∧
    Token.kept [] none (ts.map (·.token)) = Token.kept [] none (us.map (·.token)) := by
  let doc : Document := ⟨[.operation {
    kind := .query
    declarations := [⟨"a", .named "Int", some (.int 1)⟩]
    selections := [.field { name := "f", arguments := [⟨"x", .variable "a"⟩] }, .leaf "g"] }]⟩
  have parsed : parse lossyText = .ok doc := by decide +kernel
  have again : parse doc.print = .ok doc := by decide +kernel
  obtain ⟨ts, us, lexed, lexedAgain, same, -⟩ := parse_same_kept parsed again
  exact ⟨doc, ts, us, parsed, again, lexed, lexedAgain, same⟩

/-- Texts of one document differ in more than numbers, strings and the keyword of a bare query. -/
theorem variable_directive_lost :
    parse "query ($a: Int @d) \x7b f(x: $a) \x7d" = parse "query ($a: Int) \x7b f(x: $a) \x7d" ∧
    (parse "query ($a: Int) \x7b f(x: $a) \x7d").isOk = true ∧
    (Lexeme.ofText? "query ($a: Int @d) \x7b f(x: $a) \x7d").map
      (fun ts => (ts.map (·.token)).count (.symbol .atSign)) = some 1 ∧
    (Lexeme.ofText? "query ($a: Int) \x7b f(x: $a) \x7d").map
      (fun ts => (ts.map (·.token)).count (.symbol .atSign)) = some 0 := by
  decide +kernel

end Document

end QueryEditor
