import QueryEditor.Proofs.Token.Repetition

namespace QueryEditor

namespace Token

/-- The brackets that are open behind a token, the innermost first. -/
def nested (opened : List Symbol) : Token → List Symbol
  | .symbol .openParen => .openParen :: opened
  | .symbol .openBracket => .openBracket :: opened
  | .symbol .openBrace => .openBrace :: opened
  | .symbol .closeParen => opened.tail
  | .symbol .closeBracket => opened.tail
  | .symbol .closeBrace => opened.tail
  | _ => opened

def leadsOn (before : Option Token) : Bool :=
  before = some (.symbol .colon) || before = some (.symbol .equals) || before = some (.symbol .dollar)

def expects (opened : List Symbol) (before : Option Token) : Bool :=
  opened.head? = some .openBracket || leadsOn before

/-- Outside of parentheses the keyword of a query with nothing but selections is lost. Inside of them
the directives on a variable definition are, down to their arguments, and names without a value. -/
def isLost (opened : List Symbol) (before : Option Token) (token : Token) (rest : List Token) : Bool :=
  match opened.count .openParen with
  | 0 => opened.isEmpty && (before = none || before = some (.symbol .closeBrace)) &&
      token = .name "query" && rest.head? = some (.symbol .openBrace)
  | 1 =>
    match token with
    | .symbol mark => mark = .openParen || mark = .atSign
    | .name _ => before = some (.symbol .atSign) ||
        (!expects opened before && !rest.head? = some (.symbol .colon))
    | _ => false
  | _ => true

/-- A token in front of others. Parentheses that nothing is left in are lost, and a description stands
for the keyword of a fragment. -/
def inFront (opened : List Symbol) : Token → List Token → List Token
  | .symbol .openParen, .symbol .closeParen :: more => more
  | .string content, others =>
    (if opened.isEmpty then .name "fragment" else .string content) :: others
  | token, others => token :: others

def kept (opened : List Symbol) (before : Option Token) : List Token → List Token
  | [] => []
  | token :: rest =>
    let others := kept (nested opened token) (some token) rest
    if isLost opened before token rest then others else inFront opened token others

variable {opened : List Symbol} {before : Option Token} {token : Token} {rest : List Token}

theorem kept_lost (lost : isLost opened before token rest = true) :
    kept opened before (token :: rest) = kept (nested opened token) (some token) rest := by
  rw [kept, if_pos lost]

theorem inFront_plain (noParen : token ≠ .symbol .openParen)
    (noDescription : ∀ content, token = .string content → opened ≠ []) (others : List Token) :
    inFront opened token others = token :: others := by
  unfold inFront
  split
  · exact absurd rfl noParen
  · have inside : opened.isEmpty = false := by simpa using noDescription _ rfl
    rw [inside]
    rfl
  · rfl

theorem kept_token (stays : isLost opened before token rest = false)
    (noParen : token ≠ .symbol .openParen)
    (noDescription : ∀ content, token = .string content → opened ≠ []) :
    kept opened before (token :: rest) = token :: kept (nested opened token) (some token) rest := by
  rw [kept, if_neg (by simp [stays]), inFront_plain noParen noDescription]

end Token

namespace Reader

open Token

variable {α : Type} {opened inner : List Symbol} {before : Option Token} {ts : List Lexeme}
  {afterComma : Bool}

def keptOf (opened : List Symbol) (before : Option Token) (lexemes : List Lexeme) : List Token :=
  kept opened before (lexemes.map (·.token))

def Within (opened : List Symbol) (before : Option Token) : Prop :=
  opened ≠ [] ∨ before ≠ none ∧ before ≠ some (.symbol .closeBrace)

theorem within_name (name : String) : Within opened (some (.name name)) :=
  Or.inr ⟨by simp, by simp⟩

theorem within_symbol (mark : Symbol) (other : mark ≠ .closeBrace) :
    Within opened (some (.symbol mark)) :=
  Or.inr ⟨by simp, by simpa using other⟩

section Outside

variable (outside : opened.count .openParen = 0)
include outside

theorem keptOf_name {name : String} (within : Within opened before) :
    keptOf opened before (⟨.name name, afterComma⟩ :: ts) =
      .name name :: keptOf opened (some (.name name)) ts := by
  refine kept_token ?_ (by simp) (by simp)
  rw [isLost, outside]
  rcases within with nonempty | ⟨first, behind⟩
  · simp [nonempty]
  · simp [first, behind]

theorem keptOf_symbol (mark : Symbol) (noParen : mark ≠ .openParen) :
    keptOf opened before (⟨.symbol mark, afterComma⟩ :: ts) =
      .symbol mark :: keptOf (nested opened (.symbol mark)) (some (.symbol mark)) ts := by
  refine kept_token ?_ (by simpa using noParen) (by simp)
  rw [isLost, outside]
  simp

theorem keptOf_parens {inside after : List Token}
    (behind : keptOf (.openParen :: opened) (some (.symbol .openParen)) ts =
      inside ++ .symbol .closeParen :: after) (noParen : inside.head? ≠ some (.symbol .closeParen)) :
    keptOf opened before (⟨.symbol .openParen, afterComma⟩ :: ts) =
      (if inside.isEmpty then [] else .symbol .openParen :: inside ++ [.symbol .closeParen]) ++ after := by
  have stays : isLost opened before (.symbol .openParen) (ts.map (·.token)) = false := by
    rw [isLost, outside]
    simp
  have further : kept (nested opened (.symbol .openParen)) (some (.symbol .openParen))
      (ts.map (·.token)) = inside ++ .symbol .closeParen :: after := behind
  rw [keptOf, List.map_cons, kept, if_neg (by simp [stays]), further]
  cases inside with
  | nil => rfl
  | cons first others =>
    have differs : first ≠ .symbol .closeParen := by simpa using noParen
    rw [List.cons_append, inFront]
    · simp
    · simp
    · intro more _ same
      exact differs (List.cons.inj same).1

end Outside

def shown (opened : List Symbol) (tokens : List Token) : List Token :=
  if opened.count .openParen ≤ 1 then tokens else []

theorem shown_append (opened : List Symbol) (first second : List Token) :
    shown opened (first ++ second) = shown opened first ++ shown opened second := by
  unfold shown
  split <;> simp

theorem shown_cons {mark : Symbol} (noParen : mark ≠ .openParen) (opened : List Symbol)
    (tokens : List Token) : shown (mark :: opened) tokens = shown opened tokens := by
  simp [shown, noParen]

theorem shown_flatMap (opened : List Symbol) (items : List α) (tokens : α → List Token) :
    (items.flatMap fun a => shown opened (tokens a)) = shown opened (items.flatMap tokens) := by
  unfold shown
  split <;> simp

theorem shown_single (single : opened.count .openParen = 1) (tokens : List Token) :
    shown opened tokens = tokens := by
  simp [shown, single]

def Settled (before : Option Token) : Prop :=
  leadsOn before = false ∧ before ≠ some (.symbol .atSign)

theorem settled_name (name : String) : Settled (some (.name name)) :=
  ⟨rfl, by simp⟩

theorem settled_symbol (mark : Symbol) (other : mark ∉ [Symbol.colon, .equals, .dollar, .atSign]) :
    Settled (some (.symbol mark)) := by
  simp only [List.mem_cons, List.not_mem_nil, or_false, not_or] at other
  simp [Settled, leadsOn, other]

section Inside

variable (inside : 0 < opened.count .openParen)
include inside

theorem keptOf_shown {token : Token}
    (stays : opened.count .openParen = 1 → isLost opened before token (ts.map (·.token)) = false)
    (noParen : token ≠ .symbol .openParen) :
    keptOf opened before (⟨token, afterComma⟩ :: ts) =
      shown opened [token] ++ keptOf (nested opened token) (some token) ts := by
  by_cases single : opened.count .openParen = 1
  · rw [shown_single single]
    refine kept_token (stays single) noParen ?_
    rintro _ rfl rfl
    simp at inside
  · have deep : isLost opened before token (ts.map (·.token)) = true := by
      unfold isLost
      split <;> first | rfl | omega
    have nothing : shown opened [token] = [] := if_neg (by omega)
    rw [nothing]
    exact kept_lost deep

theorem keptOf_mark (mark : Symbol) (plain : mark ≠ .openParen ∧ mark ≠ .atSign) :
    keptOf opened before (⟨.symbol mark, afterComma⟩ :: ts) =
      shown opened [.symbol mark] ++ keptOf (nested opened (.symbol mark)) (some (.symbol mark)) ts := by
  refine keptOf_shown inside (fun single => ?_) (by simpa using plain.1)
  rw [isLost, single]
  simp [plain.1, plain.2]

theorem keptOf_literal {token : Token} (noSymbol : ∀ mark, token ≠ .symbol mark)
    (noName : ∀ name, token ≠ .name name) :
    keptOf opened before (⟨token, afterComma⟩ :: ts) = shown opened [token] ++ keptOf opened (some token) ts := by
  have same : nested opened token = opened := by
    cases token with
    | symbol mark => exact absurd rfl (noSymbol mark)
    | _ => rfl
  have stays : opened.count .openParen = 1 → isLost opened before token (ts.map (·.token)) = false := by
    intro single
    unfold isLost
    rw [single]
    cases token with
    | symbol mark => exact absurd rfl (noSymbol mark)
    | name text => exact absurd rfl (noName text)
    | _ => rfl
  have whole := @keptOf_shown opened before ts afterComma inside token stays (noSymbol _)
  rw [same] at whole
  exact whole

theorem keptOf_expected {name : String} (expected : expects opened before = true)
    (noDirective : before ≠ some (.symbol .atSign)) :
    keptOf opened before (⟨.name name, afterComma⟩ :: ts) =
      shown opened [.name name] ++ keptOf opened (some (.name name)) ts := by
  refine keptOf_shown inside (fun single => ?_) (by simp)
  rw [isLost, single]
  simp [expected, noDirective]

theorem keptOf_valued {name : String} {comma : Bool} (noDirective : before ≠ some (.symbol .atSign)) :
    keptOf opened before (⟨.name name, afterComma⟩ :: ⟨.symbol .colon, comma⟩ :: ts) =
      shown opened [.name name] ++ keptOf opened (some (.name name)) (⟨.symbol .colon, comma⟩ :: ts) := by
  refine keptOf_shown inside (fun single => ?_) (by simp)
  rw [isLost, single]
  simp [noDirective]

theorem keptOf_lost {token : Token}
    (lost : opened.count .openParen = 1 → isLost opened before token (ts.map (·.token)) = true) :
    keptOf opened before (⟨token, afterComma⟩ :: ts) = keptOf (nested opened token) (some token) ts := by
  refine kept_lost ?_
  by_cases single : opened.count .openParen = 1
  · exact lost single
  · unfold isLost
    split <;> first | rfl | omega

theorem keptOf_unvalued {name : String} (unexpected : expects opened before = false)
    (alone : ∀ comma rest, ts ≠ ⟨.symbol .colon, comma⟩ :: rest) :
    keptOf opened before (⟨.name name, afterComma⟩ :: ts) = keptOf opened (some (.name name)) ts := by
  have next : (ts.map (·.token)).head? ≠ some (.symbol .colon) := by
    rcases ts with _ | ⟨⟨token, comma⟩, rest⟩
    · simp
    · intro colon
      cases colon
      exact alone comma rest rfl
  refine keptOf_lost inside fun single => ?_
  rw [isLost, single]
  simp only [unexpected, next, decide_false, Bool.not_false, Bool.and_self, Bool.or_true]

theorem keptOf_directive {name : String} :
    keptOf opened (some (.symbol .atSign)) (⟨.name name, afterComma⟩ :: ts) =
      keptOf opened (some (.name name)) ts := by
  refine keptOf_lost inside fun single => ?_
  rw [isLost, single]
  simp

theorem keptOf_lostMark (mark : Symbol) (lost : mark = .openParen ∨ mark = .atSign) :
    keptOf opened before (⟨.symbol mark, afterComma⟩ :: ts) =
      keptOf (nested opened (.symbol mark)) (some (.symbol mark)) ts := by
  refine keptOf_lost inside fun single => ?_
  rw [isLost, single]
  simpa using lost

end Inside

variable {pre post : Option Token → Prop} {read : Reader α} {tokens : α → List Token}

/-- Of the tokens that a reader takes, those are kept that its answer stands for. The conditions are on
the tokens in front of what it takes and in front of what it leaves. -/
structure Keeps (opened : List Symbol) (pre post : Option Token → Prop) (read : Reader α)
    (tokens : α → List Token) : Prop where
  of : ∀ {ts rest a before}, pre before → read ts = some (a, rest) →
    ∃ after, post after ∧ keptOf opened before ts = tokens a ++ keptOf opened after rest

theorem keeps_name (outside : opened.count .openParen = 0) :
    Keeps opened (Within opened) (Within opened) name fun text => [.name text] := by
  refine ⟨fun {ts rest text before} within found => ?_⟩
  obtain ⟨comma, rfl⟩ := of_name found
  exact ⟨some (.name text), within_name text, keptOf_name outside within⟩

theorem Keeps.weaken {sooner later : Option Token → Prop} (keeps : Keeps opened pre post read tokens)
    (starts : ∀ before, sooner before → pre before) (ends : ∀ before, post before → later before) :
    Keeps opened sooner later read tokens := by
  refine ⟨fun {ts rest a before} start found => ?_⟩
  obtain ⟨after, finish, whole⟩ := keeps.of (starts before start) found
  exact ⟨after, ends after finish, whole⟩

theorem Keeps.many (keeps : Keeps opened pre pre read tokens) (goesOn : List Lexeme → Bool) :
    Keeps opened pre pre (many goesOn read) (·.flatMap tokens) := by
  have each : ∀ steps, Keeps opened pre pre (rounds goesOn read steps) (·.flatMap tokens) := by
    intro steps
    induction steps with
    | zero =>
      refine ⟨fun {ts rest items before} start found => ?_⟩
      rw [rounds] at found
      split at found
      · cases found
      · cases found
        exact ⟨before, start, rfl⟩
    | succ steps ih =>
      refine ⟨fun {ts rest items before} start found => ?_⟩
      rw [rounds] at found
      split at found
      · obtain ⟨⟨first, middle⟩, taken, found⟩ := Option.bind_eq_some_iff.mp found
        obtain ⟨⟨others, after⟩, further, same⟩ := Option.bind_eq_some_iff.mp found
        cases same
        obtain ⟨between, middleStart, head⟩ := keeps.of start taken
        obtain ⟨last, finish, tail⟩ := ih.of middleStart further
        refine ⟨last, finish, ?_⟩
        rw [head, tail, List.flatMap_cons, List.append_assoc]
      · cases found
        exact ⟨before, start, rfl⟩
  exact ⟨fun start found => (each _).of start found⟩

theorem Keeps.whenever (keeps : Keeps opened pre pre read tokens) (present : List Lexeme → Bool)
    {absent : α} (nothing : tokens absent = []) :
    Keeps opened pre pre (whenever present absent read) tokens := by
  refine ⟨fun {ts rest a before} start found => ?_⟩
  rw [Reader.whenever] at found
  split at found
  · exact keeps.of start found
  · cases found
    exact ⟨before, start, by rw [nothing, List.nil_append]⟩

theorem Keeps.optional (keeps : Keeps opened pre pre read tokens) (present : List Lexeme → Bool) :
    Keeps opened pre pre (Reader.whenever present none fun ts => do
      let (a, rest) ← read ts
      some (some a, rest)) (Option.elim · [] tokens) := by
  refine Keeps.whenever ⟨fun {ts rest a? before} start found => ?_⟩ _ rfl
  obtain ⟨⟨a, _⟩, taken, same⟩ := Option.bind_eq_some_iff.mp found
  cases same
  exact keeps.of start taken

theorem Keeps.closedBy {close : Symbol} {closing : List Token}
    (keeps : Keeps inner pre pre read tokens)
    (ends : ∀ {before afterComma rest}, keptOf inner before (⟨.symbol close, afterComma⟩ :: rest) =
      closing ++ keptOf opened (some (.symbol close)) rest)
    {rest : List Lexeme} {items : List α} (start : pre before)
    (found : closedBy close read ts = some (items, rest)) :
    keptOf inner before ts =
      items.flatMap tokens ++ (closing ++ keptOf opened (some (.symbol close)) rest) := by
  obtain ⟨⟨inside, middle⟩, taken, found⟩ := Option.bind_eq_some_iff.mp found
  obtain ⟨⟨_, after⟩, closed, same⟩ := Option.bind_eq_some_iff.mp found
  cases same
  obtain ⟨between, -, whole⟩ := (keeps.many _).of start taken
  obtain ⟨comma, rfl⟩ := of_symbol closed
  rw [whole, ends]

theorem Keeps.enclosed {mark close : Symbol} (keeps : Keeps (mark :: opened) Settled Settled read
      fun a => shown opened (tokens a)) (inside : 0 < opened.count .openParen)
    (matching : mark = .openBracket ∧ close = .closeBracket ∨ mark = .openBrace ∧ close = .closeBrace)
    {rest : List Lexeme} {items : List α} (found : Reader.closedBy close read ts = some (items, rest)) :
    keptOf opened before (⟨.symbol mark, afterComma⟩ :: ts) =
      shown opened (.symbol mark :: items.flatMap tokens ++ [.symbol close]) ++
        keptOf opened (some (.symbol close)) rest := by
  have parts : Token.symbol mark :: items.flatMap tokens ++ [.symbol close] =
      [.symbol mark] ++ (items.flatMap tokens ++ [.symbol close]) := rfl
  rw [parts, shown_append, shown_append, ← shown_flatMap, List.append_assoc, List.append_assoc]
  rcases matching with ⟨rfl, rfl⟩ | ⟨rfl, rfl⟩
  · have within : 0 < List.count .openParen (.openBracket :: opened) := by simpa using inside
    have behind := keeps.closedBy (fun {_ _ _} => keptOf_mark within .closeBracket (by decide))
      (settled_symbol .openBracket (by decide)) found
    rw [shown_cons (by decide)] at behind
    exact (keptOf_mark inside .openBracket (by decide)).trans (congrArg _ behind)
  · have within : 0 < List.count .openParen (.openBrace :: opened) := by simpa using inside
    have behind := keeps.closedBy (fun {_ _ _} => keptOf_mark within .closeBrace (by decide))
      (settled_symbol .openBrace (by decide)) found
    rw [shown_cons (by decide)] at behind
    exact (keptOf_mark inside .openBrace (by decide)).trans (congrArg _ behind)

end Reader

end QueryEditor
