import QueryEditor.Token.Parsing
import QueryEditor.Proofs.Token.Scanning

namespace QueryEditor

open Lexeme

namespace Reader

variable {α β : Type}

@[simp] theorem symbol_cons (mark : Symbol) (afterComma : Bool) (rest : List Lexeme) :
    symbol mark (⟨.symbol mark, afterComma⟩ :: rest) = some ((), rest) := by
  simp [symbol]

@[simp] theorem name_cons (text : String) (afterComma : Bool) (rest : List Lexeme) :
    name (⟨.name text, afterComma⟩ :: rest) = some (text, rest) := rfl

@[simp] theorem keyword_cons (word : String) (afterComma : Bool) (rest : List Lexeme) :
    keyword word (⟨.name word, afterComma⟩ :: rest) = some ((), rest) := by
  simp [keyword]

@[simp] theorem startsWith_symbol (mark other : Symbol) (afterComma : Bool) (rest : List Lexeme) :
    startsWith mark (⟨.symbol other, afterComma⟩ :: rest) = (other == mark) := rfl

@[simp] theorem startsWith_name (mark : Symbol) (text : String) (afterComma : Bool)
    (rest : List Lexeme) : startsWith mark (⟨.name text, afterComma⟩ :: rest) = false := rfl

@[simp] theorem startsWith_nil (mark : Symbol) : startsWith mark [] = false := rfl

theorem whenever_present {present : List Lexeme → Bool} {absent : α} {read : Reader α}
    {tokens : List Lexeme} (there : present tokens = true) :
    whenever present absent read tokens = read tokens := by
  rw [whenever, if_pos there]

theorem whenever_absent {present : List Lexeme → Bool} {absent : α} {read : Reader α}
    {tokens : List Lexeme} (missing : present tokens = false) :
    whenever present absent read tokens = some (absent, tokens) := by
  rw [whenever, if_neg (by simp [missing])]

section Taken

variable {tokens rest : List Lexeme}

theorem of_symbol {mark : Symbol} {taken : Unit} (found : symbol mark tokens = some (taken, rest)) :
    ∃ afterComma, tokens = ⟨.symbol mark, afterComma⟩ :: rest := by
  unfold symbol at found
  split at found
  · split at found
    case isTrue same =>
      cases found
      subst same
      exact ⟨_, rfl⟩
    · cases found
  · cases found

theorem of_name {text : String} (found : name tokens = some (text, rest)) :
    ∃ afterComma, tokens = ⟨.name text, afterComma⟩ :: rest := by
  unfold name at found
  split at found
  · cases found
    exact ⟨_, rfl⟩
  · cases found

theorem of_keyword {word : String} {taken : Unit}
    (found : keyword word tokens = some (taken, rest)) :
    ∃ afterComma, tokens = ⟨.name word, afterComma⟩ :: rest := by
  unfold keyword at found
  split at found
  · split at found
    case isTrue same =>
      cases found
      subst same
      exact ⟨_, rfl⟩
    · cases found
  · cases found

theorem closedBy_of_someClosedBy {close : Symbol} {read : Reader α} {items : List α}
    (found : someClosedBy close read tokens = some (items, rest)) :
    closedBy close read tokens = some (items, rest) ∧ items ≠ [] := by
  obtain ⟨⟨inside, middle⟩, taken, found⟩ := Option.bind_eq_some_iff.mp found
  dsimp only at found
  split at found
  · cases found
  case isFalse nonempty =>
    cases found
    exact ⟨taken, by simpa using nonempty⟩

theorem whenever_cases {present : List Lexeme → Bool} {absent a : α} {read : Reader α}
    (never : ∀ after, read tokens ≠ some (absent, after))
    (found : whenever present absent read tokens = some (a, rest)) :
    present tokens = false ∧ a = absent ∧ rest = tokens ∨ present tokens = true ∧ a ≠ absent := by
  rw [whenever] at found
  split at found
  case isTrue there =>
    refine Or.inr ⟨there, ?_⟩
    rintro rfl
    exact never rest found
  case isFalse missing =>
    cases found
    exact Or.inl ⟨by simpa using missing, rfl, rfl⟩

theorem many_cases {goesOn : List Lexeme → Bool} {read : Reader α} {items : List α}
    (finished : goesOn [] = false) (found : many goesOn read tokens = some (items, rest)) :
    goesOn tokens = false ∧ items = [] ∧ rest = tokens ∨ goesOn tokens = true ∧ items ≠ [] := by
  cases tokens with
  | nil =>
    rw [many, List.length_nil, rounds, if_neg (by simp [finished])] at found
    cases found
    exact Or.inl ⟨finished, rfl, rfl⟩
  | cons first others =>
    rw [many, List.length_cons, rounds] at found
    split at found
    case isTrue starts =>
      obtain ⟨_, _, found⟩ := Option.bind_eq_some_iff.mp found
      obtain ⟨_, _, same⟩ := Option.bind_eq_some_iff.mp found
      cases same
      exact Or.inr ⟨starts, List.cons_ne_nil _ _⟩
    case isFalse stops =>
      cases found
      exact Or.inl ⟨by simpa using stops, rfl, rfl⟩

end Taken

def avoids (marks : List Symbol) (tokens : List Lexeme) : Bool :=
  marks.all (!startsWith · tokens)

theorem startsWith_of_avoids {marks : List Symbol} {tokens : List Lexeme}
    (free : avoids marks tokens = true) (mark : Symbol) (member : mark ∈ marks) :
    startsWith mark tokens = false := by
  rw [avoids, List.all_eq_true] at free
  simpa using free mark member

@[simp] theorem avoids_nothing (tokens : List Lexeme) : avoids [] tokens = true := rfl

@[simp] theorem avoids_name (marks : List Symbol) (text : String) (afterComma : Bool)
    (rest : List Lexeme) : avoids marks (⟨.name text, afterComma⟩ :: rest) = true := by
  simp [avoids]

@[simp] theorem avoids_symbol (marks : List Symbol) (mark : Symbol) (afterComma : Bool)
    (rest : List Lexeme) :
    avoids marks (⟨.symbol mark, afterComma⟩ :: rest) = !marks.contains mark := by
  induction marks with
  | nil => rfl
  | cons first others ih =>
    rw [avoids, List.all_cons, ← avoids, ih, startsWith_symbol, List.contains_cons, Bool.not_or]

/-- A reader takes the tokens of a thing, unless one of some marks comes after them; it starts with
none of these marks itself. -/
structure Takes (read : Reader β) (marks : List Symbol) (lexemes : Bool → List Lexeme)
    (result : β) : Prop where
  reads : ∀ afterComma after, avoids marks after = true →
    read (lexemes afterComma ++ after) = some (result, after)
  begins : ∀ afterComma after, avoids marks (lexemes afterComma ++ after) = true
  nonempty : ∀ afterComma, lexemes afterComma ≠ []

section Series

variable (goesOn : List Lexeme → Bool) {read : Reader β} {marks : List Symbol}
  {lexemes : Bool → α → List Lexeme} {result : α → β} {items : List α} (rest : List Lexeme)

theorem length_le_series (each : ∀ a ∈ items, ∀ afterComma, lexemes afterComma a ≠ [])
    (afterComma : Bool) : items.length ≤ (series lexemes afterComma items).length := by
  induction items generalizing afterComma with
  | nil => exact Nat.zero_le _
  | cons a others ih =>
    have first := List.length_pos_iff.mpr (each a List.mem_cons_self afterComma)
    have further := ih (fun b member => each b (List.mem_cons_of_mem a member)) true
    rw [series, List.length_append, List.length_cons]
    omega

theorem rounds_series (each : ∀ a ∈ items, Takes read marks (lexemes · a) (result a))
    (starts : ∀ a ∈ items, ∀ afterComma after, goesOn (lexemes afterComma a ++ after) = true)
    (follows : avoids marks rest = true) (stops : goesOn rest = false) {steps : Nat}
    (enough : items.length ≤ steps) (afterComma : Bool) :
    rounds goesOn read steps (series lexemes afterComma items ++ rest) =
      some (items.map result, rest) := by
  induction items generalizing steps afterComma with
  | nil =>
    have nothing : series lexemes afterComma [] ++ rest = rest := rfl
    rw [nothing]
    cases steps <;> simp [rounds, stops]
  | cons a others ih =>
    obtain ⟨steps, rfl⟩ : ∃ fewer, steps = fewer + 1 :=
      ⟨steps - 1, by rw [List.length_cons] at enough; omega⟩
    have first := each a List.mem_cons_self
    have further := ih (fun b member => each b (List.mem_cons_of_mem a member))
      (fun b member => starts b (List.mem_cons_of_mem a member))
      (Nat.le_of_succ_le_succ enough) true
    -- The thing after the first starts with none of the marks, so that the first is read whole.
    have next : avoids marks (series lexemes true others ++ rest) = true := by
      cases others with
      | nil => exact follows
      | cons b others =>
        rw [series, List.append_assoc]
        exact (each b (by simp)).begins true _
    rw [series, List.append_assoc, rounds, if_pos (starts a List.mem_cons_self afterComma _),
      first.reads afterComma _ next]
    simp [further]

theorem many_series (each : ∀ a ∈ items, Takes read marks (lexemes · a) (result a))
    (starts : ∀ a ∈ items, ∀ afterComma after, goesOn (lexemes afterComma a ++ after) = true)
    (follows : avoids marks rest = true) (stops : goesOn rest = false) (afterComma : Bool) :
    many goesOn read (series lexemes afterComma items ++ rest) = some (items.map result, rest) := by
  apply rounds_series goesOn rest each starts follows stops
  -- As many rounds as there are tokens are enough, since no thing is without tokens.
  have length := length_le_series (fun a member => (each a member).nonempty) afterComma
  rw [List.length_append]
  omega

theorem closedBy_series (close : Symbol)
    (each : ∀ a ∈ items, Takes read marks (lexemes · a) (result a))
    (starts : ∀ a ∈ items, ∀ afterComma after,
      startsWith close (lexemes afterComma a ++ after) = false)
    (follows : marks.contains close = false) :
    closedBy close read (series lexemes false items ++ ⟨.symbol close, false⟩ :: rest) =
      some (items.map result, rest) := by
  have inside := many_series (fun tokens => !startsWith close tokens)
    (⟨.symbol close, false⟩ :: rest) each
    (fun a member afterComma after => by rw [starts a member afterComma after]; rfl)
    (by rw [avoids_symbol, follows]; rfl) (by simp) false
  simp [closedBy, inside]

theorem someClosedBy_series (close : Symbol) (nonempty : items ≠ [])
    (each : ∀ a ∈ items, Takes read marks (lexemes · a) (result a))
    (starts : ∀ a ∈ items, ∀ afterComma after,
      startsWith close (lexemes afterComma a ++ after) = false)
    (follows : marks.contains close = false) :
    someClosedBy close read (series lexemes false items ++ ⟨.symbol close, false⟩ :: rest) =
      some (items.map result, rest) := by
  rw [someClosedBy, closedBy_series rest close each starts follows]
  simp [nonempty]

theorem series_plain (lexemes : α → List Lexeme) (afterComma : Bool) (items : List α) :
    series (fun _ => lexemes) afterComma items = items.flatMap lexemes := by
  induction items generalizing afterComma with
  | nil => rfl
  | cons a others ih => rw [series, ih, List.flatMap_cons]

end Series

end Reader

end QueryEditor
