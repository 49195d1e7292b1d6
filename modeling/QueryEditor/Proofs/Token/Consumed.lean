import QueryEditor.Proofs.Token.Repetition

namespace QueryEditor

namespace Reader

variable {α β : Type}

/-- A reader that answers takes so many tokens at least. -/
structure Consumes (least : Nat) (read : Reader α) : Prop where
  of : ∀ {tokens rest a}, read tokens = some (a, rest) → rest.length + least ≤ tokens.length

theorem Consumes.fewer {read : Reader α} {least : Nat} (consumes : Consumes least read) :
    Consumes 0 read :=
  ⟨fun found => by have := consumes.of found; omega⟩

theorem consumes_symbol (mark : Symbol) : Consumes 1 (symbol mark) := by
  refine ⟨fun found => ?_⟩
  obtain ⟨_, rfl⟩ := of_symbol found
  exact Nat.le_refl _

theorem consumes_name : Consumes 1 name := by
  refine ⟨fun found => ?_⟩
  obtain ⟨_, rfl⟩ := of_name found
  exact Nat.le_refl _

theorem consumes_keyword (word : String) : Consumes 1 (keyword word) := by
  refine ⟨fun found => ?_⟩
  obtain ⟨_, rfl⟩ := of_keyword found
  exact Nat.le_refl _

theorem Consumes.whenever {read : Reader α} {least : Nat} (consumes : Consumes least read)
    (present : List Lexeme → Bool) (absent : α) : Consumes 0 (whenever present absent read) := by
  refine ⟨fun {tokens rest a} found => ?_⟩
  rw [Reader.whenever] at found
  split at found
  · exact consumes.fewer.of found
  · cases found
    exact Nat.le_refl _

theorem Consumes.optional {read : Reader α} {least : Nat} (consumes : Consumes least read)
    (present : List Lexeme → Bool) :
    Consumes 0 (Reader.whenever present none fun tokens => do
      let (a, rest) ← read tokens
      some (some a, rest)) := by
  refine Consumes.whenever (show Consumes 0 _ from ⟨fun {tokens rest a?} found => ?_⟩) present none
  obtain ⟨⟨_, _⟩, taken, same⟩ := Option.bind_eq_some_iff.mp found
  cases same
  exact consumes.fewer.of taken

theorem Consumes.rounds {read : Reader α} {least : Nat} (consumes : Consumes least read)
    (goesOn : List Lexeme → Bool) (steps : Nat) : Consumes 0 (rounds goesOn read steps) := by
  induction steps with
  | zero =>
    refine ⟨fun {tokens rest items} found => ?_⟩
    rw [Reader.rounds] at found
    split at found
    · cases found
    · cases found
      exact Nat.le_refl _
  | succ steps ih =>
    refine ⟨fun {tokens rest items} found => ?_⟩
    rw [Reader.rounds] at found
    split at found
    · obtain ⟨⟨first, middle⟩, taken, found⟩ := Option.bind_eq_some_iff.mp found
      obtain ⟨⟨others, after⟩, further, same⟩ := Option.bind_eq_some_iff.mp found
      cases same
      have head := consumes.fewer.of taken
      have tail := ih.of further
      omega
    · cases found
      exact Nat.le_refl _

theorem Consumes.many {read : Reader α} {least : Nat} (consumes : Consumes least read)
    (goesOn : List Lexeme → Bool) : Consumes 0 (many goesOn read) :=
  ⟨fun {tokens _ _} found => (consumes.rounds goesOn tokens.length).of found⟩

theorem Consumes.closedBy {read : Reader α} {least : Nat} (consumes : Consumes least read)
    (close : Symbol) : Consumes 1 (closedBy close read) := by
  refine ⟨fun {tokens rest items} found => ?_⟩
  obtain ⟨⟨inside, middle⟩, taken, found⟩ := Option.bind_eq_some_iff.mp found
  obtain ⟨⟨_, after⟩, closing, same⟩ := Option.bind_eq_some_iff.mp found
  cases same
  have before := (consumes.many _).of taken
  have mark := (consumes_symbol close).of closing
  omega

theorem Consumes.someClosedBy {read : Reader α} {least : Nat} (consumes : Consumes least read)
    (close : Symbol) : Consumes 1 (someClosedBy close read) :=
  ⟨fun found => (consumes.closedBy close).of (closedBy_of_someClosedBy found).1⟩

theorem Consumes.nil {read : Reader α} (consumes : Consumes 1 read) : read [] = none := by
  cases found : read [] with
  | none => rfl
  | some answer =>
    obtain ⟨a, rest⟩ := answer
    have least := consumes.of found
    rw [List.length_nil] at least
    omega

section Rounds

variable {read : Reader α} (consumes : Consumes 1 read) (goesOn : List Lexeme → Bool)
include consumes

theorem rounds_steps {steps more : Nat} {tokens : List Lexeme} (enough : tokens.length ≤ steps)
    (enoughMore : tokens.length ≤ more) :
    rounds goesOn read steps tokens = rounds goesOn read more tokens := by
  -- Each round leaves fewer tokens, so that the steps left are enough again.
  induction steps generalizing more tokens with
  | zero =>
    rw [Nat.le_zero, List.length_eq_zero_iff] at enough
    subst enough
    cases more <;> simp [rounds, consumes.nil]
  | succ steps ih =>
    cases more with
    | zero =>
      rw [Nat.le_zero, List.length_eq_zero_iff] at enoughMore
      subst enoughMore
      simp [rounds, consumes.nil]
    | succ more =>
      rw [rounds, rounds]
      split
      case isFalse => rfl
      case isTrue =>
        cases taken : read tokens with
        | none => rfl
        | some answer =>
          obtain ⟨first, rest⟩ := answer
          have least := consumes.of taken
          simp only [Option.bind_eq_bind, Option.bind_some]
          have same : rounds goesOn read steps rest = rounds goesOn read more rest :=
            ih (by omega) (by omega)
          rw [same]

theorem many_goesOn {tokens : List Lexeme} (starts : goesOn tokens = true) :
    many goesOn read tokens = (read tokens).bind fun (first, rest) =>
      (many goesOn read rest).map fun (others, after) => (first :: others, after) := by
  have enough : tokens.length ≤ tokens.length + 1 := Nat.le_succ _
  rw [many, rounds_steps consumes goesOn (Nat.le_refl _) enough, rounds, if_pos starts]
  cases taken : read tokens with
  | none => rfl
  | some answer =>
    obtain ⟨first, rest⟩ := answer
    have least := consumes.of taken
    simp only [Option.bind_eq_bind, Option.bind_some]
    have further : rounds goesOn read tokens.length rest = many goesOn read rest :=
      rounds_steps consumes goesOn (by omega) (Nat.le_refl _)
    rw [further]
    cases many goesOn read rest <;> rfl

theorem closedBy_goesOn {close : Symbol} {tokens : List Lexeme}
    (starts : startsWith close tokens = false) :
    closedBy close read tokens = (read tokens).bind fun (first, rest) =>
      (closedBy close read rest).map fun (others, after) => (first :: others, after) := by
  rw [closedBy, many_goesOn consumes _ (by simp [starts])]
  cases taken : read tokens with
  | none => rfl
  | some answer =>
    obtain ⟨first, rest⟩ := answer
    simp only [Option.bind_eq_bind, Option.bind_some, closedBy]
    cases inside : many (fun tokens => !startsWith close tokens) read rest with
    | none => rfl
    | some answer =>
      obtain ⟨others, after⟩ := answer
      cases closing : symbol close after <;> simp [closing]

theorem someClosedBy_goesOn {close : Symbol} {tokens : List Lexeme}
    (starts : startsWith close tokens = false) :
    someClosedBy close read tokens = (read tokens).bind fun (first, rest) =>
      (closedBy close read rest).map fun (others, after) => (first :: others, after) := by
  rw [someClosedBy, closedBy_goesOn consumes starts]
  cases read tokens with
  | none => rfl
  | some answer =>
    obtain ⟨first, rest⟩ := answer
    cases inside : closedBy close read rest <;> simp [inside]

end Rounds

/-- What a reader answers with is spelled by the tokens that it takes. -/
structure Sound (read : Reader α) (spelled : List Lexeme → α → Prop) : Prop where
  of : ∀ {tokens rest a}, read tokens = some (a, rest) →
    ∃ front, tokens = front ++ rest ∧ spelled front a

theorem Sound.rounds {read : Reader α} {spelled : List Lexeme → α → Prop} (sound : Sound read spelled)
    (goesOn : List Lexeme → Bool) (steps : Nat) :
    Sound (rounds goesOn read steps) fun front items =>
      ∃ parts : List (List Lexeme × α), (∀ part ∈ parts, spelled part.1 part.2) ∧
        front = parts.flatMap (·.1) ∧ items = parts.map (·.2) := by
  induction steps with
  | zero =>
    refine ⟨fun {tokens rest items} found => ?_⟩
    rw [Reader.rounds] at found
    split at found
    · cases found
    · cases found
      exact ⟨[], rfl, [], by simp, rfl, rfl⟩
  | succ steps ih =>
    refine ⟨fun {tokens rest items} found => ?_⟩
    rw [Reader.rounds] at found
    split at found
    · obtain ⟨⟨first, middle⟩, taken, found⟩ := Option.bind_eq_some_iff.mp found
      obtain ⟨⟨others, after⟩, further, same⟩ := Option.bind_eq_some_iff.mp found
      cases same
      obtain ⟨head, rfl, spelledHead⟩ := sound.of taken
      obtain ⟨tail, rfl, parts, each, rfl, rfl⟩ := ih.of further
      refine ⟨head ++ parts.flatMap (·.1), by simp, (head, first) :: parts, ?_, rfl, rfl⟩
      exact List.forall_mem_cons.mpr ⟨spelledHead, each⟩
    · cases found
      exact ⟨[], rfl, [], by simp, rfl, rfl⟩

theorem Sound.closedBy {read : Reader α} {spelled : List Lexeme → α → Prop}
    (sound : Sound read spelled) (close : Symbol) :
    Sound (closedBy close read) fun front items =>
      ∃ (parts : List (List Lexeme × α)) (afterComma : Bool),
        (∀ part ∈ parts, spelled part.1 part.2) ∧
        front = parts.flatMap (·.1) ++ [⟨.symbol close, afterComma⟩] ∧ items = parts.map (·.2) := by
  refine ⟨fun {tokens rest items} found => ?_⟩
  obtain ⟨⟨inside, middle⟩, taken, found⟩ := Option.bind_eq_some_iff.mp found
  obtain ⟨⟨_, after⟩, closing, same⟩ := Option.bind_eq_some_iff.mp found
  cases same
  obtain ⟨front, rfl, parts, each, rfl, rfl⟩ := (sound.rounds _ _).of taken
  obtain ⟨afterComma, rfl⟩ := of_symbol closing
  exact ⟨_, by simp, parts, afterComma, each, rfl, rfl⟩

theorem closedBy_parts {read : Reader β} {marks : List Symbol} {close : Symbol}
    {parts : List (List Lexeme × β)} (each : ∀ part ∈ parts, Takes read marks (fun _ => part.1) part.2)
    (starts : ∀ part ∈ parts, ∀ after, startsWith close (part.1 ++ after) = false)
    (follows : marks.contains close = false) (afterComma : Bool) (rest : List Lexeme) :
    closedBy close read (parts.flatMap (·.1) ++ ⟨.symbol close, afterComma⟩ :: rest) =
      some (parts.map (·.2), rest) := by
  have goesOn : ∀ part ∈ parts, ∀ (_ : Bool) after, (!startsWith close (part.1 ++ after)) = true := by
    intro part member _ after
    rw [starts part member after]
    rfl
  have inside := many_series (fun tokens => !startsWith close tokens)
    (⟨.symbol close, afterComma⟩ :: rest) each goesOn (by rw [avoids_symbol, follows]; rfl) (by simp)
    false
  rw [series_plain] at inside
  simp [closedBy, inside]

end Reader

end QueryEditor
