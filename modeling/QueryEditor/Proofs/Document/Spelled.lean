import QueryEditor.Proofs.Document.Reading
import QueryEditor.Proofs.Document.Tokens
import QueryEditor.Proofs.Token.Consumed

namespace QueryEditor

open Reader

mutual

/-- A value as tokens spell it, with commas or without. -/
inductive Spelled : List Lexeme → Value → Prop
  | null (comma : Bool) : Spelled [⟨.name "null", comma⟩] .null
  | boolean (truth comma : Bool) :
      Spelled [⟨.name (if truth then "true" else "false"), comma⟩] (.boolean truth)
  | int (number : Int64) (comma : Bool) : Spelled [⟨.int number, comma⟩] (.int number)
  | float (number : Binary64) (comma : Bool) : Spelled [⟨.float number, comma⟩] (.float number)
  | string (content : String) (comma : Bool) : Spelled [⟨.string content, comma⟩] (.string content)
  | enum {name : String} (plain : isLiteralWord name = false) (comma : Bool) :
      Spelled [⟨.name name, comma⟩] (.enum name)
  | variable (name : String) (first second : Bool) :
      Spelled [⟨.symbol .dollar, first⟩, ⟨.name name, second⟩] (.variable name)
  | list {parts : List (List Lexeme × Value)} (each : ∀ part ∈ parts, Spelled part.1 part.2)
      (first last : Bool) :
      Spelled (⟨.symbol .openBracket, first⟩ :: (parts.flatMap (·.1) ++ [⟨.symbol .closeBracket, last⟩]))
        (.list (parts.map (·.2)))
  | object {parts : List (List Lexeme × Option Slot)} (each : ∀ part ∈ parts, SpelledField part.1 part.2)
      (first last : Bool) :
      Spelled (⟨.symbol .openBrace, first⟩ :: (parts.flatMap (·.1) ++ [⟨.symbol .closeBrace, last⟩]))
        (.object (parts.filterMap (·.2)))

/-- A field of an object as tokens spell it. A name without a value is let through and stands for nothing. -/
inductive SpelledField : List Lexeme → Option Slot → Prop
  | valued {front : List Lexeme} {value : Value} (spelled : Spelled front value) (name : String)
      (first second : Bool) :
      SpelledField (⟨.name name, first⟩ :: ⟨.symbol .colon, second⟩ :: front) (some ⟨name, value⟩)
  | bare (name : String) (comma : Bool) : SpelledField [⟨.name name, comma⟩] none

end

namespace Grammar

variable {levels : Nat}

theorem sound_slot {read : Reader Value} {property : Value → Prop}
    (sound : Sound read fun front v => Spelled front v ∧ property v) :
    Sound (slot read) fun front field => SpelledField front field ∧ ∀ s ∈ field, property s.value := by
  refine ⟨fun {tokens rest field} found => ?_⟩
  unfold slot at found
  split at found
  case h_1 name first second _ =>
    obtain ⟨⟨v, after⟩, taken, same⟩ := Option.bind_eq_some_iff.mp found
    cases same
    obtain ⟨front, rfl, spelled, holds⟩ := sound.of taken
    refine ⟨_, by simp, .valued spelled name first second, fun s member => ?_⟩
    cases member
    exact holds
  case h_2 name comma _ _ =>
    cases found
    exact ⟨[_], rfl, .bare name comma, nofun⟩
  · cases found

theorem spelled_name (name : String) (comma : Bool) : Spelled [⟨.name name, comma⟩] (namedValue name) := by
  unfold namedValue
  split
  · exact .boolean true comma
  · exact .boolean false comma
  · exact .null comma
  case h_4 t f n =>
    refine .enum ?_ comma
    simp only [isLiteralWord, Bool.or_eq_false_iff, beq_eq_false_iff_ne]
    exact ⟨⟨t, f⟩, n⟩

theorem sound_valueOver {inner : Reader Value}
    (sound : Sound inner fun front v => Spelled front v ∧ v.depth < levels) :
    Sound (valueOver false inner) fun front v => Spelled front v ∧ v.depth ≤ levels := by
  refine ⟨fun {tokens rest v} found => ?_⟩
  unfold valueOver at found
  split at found
  case h_1 first name second _ =>
    cases found
    exact ⟨[_, _], rfl, .variable name first second, Nat.zero_le _⟩
  case h_2 number comma _ =>
    cases found
    exact ⟨[_], rfl, .int number comma, Nat.zero_le _⟩
  case h_3 number comma _ =>
    cases found
    exact ⟨[_], rfl, .float number comma, Nat.zero_le _⟩
  case h_4 content comma _ =>
    cases found
    exact ⟨[_], rfl, .string content comma, Nat.zero_le _⟩
  case h_5 name comma _ =>
    cases found
    refine ⟨[_], rfl, spelled_name name comma, ?_⟩
    unfold namedValue
    split <;> exact Nat.zero_le _
  case h_6 first _ =>
    obtain ⟨⟨items, after⟩, taken, same⟩ := Option.bind_eq_some_iff.mp found
    cases same
    obtain ⟨front, rfl, parts, last, each, rfl, rfl⟩ := (sound.closedBy _).of taken
    refine ⟨_, rfl, .list (fun part member => (each part member).1) first last, ?_⟩
    exact Value.depth_list_le.mpr (List.forall_mem_map.mpr fun part member => (each part member).2)
  case h_7 first _ =>
    obtain ⟨⟨fields, after⟩, taken, same⟩ := Option.bind_eq_some_iff.mp found
    cases same
    obtain ⟨front, rfl, parts, last, each, rfl, rfl⟩ := ((sound_slot sound).closedBy _).of taken
    have whole := Spelled.object (fun part member => (each part member).1) first last
    rw [List.filterMap_map]
    refine ⟨_, rfl, whole, Value.depth_object_le.mpr ?_⟩
    exact List.forall_mem_filterMap.mpr fun part member s same => (each part member).2 s same
  case h_8 => cases found

theorem sound_value : Sound (value false levels) fun front v => Spelled front v ∧ v.depth ≤ levels := by
  induction levels with
  | zero => exact sound_valueOver ⟨fun found => nomatch found⟩
  | succ levels ih =>
    refine sound_valueOver ⟨fun found => ?_⟩
    obtain ⟨front, whole, spelled, depth⟩ := ih.of found
    exact ⟨front, whole, spelled, Nat.lt_succ_of_le depth⟩

end Grammar

theorem Spelled.begins {front : List Lexeme} {v : Value} (spelled : Spelled front v) {mark : Symbol}
    (other : mark ≠ .dollar ∧ mark ≠ .openBracket ∧ mark ≠ .openBrace) (after : List Lexeme) :
    startsWith mark (front ++ after) = false := by
  obtain ⟨dollar, bracket, brace⟩ := other
  cases spelled <;> simp [startsWith, Ne.symm dollar, Ne.symm bracket, Ne.symm brace]

theorem SpelledField.begins {front : List Lexeme} {field : Option Slot} (spelled : SpelledField front field)
    (mark : Symbol) (after : List Lexeme) : startsWith mark (front ++ after) = false := by
  cases spelled <;> rfl

theorem Spelled.ne_nil {front : List Lexeme} {v : Value} (spelled : Spelled front v) : front ≠ [] := by
  cases spelled <;> simp

namespace Grammar

variable {levels : Nat}

section Inner

variable {inner : Reader Value} (reads : ∀ {front v}, Spelled front v → v.depth < levels → ∀ rest,
  inner (front ++ rest) = some (v, rest))
include reads

theorem takes_part {front : List Lexeme} {v : Value} (spelled : Spelled front v) (depth : v.depth < levels) :
    Takes inner [] (fun _ => front) v :=
  ⟨fun _ after _ => reads spelled depth after, fun _ _ => rfl, fun _ => spelled.ne_nil⟩

theorem takes_field {front : List Lexeme} {field : Option Slot} (spelled : SpelledField front field)
    (depth : ∀ s ∈ field, s.value.depth < levels) :
    Takes (slot inner) [.colon] (fun _ => front) field := by
  cases spelled with
  | valued spelled name first second =>
    refine ⟨fun _ after _ => ?_, fun _ _ => by simp, fun _ => List.cons_ne_nil _ _⟩
    simp [slot, reads spelled (depth _ rfl) after]
  | bare name comma =>
    refine ⟨fun _ after follows => ?_, fun _ _ => by simp, fun _ => List.cons_ne_nil _ _⟩
    have noColon := startsWith_of_avoids follows .colon (by simp)
    unfold slot
    split
    case h_1 same =>
      cases same
      cases noColon
    case h_2 same =>
      cases same
      rfl
    case h_3 _ never => exact absurd rfl (never _ _ _)

theorem valueOver_of_spelled {front : List Lexeme} {v : Value} (spelled : Spelled front v)
    (depth : v.depth ≤ levels) (rest : List Lexeme) :
    valueOver false inner (front ++ rest) = some (v, rest) := by
  cases spelled with
  | boolean truth comma => cases truth <;> rfl
  | enum plain comma => simp [valueOver, namedValue_enum plain]
  | @list parts each first last =>
    rw [Value.depth_list_le, List.forall_mem_map] at depth
    have starts : ∀ part ∈ parts, ∀ after, startsWith .closeBracket (part.1 ++ after) = false :=
      fun part member => (each part member).begins (by decide)
    have inside := closedBy_parts
      (fun part member => takes_part reads (each part member) (depth part member)) starts rfl last rest
    simp [valueOver, inside]
  | object each first last =>
    rw [Value.depth_object_le, List.forall_mem_filterMap] at depth
    have inside := closedBy_parts
      (fun part member => takes_field reads (each part member) (depth part member))
      (fun part member => (each part member).begins .closeBrace) rfl last rest
    simp [valueOver, inside, List.filterMap_map]
  | _ => rfl

end Inner

theorem value_of_spelled {front : List Lexeme} {v : Value} (spelled : Spelled front v)
    (depth : v.depth ≤ levels) (rest : List Lexeme) :
    value false levels (front ++ rest) = some (v, rest) := by
  induction levels generalizing front v rest with
  | zero => exact valueOver_of_spelled (fun _ never => absurd never (Nat.not_lt_zero _)) spelled depth rest
  | succ levels ih =>
    exact valueOver_of_spelled (fun spelled depth => ih spelled (Nat.le_of_lt_succ depth)) spelled depth rest

/-- A reader of values takes exactly the spellings of a value that nests no deeper than it may. -/
theorem value_eq_some {tokens rest : List Lexeme} {v : Value} :
    value false levels tokens = some (v, rest) ↔
      ∃ front, tokens = front ++ rest ∧ Spelled front v ∧ v.depth ≤ levels := by
  constructor
  · exact sound_value.of
  · rintro ⟨front, rfl, spelled, depth⟩
    exact value_of_spelled spelled depth rest

end Grammar

theorem Lexeme.enclosed_ne {α : Type} {parts : List (List Lexeme × α)} {left right token : Token}
    (others : left ≠ token ∧ right ≠ token)
    (each : ∀ part ∈ parts, ∀ lexeme ∈ part.1, lexeme.token ≠ token) (first last : Bool) :
    ∀ lexeme ∈ ⟨left, first⟩ :: (parts.flatMap (·.1) ++ [⟨right, last⟩]), lexeme.token ≠ token := by
  intro lexeme member
  simp only [List.mem_cons, List.mem_append, List.mem_flatMap, List.not_mem_nil, or_false] at member
  rcases member with rfl | ⟨part, listed, inside⟩ | rfl
  · exact others.1
  · exact each part listed lexeme inside
  · exact others.2

theorem Spelled.not_closeParen {front : List Lexeme} {v : Value} (spelled : Spelled front v) :
    ∀ lexeme ∈ front, lexeme.token ≠ .symbol .closeParen := by
  induction v using Value.inductionOn generalizing front with
  | list items ih =>
    cases spelled with
    | list each first last =>
      refine Lexeme.enclosed_ne (by decide) (fun part listed => ?_) first last
      exact ih _ (List.mem_map_of_mem listed) (each part listed)
  | object fields ih =>
    cases spelled with
    | object each first last =>
      refine Lexeme.enclosed_ne (by decide) (fun part listed lexeme inside => ?_) first last
      obtain ⟨front, field⟩ := part
      cases each _ listed with
      | valued spelled name first second =>
        simp only [List.mem_cons] at inside
        rcases inside with rfl | rfl | inside
        · simp
        · simp
        · exact ih ⟨name, _⟩ (List.mem_filterMap.mpr ⟨_, listed, rfl⟩) spelled lexeme inside
      | bare name comma =>
        cases List.mem_singleton.mp inside
        simp
  | _ =>
    cases spelled
    simp

theorem List.exists_parts {α β γ : Type} {f : α → β} {g : γ → List β} {tokens : List α} {items : List γ}
    (same : tokens.map f = items.flatMap g) :
    ∃ parts : List (List α × γ), tokens = parts.flatMap (·.1) ∧ items = parts.map (·.2) ∧
      ∀ part ∈ parts, part.1.map f = g part.2 := by
  induction items generalizing tokens with
  | nil =>
    rw [List.flatMap_nil, List.map_eq_nil_iff] at same
    exact ⟨[], same, rfl, by simp⟩
  | cons item others ih =>
    rw [List.flatMap_cons, List.map_eq_append_iff] at same
    obtain ⟨front, rest, rfl, head, tail⟩ := same
    obtain ⟨parts, rfl, rfl, each⟩ := ih tail
    exact ⟨(front, item) :: parts, rfl, rfl, List.forall_mem_cons.mpr ⟨head, each⟩⟩

theorem Lexeme.exists_single {front : List Lexeme} {token : Token} (same : front.map (·.token) = [token]) :
    ∃ comma, front = [⟨token, comma⟩] := by
  obtain ⟨⟨_, comma⟩, rfl, rfl⟩ := List.map_eq_singleton_iff.mp same
  exact ⟨comma, rfl⟩

theorem Lexeme.exists_enclosed {front : List Lexeme} {left right : Token} {inside : List Token}
    (same : front.map (·.token) = left :: inside ++ [right]) :
    ∃ first middle last, front = ⟨left, first⟩ :: (middle ++ [⟨right, last⟩]) ∧
      middle.map (·.token) = inside := by
  obtain ⟨⟨_, first⟩, rest, rfl, rfl, behind⟩ := List.map_eq_cons_iff.mp same
  obtain ⟨middle, ending, rfl, whole, closing⟩ := List.map_eq_append_iff.mp behind
  obtain ⟨last, rfl⟩ := exists_single closing
  exact ⟨first, middle, last, rfl, whole⟩

theorem spelledField_of_tokens {slot : Slot} {front : List Lexeme}
    (value : ∀ front : List Lexeme, front.map (·.token) = slot.value.tokens → Spelled front slot.value)
    (same : front.map (·.token) = .name slot.name :: .symbol .colon :: slot.value.tokens) :
    SpelledField front (some slot) := by
  obtain ⟨⟨_, comma⟩, rest, rfl, rfl, behind⟩ := List.map_eq_cons_iff.mp same
  obtain ⟨⟨_, second⟩, inside, rfl, rfl, whole⟩ := List.map_eq_cons_iff.mp behind
  exact .valued (value inside whole) slot.name comma second

theorem spelled_of_tokens {v : Value} (enums : v.all .enums = true) {front : List Lexeme}
    (same : front.map (·.token) = v.tokens) : Spelled front v := by
  induction v using Value.inductionOn generalizing front with
  | null =>
    obtain ⟨comma, rfl⟩ := Lexeme.exists_single same
    exact .null comma
  | boolean truth =>
    obtain ⟨comma, rfl⟩ := Lexeme.exists_single same
    exact .boolean truth comma
  | int number =>
    obtain ⟨comma, rfl⟩ := Lexeme.exists_single same
    exact .int number comma
  | float number =>
    obtain ⟨comma, rfl⟩ := Lexeme.exists_single same
    exact .float number comma
  | string content =>
    obtain ⟨comma, rfl⟩ := Lexeme.exists_single same
    exact .string content comma
  | enum name =>
    obtain ⟨comma, rfl⟩ := Lexeme.exists_single same
    exact .enum (by simpa [Value.all, Check.enums] using enums) comma
  | «variable» name =>
    obtain ⟨⟨_, first⟩, rest, rfl, rfl, behind⟩ := List.map_eq_cons_iff.mp same
    obtain ⟨second, rfl⟩ := Lexeme.exists_single behind
    exact .variable name first second
  | list items ih =>
    rw [Value.all, Bool.and_eq_true, Value.allItems_iff] at enums
    rw [Value.tokens, Value.tokensOfItems_eq] at same
    obtain ⟨first, middle, last, rfl, inside⟩ := Lexeme.exists_enclosed same
    obtain ⟨parts, rfl, rfl, each⟩ := List.exists_parts inside
    refine .list (fun part member => ?_) first last
    have listed : part.2 ∈ parts.map (·.2) := List.mem_map_of_mem member
    exact ih _ listed (enums.2 _ listed) (each part member)
  | object fields ih =>
    rw [Value.all, Bool.and_eq_true, Value.allSlots_iff] at enums
    rw [Value.tokens, Value.tokensOfSlots_eq] at same
    obtain ⟨first, middle, last, rfl, inside⟩ := Lexeme.exists_enclosed same
    obtain ⟨parts, rfl, rfl, each⟩ := List.exists_parts inside
    have field : ∀ part ∈ parts.map fun part => (part.1, some part.2), SpelledField part.1 part.2 := by
      rw [List.forall_mem_map]
      intro part member
      have listed : part.2 ∈ parts.map (·.2) := List.mem_map_of_mem member
      exact spelledField_of_tokens (fun _ => ih part.2 listed (enums.2 part.2 listed).2) (each part member)
    have whole := Spelled.object field first last
    simpa [List.flatMap_map, List.filterMap_map, Function.comp_def] using whole

end QueryEditor
