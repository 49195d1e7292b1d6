import QueryEditor.Document.Parser
import QueryEditor.Proofs.Document.WellFormed
import QueryEditor.Proofs.Token.Lexing
import QueryEditor.Proofs.Token.Repetition

namespace QueryEditor

open Text Reader

def Lexeme.isProper (float : Binary64 → Bool) (lexeme : Lexeme) : Bool :=
  match lexeme.token with
  | .name text => isName text
  | .float number => float number
  | _ => true

namespace Reader

variable {α β : Type} {float : Binary64 → Bool}

/-- From proper tokens, a reader answers only with things that have a property, and leaves proper
tokens. -/
structure Gives (float : Binary64 → Bool) (read : Reader α) (property : α → Prop) : Prop where
  of : ∀ {tokens rest a}, tokens.all (Lexeme.isProper float) = true → read tokens = some (a, rest) →
    property a ∧ rest.all (Lexeme.isProper float) = true

theorem Gives.weaken {read : Reader α} {property weaker : α → Prop} (gives : Gives float read property)
    (implied : ∀ a, property a → weaker a) : Gives float read weaker := by
  refine ⟨fun {tokens rest a} proper found => ?_⟩
  obtain ⟨holds, left⟩ := gives.of proper found
  exact ⟨implied a holds, left⟩

theorem gives_symbol (mark : Symbol) : Gives float (symbol mark) fun _ => True := by
  refine ⟨fun {tokens rest a} proper found => ?_⟩
  obtain ⟨_, rfl⟩ := of_symbol found
  rw [List.all_cons, Bool.and_eq_true] at proper
  exact ⟨trivial, proper.2⟩

theorem gives_name : Gives float name fun text => isName text = true := by
  refine ⟨fun {tokens rest a} proper found => ?_⟩
  obtain ⟨_, rfl⟩ := of_name found
  rw [List.all_cons, Bool.and_eq_true] at proper
  exact proper

theorem gives_keyword (word : String) : Gives float (keyword word) fun _ => True := by
  refine ⟨fun {tokens rest a} proper found => ?_⟩
  obtain ⟨_, rfl⟩ := of_keyword found
  rw [List.all_cons, Bool.and_eq_true] at proper
  exact ⟨trivial, proper.2⟩

theorem Gives.rounds {read : Reader α} {property : α → Prop} (gives : Gives float read property)
    (goesOn : List Lexeme → Bool) (steps : Nat) :
    Gives float (rounds goesOn read steps) fun items => ∀ a ∈ items, property a := by
  -- The number of steps only bounds the rounds; what each of them gives does not depend on it.
  induction steps with
  | zero =>
    refine ⟨fun {tokens rest items} proper found => ?_⟩
    rw [Reader.rounds] at found
    split at found
    · cases found
    · cases found
      exact ⟨by simp, proper⟩
  | succ steps ih =>
    refine ⟨fun {tokens rest items} proper found => ?_⟩
    rw [Reader.rounds] at found
    split at found
    · obtain ⟨⟨first, middle⟩, read, found⟩ := Option.bind_eq_some_iff.mp found
      obtain ⟨⟨others, after⟩, further, same⟩ := Option.bind_eq_some_iff.mp found
      cases same
      obtain ⟨head, proper⟩ := gives.of proper read
      obtain ⟨tail, proper⟩ := ih.of proper further
      refine ⟨fun a member => ?_, proper⟩
      rcases List.mem_cons.mp member with rfl | member
      · exact head
      · exact tail a member
    · cases found
      exact ⟨by simp, proper⟩

theorem Gives.many {read : Reader α} {property : α → Prop} (gives : Gives float read property)
    (goesOn : List Lexeme → Bool) :
    Gives float (many goesOn read) fun items => ∀ a ∈ items, property a :=
  ⟨fun proper found => (gives.rounds goesOn _).of proper found⟩

theorem Gives.closedBy {read : Reader α} {property : α → Prop} (gives : Gives float read property)
    (close : Symbol) : Gives float (closedBy close read) fun items => ∀ a ∈ items, property a := by
  refine ⟨fun {tokens rest items} proper found => ?_⟩
  obtain ⟨⟨inside, middle⟩, read, found⟩ := Option.bind_eq_some_iff.mp found
  obtain ⟨⟨_, after⟩, closing, same⟩ := Option.bind_eq_some_iff.mp found
  cases same
  obtain ⟨holds, proper⟩ := (gives.many _).of proper read
  exact ⟨holds, ((gives_symbol close).of proper closing).2⟩

theorem Gives.someClosedBy {read : Reader α} {property : α → Prop} (gives : Gives float read property)
    (close : Symbol) :
    Gives float (someClosedBy close read) fun items => items ≠ [] ∧ ∀ a ∈ items, property a := by
  refine ⟨fun {tokens rest items} proper found => ?_⟩
  obtain ⟨read, nonempty⟩ := closedBy_of_someClosedBy found
  obtain ⟨holds, proper⟩ := (gives.closedBy close).of proper read
  exact ⟨⟨nonempty, holds⟩, proper⟩

theorem Gives.whenever {read : Reader α} {property : α → Prop} (gives : Gives float read property)
    (present : List Lexeme → Bool) {absent : α} (otherwise : property absent) :
    Gives float (whenever present absent read) property := by
  refine ⟨fun {tokens rest a} proper found => ?_⟩
  rw [Reader.whenever] at found
  split at found
  · exact gives.of proper found
  · cases found
    exact ⟨otherwise, proper⟩

theorem Gives.optional {read : Reader α} {property : α → Prop} (gives : Gives float read property)
    (present : List Lexeme → Bool) :
    Gives float (Reader.whenever present none fun tokens => do
      let (a, rest) ← read tokens
      some (some a, rest)) fun a? => ∀ a ∈ a?, property a := by
  refine Gives.whenever ⟨fun {tokens rest a?} proper found => ?_⟩ _ (by simp)
  obtain ⟨⟨a, _⟩, taken, same⟩ := Option.bind_eq_some_iff.mp found
  cases same
  obtain ⟨holds, proper⟩ := gives.of proper taken
  exact ⟨by simpa using holds, proper⟩

end Reader

namespace Grammar

variable {float : Binary64 → Bool}

/-- What a value is that was read with so many levels left to open. -/
structure ValueRead (float : Binary64 → Bool) (constant : Bool) (levels : Nat) (v : Value) : Prop where
  good : v.all (.grammatical float) = true
  plain : constant = true → v.mentioned = []
  depth : v.depth ≤ levels

theorem ValueRead.succ {constant : Bool} {levels : Nat} {v : Value}
    (read : ValueRead float constant levels v) : v.depth < levels + 1 :=
  Nat.lt_succ_of_le read.depth

theorem namedValue_read {constant : Bool} (levels : Nat) {name : String} (valid : isName name = true) :
    ValueRead float constant levels (namedValue name) := by
  unfold namedValue
  split
  · exact ⟨rfl, fun _ => rfl, Nat.zero_le _⟩
  · exact ⟨rfl, fun _ => rfl, Nat.zero_le _⟩
  · exact ⟨rfl, fun _ => rfl, Nat.zero_le _⟩
  case h_4 t f n =>
    refine ⟨?_, fun _ => rfl, Nat.zero_le _⟩
    have plain : isLiteralWord name = false := by
      simp only [isLiteralWord, Bool.or_eq_false_iff, beq_eq_false_iff_ne]
      exact ⟨⟨t, f⟩, n⟩
    simp [Value.all, Check.grammatical, valid, plain]

theorem gives_slot {value : Reader Value} {property : Value → Prop} (gives : Gives float value property) :
    Gives float (slot value) fun s => ∀ x ∈ s, isName x.name = true ∧ property x.value := by
  refine ⟨fun {tokens rest s} proper found => ?_⟩
  unfold slot at found
  split at found
  case h_1 name _ _ tokens =>
    simp only [List.all_cons, Bool.and_eq_true] at proper
    obtain ⟨⟨v, after⟩, read, same⟩ := Option.bind_eq_some_iff.mp found
    cases same
    obtain ⟨holds, left⟩ := gives.of proper.2.2 read
    refine ⟨fun x member => ?_, left⟩
    cases member
    exact ⟨proper.1, holds⟩
  · cases found
    rw [List.all_cons, Bool.and_eq_true] at proper
    exact ⟨nofun, proper.2⟩
  · cases found

theorem gives_valueOver {constant : Bool} {inner : Reader Value} {levels : Nat}
    (gives : Gives float inner fun v => v.all (.grammatical float) = true ∧
      (constant = true → v.mentioned = []) ∧ v.depth < levels) :
    Gives float (valueOver constant inner) (ValueRead float constant levels) := by
  refine ⟨fun {tokens rest v} proper found => ?_⟩
  unfold valueOver at found
  split at found
  case h_1 name _ tokens =>
    simp only [List.all_cons, Bool.and_eq_true] at proper
    split at found
    · cases found
    case isFalse free =>
      cases found
      exact ⟨⟨proper.2.1, fun constant => absurd constant free, Nat.zero_le _⟩, proper.2.2⟩
  case h_2 =>
    cases found
    rw [List.all_cons, Bool.and_eq_true] at proper
    exact ⟨⟨rfl, fun _ => rfl, Nat.zero_le _⟩, proper.2⟩
  case h_3 =>
    cases found
    rw [List.all_cons, Bool.and_eq_true] at proper
    exact ⟨⟨proper.1, fun _ => rfl, Nat.zero_le _⟩, proper.2⟩
  case h_4 =>
    cases found
    rw [List.all_cons, Bool.and_eq_true] at proper
    exact ⟨⟨rfl, fun _ => rfl, Nat.zero_le _⟩, proper.2⟩
  case h_5 =>
    cases found
    rw [List.all_cons, Bool.and_eq_true] at proper
    exact ⟨namedValue_read levels proper.1, proper.2⟩
  case h_6 =>
    obtain ⟨⟨items, after⟩, read, same⟩ := Option.bind_eq_some_iff.mp found
    cases same
    rw [List.all_cons, Bool.and_eq_true] at proper
    obtain ⟨holds, left⟩ := (gives.closedBy _).of proper.2 read
    refine ⟨⟨?_, fun constant => ?_, ?_⟩, left⟩
    · rw [Value.all, Bool.and_eq_true, Value.allItems_iff]
      exact ⟨rfl, fun item member => (holds item member).1⟩
    · exact Value.mentioned_list.mpr fun item member => (holds item member).2.1 constant
    · exact Value.depth_list_le.mpr fun item member => (holds item member).2.2
  case h_7 =>
    obtain ⟨⟨fields, after⟩, read, same⟩ := Option.bind_eq_some_iff.mp found
    cases same
    rw [List.all_cons, Bool.and_eq_true] at proper
    obtain ⟨holds, left⟩ := ((gives_slot gives).closedBy _).of proper.2 read
    have each : ∀ s ∈ fields.filterMap id, isName s.name = true ∧
        s.value.all (.grammatical float) = true ∧
          (constant = true → s.value.mentioned = []) ∧ s.value.depth < levels :=
      List.forall_mem_filterMap.mpr fun _ member s same => holds _ member s same
    refine ⟨⟨?_, fun constant => ?_, ?_⟩, left⟩
    · rw [Value.all, Bool.and_eq_true, Value.allSlots_iff]
      exact ⟨rfl, fun s member => ⟨(each s member).1, (each s member).2.1⟩⟩
    · exact Value.mentioned_object.mpr fun s member => (each s member).2.2.1 constant
    · exact Value.depth_object_le.mpr fun s member => (each s member).2.2.2
  · cases found

theorem gives_value (constant : Bool) (levels : Nat) :
    Gives float (value constant levels) (ValueRead float constant levels) := by
  induction levels with
  | zero => exact gives_valueOver ⟨fun _ found => nomatch found⟩
  | succ levels ih =>
    exact gives_valueOver (ih.weaken fun v read => ⟨read.good, read.plain, read.succ⟩)

theorem gives_arguments (constant : Bool) (levels : Nat) :
    Gives float (arguments constant levels) fun slots =>
      Value.allSlots (.grammatical float) slots = true ∧ argumentsDepth slots ≤ levels := by
  refine Gives.whenever ⟨fun {tokens rest slots} proper found => ?_⟩ _ ⟨rfl, Nat.zero_le _⟩
  obtain ⟨⟨_, behind⟩, opening, found⟩ := Option.bind_eq_some_iff.mp found
  obtain ⟨⟨inside, after⟩, read, same⟩ := Option.bind_eq_some_iff.mp found
  cases same
  obtain ⟨-, proper⟩ := (gives_symbol _).of proper opening
  obtain ⟨⟨-, holds⟩, proper⟩ := ((gives_slot (gives_value constant levels)).someClosedBy _).of proper read
  have each : ∀ s ∈ inside.filterMap id, isName s.name = true ∧ ValueRead float constant levels s.value :=
    List.forall_mem_filterMap.mpr fun _ member s same => holds _ member s same
  refine ⟨⟨?_, ?_⟩, proper⟩
  · exact Value.allSlots_iff.mpr fun s member => ⟨(each s member).1, (each s member).2.good⟩
  · exact deepest_le.mpr fun s member => (each s member).2.depth

theorem gives_directive (constant : Bool) (levels : Nat) :
    Gives float (directive constant levels) fun d =>
      d.all (.grammatical float) = true ∧ argumentsDepth d.arguments ≤ levels := by
  refine ⟨fun {tokens rest d} proper found => ?_⟩
  obtain ⟨⟨_, behind⟩, mark, found⟩ := Option.bind_eq_some_iff.mp found
  obtain ⟨⟨name, behindName⟩, called, found⟩ := Option.bind_eq_some_iff.mp found
  obtain ⟨⟨slots, after⟩, read, same⟩ := Option.bind_eq_some_iff.mp found
  cases same
  obtain ⟨-, proper⟩ := (gives_symbol _).of proper mark
  obtain ⟨valid, proper⟩ := gives_name.of proper called
  obtain ⟨⟨good, depth⟩, proper⟩ := (gives_arguments constant levels).of proper read
  rw [Directive.all, Bool.and_eq_true]
  exact ⟨⟨⟨valid, good⟩, depth⟩, proper⟩

theorem gives_directives (constant : Bool) (levels : Nat) :
    Gives float (directives constant levels) fun ds =>
      ds.all (Directive.all (.grammatical float)) = true ∧ directivesDepth ds ≤ levels :=
  ((gives_directive constant levels).many _).weaken fun _ each =>
    ⟨List.all_eq_true.mpr fun d member => (each d member).1,
      deepest_le.mpr fun d member => (each d member).2⟩

structure SetRead (float : Binary64 → Bool) (levels : Nat) (selections : List Selection) : Prop where
  nonempty : selections ≠ []
  good : selections.all (Selection.all (.grammatical float)) = true
  depth : Selection.depthOfSet selections ≤ levels

theorem gives_field {levels : Nat} {set : Reader (List Selection)}
    (gives : Gives float set (SetRead float levels)) {aliasName : Option String} {name : String}
    (label : aliasName.all isName = true) (valid : isName name = true) :
    Gives float (selectionOver.field levels set aliasName name) fun s =>
      s.all (.grammatical float) = true ∧ s.depth ≤ levels := by
  refine ⟨fun {tokens rest s} proper found => ?_⟩
  obtain ⟨⟨slots, behindSlots⟩, argued, found⟩ := Option.bind_eq_some_iff.mp found
  obtain ⟨⟨ds, behindDirectives⟩, marked, found⟩ := Option.bind_eq_some_iff.mp found
  obtain ⟨⟨children, after⟩, read, same⟩ := Option.bind_eq_some_iff.mp found
  cases same
  obtain ⟨⟨slots', argumentsDepth⟩, proper⟩ := (gives_arguments false levels).of proper argued
  obtain ⟨⟨ds', directivesDepth⟩, proper⟩ := (gives_directives false levels).of proper marked
  have beneath : Gives float (whenever (startsWith .openBrace) [] set) fun children =>
      children.all (Selection.all (.grammatical float)) = true ∧
        Selection.depthOfSet children ≤ levels :=
    (gives.weaken fun children read => ⟨read.good, read.depth⟩).whenever _ ⟨rfl, Nat.zero_le _⟩
  obtain ⟨⟨children', setDepth⟩, proper⟩ := beneath.of proper read
  refine ⟨⟨?_, Selection.depth_field_le.mpr ⟨argumentsDepth, directivesDepth, setDepth⟩⟩, proper⟩
  have own : (Check.grammatical float).field aliasName name = true := by
    simp [Check.grammatical, label, valid]
  rw [Selection.all_field]
  simp only [Bool.and_eq_true]
  exact ⟨⟨⟨own, slots'⟩, ds'⟩, children'⟩

theorem startsWithWord_of_name {tokens rest : List Lexeme} {text : String}
    (found : name tokens = some (text, rest)) (word : String) :
    startsWithWord word tokens = (text == word) := by
  obtain ⟨_, rfl⟩ := of_name found
  rfl

theorem gives_spread (levels : Nat) :
    Gives float (fun tokens => if startsWithName tokens && !startsWithWord "on" tokens then do
        let (fragment, rest) ← name tokens
        let (directives, rest) ← directives false levels rest
        some (Selection.spread { fragment, directives }, rest) else none) fun s =>
      s.all (.grammatical float) = true ∧ s.depth ≤ levels := by
  refine ⟨fun {tokens rest s} proper found => ?_⟩
  dsimp only at found
  split at found
  case isTrue starts =>
    obtain ⟨⟨fragment, behind⟩, called, found⟩ := Option.bind_eq_some_iff.mp found
    obtain ⟨⟨ds, after⟩, marked, same⟩ := Option.bind_eq_some_iff.mp found
    cases same
    rw [Bool.and_eq_true, startsWithWord_of_name called] at starts
    obtain ⟨valid, proper⟩ := gives_name.of proper called
    obtain ⟨⟨ds', depth⟩, proper⟩ := (gives_directives false levels).of proper marked
    have own : (Check.grammatical float).spread fragment = true := by
      rw [Check.grammatical, Bool.and_eq_true]
      exact ⟨valid, starts.2⟩
    rw [Selection.all_spread, Bool.and_eq_true]
    exact ⟨⟨⟨own, ds'⟩, depth⟩, proper⟩
  · cases found

theorem gives_typeCondition : Gives float typeCondition fun type => isName type = true := by
  refine ⟨fun {tokens rest type} proper found => ?_⟩
  obtain ⟨⟨_, behind⟩, word, called⟩ := Option.bind_eq_some_iff.mp found
  obtain ⟨-, proper⟩ := (gives_keyword "on").of proper word
  exact gives_name.of proper called

theorem gives_inline {levels : Nat} {set : Reader (List Selection)}
    (gives : Gives float set (SetRead float levels)) :
    Gives float (fun tokens => do
        let (condition, rest) ←
          whenever startsWithName none (fun tokens => do
            let (type, rest) ← typeCondition tokens
            some (some type, rest)) tokens
        let (directives, rest) ← directives false levels rest
        let (children, rest) ← set rest
        some (Selection.inline { condition, directives, children }, rest)) fun s =>
      s.all (.grammatical float) = true ∧ s.depth ≤ levels := by
  refine ⟨fun {tokens rest s} proper found => ?_⟩
  obtain ⟨⟨condition, behind⟩, typed, found⟩ := Option.bind_eq_some_iff.mp found
  obtain ⟨⟨ds, behindDirectives⟩, marked, found⟩ := Option.bind_eq_some_iff.mp found
  obtain ⟨⟨children, after⟩, read, same⟩ := Option.bind_eq_some_iff.mp found
  cases same
  obtain ⟨named, proper⟩ := (gives_typeCondition.optional _).of proper typed
  have valid : condition.all isName = true := (Option.all_eq_true _ _).mpr named
  obtain ⟨⟨ds', directivesDepth⟩, proper⟩ := (gives_directives false levels).of proper marked
  obtain ⟨set', proper⟩ := gives.of proper read
  refine ⟨⟨?_, Selection.depth_inline_le.mpr ⟨directivesDepth, set'.depth⟩⟩, proper⟩
  have own : (Check.grammatical float).inline condition children.isEmpty = true := by
    simp [Check.grammatical, valid, set'.nonempty]
  rw [Selection.all_inline]
  simp only [Bool.and_eq_true]
  exact ⟨⟨own, ds'⟩, set'.good⟩

theorem gives_selectionOver {levels : Nat} {set : Reader (List Selection)}
    (gives : Gives float set (SetRead float levels)) :
    Gives float (selectionOver levels set) fun s =>
      s.all (.grammatical float) = true ∧ s.depth ≤ levels := by
  refine ⟨fun {tokens rest s} proper found => ?_⟩
  unfold selectionOver at found
  split at found
  case h_1 behind =>
    rw [List.all_cons, Bool.and_eq_true] at proper
    split at found
    · cases found
    · split at found
      case isTrue starts =>
        refine (gives_spread levels).of proper.2 ?_
        rw [if_pos starts]
        exact found
      case isFalse =>
        exact (gives_inline gives).of proper.2 found
  case h_2 aliasName _ behind =>
    simp only [List.all_cons, Bool.and_eq_true] at proper
    obtain ⟨⟨called, after⟩, name', found⟩ := Option.bind_eq_some_iff.mp found
    obtain ⟨valid, left⟩ := gives_name.of proper.2.2 name'
    have label : (some aliasName).all isName = true := proper.1
    exact (gives_field gives label valid).of left found
  case h_3 called _ behind _ =>
    rw [List.all_cons, Bool.and_eq_true] at proper
    exact (gives_field gives rfl proper.1).of proper.2 found
  · cases found

theorem gives_selectionSet (levels : Nat) :
    Gives float (selectionSet levels) (SetRead float levels) := by
  induction levels with
  | zero => exact ⟨fun _ found => nomatch found⟩
  | succ levels ih =>
    refine ⟨fun {tokens rest selections} proper found => ?_⟩
    obtain ⟨⟨_, behind⟩, opening, read⟩ := Option.bind_eq_some_iff.mp found
    obtain ⟨-, proper⟩ := (gives_symbol _).of proper opening
    obtain ⟨⟨nonempty, holds⟩, proper⟩ := ((gives_selectionOver ih).someClosedBy _).of proper read
    refine ⟨⟨nonempty, ?_, ?_⟩, proper⟩
    · exact List.all_eq_true.mpr fun s member => (holds s member).1
    · exact Selection.depthOfSet_le.mpr fun s member => Nat.lt_succ_of_le (holds s member).2

theorem nonNullMark_read {type marked : TypeRef} {tokens rest : List Lexeme}
    (bare : type.isNonNull = false) (regular : type.isRegular = true)
    (proper : tokens.all (Lexeme.isProper float) = true)
    (found : nonNullMark type tokens = (marked, rest)) :
    (marked.isRegular = true ∧ marked.innermost = type.innermost ∧ marked.depth = type.depth) ∧
      rest.all (Lexeme.isProper float) = true := by
  unfold nonNullMark at found
  split at found
  · cases found
    rw [List.all_cons, Bool.and_eq_true] at proper
    exact ⟨⟨by simp [TypeRef.isRegular, bare, regular], rfl, rfl⟩, proper.2⟩
  · cases found
    exact ⟨⟨regular, rfl, rfl⟩, proper⟩

theorem gives_typeRef (levels : Nat) :
    Gives float (typeRef levels) fun type =>
      isName type.innermost = true ∧ type.isRegular = true ∧ type.depth ≤ levels := by
  have behindItem : ∀ {levels : Nat} {inner : Reader TypeRef},
      Gives float inner (fun type => isName type.innermost = true ∧ type.isRegular = true ∧
        type.depth < levels) →
      Gives float (typeRefOver inner) fun type =>
        isName type.innermost = true ∧ type.isRegular = true ∧ type.depth ≤ levels := by
    intro levels inner gives
    refine ⟨fun {tokens rest type} proper found => ?_⟩
    unfold typeRefOver at found
    split at found
    case h_1 name _ behind =>
      rw [List.all_cons, Bool.and_eq_true] at proper
      obtain ⟨⟨regular, innermost, depth⟩, left⟩ :=
        nonNullMark_read rfl rfl proper.2 (Option.some.inj found)
      rw [innermost, depth]
      exact ⟨⟨proper.1, regular, Nat.zero_le _⟩, left⟩
    case h_2 behind =>
      obtain ⟨⟨item, behindItem⟩, read, found⟩ := Option.bind_eq_some_iff.mp found
      obtain ⟨⟨_, after⟩, closing, found⟩ := Option.bind_eq_some_iff.mp found
      rw [List.all_cons, Bool.and_eq_true] at proper
      obtain ⟨⟨valid, regular, depth⟩, proper⟩ := gives.of proper.2 read
      obtain ⟨-, proper⟩ := (gives_symbol _).of proper closing
      have bare : (TypeRef.list item).isNonNull = false := rfl
      obtain ⟨⟨regular, innermost, depth'⟩, left⟩ :=
        nonNullMark_read bare regular proper (Option.some.inj found)
      rw [innermost, depth']
      exact ⟨⟨valid, regular, depth⟩, left⟩
    · cases found
  induction levels with
  | zero => exact behindItem ⟨fun _ found => nomatch found⟩
  | succ levels ih =>
    exact behindItem (ih.weaken fun type read => ⟨read.1, read.2.1, Nat.lt_succ_of_le read.2.2⟩)

theorem gives_defaultValue :
    Gives float defaultValue fun default? => ∀ v ∈ default?, ValueRead float true maxDepth v := by
  refine Gives.whenever ⟨fun {tokens rest default?} proper found => ?_⟩ _ nofun
  obtain ⟨⟨_, behind⟩, mark, found⟩ := Option.bind_eq_some_iff.mp found
  obtain ⟨⟨v, after⟩, read, same⟩ := Option.bind_eq_some_iff.mp found
  cases same
  obtain ⟨-, proper⟩ := (gives_symbol _).of proper mark
  obtain ⟨holds, proper⟩ := (gives_value true maxDepth).of proper read
  refine ⟨fun w member => ?_, proper⟩
  cases member
  exact holds

theorem gives_variableDefinition :
    Gives float variableDefinition fun d =>
      d.all (.grammatical float) = true ∧ d.depth ≤ maxDepth := by
  refine ⟨fun {tokens rest d} proper found => ?_⟩
  obtain ⟨⟨_, _⟩, mark, found⟩ := Option.bind_eq_some_iff.mp found
  obtain ⟨⟨name, _⟩, called, found⟩ := Option.bind_eq_some_iff.mp found
  obtain ⟨⟨_, _⟩, colon, found⟩ := Option.bind_eq_some_iff.mp found
  obtain ⟨⟨type, _⟩, typed, found⟩ := Option.bind_eq_some_iff.mp found
  obtain ⟨⟨default?, _⟩, initial, found⟩ := Option.bind_eq_some_iff.mp found
  obtain ⟨⟨_, _⟩, marked, same⟩ := Option.bind_eq_some_iff.mp found
  cases same
  obtain ⟨-, proper⟩ := (gives_symbol _).of proper mark
  obtain ⟨valid, proper⟩ := gives_name.of proper called
  obtain ⟨-, proper⟩ := (gives_symbol _).of proper colon
  obtain ⟨⟨innermost, regular, typeDepth⟩, proper⟩ := (gives_typeRef maxDepth).of proper typed
  obtain ⟨default', proper⟩ := gives_defaultValue.of proper initial
  obtain ⟨-, proper⟩ := (gives_directives true maxDepth).of proper marked
  refine ⟨?_, proper⟩
  cases default? with
  | none =>
    simp [VariableDefinition.all, VariableDefinition.depth, Check.grammatical, valid, innermost, regular,
      typeDepth]
  | some v =>
    have read := default' v rfl
    have plain := read.plain rfl
    have good := read.good
    rw [VariableDefinition.depth, Nat.max_le]
    refine ⟨?_, typeDepth, read.depth⟩
    rw [VariableDefinition.all, Bool.and_eq_true]
    exact ⟨by simp [Check.grammatical, valid, innermost, regular, plain], good⟩

theorem gives_variableDefinitions :
    Gives float variableDefinitions fun ds =>
      ds.all (VariableDefinition.all (.grammatical float)) = true ∧
        deepest VariableDefinition.depth ds ≤ maxDepth := by
  refine Gives.whenever ⟨fun {tokens rest ds} proper found => ?_⟩ _ ⟨rfl, Nat.zero_le _⟩
  obtain ⟨⟨_, behind⟩, opening, read⟩ := Option.bind_eq_some_iff.mp found
  obtain ⟨-, proper⟩ := (gives_symbol _).of proper opening
  obtain ⟨⟨-, holds⟩, proper⟩ := (gives_variableDefinition.someClosedBy _).of proper read
  exact ⟨⟨List.all_eq_true.mpr fun d member => (holds d member).1,
    deepest_le.mpr fun d member => (holds d member).2⟩, proper⟩

theorem gives_operationKind : Gives float operationKind fun _ => True := by
  refine ⟨fun {tokens rest kind} proper found => ?_⟩
  obtain ⟨⟨word, behind⟩, called, found⟩ := Option.bind_eq_some_iff.mp found
  obtain ⟨kind', _, same⟩ := Option.bind_eq_some_iff.mp found
  cases same
  exact ⟨trivial, (gives_name.of proper called).2⟩

def DefinitionRead (float : Binary64 → Bool) (d : Definition) : Prop :=
  d.all (.grammatical float) = true ∧ d.depth ≤ maxDepth

theorem definitionRead_operation {kind : OperationKind} {name : Option String}
    {declarations : List VariableDefinition} {ds : List Directive} {selections : List Selection}
    (called : name.all isName = true)
    (declared : declarations.all (VariableDefinition.all (.grammatical float)) = true ∧
      deepest VariableDefinition.depth declarations ≤ maxDepth)
    (marked : ds.all (Directive.all (.grammatical float)) = true ∧ directivesDepth ds ≤ maxDepth)
    (set : SetRead float maxDepth selections) :
    DefinitionRead float (.operation ⟨kind, name, declarations, ds, selections⟩) := by
  have own : (Check.grammatical float).operation name selections.isEmpty = true := by
    simp [Check.grammatical, called, set.nonempty]
  constructor
  · simp only [Definition.all, Bool.and_eq_true]
    exact ⟨⟨⟨own, declared.1⟩, marked.1⟩, set.good⟩
  · rw [Definition.depth, Nat.max_le, Nat.max_le]
    exact ⟨⟨declared.2, marked.2⟩, set.depth⟩

theorem gives_operation : Gives float operation fun op => DefinitionRead float (.operation op) := by
  refine ⟨fun {tokens rest op} proper found => ?_⟩
  unfold operation at found
  split at found
  · obtain ⟨⟨selections, after⟩, read, same⟩ := Option.bind_eq_some_iff.mp found
    cases same
    obtain ⟨set, proper⟩ := (gives_selectionSet maxDepth).of proper read
    exact ⟨definitionRead_operation rfl ⟨rfl, Nat.zero_le _⟩ ⟨rfl, Nat.zero_le _⟩ set, proper⟩
  · obtain ⟨⟨kind, _⟩, word, found⟩ := Option.bind_eq_some_iff.mp found
    obtain ⟨⟨name, _⟩, called, found⟩ := Option.bind_eq_some_iff.mp found
    obtain ⟨⟨declarations, _⟩, declared, found⟩ := Option.bind_eq_some_iff.mp found
    obtain ⟨⟨ds, _⟩, marked, found⟩ := Option.bind_eq_some_iff.mp found
    obtain ⟨⟨selections, _⟩, read, same⟩ := Option.bind_eq_some_iff.mp found
    cases same
    obtain ⟨-, proper⟩ := gives_operationKind.of proper word
    obtain ⟨called, proper⟩ := (gives_name.optional _).of proper called
    obtain ⟨declared, proper⟩ := gives_variableDefinitions.of proper declared
    obtain ⟨marked, proper⟩ := (gives_directives false maxDepth).of proper marked
    obtain ⟨set, proper⟩ := (gives_selectionSet maxDepth).of proper read
    exact ⟨definitionRead_operation ((Option.all_eq_true _ _).mpr called) declared marked set, proper⟩

theorem gives_fragment : Gives float fragment fun frag => DefinitionRead float (.fragment frag) := by
  refine ⟨fun {tokens rest frag} proper found => ?_⟩
  obtain ⟨⟨name, _⟩, called, found⟩ := Option.bind_eq_some_iff.mp found
  obtain ⟨⟨condition, _⟩, typed, found⟩ := Option.bind_eq_some_iff.mp found
  obtain ⟨⟨ds, _⟩, marked, found⟩ := Option.bind_eq_some_iff.mp found
  obtain ⟨⟨selections, _⟩, read, same⟩ := Option.bind_eq_some_iff.mp found
  cases same
  obtain ⟨⟨name', _⟩, called, found⟩ := Option.bind_eq_some_iff.mp called
  dsimp only at found
  split at found
  · cases found
  case isFalse notOn =>
    cases found
    obtain ⟨valid, proper⟩ := gives_name.of proper called
    obtain ⟨condition', proper⟩ := gives_typeCondition.of proper typed
    obtain ⟨⟨ds', directivesDepth⟩, proper⟩ := (gives_directives false maxDepth).of proper marked
    obtain ⟨set, proper⟩ := (gives_selectionSet maxDepth).of proper read
    have own : (Check.grammatical float).fragment name condition selections.isEmpty = true := by
      simp [Check.grammatical, valid, condition', notOn, set.nonempty]
    refine ⟨⟨?_, ?_⟩, proper⟩
    · simp only [Definition.all, Bool.and_eq_true]
      exact ⟨⟨own, ds'⟩, set.good⟩
    · rw [Definition.depth, Nat.max_le]
      exact ⟨directivesDepth, set.depth⟩

theorem definition_read {tokens rest : List Lexeme} {d : Definition}
    (proper : tokens.all (Lexeme.isProper float) = true)
    (found : definition tokens = some (some d, rest)) :
    DefinitionRead float d ∧ rest.all (Lexeme.isProper float) = true := by
  unfold definition at found
  split at found
  · obtain ⟨⟨op, after⟩, read, same⟩ := Option.bind_eq_some_iff.mp found
    cases same
    exact gives_operation.of proper read
  · split at found
    case h_1 behind keyword =>
      obtain ⟨⟨frag, after⟩, read, same⟩ := Option.bind_eq_some_iff.mp found
      cases same
      have left : behind.all (Lexeme.isProper float) = true := by
        unfold behindFragmentKeyword? at keyword
        split at keyword
        · cases keyword
          rw [List.all_cons, Bool.and_eq_true] at proper
          exact proper.2
        · split at keyword
          · cases keyword
            rw [List.all_cons, Bool.and_eq_true] at proper
            exact proper.2
          · cases keyword
        · cases keyword
      exact gives_fragment.of left read
    case h_2 =>
      obtain ⟨after, _, same⟩ := Option.bind_eq_some_iff.mp found
      cases same

theorem mapM_id_eq_some {α : Type} {items : List (Option α)} {all : List α} :
    items.mapM id = some all ↔ items = all.map some := by
  induction items generalizing all with
  | nil => cases all <;> simp
  | cons first others ih =>
    rw [List.mapM_cons]
    cases first with
    | none => cases all <;> simp
    | some a =>
      simp only [id_eq, Option.bind_eq_bind, Option.bind_some, Option.bind_eq_some_iff]
      constructor
      · rintro ⟨rest, further, same⟩
        cases same
        rw [ih.mp further, List.map_cons]
      · intro same
        cases all with
        | nil => cases same
        | cons b rest =>
          obtain ⟨head, tail⟩ := List.cons.inj same
          cases head
          exact ⟨rest, ih.mpr tail, rfl⟩

theorem definitions_given {tokens : List Lexeme} {ds : List Definition}
    (proper : tokens.all (Lexeme.isProper float) = true)
    (found : definitions tokens = some (ds.map some)) :
    ds ≠ [] ∧ ∀ d ∈ ds, DefinitionRead float d := by
  have each : ∀ steps {tokens rest : List Lexeme} {ds : List Definition},
      tokens.all (Lexeme.isProper float) = true →
      rounds (!·.isEmpty) definition steps tokens = some (ds.map some, rest) →
      ∀ d ∈ ds, DefinitionRead float d := by
    intro steps
    induction steps with
    | zero =>
      intro tokens rest ds proper found
      rw [rounds] at found
      split at found
      · cases found
      · cases ds with
        | nil => simp
        | cons => cases found
    | succ steps ih =>
      intro tokens rest ds proper found
      rw [rounds] at found
      split at found
      · obtain ⟨⟨first, middle⟩, read, found⟩ := Option.bind_eq_some_iff.mp found
        obtain ⟨⟨others, after⟩, further, same⟩ := Option.bind_eq_some_iff.mp found
        cases ds with
        | nil => cases same
        | cons d ds =>
          cases same
          obtain ⟨head, proper⟩ := definition_read proper read
          intro e member
          rcases List.mem_cons.mp member with rfl | member
          · exact head
          · exact ih proper further e member
      · cases ds with
        | nil => simp
        | cons => cases found
  obtain ⟨⟨all, rest⟩, read, same⟩ := Option.bind_eq_some_iff.mp found
  dsimp only at same
  split at same
  · cases same
  case isFalse nonempty =>
    cases same
    exact ⟨by simpa using nonempty, each _ proper read⟩

end Grammar

namespace Token

theorem first?_isName {text rest : List Char} {called : String}
    (found : first? text = some (.name called, rest)) : isName called = true := by
  unfold first? at found
  split at found
  · cases found
  · split at found <;> cases found
  · obtain ⟨_, _, same⟩ := Option.map_eq_some_iff.mp found
    cases same
  · obtain ⟨_, _, same⟩ := Option.map_eq_some_iff.mp found
    cases same
  case h_5 c rest _ _ _ =>
    split at found
    · cases found
    · split at found
      case isTrue start =>
        cases found
        rw [isName_iff]
        exact ⟨c, _, String.toList_ofList, start, List.all_takeWhile⟩
      · split at found
        · obtain ⟨⟨numeral, after⟩, _, same⟩ := Option.bind_eq_some_iff.mp found
          dsimp only at same
          split at same
          · unfold ofNumeral at same
            dsimp only at same
            split at same <;> cases same
          · cases same
        · cases found

end Token

theorem Lexeme.scan?_proper {steps : Nat} {afterComma : Bool} {text : List Char}
    {lexemes : List Lexeme} (found : scan? steps afterComma text = some lexemes) :
    lexemes.all (isProper fun _ => true) = true := by
  induction steps generalizing afterComma text lexemes with
  | zero =>
    cases text with
    | nil => cases found; rfl
    | cons => cases found
  | succ steps ih =>
    cases text with
    | nil => cases found; rfl
    | cons c rest =>
      rw [scan?] at found
      split at found
      · exact ih found
      split at found
      · exact ih found
      obtain ⟨⟨token, after⟩, first, found⟩ := Option.bind_eq_some_iff.mp found
      obtain ⟨others, further, same⟩ := Option.bind_eq_some_iff.mp found
      cases same
      rw [List.all_cons, ih further, Bool.and_true]
      cases token with
      | name called => exact Token.first?_isName first
      | _ => rfl

namespace Document

theorem parse_ok {text : String} {doc : Document} :
    parse text = .ok doc ↔ allBlank text = false ∧
      ∃ lexemes, Lexeme.ofText? text = some lexemes ∧
        Grammar.definitions lexemes = some (doc.definitions.map some) := by
  unfold parse
  cases blank : allBlank text with
  | true => simp
  | false =>
    cases lexed : Lexeme.ofText? text with
    | none => simp
    | some lexemes =>
      cases read : Grammar.definitions lexemes with
      | none => simp [read]
      | some ds =>
        cases all : ds.mapM id with
        | none =>
          have never : ds ≠ doc.definitions.map some := fun same => by
            rw [Grammar.mapM_id_eq_some.mpr same] at all
            cases all
          simp [read, all, never]
        | some definitions =>
          have same := Grammar.mapM_id_eq_some.mp all
          subst same
          obtain ⟨wanted⟩ := doc
          have injective : definitions.map some = wanted.map some ↔ definitions = wanted :=
            List.map_inj_right fun a b same => Option.some.inj same
          simp [read, all, injective]

/-- What a document that was read lacks of being well formed: its floats may be infinite. -/
theorem parse_grammatical {text : String} {doc : Document} (parsed : parse text = .ok doc) :
    doc.definitions ≠ [] ∧ doc.all (.grammatical fun _ => true) = true ∧
      doc.depth ≤ Grammar.maxDepth := by
  obtain ⟨_, lexemes, lexed, read⟩ := parse_ok.mp parsed
  obtain ⟨nonempty, each⟩ := Grammar.definitions_given (Lexeme.scan?_proper lexed) read
  exact ⟨nonempty, List.all_eq_true.mpr fun d member => (each d member).1,
    deepest_le.mpr fun d member => (each d member).2⟩

end Document

end QueryEditor
