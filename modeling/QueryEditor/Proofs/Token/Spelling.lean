import QueryEditor.Value.Printer
import QueryEditor.Proofs.Binary64.ReadBack
import QueryEditor.Proofs.Token.Lexing

namespace QueryEditor

open Text

namespace Token

/-- Characters that a name, a number or a quoted text cannot have right behind it. -/
def goesOn (c : Char) : Bool :=
  isNamePart c || c == '.' || c == '"'

theorem isNamePart_stops {rest : List Char} (stops : startsIn goesOn rest = false) :
    startsIn isNamePart rest = false :=
  startsIn_mono (fun c part => by simp [goesOn, part]) stops

theorem endsNumber_of_stops {rest : List Char} (stops : startsIn goesOn rest = false) :
    endsNumber rest = true := by
  cases rest with
  | nil => rfl
  | cons c rest =>
    have first : goesOn c = false := stops
    simp only [goesOn, Bool.or_eq_false_iff, beq_eq_false_iff_ne] at first
    simp [endsNumber, first.1.1, first.1.2]

theorem isNameStart_toNat {c : Char} (start : isNameStart c = true) :
    (97 ≤ c.toNat ∧ c.toNat ≤ 122) ∨ (65 ≤ c.toNat ∧ c.toNat ≤ 90) ∨ c.toNat = 95 := by
  simp only [isNameStart, Bool.or_eq_true, Bool.and_eq_true, decide_eq_true_eq, beq_iff_eq,
    Char.le_def, UInt32.le_iff_toNat_le] at start
  rcases start with (lower | upper) | rfl
  · exact Or.inl lower
  · exact Or.inr (Or.inl upper)
  · exact Or.inr (Or.inr rfl)

theorem isDigit_toNat {c : Char} (digit : isDigit c = true) : 48 ≤ c.toNat ∧ c.toNat ≤ 57 := by
  simp only [isDigit, Bool.and_eq_true, decide_eq_true_eq, Char.le_def,
    UInt32.le_iff_toNat_le] at digit
  exact digit

theorem first?_plain {c : Char} {rest : List Char} (point : c ≠ '.') (quote : c ≠ '"')
    (noMark : Symbol.ofChar? c = none) :
    first? (c :: rest) =
      if isNameStart c then
        some (.name (String.ofList (c :: rest.takeWhile isNamePart)), rest.dropWhile isNamePart)
      else if c = '-' || isDigit c then number? (c :: rest)
      else none := by
  rw [first?.eq_6 c rest point (fun _ same => absurd same quote) quote, noMark]

theorem ofChar?_none {c : Char} (start : isNameStart c = true ∨ c = '-' ∨ isDigit c = true) :
    c ≠ '.' ∧ c ≠ '"' ∧ Symbol.ofChar? c = none := by
  have code : (97 ≤ c.toNat ∧ c.toNat ≤ 122) ∨ (65 ≤ c.toNat ∧ c.toNat ≤ 90) ∨ c.toNat = 95 ∨
      c.toNat = 45 ∨ (48 ≤ c.toNat ∧ c.toNat ≤ 57) := by
    rcases start with start | rfl | digit
    · rcases isNameStart_toNat start with lower | upper | low
      · exact Or.inl lower
      · exact Or.inr (Or.inl upper)
      · exact Or.inr (Or.inr (Or.inl low))
    · exact Or.inr (Or.inr (Or.inr (Or.inl rfl)))
    · exact Or.inr (Or.inr (Or.inr (Or.inr (isDigit_toNat digit))))
  refine ⟨by rintro rfl; revert code; decide, by rintro rfl; revert code; decide, ?_⟩
  unfold Symbol.ofChar?
  split <;> first | rfl | (exfalso; revert code; decide)

theorem first?_name {name : String} (valid : isName name = true) {rest : List Char}
    (stops : startsIn goesOn rest = false) :
    first? (name.toList ++ rest) = some (.name name, rest) := by
  obtain ⟨c, parts, whole, start, inside⟩ := (isName_iff name).mp valid
  obtain ⟨point, quote, noMark⟩ := ofChar?_none (Or.inl start)
  have spelled : String.ofList (c :: parts) = name := by rw [← whole, String.ofList_toList]
  rw [whole, List.cons_append, first?_plain point quote noMark, if_pos start,
    takeWhile_run inside (isNamePart_stops stops), dropWhile_run inside (isNamePart_stops stops),
    spelled]

theorem number?_spelled {n : Numeral} (regular : n.Regular) (plain : n.isPlain = true)
    {rest : List Char} (ends : endsNumber rest = true) :
    number? (n.spelled ++ rest) = some (ofNumeral n, rest) := by
  rw [number?, Numeral.longest?_spelled regular ends]
  simp [plain, ends]

theorem first?_numeral {n : Numeral} (regular : n.Regular) (plain : n.isPlain = true)
    {rest : List Char} (stops : startsIn goesOn rest = false) :
    first? (n.spelled ++ rest) = some (ofNumeral n, rest) := by
  have read := number?_spelled regular plain (endsNumber_of_stops stops)
  have head : ∃ c text, n.spelled ++ rest = c :: text ∧ (c = '-' ∨ isDigit c = true) := by
    cases sign : n.negative with
    | true =>
      refine ⟨'-', n.whole ++ (Numeral.spelledFraction n.fraction ++
        Numeral.spelledExponent n.exponent) ++ rest, ?_, Or.inl rfl⟩
      simp [Numeral.spelled, Numeral.spelledSign, sign]
    | false =>
      obtain ⟨c, digits, whole⟩ := List.exists_cons_of_ne_nil regular.wholeNonempty
      have all := regular.whole
      rw [whole, List.all_cons, Bool.and_eq_true] at all
      refine ⟨c, digits ++ (Numeral.spelledFraction n.fraction ++
        Numeral.spelledExponent n.exponent) ++ rest, ?_, Or.inr all.1⟩
      simp [Numeral.spelled, Numeral.spelledSign, sign, whole]
  obtain ⟨c, text, same, start⟩ := head
  rw [same] at read ⊢
  obtain ⟨point, quote, noMark⟩ := ofChar?_none (Or.inr start)
  have noName : ¬ isNameStart c = true := by
    intro letter
    have code := isNameStart_toNat letter
    rcases start with rfl | digit
    · revert code
      decide
    · have bounds := isDigit_toNat digit
      omega
  rw [first?_plain point quote noMark, if_neg noName, if_pos (by simpa using start), read]

def intNumeral (number : Int) : Numeral :=
  ⟨decide (number < 0), Nat.toDigits 10 number.natAbs, none, none⟩

theorem intNumeral_regular (number : Int) : (intNumeral number).Regular :=
  ⟨toDigits_all_digits _, Nat.toDigits_ne_nil, fun _ member => by cases member⟩

theorem intNumeral_plain (number : Int) : (intNumeral number).isPlain = true := by
  by_cases zero : number.natAbs = 0
  · simp [intNumeral, Numeral.isPlain, zero]
  · have head := toDigits_head number.natAbs (Nat.pos_of_ne_zero zero)
    have fraction : (none : Option (List Char)) ≠ some [] := by simp
    simp only [intNumeral, Numeral.isPlain, bne_iff_ne, Bool.and_eq_true, Bool.or_eq_true, ne_eq,
      Bool.not_eq_true', List.isEmpty_eq_false_iff]
    exact ⟨Or.inr ⟨Nat.toDigits_ne_nil, head⟩, fraction⟩

theorem intNumeral_toInt (number : Int) : (intNumeral number).toInt = number := by
  simp only [intNumeral, Numeral.toInt, decimalValue_toDigits]
  by_cases negative : number < 0
  · simp only [negative, decide_true, ite_true]
    omega
  · simp only [negative, decide_false, Bool.false_eq_true, ite_false]
    omega

theorem intNumeral_spelled (number : Int) :
    (intNumeral number).spelled = (toString number).toList := by
  rw [Numeral.toString_int_spelled]
  simp [intNumeral, Numeral.spelled, Numeral.spelledFraction, Numeral.spelledExponent]

theorem ofNumeral_int (number : Int64) : ofNumeral (intNumeral number.toInt) = .int number := by
  have whole : (intNumeral number.toInt).isWhole = true := rfl
  have lower := Int64.minValue_le_toInt number
  have upper := Int64.toInt_le number
  simp only [ofNumeral, whole, intNumeral_toInt, Bool.true_and, Int64.ofInt_toInt]
  rw [if_pos]
  simp only [Bool.and_eq_true, decide_eq_true_eq]
  exact ⟨lower, by simpa using upper⟩

theorem first?_int (number : Int64) {rest : List Char} (stops : startsIn goesOn rest = false) :
    first? ((toString number.toInt).toList ++ rest) = some (.int number, rest) := by
  rw [← intNumeral_spelled, first?_numeral (intNumeral_regular _) (intNumeral_plain _) stops,
    ofNumeral_int]

theorem first?_float {number : Binary64} (finite : number.isFinite = true) {rest : List Char}
    (stops : startsIn goesOn rest = false) :
    first? (number.text.toList ++ rest) = some (.float number, rest) := by
  cases number with
  | infinite => cases finite
  | notANumber => cases finite
  | finite negative rank =>
    obtain ⟨plain, whole⟩ := Binary64.written_plain negative rank
    have token : ofNumeral (Binary64.written negative rank) = .float (.finite negative rank) := by
      simp only [ofNumeral, whole, Bool.false_and, Binary64.written_value]
      simp
    rw [Binary64.text_spelled, first?_numeral (Binary64.written_regular _ _) plain stops, token]

theorem first?_minus_inf (rest : List Char) : first? ('-' :: 'i' :: 'n' :: 'f' :: rest) = none := by
  have none : number? ('-' :: 'i' :: 'n' :: 'f' :: rest) = none := rfl
  rw [first?_plain (by decide) (by decide) rfl, if_neg (by decide), if_pos (by decide), none]

theorem hexadecimal?_control (code : Nat) (control : code < 0x20) :
    hexadecimal? ['0', '0', upperHexDigit (code / 16), upperHexDigit (code % 16)] = some code := by
  revert code
  decide

theorem unicodeEscape?_control {c : Char} (control : c.toNat < 0x20) (rest : List Char) :
    unicodeEscape? ('0' :: '0' :: upperHexDigit (c.toNat / 16) :: upperHexDigit (c.toNat % 16) :: rest) =
      some (c, rest) := by
  have unit : codeUnit? ('0' :: '0' :: upperHexDigit (c.toNat / 16) ::
      upperHexDigit (c.toNat % 16) :: rest) = some (c.toNat, rest) := by
    rw [codeUnit?, hexadecimal?_control c.toNat control]
    rfl
  have scalar : scalar? c.toNat = some c := by
    have valid : c.toNat.isValidChar := c.valid
    rw [scalar?, if_pos valid, Char.ofNat_toNat]
  have notLeading : isLeading c.toNat = false := by
    simp only [isLeading, Bool.and_eq_false_iff, decide_eq_false_iff_not]
    omega
  have direct : unicodeEscape? ('0' :: '0' :: upperHexDigit (c.toNat / 16) ::
      upperHexDigit (c.toNat % 16) :: rest) = codePoint? ('0' :: '0' ::
      upperHexDigit (c.toNat / 16) :: upperHexDigit (c.toNat % 16) :: rest) := rfl
  rw [direct, codePoint?, unit]
  simp [notLeading, scalar]

theorem quotedRest?_escaped (steps : Nat) (c : Char) (rest : List Char) :
    quotedRest? (steps + 1) (escaped c ++ rest) =
      (quotedRest? steps rest).map fun (content, after) => (c :: content, after) := by
  have escapedAs : ∀ (mark : List Char) , escape? (mark ++ rest) = some (c, rest) →
      quotedRest? (steps + 1) ('\\' :: (mark ++ rest)) =
        (quotedRest? steps rest).map fun (content, after) => (c :: content, after) := by
    intro mark read
    rw [quotedRest?.eq_4, read]
    cases rest : quotedRest? steps rest <;> simp [rest]
  unfold escaped
  split
  · exact escapedAs ['"'] rfl
  · exact escapedAs ['\\'] rfl
  · exact escapedAs ['n'] rfl
  · exact escapedAs ['r'] rfl
  · exact escapedAs ['t'] rfl
  · exact escapedAs ['b'] rfl
  · exact escapedAs ['f'] rfl
  case h_8 quote backslash newline carriage _ _ _ =>
    split
    case isTrue control =>
      exact escapedAs ['u', '0', '0', upperHexDigit (c.toNat / 16), upperHexDigit (c.toNat % 16)]
        (unicodeEscape?_control control rest)
    case isFalse =>
      have noLineEnd : isLineEnd c = false := by
        simp only [isLineEnd, Bool.or_eq_false_iff, beq_eq_false_iff_ne]
        exact ⟨newline, carriage⟩
      rw [List.singleton_append, quotedRest?.eq_5 steps c rest quote backslash, noLineEnd]
      simp

theorem quotedRest?_quoted (content rest : List Char) (steps : Nat) (enough : content.length < steps) :
    quotedRest? steps (content.flatMap escaped ++ '"' :: rest) = some (content, rest) := by
  induction content generalizing steps with
  | nil =>
    obtain ⟨steps, rfl⟩ := Nat.exists_eq_add_of_lt enough
    rfl
  | cons c content ih =>
    obtain ⟨steps, rfl⟩ : ∃ fewer, steps = fewer + 1 := ⟨steps - 1, by omega⟩
    rw [List.length_cons] at enough
    rw [List.flatMap_cons, List.append_assoc, quotedRest?_escaped, ih steps (by omega)]
    rfl

theorem escaped_head (c : Char) :
    ∃ first others, escaped c = first :: others ∧ first ≠ '"' ∧ isLineEnd first = false := by
  unfold escaped
  split
  case h_8 quote _ newline carriage _ _ _ =>
    split
    · exact ⟨_, _, rfl, by decide, rfl⟩
    · refine ⟨c, [], rfl, quote, ?_⟩
      simp only [isLineEnd, Bool.or_eq_false_iff, beq_eq_false_iff_ne]
      exact ⟨newline, carriage⟩
  all_goals exact ⟨_, _, rfl, by decide, rfl⟩

theorem escaped_length_pos (c : Char) : 1 ≤ (escaped c).length := by
  obtain ⟨first, others, same, -⟩ := escaped_head c
  simp [same]

theorem length_le_flatMap_escaped (content : List Char) :
    content.length ≤ (content.flatMap escaped).length := by
  induction content with
  | nil => exact Nat.le_refl 0
  | cons c content ih =>
    have first := escaped_length_pos c
    rw [List.flatMap_cons, List.length_append, List.length_cons]
    omega

theorem first?_quoted (content : String) {rest : List Char} (stops : startsIn goesOn rest = false) :
    first? ((quoted content).toList ++ rest) = some (.string content, rest) := by
  have whole : (quoted content).toList ++ rest =
      '"' :: (content.toList.flatMap escaped ++ '"' :: rest) := by
    simp [quoted]
  have enough := length_le_flatMap_escaped content.toList
  rw [whole]
  cases empty : content.toList with
  | nil =>
    have notBlock : ∀ after, '"' :: rest = '"' :: '"' :: after → False := by
      intro after same
      rw [(List.cons.inj same).2] at stops
      exact absurd stops (by simp [goesOn])
    have read : quoted? ('"' :: rest) = some ([], rest) := rfl
    have spelled : String.ofList [] = content := by rw [← empty, String.ofList_toList]
    rw [List.flatMap_nil, List.nil_append, first?.eq_5 _ notBlock, read]
    simp [spelled]
  | cons c others =>
    obtain ⟨first, further, same, notQuote, notLineEnd⟩ := escaped_head c
    have head : (c :: others).flatMap escaped ++ '"' :: rest =
        first :: (further ++ (others.flatMap escaped ++ '"' :: rest)) := by
      simp [same]
    have notBlock : ∀ after,
        (c :: others).flatMap escaped ++ '"' :: rest = '"' :: '"' :: after → False := by
      intro after block
      rw [head] at block
      exact notQuote (List.cons.inj block).1
    have read : quoted? ((c :: others).flatMap escaped ++ '"' :: rest) = some (c :: others, rest) := by
      rw [head, quoted?, notLineEnd, if_neg (by decide), ← head]
      apply quotedRest?_quoted
      have length := congrArg List.length head
      rw [List.length_append, List.length_cons, List.length_cons] at length
      rw [empty] at enough
      omega
    have spelled : String.ofList (c :: others) = content := by rw [← empty, String.ofList_toList]
    rw [first?.eq_5 _ notBlock, read]
    simp [spelled]

end Token

end QueryEditor
