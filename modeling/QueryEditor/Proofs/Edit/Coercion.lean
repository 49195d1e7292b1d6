import QueryEditor.Value.Printer
import QueryEditor.Proofs.Catalog
import QueryEditor.Proofs.JsonValue
import QueryEditor.Proofs.Binary64.ReadBack
import QueryEditor.Proofs.Edit.LeadingNumber
import QueryEditor.Proofs.Token.Spelling

namespace QueryEditor

open Text

namespace Coercion

def InRange (number : Int) : Prop :=
  -2147483648 ≤ number ∧ number ≤ 2147483647

instance (number : Int) : Decidable (InRange number) :=
  inferInstanceAs (Decidable (_ ∧ _))

variable {raw : String} {number : Int}

theorem intStart?_eq_some_iff : intStart? raw = some number ↔
    Numeral.LeadingInteger (trimStart raw.toList) number ∧ InRange number := by
  let text := trimStart raw.toList
  let places := (Numeral.digits (Numeral.sign text).2).1
  let value := Numeral.signed (Numeral.sign text).1 (decimalValue places)
  have read : intStart? raw =
      if !places.isEmpty && -2147483648 ≤ value && value ≤ 2147483647 then some value else none := rfl
  rw [Numeral.leadingInteger_iff, read, Option.ite_none_right_eq_some, Option.some.injEq]
  simp only [Bool.and_eq_true, Bool.not_eq_true', List.isEmpty_eq_false_iff, decide_eq_true_eq]
  constructor
  · rintro ⟨⟨⟨nonempty, low⟩, high⟩, rfl⟩
    exact ⟨⟨nonempty, rfl⟩, low, high⟩
  · rintro ⟨⟨nonempty, rfl⟩, low, high⟩
    exact ⟨⟨⟨nonempty, low⟩, high⟩, rfl⟩

theorem isTrue_iff (raw : String) :
    isTrue raw = true ↔ JsonValue.IsSpaced ['t', 'r', 'u', 'e'] raw.toList := by
  rw [show ['t', 'r', 'u', 'e'] = JsonValue.truthWord true from rfl, ← JsonValue.parse?_boolean_iff]
  unfold isTrue
  split
  case h_1 truth read => simp [read]
  case h_2 other =>
    constructor
    · nofun
    · intro read
      exact absurd read (other true)

/-- What a leaf type takes a text for: an integer is the longest one behind white space at the start, as
long as it takes no more than 32 bits, and an enum takes nothing but its values. -/
def Taken (raw : String) : TypeDefinition → Value → Prop
  | .builtin .int, value => ∃ number : Int64, value = .int number ∧ InRange number.toInt ∧
      (Numeral.LeadingInteger (trimStart raw.toList) number.toInt ∨ number.toInt = 10 ∧
        ∀ other, Numeral.LeadingInteger (trimStart raw.toList) other → ¬ InRange other)
  | .builtin .boolean, value => ∃ truth, value = .boolean truth ∧
      (truth = true ↔ JsonValue.IsSpaced ['t', 'r', 'u', 'e'] raw.toList)
  | .builtin .float, value => ∃ number, value = .float number ∧ number.isFinite = true
  | .enum type, value => ∀ first others, type.values.names = first :: others →
      value = .enum (if raw ∈ type.values.names then raw else first)
  | .builtin .id, value => value = .string raw
  | .builtin .string, value => value = .string raw
  | .scalar _, value => value = .string raw
  | _, _ => False

theorem literal_int (raw : String) : Taken raw (.builtin .int) (literal (.builtin .int) raw) := by
  cases read : intStart? raw with
  | some number =>
    have leading := intStart?_eq_some_iff.mp read
    obtain ⟨low, high⟩ := leading.2
    have same : (Int64.ofInt number).toInt = number :=
      Int64.toInt_ofInt_of_le (by omega) (by omega)
    refine ⟨.ofInt number, ?_, ?_⟩
    · rw [literal, read]
      rfl
    · rw [same]
      exact ⟨leading.2, .inl leading.1⟩
  | none =>
    refine ⟨10, ?_, by decide, .inr ⟨rfl, fun other leading fits => ?_⟩⟩
    · rw [literal, read]
      rfl
    · rw [intStart?_eq_some_iff.mpr ⟨leading, fits⟩] at read
      cases read

theorem literal_float (raw : String) :
    ∃ number, literal (.builtin .float) raw = .float number ∧ number.isFinite = true := by
  cases read : floatStart? raw with
  | some number =>
    refine ⟨number, ?_, (floatStart?_eq_some_iff.mp read).2⟩
    rw [literal, read]
    rfl
  | none =>
    refine ⟨.ofTenths 15, ?_, by decide +kernel⟩
    rw [literal, read]
    rfl

theorem literal_enum (type : EnumType) (raw : String) {first : String} {others : List String}
    (declared : type.values.names = first :: others) :
    literal (.enum type) raw = .enum (if raw ∈ type.values.names then raw else first) := by
  have usual : (TypeDefinition.enum type).defaultValue = .enum first := by
    rw [type.values.names_eq] at declared
    obtain ⟨value, rest, entries, rfl, -⟩ := List.map_eq_cons_iff.mp declared
    rw [TypeDefinition.defaultValue, entries]
    rfl
  simp only [literal, Catalog.contains_iff, usual]
  split <;> rfl

/-- Every leaf type takes every text for a literal. -/
theorem literal_taken {type : TypeDefinition} (leaf : type.isLeaf = true) (raw : String) :
    Taken raw type (literal type raw) := by
  cases type with
  | builtin kind =>
    cases kind with
    | boolean => exact ⟨isTrue raw, rfl, isTrue_iff raw⟩
    | int => exact literal_int raw
    | float => exact literal_float raw
    | id => rfl
    | string => rfl
  | scalar head => rfl
  | enum type => exact fun first others declared => literal_enum type raw declared
  | _ => cases leaf

/-- The lowest integer of 32 bits is taken, the one above the highest is not. -/
theorem literal_taken_edges :
    (TypeDefinition.builtin .int).isLeaf = true ∧
      Taken "\u3000-02147483648 apples" (.builtin .int) (.int (-2147483648)) ∧
      Taken "+2147483648" (.builtin .int) (.int 10) := by
  have lowest := @literal_taken (.builtin .int) rfl "\u3000-02147483648 apples"
  have above := @literal_taken (.builtin .int) rfl "+2147483648"
  have low : literal (.builtin .int) "\u3000-02147483648 apples" = .int (-2147483648) := by decide
  have high : literal (.builtin .int) "+2147483648" = .int 10 := by decide
  rw [low] at lowest
  rw [high] at above
  exact ⟨rfl, lowest, above⟩

theorem isBlank_of_isDigit {c : Char} (digit : isDigit c = true) : isBlank c = false := by
  have bounds := Token.isDigit_toNat digit
  simp only [isBlank, Bool.or_eq_false_iff, Bool.and_eq_false_iff, decide_eq_false_iff_not,
    beq_eq_false_iff_ne]
  omega

theorem trimStart_spelled {n : Numeral} (regular : n.Regular) : trimStart n.spelled = n.spelled := by
  obtain ⟨c, others, whole⟩ := List.exists_cons_of_ne_nil regular.wholeNonempty
  have all := regular.whole
  rw [whole, List.all_cons, Bool.and_eq_true] at all
  have first := isBlank_of_isDigit all.1
  rw [Numeral.spelled, whole]
  cases n.negative with
  | true => rfl
  | false => simp [Numeral.spelledSign, trimStart, first]

theorem literal_print_int {number : Int64} (fits : InRange number.toInt) :
    literal (.builtin .int) (Value.int number).print = .int number := by
  have leading := Numeral.leadingInteger_spelled (Token.intNumeral_regular number.toInt)
  rw [← trimStart_spelled (Token.intNumeral_regular _), Token.intNumeral_spelled,
    Token.intNumeral_toInt] at leading
  rw [Value.print, literal, intStart?_eq_some_iff.mpr ⟨leading, fits⟩, Option.map_some,
    Option.getD_some, Int64.ofInt_toInt]

theorem literal_print_float {number : Binary64} (isFinite : number.isFinite = true) :
    literal (.builtin .float) (Value.float number).print = .float number := by
  cases number with
  | infinite => cases isFinite
  | notANumber => cases isFinite
  | finite negative rank =>
    have regular := Binary64.written_regular negative rank
    have spelled : Numeral.longest? ((Binary64.written negative rank).spelled ++ []) = _ :=
      Numeral.longest?_spelled regular rfl
    rw [List.append_nil, ← trimStart_spelled regular, ← Binary64.text_spelled] at spelled
    have read : floatStart? (Binary64.finite negative rank).text = some (.finite negative rank) := by
      rw [floatStart?_eq, spelled]
      simp [Binary64.written_value, Binary64.isFinite]
    rw [Value.print, literal, read]
    rfl

theorem literal_print_boolean (truth : Bool) :
    literal (.builtin .boolean) (Value.boolean truth).print = .boolean truth := by
  have read := (JsonValue.parse?_boolean_iff (if truth then "true" else "false") truth).mpr
    ⟨[], [], rfl, rfl, by cases truth <;> rfl⟩
  rw [Value.print, literal, isTrue, read]

theorem literal_print_enum {type : EnumType} {name : String} (declared : name ∈ type.values.names) :
    literal (.enum type) (Value.enum name).print = .enum name := by
  rw [Value.print, literal, if_pos (Catalog.contains_iff.mpr declared)]

theorem literal_enum_empty {type : EnumType} (none : type.values.names = []) (raw : String) :
    literal (.enum type) raw = (TypeDefinition.enum type).defaultValue := by
  have undeclared : ¬ type.values.contains raw = true := by
    rw [Catalog.contains_iff, none]
    exact List.not_mem_nil
  rw [literal, if_neg undeclared]

theorem literal_enum_again (type : EnumType) (raw : String) :
    literal (.enum type) (literal (.enum type) raw).print = literal (.enum type) raw := by
  cases declared : type.values.names with
  | nil => rw [literal_enum_empty declared, literal_enum_empty declared]
  | cons first others =>
    rw [literal_enum type raw declared]
    apply literal_print_enum
    split
    case isTrue there => exact there
    case isFalse =>
      rw [declared]
      exact List.mem_cons_self

def readsRaw : TypeDefinition → Bool
  | .builtin .boolean => true
  | .builtin .float => true
  | .builtin .int => true
  | .enum _ => true
  | _ => false

theorem literal_quoted {type : TypeDefinition} (quotes : readsRaw type = false) (raw : String) :
    literal type raw = .string raw := by
  cases type with
  | builtin kind =>
    cases kind with
    | id => rfl
    | string => rfl
    | _ => cases quotes
  | enum => cases quotes
  | _ => rfl

theorem quoted_ne (content : String) : quoted content ≠ content := by
  intro same
  have lengths := congrArg (·.toList.length) same
  have enough := Token.length_le_flatMap_escaped content.toList
  simp only [quoted, String.toList_ofList, List.length_cons, List.length_append] at lengths
  omega

/-- Raw text may be edited on: the text of a literal gives that literal again. Types that quote the text
quote it once more. -/
theorem literal_print_iff (type : TypeDefinition) (raw : String) :
    literal type (literal type raw).print = literal type raw ↔ readsRaw type = true := by
  constructor
  · intro again
    by_contra quotes
    rw [Bool.not_eq_true] at quotes
    rw [literal_quoted quotes raw, literal_quoted quotes] at again
    exact quoted_ne raw (Value.string.inj again)
  · intro reads
    cases type with
    | builtin kind =>
      cases kind with
      | boolean => exact literal_print_boolean (isTrue raw)
      | int =>
        obtain ⟨number, same, fits, -⟩ := literal_int raw
        rw [same]
        exact literal_print_int fits
      | float =>
        obtain ⟨number, same, finite⟩ := literal_float raw
        rw [same]
        exact literal_print_float finite
      | id => cases reads
      | string => cases reads
    | enum type => exact literal_enum_again type raw
    | _ => cases reads

end Coercion

end QueryEditor
