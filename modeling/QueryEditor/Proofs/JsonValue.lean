import QueryEditor.JsonValue
import QueryEditor.Proofs.Text.Runs
import Mathlib.Data.List.TakeWhile

namespace QueryEditor.JsonValue

open Text

def truthWord (truth : Bool) : List Char :=
  if truth then ['t', 'r', 'u', 'e'] else ['f', 'a', 'l', 's', 'e']

/-- A word with nothing around it but the white space of the format. -/
def IsSpaced (word text : List Char) : Prop :=
  ∃ before after, before.all isSpace = true ∧ after.all isSpace = true ∧ text = before ++ word ++ after

variable {text rest before after : List Char} {truth : Bool}

theorem skipSpace_run (blank : before.all isSpace = true) (ends : startsIn isSpace rest = false) :
    skipSpace (before ++ rest) = rest :=
  dropWhile_run blank ends

theorem skipSpace_eq_nil_iff : skipSpace text = [] ↔ text.all isSpace = true := by
  rw [skipSpace, List.dropWhile_eq_nil_iff, List.all_eq_true]

theorem truthWord_starts (truth : Bool) (rest : List Char) :
    startsIn isSpace (truthWord truth ++ rest) = false := by
  cases truth <;> rfl

theorem scalar_boolean_iff :
    scalar text = some (boolean truth, rest) ↔ skipSpace text = truthWord truth ++ rest := by
  constructor
  · intro read
    unfold scalar at read
    split at read
    case h_1 => cases read
    case h_2 word =>
      cases read
      exact word
    case h_3 word =>
      cases read
      exact word
    case h_4 =>
      obtain ⟨⟨content, after⟩, -, same⟩ := Option.map_eq_some_iff.mp read
      cases same
    case h_5 =>
      obtain ⟨⟨number, after⟩, -, same⟩ := Option.map_eq_some_iff.mp read
      cases same
  · intro same
    unfold scalar
    rw [same]
    cases truth <;> rfl

theorem startsWith_truthWord (word : skipSpace text = truthWord truth ++ rest) :
    startsWith '[' text = false ∧ startsWith '{' text = false := by
  unfold startsWith
  rw [word]
  cases truth <;> exact ⟨rfl, rfl⟩

theorem value_boolean_iff (levels : Nat) :
    value levels text = some (boolean truth, rest) ↔ skipSpace text = truthWord truth ++ rest := by
  cases levels with
  | zero => exact scalar_boolean_iff
  | succ levels =>
    constructor
    · intro read
      unfold value at read
      split at read
      case isTrue =>
        obtain ⟨⟨items, after⟩, -, same⟩ := Option.map_eq_some_iff.mp read
        cases same
      case isFalse =>
        split at read
        case isTrue =>
          obtain ⟨⟨members, after⟩, -, same⟩ := Option.map_eq_some_iff.mp read
          cases same
        case isFalse => exact scalar_boolean_iff.mp read
    · intro word
      have other := startsWith_truthWord word
      simp only [value, other, Bool.false_eq_true, ite_false]
      exact scalar_boolean_iff.mpr word

/-- A text is read as a truth value exactly if it is the word for it, up to white space around. -/
theorem parse?_boolean_iff (content : String) (truth : Bool) :
    parse? content = some (boolean truth) ↔ IsSpaced (truthWord truth) content.toList := by
  constructor
  · intro read
    obtain ⟨⟨found, rest⟩, first, last⟩ := Option.bind_eq_some_iff.mp read
    dsimp only at last
    split at last
    case isFalse => cases last
    case isTrue ends =>
      cases last
      refine ⟨content.toList.takeWhile isSpace, rest, List.all_takeWhile, ?_, ?_⟩
      · exact skipSpace_eq_nil_iff.mp (List.isEmpty_iff.mp ends)
      · have word := (value_boolean_iff maxDepth).mp first
        rw [List.append_assoc, ← word]
        exact List.takeWhile_append_dropWhile.symm
  · rintro ⟨before, after, blank, blankAfter, same⟩
    have word : skipSpace content.toList = truthWord truth ++ after := by
      rw [same, List.append_assoc]
      exact skipSpace_run blank (truthWord_starts truth after)
    refine Option.bind_eq_some_iff.mpr ⟨_, (value_boolean_iff maxDepth).mpr word, ?_⟩
    dsimp only
    rw [skipSpace_eq_nil_iff.mpr blankAfter]
    rfl

end QueryEditor.JsonValue
