import QueryEditor.Edit.Coercion
import QueryEditor.Proofs.Binary64.Extent

namespace QueryEditor.Coercion

open Text

theorem readFloat_eq (raw : String) :
    readFloat raw =
      .ok (((Numeral.longest? (trimStart raw.toList)).map (·.1.toBinary64)).filter (·.isFinite)) := by
  obtain ⟨none, found⟩ | ⟨n, rest, stop, read, found, here⟩ :=
    Numeral.extent_bytes (trimStart raw.toList)
  · simp only [readFloat, found, none]
    rfl
  · obtain ⟨front, whole, both⟩ := here.cut
    obtain ⟨start, spelled, decimal, -⟩ := Numeral.longest?_longest read
    have same : front = start := List.append_cancel_right (whole.trans spelled.symm)
    subst same
    simp only [readFloat, found, both, bind, Except.bind, ofBytes?_bytes, Option.bind_some,
      Numeral.ofText?_decimal decimal, read, Option.map_some]
    rfl

theorem floatStart?_eq (raw : String) :
    floatStart? raw =
      ((Numeral.longest? (trimStart raw.toList)).map (·.1.toBinary64)).filter (·.isFinite) := by
  rw [floatStart?, readFloat_eq]
  rfl

theorem floatStart?_eq_some_iff {raw : String} {number : Binary64} :
    floatStart? raw = some number ↔
      Numeral.LeadingNumber (trimStart raw.toList) number ∧ number.isFinite = true := by
  rw [floatStart?_eq, Option.filter_eq_some_iff, Numeral.leadingNumber_iff]

theorem floatStart?_eq_none_iff {raw : String} :
    floatStart? raw = none ↔
      (∀ start, start <+: trimStart raw.toList → ¬ Numeral.IsDecimal start) ∨
        ∃ number, Numeral.LeadingNumber (trimStart raw.toList) number ∧ number.isFinite = false := by
  simp only [floatStart?_eq, ← Numeral.longest?_eq_none_iff, Numeral.leadingNumber_iff]
  cases Numeral.longest? (trimStart raw.toList) <;> simp

theorem extent_eq_none_iff {text : List Char} :
    Numeral.extent (bytes text) = .ok none ↔
      ∀ start, start <+: text → ¬ Numeral.IsDecimal start := by
  rw [← Numeral.longest?_eq_none_iff]
  obtain ⟨none, found⟩ | ⟨n, rest, stop, read, found, -⟩ := Numeral.extent_bytes text
  · simp [none, found]
  · simp [read, found]

theorem extent_eq_some_iff {text : List Char} {stop : Nat} :
    Numeral.extent (bytes text) = .ok (some stop) ↔
      ∃ start, LongestStart Numeral.IsDecimal text start ∧ (bytes start).length = stop := by
  obtain ⟨none, found⟩ | ⟨n, rest, offset, read, found, here⟩ := Numeral.extent_bytes text
  · rw [found]
    constructor
    · nofun
    · rintro ⟨start, longest, -⟩
      exact absurd longest.formed (Numeral.longest?_eq_none_iff.mp none start longest.starts)
  · obtain ⟨start, whole, -, longest⟩ := Numeral.longest?_longest read
    obtain ⟨front⟩ := here
    have same : start = front := List.append_cancel_right whole
    subst same
    rw [found, Except.ok.injEq, Option.some.injEq]
    constructor
    · rintro rfl
      exact ⟨start, longest, rfl⟩
    · rintro ⟨other, also, rfl⟩
      rw [longest.unique also]

/-- Of raw text the longest numeral in front is read, as its number unless that is too large, and all
offsets on the way are within the bytes. -/
theorem float_longest (raw : String) :
    readFloat raw = .ok (floatStart? raw) ∧
      (∀ stop, Numeral.extent (bytes (trimStart raw.toList)) = .ok (some stop) ↔
        ∃ start, LongestStart Numeral.IsDecimal (trimStart raw.toList) start ∧
          (bytes start).length = stop) ∧
      (Numeral.extent (bytes (trimStart raw.toList)) = .ok none ↔
        ∀ start, start <+: trimStart raw.toList → ¬ Numeral.IsDecimal start) ∧
      (∀ number, floatStart? raw = some number ↔
        Numeral.LeadingNumber (trimStart raw.toList) number ∧ number.isFinite = true) ∧
      (floatStart? raw = none ↔
        (∀ start, start <+: trimStart raw.toList → ¬ Numeral.IsDecimal start) ∨
          ∃ number, Numeral.LeadingNumber (trimStart raw.toList) number ∧ number.isFinite = false) := by
  have read : readFloat raw = .ok (floatStart? raw) := by
    rw [readFloat_eq, floatStart?_eq]
  exact ⟨read, fun _ => extent_eq_some_iff, extent_eq_none_iff, fun _ => floatStart?_eq_some_iff,
    floatStart?_eq_none_iff⟩

example : Numeral.extent (bytes ['4', 'e', '+']) = .ok (some 1) := by decide
example : Numeral.extent (bytes ['+', '.', 'e', '1']) = .ok none := by decide

end QueryEditor.Coercion
