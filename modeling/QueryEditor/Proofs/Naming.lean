import QueryEditor.Naming
import QueryEditor.Proofs.Text.Decimal
import QueryEditor.Proofs.Text.Runs
import Mathlib.Data.List.Nodup
import Mathlib.Data.List.Perm.Subperm
import Mathlib.Order.Bounds.Defs

namespace QueryEditor.Naming

open Text

theorem firstUnused_candidate (candidate : Nat → String) (taken : List String) (tries start : Nat) :
    ∃ number, firstUnused candidate taken tries start = candidate number := by
  induction tries generalizing start with
  | zero => exact ⟨start, rfl⟩
  | succ tries ih =>
    rw [firstUnused]
    split
    · exact ih (start + 1)
    · exact ⟨start, rfl⟩

theorem isName_append_number {stem : String} (name : isName stem = true) (number : Nat) :
    isName (stem ++ toString number) = true := by
  refine isName_append name ?_
  rw [List.all_eq_true]
  intro c member
  have digits := toDigits_all_digits number
  rw [List.all_eq_true] at digits
  rw [Nat.toString_eq_repr, Nat.toList_repr] at member
  exact isNamePart_of_isDigit (digits c member)

theorem isName_unique {stem : String} (name : isName stem = true) (taken : List String) :
    isName (unique stem taken) = true := by
  obtain ⟨number, named⟩ :=
    firstUnused_candidate (numbered stem) taken taken.length (extending stem taken)
  rw [unique, named, numbered]
  split
  · exact name
  · exact isName_append_number name number

theorem numbered_injective (stem : String) : Function.Injective (numbered stem) := by
  intro first second same
  have suffix (number : Nat) : (numbered stem number).toList =
      stem.toList ++ if number = 0 then [] else Nat.toDigits 10 number := by
    rw [numbered]
    split <;> simp [Nat.toString_eq_repr, Nat.toList_repr]
  have digits : (if first = 0 then [] else Nat.toDigits 10 first) =
      if second = 0 then [] else Nat.toDigits 10 second :=
    List.append_cancel_left ((suffix first).symm.trans ((congrArg String.toList same).trans (suffix second)))
  have value (number : Nat) :
      decimalValue (if number = 0 then [] else Nat.toDigits 10 number) = number := by
    split
    case isTrue zero => rw [zero, decimalValue_nil]
    · exact decimalValue_toDigits number
  rw [← value first, digits, value second]

theorem candidate_mem_of_firstUnused_mem {candidate : Nat → String} {taken : List String}
    {tries start : Nat} (unlucky : firstUnused candidate taken tries start ∈ taken) (number : Nat)
    (low : start ≤ number) (high : number ≤ start + tries) : candidate number ∈ taken := by
  induction tries generalizing start with
  | zero =>
    have only : number = start := by omega
    exact only ▸ unlucky
  | succ tries ih =>
    rw [firstUnused] at unlucky
    split at unlucky
    case isTrue met =>
      rcases Nat.eq_or_lt_of_le low with rfl | further
      · exact List.contains_iff_mem.mp met
      · exact ih unlucky further (by omega)
    case isFalse free => exact absurd (List.contains_iff_mem.mpr unlucky) free

theorem firstUnused_not_mem {candidate : Nat → String} (injective : Function.Injective candidate)
    (taken : List String) (start : Nat) :
    firstUnused candidate taken taken.length start ∉ taken := by
  intro unlucky
  have distinct : ((List.range' start (taken.length + 1)).map candidate).Nodup :=
    List.Nodup.map injective List.nodup_range'
  have within : (List.range' start (taken.length + 1)).map candidate ⊆ taken := by
    intro name member
    obtain ⟨number, range, rfl⟩ := List.mem_map.mp member
    have bounds := List.mem_range'_1.mp range
    exact candidate_mem_of_firstUnused_mem unlucky number bounds.1 (by omega)
  have crowded := (distinct.subperm within).length_le
  rw [List.length_map, List.length_range'] at crowded
  omega

theorem unique_not_mem (stem : String) (taken : List String) : unique stem taken ∉ taken :=
  firstUnused_not_mem (numbered_injective stem) taken (extending stem taken)

/-- The search with no bound on it: past each candidate that is used, it bumps the number. -/
inductive Search (candidate : Nat → String) (used : String → Prop) :
    (start bumps : Nat) → (found : String) → Prop
  | free {start : Nat} : ¬ used (candidate start) → Search candidate used start 0 (candidate start)
  | bump {start bumps : Nat} {found : String} : used (candidate start) →
      Search candidate used (start + 1) bumps found → Search candidate used start (bumps + 1) found

section Search

variable {candidate : Nat → String} {used : String → Prop} {start bumps : Nat} {found : String}

theorem Search.found_eq (search : Search candidate used start bumps found) :
    found = candidate (start + bumps) := by
  induction search with
  | free => rfl
  | bump _ _ ih => rw [ih, Nat.add_right_comm, Nat.add_assoc]

theorem Search.unused (search : Search candidate used start bumps found) : ¬ used found := by
  induction search with
  | free unused => exact unused
  | bump _ _ ih => exact ih

theorem Search.used_before (search : Search candidate used start bumps found) (number : Nat)
    (low : start ≤ number) (high : number < start + bumps) : used (candidate number) := by
  induction search with
  | free => omega
  | bump met _ ih =>
    rcases Nat.eq_or_lt_of_le low with rfl | further
    · exact met
    · exact ih further (by omega)

theorem search_of_free {taken : List String} {tries : Nat}
    (free : firstUnused candidate taken tries start ∉ taken) :
    ∃ bumps ≤ tries, Search candidate (· ∈ taken) start bumps
      (firstUnused candidate taken tries start) := by
  induction tries generalizing start with
  | zero => exact ⟨0, Nat.le_refl 0, .free free⟩
  | succ tries ih =>
    rw [firstUnused] at free ⊢
    split at free
    case isTrue met =>
      obtain ⟨bumps, few, search⟩ := ih free
      rw [if_pos met]
      exact ⟨bumps + 1, Nat.succ_le_succ few, .bump (List.contains_iff_mem.mp met) search⟩
    case isFalse met =>
      rw [if_neg met]
      exact ⟨0, Nat.zero_le _, .free free⟩

theorem firstUnused_search (injective : Function.Injective candidate) (taken : List String)
    (start : Nat) :
    ∃ bumps ≤ taken.length, Search candidate (· ∈ taken) start bumps
      (firstUnused candidate taken taken.length start) :=
  search_of_free (firstUnused_not_mem injective taken start)

end Search

theorem extending_pos_iff (stem : String) (taken : List String) :
    0 < extending stem taken ↔ ∃ name ∈ taken, stem.toList <+: name.toList := by
  rw [extending, List.countP_pos_iff]
  simp only [List.isPrefixOf_iff_prefix]

/-- The search for a new name ends after at most as many bumps as there are names. It ends at the stem
if no name starts with that, and else at the least number from that of such names on that is free. -/
theorem unique_found (stem : String) (taken : List String) :
    (∃ bumps ≤ taken.length, Search (numbered stem) (· ∈ taken) (extending stem taken) bumps
      (unique stem taken)) ∧
    unique stem taken ∉ taken ∧
    ((∀ name ∈ taken, ¬ stem.toList <+: name.toList) → unique stem taken = stem) ∧
    ((∃ name ∈ taken, stem.toList <+: name.toList) →
      ∃ number, IsLeast {number | extending stem taken ≤ number ∧ stem ++ toString number ∉ taken}
          number ∧
        unique stem taken = stem ++ toString number) := by
  obtain ⟨bumps, few, search⟩ :=
    firstUnused_search (numbered_injective stem) taken (extending stem taken)
  change Search _ _ _ _ (unique stem taken) at search
  refine ⟨⟨bumps, few, search⟩, search.unused, ?_, ?_⟩
  · intro other
    have none : extending stem taken = 0 := by
      by_contra some
      obtain ⟨name, member, starts⟩ := (extending_pos_iff stem taken).mp (Nat.pos_of_ne_zero some)
      exact other name member starts
    have immediate : bumps = 0 := by
      by_contra bumped
      have met := search.used_before 0 (by omega) (by omega)
      exact other stem met (List.prefix_refl _)
    rw [search.found_eq, none, immediate]
    rfl
  · intro extended
    have some := (extending_pos_iff stem taken).mpr extended
    have suffixed {number : Nat} (positive : 0 < number) :
        numbered stem number = stem ++ toString number := if_neg (Nat.ne_of_gt positive)
    have ends : unique stem taken = stem ++ toString (extending stem taken + bumps) := by
      rw [search.found_eq, suffixed (by omega)]
    refine ⟨extending stem taken + bumps, ⟨⟨Nat.le_add_right _ _, ?_⟩, ?_⟩, ends⟩
    · rw [← ends]
      exact search.unused
    · intro number member
      by_contra smaller
      have met := search.used_before number member.1 (Nat.not_le.mp smaller)
      rw [suffixed (Nat.lt_of_lt_of_le some member.1)] at met
      exact member.2 met

end QueryEditor.Naming
