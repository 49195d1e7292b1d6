import QueryEditor.Binary64.Shortest
import QueryEditor.Proofs.Text.Decimal

namespace QueryEditor.Binary64

open Text

theorem nearest_scale (numerator denominator factor : Nat) (positive : 0 < factor) :
    nearest (numerator * factor) (denominator * factor) = nearest numerator denominator := by
  have below : 2 * (numerator % denominator * factor) < denominator * factor ↔
      2 * (numerator % denominator) < denominator := by
    rw [← Nat.mul_assoc, Nat.mul_lt_mul_right positive]
  have above : denominator * factor < 2 * (numerator % denominator * factor) ↔
      denominator < 2 * (numerator % denominator) := by
    rw [← Nat.mul_assoc, Nat.mul_lt_mul_right positive]
  simp only [nearest, Nat.mul_div_mul_right _ _ positive, Nat.mul_mod_mul_right, below, above]

theorem nearest_multiple (quotient denominator : Nat) (positive : 0 < denominator) :
    nearest (quotient * denominator) denominator = quotient := by
  simp only [nearest, Nat.mul_mod_left, Nat.mul_div_cancel _ positive, Nat.mul_zero, positive, ite_true]

theorem nearestRank_scale (numerator denominator factor : Nat) (positive : 0 < factor) :
    nearestRank (numerator * factor) (denominator * factor) = nearestRank numerator denominator := by
  have scaled : numerator * factor * unitsInOne = numerator * unitsInOne * factor := by
    rw [Nat.mul_assoc, Nat.mul_comm factor, Nat.mul_assoc]
  have shifted : ∀ power, denominator * factor * power = denominator * power * factor := by
    intro power
    rw [Nat.mul_assoc, Nat.mul_comm factor, Nat.mul_assoc]
  simp only [nearestRank, scaled, shifted, Nat.mul_div_mul_right _ _ positive,
    nearest_scale _ _ _ positive]

theorem pow_pos (base exponent : Nat) (positive : 0 < base) : 0 < Nat.pow base exponent :=
  Nat.pow_pos positive

theorem pow_two_mono (smaller larger : Nat) (order : smaller ≤ larger) :
    Nat.pow 2 smaller ≤ Nat.pow 2 larger :=
  Nat.pow_le_pow_right (by decide) order

theorem binade_pos : 0 < binade := by
  decide +kernel

theorem unitsInOne_pos : 0 < unitsInOne := by
  decide +kernel

theorem log2_shifted (significand shift : Nat) (lower : binade ≤ significand)
    (upper : significand < 2 * binade) : (significand * Nat.pow 2 shift).log2 = 52 + shift := by
  have positive := pow_pos 2 shift (by decide)
  have nonzero : significand * Nat.pow 2 shift ≠ 0 :=
    Nat.ne_of_gt (Nat.mul_pos (Nat.lt_of_lt_of_le binade_pos lower) positive)
  rw [Nat.log2_eq_iff nonzero, Nat.add_right_comm 52 shift 1, Nat.pow_add, Nat.pow_add]
  have double : 2 ^ (52 + 1) = 2 * binade := rfl
  rw [double]
  exact ⟨Nat.mul_le_mul_right _ lower, Nat.mul_lt_mul_of_pos_right upper positive⟩

/-- Every rank is nearest to its own magnitude. -/
theorem nearestRank_units (rank : Nat) : nearestRank (units rank) unitsInOne = rank := by
  have shifted : nearestRank (units rank) unitsInOne =
      ((units rank).log2 - 52) * binade +
        nearest (units rank) (Nat.pow 2 ((units rank).log2 - 52)) := by
    simp only [nearestRank, Nat.mul_div_cancel _ unitsInOne_pos]
    rw [Nat.mul_comm unitsInOne, nearest_scale _ _ _ unitsInOne_pos]
  rw [shifted]
  -- Ranks of the first binade count units; above it the leading bit of the magnitude tells the binade.
  by_cases subnormal : rank < binade
  · have count : units rank = rank := if_pos subnormal
    have short : rank.log2 - 52 = 0 := by
      by_cases zero : rank = 0
      · rw [zero]
        rfl
      · have bound : rank.log2 < 52 := (Nat.log2_lt zero).mpr subnormal
        omega
    rw [count, short, Nat.zero_mul, Nat.zero_add]
    simpa using nearest_multiple rank 1 (by decide)
  · have count : units rank = (binade + rank % binade) * Nat.pow 2 (rank / binade - 1) :=
      if_neg subnormal
    have small : rank % binade < binade := Nat.mod_lt _ binade_pos
    have leading := log2_shifted (binade + rank % binade) (rank / binade - 1) (by omega) (by omega)
    rw [← count] at leading
    have shift : (units rank).log2 - 52 = rank / binade - 1 := by omega
    rw [shift, count, nearest_multiple _ _ (pow_pos 2 _ (by decide))]
    have whole : 1 ≤ rank / binade := (Nat.one_le_div_iff binade_pos).mpr (by omega)
    have split := Nat.div_add_mod' rank binade
    calc
      (rank / binade - 1) * binade + (binade + rank % binade)
          = ((rank / binade - 1) + 1) * binade + rank % binade := by rw [Nat.succ_mul]; omega
      _ = rank / binade * binade + rank % binade := by rw [Nat.sub_add_cancel whole]
      _ = rank := split

theorem units_pos (rank : Nat) (positive : 0 < rank) : 0 < units rank := by
  unfold units
  split
  · exact positive
  · exact Nat.mul_pos (Nat.add_pos_left binade_pos _) (pow_pos 2 _ (by decide))

theorem units_bound (rank : Nat) (bound : rank < rankCount) : units rank < Nat.pow 2 2098 := by
  unfold units
  split
  case isTrue subnormal =>
    exact Nat.lt_trans subnormal (by decide +kernel)
  case isFalse =>
    have exponent : rank / binade < 2047 := (Nat.div_lt_iff_lt_mul binade_pos).mpr bound
    have small : binade + rank % binade < Nat.pow 2 53 := by
      have remainder := Nat.mod_lt rank binade_pos
      have double : Nat.pow 2 53 = 2 * binade := by decide +kernel
      omega
    have top : 53 + (rank / binade - 1) ≤ 2098 := by omega
    obtain ⟨more, whole⟩ := Nat.exists_eq_add_of_le top
    rw [whole]
    calc
      (binade + rank % binade) * Nat.pow 2 (rank / binade - 1)
          < Nat.pow 2 53 * Nat.pow 2 (rank / binade - 1) :=
            Nat.mul_lt_mul_of_pos_right small (pow_pos 2 _ (by decide))
      _ = Nat.pow 2 (53 + (rank / binade - 1)) := (Nat.pow_add 2 53 _).symm
      _ ≤ Nat.pow 2 (53 + (rank / binade - 1) + more) := pow_two_mono _ _ (Nat.le_add_right _ _)

def leadingPlace (significand : Nat) (exponent : Int) : Int :=
  exponent + (Nat.toDigits 10 significand).length

/-- A decimal number between the two bounds is rounded as a ratio of whole numbers. -/
theorem ofDecimal_eq_ratio (negative : Bool) (significand : Nat) (exponent : Int) :
    ofDecimal negative significand exponent =
      if significand = 0 ∨ leadingPlace significand exponent < -400 then
        finite negative ⟨0, by decide⟩
      else if 400 < leadingPlace significand exponent then infinite negative
      else ofRank negative
        (nearestRank (significand * Nat.pow 10 exponent.toNat) (Nat.pow 10 (-exponent).toNat)) := by
  simp only [ofDecimal, leadingPlace, Bool.or_eq_true, decide_eq_true_eq]
  congr 2
  by_cases whole : 0 ≤ exponent
  · have none : (-exponent).toNat = 0 := by omega
    rw [if_pos whole, none]
  · have none : exponent.toNat = 0 := by omega
    have one : significand * Nat.pow 10 0 = significand := Nat.mul_one _
    rw [if_neg whole, none, one]

theorem ofDecimal_times_ten (negative : Bool) (significand : Nat) (exponent : Int) :
    ofDecimal negative (10 * significand) exponent =
      ofDecimal negative significand (exponent + 1) := by
  by_cases zero : significand = 0
  · subst zero
    simp [ofDecimal_eq_ratio]
  · have positive : 0 < significand := Nat.pos_of_ne_zero zero
    have place : leadingPlace (10 * significand) exponent = leadingPlace significand (exponent + 1) := by
      simp only [leadingPlace, toDigits_times_ten _ positive, List.length_append, List.length_cons,
        List.length_nil]
      omega
    have ratio : nearestRank (10 * significand * Nat.pow 10 exponent.toNat)
          (Nat.pow 10 (-exponent).toNat) =
        nearestRank (significand * Nat.pow 10 (exponent + 1).toNat)
          (Nat.pow 10 (-(exponent + 1)).toNat) := by
      by_cases whole : 0 ≤ exponent
      · have up : (exponent + 1).toNat = exponent.toNat + 1 := by omega
        have none : (-exponent).toNat = 0 := by omega
        have stillNone : (-(exponent + 1)).toNat = 0 := by omega
        have power : Nat.pow 10 (exponent.toNat + 1) = Nat.pow 10 exponent.toNat * 10 := rfl
        rw [up, none, stillNone, power, Nat.mul_comm 10 significand, Nat.mul_assoc,
          Nat.mul_comm 10 (Nat.pow 10 exponent.toNat)]
      · have none : exponent.toNat = 0 := by omega
        have stillNone : (exponent + 1).toNat = 0 := by omega
        have up : (-exponent).toNat = (-(exponent + 1)).toNat + 1 := by omega
        have power : Nat.pow 10 ((-(exponent + 1)).toNat + 1) =
          Nat.pow 10 (-(exponent + 1)).toNat * 10 := rfl
        have one : ∀ n, n * Nat.pow 10 0 = n := Nat.mul_one
        rw [none, stillNone, up, power, one, one, Nat.mul_comm 10 significand,
          nearestRank_scale _ _ 10 (by decide)]
    have nonzero : 10 * significand ≠ 0 := by omega
    simp only [ofDecimal_eq_ratio, place, ratio, nonzero, zero, false_or]

theorem ofDecimal_times_power (negative : Bool) (significand count : Nat) (exponent : Int) :
    ofDecimal negative (Nat.pow 10 count * significand) exponent =
      ofDecimal negative significand (exponent + count) := by
  induction count generalizing exponent with
  | zero =>
    have one : Nat.pow 10 0 * significand = significand := Nat.one_mul _
    rw [one]
    simp
  | succ count ih =>
    have power : Nat.pow 10 (count + 1) * significand = 10 * (Nat.pow 10 count * significand) := by
      rw [show Nat.pow 10 (count + 1) = Nat.pow 10 count * 10 from rfl, Nat.mul_comm _ 10, Nat.mul_assoc]
    rw [power, ofDecimal_times_ten, ih]
    congr 1
    omega

theorem ofDecimal_negative (significand : Nat) (exponent : Int) {rank : Fin rankCount}
    (magnitude : ofDecimal false significand exponent = finite false rank) (negative : Bool) :
    ofDecimal negative significand exponent = finite negative rank := by
  have ofRank_finite : ∀ {n : Nat}, ofRank false n = finite false rank →
      ofRank negative n = finite negative rank := by
    intro n same
    unfold ofRank at same ⊢
    split at same
    case isTrue bound =>
      cases same
      rw [dif_pos bound]
    case isFalse => cases same
  rw [ofDecimal_eq_ratio] at magnitude ⊢
  split at magnitude
  case isTrue zero =>
    cases magnitude
    rw [if_pos zero]
  case isFalse nonzero =>
    rw [if_neg nonzero]
    split at magnitude
    case isTrue => cases magnitude
    case isFalse small =>
      rw [if_neg small]
      exact ofRank_finite magnitude

theorem ofRank_rank (negative : Bool) (rank : Fin rankCount) :
    ofRank negative rank = finite negative rank :=
  dif_pos rank.isLt

theorem exactDecimal_reads_back (rank : Fin rankCount) (positive : 0 < rank.val) :
    ofDecimal false (exactDecimal (units rank)).digits (exactDecimal (units rank)).exponent =
      finite false rank := by
  have count := units_pos rank positive
  have bound := units_bound rank rank.isLt
  have fives := pow_pos 5 1074 (by decide)
  have digits := Nat.mul_pos count fives
  have low : ¬ (Nat.toDigits 10 (units rank * Nat.pow 5 1074)).length ≤ 673 := by
    rw [Nat.length_toDigits_le_iff (by decide) (by decide), Nat.not_lt]
    calc
      10 ^ 673 ≤ Nat.pow 5 1074 := by decide +kernel
      _ ≤ units rank * Nat.pow 5 1074 := Nat.le_mul_of_pos_left _ count
  have high : (Nat.toDigits 10 (units rank * Nat.pow 5 1074)).length ≤ 1474 := by
    rw [Nat.length_toDigits_le_iff (by decide) (by decide)]
    calc
      units rank * Nat.pow 5 1074 < Nat.pow 2 2098 * Nat.pow 5 1074 :=
        Nat.mul_lt_mul_of_pos_right bound fives
      _ ≤ 10 ^ 1474 := by decide +kernel
  have ratio : Nat.pow 10 1074 = unitsInOne * Nat.pow 5 1074 := by decide +kernel
  have one : ∀ n, n * Nat.pow 10 0 = n := Nat.mul_one
  have place : -400 ≤ leadingPlace (units rank * Nat.pow 5 1074) (-1074) ∧
      leadingPlace (units rank * Nat.pow 5 1074) (-1074) ≤ 400 := by
    unfold leadingPlace
    omega
  dsimp only [exactDecimal]
  rw [ofDecimal_eq_ratio, if_neg (by omega), if_neg (by omega),
    show (-1074 : Int).toNat = 0 from rfl, show (- -1074 : Int).toNat = 1074 from rfl, one, ratio,
    nearestRank_scale _ _ _ fives, nearestRank_units, ofRank_rank]

/-- The fewest digits that are written for a magnitude read back as its rank. -/
theorem shortest_reads_back (rank : Fin rankCount) (positive : 0 < rank.val) :
    ofDecimal false (shortest rank).digits (shortest rank).exponent = finite false rank := by
  unfold shortest
  dsimp only
  generalize found : List.find? _ _ = candidate
  cases candidate with
  | none => exact exactDecimal_reads_back rank positive
  | some decimal =>
    have readsBack := List.find?_some found
    rw [beq_iff_eq, ofRank_rank] at readsBack
    exact readsBack

end QueryEditor.Binary64
