import Mathlib.Algebra.Field.Rat
import Mathlib.Algebra.Order.Field.Basic
import Mathlib.Tactic.FieldSimp
import Mathlib.Tactic.NormNum
import Mathlib.Tactic.Positivity
import TagScript.Binary64.Decimal

set_option autoImplicit false

/-! # Rounding decimals

The rank of a decimal depends on its value alone, not on the digits and the exponent that the value
is written with (`Decimal.rank_congr`). The magnitude of a rank is rounded to that rank
(`nearestRank_units`), and so is the decimal that the rank is written as (`shortest_rank`). -/

namespace TagScript.Binary64

/-! ## Ratios -/

theorem nearestEven_mul {num den factor : Nat} (h : 0 < factor) :
    nearestEven (num * factor) (den * factor) = nearestEven num den := by
  have hquotient : num * factor / (den * factor) = num / den := Nat.mul_div_mul_right num den h
  have htwice : 2 * (num * factor % (den * factor)) = 2 * (num % den) * factor := by
    rw [Nat.mul_mod_mul_right, Nat.mul_assoc]
  simp only [nearestEven, hquotient, htwice, Nat.mul_lt_mul_right h]

/-- Rounding has no regard for a common factor. -/
theorem nearestRank_mul {num den factor : Nat} (h : 0 < factor) :
    nearestRank (num * factor) (den * factor) = nearestRank num den := by
  have hquotient : num * factor / (den * factor) = num / den := Nat.mul_div_mul_right num den h
  simp only [nearestRank, hquotient, Nat.mul_right_comm den factor, nearestEven_mul h]

/-- Equal ratios are rounded alike. -/
theorem nearestRank_congr {num den num' den' : Nat} (hden : 0 < den) (hden' : 0 < den')
    (h : num * den' = num' * den) : nearestRank num den = nearestRank num' den' := by
  rw [← nearestRank_mul hden', h, Nat.mul_comm den den', nearestRank_mul hden]

/-! ## Ranks -/

theorem nearestEven_of_dvd {n den : Nat} (h : 0 < den) : nearestEven (n * den) den = n := by
  have htwice : 2 * (n * den % den) < den := by
    rw [Nat.mul_mod_left]
    exact h
  rw [nearestEven, if_pos htwice, Nat.mul_div_left n h]

/-- A rank is that many spacings above the start of its binade: below it in the first binade, and
    from the start on in the others. -/
theorem exists_significand (rank : Nat) : ∃ significand,
    rank = binade rank * 2 ^ 52 + significand ∧ significand < 2 ^ 53 ∧
      (2 ^ 52 ≤ significand ∨ binade rank = 0) ∧
      units rank = significand * 2 ^ binade rank := by
  have hbinade : binade rank = rank / 2 ^ 52 - 1 := rfl
  have hunits : units rank = (rank - binade rank * 2 ^ 52) * 2 ^ binade rank := rfl
  refine ⟨rank - binade rank * 2 ^ 52, ?_, ?_, ?_, hunits⟩ <;> omega

/-- The spacing between the ranks around a magnitude. -/
theorem log2_units {significand doublings : Nat} (hlt : significand < 2 ^ 53)
    (hle : 2 ^ 52 ≤ significand ∨ doublings = 0) :
    (significand * 2 ^ doublings).log2 - 52 = doublings := by
  rcases hle with hle | rfl
  · have hne : significand * 2 ^ doublings ≠ 0 := by positivity
    have hlog : (significand * 2 ^ doublings).log2 = 52 + doublings := by
      rw [Nat.log2_eq_iff hne, Nat.pow_add, Nat.add_right_comm, Nat.pow_add]
      exact ⟨Nat.mul_le_mul_right _ hle, Nat.mul_lt_mul_of_pos_right hlt (by positivity)⟩
    omega
  · by_cases hzero : significand = 0
    · simp [hzero]
    · have hlog := (Nat.log2_lt hzero).2 hlt
      rw [Nat.pow_zero, Nat.mul_one]
      omega

/-- The magnitude of a rank is rounded to the rank. -/
theorem nearestRank_units {rank : Nat} (h : rank ≤ infiniteRank) :
    nearestRank (units rank) 1 = rank := by
  obtain ⟨significand, hrank, hlt, hle, hunits⟩ := exists_significand rank
  have hdoublings := log2_units hlt hle
  have hpos : 0 < 2 ^ binade rank := by positivity
  rw [nearestRank, hunits]
  simp only [Nat.div_one, Nat.pow_eq, hdoublings, Nat.one_mul, nearestEven_of_dvd hpos]
  rw [← hrank]
  exact Nat.min_eq_right h

/-! ## Decimals -/

namespace Decimal

/-- The number that a decimal denotes. -/
def value (d : Decimal) : ℚ := d.digits * 10 ^ d.exponent

theorem rank_eq (d : Decimal) : d.rank
    = nearestRank (d.digits * 10 ^ d.exponent.toNat * 2 ^ unitBits) (10 ^ (-d.exponent).toNat) := by
  by_cases h : 0 ≤ d.exponent
  · have hden : (-d.exponent).toNat = 0 := by omega
    rw [rank, if_pos h, hden, Nat.pow_zero]
    simp only [Nat.pow_eq]
  · have hnum : d.exponent.toNat = 0 := by omega
    rw [rank, if_neg h, hnum, Nat.pow_zero, Nat.mul_one]
    simp only [Nat.pow_eq]

theorem value_eq (d : Decimal) :
    d.value = (d.digits * 10 ^ d.exponent.toNat : ℕ) / (10 ^ (-d.exponent).toNat : ℕ) := by
  have hexponent : d.exponent = (d.exponent.toNat : ℤ) - ((-d.exponent).toNat : ℤ) := by omega
  rw [value, Nat.cast_mul, Nat.cast_pow, Nat.cast_pow, mul_div_assoc]
  congr 1
  conv_lhs => rw [hexponent, zpow_sub₀ (by norm_num), zpow_natCast, zpow_natCast]
  norm_num

/-- Decimals with the same value have the same rank. -/
theorem rank_congr {d d' : Decimal} (h : d.value = d'.value) : d.rank = d'.rank := by
  have hpos : ∀ n : Nat, 0 < 10 ^ n := fun n => by positivity
  have hcross : d.digits * 10 ^ d.exponent.toNat * 10 ^ (-d'.exponent).toNat
      = d'.digits * 10 ^ d'.exponent.toNat * 10 ^ (-d.exponent).toNat := by
    rw [value_eq, value_eq, div_eq_div_iff (by positivity) (by positivity)] at h
    exact_mod_cast h
  rw [rank_eq, rank_eq]
  refine nearestRank_congr (hpos _) (hpos _) ?_
  rw [Nat.mul_right_comm, hcross, Nat.mul_right_comm]

theorem rank_le (d : Decimal) : d.rank ≤ infiniteRank := by
  rw [rank_eq]
  exact nearestRank_le _ _

end Decimal

/-! ## The decimal of a rank -/

theorem five_pow_mul_two_pow (n : Nat) : 5 ^ n * 2 ^ n = 10 ^ n := by
  rw [← Nat.mul_pow]

/-- The exact decimal of a magnitude is rounded to its rank. -/
theorem exactDecimal_rank {rank : Nat} (h : rank ≤ infiniteRank) :
    (exactDecimal rank).rank = rank := by
  have hdigits : (exactDecimal rank).digits = units rank * 5 ^ unitBits := by
    simp only [exactDecimal, Nat.pow_eq]
  have hexponent : (exactDecimal rank).exponent = -(unitBits : ℤ) := rfl
  have hpos : 0 < 10 ^ unitBits := by positivity
  rw [Decimal.rank_eq, hdigits, hexponent, neg_neg, Int.toNat_natCast, Int.toNat_neg_natCast,
    Nat.pow_zero, Nat.mul_one, Nat.mul_assoc, five_pow_mul_two_pow]
  have hscale : nearestRank (units rank * 10 ^ unitBits) (1 * 10 ^ unitBits)
      = nearestRank (units rank) 1 := nearestRank_mul hpos
  rw [Nat.one_mul] at hscale
  rw [hscale, nearestRank_units h]

/-- A point of the grid is taken only if it has the rank; and the floor is taken if it has the rank
    and the magnitude is in the lower half above it. -/
theorem gridPoint?_eq_some {rank floor twice spacing : Nat} {exponent : Int} {d : Decimal}
    (hgrid : gridFloor rank exponent = (floor, twice, spacing))
    (h : gridPoint? rank exponent = some d) :
    d.rank = rank ∧
      ((⟨floor, exponent⟩ : Decimal).rank = rank → twice < spacing → d = ⟨floor, exponent⟩) := by
  unfold gridPoint? at h
  rw [hgrid] at h
  dsimp only at h
  generalize hbelow : decide ((⟨floor, exponent⟩ : Decimal).rank = rank) = isBelow at h
  generalize habove : decide ((⟨floor + 1, exponent⟩ : Decimal).rank = rank) = isAbove at h
  cases isBelow <;> cases isAbove
  · cases h
  · cases h
    exact ⟨of_decide_eq_true habove, fun hrank => absurd hrank (of_decide_eq_false hbelow)⟩
  · cases h
    exact ⟨of_decide_eq_true hbelow, fun _ _ => rfl⟩
  · dsimp only at h
    split at h <;> cases h
    · exact ⟨of_decide_eq_true hbelow, fun _ _ => rfl⟩
    · rename_i hfar
      exact ⟨of_decide_eq_true habove, fun _ hnear => absurd (.inl hnear) hfar⟩

theorem shortestFrom_rank {rank : Nat} (h : rank ≤ infiniteRank) (grids : Nat) :
    (shortestFrom rank grids).rank = rank := by
  induction grids with
  | zero => exact exactDecimal_rank h
  | succ grids ih =>
      unfold shortestFrom
      split
      · rename_i d hd
        exact (gridPoint?_eq_some rfl hd).1
      · exact ih

/-- The decimal that a rank is written as is rounded to the rank. -/
theorem shortest_rank {rank : Nat} (h : rank ≤ infiniteRank) : (shortest rank).rank = rank :=
  shortestFrom_rank h _

/-! ## Zero -/

theorem units_zero : units 0 = 0 := by simp [units]

theorem Decimal.value_of_digits_eq_zero {d : Decimal} (h : d.digits = 0) : d.value = 0 := by
  rw [value, h, Nat.cast_zero, zero_mul]

theorem exactDecimal_zero_value : (exactDecimal 0).value = 0 := by
  apply Decimal.value_of_digits_eq_zero
  rw [exactDecimal, units_zero, Nat.zero_mul]

theorem Decimal.rank_of_value_eq_zero {d : Decimal} (h : d.value = 0) : d.rank = 0 := by
  rw [rank_congr (h.trans exactDecimal_zero_value.symm), exactDecimal_rank (Nat.zero_le _)]

theorem shortestFrom_zero_value (grids : Nat) : (shortestFrom 0 grids).value = 0 := by
  induction grids with
  | zero => exact exactDecimal_zero_value
  | succ grids ih =>
      unfold shortestFrom
      split
      · rename_i d hd
        -- zero is on every grid, where it is its own floor
        have hfloor : (⟨0, (grids + 1 - unitBits : ℤ)⟩ : Decimal).value = 0 :=
          Decimal.value_of_digits_eq_zero rfl
        have hgrid : gridFloor 0 (grids + 1 - unitBits : ℤ)
            = (0, 0, 2 ^ unitBits * 10 ^ (grids + 1 - unitBits : ℤ).toNat) := by
          simp only [gridFloor, units_zero, Nat.zero_mul, Nat.zero_div, Nat.zero_mod, Nat.mul_zero,
            Nat.pow_eq]
        have htaken := (gridPoint?_eq_some hgrid hd).2
          (Decimal.rank_of_value_eq_zero hfloor) (by positivity)
        rw [htaken, hfloor]
      · exact ih

theorem shortest_zero_value : (shortest 0).value = 0 := shortestFrom_zero_value _

end TagScript.Binary64
