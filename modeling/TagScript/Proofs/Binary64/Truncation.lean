import Mathlib
import TagScript.Proofs.Integer.Arithmetic
import TagScript.Value.Cast

set_option autoImplicit false

/-! # Truncation

A real number that is cast to an integer loses its fraction, so that it moves toward zero, and is
kept within 64 bits. What number a word stands for is said by the fields of the interchange format
(`wordValue?`): a sign, eleven bits of exponent and 52 bits of fraction. -/

namespace TagScript

/-- The rational numbers and both infinities. -/
abbrev ExtendedRat : Type := WithBot (WithTop ℚ)

namespace Binary64

/-! ## Words -/

/-- A rational number with a sign. -/
def withSign (negative : Bool) (q : ℚ) : ℚ := if negative then -q else q

/-- The magnitude of an exponent field and a fraction field. -/
def fieldsMagnitude (exponent fraction : ℕ) : ℚ :=
  if exponent = 0 then fraction / 2 ^ 52 * 2 ^ (-1022 : ℤ)
  else (1 + fraction / 2 ^ 52) * 2 ^ (exponent - 1023 : ℤ)

/-- The value of a word in the interchange format, none if it is a word of NaN. -/
def wordValue? (word : ℕ) : Option ExtendedRat :=
  let negative := word.testBit 63
  let exponent := word / 2 ^ 52 % 2 ^ 11
  let fraction := word % 2 ^ 52
  if exponent = 2047 then
    if fraction = 0 then some (if negative then ⊥ else ⊤) else none
  else some ((withSign negative (fieldsMagnitude exponent fraction) : ℚ) : ExtendedRat)

theorem units_eq (rank : ℕ) :
    units rank = (rank - binade rank * 2 ^ 52) * 2 ^ binade rank := rfl

theorem two_pow_unitBits : (2 : ℚ) ^ unitBits = 2 ^ 52 * 2 ^ 1022 := pow_add 2 52 1022

/-- The magnitude of a rank is that of the fields of its word. -/
theorem units_div (rank : ℕ) :
    (units rank : ℚ) / 2 ^ unitBits = fieldsMagnitude (rank / 2 ^ 52) (rank % 2 ^ 52) := by
  have hbinade : binade rank = rank / 2 ^ 52 - 1 := rfl
  have hrank : rank = rank / 2 ^ 52 * 2 ^ 52 + rank % 2 ^ 52 := (Nat.div_add_mod' rank _).symm
  rw [units_eq, hbinade, two_pow_unitBits, fieldsMagnitude]
  generalize rank % 2 ^ 52 = fraction at *
  rcases hexponent : rank / 2 ^ 52 with _ | exponent
  · rw [hexponent] at hrank
    rw [if_pos rfl, zpow_neg, hrank]
    simp only [Nat.zero_mul, Nat.zero_add, Nat.zero_sub, Nat.sub_zero, pow_zero, Nat.mul_one]
    rw [div_mul_eq_div_div, div_eq_mul_inv _ ((2 : ℚ) ^ 1022)]
    rfl
  · rw [hexponent, Nat.succ_mul, Nat.add_assoc] at hrank
    have hsignificand : rank - (exponent + 1 - 1) * 2 ^ 52 = 2 ^ 52 + fraction := by omega
    have hscale : ((exponent + 1 : ℕ) - 1023 : ℤ) = exponent - (1022 : ℕ) := by push_cast; ring
    rw [if_neg (Nat.succ_ne_zero _), hsignificand, hscale, zpow_sub₀ two_ne_zero, zpow_natCast,
      zpow_natCast, Nat.cast_mul, Nat.cast_add, Nat.cast_pow, Nat.cast_pow, Nat.cast_ofNat,
      Nat.add_sub_cancel]
    field_simp

/-- A word is one of NaN, of an infinity, or of a finite number, which is what its units say. -/
theorem ofBits_cases (word : ℕ) :
    (ofBits word = .nan ∧ wordValue? word = none) ∨
    (∃ negative, ofBits word = infinity negative ∧
      wordValue? word = some (if negative then ⊥ else ⊤)) ∨
    ∃ negative rank, ofBits word = .signed negative rank ∧ rank.val ≠ infiniteRank ∧
      wordValue? word
        = some ((withSign negative (units rank / 2 ^ unitBits) : ℚ) : ExtendedRat) := by
  have hinfinite : infiniteRank = 2047 * 2 ^ 52 := rfl
  have hexponent : word / 2 ^ 52 % 2 ^ 11 = word % 2 ^ 63 / 2 ^ 52 := by omega
  have hfraction : word % 2 ^ 52 = word % 2 ^ 63 % 2 ^ 52 := by omega
  have hsign : decide (2 ^ 63 ≤ word % 2 ^ 64) = word.testBit 63 := by
    rw [Nat.testBit_eq_decide_div_mod_eq, decide_eq_decide]
    omega
  have hlt : word % 2 ^ 63 < 2 ^ 63 := Nat.mod_lt _ (by decide)
  simp only [ofBits, wordValue?, Nat.pow_eq, hexponent, hfraction, hsign]
  generalize word % 2 ^ 63 = rank at *
  by_cases hrank : rank ≤ infiniteRank
  · rw [dif_pos hrank]
    by_cases hinf : rank = infiniteRank
    · subst hinf
      exact .inr (.inl ⟨_, rfl, rfl⟩)
    · have hfinite : rank / 2 ^ 52 ≠ 2047 := by omega
      refine .inr (.inr ⟨_, _, rfl, hinf, ?_⟩)
      rw [if_neg hfinite, units_div]
  · have hnan : rank / 2 ^ 52 = 2047 ∧ rank % 2 ^ 52 ≠ 0 := by omega
    rw [dif_neg hrank, if_pos hnan.1, if_neg hnan.2]
    exact .inl ⟨rfl, rfl⟩

/-- Every number has a word. -/
theorem exists_word (x : Binary64) : ∃ word < 2 ^ 64, ofBits word = x := by
  cases x with
  | nan => exact ⟨0x7ff8000000000000, by decide, by decide⟩
  | signed negative rank =>
      have hinfinite : infiniteRank = 2047 * 2 ^ 52 := rfl
      have hrank : rank.val ≤ infiniteRank := Nat.le_of_lt_succ rank.isLt
      refine ⟨(if negative then 2 ^ 63 else 0) + rank, ?_, ?_⟩
      · split <;> omega
      · have hlow : ((if negative then 2 ^ 63 else 0) + rank.val) % 2 ^ 63 = rank.val := by
          split <;> omega
        have hsign : decide (2 ^ 63 ≤ ((if negative then 2 ^ 63 else 0) + rank.val) % 2 ^ 64)
            = negative := by
          cases negative
          · simp only [decide_eq_false_iff_not, Bool.false_eq_true, if_false]
            omega
          · simp only [decide_eq_true_eq, if_true]
            omega
        simp only [ofBits, Nat.pow_eq, hlow, hsign, dif_pos hrank]

/-! ## Integer parts -/

/-- The integer part of a rational number: the integer beside it in the direction of zero. -/
def towardZero (q : ℚ) : ℤ := if 0 ≤ q then ⌊q⌋ else ⌈q⌉

theorem towardZero_intCast (n : ℤ) : towardZero n = n := by
  rw [towardZero, Int.floor_intCast, Int.ceil_intCast, ite_self]

theorem towardZero_mono : Monotone towardZero := by
  intro p q h
  unfold towardZero
  split <;> split
  · exact Int.floor_mono h
  · rename_i hp hq
    exact absurd (hp.trans h) hq
  · rename_i hp hq
    exact (Int.ceil_le.2 (by simpa using (not_le.1 hp).le)).trans (Int.floor_nonneg.2 hq)
  · exact Int.ceil_mono h

theorem towardZero_neg (q : ℚ) : towardZero (-q) = -towardZero q := by
  unfold towardZero
  rcases lt_trichotomy q 0 with h | rfl | h
  · rw [if_pos (by linarith), if_neg (by linarith), Int.floor_neg]
  · simp
  · rw [if_neg (by linarith), if_pos h.le, Int.ceil_neg]

theorem towardZero_div (num den : ℕ) : towardZero (num / den) = (num / den : ℕ) := by
  rw [towardZero, if_pos (by positivity), Rat.floor_natCast_div_natCast, Int.natCast_div]

theorem towardZero_withSign (negative : Bool) (q : ℚ) :
    towardZero (withSign negative q)
      = if negative then -towardZero q else towardZero q := by
  cases negative
  · rfl
  · exact towardZero_neg q

section Finite

variable (negative : Bool) {rank : Fin (infiniteRank + 1)} (hrank : rank.val ≠ infiniteRank)
include hrank

theorem truncate_signed :
    (Binary64.signed negative rank).truncate
      = towardZero (withSign negative (units rank / 2 ^ unitBits)) := by
  have hwhole : towardZero ((units rank : ℚ) / 2 ^ unitBits) = (units rank / 2 ^ unitBits : ℕ) := by
    rw [← towardZero_div, Nat.cast_pow, Nat.cast_ofNat]
  rw [towardZero_withSign, hwhole]
  simp only [truncate, Nat.pow_eq, if_neg hrank]

omit hrank in
theorem signedUnits_div (rank : ℕ) : (signedUnits negative rank : ℚ) / 2 ^ unitBits
    = withSign negative (units rank / 2 ^ unitBits) := by
  cases negative
  · simp [signedUnits, withSign]
  · simp [signedUnits, withSign, neg_div]

omit hrank in
theorem cast_scaled (n : ℤ) : ((n * (2 ^ unitBits : ℕ) : ℤ) : ℚ) = n * 2 ^ unitBits := by
  rw [Int.cast_mul, Int.cast_natCast, Nat.cast_pow, Nat.cast_ofNat]

/-- Comparisons with integers are those of exact values. -/
theorem atLeast_signed (n : ℤ) : (Binary64.signed negative rank).atLeast n = true
    ↔ (n : ℚ) ≤ withSign negative (units rank / 2 ^ unitBits) := by
  rw [← signedUnits_div, le_div_iff₀ (by positivity), ← cast_scaled, Int.cast_le]
  simp only [atLeast, if_neg hrank, Nat.pow_eq, decide_eq_true_eq]

theorem atMost_signed (n : ℤ) : (Binary64.signed negative rank).atMost n = true
    ↔ withSign negative (units rank / 2 ^ unitBits) ≤ (n : ℚ) := by
  rw [← signedUnits_div, div_le_iff₀ (by positivity), ← cast_scaled, Int.cast_le]
  simp only [atMost, if_neg hrank, Nat.pow_eq, decide_eq_true_eq]

end Finite

/-! ## Saturation -/

/-- The integer part, or the integer of 64 bits that is nearest to it. -/
def saturate : ExtendedRat → ℤ
  | ⊥ => -2 ^ 63
  | (⊤ : WithTop ℚ) => 2 ^ 63 - 1
  | (q : ℚ) => max (-2 ^ 63) (min (towardZero q) (2 ^ 63 - 1))

theorem saturate_mono : Monotone saturate := by
  have hlow : ∀ n : ℤ, -2 ^ 63 ≤ max (-2 ^ 63) (min n (2 ^ 63 - 1)) := fun _ => le_max_left _ _
  have hhigh : ∀ n : ℤ, max (-2 ^ 63) (min n (2 ^ 63 - 1)) ≤ 2 ^ 63 - 1 := fun n =>
    max_le (by norm_num) (min_le_right _ _)
  intro value value' h
  match value, value' with
  | ⊥, ⊥ => exact le_rfl
  | ⊥, (⊤ : WithTop ℚ) => show (-2 ^ 63 : ℤ) ≤ 2 ^ 63 - 1; norm_num
  | ⊥, (q : ℚ) => exact hlow _
  | (⊤ : WithTop ℚ), ⊥ => cases WithBot.not_coe_le_bot _ h
  | (⊤ : WithTop ℚ), (⊤ : WithTop ℚ) => exact le_rfl
  | (⊤ : WithTop ℚ), (q : ℚ) => exact absurd h (by simp)
  | (p : ℚ), ⊥ => cases WithBot.not_coe_le_bot _ h
  | (p : ℚ), (⊤ : WithTop ℚ) => exact hhigh _
  | (p : ℚ), (q : ℚ) =>
      have hle : p ≤ q := WithTop.coe_le_coe.1 (WithBot.coe_le_coe.1 h)
      exact max_le_max le_rfl (min_le_min (towardZero_mono hle) le_rfl)

theorem saturate_intCast {n : ℤ} (h : n ∈ Value.int64) : saturate ((n : ℚ) : ExtendedRat) = n := by
  obtain ⟨hge, hlt⟩ : -2 ^ 63 ≤ n ∧ n < 2 ^ 63 := h
  show max (-2 ^ 63) (min (towardZero n) (2 ^ 63 - 1)) = n
  rw [towardZero_intCast]
  omega

end Binary64

namespace Value

open Binary64

/-! ## Casts -/

/-- A finite number is compared with both bounds before its fraction is dropped. -/
theorem truncateReal_signed (negative : Bool) {rank : Fin (infiniteRank + 1)}
    (hrank : rank.val ≠ infiniteRank) :
    truncateReal (.signed negative rank)
      = saturate ((withSign negative (units rank / 2 ^ unitBits) : ℚ) : ExtendedRat) := by
  show _ = max (-2 ^ 63) (min (towardZero _) (2 ^ 63 - 1))
  rw [truncateReal, if_neg nofun]
  simp only [atLeast_signed negative hrank, atMost_signed negative hrank,
    truncate_signed negative hrank]
  generalize withSign negative (units rank / 2 ^ unitBits) = q
  have hmin : (minInteger : ℤ) = -2 ^ 63 := rfl
  have hmax : (maxInteger : ℤ) = 2 ^ 63 - 1 := rfl
  by_cases hhigh : (maxInteger : ℚ) ≤ q
  · have hwhole := towardZero_mono hhigh
    rw [towardZero_intCast] at hwhole
    rw [if_pos hhigh]
    omega
  · rw [if_neg hhigh]
    by_cases hlow : q ≤ (minInteger : ℚ)
    · have hwhole := towardZero_mono hlow
      rw [towardZero_intCast] at hwhole
      rw [if_pos hlow]
      omega
    · have hle := towardZero_mono (not_le.1 hhigh).le
      have hge := towardZero_mono (not_le.1 hlow).le
      rw [towardZero_intCast] at hle hge
      rw [if_neg hlow]
      omega

/-- The cases of the cast are one: the exact value without its fraction, kept within 64 bits. -/
theorem truncateReal_ofBits {word : ℕ} {value : ExtendedRat} (h : wordValue? word = some value) :
    truncateReal (ofBits word) = saturate value := by
  rcases ofBits_cases word with
    ⟨-, hvalue⟩ | ⟨negative, hx, hvalue⟩ | ⟨negative, rank, hx, hrank, hvalue⟩
  all_goals
    rw [hvalue] at h
    cases h
  · rw [hx]
    cases negative <;> decide
  · rw [hx, truncateReal_signed negative hrank]

theorem saturate_mem (value : ExtendedRat) : saturate value ∈ int64 := by
  show -2 ^ 63 ≤ saturate value ∧ saturate value < 2 ^ 63
  match value with
  | ⊥ => decide
  | (⊤ : WithTop ℚ) => decide
  | (q : ℚ) =>
      show -2 ^ 63 ≤ max (-2 ^ 63) (min (towardZero q) (2 ^ 63 - 1)) ∧
        max (-2 ^ 63) (min (towardZero q) (2 ^ 63 - 1)) < 2 ^ 63
      omega

/-- A number is cast to the integer of 64 bits that is nearest to its integer part. -/
theorem castInteger_ofBits {word : ℕ} {value : ExtendedRat} (h : wordValue? word = some value)
    (op : String) : castInteger op (.real (ofBits word)) = .ok (.int (saturate value)) := by
  rw [castInteger, truncateReal_ofBits h, integer_eq_exactly, exactly_of_mem (saturate_mem value)]

theorem castInteger_of_nan {word : ℕ} (h : wordValue? word = none) (op : String) :
    castInteger op (.real (ofBits word)) = .ok (.int 0) := by
  rcases ofBits_cases word with ⟨hx, -⟩ | ⟨negative, -, hvalue⟩ | ⟨negative, rank, -, -, hvalue⟩
  · rw [hx]
    rfl
  all_goals
    rw [hvalue] at h
    cases h

/-- Every real number has a word, and is cast to an integer without a refusal: NaN to zero, and any
    other number to its exact value without the fraction, kept within 64 bits. So the cast is
    monotone, and an integer within 64 bits is kept. -/
theorem castInteger_real_saturates (op : String) :
    (∀ x : Binary64, ∃ word < 2 ^ 64, ofBits word = x) ∧
    (∀ word, wordValue? word = none → castInteger op (.real (ofBits word)) = .ok (.int 0)) ∧
    (∀ word value, wordValue? word = some value →
      castInteger op (.real (ofBits word)) = .ok (.int (saturate value))) ∧
    (∀ word word' value value' n n',
      wordValue? word = some value → wordValue? word' = some value' → value ≤ value' →
      castInteger op (.real (ofBits word)) = .ok (.int n) →
      castInteger op (.real (ofBits word')) = .ok (.int n') → n ≤ n') ∧
    ∀ word, ∀ n ∈ int64, wordValue? word = some ((n : ℚ) : ExtendedRat) →
      castInteger op (.real (ofBits word)) = .ok (.int n) := by
  refine ⟨exists_word, fun word h => castInteger_of_nan h op,
    fun word value h => castInteger_ofBits h op, ?_, fun word n hn h => ?_⟩
  · intro word word' value value' n n' hvalue hvalue' hle hcast hcast'
    rw [castInteger_ofBits hvalue] at hcast
    rw [castInteger_ofBits hvalue'] at hcast'
    cases hcast
    cases hcast'
    exact saturate_mono hle
  · rw [castInteger_ofBits h, saturate_intCast hn]

/-- The numbers on both sides of the upper bound, and NaN. -/
theorem castInteger_real_saturates_atBound :
    wordValue? 0x43dfffffffffffff = some (((2 ^ 63 - 1024 : ℤ) : ℚ) : ExtendedRat) ∧
    wordValue? 0x43e0000000000000 = some (((2 ^ 63 : ℤ) : ℚ) : ExtendedRat) ∧
    castInteger "integer" (.real (ofBits 0x43dfffffffffffff)) = .ok (.int (2 ^ 63 - 1024)) ∧
    castInteger "integer" (.real (ofBits 0x43e0000000000000)) = .ok (.int (2 ^ 63 - 1)) ∧
    (2 ^ 63 - 1024 : ℤ) ≤ 2 ^ 63 - 1 ∧
    castInteger "integer" (.real (ofBits 0x7ff8000000000000)) = .ok (.int 0) := by
  obtain ⟨-, hnan, hvalue, hmono, hkept⟩ := castInteger_real_saturates "integer"
  have hmagnitude : fieldsMagnitude 1085 (2 ^ 52 - 1) = (2 ^ 63 - 1024 : ℤ) ∧
      fieldsMagnitude 1086 0 = (2 ^ 63 : ℤ) := by
    norm_num [fieldsMagnitude]
  have hbelow : wordValue? 0x43dfffffffffffff
      = some (((2 ^ 63 - 1024 : ℤ) : ℚ) : ExtendedRat) :=
    congrArg (fun q : ℚ => some (q : ExtendedRat)) hmagnitude.1
  have habove : wordValue? 0x43e0000000000000 = some (((2 ^ 63 : ℤ) : ℚ) : ExtendedRat) :=
    congrArg (fun q : ℚ => some (q : ExtendedRat)) hmagnitude.2
  have hsaturated : saturate (((2 ^ 63 : ℤ) : ℚ) : ExtendedRat) = 2 ^ 63 - 1 := by
    show max (-2 ^ 63) (min (towardZero (2 ^ 63 : ℤ)) (2 ^ 63 - 1)) = 2 ^ 63 - 1
    rw [towardZero_intCast]
    rfl
  have hle : (((2 ^ 63 - 1024 : ℤ) : ℚ) : ExtendedRat) ≤ (((2 ^ 63 : ℤ) : ℚ) : ExtendedRat) :=
    WithBot.coe_le_coe.2 (WithTop.coe_le_coe.2 (by norm_num))
  have hkeptBelow := hkept _ _ (by decide) hbelow
  have hcast := hvalue _ _ habove
  rw [hsaturated] at hcast
  exact ⟨hbelow, habove, hkeptBelow, hcast, hmono _ _ _ _ _ _ hbelow habove hle hkeptBelow hcast,
    hnan _ rfl⟩

end Value

end TagScript
