import TagScript.Proofs.Binary64.Rounding
import TagScript.Proofs.Markup.Lexeme
import TagScript.Proofs.Text.Digits
import TagScript.Value.Cast

set_option autoImplicit false

/-! # The text of a real number is read back

A decimal is laid out as a whole part and, unless it is an integer, a fraction that does not end in
a zero (`Decimal.exists_positional`). Such a numeral is read as the decimal that it denotes
(`read_numeral`), and this is rounded to the number that the text was written for. -/

namespace TagScript

namespace Binary64

open Text (IsDigits digitsValue digitChars)

/-! ## Positional numerals -/

/-- A numeral without an exponent: a whole part, and after a point the fraction, which does not end
    in a zero; without a fraction there is no point. -/
structure IsPositional (whole fraction text : List Char) : Prop where
  layout : text = if fraction = [] then whole else whole ++ '.' :: fraction
  whole_ne : whole ≠ []
  whole_digits : IsDigits whole
  fraction_digits : IsDigits fraction
  last_ne : '0' ∉ fraction.getLast?

/-- The decimal that a positional numeral denotes. -/
def positionalDecimal (whole fraction : List Char) : Decimal :=
  ⟨digitsValue (whole ++ fraction), -(fraction.length : ℤ)⟩

theorem positionalDecimal_value (whole fraction : List Char) :
    (positionalDecimal whole fraction).value
      = (digitsValue (whole ++ fraction) : ℚ) / 10 ^ fraction.length := by
  rw [Decimal.value, positionalDecimal, zpow_neg, zpow_natCast, div_eq_mul_inv]

/-- A whole number is a positional numeral. -/
theorem isPositional_whole {digits : List Char} (hne : digits ≠ []) (hdigits : IsDigits digits) :
    IsPositional digits [] digits :=
  ⟨rfl, hne, hdigits, nofun, nofun⟩

/-- Digits with a point before the last `places` of them, the zeros at the end being left out. -/
def withPoint (digits : List Char) (places : Nat) : List Char :=
  let whole := digits.take (digits.length - places)
  let fraction := Text.dropTrailing (· == '0') (digits.drop (digits.length - places))
  if fraction.isEmpty then whole else whole ++ '.' :: fraction

theorem exists_withPoint {digits : List Char} (hdigits : IsDigits digits) {places : Nat}
    (h : places < digits.length) :
    ∃ whole fraction, IsPositional whole fraction (withPoint digits places) ∧
      (positionalDecimal whole fraction).value = (digitsValue digits : ℚ) / 10 ^ places := by
  unfold withPoint
  generalize hpoint : digits.length - places = point
  obtain ⟨zeros, hzeros, hlast⟩ := Text.exists_dropTrailing_zeros (digits.drop point)
  generalize Text.dropTrailing (· == '0') (digits.drop point) = fraction at hzeros hlast ⊢
  have hsplit : digits = digits.take point ++ fraction ++ List.replicate zeros '0' := by
    rw [List.append_assoc, ← hzeros, List.take_append_drop]
  have hplaces : places = fraction.length + zeros := by
    have hlength := congrArg List.length hzeros
    rw [List.length_drop, List.length_append, List.length_replicate] at hlength
    omega
  have hparts : IsDigits (digits.take point) ∧ IsDigits fraction := by
    rw [hsplit] at hdigits
    exact Text.isDigits_append.1 (Text.isDigits_append.1 hdigits).1
  refine ⟨digits.take point, fraction, ⟨?_, ?_, hparts.1, hparts.2, hlast⟩, ?_⟩
  · simp only [List.isEmpty_iff]
  · apply List.ne_nil_of_length_pos
    rw [List.length_take]
    omega
  · have hvalue : digitsValue digits
        = digitsValue (digits.take point ++ fraction) * 10 ^ zeros := by
      rw [← Text.digitsValue_append_zeros, ← hsplit]
    rw [positionalDecimal_value, hvalue, hplaces]
    push_cast
    rw [pow_add, mul_div_mul_right _ _ (by positivity)]

/-- Digits after so many zeros that there are more than `places` of them. -/
def padded (digits : List Char) (places : Nat) : List Char :=
  List.replicate (places + 1 - digits.length) '0' ++ digits

theorem isDigits_padded {digits : List Char} (h : IsDigits digits) (places : Nat) :
    IsDigits (padded digits places) :=
  Text.isDigits_append.2 ⟨Text.isDigits_zeros _, h⟩

theorem lt_length_padded (digits : List Char) (places : Nat) :
    places < (padded digits places).length := by
  rw [padded, List.length_append, List.length_replicate]
  omega

theorem digitsValue_padded (digits : List Char) (places : Nat) :
    digitsValue (padded digits places) = digitsValue digits :=
  Text.digitsValue_zeros_append _ _

/-- The layout of a decimal is a positional numeral that denotes the decimal. -/
theorem Decimal.exists_positional (d : Decimal) :
    ∃ whole fraction, IsPositional whole fraction d.positional ∧
      (positionalDecimal whole fraction).value = d.value := by
  rw [value_eq]
  unfold positional
  split
  · rename_i hexponent
    have hplaces : (-d.exponent).toNat = 0 := by omega
    rw [hplaces, pow_zero, Nat.cast_one, div_one]
    split
    · rename_i hzero
      refine ⟨['0'], [], isPositional_whole (by simp) (Text.isDigits_zeros 1), ?_⟩
      rw [hzero, Nat.zero_mul, Nat.cast_zero]
      exact value_of_digits_eq_zero rfl
    · refine ⟨_, [], isPositional_whole ?_ ?_, ?_⟩
      · exact List.append_ne_nil_of_left_ne_nil Nat.toDigits_ne_nil _
      · exact Text.isDigits_append.2 ⟨Text.isDigits_digitChars _, Text.isDigits_zeros _⟩
      · rw [positionalDecimal_value, List.append_nil, Text.digitsValue_append_zeros,
          Text.digitsValue_digitChars, List.length_nil, pow_zero, div_one]
  · rename_i hexponent
    have hnum : d.exponent.toNat = 0 := by omega
    obtain ⟨whole, fraction, hpositional, hvalue⟩ := exists_withPoint
      (isDigits_padded (Text.isDigits_digitChars d.digits) (-d.exponent).toNat)
      (lt_length_padded _ _)
    refine ⟨whole, fraction, hpositional, ?_⟩
    rw [hvalue, digitsValue_padded, Text.digitsValue_digitChars, hnum, Nat.pow_zero, Nat.mul_one,
      Nat.cast_pow, Nat.cast_ofNat]

/-! ## Reading -/

theorem readDecimal?_positional {whole fraction text : List Char}
    (h : IsPositional whole fraction text) :
    readDecimal? text
      = some (whole.length + fraction.length, positionalDecimal whole fraction) := by
  have hne := h.whole_ne
  rw [h.layout]
  unfold readDecimal?
  split
  · rename_i hfraction
    have hwhole := Markup.takeWhile_append_of_without h.whole_digits .nil
    rw [List.append_nil] at hwhole
    simp [hwhole, hne, hfraction, readExponent?, positionalDecimal]
  · have hwhole := Markup.takeWhile_append_of_without h.whole_digits
      (.cons (show '.'.isDigit = false from rfl) fraction)
    have hfraction := Markup.takeWhile_append_of_without h.fraction_digits .nil
    rw [List.append_nil] at hfraction
    simp [hwhole, hfraction, hne, readExponent?, positionalDecimal]

/-- The exponent of a positional numeral is in the range that can matter. -/
theorem clamp_positionalDecimal (whole fraction : List Char) :
    (positionalDecimal whole fraction).clamp (whole.length + fraction.length)
      = positionalDecimal whole fraction := by
  unfold Decimal.clamp positionalDecimal
  congr 1
  push_cast
  omega

/-- A digit is no capital letter and no form of the letter i. -/
theorem foldLetter_digit {c : Char} (h : c.isDigit = true) : foldLetter c = c := by
  have hle : c.val ≤ '9'.val := by simpa [Char.isDigit] using (Bool.and_eq_true_iff.1 h).2
  have hlower : c.toLower = c := by
    unfold Char.toLower
    rw [dif_neg]
    rintro ⟨hge, -⟩
    exact absurd (UInt32.le_trans hge hle) (by decide)
  rw [foldLetter, if_neg, hlower]
  rintro (rfl | rfl) <;> exact absurd h (by decide)

/-- A text that starts with a digit is no word. -/
theorem isWord_digit {c letter : Char} (hc : c.isDigit = true) (hletter : letter.isDigit = false)
    (word rest : List Char) : isWord (letter :: word) (c :: rest) = false := by
  rw [isWord, List.map_cons, foldLetter_digit hc]
  have hne : c ≠ letter := by
    rintro rfl
    rw [hc] at hletter
    cases hletter
  simp [hne]

theorem IsPositional.starts {whole fraction text : List Char}
    (h : IsPositional whole fraction text) : ∃ c rest, text = c :: rest ∧ c.isDigit = true := by
  obtain ⟨c, more, hwhole⟩ := List.exists_cons_of_ne_nil h.whole_ne
  have hc : c.isDigit = true := h.whole_digits c (by simp [hwhole])
  rw [h.layout, hwhole]
  split
  · exact ⟨c, more, rfl, hc⟩
  · exact ⟨c, _, rfl, hc⟩

/-- A positional numeral with a sign is read as the number that its decimal is rounded to. -/
theorem read_positional {whole fraction text : List Char} (h : IsPositional whole fraction text)
    (negative : Bool) :
    read (if negative then '-' :: text else text)
      = .number (.signed negative
        (Fin.ofNat (infiniteRank + 1) (positionalDecimal whole fraction).rank)) := by
  obtain ⟨c, rest, rfl, hc⟩ := h.starts
  have hsign : Text.splitSign (if negative then '-' :: c :: rest else c :: rest)
      = (negative, c :: rest) := by
    cases negative with
    | true => rfl
    | false => exact Text.splitSign_digit hc rest
  have hword : ∀ {letter : Char} (word : List Char), letter.isDigit = false →
      isWord (letter :: word) (c :: rest) = false := fun word hletter =>
    isWord_digit hc hletter word rest
  unfold read
  simp only [hsign, hword _ (show 'i'.isDigit = false from rfl),
    hword _ (show 'n'.isDigit = false from rfl), Bool.or_false, Bool.false_eq_true, if_false,
    readDecimal?_positional h, clamp_positionalDecimal]

/-- The layout of a decimal with a sign is read as the number that the decimal is rounded to. -/
theorem read_decimal (d : Decimal) (negative : Bool) :
    read (if negative then '-' :: d.positional else d.positional)
      = .number (.signed negative ⟨d.rank, Nat.lt_succ_of_le d.rank_le⟩) := by
  obtain ⟨whole, fraction, hpositional, hvalue⟩ := d.exists_positional
  rw [read_positional hpositional]
  congr 2
  refine Fin.ext ?_
  rw [Fin.val_ofNat, Decimal.rank_congr hvalue]
  exact Nat.mod_eq_of_lt (Nat.lt_succ_of_le d.rank_le)

/-! ## Numbers -/

/-- The decimal that the text of a finite number is the layout of. -/
def written (rank : Nat) : Decimal := if rank = 0 then ⟨0, 0⟩ else shortest rank

theorem written_value (rank : Nat) : (written rank).value = (shortest rank).value := by
  unfold written
  split
  · rename_i hzero
    rw [hzero, shortest_zero_value]
    exact Decimal.value_of_digits_eq_zero rfl
  · rfl

theorem written_rank {rank : Nat} (h : rank ≤ infiniteRank) : (written rank).rank = rank := by
  rw [Decimal.rank_congr (written_value rank), shortest_rank h]

theorem format_eq (negative : Bool) {rank : Fin (infiniteRank + 1)}
    (h : rank.val ≠ infiniteRank) : format (.signed negative rank)
      = if negative then '-' :: (written rank).positional else (written rank).positional := by
  unfold format written
  by_cases hzero : rank.val = 0
  · simp only [if_neg h, if_pos hzero]
    rfl
  · simp only [if_neg h, if_neg hzero]

theorem read_format_infinite (negative : Bool) :
    read (format (infinity negative)) = .number (infinity negative) := by
  cases negative <;> rfl

/-- The text of a number is read as the number. -/
theorem read_format {x : Binary64} (h : x ≠ .nan) : read x.format = .number x := by
  cases x with
  | nan => exact absurd rfl h
  | signed negative rank =>
      by_cases hinfinite : rank.val = infiniteRank
      · have hrank : rank = ⟨infiniteRank, Nat.lt_succ_self _⟩ := Fin.ext hinfinite
        rw [hrank]
        exact read_format_infinite negative
      · rw [format_eq negative hinfinite, read_decimal]
        congr 2
        exact Fin.ext (written_rank (Nat.le_of_lt_succ rank.isLt))

/-- A word that is not that of a NaN is the word of its number. -/
theorem toBits_ofBits {word : Nat} (hword : word < 2 ^ 64) (h : ofBits word ≠ .nan) :
    (ofBits word).toBits = word := by
  unfold ofBits at h ⊢
  simp only [Nat.pow_eq] at h ⊢
  split
  · simp only [toBits, Nat.pow_eq, decide_eq_true_eq]
    split <;> omega
  · rename_i hnan
    rw [dif_neg hnan] at h
    exact absurd rfl h

/-- The text of a number other than NaN is accepted as a real number and read as that number, to the
    last bit. The text of a finite number is a minus sign if it is negative, digits, and after a
    point, if there is one, digits of which the last is not zero. It denotes the same number as the
    decimal of the magnitude, which is rounded to the magnitude. -/
theorem format_round_trip (op : String) :
    (∀ x : Binary64, x ≠ .nan →
      Value.parseReal op (String.ofList x.format) = .ok (.real x)) ∧
    (∀ word < 2 ^ 64, ofBits word ≠ .nan → (ofBits word).toBits = word) ∧
    (∀ (negative : Bool) (rank : Fin (infiniteRank + 1)), rank.val ≠ infiniteRank →
      (shortest rank).rank = rank ∧
      ∃ whole fraction text, IsPositional whole fraction text ∧
        format (.signed negative rank) = (if negative then '-' :: text else text) ∧
        (digitsValue (whole ++ fraction) : ℚ) / 10 ^ fraction.length = (shortest rank).value) := by
  refine ⟨fun x hx => ?_, fun word hword hnan => toBits_ofBits hword hnan,
    fun negative rank hfinite => ⟨shortest_rank (Nat.le_of_lt_succ rank.isLt), ?_⟩⟩
  · rw [Value.parseReal, String.toList_ofList, read_format hx]
  · obtain ⟨whole, fraction, hpositional, hvalue⟩ := (written rank).exists_positional
    rw [positionalDecimal_value, written_value] at hvalue
    exact ⟨whole, fraction, _, hpositional, format_eq negative hfinite, hvalue⟩

/-- Minus two and a half. -/
theorem format_round_trip_half :
    (ofBits 0xc004000000000000).format = ['-', '2', '.', '5'] ∧
    Value.parseReal "float" "-2.5" = .ok (.real (ofBits 0xc004000000000000)) ∧
    (ofBits 0xc004000000000000).toBits = 0xc004000000000000 ∧
    (shortest 0x4004000000000000).rank = 0x4004000000000000 := by
  have hformat : (ofBits 0xc004000000000000).format = ['-', '2', '.', '5'] := by decide +kernel
  have hnan : ofBits 0xc004000000000000 ≠ .nan := by decide
  obtain ⟨hread, hbits, htext⟩ := format_round_trip "float"
  refine ⟨hformat, ?_, hbits _ (by decide) hnan, ?_⟩
  · rw [← hread _ hnan, hformat]
  · exact (htext true ⟨0x4004000000000000, by decide⟩ (by decide)).1

end Binary64

end TagScript
