import TagScript.Proofs.Integer.Arithmetic
import TagScript.Proofs.Text.Digits
import TagScript.Value.Cast

set_option autoImplicit false

/-! # Integer numerals

An integer numeral is read as the integer that it denotes (`readInteger?_eq_some_iff`), whatever
that is; the bounds of 64 bits are a matter of their own, and so is the number of its digits, beyond
which no numeral is read at all. The integer is written as the one numeral of it that is canonical
(`integerChars_eq_iff`). -/

namespace TagScript

namespace Text

/-- The text is a numeral of the integer: at least one digit, after a sign or without one. -/
inductive Denotes : List Char → ℤ → Prop where
  | unsigned {digits : List Char} : digits ≠ [] → IsDigits digits →
      Denotes digits (placeValue digits)
  | plus {digits : List Char} : digits ≠ [] → IsDigits digits →
      Denotes ('+' :: digits) (placeValue digits)
  | minus {digits : List Char} : digits ≠ [] → IsDigits digits →
      Denotes ('-' :: digits) (-placeValue digits)

/-- The numeral has no plus sign and no superfluous zero in front, and is not that of minus zero. -/
structure IsCanonical (s : List Char) : Prop where
  no_plus : ∀ rest, s ≠ '+' :: rest
  no_zero : ∀ rest, s = '0' :: rest ∨ s = '-' :: '0' :: rest → rest = []
  not_minus_zero : s ≠ ['-', '0']

/-! ## Reading -/

/-- What a text consists of when its sign is split off. -/
theorem splitSign_cases (s : List Char) :
    (∃ digits, s = '-' :: digits ∧ splitSign s = (true, digits)) ∨
    (∃ digits, s = '+' :: digits ∧ splitSign s = (false, digits)) ∨ splitSign s = (false, s) := by
  unfold splitSign
  split
  · exact .inl ⟨_, rfl, rfl⟩
  · exact .inr (.inl ⟨_, rfl, rfl⟩)
  · exact .inr (.inr rfl)

theorem readInteger?_of_splitSign {s digits : List Char} {negative : Bool}
    (h : splitSign s = (negative, digits)) (n : ℤ) :
    readInteger? s = some n
      ↔ (digits ≠ [] ∧ IsDigits digits) ∧ withSign negative (placeValue digits) = n := by
  have hall : digits.all Char.isDigit = true ↔ IsDigits digits := List.all_eq_true
  rw [readInteger?, h]
  simp only [hall, digitsValue_eq_placeValue, Option.ite_none_right_eq_some, Option.some.injEq]

/-- Numerals, and no other texts, are read, each as the integer that it denotes. -/
theorem readInteger?_eq_some_iff {s : List Char} {n : ℤ} :
    readInteger? s = some n ↔ Denotes s n := by
  constructor
  · intro h
    rcases splitSign_cases s with ⟨digits, rfl, hsplit⟩ | ⟨digits, rfl, hsplit⟩ | hsplit
    · obtain ⟨⟨hne, hdigits⟩, rfl⟩ := (readInteger?_of_splitSign hsplit n).1 h
      exact .minus hne hdigits
    · obtain ⟨⟨hne, hdigits⟩, rfl⟩ := (readInteger?_of_splitSign hsplit n).1 h
      exact .plus hne hdigits
    · obtain ⟨⟨hne, hdigits⟩, rfl⟩ := (readInteger?_of_splitSign hsplit n).1 h
      exact .unsigned hne hdigits
  · intro h
    cases h with
    | unsigned hne hdigits =>
        obtain ⟨c, rest, rfl⟩ := List.exists_cons_of_ne_nil hne
        have hsplit := splitSign_digit (hdigits c List.mem_cons_self) rest
        exact (readInteger?_of_splitSign hsplit _).2 ⟨⟨hne, hdigits⟩, rfl⟩
    | plus hne hdigits => exact (readInteger?_of_splitSign rfl _).2 ⟨⟨hne, hdigits⟩, rfl⟩
    | minus hne hdigits => exact (readInteger?_of_splitSign rfl _).2 ⟨⟨hne, hdigits⟩, rfl⟩

/-- What follows the sign of a numeral are its digits. -/
theorem Denotes.digitCount_eq {s : List Char} {n : ℤ} (h : Denotes s n) :
    digitCount s = s.countP Char.isDigit := by
  have hcount (digits : List Char) (hdigits : IsDigits digits) :
      digits.countP Char.isDigit = digits.length := List.countP_eq_length.2 hdigits
  cases h with
  | unsigned hne hdigits =>
      obtain ⟨c, rest, rfl⟩ := List.exists_cons_of_ne_nil hne
      rw [digitCount, splitSign_digit (hdigits c List.mem_cons_self) rest, hcount _ hdigits]
  | plus hne hdigits => exact (hcount _ hdigits).symm
  | minus hne hdigits => exact (hcount _ hdigits).symm

/-- A one with any number of zeros in front denotes one. -/
theorem denotes_zeros_one (k : ℕ) : Denotes (List.replicate k '0' ++ ['1']) 1 := by
  have hone : IsDigits ['1'] := List.all_eq_true.1 rfl
  have hvalue : placeValue (List.replicate k '0' ++ ['1']) = 1 := by
    rw [← digitsValue_eq_placeValue, digitsValue_zeros_append]
    rfl
  have hdenotes : Denotes (List.replicate k '0' ++ ['1'])
      (placeValue (List.replicate k '0' ++ ['1'])) :=
    .unsigned (List.append_ne_nil_of_right_ne_nil _ nofun)
      (isDigits_append.2 ⟨isDigits_zeros k, hone⟩)
  rwa [hvalue] at hdenotes

/-! ## Writing -/

theorem integerChars_natCast (n : ℕ) : integerChars n = digitChars n := by
  rw [integerChars, if_neg (by omega), Int.natAbs_natCast]

theorem integerChars_neg {n : ℕ} (h : 0 < n) : integerChars (-n) = '-' :: digitChars n := by
  rw [integerChars, if_pos (by omega), Int.natAbs_neg, Int.natAbs_natCast]

/-- The numeral that an integer is written as denotes it. -/
theorem denotes_integerChars (n : ℤ) : Denotes (integerChars n) n := by
  have hwritten (k : ℕ) : digitChars k ≠ [] ∧ IsDigits (digitChars k) :=
    ⟨digitChars_ne_nil k, isDigits_digitChars k⟩
  obtain ⟨k, rfl | rfl⟩ := n.eq_nat_or_neg
  · have hdenotes := Denotes.unsigned (hwritten k).1 (hwritten k).2
    rwa [placeValue_digitChars, ← integerChars_natCast] at hdenotes
  · rcases Nat.eq_zero_or_pos k with rfl | hk
    · exact .unsigned (digitChars_ne_nil 0) (isDigits_digitChars 0)
    · have hdenotes := Denotes.minus (hwritten k).1 (hwritten k).2
      rwa [placeValue_digitChars, ← integerChars_neg hk] at hdenotes

/-- A numeral is what its integer is written as if and only if it is canonical. -/
theorem integerChars_eq_iff {s : List Char} {n : ℤ} (h : Denotes s n) :
    integerChars n = s ↔ IsCanonical s := by
  cases h with
  | unsigned hne hdigits =>
      rw [integerChars_natCast, digitChars_placeValue hne hdigits]
      constructor
      · intro hzero
        refine ⟨hdigits.ne_cons rfl, fun rest hs => ?_, hdigits.ne_cons rfl _⟩
        exact hzero rest (hs.resolve_right (hdigits.ne_cons rfl _))
      · exact fun hcanonical rest hs => hcanonical.no_zero rest (.inl hs)
  | @plus digits hne hdigits =>
      refine iff_of_false (fun heq => ?_) fun hcanonical => hcanonical.no_plus digits rfl
      rw [integerChars_natCast] at heq
      exact (isDigits_digitChars _).ne_cons rfl digits heq
  | @minus digits hne hdigits =>
      rcases Nat.eq_zero_or_pos (placeValue digits) with hvalue | hpos
      · obtain ⟨rest, rfl⟩ := exists_zero_cons hne hdigits hvalue
        refine iff_of_false (fun heq => ?_) fun hcanonical => ?_
        · rw [hvalue] at heq
          cases heq
        · obtain rfl := hcanonical.no_zero rest (.inr rfl)
          exact hcanonical.not_minus_zero rfl
      · rw [integerChars_neg hpos, List.cons_inj_right, digitChars_placeValue hne hdigits]
        constructor
        · intro hzero
          refine ⟨nofun, ?_, ?_⟩
          · rintro rest (hs | hs)
            · cases hs
            · exact hzero rest (List.cons.inj hs).2
          · intro hs
            obtain ⟨-, rfl⟩ := List.cons.inj hs
            exact Nat.ne_of_gt hpos rfl
        · rintro hcanonical rest rfl
          exact hcanonical.no_zero rest (.inr rfl)

end Text

namespace Value

/-! ## Literals -/

/-- A numeral is read if it has no more digits than the limit allows. -/
theorem parseInteger_of_denotes {s : String} {n : ℤ} (h : Text.Denotes s.toList n) (op : String)
    (hcount : s.toList.countP Char.isDigit ≤ Text.digitLimit) :
    parseInteger op s = exactly op n := by
  rw [parseInteger, Text.readInteger?_eq_some_iff.2 h, h.digitCount_eq]
  exact (if_neg (Nat.not_lt.2 hcount)).trans (integer_eq_exactly op n)

/-- With more digits it is not even refused, whatever its integer. -/
theorem parseInteger_tooManyDigits {s : String} {n : ℤ} (h : Text.Denotes s.toList n) (op : String)
    (hcount : Text.digitLimit < s.toList.countP Char.isDigit) :
    parseInteger op s = .error (.crash (.tooManyDigits (s.toList.countP Char.isDigit))) := by
  rw [parseInteger, Text.readInteger?_eq_some_iff.2 h, h.digitCount_eq]
  exact if_pos hcount

theorem parseInteger_of_not_denotes {s : String} (h : ∀ n, ¬ Text.Denotes s.toList n)
    (op : String) : parseInteger op s = .error (.refused op (.notAnInteger s)) := by
  have hnone : Text.readInteger? s.toList = none :=
    Option.eq_none_iff_forall_ne_some.2 fun n hn => h n (Text.readInteger?_eq_some_iff.1 hn)
  rw [parseInteger, hnone]

/-- What a text is read as: an integer that it denotes and that fits, or one of two refusals, or a
    crash. -/
theorem parseInteger_cases (op s : String) :
    (∃ n ∈ int64, Text.Denotes s.toList n ∧ s.toList.countP Char.isDigit ≤ Text.digitLimit ∧
      parseInteger op s = .ok (.int n)) ∨
    (∃ n ∉ int64, Text.Denotes s.toList n ∧ s.toList.countP Char.isDigit ≤ Text.digitLimit ∧
      parseInteger op s = .error (.refused op .overflow)) ∨
    ((∀ n, ¬ Text.Denotes s.toList n) ∧
      parseInteger op s = .error (.refused op (.notAnInteger s))) ∨
    ∃ n, Text.Denotes s.toList n ∧ Text.digitLimit < s.toList.countP Char.isDigit ∧
      parseInteger op s = .error (.crash (.tooManyDigits (s.toList.countP Char.isDigit))) := by
  by_cases hdenotes : ∃ n, Text.Denotes s.toList n
  · obtain ⟨n, hn⟩ := hdenotes
    by_cases hcount : s.toList.countP Char.isDigit ≤ Text.digitLimit
    · have hparse := parseInteger_of_denotes hn op hcount
      by_cases hfits : n ∈ int64
      · exact .inl ⟨n, hfits, hn, hcount, hparse.trans (exactly_of_mem hfits op)⟩
      · exact .inr (.inl ⟨n, hfits, hn, hcount, hparse.trans (exactly_of_not_mem hfits op)⟩)
    · have hmany := Nat.not_le.1 hcount
      exact .inr (.inr (.inr ⟨n, hn, hmany, parseInteger_tooManyDigits hn op hmany⟩))
  · have hnone := not_exists.1 hdenotes
    exact .inr (.inr (.inl ⟨hnone, parseInteger_of_not_denotes hnone op⟩))

theorem parseInteger_eq_ok_iff {op s : String} {v : Value} :
    parseInteger op s = .ok v ↔
      ∃ n ∈ int64, v = .int n ∧ Text.Denotes s.toList n ∧
        s.toList.countP Char.isDigit ≤ Text.digitLimit := by
  constructor
  · intro h
    rcases parseInteger_cases op s with
      ⟨n, hfits, hn, hcount, hparse⟩ | ⟨n, -, -, -, hparse⟩ | ⟨-, hparse⟩ | ⟨n, -, -, hparse⟩
    · rw [hparse] at h
      cases h
      exact ⟨n, hfits, rfl, hn, hcount⟩
    all_goals
      rw [hparse] at h
      cases h
  · rintro ⟨n, hfits, rfl, hn, hcount⟩
    exact (parseInteger_of_denotes hn op hcount).trans (exactly_of_mem hfits op)

theorem parseInteger_eq_error_iff {op s : String} {halt : Halt} :
    parseInteger op s = .error halt ↔
      (halt = .refused op (.notAnInteger s) ∧ ∀ n, ¬ Text.Denotes s.toList n) ∨
      (halt = .refused op .overflow ∧ ∃ n ∉ int64, Text.Denotes s.toList n ∧
        s.toList.countP Char.isDigit ≤ Text.digitLimit) ∨
      (halt = .crash (.tooManyDigits (s.toList.countP Char.isDigit)) ∧
        (∃ n, Text.Denotes s.toList n) ∧ Text.digitLimit < s.toList.countP Char.isDigit) := by
  constructor
  · intro h
    rcases parseInteger_cases op s with
      ⟨n, -, -, -, hparse⟩ | ⟨n, hfits, hn, hcount, hparse⟩ | ⟨hnone, hparse⟩ |
        ⟨n, hn, hmany, hparse⟩
    all_goals
      rw [hparse] at h
      cases h
    · exact .inr (.inl ⟨rfl, n, hfits, hn, hcount⟩)
    · exact .inl ⟨rfl, hnone⟩
    · exact .inr (.inr ⟨rfl, ⟨n, hn⟩, hmany⟩)
  · rintro (⟨rfl, hnone⟩ | ⟨rfl, n, hfits, hn, hcount⟩ | ⟨rfl, ⟨n, hn⟩, hmany⟩)
    · exact parseInteger_of_not_denotes hnone op
    · exact (parseInteger_of_denotes hn op hcount).trans (exactly_of_not_mem hfits op)
    · exact parseInteger_tooManyDigits hn op hmany

/-! ## Casts -/

theorem castText_int (op : String) (n : ℤ) : castText op (.int n) = .ok (.text (integerText n)) :=
  rfl

/-- An integer of 64 bits is written with 19 digits at most. -/
theorem countP_integerChars_le {n : ℤ} (h : n ∈ int64) :
    (Text.integerChars n).countP Char.isDigit ≤ Text.digitLimit := by
  obtain ⟨hmin, hmax⟩ := h
  have hwritten (k : ℕ) (hk : k < 10 ^ 19) :
      (Text.digitChars k).countP Char.isDigit ≤ Text.digitLimit :=
    calc (Text.digitChars k).countP Char.isDigit
        ≤ (Text.digitChars k).length := List.countP_le_length
      _ ≤ 19 := (Nat.length_toDigits_le_iff (by decide) (by decide)).2 hk
      _ ≤ Text.digitLimit := by decide
  have hk : n.natAbs < 10 ^ 19 := by omega
  unfold Text.integerChars
  split
  · rw [List.countP_cons_of_neg (by decide)]
    exact hwritten _ hk
  · exact hwritten _ hk

/-- An integer is read back from the text that it is written as. -/
theorem castInteger_integerText {n : ℤ} (h : n ∈ int64) (op : String) :
    castInteger op (.text (integerText n)) = .ok (.int n) := by
  refine parseInteger_eq_ok_iff.2 ⟨n, h, rfl, ?_⟩
  rw [integerText, String.toList_ofList]
  exact ⟨Text.denotes_integerChars n, countP_integerChars_le h⟩

/-- A text is what its integer is written as if and only if it is canonical. -/
theorem castText_eq_text_iff {s : String} {n : ℤ} (h : Text.Denotes s.toList n) (op : String) :
    castText op (.int n) = .ok (.text s) ↔ Text.IsCanonical s.toList := by
  rw [← Text.integerChars_eq_iff h, castText_int, Except.ok.injEq, Value.text.injEq, integerText,
    ← String.toList_inj, String.toList_ofList]

/-! ## Main result -/

/-- A text is read as an integer if and only if it is a numeral of one that fits in 64 bits, of no
    more digits than are ever read. It is refused for its shape if it is no numeral, and for
    overflow if its integer does not fit; and it crashes if it is a numeral of more digits, also
    where these are zeros in front of an integer that fits. An integer is read back from its text,
    and a text that is read is written back unchanged if and only if it is canonical. -/
theorem integer_literals_exact (op op' : String) :
    (∀ s v, parseInteger op s = .ok v ↔
      ∃ n ∈ int64, v = .int n ∧ Text.Denotes s.toList n ∧
        s.toList.countP Char.isDigit ≤ Text.digitLimit) ∧
    (∀ s halt, parseInteger op s = .error halt ↔
      (halt = .refused op (.notAnInteger s) ∧ ∀ n, ¬ Text.Denotes s.toList n) ∨
      (halt = .refused op .overflow ∧ ∃ n ∉ int64, Text.Denotes s.toList n ∧
        s.toList.countP Char.isDigit ≤ Text.digitLimit) ∨
      (halt = .crash (.tooManyDigits (s.toList.countP Char.isDigit)) ∧
        (∃ n, Text.Denotes s.toList n) ∧ Text.digitLimit < s.toList.countP Char.isDigit)) ∧
    (∀ n ∈ int64, (castText op' (.int n) >>= castInteger op) = .ok (.int n)) ∧
    ∀ s v, castInteger op (.text s) = .ok v →
      (castText op' v = .ok (.text s) ↔ Text.IsCanonical s.toList) := by
  refine ⟨fun s v => parseInteger_eq_ok_iff, fun s halt => parseInteger_eq_error_iff,
    fun n hfits => ?_, fun s v h => ?_⟩
  · rw [castText_int]
    exact castInteger_integerText hfits op
  · obtain ⟨n, -, rfl, hdenotes, -⟩ := parseInteger_eq_ok_iff.1 h
    exact castText_eq_text_iff hdenotes op'

/-- The least integer, a numeral with zeros in front, and one that is just beyond the range. -/
theorem integer_literals_exact_atBounds :
    -2 ^ 63 ∈ int64 ∧
    (castText "string" (.int (-2 ^ 63)) >>= castInteger "integer") = .ok (.int (-2 ^ 63)) ∧
    castInteger "integer" (.text "-0042") = .ok (.int (-42)) ∧
    castText "string" (.int (-42)) ≠ .ok (.text "-0042") ∧
    parseInteger "integer" "9223372036854775808" = .error (.refused "integer" .overflow) := by
  obtain ⟨hread, hrefused, hback, hcanonical⟩ := integer_literals_exact "integer" "string"
  have hleast : -2 ^ 63 ∈ int64 := by decide
  have hdigits : ∀ digits : List Char, digits.all Char.isDigit = true → Text.IsDigits digits :=
    fun _ => List.all_eq_true.1
  have hzeros : castInteger "integer" (.text "-0042") = .ok (.int (-42)) :=
    (hread "-0042" _).2 ⟨-42, by decide, rfl,
      @Text.Denotes.minus ['0', '0', '4', '2'] (by decide) (hdigits _ (by decide)), by decide⟩
  refine ⟨hleast, hback _ hleast, hzeros, fun heq => ?_, ?_⟩
  · exact absurd (((hcanonical _ _ hzeros).1 heq).no_zero ['0', '4', '2'] (.inr rfl)) (by decide)
  · refine (hrefused _ _).2 (.inr (.inl ⟨rfl, 2 ^ 63, by decide, ?_, by decide⟩))
    exact @Text.Denotes.unsigned "9223372036854775808".toList (by decide) (hdigits _ (by decide))

/-- A one that has too many zeros in front crashes. -/
theorem parseInteger_zeros (op : String) {k : ℕ} (h : Text.digitLimit ≤ k) :
    parseInteger op (String.ofList (List.replicate k '0' ++ ['1']))
      = .error (.crash (.tooManyDigits (k + 1))) := by
  have hdenotes : Text.Denotes (String.ofList (List.replicate k '0' ++ ['1'])).toList 1 := by
    rw [String.toList_ofList]
    exact Text.denotes_zeros_one k
  have hcount : (String.ofList (List.replicate k '0' ++ ['1'])).toList.countP Char.isDigit
      = k + 1 := by
    rw [String.toList_ofList, List.countP_append, List.countP_replicate]
    rfl
  rw [parseInteger_tooManyDigits hdenotes op (by omega), hcount]

/-- A numeral of the integer one, which is neither read nor refused. -/
theorem parseInteger_zeros_neither :
    Text.Denotes (String.ofList (List.replicate 4300 '0' ++ ['1'])).toList 1 ∧ 1 ∈ int64 ∧
    (∀ v, parseInteger "integer" (String.ofList (List.replicate 4300 '0' ++ ['1'])) ≠ .ok v) ∧
    ∀ reason, parseInteger "integer" (String.ofList (List.replicate 4300 '0' ++ ['1']))
      ≠ .error (.refused "integer" reason) := by
  have hcrash := parseInteger_zeros "integer" (k := 4300) (Nat.le_refl _)
  refine ⟨?_, by decide, fun v => ?_, fun reason => ?_⟩
  · rw [String.toList_ofList]
    exact Text.denotes_zeros_one 4300
  · rw [hcrash]
    nofun
  · rw [hcrash]
    nofun

end Value

end TagScript
