import Mathlib.Algebra.Ring.Nat
import TagScript.Text.Blank
import TagScript.Text.Numeral

set_option autoImplicit false

/-! # Runs of digits

A run of digits is read as the sum of its digits, each times a power of ten for the digits after it
(`digitsValue_eq_placeValue`). It is written for its value if and only if it has no superfluous zero
in front (`digitChars_placeValue`). -/

namespace TagScript.Text

/-- A run of decimal digits. -/
def IsDigits (s : List Char) : Prop := ∀ c ∈ s, c.isDigit = true

/-- A run of digits does not start with anything else. -/
theorem IsDigits.ne_cons {s : List Char} (h : IsDigits s) {c : Char} (hc : c.isDigit = false)
    (rest : List Char) : s ≠ c :: rest := by
  rintro rfl
  rw [h c List.mem_cons_self] at hc
  cases hc

theorem digitChars_ne_nil (n : Nat) : digitChars n ≠ [] := Nat.toDigits_ne_nil

theorem isDigits_digitChars (n : Nat) : IsDigits (digitChars n) := fun _ hc =>
  Nat.isDigit_of_mem_toDigits (by decide) (by decide) hc

theorem isDigits_zeros (n : Nat) : IsDigits (List.replicate n '0') := by
  intro c hc
  rw [List.eq_of_mem_replicate hc]
  rfl

theorem isDigits_append {s t : List Char} : IsDigits (s ++ t) ↔ IsDigits s ∧ IsDigits t :=
  List.forall_mem_append

/-- A text that starts with a digit has no sign. -/
theorem splitSign_digit {c : Char} (hc : c.isDigit = true) (rest : List Char) :
    splitSign (c :: rest) = (false, c :: rest) := by
  unfold splitSign
  split
  · rename_i heq
    cases heq
    cases hc
  · rename_i heq
    cases heq
    cases hc
  · rfl

/-! ## Zeros -/

/-- Zeros before digits do not count. -/
theorem digitsValue_zeros_append (n : Nat) (s : List Char) :
    digitsValue (List.replicate n '0' ++ s) = digitsValue s := by
  rw [digitsValue, Nat.ofDigitChars_append, Nat.ofDigitChars_replicate_zero, Nat.mul_zero,
    digitsValue]

/-- Zeros after digits are powers of ten. -/
theorem digitsValue_append_zeros (s : List Char) (n : Nat) :
    digitsValue (s ++ List.replicate n '0') = digitsValue s * 10 ^ n := by
  rw [digitsValue, Nat.ofDigitChars_append, Nat.ofDigitChars_replicate_zero, Nat.mul_comm,
    digitsValue]

/-- Zeros that are dropped at the end. -/
theorem exists_dropTrailing_zeros (s : List Char) :
    ∃ n, s = dropTrailing (· == '0') s ++ List.replicate n '0' ∧
      '0' ∉ (dropTrailing (· == '0') s).getLast? := by
  have hzeros : ∀ c ∈ s.reverse.takeWhile (· == '0'), c = '0' := fun c hc =>
    beq_iff_eq.1 (List.all_eq_true.1 List.all_takeWhile c hc)
  refine ⟨(s.reverse.takeWhile (· == '0')).length, ?_, ?_⟩
  · rw [dropTrailing, ← List.reverse_replicate, ← List.eq_replicate_of_mem hzeros,
      ← List.reverse_append, List.takeWhile_append_dropWhile, List.reverse_reverse]
  · intro hlast
    have hkept := List.head?_dropWhile_not (· == '0') s.reverse
    rw [dropTrailing, List.getLast?_reverse, Option.mem_def] at hlast
    rw [hlast] at hkept
    cases hkept

/-! ## Places -/

/-- The value of a digit. -/
def digitValue (c : Char) : Nat := c.toNat - '0'.toNat

/-- The sum of the digits to a base, each times the power of the base for its place. -/
def positional (base : Nat) (digit : Char → Nat) : List Char → Nat
  | [] => 0
  | c :: rest => digit c * base ^ rest.length + positional base digit rest

/-- The sum of the digits, each times the power of ten for its place. -/
def placeValue (s : List Char) : Nat := positional 10 digitValue s

theorem placeValue_cons (c : Char) (rest : List Char) :
    placeValue (c :: rest) = digitValue c * 10 ^ rest.length + placeValue rest := rfl

/-- Digits that are read one after another are read for what they count in their places. -/
theorem foldl_eq_positional {base : Nat} {value digit : Char → Nat} {s : List Char}
    (h : ∀ c ∈ s, value c = digit c) (n : Nat) :
    s.foldl (fun n c => n * base + value c) n = n * base ^ s.length + positional base digit s := by
  induction s generalizing n with
  | nil => simp [positional]
  | cons c rest ih =>
      obtain ⟨hc, hrest⟩ := List.forall_mem_cons.1 h
      rw [List.foldl_cons, ih hrest, positional, List.length_cons, Nat.pow_succ, hc,
        Nat.add_mul, Nat.mul_assoc, Nat.mul_comm base, Nat.add_assoc]

theorem digitsValue_eq_placeValue (s : List Char) : digitsValue s = placeValue s := by
  induction s with
  | nil => rfl
  | cons c rest ih =>
      have hfirst : Nat.ofDigitChars 10 rest (digitValue c)
          = 10 ^ rest.length * digitValue c + digitsValue rest :=
        Nat.ofDigitChars_eq_ofDigitChars_zero
      rw [placeValue_cons, ← ih, Nat.mul_comm, ← hfirst, digitsValue, Nat.ofDigitChars_cons,
        digitValue, Nat.mul_zero, Nat.zero_add]

/-! ## Digits written for their value -/

theorem exists_digitChar {c : Char} (h : c.isDigit = true) : ∃ d < 10, c = Nat.digitChar d := by
  obtain ⟨hge, hle⟩ := Char.isDigit_iff_toNat.1 h
  have hchar : ∀ n ≤ '9'.toNat, '0'.toNat ≤ n →
      n - '0'.toNat < 10 ∧ Char.ofNat n = Nat.digitChar (n - '0'.toNat) := by decide
  obtain ⟨hlt, heq⟩ := hchar c.toNat hle hge
  exact ⟨_, hlt, by rw [← heq, Char.ofNat_toNat]⟩

/-- The digits of a number with further digits after them are those of the number that these lead
    to. -/
theorem digitChars_append {s : List Char} (h : IsDigits s) {n : Nat} (hn : 0 < n) :
    digitChars n ++ s = digitChars (Nat.ofDigitChars 10 s n) := by
  induction s generalizing n with
  | nil => rw [List.append_nil, Nat.ofDigitChars_nil]
  | cons c rest ih =>
      obtain ⟨hc, hrest⟩ := List.forall_mem_cons.1 h
      obtain ⟨d, hd, rfl⟩ := exists_digitChar hc
      have hnext : digitChars n ++ [Nat.digitChar d] = digitChars (10 * n + d) := by
        rw [← Nat.toDigits_of_lt_base hd]
        exact Nat.toDigits_append_toDigits (by decide) hn hd
      rw [Nat.ofDigitChars_cons_digitChar_of_lt_ten hd, ← ih hrest (by omega), ← hnext,
        List.append_assoc, List.singleton_append]

/-- A number is not written with a zero in front, zero itself aside. -/
theorem head?_digitChars {n : Nat} (hn : 0 < n) : (digitChars n).head? ≠ some '0' := by
  induction n using Nat.strongRecOn with
  | ind n ih =>
      rw [digitChars, Nat.toDigits_eq_if (by decide)]
      split
      · simp only [List.head?_cons, ne_eq, Option.some.injEq, Nat.digitChar_eq_zero]
        omega
      · obtain ⟨c, rest, hshorter⟩ := List.exists_cons_of_ne_nil (Nat.toDigits_ne_nil (n := n / 10))
        have hhead := ih (n / 10) (by omega) (by omega)
        rw [digitChars, hshorter] at hhead
        rw [hshorter]
        exact hhead

/-- Digits are those written for their value if and only if no zero comes before others. -/
theorem digitChars_placeValue {digits : List Char} (hne : digits ≠ []) (h : IsDigits digits) :
    digitChars (placeValue digits) = digits ↔ ∀ rest, digits = '0' :: rest → rest = [] := by
  obtain ⟨c, rest, rfl⟩ := List.exists_cons_of_ne_nil hne
  obtain ⟨hc, hrest⟩ := List.forall_mem_cons.1 h
  obtain ⟨d, hd, rfl⟩ := exists_digitChar hc
  rw [← digitsValue_eq_placeValue, digitsValue, Nat.ofDigitChars_cons_digitChar_of_lt_ten hd,
    Nat.mul_zero, Nat.zero_add]
  rcases Nat.eq_zero_or_pos d with rfl | hpos
  · constructor
    · rintro heq _ ⟨⟩
      rcases Nat.eq_zero_or_pos (Nat.ofDigitChars 10 rest 0) with hvalue | hvalue
      · rw [hvalue] at heq
        exact (List.cons.inj heq).2.symm
      · exact absurd (by rw [heq]; rfl) (head?_digitChars hvalue)
    · intro hzero
      rw [hzero rest rfl]
      rfl
  · refine iff_of_true ?_ fun _ heq => ?_
    · rw [← digitChars_append hrest hpos, digitChars, Nat.toDigits_of_lt_base hd]
      rfl
    · exact absurd (Nat.digitChar_eq_zero.1 (List.cons.inj heq).1) (Nat.ne_of_gt hpos)

/-- Digits with the value zero start with a zero. -/
theorem exists_zero_cons {digits : List Char} (hne : digits ≠ []) (h : IsDigits digits)
    (hvalue : placeValue digits = 0) : ∃ rest, digits = '0' :: rest := by
  obtain ⟨c, rest, rfl⟩ := List.exists_cons_of_ne_nil hne
  obtain ⟨d, hd, rfl⟩ := exists_digitChar (h c List.mem_cons_self)
  have hdigit : digitValue (Nat.digitChar d) = d := by
    rw [digitValue, Nat.toNat_digitChar_of_lt_ten hd]
    exact Nat.add_sub_cancel_left 48 d
  rw [placeValue_cons, hdigit, Nat.add_eq_zero_iff, Nat.mul_eq_zero] at hvalue
  rcases hvalue.1 with rfl | hpow
  · exact ⟨rest, rfl⟩
  · exact absurd hpow (Nat.ne_of_gt (Nat.pow_pos (by decide)))

/-- What a number is written as has the value of the number. -/
theorem placeValue_digitChars (n : Nat) : placeValue (digitChars n) = n := by
  rw [← digitsValue_eq_placeValue, digitsValue_digitChars]

end TagScript.Text
