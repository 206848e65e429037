import Mathlib.Algebra.Ring.Nat
import TagScript.Markup.Entity
import TagScript.Text.Quoted

set_option autoImplicit false

/-! # Quoted texts can be read back

A quoted text ends at the first quote that no backslash stands before, and each escape in it stands
for one character. So a quoted text can be told from what follows it, and the text from its quoted
form (`quotedChars_append_inj`). It has no line feed, whatever the text is. -/

namespace TagScript.Text

open Markup (Entity.hexValue Entity.digitsValue)

/-! ## Hexadecimal digits -/

theorem length_hexDigits (width n : Nat) : (hexDigits width n).length = width := by
  induction width generalizing n with
  | zero => rfl
  | succ width ih => simp [hexDigits, ih]

/-- A number that has no more digits is the value of those that are written. -/
theorem digitsValue_hexDigits {width n : Nat} (hn : n < 16 ^ width) :
    Entity.digitsValue 16 Entity.hexValue (hexDigits width n) = n := by
  have hdigit : ∀ d < 16, Entity.hexValue (hexDigit d) = d := by decide
  induction width generalizing n with
  | zero =>
      have hzero : n = 0 := by simpa using hn
      rw [hzero]
      rfl
  | succ width ih =>
      have hfront : n / 16 < 16 ^ width := Nat.div_lt_of_lt_mul (by rwa [Nat.pow_succ'] at hn)
      have hlast : Entity.hexValue (hexDigit (n % 16)) = n % 16 :=
        hdigit _ (Nat.mod_lt n (by decide))
      have hvalue := ih hfront
      unfold Entity.digitsValue at hvalue ⊢
      rw [hexDigits, List.foldl_append, hvalue, List.foldl_cons, List.foldl_nil, hlast]
      exact Nat.div_add_mod' n 16

theorem lineFeed_not_mem_hexDigits (width n : Nat) : '\n' ∉ hexDigits width n := by
  have hdigit : ∀ d < 16, '\n' ≠ hexDigit d := by decide
  induction width generalizing n with
  | zero => simp [hexDigits]
  | succ width ih =>
      rw [hexDigits, List.mem_append, List.mem_singleton, not_or]
      exact ⟨ih (n / 16), hdigit _ (Nat.mod_lt n (by decide))⟩

/-! ## Escapes -/

/-- The character of the hexadecimal digits that a text starts with, and what is after them. -/
def readCode (width : Nat) (s : List Char) : Char × List Char :=
  (Char.ofNat (Entity.digitsValue 16 Entity.hexValue (s.take width)), s.drop width)

/-- The first character of a text, an escape being read as the character it stands for, and what is
    after it. -/
def readEscaped : List Char → Option (Char × List Char)
  | '\\' :: 'n' :: rest => some ('\n', rest)
  | '\\' :: 'r' :: rest => some ('\r', rest)
  | '\\' :: 't' :: rest => some ('\t', rest)
  | '\\' :: 'x' :: rest => some (readCode 2 rest)
  | '\\' :: 'u' :: rest => some (readCode 4 rest)
  | '\\' :: 'U' :: rest => some (readCode 8 rest)
  | '\\' :: c :: rest => some (c, rest)
  | c :: rest => some (c, rest)
  | [] => none

theorem readEscaped_plain {c : Char} (hc : c ≠ '\\') (rest : List Char) :
    readEscaped (c :: rest) = some (c, rest) := by
  simp [readEscaped, hc]

theorem readCode_hexDigits {width : Nat} {c : Char} (hc : c.toNat < 16 ^ width)
    (rest : List Char) : readCode width (hexDigits width c.toNat ++ rest) = (c, rest) := by
  have hlen : (hexDigits width c.toNat).length = width := length_hexDigits width c.toNat
  rw [readCode, List.take_left' hlen, List.drop_left' hlen, digitsValue_hexDigits hc,
    Char.ofNat_toNat]

/-- What a text is quoted with. -/
def IsQuote (quote : Char) : Prop := quote = singleQuote ∨ quote = doubleQuote

theorem isQuote_quoteFor (s : List Char) : IsQuote (quoteFor s) := by
  unfold quoteFor
  split
  · exact .inr rfl
  · exact .inl rfl

/-- An escape is read as the character that it was written for. -/
theorem readEscaped_escapeChar {quote : Char} (hquote : IsQuote quote) (c : Char)
    (rest : List Char) : readEscaped (escapeChar quote c ++ rest) = some (c, rest) := by
  have hcode : c.toNat < 0x110000 := by
    rcases c.valid with h | ⟨_, h⟩
    · exact Nat.lt_trans h (by decide)
    · exact h
  unfold escapeChar
  split
  · rename_i h
    rcases h with rfl | rfl
    · rfl
    · rcases hquote with rfl | rfl <;> rfl
  rename_i hplain
  have hbackslash : c ≠ '\\' := fun h => hplain (.inl h)
  split
  · rename_i h
    rw [h]
    rfl
  split
  · rename_i h
    rw [h]
    rfl
  split
  · rename_i h
    rw [h]
    rfl
  split
  · exact readEscaped_plain hbackslash rest
  split
  · rename_i hsmall
    exact congrArg some (readCode_hexDigits hsmall rest)
  split
  · rename_i hmedium
    exact congrArg some (readCode_hexDigits hmedium rest)
  · exact congrArg some (readCode_hexDigits (Nat.lt_trans hcode (by decide)) rest)

theorem escapeChar_append_inj {quote : Char} (hquote : IsQuote quote) {c d : Char}
    {r r' : List Char} (h : escapeChar quote c ++ r = escapeChar quote d ++ r') :
    c = d ∧ r = r' := by
  have hread := readEscaped_escapeChar hquote c r
  rw [h, readEscaped_escapeChar hquote d r'] at hread
  cases hread
  exact ⟨rfl, rfl⟩

/-- No escape starts with the quote, which ends the text. -/
theorem escapeChar_append_ne {quote : Char} (hquote : IsQuote quote) (c : Char)
    (r r' : List Char) : escapeChar quote c ++ r ≠ quote :: r' := by
  intro h
  have hbackslash : quote ≠ '\\' := by rcases hquote with rfl | rfl <;> decide
  -- the quote would be read as itself, so it would be the character; but the quote is escaped
  have hread := readEscaped_escapeChar hquote c r
  rw [h, readEscaped_plain hbackslash] at hread
  cases hread
  have hescaped : escapeChar quote quote = ['\\', quote] := if_pos (.inr rfl)
  rw [hescaped] at h
  exact hbackslash (List.cons.inj h).1.symm

theorem lineFeed_not_mem_escapeChar {quote : Char} (hquote : IsQuote quote) (c : Char) :
    '\n' ∉ escapeChar quote c := by
  unfold escapeChar
  split
  · rename_i h
    rcases h with rfl | rfl
    · decide
    · rcases hquote with rfl | rfl <;> decide
  split
  · decide
  rename_i hfeed
  repeat' split
  all_goals simp [lineFeed_not_mem_hexDigits, Ne.symm hfeed]

/-! ## Quoted texts -/

theorem flatMap_escapeChar_inj {quote : Char} (hquote : IsQuote quote) {s t r r' : List Char}
    (h : s.flatMap (escapeChar quote) ++ quote :: r = t.flatMap (escapeChar quote) ++ quote :: r') :
    s = t ∧ r = r' := by
  induction s generalizing t with
  | nil =>
      cases t with
      | nil => exact ⟨rfl, (List.cons.inj h).2⟩
      | cons d t =>
          rw [List.flatMap_cons, List.append_assoc] at h
          exact absurd h.symm (escapeChar_append_ne hquote d _ _)
  | cons c s ih =>
      rw [List.flatMap_cons, List.append_assoc] at h
      cases t with
      | nil => exact absurd h (escapeChar_append_ne hquote c _ _)
      | cons d t =>
          rw [List.flatMap_cons, List.append_assoc] at h
          obtain ⟨rfl, hrest⟩ := escapeChar_append_inj hquote h
          obtain ⟨rfl, hr⟩ := ih hrest
          exact ⟨rfl, hr⟩

/-- A quoted text determines the text, and where it ends. -/
theorem quotedChars_append_inj {s t r r' : List Char}
    (h : quotedChars s ++ r = quotedChars t ++ r') : s = t ∧ r = r' := by
  simp only [quotedChars, List.cons_append, List.append_assoc, List.nil_append,
    List.cons.injEq] at h
  obtain ⟨hquote, hrest⟩ := h
  rw [hquote] at hrest
  exact flatMap_escapeChar_inj (isQuote_quoteFor t) hrest

theorem lineFeed_not_mem_quotedChars (s : List Char) : '\n' ∉ quotedChars s := by
  have hquote := isQuote_quoteFor s
  have hne : '\n' ≠ quoteFor s := by
    rcases hquote with h | h <;> rw [h] <;> decide
  have hescapes : '\n' ∉ s.flatMap (escapeChar (quoteFor s)) := by
    intro h
    obtain ⟨c, _, hc⟩ := List.mem_flatMap.1 h
    exact lineFeed_not_mem_escapeChar hquote c hc
  simp [quotedChars, hne, hescapes]

end TagScript.Text
