import TagScript.Markup.Entity
import TagScript.Proofs.Except
import TagScript.Proofs.Markup.Lexeme
import TagScript.Proofs.Text.Digits

set_option autoImplicit false

/-! # Spellings of attribute values

A character of an attribute value is written as itself, unless it is an ampersand, or as a
reference: a name from the table, or its code point in digits. A raw value spells a text if it is
put together from spellings of its characters (`Spells`). It is then decoded to that text, whatever
the spellings, and whatever can be decoded is spelled (`decode_eq_ok`). -/

namespace TagScript.Markup.Entity

/-! ## Numbers -/

/-- The digits up to the base sixteen. What a digit counts is its place among them. -/
def hexDigits : List Char := "0123456789abcdef".toList

/-- The number that digits of either case denote to a base. -/
def codeOf (base : Nat) (digits : List Char) : Nat :=
  Text.positional base (fun d => hexDigits.idxOf d.toLower) digits

theorem isHexDigit_of_isDigit {d : Char} (h : d.isDigit = true) : isHexDigit d = true := by
  simp [isHexDigit, h]

theorem hexValue_eq_idxOf {d : Char} (h : isHexDigit d = true) :
    hexValue d = hexDigits.idxOf d.toLower := by
  have htable : ∀ n < 128, isHexDigit (Char.ofNat n) = true →
      hexValue (Char.ofNat n) = hexDigits.idxOf (Char.ofNat n).toLower := by decide
  have hlt : d.toNat < 128 := by
    simp only [isHexDigit, Bool.or_eq_true, Bool.and_eq_true, decide_eq_true_eq,
      Char.isDigit_iff_toNat] at h
    rcases h with (⟨-, hle⟩ | ⟨-, hle⟩) | ⟨-, hle⟩
    · exact Nat.lt_of_le_of_lt hle (by decide)
    · exact Nat.lt_of_le_of_lt hle (by decide)
    · exact Nat.lt_of_le_of_lt hle (by decide)
  have htoNat := htable d.toNat hlt
  rw [Char.ofNat_toNat] at htoNat
  exact htoNat h

/-- The digits of a reference are read as the number that they denote. -/
theorem digitsValue_eq_codeOf (base : Nat) {digits : List Char}
    (h : ∀ d ∈ digits, isHexDigit d = true) :
    digitsValue base hexValue digits = codeOf base digits := by
  have hvalue := @Text.foldl_eq_positional base _ _ _ (fun d hd => hexValue_eq_idxOf (h d hd)) 0
  rwa [Nat.zero_mul, Nat.zero_add] at hvalue

/-! ## References -/

/-- What stands between the ampersand and the semicolon of a reference to a character. -/
inductive Reference : List Char → Char → Prop where
  | named {name : List Char} {c : Char} : (String.ofList name, c) ∈ named → Reference name c
  | decimal {digits : List Char} {c : Char} : (∀ d ∈ digits, d.isDigit = true) →
      digits.length ≤ Text.digitLimit → codeOf 10 digits = c.toNat → c.toNat ≠ 0 →
      Reference ('#' :: digits) c
  | hexadecimal {x : Char} {digits : List Char} {c : Char} : x = 'x' ∨ x = 'X' →
      (∀ d ∈ digits, isHexDigit d = true) → codeOf 16 digits = c.toNat → c.toNat ≠ 0 →
      Reference ('#' :: x :: digits) c

theorem toNat_le_maxCode (c : Char) : c.toNat ≤ maxCode := by
  have hvalid : c.toNat.isValidChar := c.valid
  simp only [Nat.isValidChar] at hvalid
  unfold maxCode
  omega

theorem character_toNat (body : List Char) {c : Char} (h : c.toNat ≠ 0) :
    character body c.toNat = .ok c := by
  have hrange : 0 < c.toNat ∧ c.toNat ≤ maxCode := ⟨Nat.pos_of_ne_zero h, toNat_le_maxCode c⟩
  have hvalid : c.toNat.isValidChar := c.valid
  unfold character
  rw [if_neg (not_not.2 hrange), if_pos hvalid, Char.ofNat_toNat]

theorem ne_nil_of_codeOf {base : Nat} {digits : List Char} {n : Nat} (hn : n ≠ 0)
    (h : codeOf base digits = n) : digits ≠ [] := by
  rintro rfl
  exact hn h.symm

/-! ### Reading the number -/

/-- Digits to the base ten do not start with an x. -/
theorem not_x_of_isDigit {d : Char} (h : d.isDigit = true) : ¬ (d = 'x' ∨ d = 'X') := by
  rintro (rfl | rfl) <;> exact absurd h (by decide)

theorem readCode_decimal {digits : List Char} (hne : digits ≠ [])
    (hdigits : ∀ d ∈ digits, d.isDigit = true) :
    readCode digits
      = if Text.digitLimit < digits.length then .error (.crash (.tooManyDigits digits.length))
        else .ok (codeOf 10 digits) := by
  obtain ⟨d, rest, rfl⟩ := List.exists_cons_of_ne_nil hne
  have hx := not_x_of_isDigit (hdigits d List.mem_cons_self)
  rw [readCode, if_neg hx,
    digitsValue_eq_codeOf 10 fun d hd => isHexDigit_of_isDigit (hdigits d hd)]

theorem readCode_hexadecimal {x : Char} {digits : List Char} (hx : x = 'x' ∨ x = 'X')
    (hdigits : ∀ d ∈ digits, isHexDigit d = true) :
    readCode (x :: digits) = .ok (codeOf 16 digits) := by
  rw [readCode, if_pos hx, digitsValue_eq_codeOf 16 hdigits]

/-- The digits of a reference end at its semicolon. -/
theorem takeWhile_semicolon {p : Char → Bool} (hp : p ';' = false) {s : List Char}
    (hs : ∀ c ∈ s, p c = true) (rest : List Char) : (s ++ ';' :: rest).takeWhile p = s :=
  (takeWhile_append_of_without hs (.cons hp rest)).1

namespace Reference

variable {b : List Char} {c : Char}

theorem resolve (h : Reference b c) : Entity.resolve b = .ok c := by
  cases h with
  | named h =>
      simp only [Entity.named, List.mem_cons, Prod.mk.injEq, List.not_mem_nil, or_false] at h
      rcases h with ⟨hb, rfl⟩ | ⟨hb, rfl⟩ | ⟨hb, rfl⟩ | ⟨hb, rfl⟩ | ⟨hb, rfl⟩ <;>
        (rw [← String.toList_ofList (l := b), hb]; rfl)
  | @decimal digits _ hdigits hshort hvalue hne =>
      have hread := readCode_decimal (ne_nil_of_codeOf hne hvalue) hdigits
      rw [if_neg (Nat.not_lt.2 hshort), hvalue] at hread
      rw [Entity.resolve, hread]
      exact character_toNat _ hne
  | hexadecimal hx hdigits hvalue hne =>
      rw [Entity.resolve, readCode_hexadecimal hx hdigits, hvalue]
      exact character_toNat _ hne

/-- The body of a reference is read up to its semicolon. -/
theorem body_append (h : Reference b c) (rest : List Char) : body (b ++ ';' :: rest) = b := by
  cases h with
  | named h =>
      simp only [Entity.named, List.mem_cons, Prod.mk.injEq, List.not_mem_nil, or_false] at h
      rcases h with ⟨hb, -⟩ | ⟨hb, -⟩ | ⟨hb, -⟩ | ⟨hb, -⟩ | ⟨hb, -⟩ <;>
        (rw [← String.toList_ofList (l := b), hb]; rfl)
  | @decimal digits _ hdigits _ hvalue hne =>
      have htake := takeWhile_semicolon (p := Char.isDigit) (by decide) hdigits rest
      have hnil := ne_nil_of_codeOf hne hvalue
      simp only [body, List.cons_append, htake, List.isEmpty_iff, hnil, if_false]
  | @hexadecimal x digits _ hx hdigits hvalue hne =>
      have htake := takeWhile_semicolon (p := isHexDigit) (by decide) hdigits rest
      have hnil := ne_nil_of_codeOf hne hvalue
      have hdigit : x.isDigit = false := by rcases hx with rfl | rfl <;> decide
      simp [body, htake, hnil, hdigit, hx]

theorem ne_nil (h : Reference b c) : b ≠ [] := by
  rintro rfl
  have hnone : Entity.resolve [] = .error (.unknown "") := rfl
  cases hnone.symm.trans h.resolve

theorem reference_append (h : Reference b c) (rest : List Char) :
    reference (b ++ ';' :: rest) = .ok (c, b.length + 1) := by
  simp [reference, h.body_append, h.resolve, h.ne_nil, Except.map]

end Reference

/-! ### Bodies that stand for a character -/

theorem toNat_of_character {body : List Char} {code : Nat} {c : Char}
    (h : character body code = .ok c) : code = c.toNat ∧ c.toNat ≠ 0 := by
  unfold character at h
  split at h
  · cases h
  · rename_i hrange
    split at h
    · rename_i hvalid
      cases h
      have hnat : (Char.ofNat code).toNat = code := by
        rw [Char.ofNat, dif_pos hvalid]
        rfl
      rw [hnat]
      exact ⟨rfl, Nat.ne_of_gt (not_not.1 hrange).1⟩
    · cases h

theorem resolve_decimal {c : Char} {digits : List Char} (hne : digits ≠ [])
    (hdigits : ∀ d ∈ digits, d.isDigit = true) (h : Entity.resolve ('#' :: digits) = .ok c) :
    digits.length ≤ Text.digitLimit ∧ codeOf 10 digits = c.toNat ∧ c.toNat ≠ 0 := by
  rw [Entity.resolve, readCode_decimal hne hdigits] at h
  split at h
  · cases h
  · rename_i hshort
    exact ⟨Nat.not_lt.1 hshort, toNat_of_character h⟩

theorem resolve_hexadecimal {x c : Char} {digits : List Char} (hx : x = 'x' ∨ x = 'X')
    (hdigits : ∀ d ∈ digits, isHexDigit d = true)
    (h : Entity.resolve ('#' :: x :: digits) = .ok c) :
    codeOf 16 digits = c.toNat ∧ c.toNat ≠ 0 := by
  rw [Entity.resolve, readCode_hexadecimal hx hdigits] at h
  exact toNat_of_character h

theorem resolve_named {name : List Char} {c : Char} (hname : ∀ rest, name ≠ '#' :: rest)
    (h : Entity.resolve name = .ok c) : (String.ofList name, c) ∈ named := by
  unfold Entity.resolve at h
  split at h
  · exact absurd rfl (hname _)
  · split at h
    · rename_i hlookup
      cases h
      obtain ⟨_, _, hnamed, _⟩ := List.lookup_eq_some_iff.1 hlookup
      rw [hnamed]
      simp
    · cases h

theorem mem_takeWhile {p : Char → Bool} (s : List Char) : ∀ c ∈ s.takeWhile p, p c = true :=
  List.all_eq_true.1 List.all_takeWhile

/-- A body that stands for a character is that of a reference to it. -/
theorem reference_of_resolve {s : List Char} {c : Char} :
    Entity.resolve (body s) = .ok c → Reference (body s) c := by
  fun_cases body s with
  | case1 x rest hx _ =>
      intro h
      have hall := mem_takeWhile (p := isHexDigit) rest
      obtain ⟨hvalue, hne⟩ := resolve_hexadecimal hx.1 hall h
      exact .hexadecimal hx.1 hall hvalue hne
  | case2 | case3 => nofun
  | case4 rest hdigits =>
      intro h
      have hall := mem_takeWhile (p := Char.isDigit) rest
      obtain ⟨hshort, hvalue, hne⟩ := resolve_decimal (by simpa using hdigits) hall h
      exact .decimal hall hshort hvalue hne
  | case5 hs =>
      intro h
      refine .named (resolve_named (fun rest heq => ?_) h)
      have halpha := mem_takeWhile (p := Char.isAlpha) s '#' (by rw [heq]; simp)
      exact absurd halpha (by decide)

theorem body_append_drop (s : List Char) : body s ++ s.drop (body s).length = s := by
  refine List.prefix_iff_eq_append.1 ?_
  fun_cases body s with
  | case1 x rest => simp [List.takeWhile_prefix]
  | case2 | case3 => exact List.nil_prefix
  | case4 rest => simp [List.takeWhile_prefix]
  | case5 => exact List.takeWhile_prefix _

theorem reference_eq_ok {s : List Char} {c : Char} {taken : Nat}
    (h : reference s = .ok (c, taken)) :
    ∃ b rest, s = b ++ ';' :: rest ∧ Reference b c ∧ taken = b.length + 1 := by
  simp only [reference] at h
  split at h
  · rename_i hhead
    split at h
    · cases h
    · cases hresolve : Entity.resolve (body s) with
      | error fault =>
          rw [hresolve] at h
          cases h
      | ok d =>
          rw [hresolve] at h
          cases h
          obtain ⟨rest, hrest⟩ := List.head?_eq_some_iff.1 hhead
          refine ⟨body s, rest, ?_, reference_of_resolve hresolve, rfl⟩
          rw [← hrest, body_append_drop]
  · cases h

/-! ## Raw values -/

/-- A way to write one character. -/
inductive Spelling : List Char → Char → Prop where
  | literal {c : Char} : c ≠ '&' → Spelling [c] c
  | reference {b : List Char} {c : Char} : Reference b c → Spelling ('&' :: (b ++ [';'])) c

/-- A way to write a text, character by character. -/
inductive Spells : List Char → List Char → Prop where
  | nil : Spells [] []
  | cons {s raw value : List Char} {c : Char} : Spelling s c → Spells raw value →
      Spells (s ++ raw) (c :: value)

/-- A spelling is decoded on its own, and what it stands for is not decoded again. -/
theorem Spelling.decode_append {s : List Char} {c : Char} (h : Spelling s c) (raw : List Char) :
    Entity.decode (s ++ raw) = (Entity.decode raw).map (c :: ·) := by
  cases h with
  | literal hc =>
      show decodeFrom 0 (c :: raw) = _
      rw [decodeFrom, if_neg hc, Entity.decode]
  | @reference b _ hb =>
      have hdrop : (b ++ [';'] ++ raw).drop (b.length + 1) = raw := List.drop_left' (by simp)
      have hskip : decodeFrom (b.length + 1) (b ++ ';' :: raw) = Entity.decode raw := by
        rw [decodeFrom_eq_drop, ← List.singleton_append, ← List.append_assoc, hdrop]
      show decodeFrom 0 ('&' :: (b ++ [';']) ++ raw) = _
      simp [decodeFrom, hb.reference_append, hskip]

/-- A raw value is decoded to the text that it spells. -/
theorem Spells.decode {raw value : List Char} (h : Spells raw value) :
    Entity.decode raw = .ok value := by
  induction h with
  | nil => rfl
  | cons hs _ ih => rw [hs.decode_append, ih, Except.map]

/-- What is decoded is spelled. -/
theorem spells_of_decodeFrom {skip : Nat} {raw value : List Char}
    (h : decodeFrom skip raw = .ok value) : Spells (raw.drop skip) value := by
  fun_induction decodeFrom skip raw generalizing value with
  | case1 skip =>
      cases h
      rw [List.drop_nil]
      exact .nil
  | case2 skip c rest ih => exact ih h
  | case3 => cases h
  | case4 rest d taken href ih =>
      obtain ⟨b, tail, rfl, hb, rfl⟩ := reference_eq_ok href
      obtain ⟨decoded, hrest, rfl⟩ := except_map_ok h
      have htail := Spells.cons (.reference hb) (ih hrest)
      simpa using htail
  | case5 c rest hc ih =>
      obtain ⟨decoded, hrest, rfl⟩ := except_map_ok h
      exact .cons (.literal hc) (ih hrest)

/-- Raw values are decoded to the texts that they spell, and to nothing else. -/
theorem decode_eq_ok {raw value : List Char} : Entity.decode raw = .ok value ↔ Spells raw value :=
  ⟨spells_of_decodeFrom, Spells.decode⟩

end TagScript.Markup.Entity
