import TagScript.Proofs.Except
import TagScript.Text.Utf8

set_option autoImplicit false

/-! # UTF-8, written and read

What is written is read back (`decodeFrom_encode`), and what is written after a text that can be
read is read after it (`decode_append_encode`). A character is written with one byte to four, and
for each number of bytes one lemma says what reading them takes. -/

namespace TagScript.Utf8

variable {position : Nat} {a b c d : UInt8} {rest : List UInt8}

/-! ## Reading one character -/

theorem decodeFrom_one (ha : a.toNat < 0x80) :
    decodeFrom position (a :: rest)
      = (decodeFrom (position + 1) rest).map (Char.ofNat a.toNat :: ·) := by
  rw [decodeFrom.eq_def]
  simp only [ha, if_true]

theorem decodeFrom_two (ha : 0xC2 ≤ a.toNat) (ha' : a.toNat < 0xE0) (hb : isSecond a b = true) :
    decodeFrom position (a :: b :: rest)
      = (decodeFrom (position + 2) rest).map
          (Char.ofNat ((a.toNat - 0xC0) * 64 + payload b) :: ·) := by
  have hstart : ¬ (a.toNat < 0xC2 ∨ 0xF4 < a.toNat) := by omega
  rw [decodeFrom.eq_def]
  have hone : ¬ a.toNat < 0x80 := by omega
  simp only [hone, hstart, hb, Bool.not_true, Bool.false_eq_true, if_false, ha', if_true]

theorem decodeFrom_three (ha : 0xE0 ≤ a.toNat) (ha' : a.toNat < 0xF0) (hb : isSecond a b = true)
    (hc : isContinuation c = true) :
    decodeFrom position (a :: b :: c :: rest)
      = (decodeFrom (position + 3) rest).map
          (Char.ofNat ((a.toNat - 0xE0) * 4096 + payload b * 64 + payload c) :: ·) := by
  have hstart : ¬ (a.toNat < 0xC2 ∨ 0xF4 < a.toNat) := by omega
  have htwo : ¬ a.toNat < 0xE0 := by omega
  rw [decodeFrom.eq_def]
  have hone : ¬ a.toNat < 0x80 := by omega
  simp only [hone, hstart, hb, hc, Bool.not_true, Bool.false_eq_true, if_false, htwo, ha', if_true]

theorem decodeFrom_four (ha : 0xF0 ≤ a.toNat) (ha' : a.toNat ≤ 0xF4) (hb : isSecond a b = true)
    (hc : isContinuation c = true) (hd : isContinuation d = true) :
    decodeFrom position (a :: b :: c :: d :: rest)
      = (decodeFrom (position + 4) rest).map
          (Char.ofNat ((a.toNat - 0xF0) * 262144 + payload b * 4096 + payload c * 64 + payload d)
            :: ·) := by
  have hstart : ¬ (a.toNat < 0xC2 ∨ 0xF4 < a.toNat) := by omega
  have htwo : ¬ a.toNat < 0xE0 := by omega
  have hthree : ¬ a.toNat < 0xF0 := by omega
  rw [decodeFrom.eq_def]
  have hone : ¬ a.toNat < 0x80 := by omega
  simp only [hone, hstart, hb, hc, hd, Bool.not_true, Bool.false_eq_true, if_false, htwo, hthree]

/-! ## Bytes as they are written -/

theorem isContinuation_iff : isContinuation b = true ↔ 0x80 ≤ b.toNat ∧ b.toNat ≤ 0xBF := by
  simp [isContinuation]

/-- A second byte has to keep clear of overlong forms, surrogates and what is beyond the last code
    point. -/
theorem isSecond_of_bounds (hb : isContinuation b = true) (hE0 : a.toNat = 0xE0 → 0xA0 ≤ b.toNat)
    (hED : a.toNat = 0xED → b.toNat < 0xA0) (hF0 : a.toNat = 0xF0 → 0x90 ≤ b.toNat)
    (hF4 : a.toNat = 0xF4 → b.toNat < 0x90) : isSecond a b = true := by
  have hlead : ∀ n : UInt8, (a == n) = decide (a.toNat = n.toNat) := by
    intro n
    by_cases h : a = n
    · subst h
      simp
    · have hne : a.toNat ≠ n.toNat := fun heq => h (UInt8.toNat_inj.1 heq)
      simp [h, hne]
  simp only [isSecond, hb, hlead, Bool.true_and, Bool.and_eq_true, Bool.not_eq_true',
    Bool.and_eq_false_iff, decide_eq_false_iff_not, UInt8.reduceToNat]
  omega

theorem toNat_ofNat {n : Nat} (hn : n < 256) : (UInt8.ofNat n).toNat = n := by
  rw [UInt8.toNat_ofNat']
  exact Nat.mod_eq_of_lt hn

/-- The byte that carries six bits. -/
theorem continuation_ofNat {n : Nat} (hn : n < 64) :
    isContinuation (UInt8.ofNat (0x80 + n)) = true ∧ payload (UInt8.ofNat (0x80 + n)) = n := by
  have hbyte : (UInt8.ofNat (0x80 + n)).toNat = 0x80 + n := toNat_ofNat (by omega)
  constructor
  · rw [isContinuation_iff, hbyte]
    omega
  · unfold payload
    rw [hbyte]
    omega

/-- The bytes of a character are read as that character. -/
theorem decodeFrom_encodeChar (position : Nat) (x : Char) (rest : List UInt8) :
    decodeFrom position (encodeChar x ++ rest)
      = (decodeFrom (position + (encodeChar x).length) rest).map (x :: ·) := by
  have hvalid : x.toNat < 0xD800 ∨ 0xDFFF < x.toNat ∧ x.toNat < 0x110000 := x.valid
  have hchar : Char.ofNat x.toNat = x := Char.ofNat_toNat x
  unfold encodeChar
  generalize x.toNat = n at hvalid hchar
  obtain ⟨hlast, hpayload⟩ := continuation_ofNat (n := n % 64) (by omega)
  obtain ⟨hmiddle, hpayload'⟩ := continuation_ofNat (n := n / 64 % 64) (by omega)
  obtain ⟨hfront, hpayload''⟩ := continuation_ofNat (n := n / 4096 % 64) (by omega)
  have hmiddleByte : (UInt8.ofNat (0x80 + n / 64 % 64)).toNat = 0x80 + n / 64 % 64 :=
    toNat_ofNat (by omega)
  have hfrontByte : (UInt8.ofNat (0x80 + n / 4096 % 64)).toNat = 0x80 + n / 4096 % 64 :=
    toNat_ofNat (by omega)
  by_cases hone : n < 0x80
  · have hlead : (UInt8.ofNat n).toNat = n := toNat_ofNat (by omega)
    simp only [if_pos hone]
    refine (decodeFrom_one (by omega)).trans ?_
    rw [hlead, hchar]
    rfl
  by_cases htwo : n < 0x800
  · have hlead : (UInt8.ofNat (0xC0 + n / 64)).toNat = 0xC0 + n / 64 := toNat_ofNat (by omega)
    have hsecond : isSecond (UInt8.ofNat (0xC0 + n / 64)) (UInt8.ofNat (0x80 + n % 64)) = true :=
      isSecond_of_bounds hlast (by omega) (by omega) (by omega) (by omega)
    have hsum : (0xC0 + n / 64 - 0xC0) * 64 + n % 64 = n := by omega
    simp only [if_neg hone, if_pos htwo]
    refine (decodeFrom_two (by omega) (by omega) hsecond).trans ?_
    rw [hlead, hpayload, hsum, hchar]
    rfl
  by_cases hthree : n < 0x10000
  · have hlead : (UInt8.ofNat (0xE0 + n / 4096)).toNat = 0xE0 + n / 4096 := toNat_ofNat (by omega)
    have hsecond : isSecond (UInt8.ofNat (0xE0 + n / 4096)) (UInt8.ofNat (0x80 + n / 64 % 64))
        = true :=
      isSecond_of_bounds hmiddle (by omega) (by omega) (by omega) (by omega)
    have hsum : (0xE0 + n / 4096 - 0xE0) * 4096 + n / 64 % 64 * 64 + n % 64 = n := by omega
    simp only [if_neg hone, if_neg htwo, if_pos hthree]
    refine (decodeFrom_three (by omega) (by omega) hsecond hlast).trans ?_
    rw [hlead, hpayload', hpayload, hsum, hchar]
    rfl
  · have hlead : (UInt8.ofNat (0xF0 + n / 262144)).toNat = 0xF0 + n / 262144 :=
      toNat_ofNat (by omega)
    have hsecond : isSecond (UInt8.ofNat (0xF0 + n / 262144)) (UInt8.ofNat (0x80 + n / 4096 % 64))
        = true :=
      isSecond_of_bounds hfront (by omega) (by omega) (by omega) (by omega)
    have hsum : (0xF0 + n / 262144 - 0xF0) * 262144 + n / 4096 % 64 * 4096 + n / 64 % 64 * 64
        + n % 64 = n := by omega
    simp only [if_neg hone, if_neg htwo, if_neg hthree]
    refine (decodeFrom_four (by omega) (by omega) hsecond hmiddle hlast).trans ?_
    rw [hlead, hpayload'', hpayload', hpayload, hsum, hchar]
    rfl

/-! ## Texts -/

/-- What is written is read back. -/
theorem decodeFrom_encode (position : Nat) (s : List Char) :
    decodeFrom position (encode s) = .ok s := by
  induction s generalizing position with
  | nil => rfl
  | cons x s ih =>
      show decodeFrom position (encodeChar x ++ encode s) = _
      rw [decodeFrom_encodeChar, ih]
      rfl

/-- If bytes are read as one character and the bytes after them can be followed by more, then so can
    both together. -/
theorem append_of_read {position : Nat} {x : Char} {s : List Char} {rest bs : List UInt8}
    (front : List UInt8)
    (hread : ∀ more, decodeFrom position (front ++ more)
      = (decodeFrom (position + front.length) more).map (x :: ·))
    (ih : ∀ {t}, decodeFrom (position + front.length) rest = .ok t →
      decodeFrom (position + front.length) (rest ++ bs)
        = (decodeFrom (position + front.length + rest.length) bs).map (t ++ ·))
    (h : (decodeFrom (position + front.length) rest).map (x :: ·) = .ok s) :
    decodeFrom position (front ++ rest ++ bs)
      = (decodeFrom (position + (front ++ rest).length) bs).map (s ++ ·) := by
  obtain ⟨t, ht, rfl⟩ := except_map_ok h
  rw [List.append_assoc, hread, ih ht, List.length_append, ← Nat.add_assoc]
  cases decodeFrom (position + front.length + rest.length) bs <;> rfl

/-- Where a text ends, the next one starts. -/
theorem decodeFrom_append {position : Nat} {as bs : List UInt8} {s : List Char}
    (h : decodeFrom position as = .ok s) :
    decodeFrom position (as ++ bs) = (decodeFrom (position + as.length) bs).map (s ++ ·) := by
  -- one case for each number of bytes of a character; in the others nothing has been read
  fun_induction decodeFrom position as generalizing s with
  | case1 position =>
      cases h
      cases hbs : decodeFrom position bs <;> simp [hbs, Except.map]
  | case2 position a rest n hone =>
      rename_i ih
      exact append_of_read [a] (fun _ => decodeFrom_one hone) ih h
  | case6 position a n hone hstart b rest hsecond htwo =>
      rename_i ih
      have hn : n = a.toNat := rfl
      exact append_of_read [a, b]
        (fun _ => decodeFrom_two (by omega) (by omega) (by simpa using hsecond)) ih h
  | case9 position a n hone hstart b hsecond htwo c rest hthird hthree =>
      rename_i ih
      have hn : n = a.toNat := rfl
      exact append_of_read [a, b, c]
        (fun _ => decodeFrom_three (by omega) (by omega) (by simpa using hsecond)
          (by simpa using hthird)) ih h
  | case12 position a n hone hstart b hsecond htwo c hthird hthree d rest hfourth =>
      rename_i ih
      have hn : n = a.toNat := rfl
      exact append_of_read [a, b, c, d]
        (fun _ => decodeFrom_four (by omega) (by omega) (by simpa using hsecond)
          (by simpa using hthird) (by simpa using hfourth)) ih h
  | _ => cases h

/-- A text that is written after another one is read after it. -/
theorem decode_append_encode {old : List UInt8} {s : List Char} (h : decode old = .ok s)
    (t : List Char) : decode (old ++ encode t) = .ok (s ++ t) := by
  unfold decode at h ⊢
  rw [decodeFrom_append h, decodeFrom_encode]
  rfl

end TagScript.Utf8
