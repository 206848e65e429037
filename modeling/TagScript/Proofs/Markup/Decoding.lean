import TagScript.Proofs.Markup.Spelling

set_option autoImplicit false

/-! # Decoding and refusing attribute values

A raw value is decoded from left to right, one spelling after another, and what a spelling stands
for is not looked at again. Decoding is refused at the first ampersand that does not start a
reference: one that is ended by a semicolon and is a name of the table or a number that can be read
and is the code point of a character (`decode_exact`). A decimal number cannot be read if it has too
many digits, be they zeros, and decoding then crashes (`decode_zeros`). Code points of surrogates
are no characters of a text and are left aside. -/

namespace TagScript.Markup.Entity

/-! ## What stands after an ampersand -/

/-- A number in digits, as it stands in a reference. -/
inductive Number : List Char → Nat → Prop where
  | decimal {digits : List Char} : digits ≠ [] → (∀ d ∈ digits, d.isDigit = true) →
      Number ('#' :: digits) (codeOf 10 digits)
  | hexadecimal {x : Char} {digits : List Char} : x = 'x' ∨ x = 'X' → digits ≠ [] →
      (∀ d ∈ digits, isHexDigit d = true) →
      Number ('#' :: x :: digits) (codeOf 16 digits)

/-- A decimal number, as it stands in a reference, of so many digits that it is not read. -/
inductive TooLong : List Char → Nat → Prop where
  | mk {digits : List Char} : (∀ d ∈ digits, d.isDigit = true) →
      Text.digitLimit < digits.length → TooLong ('#' :: digits) digits.length

/-- What has the form of the body of a reference. -/
inductive IsBody : List Char → Prop where
  | name {letters : List Char} : letters ≠ [] → (∀ c ∈ letters, c.isAlpha = true) → IsBody letters
  | number {b : List Char} {n : Nat} : Number b n → IsBody b

/-- The body of a reference that is known: a name of the table, or the number of a code point that
    can be read. -/
inductive Known : List Char → Prop where
  | named {name : List Char} {c : Char} : (String.ofList name, c) ∈ named → Known name
  | number {b : List Char} {n : Nat} : Number b n → (∀ count, ¬ TooLong b count) → 1 ≤ n →
      n ≤ 0x10FFFF → Known b

/-- What stands after an ampersand makes it start a reference that is complete and known. -/
def StartsReference (s : List Char) : Prop := ∃ b tail, s = b ++ ';' :: tail ∧ Known b

/-- The fault of an ampersand that does not start a reference, by what stands after it. -/
inductive Refused : List Char → Fault → Prop where
  | empty {tail : List Char} : Refused (';' :: tail) (.malformed "&;")
  /-- The semicolon is lacking after the longest text that could be a body. -/
  | incomplete {b tail : List Char} : b = [] ∨ IsBody b →
      (∀ b', IsBody b' → b' <+: b ++ tail → b'.length ≤ b.length) →
      StartsWithout (· == ';') tail →
      Refused (b ++ tail) (.malformed (String.ofList ('&' :: b)))
  | unknown {name tail : List Char} : name ≠ [] → (∀ c ∈ name, c.isAlpha = true) →
      (∀ c, (String.ofList name, c) ∉ named) →
      Refused (name ++ ';' :: tail) (.unknown (String.ofList name))
  | invalidCharacter {b tail : List Char} {n : Nat} : Number b n → (∀ count, ¬ TooLong b count) →
      ¬ (1 ≤ n ∧ n ≤ 0x10FFFF) → Refused (b ++ ';' :: tail) (.invalidCharacter (String.ofList b))
  | tooManyDigits {b tail : List Char} {count : Nat} : TooLong b count →
      Refused (b ++ ';' :: tail) (.crash (.tooManyDigits count))

/-- No reference in the raw value is to the code point of a surrogate. -/
def WithoutSurrogates (raw : List Char) : Prop :=
  ∀ before b tail n, raw = before ++ '&' :: (b ++ ';' :: tail) → Number b n →
    ¬ (0xD800 ≤ n ∧ n ≤ 0xDFFF)

theorem WithoutSurrogates.of_not_mem {raw : List Char} (h : '#' ∉ raw) : WithoutSurrogates raw := by
  intro before b tail n hraw hb
  have hmem : '#' ∈ raw := by
    rw [hraw]
    cases hb with
    | decimal | hexadecimal => simp
  exact absurd hmem h

/-! ## Bodies -/

theorem TooLong.length_eq {digits : List Char} {count : Nat} (h : TooLong ('#' :: digits) count) :
    count = digits.length ∧ Text.digitLimit < digits.length := by
  cases h with
  | mk _ hlong => exact ⟨rfl, hlong⟩

/-- A number to the base sixteen is never too long. -/
theorem not_tooLong_hexadecimal {x : Char} {digits : List Char} (hx : x = 'x' ∨ x = 'X')
    (count : Nat) : ¬ TooLong ('#' :: x :: digits) count := by
  intro h
  cases h with
  | mk hdigits => exact not_x_of_isDigit (hdigits x List.mem_cons_self) hx

theorem Reference.known {b : List Char} {c : Char} (h : Reference b c) : Known b := by
  have hmax : c.toNat ≤ 0x10FFFF := toNat_le_maxCode c
  cases h with
  | named h => exact .named h
  | decimal hdigits hshort hvalue hne =>
      have hnumber := Number.decimal (ne_nil_of_codeOf hne hvalue) hdigits
      rw [hvalue] at hnumber
      exact .number hnumber (fun _ hlong => Nat.not_lt.2 hshort hlong.length_eq.2)
        (Nat.pos_of_ne_zero hne) hmax
  | hexadecimal hx hdigits hvalue hne =>
      have hnumber := Number.hexadecimal hx (ne_nil_of_codeOf hne hvalue) hdigits
      rw [hvalue] at hnumber
      exact .number hnumber (not_tooLong_hexadecimal hx) (Nat.pos_of_ne_zero hne) hmax

theorem Number.reference {b : List Char} {c : Char} (h : Number b c.toNat)
    (hshort : ∀ count, ¬ TooLong b count) (hne : c.toNat ≠ 0) : Reference b c := by
  generalize hn : c.toNat = n at h hne
  cases h with
  | decimal _ hdigits =>
      exact .decimal hdigits (Nat.not_lt.1 fun hlong => hshort _ (.mk hdigits hlong)) hn.symm
        (hn ▸ hne)
  | hexadecimal hx _ hdigits => exact .hexadecimal hx hdigits hn.symm (hn ▸ hne)

/-- A code point that is not that of a surrogate belongs to a character. -/
theorem exists_toNat {n : Nat} (hmax : n ≤ 0x10FFFF) (hs : ¬ (0xD800 ≤ n ∧ n ≤ 0xDFFF)) :
    ∃ c : Char, c.toNat = n := by
  have hvalid : n.isValidChar := by
    simp only [Nat.isValidChar]
    omega
  refine ⟨Char.ofNat n, ?_⟩
  rw [Char.ofNat, dif_pos hvalid]
  rfl

theorem Known.reference {b : List Char} (h : Known b)
    (hs : ∀ n, Number b n → ¬ (0xD800 ≤ n ∧ n ≤ 0xDFFF)) : ∃ c, Reference b c := by
  cases h with
  | named h => exact ⟨_, .named h⟩
  | number hnumber hshort hpos hmax =>
      obtain ⟨c, rfl⟩ := exists_toNat hmax (hs _ hnumber)
      exact ⟨c, hnumber.reference hshort (Nat.ne_of_gt hpos)⟩

theorem StartsReference.append {s : List Char} (h : StartsReference s) (rest : List Char) :
    StartsReference (s ++ rest) := by
  obtain ⟨b, tail, rfl, hb⟩ := h
  exact ⟨b, tail ++ rest, by simp, hb⟩

/-- A body is a name or a number. -/
theorem body_eq_nil_or_isBody (s : List Char) : body s = [] ∨ IsBody (body s) := by
  fun_cases body s with
  | case1 x rest hx _ =>
      refine .inr (.number (.hexadecimal hx.1 ?_ (mem_takeWhile rest)))
      simpa using hx.2
  | case2 | case3 => exact .inl rfl
  | case4 rest hdigits =>
      refine .inr (.number (.decimal ?_ (mem_takeWhile rest)))
      simpa using hdigits
  | case5 =>
      by_cases hletters : s.takeWhile Char.isAlpha = []
      · exact .inl hletters
      · exact .inr (.name hletters (mem_takeWhile s))

theorem IsBody.ne_nil {b : List Char} (h : IsBody b) : b ≠ [] := by
  cases h with
  | name hne => exact hne
  | number h =>
      cases h with
      | decimal | hexadecimal => exact List.cons_ne_nil _ _

/-- The longest run at the start of a text holds every other. -/
theorem length_le_takeWhile {p : Char → Bool} {s : List Char} (hs : ∀ c ∈ s, p c = true)
    (rest : List Char) : s.length ≤ ((s ++ rest).takeWhile p).length := by
  rw [List.takeWhile_append_of_pos hs, List.length_append]
  exact Nat.le_add_right ..

theorem takeWhile_append_ne_nil {p : Char → Bool} {s : List Char} (hs : ∀ c ∈ s, p c = true)
    (hne : s ≠ []) (rest : List Char) : (s ++ rest).takeWhile p ≠ [] := by
  rw [List.takeWhile_append_of_pos hs]
  exact List.append_ne_nil_of_left_ne_nil hne _

/-- The body is the longest there is. -/
theorem IsBody.length_le {b s : List Char} (h : IsBody b) (hstart : b <+: s) :
    b.length ≤ (body s).length := by
  obtain ⟨rest, rfl⟩ := hstart
  cases h with
  | name hne hletters =>
      obtain ⟨c, letters, rfl⟩ := List.exists_cons_of_ne_nil hne
      have hc : c ≠ '#' := by
        rintro rfl
        exact absurd (hletters _ List.mem_cons_self) (by decide)
      have hbody : body (c :: letters ++ rest) = (c :: letters ++ rest).takeWhile Char.isAlpha := by
        unfold body
        split
        · rename_i heq
          exact absurd (List.cons.inj heq).1 hc
        · rfl
      rw [hbody]
      exact length_le_takeWhile hletters rest
  | number h =>
      cases h with
      | @decimal digits hne hdigits =>
          have hle := length_le_takeWhile hdigits rest
          have hrun := takeWhile_append_ne_nil hdigits hne rest
          simpa [body, hrun] using hle
      | @hexadecimal x digits hx hne hdigits =>
          have hle := length_le_takeWhile hdigits rest
          have hrun := takeWhile_append_ne_nil hdigits hne rest
          have hdigit : x.isDigit = false := by rcases hx with rfl | rfl <;> decide
          simpa [body, hdigit, hx, hrun] using hle

/-! ## Refusals -/

theorem resolve_error_of_name {name : List Char} {fault : Fault}
    (hletters : ∀ c ∈ name, c.isAlpha = true) (h : Entity.resolve name = .error fault) :
    fault = .unknown (String.ofList name) ∧ ∀ c, (String.ofList name, c) ∉ named := by
  unfold Entity.resolve at h
  split at h
  · exact absurd (hletters _ List.mem_cons_self) (by decide)
  · split at h
    · cases h
    · rename_i hlookup
      cases h
      refine ⟨rfl, fun c hmem => ?_⟩
      have hne := List.lookup_eq_none_iff.1 hlookup _ hmem
      simp at hne

/-- A number is read, unless it is too long. -/
theorem Number.resolve_eq {b : List Char} {n : Nat} (h : Number b n) :
    (∃ count, TooLong b count ∧ Entity.resolve b = .error (.crash (.tooManyDigits count))) ∨
    (∀ count, ¬ TooLong b count) ∧ Entity.resolve b = character b n := by
  cases h with
  | @decimal digits hne hdigits =>
      have hread := readCode_decimal hne hdigits
      by_cases hlong : Text.digitLimit < digits.length
      · rw [if_pos hlong] at hread
        exact .inl ⟨_, .mk hdigits hlong, by rw [Entity.resolve, hread]; rfl⟩
      · rw [if_neg hlong] at hread
        exact .inr ⟨fun _ h => hlong h.length_eq.2, by rw [Entity.resolve, hread]; rfl⟩
  | hexadecimal hx _ hdigits =>
      refine .inr ⟨not_tooLong_hexadecimal hx, ?_⟩
      rw [Entity.resolve, readCode_hexadecimal hx hdigits]
      rfl

theorem character_error {b : List Char} {n : Nat} {fault : Fault}
    (hs : ¬ (0xD800 ≤ n ∧ n ≤ 0xDFFF)) (h : character b n = .error fault) :
    fault = .invalidCharacter (String.ofList b) ∧ ¬ (1 ≤ n ∧ n ≤ 0x10FFFF) := by
  by_cases hrange : 1 ≤ n ∧ n ≤ 0x10FFFF
  · obtain ⟨c, rfl⟩ := exists_toNat hrange.2 hs
    rw [character_toNat b (Nat.ne_of_gt hrange.1)] at h
    cases h
  · have hrefused : character b n = .error (.invalidCharacter (String.ofList b)) := if_pos hrange
    rw [hrefused] at h
    cases h
    exact ⟨rfl, hrange⟩

theorem refused_of_number {b tail : List Char} {n : Nat} {fault : Fault} (hb : Number b n)
    (hs : ¬ (0xD800 ≤ n ∧ n ≤ 0xDFFF)) (h : Entity.resolve b = .error fault) :
    Refused (b ++ ';' :: tail) fault := by
  rcases hb.resolve_eq with ⟨count, hlong, hresolve⟩ | ⟨hshort, hresolve⟩
  · rw [hresolve] at h
    cases h
    exact .tooManyDigits hlong
  · rw [hresolve] at h
    obtain ⟨rfl, hrange⟩ := character_error hs h
    exact .invalidCharacter hb hshort hrange

/-- The fault of a reference that cannot be read is told by the text after its ampersand. -/
theorem refused_of_reference {s : List Char} {fault : Fault}
    (hs : ∀ b tail n, s = b ++ ';' :: tail → Number b n → ¬ (0xD800 ≤ n ∧ n ≤ 0xDFFF))
    (h : reference s = .error fault) : Refused s fault := by
  have hsplit := body_append_drop s
  have hbody := body_eq_nil_or_isBody s
  have hlongest : ∀ b', IsBody b' → b' <+: s → b'.length ≤ (body s).length :=
    fun _ hb' => hb'.length_le
  simp only [Entity.reference] at h
  generalize body s = b at h hsplit hbody hlongest
  generalize s.drop b.length = rest at h hsplit
  subst hsplit
  split at h
  · rename_i hhead
    obtain ⟨tail, rfl⟩ := List.head?_eq_some_iff.1 hhead
    rcases hbody with rfl | hbody
    · cases h
      exact .empty
    · have hresolve : Entity.resolve b = .error fault := by
        rw [if_neg (by simp [hbody.ne_nil])] at h
        exact except_map_error h
      cases hbody with
      | name hne hletters =>
          obtain ⟨rfl, hunknown⟩ := resolve_error_of_name hletters hresolve
          exact .unknown hne hletters hunknown
      | number hnumber =>
          exact refused_of_number hnumber (hs _ _ _ rfl hnumber) hresolve
  · rename_i hhead
    cases h
    refine .incomplete hbody hlongest fun x hx => ?_
    simpa using fun heq : x = ';' => hhead (heq ▸ hx)

/-! ## The first refusal -/

/-- What comes before the refused ampersand is spelled. -/
theorem spells_of_decode_error {raw : List Char} {fault : Fault}
    (h : decode raw = .error fault) : ∃ before value rest, raw = before ++ '&' :: rest ∧
      Spells before value ∧ reference rest = .error fault := by
  suffices hfrom : ∀ skip raw, decodeFrom skip raw = .error fault →
      ∃ before value rest, raw.drop skip = before ++ '&' :: rest ∧ Spells before value ∧
        reference rest = .error fault from hfrom 0 raw h
  intro skip raw h
  fun_induction decodeFrom skip raw with
  | case1 => cases h
  | case2 skip c rest ih => exact ih h
  | case3 rest fault' href =>
      cases h
      exact ⟨[], [], rest, rfl, .nil, href⟩
  | case4 rest c taken href ih =>
      obtain ⟨b, tail, rfl, hb, rfl⟩ := reference_eq_ok href
      obtain ⟨before, value, r, htail, hvalue, hr⟩ := ih (except_map_error h)
      refine ⟨'&' :: (b ++ [';']) ++ before, c :: value, r, ?_, .cons (.reference hb) hvalue, hr⟩
      have hdrop : (b ++ [';'] ++ tail).drop (b.length + 1) = tail := List.drop_left' (by simp)
      rw [← List.singleton_append, ← List.append_assoc, hdrop] at htail
      simp [htail]
  | case5 c rest hc ih =>
      obtain ⟨before, value, r, htail, hvalue, hr⟩ := ih (except_map_error h)
      exact ⟨c :: before, c :: value, r, by simpa using htail, .cons (.literal hc) hvalue, hr⟩

theorem Reference.ampersand_notMem {b : List Char} {c : Char} (h : Reference b c) : '&' ∉ b := by
  cases h with
  | named h =>
      simp only [Entity.named, List.mem_cons, Prod.mk.injEq, List.not_mem_nil, or_false] at h
      rcases h with ⟨hb, -⟩ | ⟨hb, -⟩ | ⟨hb, -⟩ | ⟨hb, -⟩ | ⟨hb, -⟩ <;>
        (rw [← String.toList_ofList (l := b), hb]; decide)
  | decimal hdigits =>
      rintro (_ | ⟨_, hmem⟩)
      exact absurd (hdigits _ hmem) (by decide)
  | hexadecimal hx hdigits =>
      rintro (_ | ⟨_, _ | ⟨_, hmem⟩⟩)
      · exact absurd hx (by decide)
      · exact absurd (hdigits _ hmem) (by decide)

/-- Every ampersand of a spelled text starts a reference. -/
theorem Spells.startsReference {raw value : List Char} (h : Spells raw value)
    {before rest : List Char} (hraw : raw = before ++ '&' :: rest) : StartsReference rest := by
  induction h generalizing before with
  | nil => simp at hraw
  | @cons s raw value c hs _ ih =>
      cases hs with
      | literal hc =>
          cases before with
          | nil => exact absurd (List.cons.inj hraw).1 hc
          | cons d before => exact ih (List.cons.inj hraw).2
      | @reference b _ hb =>
          cases before with
          | nil =>
              have hrest := (List.cons.inj hraw).2
              exact ⟨b, raw, by simpa using hrest.symm, hb.known⟩
          | cons d before =>
              have hrest : (b ++ [';']) ++ raw = before ++ '&' :: rest := (List.cons.inj hraw).2
              rcases List.append_eq_append_iff.1 hrest with ⟨before', -, htail⟩ | ⟨more, hmore, hr⟩
              · exact ih htail
              · cases more with
                | nil =>
                    have htail : raw = [] ++ '&' :: rest := hr.symm
                    exact ih htail
                | cons e more =>
                    -- the ampersand would stand inside the reference
                    have hmem : '&' ∈ b ++ [';'] := by
                      rw [hmore, (List.cons.inj hr).1]
                      simp
                    simp [hb.ampersand_notMem] at hmem

/-- An ampersand that cannot be read does not start a reference. -/
theorem not_startsReference {s : List Char} {fault : Fault}
    (hs : ∀ b tail n, s = b ++ ';' :: tail → Number b n → ¬ (0xD800 ≤ n ∧ n ≤ 0xDFFF))
    (h : reference s = .error fault) : ¬ StartsReference s := by
  rintro ⟨b, tail, rfl, hb⟩
  obtain ⟨c, hc⟩ := hb.reference fun n => hs b tail n rfl
  rw [hc.reference_append] at h
  cases h

/-- The first ampersand at which decoding is refused: those before it start references, and the
    fault is that of what stands after it. -/
structure FirstRefused (raw : List Char) (fault : Fault) (before rest : List Char) : Prop where
  split : raw = before ++ '&' :: rest
  earlier : ∀ b r, before = b ++ '&' :: r → StartsReference (r ++ '&' :: rest)
  here : ¬ StartsReference rest
  fault : Refused rest fault

theorem firstRefused_of_decode {raw : List Char} {fault : Fault} (hs : WithoutSurrogates raw)
    (h : decode raw = .error fault) : ∃ before rest, FirstRefused raw fault before rest := by
  obtain ⟨before, value, rest, hraw, hvalue, href⟩ := spells_of_decode_error h
  have hrest : ∀ b tail n, rest = b ++ ';' :: tail → Number b n →
      ¬ (0xD800 ≤ n ∧ n ≤ 0xDFFF) := by
    rintro b tail n rfl
    exact hs before b tail n hraw
  exact ⟨before, rest, hraw, fun b r hb => (hvalue.startsReference hb).append _,
    not_startsReference hrest href, refused_of_reference hrest href⟩

/-- A raw value is decoded, in one pass from left to right, to the text that it spells. Decoding
    fails exactly if some ampersand does not start a reference, and the fault is that of the first
    such ampersand: a crash if a decimal number with too many digits stands there. -/
theorem decode_exact (raw : List Char) :
    (∀ value, decode raw = .ok value ↔ Spells raw value) ∧
    (∀ written c, Spelling written c → decode (written ++ raw) = (decode raw).map (c :: ·)) ∧
    (WithoutSurrogates raw →
      ((∃ fault, decode raw = .error fault) ↔
        ∃ before rest, raw = before ++ '&' :: rest ∧ ¬ StartsReference rest) ∧
      ∀ fault, decode raw = .error fault → ∃ before rest, FirstRefused raw fault before rest) := by
  refine ⟨fun value => decode_eq_ok, fun written c h => h.decode_append raw, fun hs => ⟨?_, ?_⟩⟩
  · constructor
    · rintro ⟨fault, hfault⟩
      obtain ⟨before, rest, h⟩ := firstRefused_of_decode hs hfault
      exact ⟨before, rest, h.split, h.here⟩
    · rintro ⟨before, rest, hraw, hrest⟩
      cases hdecode : decode raw with
      | error fault => exact ⟨fault, rfl⟩
      | ok value => exact absurd ((decode_eq_ok.1 hdecode).startsReference hraw) hrest
  · exact fun fault => firstRefused_of_decode hs

theorem decode_exact_unknownName : WithoutSurrogates "a&amp;&no;".toList ∧
    ∃ before rest, FirstRefused "a&amp;&no;".toList (.unknown "no") before rest := by
  have hs : WithoutSurrogates "a&amp;&no;".toList := .of_not_mem (by decide)
  exact ⟨hs, ((decode_exact _).2.2 hs).2 _ rfl⟩

/-! ## Zeros in front -/

theorem codeOf_zeros_append (base n : Nat) (s : List Char) :
    codeOf base (List.replicate n '0' ++ s) = codeOf base s := by
  induction n with
  | zero => rfl
  | succ n ih =>
      have hzero : hexDigits.idxOf '0'.toLower = 0 := by decide
      rw [List.replicate_succ, List.cons_append, codeOf, Text.positional, hzero, Nat.zero_mul,
        Nat.zero_add]
      exact ih

/-- Decoding crashes at a reference with too many digits. -/
theorem TooLong.decode_eq {b : List Char} {count : Nat} (h : TooLong b count) (tail : List Char) :
    decode ('&' :: (b ++ ';' :: tail)) = .error (.crash (.tooManyDigits count)) := by
  cases h with
  | @mk digits hdigits hlong =>
      have hne : digits ≠ [] := List.ne_nil_of_length_pos (Nat.zero_lt_of_lt hlong)
      have htake := takeWhile_semicolon (p := Char.isDigit) (by decide) hdigits tail
      have hbody : body ('#' :: (digits ++ ';' :: tail)) = '#' :: digits := by
        simp [body, htake, hne]
      have hread := readCode_decimal hne hdigits
      rw [if_pos hlong] at hread
      have hresolve : Entity.resolve ('#' :: digits)
          = .error (.crash (.tooManyDigits digits.length)) := by
        rw [Entity.resolve, hread]
        rfl
      have href : reference ('#' :: (digits ++ ';' :: tail))
          = .error (.crash (.tooManyDigits digits.length)) := by
        simp [reference, hbody, hresolve, Except.map]
      rw [List.cons_append, decode, decodeFrom, if_pos rfl, href]

/-- A reference to a character, in digits to the base ten with zeros in front, is decoded as long as
    it is read at all, and else crashes. -/
theorem decode_zeros {digits : List Char} {c : Char} (hdigits : ∀ d ∈ digits, d.isDigit = true)
    (hvalue : codeOf 10 digits = c.toNat) (hne : c.toNat ≠ 0) (zeros : Nat) :
    decode ('&' :: '#' :: (List.replicate zeros '0' ++ digits ++ [';']))
      = if Text.digitLimit < zeros + digits.length then
          .error (.crash (.tooManyDigits (zeros + digits.length)))
        else .ok [c] := by
  have hall : ∀ d ∈ List.replicate zeros '0' ++ digits, d.isDigit = true :=
    Text.isDigits_append.2 ⟨Text.isDigits_zeros zeros, hdigits⟩
  have hlength : (List.replicate zeros '0' ++ digits).length = zeros + digits.length := by simp
  by_cases hlong : Text.digitLimit < zeros + digits.length
  · rw [if_pos hlong, ← hlength]
    exact (TooLong.mk hall (by rwa [hlength])).decode_eq []
  · rw [if_neg hlong]
    have href : Reference ('#' :: (List.replicate zeros '0' ++ digits)) c :=
      .decimal hall (by rw [hlength]; exact Nat.not_lt.1 hlong)
        ((codeOf_zeros_append 10 zeros digits).trans hvalue) hne
    have hdecode := (Spells.cons (.reference href) .nil).decode
    rwa [List.append_nil] at hdecode

/-- A number of the letter A with 4300 zeros in front, which is not read. -/
theorem decode_zeros_tooMany :
    Number ('#' :: (List.replicate 4300 '0' ++ ['6', '5'])) 'A'.toNat ∧
    decode ('&' :: '#' :: (List.replicate 4300 '0' ++ ['6', '5'] ++ [';']))
      = .error (.crash (.tooManyDigits 4302)) := by
  have hdigits : ∀ d ∈ ['6', '5'], d.isDigit = true := List.all_eq_true.1 (by decide)
  have hvalue : codeOf 10 ['6', '5'] = 'A'.toNat := rfl
  have hall : ∀ d ∈ List.replicate 4300 '0' ++ ['6', '5'], d.isDigit = true :=
    Text.isDigits_append.2 ⟨Text.isDigits_zeros 4300, hdigits⟩
  constructor
  · have hne : List.replicate 4300 '0' ++ ['6', '5'] ≠ [] :=
      List.append_ne_nil_of_right_ne_nil _ (List.cons_ne_nil _ _)
    have hnumber := Number.decimal hne hall
    rwa [codeOf_zeros_append, hvalue] at hnumber
  · exact (decode_zeros hdigits hvalue (by decide) 4300).trans (if_pos (by decide))

/-- What comes out of a reference is not decoded again. -/
example : decode "&amp;lt;&#0060;".toList = .ok "&lt;<".toList := by rfl

end TagScript.Markup.Entity
