import TagScript.Proofs.Markup.Grammar

set_option autoImplicit false

/-! # Readers of names, comments and attributes

A cursor in the middle of a text is determined by what stands before it and what is left
(`Cursor.past`), and a move past a piece of the text shifts that piece from one to the other. In
these terms each reader finds exactly what the grammar allows: it finds a piece if and only if the
rest starts with one, and gives back the cursor past it. -/

namespace TagScript.Markup

/-! ## Cursors -/

namespace Cursor

/-- The cursor past `before`, where `rest` is left. -/
def past (before rest : List Char) : Cursor := (start (before ++ rest)).advance before.length

theorem advance_add (m n : Nat) (c : Cursor) : c.advance (m + n) = (c.advance m).advance n := by
  induction m generalizing c with
  | zero => rw [Nat.zero_add]; rfl
  | succ m ih =>
      rw [Nat.succ_add]
      exact ih c.next

theorem start_eq_past (text : List Char) : start text = past [] text := rfl

@[simp] theorem rest_past (before rest : List Char) : (past before rest).rest = rest := by
  simp [past, start]

/-- The piece that a cursor moves past is left no more. -/
theorem advance_past (before s rest : List Char) :
    (past before (s ++ rest)).advance s.length = past (before ++ s) rest := by
  unfold past
  rw [← advance_add, ← List.length_append, List.append_assoc]

theorem span_past (file : String) (before s rest : List Char) :
    span file (past before (s ++ rest)) (past (before ++ s) rest) = spanAfter file before s := by
  have hline : ∀ b r, (past b r).line = Text.lineAt b b.length := by
    intro b r
    unfold past
    simp [line_advance_start, Text.lineAt]
  have hcolumn : ∀ b r, (past b r).column = Text.columnAt b b.length := by
    intro b r
    unfold past
    rw [column_advance_start _ _ (by simp)]
    simp [Text.columnAt, Text.lineStart]
  simp only [span, spanAfter, hline, hcolumn]

theorem skipWhile_past (p : Char → Bool) (before rest : List Char) :
    (past before rest).skipWhile p
      = past (before ++ rest.takeWhile p) (rest.dropWhile p) := by
  have hsplit : rest.takeWhile p ++ rest.dropWhile p = rest := List.takeWhile_append_dropWhile
  unfold skipWhile
  rw [rest_past]
  -- only the text under the cursor is cut in two; the run is still that of the whole text
  conv => lhs; rw [← hsplit]
  rw [hsplit, ← advance_past before _ (rest.dropWhile p), hsplit]

/-- The cursor past a character and the run of class `p` that follows it. -/
theorem advance_run_past (p : Char → Bool) (before : List Char) (x : Char) (tail : List Char) :
    (past before (x :: tail)).advance (tail.takeWhile p).length.succ
      = past (before ++ (x :: tail.takeWhile p)) (tail.dropWhile p) := by
  rw [← advance_past, List.cons_append, List.takeWhile_append_dropWhile]
  rfl

theorem after?_past {expected before rest : List Char} {c : Cursor} :
    (past before rest).after? expected = some c
      ↔ ∃ r, rest = expected ++ r ∧ c = past (before ++ expected) r := by
  unfold after?
  rw [rest_past]
  constructor
  · intro h
    split at h
    · rename_i hprefix
      obtain ⟨r, rfl⟩ := List.isPrefixOf_iff_prefix.1 hprefix
      rw [advance_past] at h
      exact ⟨r, rfl, (Option.some.inj h).symm⟩
    · cases h
  · rintro ⟨r, rfl, rfl⟩
    rw [if_pos (List.isPrefixOf_iff_prefix.2 (List.prefix_append expected r)), advance_past]

theorem after?_past_append (expected before rest : List Char) :
    (past before (expected ++ rest)).after? expected = some (past (before ++ expected) rest) :=
  after?_past.2 ⟨rest, rfl, rfl⟩

theorem after?_past_eq_none {expected before rest : List Char} (h : ¬ expected <+: rest) :
    (past before rest).after? expected = none := by
  unfold after?
  rw [rest_past, if_neg]
  exact fun hp => h (List.isPrefixOf_iff_prefix.1 hp)

end Cursor

open Cursor (past)

/-! ## Layout -/

theorem StartsWithout.cons {p : Char → Bool} {x : Char} (hx : p x = false) (rest : List Char) :
    StartsWithout p (x :: rest) := by
  rintro y ⟨⟩
  exact hx

theorem StartsWithout.nil {p : Char → Bool} : StartsWithout p [] := by
  rintro y ⟨⟩

theorem StartsWithout.append_iff {p : Char → Bool} {s : List Char} (hne : s ≠ [])
    (t : List Char) : StartsWithout p (s ++ t) ↔ StartsWithout p s := by
  cases s with
  | nil => exact absurd rfl hne
  | cons x s => exact ⟨fun h => .cons (h x rfl) s, fun h => .cons (h x rfl) (s ++ t)⟩

theorem takeWhile_append_of_without {p : Char → Bool} {s rest : List Char}
    (hs : ∀ c ∈ s, p c = true) (hrest : StartsWithout p rest) :
    (s ++ rest).takeWhile p = s ∧ (s ++ rest).dropWhile p = rest := by
  rw [List.takeWhile_append_of_pos hs, List.dropWhile_append_of_pos hs]
  cases rest with
  | nil => exact ⟨List.append_nil s, rfl⟩
  | cons x rest =>
      have hx : p x = false := hrest x rfl
      simp [hx]

theorem startsWithout_dropWhile (p : Char → Bool) (s : List Char) :
    StartsWithout p (s.dropWhile p) := by
  intro x hx
  have h := List.head?_dropWhile_not p s
  rw [Option.mem_def.1 hx] at h
  exact h

theorem IsLayout.nil : IsLayout [] := fun _ hc => by cases hc

/-- The layout at a cursor, and what follows it. -/
theorem exists_layout (rest : List Char) :
    ∃ gap r, rest = gap ++ r ∧ IsLayout gap ∧ StartsWithout Text.isLayout r ∧
      ∀ before, (past before rest).skipLayout = past (before ++ gap) r :=
  ⟨rest.takeWhile Text.isLayout, rest.dropWhile Text.isLayout,
    List.takeWhile_append_dropWhile.symm, List.all_eq_true.1 List.all_takeWhile,
    startsWithout_dropWhile _ _, fun _ => Cursor.skipWhile_past _ _ _⟩

theorem skipLayout_past {gap rest : List Char} (before : List Char) (hgap : IsLayout gap)
    (hrest : StartsWithout Text.isLayout rest) :
    (past before (gap ++ rest)).skipLayout = past (before ++ gap) rest := by
  obtain ⟨htake, hdrop⟩ := takeWhile_append_of_without hgap hrest
  unfold Cursor.skipLayout
  rw [Cursor.skipWhile_past, htake, hdrop]

/-! ## Names -/

theorem isNameStart_ne {x : Char} (h : isNameStart x = true) :
    Text.isLayout x = false ∧ x ≠ '/' ∧ x ≠ '!' ∧ x ≠ '?' ∧ x ≠ '>' := by
  refine ⟨?_, ?_, ?_, ?_, ?_⟩
  · rw [← Bool.not_eq_true]
    intro hl
    simp only [Text.isLayout, Bool.or_eq_true, beq_iff_eq] at hl
    rcases hl with ((rfl | rfl) | rfl) | rfl <;> exact absurd h (by decide)
  all_goals
    rintro rfl
    exact absurd h (by decide)

theorem IsName.startsWithout_layout {name : List Char} (h : IsName name) (rest : List Char) :
    StartsWithout Text.isLayout (name ++ rest) := by
  cases name with
  | nil => cases h
  | cons x name => exact .cons (isNameStart_ne h.1).1 _

theorem not_isNameRest_of_isLayout {x : Char} (h : Text.isLayout x = true) :
    isNameRest x = false := by
  simp only [Text.isLayout, Bool.or_eq_true, beq_iff_eq] at h
  rcases h with ((rfl | rfl) | rfl) | rfl <;> decide

theorem IsLayout.startsWithout_nameRest {gap rest : List Char} (h : IsLayout gap)
    (hrest : StartsWithout isNameRest rest) : StartsWithout isNameRest (gap ++ rest) := by
  cases gap with
  | nil => exact hrest
  | cons x gap => exact .cons (not_isNameRest_of_isLayout (h x (.head gap))) _

/-- The name at a cursor is as long as it can be. -/
theorem name?_past {before rest name : List Char} {c : Cursor} :
    name? (past before rest) = some (name, c)
      ↔ ∃ r, rest = name ++ r ∧ IsName name ∧ StartsWithout isNameRest r ∧
          c = past (before ++ name) r := by
  unfold name?
  rw [Cursor.rest_past]
  constructor
  · intro h
    split at h
    · cases h
    · rename_i x tail
      split at h
      · rename_i hx
        cases h
        refine ⟨tail.dropWhile isNameRest, ?_, ⟨hx, List.all_eq_true.1 List.all_takeWhile⟩,
          startsWithout_dropWhile _ _, Cursor.advance_run_past _ _ _ _⟩
        rw [List.cons_append, List.takeWhile_append_dropWhile]
      · cases h
  · rintro ⟨r, rfl, hname, hr, rfl⟩
    cases name with
    | nil => cases hname
    | cons x tail =>
        obtain ⟨htake, hdrop⟩ := takeWhile_append_of_without hname.2 hr
        have hmove := Cursor.advance_run_past isNameRest before x (tail ++ r)
        rw [htake, hdrop] at hmove
        simp [hname.1, htake, hmove]

theorem name?_past_eq_none {before rest : List Char} (h : StartsWithout isNameStart rest) :
    name? (past before rest) = none := by
  unfold name?
  rw [Cursor.rest_past]
  cases rest with
  | nil => rfl
  | cons x rest => simp [h x rfl]

/-! ## Terminators -/

theorem indexOf?_eq_some {terminator s : List Char} {n : Nat}
    (h : Text.indexOf? terminator s = some n) :
    ∃ body r, s = body ++ terminator ++ r ∧ body.length = n ∧ EndsAtFirst terminator body := by
  induction s generalizing n with
  | nil =>
      unfold Text.indexOf? at h
      split at h
      · rename_i hempty
        cases h
        rw [List.isEmpty_iff.1 hempty]
        exact ⟨[], [], rfl, rfl, fun u v huv => (List.append_eq_nil_iff.1 huv.symm).2⟩
      · cases h
  | cons c rest ih =>
      unfold Text.indexOf? at h
      split at h
      · rename_i hprefix
        cases h
        obtain ⟨r, hr⟩ := List.isPrefixOf_iff_prefix.1 hprefix
        refine ⟨[], r, hr.symm, rfl, fun u v huv => ?_⟩
        have hlen := congrArg List.length huv
        simp only [List.nil_append, List.length_append] at hlen
        exact List.eq_nil_of_length_eq_zero (by omega)
      · rename_i hprefix
        obtain ⟨k, hk, rfl⟩ := Option.map_eq_some_iff.1 h
        obtain ⟨body, r, rfl, rfl, hfirst⟩ := ih hk
        refine ⟨c :: body, r, rfl, rfl, fun u v huv => ?_⟩
        cases u with
        | nil =>
            -- the terminator would stand right at the start
            refine absurd (List.isPrefixOf_iff_prefix.2 ⟨v ++ r, ?_⟩) hprefix
            rw [← List.append_assoc, ← List.nil_append terminator, ← huv]
            rfl
        | cons d u =>
            rw [List.cons_append, List.cons_append, List.cons_append] at huv
            exact hfirst u v (List.cons.inj huv).2

theorem indexOf?_append {terminator body : List Char} (hne : terminator ≠ [])
    (h : EndsAtFirst terminator body) (r : List Char) :
    Text.indexOf? terminator (body ++ terminator ++ r) = some body.length := by
  induction body with
  | nil =>
      cases terminator with
      | nil => exact absurd rfl hne
      | cons t ts => exact if_pos (List.isPrefixOf_iff_prefix.2 (List.prefix_append (t :: ts) r))
  | cons c body ih =>
      have hnot : ¬ terminator.isPrefixOf (c :: (body ++ terminator ++ r)) = true := by
        intro hprefix
        -- a terminator at the start ends before the one at the end
        have hshort : terminator <+: c :: body ++ terminator := by
          refine List.prefix_of_prefix_length_le (List.isPrefixOf_iff_prefix.1 hprefix)
            ⟨r, rfl⟩ ?_
          rw [List.length_append]
          omega
        obtain ⟨v, hv⟩ := hshort
        have hnil := h [] v hv.symm
        subst hnil
        have hlen := congrArg List.length hv
        simp only [List.length_append, List.length_cons, List.length_nil] at hlen
        omega
      have hrest : EndsAtFirst terminator body := fun u v huv =>
        h (c :: u) v (congrArg (c :: ·) huv)
      show Text.indexOf? terminator (c :: (body ++ terminator ++ r)) = _
      unfold Text.indexOf?
      rw [if_neg hnot, ih hrest]
      rfl

/-- The cursor after the first terminator. -/
theorem afterFirst?_past {terminator before rest : List Char} (hne : terminator ≠ [])
    {c : Cursor} :
    (past before rest).afterFirst? terminator = some c
      ↔ ∃ body r, rest = body ++ terminator ++ r ∧ EndsAtFirst terminator body ∧
          c = past (before ++ (body ++ terminator)) r := by
  unfold Cursor.afterFirst?
  rw [Cursor.rest_past]
  constructor
  · intro h
    obtain ⟨n, hn, rfl⟩ := Option.map_eq_some_iff.1 h
    obtain ⟨body, r, rfl, rfl, hfirst⟩ := indexOf?_eq_some hn
    refine ⟨body, r, rfl, hfirst, ?_⟩
    rw [← List.length_append, Cursor.advance_past]
  · rintro ⟨body, r, rfl, hfirst, rfl⟩
    rw [indexOf?_append hne hfirst, Option.map_some, ← List.length_append, Cursor.advance_past]

/-! ## Comments, declarations and doctypes -/

section Delimited

variable {opening terminator before : List Char}

/-- A piece between an opening and the first terminator after it, with the layout before it. -/
theorem delimited_past {x : Char} (hx : Text.isLayout x = false) (hne : terminator ≠ [])
    {rest : List Char} {c : Cursor} :
    ((past before rest).skipLayout.after? (x :: opening)).bind (·.afterFirst? terminator) = some c
      ↔ ∃ gap body r, rest = gap ++ (x :: opening ++ body ++ terminator) ++ r ∧ IsLayout gap ∧
          EndsAtFirst terminator body ∧
          c = past (before ++ gap ++ (x :: opening ++ body ++ terminator)) r := by
  constructor
  · intro h
    obtain ⟨gap, r, rfl, hgap, _, hskip⟩ := exists_layout rest
    rw [hskip] at h
    obtain ⟨d, hd, hc⟩ := Option.bind_eq_some_iff.1 h
    obtain ⟨r, rfl, rfl⟩ := Cursor.after?_past.1 hd
    obtain ⟨body, r, rfl, hfirst, rfl⟩ := (afterFirst?_past hne).1 hc
    exact ⟨gap, body, r, by simp, hgap, hfirst, by simp⟩
  · rintro ⟨gap, body, r, rfl, hgap, hfirst, rfl⟩
    have hsplit : gap ++ (x :: opening ++ body ++ terminator) ++ r
        = gap ++ (x :: opening ++ (body ++ terminator ++ r)) := by simp
    have hlayout : StartsWithout Text.isLayout (x :: opening ++ (body ++ terminator ++ r)) :=
      .cons hx _
    rw [hsplit, skipLayout_past before hgap hlayout, Cursor.after?_past_append, Option.bind_some,
      (afterFirst?_past hne).2 ⟨body, r, rfl, hfirst, rfl⟩]
    simp

theorem delimited_eq_none {gap rest : List Char} (hgap : IsLayout gap)
    (hrest : StartsWithout Text.isLayout rest) (h : ¬ opening <+: rest) :
    ((past before (gap ++ rest)).skipLayout.after? opening).bind (·.afterFirst? terminator)
      = none := by
  rw [skipLayout_past before hgap hrest, Cursor.after?_past_eq_none h]
  rfl

end Delimited

theorem comment?_past {before rest : List Char} {c : Cursor} :
    comment? (past before rest) = some c
      ↔ ∃ gap s r, rest = gap ++ s ++ r ∧ IsLayout gap ∧ Comment s ∧
          c = past (before ++ gap ++ s) r := by
  constructor
  · intro h
    obtain ⟨gap, body, r, hrest, hgap, hfirst, hc⟩ :=
      (delimited_past (by decide) (by decide)).1 h
    exact ⟨gap, _, r, hrest, hgap, .mk hfirst, hc⟩
  · rintro ⟨gap, s, r, hrest, hgap, hs, hc⟩
    cases hs with
    | mk hfirst =>
        exact (delimited_past (by decide) (by decide)).2 ⟨gap, _, r, hrest, hgap, hfirst, hc⟩

theorem comment?_eq_none {before gap rest : List Char} (hgap : IsLayout gap)
    (hrest : StartsWithout Text.isLayout rest) (h : ¬ ['<', '!', '-', '-'] <+: rest) :
    comment? (past before (gap ++ rest)) = none :=
  delimited_eq_none hgap hrest h

/-- Only a capital letter becomes another character in lower case, and never one before `a`. -/
theorem eq_of_toLower_eq {c d : Char} (h : c.toLower = d) (hd : d < 'a') : c = d := by
  unfold Char.toLower at h
  split at h
  · rename_i hc
    subst h
    exfalso
    simp [Char.lt_def, UInt32.lt_iff_toNat_lt, UInt32.le_iff_toNat_le, UInt32.toNat_add] at hc hd
    omega
  · exact h

/-- The keyword of a doctype starts neither a comment nor a declaration. -/
theorem doctype_keyword {keyword : List Char}
    (h : lowerCase keyword = ['<', '!', 'd', 'o', 'c', 't', 'y', 'p', 'e']) :
    ∃ c tail, keyword = '<' :: '!' :: c :: tail ∧ c ≠ '-' ∧ keyword.length = 9 := by
  have hlength : keyword.length = 9 := by
    have hmap := congrArg List.length h
    simpa [lowerCase] using hmap
  match keyword, h, hlength with
  | a :: b :: c :: tail, h, hlength =>
      simp only [lowerCase, List.map_cons, List.cons.injEq] at h
      obtain ⟨ha, hb, hc, _⟩ := h
      cases eq_of_toLower_eq ha (by decide)
      cases eq_of_toLower_eq hb (by decide)
      refine ⟨c, tail, rfl, ?_, hlength⟩
      rintro rfl
      exact absurd hc (by decide)

theorem doctype?_past {before rest : List Char} {c : Cursor}
    (h : doctype? (past before rest) = some c) :
    ∃ gap s r, rest = gap ++ s ++ r ∧ IsLayout gap ∧ Misc s ∧
      c = past (before ++ gap ++ s) r := by
  obtain ⟨gap, r, rfl, hgap, _, hskip⟩ := exists_layout rest
  unfold doctype? at h
  simp only [hskip, Cursor.rest_past] at h
  split at h
  · rename_i hkeyword
    obtain ⟨_, _, _, _, hlength⟩ := doctype_keyword hkeyword
    obtain ⟨keyword, tail, rfl, hnine⟩ : ∃ keyword tail, r = keyword ++ tail ∧
        keyword.length = 9 := ⟨_, _, (List.take_append_drop 9 r).symm, hlength⟩
    have hmove := Cursor.advance_past (before ++ gap) keyword tail
    rw [hnine] at hmove
    rw [show List.length ['<', '!', 'd', 'o', 'c', 't', 'y', 'p', 'e'] = 9 from rfl, hmove] at h
    rw [show List.length ['<', '!', 'd', 'o', 'c', 't', 'y', 'p', 'e'] = keyword.length from
      hnine.symm, List.take_left] at hkeyword
    obtain ⟨body, r, rfl, hfirst, rfl⟩ := (afterFirst?_past (by decide)).1 h
    exact ⟨gap, _, r, by simp, hgap, .doctype hkeyword hfirst, by simp⟩
  · cases h

theorem doctype?_past_append {before gap keyword body : List Char} (hgap : IsLayout gap)
    (hkeyword : lowerCase keyword = ['<', '!', 'd', 'o', 'c', 't', 'y', 'p', 'e'])
    (hfirst : EndsAtFirst ['>'] body) (r : List Char) :
    doctype? (past before (gap ++ (keyword ++ body ++ ['>']) ++ r))
      = some (past (before ++ gap ++ (keyword ++ body ++ ['>'])) r) := by
  obtain ⟨d, tail, hstart, _, hnine⟩ := doctype_keyword hkeyword
  have hsplit : gap ++ (keyword ++ body ++ ['>']) ++ r
      = gap ++ (keyword ++ (body ++ ['>'] ++ r)) := by simp
  have hlayout : StartsWithout Text.isLayout (keyword ++ (body ++ ['>'] ++ r)) := by
    rw [hstart]
    exact .cons (by decide) _
  unfold doctype?
  simp only [hsplit, skipLayout_past before hgap hlayout, Cursor.rest_past]
  rw [if_pos, ← hkeyword, lowerCase, List.length_map, Cursor.advance_past,
    (afterFirst?_past (by decide)).2 ⟨body, r, rfl, hfirst, rfl⟩]
  · simp
  · rw [show List.length ['<', '!', 'd', 'o', 'c', 't', 'y', 'p', 'e'] = keyword.length from
      hnine.symm, List.take_left]
    exact hkeyword

/-- A comment, a declaration and a doctype start differently, so that the order in which the reader
    looks for them does not matter. -/
theorem misc?_past {before rest : List Char} {c : Cursor} :
    misc? (past before rest) = some c
      ↔ ∃ gap s r, rest = gap ++ s ++ r ∧ IsLayout gap ∧ Misc s ∧
          c = past (before ++ gap ++ s) r := by
  unfold misc?
  constructor
  · intro h
    rcases Option.or_eq_some_iff.1 h with h | ⟨_, h⟩
    · obtain ⟨gap, s, r, hrest, hgap, hs, hc⟩ := comment?_past.1 h
      exact ⟨gap, s, r, hrest, hgap, .comment hs, hc⟩
    · rcases Option.or_eq_some_iff.1 h with h | ⟨_, h⟩
      · obtain ⟨gap, body, r, hrest, hgap, hfirst, hc⟩ :=
          (delimited_past (by decide) (by decide)).1 h
        exact ⟨gap, _, r, hrest, hgap, .declaration hfirst, hc⟩
      · exact doctype?_past h
  · rintro ⟨gap, s, r, rfl, hgap, hs, rfl⟩
    cases hs with
    | comment hs =>
        rw [comment?_past.2 ⟨gap, s, r, rfl, hgap, hs, rfl⟩]
        rfl
    | @declaration body hfirst =>
        have hcomment : comment? (past before (gap ++ (['<', '?'] ++ body ++ ['?', '>']) ++ r))
            = none := by
          rw [List.append_assoc]
          exact comment?_eq_none hgap (.cons (by decide) _) (by simp)
        rw [hcomment, Option.none_or]
        rw [declaration?, (delimited_past (by decide) (by decide)).2
          ⟨gap, _, r, rfl, hgap, hfirst, rfl⟩]
        rfl
    | @doctype keyword body hkeyword hfirst =>
        obtain ⟨d, tail, hstart, hd, _⟩ := doctype_keyword hkeyword
        have hcomment : comment? (past before (gap ++ (keyword ++ body ++ ['>']) ++ r)) = none := by
          rw [hstart, List.append_assoc]
          refine comment?_eq_none hgap (.cons (by decide) _) ?_
          simp [Ne.symm hd]
        have hdeclaration :
            declaration? (past before (gap ++ (keyword ++ body ++ ['>']) ++ r)) = none := by
          rw [hstart, List.append_assoc]
          exact delimited_eq_none hgap (.cons (by decide) _) (by simp)
        rw [hcomment, hdeclaration, Option.none_or, Option.none_or]
        exact doctype?_past_append hgap hkeyword hfirst r

theorem misc?_eq_none {before gap rest : List Char} (hgap : IsLayout gap)
    (hrest : StartsWithout Text.isLayout rest) (hmark : ¬ ['<', '!'] <+: rest)
    (hquery : ¬ ['<', '?'] <+: rest) : misc? (past before (gap ++ rest)) = none := by
  have hcomment : comment? (past before (gap ++ rest)) = none := by
    refine comment?_eq_none hgap hrest fun hprefix => hmark ?_
    exact (List.prefix_append ['<', '!'] ['-', '-']).trans hprefix
  have hdoctype : doctype? (past before (gap ++ rest)) = none := by
    unfold doctype?
    simp only [skipLayout_past before hgap hrest, Cursor.rest_past]
    rw [if_neg]
    intro hkeyword
    obtain ⟨d, tail, hstart, _, _⟩ := doctype_keyword hkeyword
    have htake : ['<', '!'] <+: rest.take 9 := ⟨d :: tail, hstart.symm⟩
    exact hmark (htake.trans (List.take_prefix 9 rest))
  unfold misc?
  rw [hcomment, hdoctype, declaration?, delimited_eq_none hgap hrest hquery]
  rfl

/-! ## Attributes -/

theorem quotedText?_past {before rest raw : List Char} {c : Cursor} :
    quotedText? (past before rest) = some (raw, c)
      ↔ ∃ quote r, (quote = Text.doubleQuote ∨ quote = Text.singleQuote) ∧
          rest = [quote] ++ raw ++ [quote] ++ r ∧ (∀ x ∈ raw, x ≠ quote ∧ x ≠ '<') ∧
          c = past (before ++ ([quote] ++ raw ++ [quote])) r := by
  unfold quotedText?
  rw [Cursor.rest_past]
  constructor
  · intro h
    split at h
    · cases h
    · rename_i quote tail
      split at h
      · rename_i hquote
        obtain ⟨d, hd, hpair⟩ := Option.map_eq_some_iff.1 h
        cases hpair
        rw [Cursor.advance_run_past] at hd
        obtain ⟨r, hr, rfl⟩ := Cursor.after?_past.1 hd
        refine ⟨quote, r, hquote, ?_, ?_, by simp⟩
        · rw [List.append_assoc, ← hr, List.append_assoc, List.takeWhile_append_dropWhile]
          rfl
        · intro x hx
          exact of_decide_eq_true (List.all_eq_true.1 List.all_takeWhile x hx)
      · cases h
  · rintro ⟨quote, r, hquote, rfl, hraw, rfl⟩
    have hend : StartsWithout (fun x => decide (x ≠ quote ∧ x ≠ '<')) ([quote] ++ r) :=
      .cons (by simp) _
    obtain ⟨htake, hdrop⟩ :=
      takeWhile_append_of_without (fun x hx => decide_eq_true (hraw x hx)) hend
    have hmove := Cursor.advance_run_past (fun x => decide (x ≠ quote ∧ x ≠ '<')) before quote
      (raw ++ ([quote] ++ r))
    rw [htake, hdrop] at hmove
    have hsplit : [quote] ++ raw ++ [quote] ++ r = quote :: (raw ++ ([quote] ++ r)) := by simp
    simp only [hsplit, hquote, if_true, htake, hmove, Cursor.after?_past_append, Option.map_some,
      Option.some.injEq, Prod.mk.injEq, true_and]
    rw [List.append_assoc]
    rfl

/-- An attribute as it is written is an attribute of the grammar once its value is decoded. -/
theorem rawAttribute?_past {before rest : List Char} {a : RawAttribute}
    (h : rawAttribute? (past before rest) = some a) :
    ∃ s r, rest = s ++ r ∧ a.rest = past (before ++ s) r ∧
      ∀ value, Entity.decode a.raw = .ok value →
        Attribute s (String.ofList a.name, String.ofList value) := by
  unfold rawAttribute? at h
  obtain ⟨gap, rest, rfl, hgap, _, hskip⟩ := exists_layout rest
  rw [hskip] at h
  obtain ⟨⟨name, c⟩, hread, h⟩ := Option.bind_eq_some_iff.1 h
  obtain ⟨rest, rfl, hname, _, rfl⟩ := name?_past.1 hread
  obtain ⟨left, rest, rfl, hleft, _, hskip⟩ := exists_layout rest
  simp only [hskip] at h
  obtain ⟨c, heq, h⟩ := Option.bind_eq_some_iff.1 h
  obtain ⟨rest, rfl, rfl⟩ := Cursor.after?_past.1 heq
  obtain ⟨right, rest, rfl, hright, _, hskip⟩ := exists_layout rest
  simp only [hskip] at h
  obtain ⟨⟨raw, c⟩, hquoted, h⟩ := Option.bind_eq_some_iff.1 h
  obtain ⟨quote, r, hquote, rfl, hraw, rfl⟩ := quotedText?_past.1 hquoted
  cases h
  refine ⟨gap ++ name ++ left ++ ['='] ++ right ++ [quote] ++ raw ++ [quote], r, by simp,
    by simp, fun value hvalue => ?_⟩
  exact .mk hgap hname hleft hright hquote hraw hvalue

theorem rawAttribute?_past_append {gap name left right raw : List Char} {quote : Char}
    (hgap : IsLayout gap) (hname : IsName name) (hleft : IsLayout left) (hright : IsLayout right)
    (hquote : quote = Text.doubleQuote ∨ quote = Text.singleQuote)
    (hraw : ∀ c ∈ raw, c ≠ quote ∧ c ≠ '<') (before r : List Char) :
    ∃ written, rawAttribute? (past before
        (gap ++ name ++ left ++ ['='] ++ right ++ [quote] ++ raw ++ [quote] ++ r)) = some written ∧
      written.name = name ∧ written.raw = raw ∧
      written.rest = past
        (before ++ (gap ++ name ++ left ++ ['='] ++ right ++ [quote] ++ raw ++ [quote])) r := by
  have hquoteLayout : Text.isLayout quote = false := by
    rcases hquote with rfl | rfl <;> decide
  let afterRight := [quote] ++ raw ++ [quote] ++ r
  let afterName := left ++ (['='] ++ (right ++ afterRight))
  have hsplit : gap ++ name ++ left ++ ['='] ++ right ++ [quote] ++ raw ++ [quote] ++ r
      = gap ++ (name ++ afterName) := by simp [afterName, afterRight]
  have hskip := skipLayout_past before hgap (hname.startsWithout_layout afterName)
  have hnameRead : name? (past (before ++ gap) (name ++ afterName))
      = some (name, past (before ++ gap ++ name) afterName) :=
    name?_past.2 ⟨afterName, rfl, hname,
      hleft.startsWithout_nameRest (.cons (by decide) _), rfl⟩
  have hleftSkip : (past (before ++ gap ++ name) afterName).skipLayout = _ :=
    skipLayout_past (before ++ gap ++ name) hleft (.cons (by decide) _)
  have heq := Cursor.after?_past_append ['='] (before ++ gap ++ name ++ left)
    (right ++ afterRight)
  have hrightSkip :
      (past (before ++ gap ++ name ++ left ++ ['=']) (right ++ afterRight)).skipLayout
        = past (before ++ gap ++ name ++ left ++ ['='] ++ right) afterRight :=
    skipLayout_past _ hright (.cons hquoteLayout _)
  have hquoted : quotedText? (past (before ++ gap ++ name ++ left ++ ['='] ++ right) afterRight)
      = some (raw, past (before ++ gap ++ name ++ left ++ ['='] ++ right
          ++ ([quote] ++ raw ++ [quote])) r) :=
    quotedText?_past.2 ⟨quote, r, hquote, rfl, hraw, rfl⟩
  refine ⟨⟨name, raw, past (before ++ gap ++ name ++ left ++ ['='] ++ right) afterRight,
    past (before ++ gap ++ name ++ left ++ ['='] ++ right ++ ([quote] ++ raw ++ [quote])) r⟩,
    ?_, rfl, rfl, by simp⟩
  rw [hsplit]
  unfold Markup.rawAttribute?
  simp only [hskip, hnameRead, hleftSkip, heq, hrightSkip, hquoted, Option.bind_eq_bind,
    Option.bind_some, Option.pure_def]

theorem Attribute.rawAttribute? {s : List Char} {a : String × String} (h : Attribute s a)
    (before r : List Char) :
    ∃ written, Markup.rawAttribute? (past before (s ++ r)) = some written ∧
      written.rest = past (before ++ s) r ∧
      ∃ value, Entity.decode written.raw = .ok value ∧
        a = (String.ofList written.name, String.ofList value) := by
  cases h with
  | @mk gap name left right raw value quote hgap hname hleft hright hquote hraw hvalue =>
      obtain ⟨written, hread, rfl, rfl, hrest⟩ :=
        rawAttribute?_past_append hgap hname hleft hright hquote hraw before r
      exact ⟨written, hread, hrest, value, hvalue, rfl⟩

theorem Attribute.length_pos {s : List Char} {a : String × String} (h : Attribute s a) :
    0 < s.length := by
  cases h
  simp only [List.length_append, List.length_singleton]
  omega

theorem rawAttribute?_eq_none {before gap rest : List Char} (hgap : IsLayout gap)
    (hlayout : StartsWithout Text.isLayout rest) (hname : StartsWithout isNameStart rest) :
    rawAttribute? (past before (gap ++ rest)) = none := by
  unfold rawAttribute?
  rw [skipLayout_past before hgap hlayout, name?_past_eq_none hname]
  rfl

theorem attributes_past {fuel : Nat} {before rest : List Char} {as : List (String × String)}
    {c : Cursor} (h : attributes fuel (past before rest) = .ok (as, c)) :
    ∃ s r, rest = s ++ r ∧ Attributes s as ∧ c = past (before ++ s) r := by
  induction fuel generalizing before rest as c with
  | zero =>
      cases h
      exact ⟨[], rest, rfl, .nil, by simp⟩
  | succ fuel ih =>
      unfold attributes at h
      split at h
      · cases h
        exact ⟨[], rest, rfl, .nil, by simp⟩
      · rename_i written hwritten
        obtain ⟨s, r, rfl, hrest, hs⟩ := rawAttribute?_past hwritten
        split at h
        · cases h
        · rename_i value hvalue
          rw [hrest] at h
          split at h
          · cases h
          · rename_i more c hmore
            cases h
            obtain ⟨t, r, rfl, ht, rfl⟩ := ih hmore
            exact ⟨s ++ t, r, by simp, .cons (hs value hvalue) ht, by simp⟩

/-- The reader takes all the attributes if no further one follows. -/
theorem Attributes.attributes_past {s : List Char} {as : List (String × String)}
    (h : Attributes s as) {fuel : Nat} (hfuel : s.length ≤ fuel) {before r : List Char}
    (hend : rawAttribute? (past (before ++ s) r) = none) :
    attributes fuel (past before (s ++ r)) = .ok (as, past (before ++ s) r) := by
  induction h generalizing fuel before with
  | nil =>
      rw [List.append_nil] at hend ⊢
      cases fuel with
      | zero => rfl
      | succ fuel =>
          unfold attributes
          rw [List.nil_append, hend]
  | @cons s rest a as ha _ ih =>
      obtain ⟨written, hwritten, hrest, value, hvalue, rfl⟩ := ha.rawAttribute? before (rest ++ r)
      have hpos := ha.length_pos
      rw [List.length_append] at hfuel
      cases fuel with
      | zero => omega
      | succ fuel =>
          rw [← List.append_assoc] at hend
          have hshort : rest.length ≤ fuel := by omega
          have hmore := ih hshort hend
          unfold attributes
          rw [List.append_assoc, hwritten]
          simp only [hvalue, hrest, hmore, List.append_assoc]

theorem firstDuplicate?_eq_none {as : List (String × String)} {seen : List String} :
    firstDuplicate? seen as = none
      ↔ (as.map Prod.fst).Nodup ∧ ∀ name ∈ as.map Prod.fst, name ∉ seen := by
  induction as generalizing seen with
  | nil => simp [firstDuplicate?]
  | cons a as ih =>
      obtain ⟨name, value⟩ := a
      simp only [firstDuplicate?, List.contains_iff_mem, List.map_cons, List.nodup_cons,
        List.forall_mem_cons]
      split
      · simp [*]
      · rename_i hnew
        rw [ih]
        constructor
        · rintro ⟨hdup, hseen⟩
          refine ⟨⟨fun hin => hseen name hin (.head seen), hdup⟩, hnew, fun n hn hin => ?_⟩
          exact hseen n hn (.tail name hin)
        · rintro ⟨⟨hname, hdup⟩, _, hseen⟩
          refine ⟨hdup, fun n hn hin => ?_⟩
          rcases List.mem_cons.1 hin with rfl | hin
          · exact hname hn
          · exact hseen n hn hin

/-- An element is completed if no attribute occurs twice. -/
theorem complete_eq_ok {file : String} {first last c : Cursor} {tag : List Char}
    {attributes : List (String × String)} {children : List Node} {selfClosing : Bool} {n : Node} :
    complete file first tag attributes children selfClosing last = .ok (n, c)
      ↔ (attributes.map Prod.fst).Nodup ∧ c = last ∧
          n = .mk (String.ofList (lowerCase tag)) attributes children
            ⟨first.span file last, selfClosing⟩ := by
  have hdup : firstDuplicate? [] attributes = none ↔ (attributes.map Prod.fst).Nodup := by
    simp [firstDuplicate?_eq_none]
  unfold complete
  split
  · rename_i name hname
    simp [← hdup, hname]
  · rename_i hname
    simp only [← hdup, hname, true_and, Except.ok.injEq, Prod.mk.injEq]
    constructor
    · rintro ⟨rfl, rfl⟩
      exact ⟨rfl, rfl⟩
    · rintro ⟨rfl, rfl⟩
      exact ⟨rfl, rfl⟩

end TagScript.Markup
