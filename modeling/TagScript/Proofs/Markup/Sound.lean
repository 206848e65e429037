import TagScript.Proofs.Markup.Lexeme

set_option autoImplicit false

/-! # What the reader finds is derived by the grammar

The reader goes by its fuel, and so does the proof: an element that is found has an opening tag, and
then either nothing more or content and a closing tag. The layout that the reader skips before a
child element or a comment belongs to the texts of the content. -/

namespace TagScript.Markup

open Cursor (past)

variable {file : String}

/-! ## Texts between elements -/

theorem IsLayout.no_mark {s : List Char} (h : IsLayout s) : '<' ∉ s :=
  fun hmem => absurd (h _ hmem) (by decide)

/-- A text without `<`, though it be empty, may stand before the content. -/
theorem Contents.text_append {before s rest : List Char} {ns : List Node} (hs : '<' ∉ s)
    (h : Contents file (before ++ s) rest ns) : Contents file before (s ++ rest) ns := by
  cases s with
  | nil => rwa [List.append_nil] at h
  | cons x s => exact .text (List.cons_ne_nil x s) hs h

theorem textRun?_past {before rest : List Char} {c : Cursor}
    (h : textRun? (past before rest) = some c) :
    ∃ s r, rest = s ++ r ∧ '<' ∉ s ∧ c = past (before ++ s) r := by
  obtain ⟨gap, rest, rfl, hgap, _, hskip⟩ := exists_layout rest
  unfold textRun? at h
  simp only [hskip, Cursor.rest_past] at h
  cases rest with
  | nil => cases h
  | cons x tail =>
      simp only at h
      split at h
      · cases h
      · cases h
        refine ⟨gap ++ (x :: tail).takeWhile (· ≠ '<'), (x :: tail).dropWhile (· ≠ '<'),
          ?_, ?_, ?_⟩
        · rw [List.append_assoc, List.takeWhile_append_dropWhile]
        · intro hmem
          rcases List.mem_append.1 hmem with hmem | hmem
          · exact hgap.no_mark hmem
          · exact absurd (List.all_eq_true.1 List.all_takeWhile _ hmem) (by decide)
        · rw [Cursor.skipWhile_past, List.append_assoc]

/-! ## Elements and their content -/

/-- A reader that gives elements of the grammar only, with the layout before them. -/
def FindsOnlyElements (file : String) (element : Cursor → Except Stop (Node × Cursor)) : Prop :=
  ∀ {before rest : List Char} {n : Node} {c : Cursor},
    element (past before rest) = .ok (n, c) →
      ∃ gap s r, rest = gap ++ s ++ r ∧ IsLayout gap ∧ Element file (before ++ gap) s n ∧
        c = past (before ++ gap ++ s) r

/-- The content that the reader finds, with the text after it that belongs to it as well. -/
theorem content_sound {element : Cursor → Except Stop (Node × Cursor)}
    (helem : FindsOnlyElements file element) {fuel : Nat} {before rest : List Char}
    {inner : Content} (h : content element fuel (past before rest) = .ok inner) :
    ∃ s r, rest = s ++ r ∧ inner.rest = past (before ++ s) r ∧
      ∀ t, '<' ∉ t → Contents file before (s ++ t) inner.children := by
  have hnone : ∀ {before : List Char} (t : List Char), '<' ∉ t →
      Contents file before ([] ++ t) [] := by
    intro before t ht
    have htext : Contents file before (t ++ []) [] := .text_append ht .nil
    rwa [List.append_nil] at htext
  induction fuel generalizing before rest inner with
  | zero =>
      cases h
      exact ⟨[], rest, rfl, by simp, hnone⟩
  | succ fuel ih =>
      unfold content at h
      split at h
      · rename_i c hcomment
        -- the layout that was skipped becomes a text of its own
        obtain ⟨gap, s, r, rfl, hgap, hs, rfl⟩ := comment?_past.1 hcomment
        obtain ⟨u, r, rfl, hrest, hu⟩ := ih h
        refine ⟨gap ++ (s ++ u), r, by simp, by simp [hrest], fun t ht => ?_⟩
        rw [List.append_assoc, List.append_assoc]
        exact .text_append hgap.no_mark (.comment hs (hu t ht))
      · split at h
        · rename_i n c hn
          obtain ⟨gap, s, r, rfl, hgap, hs, rfl⟩ := helem hn
          split at h
          · rename_i more hmore
            cases h
            obtain ⟨u, r, rfl, hrest, hu⟩ := ih hmore
            refine ⟨gap ++ (s ++ u), r, by simp, by simp [hrest], fun t ht => ?_⟩
            rw [List.append_assoc, List.append_assoc]
            exact .text_append hgap.no_mark (.element hs (hu t ht))
          · cases h
        · split at h
          · cases h
          · split at h
            · rename_i c htext
              obtain ⟨s, r, rfl, hs, rfl⟩ := textRun?_past htext
              obtain ⟨u, r, rfl, hrest, hu⟩ := ih h
              refine ⟨s ++ u, r, by simp, by simp [hrest], fun t ht => ?_⟩
              rw [List.append_assoc]
              exact .text_append hs (hu t ht)
            · cases h
              exact ⟨[], rest, rfl, by simp, hnone⟩

/-- The closing tag that the reader finds. -/
theorem closeElement_sound {first c : Cursor} {tag : List Char}
    {attributes : List (String × String)} {inner : Content} {n : Node} {before rest : List Char}
    (hinner : inner.rest = past before rest)
    (h : closeElement file first tag attributes inner = .ok (n, c)) :
    ∃ text closing gap r, rest = text ++ ['<', '/'] ++ closing ++ gap ++ ['>'] ++ r ∧
      IsLayout text ∧ IsName closing ∧ lowerCase closing = lowerCase tag ∧ IsLayout gap ∧
      (attributes.map Prod.fst).Nodup ∧
      c = past (before ++ (text ++ ['<', '/'] ++ closing ++ gap ++ ['>'])) r ∧
      n = .mk (String.ofList (lowerCase tag)) attributes inner.children
        ⟨first.span file c, false⟩ := by
  unfold closeElement at h
  obtain ⟨text, rest, rfl, htext, _, hskip⟩ := exists_layout rest
  simp only [hinner, hskip] at h
  split at h
  · cases h
  · rename_i _ hopen
    obtain ⟨rest, rfl, rfl⟩ := Cursor.after?_past.1 hopen
    split at h
    · cases h
    · rename_i closing _ hread
      obtain ⟨rest, rfl, hname, _, rfl⟩ := name?_past.1 hread
      obtain ⟨gap, rest, rfl, hgap, _, hskip⟩ := exists_layout rest
      rw [hskip] at h
      split at h
      · cases h
      · rename_i _ hend
        obtain ⟨r, rfl, rfl⟩ := Cursor.after?_past.1 hend
        split at h
        · rename_i htag
          obtain ⟨hdistinct, rfl, rfl⟩ := complete_eq_ok.1 h
          exact ⟨text, closing, gap, r, by simp, htext, hname, htag, hgap, hdistinct, by simp,
            rfl⟩
        · cases h

/-- The opening tag that the reader finds, up to its end, and how the element goes on from there. -/
theorem element_opened {fuel : Nat} {before rest : List Char} {n : Node} {c : Cursor}
    (h : element file (fuel + 1) (past before rest) = .ok (n, c)) :
    ∃ gap tag attributes opening r, rest = gap ++ (['<'] ++ opening ++ r) ∧ IsLayout gap ∧
      (∀ close tail, r = close ++ tail → close ≠ [] → (attributes.map Prod.fst).Nodup →
        Opening close tag attributes opening) ∧
      let first := past (before ++ gap) (['<'] ++ opening ++ r)
      let here := past (before ++ gap ++ (['<'] ++ opening)) r
      ((∃ last, here.after? ['/', '>'] = some last ∧
          complete file first tag attributes [] true last = .ok (n, c)) ∨
        ∃ start inner, here.after? ['>'] = some start ∧
          content (element file fuel) fuel start = .ok inner ∧
          closeElement file first tag attributes inner = .ok (n, c)) := by
  unfold element at h
  obtain ⟨gap, rest, rfl, hgap, _, hskip⟩ := exists_layout rest
  simp only [hskip] at h
  split at h
  · cases h
  rename_i _ hopen
  obtain ⟨rest, rfl, rfl⟩ := Cursor.after?_past.1 hopen
  split at h
  · cases h
  rename_i tag _ hread
  obtain ⟨rest, rfl, hname, hmaximal, rfl⟩ := name?_past.1 hread
  split at h
  · cases h
  rename_i as _ hread
  obtain ⟨attrs, rest, rfl, hattrs, rfl⟩ := attributes_past hread
  obtain ⟨space, r, rfl, hspace, _, hskip⟩ := exists_layout rest
  rw [hskip] at h
  -- whether the tag is well formed depends on what closes it, which the reader has yet to see
  refine ⟨gap, tag, as, tag ++ attrs ++ space, r, by simp, hgap, ?_, ?_⟩
  · rintro close tail rfl hne hdistinct
    refine ⟨hname, ⟨attrs, space, rfl, hattrs, hspace, ?_⟩, hdistinct⟩
    have hsplit : attrs ++ (space ++ (close ++ tail)) = attrs ++ space ++ close ++ tail := by simp
    rw [hsplit] at hmaximal
    exact (StartsWithout.append_iff (by simp [hne]) tail).1 hmaximal
  · have hfirst : ['<'] ++ (tag ++ attrs ++ space) ++ r
        = ['<'] ++ (tag ++ (attrs ++ (space ++ r))) := by simp
    have hhere : before ++ gap ++ (['<'] ++ (tag ++ attrs ++ space))
        = before ++ gap ++ ['<'] ++ tag ++ attrs ++ space := by simp
    simp only [hfirst, hhere]
    split at h
    · rename_i last hlast
      exact .inl ⟨last, hlast, h⟩
    · rename_i start _ hstart
      split at h
      · cases h
      · rename_i inner hinner
        exact .inr ⟨start, inner, hstart, hinner, h⟩
    · cases h

theorem element_sound (fuel : Nat) : FindsOnlyElements file (element file fuel) := by
  induction fuel with
  | zero => rintro before rest n c ⟨⟩
  | succ fuel ih =>
      intro before rest n c h
      obtain ⟨gap, tag, as, opening, r, rfl, hgap, hopening, hways⟩ := element_opened h
      rcases hways with ⟨last, hlast, hn⟩ | ⟨start, inner, hstart, hinner, hn⟩
      · obtain ⟨r, rfl, rfl⟩ := Cursor.after?_past.1 hlast
        obtain ⟨hdistinct, rfl, rfl⟩ := complete_eq_ok.1 hn
        let s := ['<'] ++ opening ++ ['/', '>']
        have hend : before ++ gap ++ (['<'] ++ opening) ++ ['/', '>'] = before ++ gap ++ s := by
          simp [s]
        have hstart : ['<'] ++ opening ++ (['/', '>'] ++ r) = s ++ r := by simp [s]
        rw [hstart, hend, Cursor.span_past]
        refine ⟨gap, s, r, by simp, hgap, .empty (hopening _ r rfl (by simp) hdistinct), rfl⟩
      · obtain ⟨r, rfl, rfl⟩ := Cursor.after?_past.1 hstart
        -- the layout that is skipped before the closing tag is the last text of the content
        obtain ⟨inside, r, rfl, hrest, hinside⟩ := content_sound ih hinner
        obtain ⟨text, closing, trail, r, rfl, htext, hclosing, htag, htrail, hdistinct, rfl, rfl⟩ :=
          closeElement_sound hrest hn
        let s := ['<'] ++ opening ++ ['>'] ++ (inside ++ text) ++ ['<', '/'] ++ closing ++ trail
          ++ ['>']
        have hend : before ++ gap ++ (['<'] ++ opening) ++ ['>'] ++ inside
            ++ (text ++ ['<', '/'] ++ closing ++ trail ++ ['>']) = before ++ gap ++ s := by
          simp [s]
        have hstart : ['<'] ++ opening ++ (['>'] ++ (inside
            ++ (text ++ ['<', '/'] ++ closing ++ trail ++ ['>'] ++ r))) = s ++ r := by
          simp [s]
        rw [hstart, hend, Cursor.span_past]
        refine ⟨gap, s, r, by simp, hgap, ?_, rfl⟩
        have hcontents := hinside text htext.no_mark
        rw [List.append_assoc] at hcontents
        exact .full (hopening _ _ rfl (by simp) hdistinct) hcontents hclosing htag htrail

end TagScript.Markup
