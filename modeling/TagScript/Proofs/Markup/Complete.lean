import TagScript.Proofs.Markup.Lexeme

set_option autoImplicit false

/-! # What the grammar derives is found by the reader

The reader tries one alternative after another, takes as much as it can and swallows the failure of
a child element; the grammar knows neither order nor greed. Still the reader misses nothing: at
every `<` the next character leaves one alternative only, and content that was cut into texts at
will is cut anew at each `<` (`Contents.split`). -/

namespace TagScript.Markup

open Cursor (past)

variable {file : String}

/-! ## How elements and content start -/

theorem Comment.starts {s : List Char} (h : Comment s) :
    ∃ tail, s = ['<', '!', '-', '-'] ++ tail := by
  cases h
  exact ⟨_, List.append_assoc _ _ _⟩

theorem Opening.starts {close tag s : List Char} {attributes : List (String × String)}
    (h : Opening close tag attributes s) : ∃ x tail, s = x :: tail ∧ isNameStart x = true := by
  obtain ⟨attrs, gap, rfl, _⟩ := h.parts
  have hname := h.isName
  cases tag with
  | nil => cases hname
  | cons x tag => exact ⟨x, _, rfl, hname.1⟩

/-- The character after the `<` of an element starts its name. -/
theorem Element.starts {before s : List Char} {n : Node} (h : Element file before s n) :
    ∃ x tail, s = '<' :: x :: tail ∧ isNameStart x = true := by
  cases h with
  | empty hopening =>
      obtain ⟨x, tail, rfl, hx⟩ := hopening.starts
      exact ⟨x, _, rfl, hx⟩
  | full hopening =>
      obtain ⟨x, tail, rfl, hx⟩ := hopening.starts
      simp only [List.append_assoc, List.cons_append]
      exact ⟨x, _, rfl, hx⟩

/-- Content is a text without `<` and content that, if there is any, starts with `<`. -/
theorem Contents.split : ∀ {before s : List Char} {ns : List Node}, Contents file before s ns →
    ∃ text rest, s = text ++ rest ∧ '<' ∉ text ∧ StartsWithout (· ≠ '<') rest ∧
      Contents file (before ++ text) rest ns
  | _, _, _, .nil => ⟨[], [], rfl, List.not_mem_nil, .nil, .nil⟩
  | _, _, _, .comment (s := s) hs hrest => by
      obtain ⟨tail, rfl⟩ := hs.starts
      refine ⟨[], _, rfl, List.not_mem_nil, .cons (by decide) _, ?_⟩
      rw [List.append_nil]
      exact .comment hs hrest
  | _, _, _, .element hs hrest => by
      obtain ⟨x, tail, rfl, _⟩ := hs.starts
      refine ⟨[], _, rfl, List.not_mem_nil, .cons (by decide) _, ?_⟩
      rw [List.append_nil]
      exact .element hs hrest
  | _, _, _, .text (s := s) _ hs hrest => by
      obtain ⟨text, rest, rfl, htext, hstart, hrest⟩ := Contents.split hrest
      refine ⟨s ++ text, rest, by simp, by simp [hs, htext], hstart, ?_⟩
      rwa [← List.append_assoc]

/-! ## Content -/

/-- Where no name follows `<`, no element is read, and the failure is not fatal. -/
theorem element_eq_error (fuel : Nat) {before gap rest : List Char} (hgap : IsLayout gap)
    (hlayout : StartsWithout Text.isLayout rest)
    (hname : ∀ tail, rest = '<' :: tail → StartsWithout isNameStart tail) :
    ∃ stop, element file fuel (past before (gap ++ rest)) = .error stop ∧
      stop.cause.isFatal = false := by
  cases fuel with
  | zero => exact ⟨_, rfl, rfl⟩
  | succ fuel =>
      unfold element
      simp only [skipLayout_past before hgap hlayout]
      cases hopen : (past (before ++ gap) rest).after? ['<'] with
      | none => exact ⟨_, rfl, rfl⟩
      | some c =>
          obtain ⟨tail, rfl, rfl⟩ := Cursor.after?_past.1 hopen
          simp only [name?_past_eq_none (hname tail rfl)]
          exact ⟨_, rfl, rfl⟩

theorem textRun?_past_append {before gap text rest : List Char} {x : Char} (hgap : IsLayout gap)
    (hx : Text.isLayout x = false) (htext : '<' ∉ x :: text)
    (hrest : StartsWithout (· ≠ '<') rest) :
    textRun? (past before (gap ++ (x :: text ++ rest)))
      = some (past (before ++ gap ++ (x :: text)) rest) := by
  have hall : ∀ c ∈ x :: text, decide (c ≠ '<') = true := by
    intro c hc
    refine decide_eq_true ?_
    rintro rfl
    exact htext hc
  obtain ⟨htake, hdrop⟩ := takeWhile_append_of_without hall hrest
  unfold textRun?
  have hskip := skipLayout_past before hgap (StartsWithout.cons hx (text ++ rest))
  have hfirst : x ≠ '<' := of_decide_eq_true (hall x List.mem_cons_self)
  simp only [List.cons_append, hskip, Cursor.rest_past, if_neg hfirst]
  rw [← List.cons_append, Cursor.skipWhile_past, htake, hdrop]

theorem textRun?_eq_none {before gap tail : List Char} (hgap : IsLayout gap) :
    textRun? (past before (gap ++ '<' :: tail)) = none := by
  have hmark : StartsWithout Text.isLayout ('<' :: tail) := .cons (by decide) tail
  unfold textRun?
  simp only [skipLayout_past before hgap hmark, Cursor.rest_past, if_true]

/-- A reader that finds every element shorter than the bound, past the layout before it. -/
def FindsElements (file : String) (bound : Nat) (element : Cursor → Except Stop (Node × Cursor)) :
    Prop :=
  ∀ {before gap s : List Char} {n : Node}, IsLayout gap → Element file (before ++ gap) s n →
    s.length < bound → ∀ r,
      element (past before (gap ++ (s ++ r))) = .ok (n, past (before ++ gap ++ s) r)

section Steps

variable {bound fuel : Nat} {before gap : List Char} (hgap : IsLayout gap)

include hgap

theorem content_comment {element : Cursor → Except Stop (Node × Cursor)} {s : List Char}
    (hs : Comment s) (r : List Char) :
    content element (fuel + 1) (past before (gap ++ (s ++ r)))
      = content element fuel (past (before ++ gap ++ s) r) := by
  have hcomment : comment? (past before (gap ++ (s ++ r))) = some (past (before ++ gap ++ s) r) :=
    comment?_past.2 ⟨gap, s, r, by simp, hgap, hs, rfl⟩
  rw [content, hcomment]

theorem content_element (helem : FindsElements file bound (element file bound)) {s r : List Char}
    {n : Node} {inner : Content} (hs : Element file (before ++ gap) s n) (hbound : s.length < bound)
    (h : content (element file bound) fuel (past (before ++ gap ++ s) r) = .ok inner) :
    content (element file bound) (fuel + 1) (past before (gap ++ (s ++ r)))
      = .ok { inner with children := n :: inner.children } := by
  have hcomment : comment? (past before (gap ++ (s ++ r))) = none := by
    obtain ⟨x, tail, rfl, hx⟩ := hs.starts
    have hmark : x ≠ '!' := (isNameStart_ne hx).2.2.1
    exact comment?_eq_none hgap (.cons (by decide) _) (by simp [Ne.symm hmark])
  rw [content, hcomment, helem hgap hs hbound r]
  simp only [h]

theorem content_text {x : Char} {text rest : List Char} (hx : Text.isLayout x = false)
    (htext : '<' ∉ x :: text) (hrest : StartsWithout (· ≠ '<') rest) :
    content (element file bound) (fuel + 1) (past before (gap ++ (x :: text ++ rest)))
      = content (element file bound) fuel (past (before ++ gap ++ (x :: text)) rest) := by
  have hmark : x ≠ '<' := by
    rintro rfl
    exact htext List.mem_cons_self
  have hcomment : comment? (past before (gap ++ (x :: text ++ rest))) = none :=
    comment?_eq_none hgap (.cons hx _) (by simp [Ne.symm hmark])
  obtain ⟨stop, hstop, hfatal⟩ : ∃ stop,
      element file bound (past before (gap ++ (x :: text ++ rest))) = .error stop ∧
        stop.cause.isFatal = false := by
    refine element_eq_error bound hgap (.cons hx _) fun tail htail => ?_
    cases htail
    exact absurd rfl hmark
  rw [content, hcomment, hstop]
  simp only [hfatal, textRun?_past_append hgap hx htext hrest, Bool.false_eq_true, if_false]

/-- Before a closing tag the content ends. -/
theorem content_end (tail : List Char) :
    ∃ lost, content (element file bound) fuel (past before (gap ++ '<' :: '/' :: tail))
      = .ok ⟨[], lost, past before (gap ++ '<' :: '/' :: tail)⟩ := by
  cases fuel with
  | zero => exact ⟨[], rfl⟩
  | succ fuel =>
      have hlayout : StartsWithout Text.isLayout ('<' :: '/' :: tail) := .cons (by decide) _
      have hcomment : comment? (past before (gap ++ '<' :: '/' :: tail)) = none :=
        comment?_eq_none hgap hlayout (by simp)
      obtain ⟨stop, hstop, hfatal⟩ : ∃ stop,
          element file bound (past before (gap ++ '<' :: '/' :: tail)) = .error stop ∧
            stop.cause.isFatal = false := by
        refine element_eq_error bound hgap hlayout fun t ht => ?_
        cases ht
        exact .cons (by decide) tail
      refine ⟨stop.completed, ?_⟩
      rw [content, hcomment, hstop]
      simp only [hfatal, textRun?_eq_none hgap, Bool.false_eq_true, if_false]

end Steps

/-- The reader finds all of the content before a closing tag, and leaves layout at its end. -/
theorem content_complete {bound : Nat} (helem : FindsElements file bound (element file bound))
    {fuel : Nat} {before s tail : List Char} {ns : List Node} (h : Contents file before s ns)
    (hfuel : s.length ≤ fuel) (hbound : s.length < bound) :
    ∃ read gap lost, s = read ++ gap ∧ IsLayout gap ∧
      content (element file bound) fuel (past before (s ++ '<' :: '/' :: tail))
        = .ok ⟨ns, lost, past (before ++ read) (gap ++ '<' :: '/' :: tail)⟩ := by
  -- by length: neighbouring texts of the derivation are one run for the reader
  induction hlen : s.length using Nat.strongRecOn generalizing fuel before s ns with
  | ind length ih =>
      subst hlen
      obtain ⟨text, rest, rfl, htext, hstart, hrest⟩ := h.split
      obtain ⟨gap, text, rfl, hgap, hlayout, _⟩ := exists_layout text
      rw [← List.append_assoc] at hrest
      simp only [List.length_append] at hfuel hbound ih
      cases text with
      | cons x text =>
          rw [List.length_cons] at hfuel hbound ih
          obtain ⟨fuel, rfl⟩ : ∃ less, fuel = less + 1 := ⟨fuel - 1, by omega⟩
          obtain ⟨read, left, lost, rfl, hleft, hread⟩ :=
            ih rest.length (by omega) hrest (show _ ≤ fuel by omega) (by omega) rfl
          refine ⟨gap ++ (x :: text) ++ read, left, lost, by simp, hleft, ?_⟩
          have hafter : StartsWithout (· ≠ '<') (read ++ left ++ '<' :: '/' :: tail) := by
            cases hrest : read ++ left with
            | nil => exact .cons (by decide) _
            | cons y rest => exact .cons (hstart y (by rw [hrest]; rfl)) _
          have hstep : content (element file bound) (fuel + 1) (past before _) = _ :=
            content_text hgap (hlayout x rfl) (fun h => htext (List.mem_append_right gap h)) hafter
          rw [hread] at hstep
          simpa using hstep
      | nil =>
          rw [List.append_nil] at hrest ⊢
          cases hrest with
          | nil =>
              obtain ⟨lost, hread⟩ : ∃ lost, content (element file bound) fuel (past before _)
                  = .ok ⟨[], lost, _⟩ := content_end hgap tail
              refine ⟨[], gap, lost, by simp, hgap, ?_⟩
              simpa using hread
          | @comment _ s rest _ hs hrest =>
              obtain ⟨body, rfl⟩ := hs.starts
              simp only [List.length_append, List.length_cons] at hfuel hbound ih
              obtain ⟨fuel, rfl⟩ : ∃ less, fuel = less + 1 := ⟨fuel - 1, by omega⟩
              obtain ⟨read, left, lost, rfl, hleft, hread⟩ :=
                ih rest.length (by omega) hrest (show _ ≤ fuel by omega) (by omega) rfl
              refine ⟨gap ++ (['<', '!', '-', '-'] ++ body) ++ read, left, lost, by simp, hleft, ?_⟩
              have hstep : content (element file bound) (fuel + 1) (past before _) = _ :=
                content_comment hgap hs (read ++ left ++ '<' :: '/' :: tail)
              rw [hread] at hstep
              simpa using hstep
          | @element _ s rest n ns hs hrest =>
              have hpos : 0 < s.length := by
                obtain ⟨x, tail, rfl, _⟩ := hs.starts
                exact Nat.succ_pos _
              simp only [List.length_append] at hfuel hbound ih
              obtain ⟨fuel, rfl⟩ : ∃ less, fuel = less + 1 := ⟨fuel - 1, by omega⟩
              obtain ⟨read, left, lost, rfl, hleft, hread⟩ :=
                ih rest.length (by omega) hrest (show _ ≤ fuel by omega) (by omega) rfl
              refine ⟨gap ++ s ++ read, left, lost, by simp, hleft, ?_⟩
              have hstep := content_element hgap helem hs (by omega) hread
              simpa using hstep
          | @text _ s rest _ hne hs hrest =>
              -- all text up to the next `<` has been taken already
              cases s with
              | nil => exact absurd rfl hne
              | cons x s =>
                  have hx : x = '<' := by simpa using hstart x rfl
                  exact absurd (hx ▸ List.mem_cons_self) hs

/-! ## Elements -/

theorem closeElement_complete {first : Cursor} {tag before text closing gap r : List Char}
    {attributes : List (String × String)} {children lost : List Node}
    (hdistinct : (attributes.map Prod.fst).Nodup) (htext : IsLayout text)
    (hclosing : IsName closing) (htag : lowerCase closing = lowerCase tag) (hgap : IsLayout gap) :
    closeElement file first tag attributes
        ⟨children, lost, past before (text ++ '<' :: '/' :: (closing ++ (gap ++ '>' :: r)))⟩
      = .ok (.mk (String.ofList (lowerCase tag)) attributes children
          ⟨first.span file
            (past (before ++ text ++ ['<', '/'] ++ closing ++ gap ++ ['>']) r), false⟩,
          past (before ++ text ++ ['<', '/'] ++ closing ++ gap ++ ['>']) r) := by
  have hskip : (past before (text ++ '<' :: '/' :: (closing ++ (gap ++ '>' :: r)))).skipLayout
      = _ := skipLayout_past before htext (.cons (by decide) _)
  have hopen := Cursor.after?_past_append ['<', '/'] (before ++ text) (closing ++ (gap ++ '>' :: r))
  have hname : name? (past (before ++ text ++ ['<', '/']) (closing ++ (gap ++ '>' :: r))) = _ :=
    name?_past.2 ⟨_, rfl, hclosing, hgap.startsWithout_nameRest (.cons (by decide) _), rfl⟩
  have hskip' : (past (before ++ text ++ ['<', '/'] ++ closing) (gap ++ '>' :: r)).skipLayout = _ :=
    skipLayout_past _ hgap (.cons (by decide) _)
  have hclose := Cursor.after?_past_append ['>'] (before ++ text ++ ['<', '/'] ++ closing ++ gap) r
  simp only [List.cons_append, List.nil_append] at hopen hclose
  unfold closeElement
  simp only [hskip, hopen, hname, hskip', hclose, htag, if_true]
  exact complete_eq_ok.2 ⟨hdistinct, rfl, rfl⟩

/-- The reader gets to the end of an opening tag, and goes on from there. -/
theorem element_of_opening {fuel : Nat} {before gap tag opening close r : List Char} {x : Char}
    {attributes : List (String × String)} {n : Node} {c : Cursor} (hgap : IsLayout gap)
    (hopening : Opening (x :: close) tag attributes opening) (hfuel : opening.length ≤ fuel)
    (hlayout : Text.isLayout x = false) (hname : isNameStart x = false)
    (hways :
      let first := past (before ++ gap) (['<'] ++ opening ++ (x :: close ++ r))
      let here := past (before ++ gap ++ (['<'] ++ opening)) (x :: close ++ r)
      (∃ last, here.after? ['/', '>'] = some last ∧
          complete file first tag attributes [] true last = .ok (n, c)) ∨
        here.after? ['/', '>'] = none ∧ ∃ start inner, here.after? ['>'] = some start ∧
          content (element file fuel) fuel start = .ok inner ∧
          closeElement file first tag attributes inner = .ok (n, c)) :
    element file (fuel + 1) (past before (gap ++ (['<'] ++ opening ++ (x :: close ++ r))))
      = .ok (n, c) := by
  obtain ⟨attrs, space, rfl, hattrs, hspace, hmaximal⟩ := hopening.parts
  let tail := space ++ (x :: close ++ r)
  have hsplit : ['<'] ++ (tag ++ attrs ++ space) ++ (x :: close ++ r)
      = ['<'] ++ (tag ++ (attrs ++ tail)) := by simp [tail]
  have hhere : before ++ gap ++ (['<'] ++ (tag ++ attrs ++ space))
      = before ++ gap ++ ['<'] ++ tag ++ attrs ++ space := by simp
  simp only [hsplit, hhere] at hways ⊢
  have hskip : (past before (gap ++ (['<'] ++ (tag ++ (attrs ++ tail))))).skipLayout = _ :=
    skipLayout_past before hgap (.cons (by decide) _)
  have hopen := Cursor.after?_past_append ['<'] (before ++ gap) (tag ++ (attrs ++ tail))
  have htag : name? (past (before ++ gap ++ ['<']) (tag ++ (attrs ++ tail)))
      = some (tag, past (before ++ gap ++ ['<'] ++ tag) (attrs ++ tail)) := by
    have happend := (StartsWithout.append_iff (by simp) r).2 hmaximal
    simp only [List.append_assoc] at happend
    exact name?_past.2 ⟨_, rfl, hopening.isName, happend, rfl⟩
  have hread : Markup.attributes fuel (past (before ++ gap ++ ['<'] ++ tag) (attrs ++ tail))
      = .ok (attributes, past (before ++ gap ++ ['<'] ++ tag ++ attrs) tail) := by
    have hshort : attrs.length ≤ fuel := by
      simp only [List.length_append] at hfuel
      omega
    -- what closes the tag starts no name, so no attribute is looked for beyond the last one
    exact hattrs.attributes_past hshort
      (rawAttribute?_eq_none hspace (.cons hlayout _) (.cons hname _))
  have hspaceSkip : (past (before ++ gap ++ ['<'] ++ tag ++ attrs) tail).skipLayout = _ :=
    skipLayout_past _ hspace (.cons hlayout _)
  -- the reader tries `/>` first and `>` only without it
  unfold element
  simp only [hskip, hopen, htag, hread, hspaceSkip]
  rcases hways with ⟨last, hlast, hn⟩ | ⟨hnone, start, inner, hstart, hinner, hn⟩
  · simp only [hlast, hn]
  · simp only [hnone, hstart, hinner, hn]

theorem element_complete (bound : Nat) : FindsElements file bound (element file bound) := by
  induction bound with
  | zero =>
      intro before gap s n _ _ hbound
      exact absurd hbound (Nat.not_lt_zero _)
  | succ bound ih =>
      intro before gap s n hgap hs hbound r
      cases hs with
      | @empty _ opening tag as hopening =>
          let s := ['<'] ++ opening ++ ['/', '>']
          have hsplit : s ++ r = ['<'] ++ opening ++ (['/', '>'] ++ r) := by simp [s]
          have hend : before ++ gap ++ (['<'] ++ opening) ++ ['/', '>'] = before ++ gap ++ s := by
            simp [s]
          have hfuel : opening.length ≤ bound := by
            simp only [List.length_append, List.length_cons] at hbound
            omega
          have hspan := Cursor.span_past file (before ++ gap) s r
          rw [hsplit] at hspan ⊢
          refine element_of_opening hgap hopening hfuel (by decide) (by decide) (.inl ⟨_,
            Cursor.after?_past_append ['/', '>'] _ r, ?_⟩)
          rw [hend]
          exact complete_eq_ok.2 ⟨hopening.distinct, rfl, by rw [hspan]⟩
      | @full _ opening tag inside closing trail as children hopening hinside hclosing htag
          htrail =>
          let s := ['<'] ++ opening ++ ['>'] ++ inside ++ ['<', '/'] ++ closing ++ trail ++ ['>']
          let tail := closing ++ (trail ++ '>' :: r)
          have hsplit : s ++ r = ['<'] ++ opening ++ (['>'] ++ (inside ++ '<' :: '/' :: tail)) := by
            simp [s, tail]
          have hopeningFuel : opening.length ≤ bound := by
            simp only [List.length_append, List.length_cons] at hbound
            omega
          have hinsideFuel : inside.length < bound := by
            simp only [List.length_append, List.length_cons] at hbound
            omega
          have hspan := Cursor.span_past file (before ++ gap) s r
          rw [hsplit] at hspan ⊢
          obtain ⟨read, text, lost, rfl, htext, hread⟩ : ∃ read text lost, inside = read ++ text ∧
              IsLayout text ∧ content (element file bound) bound
                (past (before ++ gap ++ (['<'] ++ opening) ++ ['>']) (inside ++ '<' :: '/' :: tail))
                = .ok ⟨children, lost, past (before ++ gap ++ (['<'] ++ opening) ++ ['>'] ++ read)
                    (text ++ '<' :: '/' :: tail)⟩ := by
            rw [← List.append_assoc] at hinside
            exact content_complete ih hinside (Nat.le_of_lt hinsideFuel) hinsideFuel
          refine element_of_opening hgap hopening hopeningFuel (by decide) (by decide) (.inr
            ⟨Cursor.after?_past_eq_none (by simp), _, _, Cursor.after?_past_append ['>'] _ _, hread,
              ?_⟩)
          have hend : before ++ gap ++ (['<'] ++ opening) ++ ['>'] ++ read ++ text ++ ['<', '/']
              ++ closing ++ trail ++ ['>'] = before ++ gap ++ s := by simp [s]
          rw [closeElement_complete hopening.distinct htext hclosing htag htrail, hend, hspan]

end TagScript.Markup
