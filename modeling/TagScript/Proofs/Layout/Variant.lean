import TagScript.Proofs.Markup.Bare
import TagScript.Proofs.Markup.Exact
import TagScript.Proofs.Markup.Spaced
import TagScript.Proofs.Markup.Spelling

set_option autoImplicit false

/-! # Layout variants of a document

Two texts are layout variants of each other if they are the same document but for what carries no
meaning: layout inside tags, comments and text between children, comments, declarations and doctypes
around the root, the case of tags, the style of quotes, and whether a character of a value is
written as itself or as a reference. The relation (`Variant`) is one of texts: it goes through both
side by side and speaks of no tree. Values hold no tab, since tabs are expanded wherever they stand.

Variants are read as the same tree up to where its elements stand (`Variant.parse`). A document
without tabs is a variant of itself (`variant_self`), so that the relation leaves none out. -/

namespace TagScript.Markup

open Text (Spaced)

/-! ## What is written -/

/-- The text writes the attribute, after layout, in quotes of either style; the raw value spells the
    value and holds no tab. -/
inductive WritesAttribute : String × String → List Char → Prop where
  | mk {gap name left right raw value : List Char} {quote : Char} :
      IsLayout gap → IsName name → IsLayout left → IsLayout right →
      (quote = Text.doubleQuote ∨ quote = Text.singleQuote) →
      (∀ c ∈ raw, c ≠ quote ∧ c ≠ '<') → '\t' ∉ raw → Entity.Spells raw value →
      WritesAttribute (String.ofList name, String.ofList value)
        (gap ++ name ++ left ++ ['='] ++ right ++ [quote] ++ raw ++ [quote])

/-- The text writes the attributes, one after another. -/
inductive WritesAttributes : List (String × String) → List Char → Prop where
  | nil : WritesAttributes [] []
  | cons {a : String × String} {as : List (String × String)} {s rest : List Char} :
      WritesAttribute a s → WritesAttributes as rest → WritesAttributes (a :: as) (s ++ rest)

/-- The text between `<` and the end of an opening tag: the tag in any case, the attributes, and
    layout. What follows in the opening tag is `close`. -/
structure WritesOpening (close tag : List Char) (as : List (String × String)) (s : List Char) :
    Prop where
  parts : ∃ name attrs gap, s = name ++ attrs ++ gap ∧ IsName name ∧ lowerCase name = tag ∧
    WritesAttributes as attrs ∧ IsLayout gap ∧ StartsWithout isNameRest (attrs ++ gap ++ close)
  distinct : (as.map Prod.fst).Nodup

/-- The text between `</` and `>`: the tag in any case, and layout. -/
inductive WritesClosing (tag : List Char) : List Char → Prop where
  | mk {name gap : List Char} : IsName name → lowerCase name = tag → IsLayout gap →
      WritesClosing tag (name ++ gap)

/-- What may stand between the children of an element: comments, and text without `<`. -/
inductive Filler : List Char → Prop where
  | nil : Filler []
  | comment {s rest : List Char} : Comment s → Filler rest → Filler (s ++ rest)
  | text {s rest : List Char} : '<' ∉ s → Filler rest → Filler (s ++ rest)

/-! ## Variants -/

mutual

/-- Two ways to write an element: the same tag and attributes, and content written in two ways. -/
inductive ElementVariant : List Char → List Char → Prop where
  | empty {tag opening opening' : List Char} {as : List (String × String)} :
      WritesOpening ['/', '>'] tag as opening → WritesOpening ['/', '>'] tag as opening' →
      ElementVariant (['<'] ++ opening ++ ['/', '>']) (['<'] ++ opening' ++ ['/', '>'])
  | full {tag opening opening' inner inner' closing closing' : List Char}
      {as : List (String × String)} :
      WritesOpening ['>'] tag as opening → WritesOpening ['>'] tag as opening' →
      ContentsVariant inner inner' →
      WritesClosing tag closing → WritesClosing tag closing' →
      ElementVariant (['<'] ++ opening ++ ['>'] ++ inner ++ ['<', '/'] ++ closing ++ ['>'])
        (['<'] ++ opening' ++ ['>'] ++ inner' ++ ['<', '/'] ++ closing' ++ ['>'])

/-- Two ways to write the content of an element: the same children, each written in two ways, with
    anything that may stand between children before, between and after them. -/
inductive ContentsVariant : List Char → List Char → Prop where
  | nil {s s' : List Char} : Filler s → Filler s' → ContentsVariant s s'
  | cons {s s' child child' rest rest' : List Char} : Filler s → Filler s' →
      ElementVariant child child' → ContentsVariant rest rest' →
      ContentsVariant (s ++ child ++ rest) (s' ++ child' ++ rest')

end

/-- Two ways to write a document: the same element, written in two ways, and anything that may stand
    around it. -/
inductive Variant : List Char → List Char → Prop where
  | mk {before before' s s' after after' : List Char} : Surroundings before →
      Surroundings before' → ElementVariant s s' → Surroundings after → Surroundings after' →
      Variant (before ++ s ++ after) (before' ++ s' ++ after')

/-! ## One text with its tabs expanded -/

theorem WritesAttribute.spaced {a : String × String} {s t : List Char} (h : WritesAttribute a s)
    (hs : Spaced s t) : Attribute t a := by
  obtain @⟨gap, name, left, right, raw, value, quote, hgap, hname, hleft, hright, hquote, hraw,
    htab, hspells⟩ := h
  have hq : '\t' ∉ [quote] := by rcases hquote with rfl | rfl <;> decide
  obtain ⟨t₁, _, rfl, h₁, hclose⟩ := hs.of_append
  obtain ⟨t₂, _, rfl, h₂, hvalue⟩ := h₁.of_append
  obtain ⟨t₃, _, rfl, h₃, hopen⟩ := h₂.of_append
  obtain ⟨t₄, right', rfl, h₄, hr⟩ := h₃.of_append
  obtain ⟨t₅, _, rfl, h₅, hequals⟩ := h₄.of_append
  obtain ⟨t₆, left', rfl, h₆, hl⟩ := h₅.of_append
  obtain ⟨gap', _, rfl, hg, hn⟩ := h₆.of_append
  rw [hclose.eq_of_not_mem hq, hvalue.eq_of_not_mem htab, hopen.eq_of_not_mem hq,
    hequals.eq_of_not_mem (by decide), hname.spaced_eq hn]
  exact .mk (hgap.spaced hg) hname (hleft.spaced hl) (hright.spaced hr) hquote hraw hspells.decode

theorem WritesAttributes.spaced {as : List (String × String)} {s t : List Char}
    (h : WritesAttributes as s) (hs : Spaced s t) : Attributes t as := by
  induction h generalizing t with
  | nil =>
      cases hs
      exact .nil
  | cons ha _ ih =>
      obtain ⟨u, v, rfl, hu, hv⟩ := hs.of_append
      exact .cons (ha.spaced hu) (ih hv)

theorem WritesOpening.spaced {close tag s t : List Char} {as : List (String × String)}
    (h : WritesOpening close tag as s) (hclose : '\t' ∉ close) (hs : Spaced s t) :
    ∃ name, lowerCase name = tag ∧ Opening close name as t := by
  obtain ⟨⟨name, attrs, gap, rfl, hname, hlower, hattrs, hgap, hstart⟩, hdistinct⟩ := h
  obtain ⟨u, gap', rfl, hu, hg⟩ := hs.of_append
  obtain ⟨_, attrs', rfl, hn, ha⟩ := hu.of_append
  rw [hname.spaced_eq hn]
  refine ⟨name, hlower, hname, ⟨attrs', gap', rfl, hattrs.spaced ha, hgap.spaced hg, ?_⟩, hdistinct⟩
  exact hstart.spaced ((ha.append hg).append (.of_not_mem hclose))

theorem WritesClosing.spaced {tag s t : List Char} (h : WritesClosing tag s) (hs : Spaced s t) :
    WritesClosing tag t := by
  obtain ⟨hname, hlower, hgap⟩ := h
  obtain ⟨_, gap', rfl, hn, hg⟩ := hs.of_append
  rw [hname.spaced_eq hn]
  exact .mk hname hlower (hgap.spaced hg)

variable {file file' : String}

/-- Fillers add no children. -/
theorem Filler.contents {s t before rest : List Char} {ns : List Node} (h : Filler s)
    (hs : Spaced s t) (hrest : Contents file (before ++ t) rest ns) :
    Contents file before (t ++ rest) ns := by
  induction h generalizing t before with
  | nil =>
      cases hs
      simpa using hrest
  | comment hcomment _ ih =>
      obtain ⟨u, v, rfl, hu, hv⟩ := hs.of_append
      rw [List.append_assoc]
      exact .comment (hcomment.spaced hu) (ih hv (by simpa using hrest))
  | text htext _ ih =>
      obtain ⟨u, v, rfl, hu, hv⟩ := hs.of_append
      rw [List.append_assoc]
      exact Contents.text_append (not_mem_of_spaced htext hu) (ih hv (by simpa using hrest))

/-- An element without content. -/
theorem element_of_empty {tag opening t : List Char} {as : List (String × String)}
    (ho : WritesOpening ['/', '>'] tag as opening)
    (hs : Spaced (['<'] ++ opening ++ ['/', '>']) t) (before : List Char) :
    ∃ n, Element file before t n ∧
      n.bare = .mk (String.ofList tag) as [] ⟨Span.nowhere, false⟩ := by
  obtain ⟨u, _, rfl, hu, hclose⟩ := hs.of_append
  obtain ⟨_, opening', rfl, hmark, hopening⟩ := hu.of_append
  obtain ⟨name, rfl, hopening⟩ := ho.spaced (by decide) hopening
  rw [hclose.eq_of_not_mem (by decide), hmark.eq_of_not_mem (by decide)]
  exact ⟨_, .empty hopening, rfl⟩

/-- An element with content, the content being whatever the expanded text of it gives. -/
theorem element_of_full {tag opening inner closing t : List Char} {as : List (String × String)}
    (ho : WritesOpening ['>'] tag as opening) (hc : WritesClosing tag closing)
    (hs : Spaced (['<'] ++ opening ++ ['>'] ++ inner ++ ['<', '/'] ++ closing ++ ['>']) t) :
    ∃ start inner', Spaced inner inner' ∧ ∀ file before ns,
      Contents file (before ++ start) inner' ns → ∃ n, Element file before t n ∧
        n.bare = .mk (String.ofList tag) as (Node.bareAll ns) ⟨Span.nowhere, false⟩ := by
  obtain ⟨t₁, _, rfl, h₁, hend⟩ := hs.of_append
  obtain ⟨t₂, closing', rfl, h₂, hclosing⟩ := h₁.of_append
  obtain ⟨t₃, _, rfl, h₃, hslash⟩ := h₂.of_append
  obtain ⟨t₄, inner', rfl, h₄, hinner⟩ := h₃.of_append
  obtain ⟨t₅, _, rfl, h₅, hclose⟩ := h₄.of_append
  obtain ⟨_, opening', rfl, hmark, hopening⟩ := h₅.of_append
  obtain ⟨name, rfl, hopening⟩ := ho.spaced (by decide) hopening
  obtain ⟨hname, hlower, hgap⟩ := hc.spaced hclosing
  rw [hend.eq_of_not_mem (by decide), hslash.eq_of_not_mem (by decide),
    hclose.eq_of_not_mem (by decide), hmark.eq_of_not_mem (by decide)]
  refine ⟨['<'] ++ opening' ++ ['>'], inner', hinner, fun file before ns hns => ?_⟩
  have helement := Element.full hopening hns hname hlower hgap
  exact ⟨_, by simpa only [List.append_assoc] using helement, rfl⟩

/-! ## Both texts -/

mutual

/-- The two ways to write an element are read as the same tree up to its places. -/
theorem ElementVariant.elements : ∀ {s s' : List Char}, ElementVariant s s' →
    ∀ {t t'}, Spaced s t → Spaced s' t' → ∀ before before',
      ∃ n n', Element file before t n ∧ Element file' before' t' n' ∧ n.bare = n'.bare
  | _, _, .empty ho ho', _, _, ht, ht', before, before' => by
      obtain ⟨n, hn, hbare⟩ := element_of_empty ho ht before
      obtain ⟨n', hn', hbare'⟩ := element_of_empty ho' ht' before'
      exact ⟨n, n', hn, hn', hbare.trans hbare'.symm⟩
  | _, _, .full ho ho' hinner hc hc', _, _, ht, ht', before, before' => by
      obtain ⟨start, inner, hspaced, hfull⟩ := element_of_full ho hc ht
      obtain ⟨start', inner', hspaced', hfull'⟩ := element_of_full ho' hc' ht'
      obtain ⟨ns, ns', hns, hns', hsame⟩ :=
        ContentsVariant.contents hinner hspaced hspaced' (before ++ start) (before' ++ start')
      obtain ⟨n, hn, hbare⟩ := hfull file before ns hns
      obtain ⟨n', hn', hbare'⟩ := hfull' file' before' ns' hns'
      refine ⟨n, n', hn, hn', ?_⟩
      rw [hbare, hbare', hsame]

theorem ContentsVariant.contents : ∀ {s s' : List Char}, ContentsVariant s s' →
    ∀ {t t'}, Spaced s t → Spaced s' t' → ∀ before before',
      ∃ ns ns', Contents file before t ns ∧ Contents file' before' t' ns' ∧
        Node.bareAll ns = Node.bareAll ns'
  | _, _, .nil hs hs', t, t', ht, ht', before, before' => by
      have hnil : Contents file before (t ++ []) [] := hs.contents ht .nil
      have hnil' : Contents file' before' (t' ++ []) [] := hs'.contents ht' .nil
      rw [List.append_nil] at hnil hnil'
      exact ⟨[], [], hnil, hnil', rfl⟩
  | _, _, .cons hs hs' hchild hrest, _, _, ht, ht', before, before' => by
      obtain ⟨u, rest, rfl, hu, hr⟩ := ht.of_append
      obtain ⟨fill, child, rfl, hf, hc⟩ := hu.of_append
      obtain ⟨u', rest', rfl, hu', hr'⟩ := ht'.of_append
      obtain ⟨fill', child', rfl, hf', hc'⟩ := hu'.of_append
      obtain ⟨n, n', hn, hn', hbare⟩ :=
        ElementVariant.elements hchild hc hc' (before ++ fill) (before' ++ fill')
      obtain ⟨ns, ns', hns, hns', hall⟩ := ContentsVariant.contents hrest hr hr'
        (before ++ fill ++ child) (before' ++ fill' ++ child')
      refine ⟨n :: ns, n' :: ns', ?_, ?_, ?_⟩
      · rw [List.append_assoc]
        exact hs.contents hf (.element hn hns)
      · rw [List.append_assoc]
        exact hs'.contents hf' (.element hn' hns')
      · simp only [Node.bareAll, hbare, hall]

end

/-- Variants are read as the same tree up to where its elements stand. -/
theorem Variant.parse {d d' : String} (h : Variant d.toList d'.toList) (file file' : String) :
    ∃ root root', Markup.parse .document file d = .ok root ∧
      Markup.parse .document file' d' = .ok root' ∧ root.bare = root'.bare := by
  have ht : Spaced d.toList (Mode.document.prepare d.toList) := .expandTabsFrom 0 _
  have ht' : Spaced d'.toList (Mode.document.prepare d'.toList) := .expandTabsFrom 0 _
  generalize hs : d.toList = s at h ht
  generalize hs' : d'.toList = s' at h ht'
  obtain ⟨hbefore, hbefore', helement, hafter, hafter'⟩ := h
  obtain ⟨u, after, hu, h₁, ha⟩ := ht.of_append
  obtain ⟨before, e, rfl, hb, he⟩ := h₁.of_append
  obtain ⟨u', after', hu', h₁', ha'⟩ := ht'.of_append
  obtain ⟨before', e', rfl, hb', he'⟩ := h₁'.of_append
  obtain ⟨root, root', hroot, hroot', hbare⟩ :=
    @ElementVariant.elements file file' _ _ helement _ _ he he' before before'
  refine ⟨root, root', parse_eq_ok.2 ?_, parse_eq_ok.2 ?_, hbare⟩
  · rw [hs, hu]
    exact .mk (hbefore.spaced hb) hroot (hafter.spaced ha)
  · rw [hs', hu']
    exact .mk (hbefore'.spaced hb') hroot' (hafter'.spaced ha')

/-! ## Documents as variants of themselves -/

theorem Attribute.writes {s : List Char} {a : String × String} (h : Attribute s a)
    (htab : '\t' ∉ s) : WritesAttribute a s := by
  obtain ⟨hgap, hname, hleft, hright, hquote, hraw, hdecode⟩ := h
  simp only [List.mem_append, not_or] at htab
  exact .mk hgap hname hleft hright hquote hraw htab.1.2 (Entity.decode_eq_ok.1 hdecode)

theorem Attributes.writes {s : List Char} {as : List (String × String)} (h : Attributes s as)
    (htab : '\t' ∉ s) : WritesAttributes as s := by
  induction h with
  | nil => exact .nil
  | cons ha _ ih =>
      simp only [List.mem_append, not_or] at htab
      exact .cons (ha.writes htab.1) (ih htab.2)

theorem Opening.writes {close name s : List Char} {as : List (String × String)}
    (h : Opening close name as s) (htab : '\t' ∉ s) :
    WritesOpening close (lowerCase name) as s := by
  obtain ⟨hname, ⟨attrs, gap, rfl, hattrs, hgap, hstart⟩, hdistinct⟩ := h
  simp only [List.mem_append, not_or] at htab
  exact ⟨⟨name, attrs, gap, rfl, hname, rfl, hattrs.writes htab.1.2, hgap, hstart⟩, hdistinct⟩

theorem Filler.append {s t : List Char} (hs : Filler s) (ht : Filler t) : Filler (s ++ t) := by
  induction hs with
  | nil => exact ht
  | comment hcomment _ ih =>
      rw [List.append_assoc]
      exact .comment hcomment ih
  | text htext _ ih =>
      rw [List.append_assoc]
      exact .text htext ih

/-- More filler before the content. -/
theorem ContentsVariant.prepend {s t t' : List Char} (hs : Filler s) (h : ContentsVariant t t') :
    ContentsVariant (s ++ t) (s ++ t') := by
  cases h with
  | nil ht ht' => exact .nil (hs.append ht) (hs.append ht')
  | cons ht ht' hchild hrest =>
      have hmore := ContentsVariant.cons (hs.append ht) (hs.append ht') hchild hrest
      simpa only [List.append_assoc] using hmore

mutual

theorem Element.variant {file : String} : ∀ {before s : List Char} {n : Node},
    Element file before s n → '\t' ∉ s → ElementVariant s s
  | _, _, _, .empty hopening, htab => by
      simp only [List.mem_append, not_or] at htab
      exact .empty (hopening.writes htab.1.2) (hopening.writes htab.1.2)
  | _, _, _, .full hopening hinner hname hlower hgap, htab => by
      simp only [List.mem_append, not_or] at htab
      obtain ⟨⟨⟨⟨⟨⟨⟨-, ho⟩, -⟩, hi⟩, -⟩, -⟩, -⟩, -⟩ := htab
      have hclosing := WritesClosing.mk hname hlower hgap
      have hfull := ElementVariant.full (hopening.writes ho) (hopening.writes ho)
        (hinner.variant hi) hclosing hclosing
      simpa only [List.append_assoc] using hfull

theorem Contents.variant {file : String} : ∀ {before s : List Char} {ns : List Node},
    Contents file before s ns → '\t' ∉ s → ContentsVariant s s
  | _, _, _, .nil, _ => .nil .nil .nil
  | _, _, _, .comment hcomment hrest, htab => by
      simp only [List.mem_append, not_or] at htab
      have hfiller := Filler.comment hcomment .nil
      rw [List.append_nil] at hfiller
      exact (hrest.variant htab.2).prepend hfiller
  | _, _, _, .text _ htext hrest, htab => by
      simp only [List.mem_append, not_or] at htab
      have hfiller := Filler.text htext .nil
      rw [List.append_nil] at hfiller
      exact (hrest.variant htab.2).prepend hfiller
  | _, _, _, .element hn hrest, htab => by
      simp only [List.mem_append, not_or] at htab
      exact .cons .nil .nil (hn.variant htab.1) (hrest.variant htab.2)

end

/-- Every document without tabs is a variant of itself. -/
theorem variant_self {file text : String} {root : Node} (htab : '\t' ∉ text.toList)
    (h : parse .document file text = .ok root) : Variant text.toList text.toList := by
  have hprepare : Mode.document.prepare text.toList = text.toList :=
    Text.expandTabsFrom_of_not_mem 0 _ htab
  have hderives := parse_eq_ok.1 h
  rw [hprepare] at hderives
  generalize text.toList = s at htab hderives
  obtain ⟨hbefore, helement, hafter⟩ := hderives
  simp only [List.mem_append, not_or] at htab
  exact .mk hbefore hbefore (helement.variant htab.1.2) hafter hafter

end TagScript.Markup
