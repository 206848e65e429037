import TagScript.Proofs.Markup.Named
import TagScript.Proofs.Text.Outline
import TagScript.Proofs.Text.Quoted

set_option autoImplicit false

/-! # The outline of a tree

The outline of a tree is an outline of headings, each a tag with its attributes. If tags and
attribute names are names, then a heading can be taken apart again: a tag ends where a name ends,
and so does the name of an attribute, and a quoted value shows its own end. -/

namespace TagScript

open Text (Outline quotedChars quotedChars_append_inj lineFeed_not_mem_quotedChars)
open Text.Outline (IsHeading LegibleAll append_inj_of_without render renderAll)

namespace Markup

/-! ## Headings of elements -/

/-- An attribute in a heading. -/
def attributeChars (a : String × String) : List Char :=
  a.1.toList ++ '=' :: quotedChars a.2.toList

/-- The attributes after the first one, and the bracket at the end. -/
def attributesEnd : List (String × String) → List Char
  | [] => [']']
  | a :: rest => ' ' :: (attributeChars a ++ attributesEnd rest)

/-- What comes after the tag in a heading. -/
def attributesPart : List (String × String) → List Char
  | [] => []
  | a :: rest => ' ' :: '[' :: (attributeChars a ++ attributesEnd rest)

theorem toList_headline (tag : String) (as : List (String × String)) :
    (Node.headline tag as).toList = tag.toList ++ attributesPart as := by
  have hattribute : ∀ a : String × String,
      (a.1 ++ "=" ++ Text.quoted a.2).toList = attributeChars a := by
    intro a
    simp [attributeChars, Text.quoted]
  have hlist : ∀ (a : String × String) (rest : List (String × String)),
      (" ".intercalate ((a :: rest).map fun a => a.1 ++ "=" ++ Text.quoted a.2)).toList ++ [']']
        = attributeChars a ++ attributesEnd rest := by
    intro a rest
    induction rest generalizing a with
    | nil => simp [hattribute, attributesEnd]
    | cons b rest ih =>
        have hrest := ih b
        rw [List.map_cons] at hrest
        rw [List.map_cons, List.map_cons, String.intercalate_cons_cons, String.toList_append,
          String.toList_append, List.append_assoc, List.append_assoc, hrest, hattribute]
        rfl
  cases as with
  | nil => simp [Node.headline, attributesPart]
  | cons a rest =>
      have hshown : Node.headline tag (a :: rest) = tag ++ " ["
          ++ " ".intercalate ((a :: rest).map fun a => a.1 ++ "=" ++ Text.quoted a.2) ++ "]" := rfl
      have hbracket : "]".toList = [']'] := rfl
      simp only [hshown, String.toList_append, List.append_assoc, hbracket, hlist]
      rfl

theorem attributeChars_append_inj {a b : String × String} {r r' : List Char}
    (ha : IsName a.1.toList) (hb : IsName b.1.toList)
    (h : attributeChars a ++ r = attributeChars b ++ r') : a = b ∧ r = r' := by
  simp only [attributeChars, List.append_assoc, List.cons_append] at h
  obtain ⟨hname, hrest⟩ := append_inj_of_without ha.all hb.all (.cons (by decide) _)
    (.cons (by decide) _) h
  obtain ⟨hvalue, hr⟩ := quotedChars_append_inj (List.cons.inj hrest).2
  exact ⟨Prod.ext (String.toList_inj.1 hname) (String.toList_inj.1 hvalue), hr⟩

theorem attributesEnd_inj {as bs : List (String × String)} (has : ∀ a ∈ as, IsName a.1.toList)
    (hbs : ∀ b ∈ bs, IsName b.1.toList) (h : attributesEnd as = attributesEnd bs) : as = bs := by
  induction as generalizing bs with
  | nil =>
      cases bs with
      | nil => rfl
      | cons b bs => simp [attributesEnd] at h
  | cons a as ih =>
      cases bs with
      | nil => simp [attributesEnd] at h
      | cons b bs =>
          rw [List.forall_mem_cons] at has hbs
          obtain ⟨rfl, hrest⟩ := attributeChars_append_inj has.1 hbs.1 (List.cons.inj h).2
          rw [ih has.2 hbs.2 hrest]

theorem attributesPart_inj {as bs : List (String × String)} (has : ∀ a ∈ as, IsName a.1.toList)
    (hbs : ∀ b ∈ bs, IsName b.1.toList) (h : attributesPart as = attributesPart bs) :
    as = bs := by
  cases as with
  | nil =>
      cases bs with
      | nil => rfl
      | cons b bs => cases h
  | cons a as =>
      cases bs with
      | nil => cases h
      | cons b bs =>
          rw [List.forall_mem_cons] at has hbs
          obtain ⟨rfl, hrest⟩ :=
            attributeChars_append_inj has.1 hbs.1 (List.cons.inj (List.cons.inj h).2).2
          rw [attributesEnd_inj has.2 hbs.2 hrest]

theorem attributesPart_without (as : List (String × String)) :
    StartsWithout isNameRest (attributesPart as) := by
  cases as with
  | nil => exact .nil
  | cons a rest => exact .cons (by decide) _

/-- The heading of a named element can be taken apart. -/
theorem headline_inj {tag tag' : String} {as bs : List (String × String)}
    (htag : IsName tag.toList) (htag' : IsName tag'.toList) (has : ∀ a ∈ as, IsName a.1.toList)
    (hbs : ∀ b ∈ bs, IsName b.1.toList)
    (h : (Node.headline tag as).toList = (Node.headline tag' bs).toList) :
    tag = tag' ∧ as = bs := by
  rw [toList_headline, toList_headline] at h
  obtain ⟨htags, hparts⟩ := append_inj_of_without htag.all htag'.all (attributesPart_without as)
    (attributesPart_without bs) h
  exact ⟨String.toList_inj.1 htags, attributesPart_inj has hbs hparts⟩

theorem IsName.lineFeed_not_mem {s : List Char} (h : IsName s) : '\n' ∉ s := by
  intro hmem
  exact absurd (h.all _ hmem) (by decide)

theorem lineFeed_not_mem_attributeChars {a : String × String} (h : IsName a.1.toList) :
    '\n' ∉ attributeChars a := by
  simp [attributeChars, h.lineFeed_not_mem, lineFeed_not_mem_quotedChars]

theorem lineFeed_not_mem_attributesEnd {as : List (String × String)}
    (h : ∀ a ∈ as, IsName a.1.toList) : '\n' ∉ attributesEnd as := by
  induction as with
  | nil => decide
  | cons a rest ih =>
      rw [List.forall_mem_cons] at h
      simp [attributesEnd, lineFeed_not_mem_attributeChars h.1, ih h.2]

theorem isHeading_headline {tag : String} {as : List (String × String)}
    (htag : IsName tag.toList) (has : ∀ a ∈ as, IsName a.1.toList) :
    IsHeading (Node.headline tag as).toList := by
  have hne : tag.toList ≠ [] := by
    intro hnil
    rw [hnil] at htag
    exact htag
  rw [toList_headline]
  refine ⟨List.append_ne_nil_of_left_ne_nil hne _, ?_, ?_⟩
  · rw [StartsWithout.append_iff hne]
    intro c hc
    have hname := htag.all c (List.mem_of_head? hc)
    rw [beq_eq_false_iff_ne]
    intro hspace
    subst hspace
    exact absurd hname (by decide)
  · rw [List.mem_append, not_or]
    refine ⟨htag.lineFeed_not_mem, ?_⟩
    cases as with
    | nil => simp [attributesPart]
    | cons a rest =>
        rw [List.forall_mem_cons] at has
        simp [attributesPart, lineFeed_not_mem_attributeChars has.1,
          lineFeed_not_mem_attributesEnd has.2]

/-! ## Trees -/

namespace Node

mutual

/-- The headings of a tree. -/
def headings : Node → Outline
  | mk t as cs _ => .mk (headline t as).toList (headingsAll cs)

/-- The headings of a list of trees. -/
def headingsAll : List Node → List Outline
  | [] => []
  | n :: rest => headings n :: headingsAll rest

end

mutual

theorem toList_outline : (n : Node) → (level : Nat) →
    (n.outline level).toList = n.headings.render level
  | .mk t as cs e, level => by
    simp only [outline, headings, render, String.toList_append, List.append_assoc,
      toList_outlineAll cs]
    simp [Text.indentation]

theorem toList_outlineAll : (ns : List Node) → (level : Nat) →
    (outlineAll level ns).toList = renderAll level (headingsAll ns)
  | [], _ => rfl
  | n :: rest, level => by
    simp only [outlineAll, headingsAll, renderAll, String.toList_append, toList_outline n,
      toList_outlineAll rest]

end

mutual

theorem legible_headings : (n : Node) → n.WellNamed → n.headings.Legible
  | .mk t as cs e, hn => by
    have hnamed := hn _ (self_mem_postorder _)
    exact .mk (isHeading_headline hnamed.tag hnamed.names) (legibleAll_headings cs hn.of_child)

theorem legibleAll_headings : (ns : List Node) → (∀ n ∈ ns, n.WellNamed) →
    LegibleAll (headingsAll ns)
  | [], _ => .nil
  | n :: rest, hns =>
    .cons (legible_headings n (hns n List.mem_cons_self))
      (legibleAll_headings rest fun m hm => hns m (List.mem_cons_of_mem n hm))

end

mutual

/-- Trees with the same headings are the same up to where their elements stand. -/
theorem bare_eq_of_headings : (n m : Node) → n.WellNamed → m.WellNamed →
    n.headings = m.headings → n.bare = m.bare
  | .mk t as cs e, .mk t' as' cs' e', hn, hm, h => by
    simp only [headings, Outline.mk.injEq] at h
    have hnamed := hn _ (self_mem_postorder _)
    have hnamed' := hm _ (self_mem_postorder _)
    have hsame : t = t' ∧ as = as' :=
      headline_inj hnamed.tag hnamed'.tag hnamed.names hnamed'.names h.1
    obtain ⟨rfl, rfl⟩ := hsame
    simp only [bare, bareAll_eq_of_headings cs cs' hn.of_child hm.of_child h.2]

theorem bareAll_eq_of_headings : (ns ms : List Node) → (∀ n ∈ ns, n.WellNamed) →
    (∀ m ∈ ms, m.WellNamed) → headingsAll ns = headingsAll ms → bareAll ns = bareAll ms
  | [], [], _, _, _ => rfl
  | n :: ns, m :: ms, hns, hms, h => by
    simp only [headingsAll, List.cons.injEq] at h
    rw [List.forall_mem_cons] at hns hms
    simp only [bareAll, bare_eq_of_headings n m hns.1 hms.1 h.1,
      bareAll_eq_of_headings ns ms hns.2 hms.2 h.2]

end

end Node

end Markup

end TagScript
