import TagScript.Proofs.Markup.Bare
import TagScript.Proofs.Markup.Exact
import TagScript.Proofs.Markup.Spaced
import TagScript.Proofs.Markup.Spelling
import TagScript.Proofs.Shape.Analysis

set_option autoImplicit false

/-! # Writing a tree and reading it back

A tree is written with `&`, `<` and `"` in its attribute values replaced by their entities and
everything else as it is. What is read back is the tree again, except that the tabs of its values
have become spaces: tabs are expanded in the whole source, quoted values included, before anything
is read. So a tree comes back as it was, up to where its elements stand, if and only if no value
holds a tab. -/

namespace TagScript.Markup

/-! ## Writing -/

/-- How a character of a value is written. -/
def escape (c : Char) : List Char :=
  if c = '&' then ['&', 'a', 'm', 'p', ';']
  else if c = '<' then ['&', 'l', 't', ';']
  else if c = Text.doubleQuote then ['&', 'q', 'u', 'o', 't', ';']
  else [c]

/-- A value as it is written between double quotes. -/
def writeValue (v : List Char) : List Char := v.flatMap escape

/-- Attributes as they are written, each after a space. -/
def writeAttributes : List (String × String) → List Char
  | [] => []
  | (k, v) :: rest =>
    [' '] ++ k.toList ++ ['='] ++ [Text.doubleQuote] ++ writeValue v.toList ++ [Text.doubleQuote]
      ++ writeAttributes rest

mutual

/-- An element as it is written; without children it is one tag. -/
def Node.write : Node → List Char
  | .mk tag attributes [] _ => ['<'] ++ (tag.toList ++ writeAttributes attributes) ++ ['/', '>']
  | .mk tag attributes (c :: cs) _ =>
    ['<'] ++ (tag.toList ++ writeAttributes attributes) ++ ['>'] ++ (Node.write c ++ writeAll cs)
      ++ ['<', '/'] ++ tag.toList ++ ['>']

/-- Elements as they are written, with nothing between them. -/
def writeAll : List Node → List Char
  | [] => []
  | n :: rest => Node.write n ++ writeAll rest

end

/-! ## Names -/

namespace Node

/-- The tag of the element is a name in lower case, and its attributes have names, no two of them
    the same. -/
structure Named (n : Node) : Prop where
  tag : IsName n.tag.toList
  lower : lowerCase n.tag.toList = n.tag.toList
  names : ∀ a ∈ n.attributes, IsName a.1.toList
  distinct : (n.attributes.map Prod.fst).Nodup

/-- All elements of the tree are named. -/
def WellNamed (n : Node) : Prop := ∀ m ∈ n.postorder, m.Named

/-- No attribute value of the tree holds a tab. -/
def TabFree (n : Node) : Prop := ∀ m ∈ n.postorder, ∀ a ∈ m.attributes, '\t' ∉ a.2.toList

end Node

/-! ## Trees with spaces for tabs -/

/-- The same attribute names in the same order, with spaces for the tabs of the values. -/
inductive AttributesSpaced : List (String × String) → List (String × String) → Prop where
  | nil : AttributesSpaced [] []
  | cons {k v w : String} {as bs : List (String × String)} : Text.Spaced v.toList w.toList →
      AttributesSpaced as bs → AttributesSpaced ((k, v) :: as) ((k, w) :: bs)

mutual

/-- The same tree, wherever its elements stand, with spaces for the tabs of the values. -/
inductive Node.Spaced : Node → Node → Prop where
  | mk {tag : String} {as bs : List (String × String)} {cs ds : List Node} {e f : Extent} :
      AttributesSpaced as bs → AllSpaced cs ds → Node.Spaced (.mk tag as cs e) (.mk tag bs ds f)

/-- The same trees, with spaces for the tabs of the values. -/
inductive AllSpaced : List Node → List Node → Prop where
  | nil : AllSpaced [] []
  | cons {n m : Node} {ns ms : List Node} : Node.Spaced n m → AllSpaced ns ms →
      AllSpaced (n :: ns) (m :: ms)

end

theorem AttributesSpaced.names_eq {as bs : List (String × String)} (h : AttributesSpaced as bs) :
    bs.map Prod.fst = as.map Prod.fst := by
  induction h with
  | nil => rfl
  | cons _ _ ih => simp only [List.map_cons, ih]

/-- The values are the same if and only if no value holds a tab. -/
theorem AttributesSpaced.eq_iff {as bs : List (String × String)} (h : AttributesSpaced as bs) :
    bs = as ↔ ∀ a ∈ as, '\t' ∉ a.2.toList := by
  induction h with
  | nil => simp
  | @cons k v w as bs hv _ ih =>
      have hvalue : w = v ↔ '\t' ∉ v.toList := by
        constructor
        · rintro rfl
          exact hv.not_mem
        · intro htab
          exact String.toList_inj.1 (hv.eq_of_not_mem htab)
      simp [ih, hvalue]

mutual

/-- The trees are the same up to their places if and only if no value holds a tab. -/
theorem Node.Spaced.bare_eq_iff : {n m : Node} → n.Spaced m → (m.bare = n.bare ↔ n.TabFree)
  | _, _, @Node.Spaced.mk tag as _ cs _ e _ has hcs => by
      have hall := AllSpaced.bareAll_eq_iff hcs
      have htabs : Node.TabFree (.mk tag as cs e) ↔
          (∀ m ∈ Node.postorderAll cs, ∀ a ∈ m.attributes, '\t' ∉ a.2.toList) ∧
            ∀ a ∈ as, '\t' ∉ a.2.toList := by
        simp [Node.TabFree, Node.postorder, or_imp, forall_and, Node.attributes]
      simp only [Node.bare, Node.mk.injEq, true_and, has.eq_iff, hall, htabs, and_comm]

theorem AllSpaced.bareAll_eq_iff : {ns ms : List Node} → AllSpaced ns ms →
    (Node.bareAll ms = Node.bareAll ns
      ↔ ∀ m ∈ Node.postorderAll ns, ∀ a ∈ m.attributes, '\t' ∉ a.2.toList)
  | _, _, .nil => by simp [Node.bareAll, Node.postorderAll]
  | _, _, .cons hn hrest => by
      have hhead := Node.Spaced.bare_eq_iff hn
      have htail := AllSpaced.bareAll_eq_iff hrest
      unfold Node.TabFree at hhead
      simp only [Node.bareAll, Node.postorderAll, List.cons.injEq, hhead, htail, List.mem_append,
        or_imp, forall_and]

end

/-! ## Values -/

theorem writeValue_spells (v : List Char) : Entity.Spells (writeValue v) v := by
  induction v with
  | nil => exact .nil
  | cons c rest ih =>
      refine .cons ?_ ih
      unfold escape
      split
      · rename_i hc
        subst hc
        exact .reference (b := ['a', 'm', 'p']) (.named (by decide))
      · rename_i hamp
        split
        · rename_i hc
          subst hc
          exact .reference (b := ['l', 't']) (.named (by decide))
        · split
          · rename_i hc
            subst hc
            exact .reference (b := ['q', 'u', 'o', 't']) (.named (by decide))
          · exact .literal hamp

theorem mem_writeValue {v : List Char} :
    ∀ c ∈ writeValue v, c ≠ Text.doubleQuote ∧ c ≠ '<' := by
  intro c hc
  obtain ⟨d, _, hd⟩ := List.mem_flatMap.1 hc
  have hentity : ∀ s : List Char, (s.all fun x => x != Text.doubleQuote && x != '<') = true →
      c ∈ s → c ≠ Text.doubleQuote ∧ c ≠ '<' := by
    intro s hs hmem
    simpa using List.all_eq_true.1 hs c hmem
  unfold escape at hd
  split at hd
  · exact hentity _ (by decide) hd
  · split at hd
    · exact hentity _ (by decide) hd
    · split at hd
      · exact hentity _ (by decide) hd
      · rw [List.mem_singleton.1 hd]
        exact ⟨‹_›, ‹_›⟩

theorem writeValue_append (v w : List Char) : writeValue (v ++ w) = writeValue v ++ writeValue w :=
  List.flatMap_append

theorem writeValue_spaces (n : Nat) :
    writeValue (List.replicate n ' ') = List.replicate n ' ' := by
  induction n with
  | zero => rfl
  | succ n ih =>
      rw [List.replicate_succ]
      exact congrArg (' ' :: ·) ih

theorem escape_spaced {c : Char} {s : List Char} (h : Text.Spaced (escape c) s) :
    ∃ w, s = writeValue w ∧ Text.Spaced [c] w := by
  by_cases hc : c = '\t'
  · subst hc
    have htab : Text.Spaced ['\t'] s := h
    cases htab with
    | char hne => exact absurd rfl hne
    | tab more hnil =>
        cases hnil
        refine ⟨List.replicate (more + 1) ' ', ?_, ?_⟩
        · rw [List.append_nil, writeValue_spaces]
        · rw [← List.append_nil (List.replicate _ _)]
          exact .tab more .nil
  · have hescape : '\t' ∉ escape c := by
      unfold escape
      split
      · decide
      · split
        · decide
        · split
          · decide
          · simpa using Ne.symm hc
    refine ⟨[c], ?_, .char hc .nil⟩
    rw [h.eq_of_not_mem hescape]
    exact (List.append_nil _).symm

/-- The tabs of a written value are those of the value. -/
theorem writeValue_spaced {v s : List Char} (h : Text.Spaced (writeValue v) s) :
    ∃ w, s = writeValue w ∧ Text.Spaced v w := by
  induction v generalizing s with
  | nil =>
      cases h
      exact ⟨[], rfl, .nil⟩
  | cons c rest ih =>
      obtain ⟨u, t, rfl, hu, ht⟩ := h.of_append
      obtain ⟨x, rfl, hx⟩ := escape_spaced hu
      obtain ⟨y, rfl, hy⟩ := ih ht
      exact ⟨x ++ y, (writeValue_append x y).symm, hx.append hy⟩

/-! ## Tags -/

theorem writeAttributes_spaced {as : List (String × String)} {s : List Char}
    (hnames : ∀ a ∈ as, IsName a.1.toList) (h : Text.Spaced (writeAttributes as) s) :
    ∃ bs, Attributes s bs ∧ AttributesSpaced as bs := by
  induction as generalizing s with
  | nil =>
      cases h
      exact ⟨[], .nil, .nil⟩
  | cons a as ih =>
      obtain ⟨k, v⟩ := a
      obtain ⟨u, t, rfl, hu, ht⟩ := h.of_append
      obtain ⟨bs, hbs, has⟩ := ih (fun a ha => hnames a (List.mem_cons_of_mem _ ha)) ht
      have hk : IsName k.toList := hnames (k, v) List.mem_cons_self
      obtain ⟨quoted, _, rfl, hquoted, hclose⟩ := hu.of_append
      obtain ⟨start, raw, rfl, hstart, hraw⟩ := hquoted.of_append
      obtain ⟨w, rfl, hw⟩ := writeValue_spaced hraw
      -- all but the value is free of tabs
      have hfree : '\t' ∉ [' '] ++ k.toList ++ ['='] ++ [Text.doubleQuote] := by
        simp [hk.not_mem_tab, Text.doubleQuote]
      rw [hclose.eq_of_not_mem (by decide), hstart.eq_of_not_mem hfree]
      refine ⟨(k, String.ofList w) :: bs, .cons ?_ hbs, .cons ?_ has⟩
      · have hgap : IsLayout [' '] := by decide
        have hattribute := Attribute.mk hgap hk .nil .nil (.inl rfl) (mem_writeValue (v := w))
          (writeValue_spells w).decode
        simpa using hattribute
      · simpa using hw

theorem opening_spaced {tag : String} {as : List (String × String)} {cs : List Node} {e : Extent}
    (h : Node.Named (.mk tag as cs e)) (close : List Char) {s : List Char}
    (hclose : StartsWithout isNameRest close) (htab : '\t' ∉ close)
    (hs : Text.Spaced (tag.toList ++ writeAttributes as) s) :
    ∃ bs, Opening close tag.toList bs s ∧ AttributesSpaced as bs := by
  obtain ⟨u, attrs, rfl, hu, hattrs⟩ := hs.of_append
  obtain ⟨bs, hbs, has⟩ := writeAttributes_spaced h.names hattrs
  have hstart : StartsWithout isNameRest (writeAttributes as ++ close) := by
    cases as with
    | nil => exact hclose
    | cons a as => exact .cons (by decide) _
  refine ⟨bs, ⟨h.tag, ⟨attrs, [], ?_, hbs, .nil, ?_⟩, ?_⟩, has⟩
  · rw [h.tag.spaced_eq hu, List.append_nil]
    rfl
  · rw [List.append_nil]
    exact hstart.spaced (hattrs.append (.of_not_mem htab))
  · rw [has.names_eq]
    exact h.distinct

/-! ## Elements -/

namespace Node

theorem WellNamed.of_child {tag : String} {as : List (String × String)} {cs : List Node}
    {e : Extent} (h : WellNamed (.mk tag as cs e)) : ∀ c ∈ cs, c.WellNamed := by
  intro c hc m hm
  exact h m (List.mem_append_left _ (postorder_subset_postorderAll hc hm))

end Node

variable {file : String}

mutual

/-- What has become of a written tree is the tree with spaces for its tabs. -/
theorem write_spaced : (n : Node) → n.WellNamed → ∀ {s : List Char}, Text.Spaced n.write s →
    ∀ before, ∃ m, Element file before s m ∧ n.Spaced m
  | .mk tag as [] e, hn, s, hs, before => by
      have hnamed := hn _ (Node.self_mem_postorder _)
      obtain ⟨u, _, rfl, hu, hclose⟩ := hs.of_append
      obtain ⟨_, opening, rfl, hmark, hopening⟩ := hu.of_append
      obtain ⟨bs, hopening, has⟩ :=
        opening_spaced hnamed ['/', '>'] (.cons (by decide) _) (by decide) hopening
      rw [hclose.eq_of_not_mem (by decide), hmark.eq_of_not_mem (by decide)]
      refine ⟨_, .empty hopening, ?_⟩
      rw [show lowerCase tag.toList = tag.toList from hnamed.lower, String.ofList_toList]
      exact .mk has .nil
  | .mk tag as (c :: cs) e, hn, s, hs, before => by
      have hnamed := hn _ (Node.self_mem_postorder _)
      have htag : IsName tag.toList := hnamed.tag
      obtain ⟨u, _, rfl, hu, hend⟩ := hs.of_append
      obtain ⟨u, closing, rfl, hu, hclosing⟩ := hu.of_append
      obtain ⟨u, _, rfl, hu, hslash⟩ := hu.of_append
      obtain ⟨u, inner, rfl, hu, hinner⟩ := hu.of_append
      obtain ⟨u, _, rfl, hu, hclose⟩ := hu.of_append
      obtain ⟨_, opening, rfl, hmark, hopening⟩ := hu.of_append
      obtain ⟨bs, hopening, has⟩ :=
        opening_spaced hnamed ['>'] (.cons (by decide) _) (by decide) hopening
      obtain ⟨ms, hms, hcs⟩ := writeAll_spaced (c :: cs) hn.of_child hinner
        (before ++ (['<'] ++ opening ++ ['>']))
      rw [hend.eq_of_not_mem (by decide), htag.spaced_eq hclosing,
        hslash.eq_of_not_mem (by decide), hclose.eq_of_not_mem (by decide),
        hmark.eq_of_not_mem (by decide)]
      have helement := Element.full hopening hms htag rfl .nil
      rw [List.append_nil] at helement
      refine ⟨_, helement, ?_⟩
      rw [show lowerCase tag.toList = tag.toList from hnamed.lower, String.ofList_toList]
      exact .mk has hcs

theorem writeAll_spaced : (ns : List Node) → (∀ n ∈ ns, n.WellNamed) → ∀ {s : List Char},
    Text.Spaced (writeAll ns) s → ∀ before, ∃ ms, Contents file before s ms ∧ AllSpaced ns ms
  | [], _, _, hs, _ => by
      cases hs
      exact ⟨[], .nil, .nil⟩
  | n :: rest, hns, _, hs, before => by
      obtain ⟨u, v, rfl, hu, hv⟩ := hs.of_append
      obtain ⟨m, hm, hnm⟩ := write_spaced n (hns n List.mem_cons_self) hu before
      obtain ⟨ms, hms, hrest⟩ := writeAll_spaced rest
        (fun k hk => hns k (List.mem_cons_of_mem n hk)) hv (before ++ u)
      exact ⟨m :: ms, .element hm hms, .cons hnm hrest⟩

end

/-- A tree that is written and read back is the tree with spaces for the tabs of its values: the
    same tree, up to where its elements stand, if and only if no value holds a tab. -/
theorem parse_write {t : Node} (h : t.WellNamed) (file : String) :
    ∃ r, parse .document file (String.ofList t.write) = .ok r ∧ t.Spaced r ∧
      (r.bare = t.bare ↔ t.TabFree) := by
  have hspaced : Text.Spaced t.write (Mode.document.prepare (String.ofList t.write).toList) := by
    rw [String.toList_ofList]
    exact .expandTabsFrom 0 t.write
  obtain ⟨r, hr, htr⟩ := @write_spaced file t h _ hspaced []
  refine ⟨r, parse_eq_ok.2 ?_, htr, htr.bare_eq_iff⟩
  have hderives : Derives .document file ([] ++ _ ++ []) r := .mk (.layout .nil) hr (.layout .nil)
  simpa using hderives

/-- One element with one attribute. -/
def attributeTree (value : String) : Node := .mk "a" [("b", value)] [] ⟨Span.nowhere, true⟩

theorem attributeTree_wellNamed (value : String) : (attributeTree value).WellNamed := by
  have hname : ∀ {s : String} {x : Char}, s.toList = [x] → isNameStart x = true →
      IsName s.toList := by
    intro s x hs hx
    rw [hs]
    exact ⟨hx, nofun⟩
  intro m hm
  rw [List.mem_singleton.1 hm]
  have hlower : lowerCase "a".toList = "a".toList := by decide
  refine ⟨hname (s := "a") rfl rfl, hlower, fun a ha => ?_, List.nodup_cons.2 ⟨nofun, .nil⟩⟩
  rw [List.mem_singleton.1 ha]
  exact hname (s := "b") rfl rfl

/-- A value full of marks comes back as it was. -/
theorem parse_write_marks :
    ∃ r, parse .document "f" (String.ofList (attributeTree "&lt;\n<\"'>").write) = .ok r ∧
      (attributeTree "&lt;\n<\"'>").Spaced r ∧
      (r.bare = (attributeTree "&lt;\n<\"'>").bare ↔ (attributeTree "&lt;\n<\"'>").TabFree) :=
  parse_write (attributeTree_wellNamed _) "f"

/-- A value with a tab comes back with a space in its place. -/
theorem parse_write_tab :
    (attributeTree "x\ty").WellNamed ∧
    ∃ r, parse .document "f" (String.ofList (attributeTree "x\ty").write) = .ok r ∧
      r.attributes = [("b", "x y")] ∧ r.bare ≠ (attributeTree "x\ty").bare := by
  refine ⟨attributeTree_wellNamed _,
    .mk "a" [("b", "x y")] [] ⟨⟨"f", 1, 1, 1, 13⟩, true⟩, rfl, rfl, fun hsame => ?_⟩
  have hattributes := congrArg Node.attributes hsame
  exact absurd hattributes (by decide)

end TagScript.Markup
