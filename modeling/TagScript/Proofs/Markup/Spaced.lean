import TagScript.Proofs.Markup.Lexeme

set_option autoImplicit false

/-! # Texts with their tabs expanded

What a text becomes when its tabs are expanded depends on the columns in which they stand. What the
grammar can tell of it does not: each tab has become some spaces, one at least, and nothing else has
changed (`Text.Spaced`). Layout stays layout, and comments, declarations and doctypes stay what they
are. -/

namespace TagScript

namespace Text

/-- The second text is the first with some spaces, one at least, for each tab. -/
inductive Spaced : List Char → List Char → Prop where
  | nil : Spaced [] []
  | char {c : Char} {s t : List Char} : c ≠ '\t' → Spaced s t → Spaced (c :: s) (c :: t)
  | tab {s t : List Char} (more : Nat) : Spaced s t →
      Spaced ('\t' :: s) (List.replicate (more + 1) ' ' ++ t)

namespace Spaced

variable {s t u v : List Char}

theorem expandTabsFrom (column : Nat) (s : List Char) :
    Spaced s (Text.expandTabsFrom column s) := by
  induction s generalizing column with
  | nil => exact .nil
  | cons c rest ih =>
      unfold Text.expandTabsFrom
      split
      · rename_i hc
        subst hc
        have hlt := Nat.mod_lt column (show 0 < tabStop by decide)
        obtain ⟨more, hmore⟩ : ∃ more, tabStop - column % tabStop = more + 1 :=
          ⟨tabStop - column % tabStop - 1, by omega⟩
        simp only [hmore]
        exact .tab more (ih _)
      · rename_i hc
        split <;> exact .char hc (ih _)

theorem of_not_mem (h : '\t' ∉ s) : Spaced s s := by
  induction s with
  | nil => exact .nil
  | cons c rest ih =>
      obtain ⟨hc, hrest⟩ := not_or.1 (fun hm => h (List.mem_cons.2 hm))
      exact .char (Ne.symm hc) (ih hrest)

/-- A text without tabs stays as it is. -/
theorem eq_of_not_mem (h : Spaced s t) (hs : '\t' ∉ s) : t = s := by
  induction h with
  | nil => rfl
  | @char c s t _ _ ih => rw [ih fun hm => hs (List.mem_cons_of_mem c hm)]
  | tab _ _ _ => exact absurd List.mem_cons_self hs

/-- No tab is left. -/
theorem not_mem (h : Spaced s t) : '\t' ∉ t := by
  induction h with
  | nil => exact List.not_mem_nil
  | char hc _ ih => exact List.not_mem_cons_of_ne_of_not_mem (Ne.symm hc) ih
  | tab _ _ ih => simp [List.mem_replicate, ih]

theorem append (hs : Spaced s u) (ht : Spaced t v) : Spaced (s ++ t) (u ++ v) := by
  induction hs with
  | nil => exact ht
  | char hc _ ih => exact .char hc ih
  | tab more _ ih =>
      rw [List.append_assoc]
      exact .tab more ih

/-- What has become of a text is what has become of its parts. -/
theorem of_append (h : Spaced (s ++ t) u) :
    ∃ v w, u = v ++ w ∧ Spaced s v ∧ Spaced t w := by
  induction s generalizing u with
  | nil => exact ⟨[], u, rfl, .nil, h⟩
  | cons c rest ih =>
      cases h with
      | char hc h =>
          obtain ⟨v, w, rfl, hv, hw⟩ := ih h
          exact ⟨c :: v, w, rfl, .char hc hv, hw⟩
      | tab more h =>
          obtain ⟨v, w, rfl, hv, hw⟩ := ih h
          exact ⟨_, w, (List.append_assoc ..).symm, .tab more hv, hw⟩

/-- A character other than a space has not come from a tab. -/
theorem of_append_cons {c : Char} (hc : c ≠ ' ') (h : Spaced s (u ++ c :: v)) :
    ∃ w x, s = w ++ c :: x ∧ Spaced w u ∧ Spaced x v := by
  generalize hr : u ++ c :: v = r at h
  induction h generalizing u with
  | nil => simp at hr
  | @char d s t hd h ih =>
      cases u with
      | nil =>
          cases hr
          exact ⟨[], s, rfl, .nil, h⟩
      | cons d u =>
          cases hr
          obtain ⟨w, x, rfl, hw, hx⟩ := ih rfl
          exact ⟨_ :: w, x, rfl, .char hd hw, hx⟩
  | @tab s t more h ih =>
      -- the spaces of the tab stand before the character
      rcases List.append_eq_append_iff.1 hr with ⟨a, ha, hcv⟩ | ⟨a, rfl, ht⟩
      · cases a with
        | nil =>
            obtain ⟨w, x, rfl, hw, hx⟩ := @ih [] hcv
            rw [List.append_nil] at ha
            refine ⟨'\t' :: w, x, rfl, ?_, hx⟩
            rw [← List.append_nil u, ← ha]
            exact .tab more hw
        | cons d a =>
            cases hcv
            have hmem : c ∈ List.replicate (more + 1) ' ' := by rw [ha]; simp
            exact absurd (List.eq_of_mem_replicate hmem) hc
      · obtain ⟨w, x, rfl, hw, hx⟩ := ih ht.symm
        exact ⟨'\t' :: w, x, rfl, .tab more hw, hx⟩

/-- A piece without spaces has not come from tabs. -/
theorem of_append_append {w : List Char} (hne : w ≠ []) (hw : ' ' ∉ w)
    (h : Spaced s (u ++ w ++ v)) : ∃ x y, s = x ++ w ++ y ∧ Spaced x u ∧ Spaced y v := by
  induction w generalizing s u with
  | nil => exact absurd rfl hne
  | cons c rest ih =>
      rw [List.append_assoc, List.cons_append] at h
      obtain ⟨hc, hrest⟩ := not_or.1 (fun hm => hw (List.mem_cons.2 hm))
      obtain ⟨x, y, rfl, hx, hy⟩ := of_append_cons (Ne.symm hc) h
      by_cases hnil : rest = []
      · subst hnil
        exact ⟨x, y, by simp, hx, hy⟩
      · obtain ⟨z, y', rfl, hz, hy'⟩ := ih (u := []) hnil hrest hy
        cases hz
        exact ⟨x, y', by simp, hx, hy'⟩

/-- A character of the expanded text is a space or stood in the text. -/
theorem mem (h : Spaced s t) {c : Char} (hc : c ∈ t) : c = ' ' ∨ c ∈ s := by
  induction h with
  | nil => cases hc
  | @char d s t _ _ ih =>
      rcases List.mem_cons.1 hc with rfl | hc
      · exact .inr List.mem_cons_self
      · exact (ih hc).imp_right (List.mem_cons_of_mem d)
  | tab more _ ih =>
      rcases List.mem_append.1 hc with hc | hc
      · exact .inl (List.eq_of_mem_replicate hc)
      · exact (ih hc).imp_right (List.mem_cons_of_mem _)

end Spaced

end Text

namespace Markup

open Text (Spaced)

variable {s t : List Char}

/-! ## What is not affected -/

theorem IsName.not_mem_tab {name : List Char} (h : IsName name) : '\t' ∉ name := by
  cases name with
  | nil => cases h
  | cons x rest =>
      intro hm
      rcases List.mem_cons.1 hm with rfl | hm
      · exact absurd h.1 (by decide)
      · exact absurd (h.2 _ hm) (by decide)

theorem IsName.spaced_eq {name : List Char} (h : IsName name) (hs : Spaced name t) : t = name :=
  hs.eq_of_not_mem h.not_mem_tab

theorem IsLayout.spaced (h : IsLayout s) (hs : Spaced s t) : IsLayout t := by
  intro c hc
  rcases hs.mem hc with rfl | hc
  · decide
  · exact h c hc

/-- Text without `<` stays so. -/
theorem not_mem_of_spaced (h : '<' ∉ s) (hs : Spaced s t) : '<' ∉ t := by
  intro hm
  rcases hs.mem hm with heq | hm
  · exact absurd heq (by decide)
  · exact h hm

/-- What starts outside the class of name characters still does. -/
theorem StartsWithout.spaced (h : StartsWithout isNameRest s) (hs : Spaced s t) :
    StartsWithout isNameRest t := by
  cases hs with
  | nil => exact .nil
  | char _ _ => exact .cons (h _ rfl) _
  | tab more _ =>
      rw [List.replicate_succ, List.cons_append]
      exact .cons (by decide) _

theorem EndsAtFirst.spaced {terminator body body' : List Char} (h : EndsAtFirst terminator body)
    (hne : terminator ≠ []) (hspace : ' ' ∉ terminator) (htab : '\t' ∉ terminator)
    (hs : Spaced body body') : EndsAtFirst terminator body' := by
  intro u v heq
  have hall := hs.append (Spaced.of_not_mem htab)
  rw [heq] at hall
  obtain ⟨x, y, hxy, _, hy⟩ := hall.of_append_append hne hspace
  obtain rfl := h x y hxy
  cases hy
  rfl

/-- A delimited piece stays delimited. -/
theorem delimited_spaced {opener terminator body : List Char} (hopener : '\t' ∉ opener)
    (hbody : EndsAtFirst terminator body) (hne : terminator ≠ []) (hspace : ' ' ∉ terminator)
    (htab : '\t' ∉ terminator) (hs : Spaced (opener ++ body ++ terminator) t) :
    ∃ body', t = opener ++ body' ++ terminator ∧ EndsAtFirst terminator body' := by
  obtain ⟨v, w, rfl, hv, hw⟩ := hs.of_append
  obtain ⟨x, body', rfl, hx, hb⟩ := hv.of_append
  rw [hx.eq_of_not_mem hopener, hw.eq_of_not_mem htab]
  exact ⟨body', rfl, hbody.spaced hne hspace htab hb⟩

theorem Comment.spaced (h : Comment s) (hs : Spaced s t) : Comment t := by
  obtain ⟨hbody⟩ := h
  obtain ⟨body', rfl, hbody'⟩ := delimited_spaced (by decide) hbody (by decide) (by decide)
    (by decide) hs
  exact .mk hbody'

theorem Misc.spaced (h : Misc s) (hs : Spaced s t) : Misc t := by
  cases h with
  | comment h => exact .comment (h.spaced hs)
  | declaration hbody =>
      obtain ⟨body', rfl, hbody'⟩ := delimited_spaced (by decide) hbody (by decide) (by decide)
        (by decide) hs
      exact .declaration hbody'
  | @doctype keyword body hkeyword hbody =>
      have htab : '\t' ∉ keyword := by
        intro hm
        have hlow : '\t'.toLower ∈ lowerCase keyword := List.mem_map_of_mem hm
        rw [hkeyword] at hlow
        exact absurd hlow (by decide)
      obtain ⟨body', rfl, hbody'⟩ := delimited_spaced htab hbody (by decide) (by decide)
        (by decide) hs
      exact .doctype hkeyword hbody'

theorem Surroundings.spaced (h : Surroundings s) (hs : Spaced s t) : Surroundings t := by
  induction h generalizing t with
  | layout h => exact .layout (h.spaced hs)
  | misc hgap hmisc _ ih =>
      obtain ⟨v, w, rfl, hv, hw⟩ := hs.of_append
      obtain ⟨x, y, rfl, hx, hy⟩ := hv.of_append
      exact .misc (hgap.spaced hx) (hmisc.spaced hy) (ih hw)

end Markup

end TagScript
