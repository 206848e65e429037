import TagScript.Proofs.Markup.Lexeme

set_option autoImplicit false

/-! # Outlines

An outline shows a forest of headings, one line for each, the headings below another one indented
further than that. If the headings are single lines that do not start with space, then the lines
determine the forest: a heading ends at its line feed, and the headings below it end where a line is
not indented further (`renderAll_append_inj`). -/

namespace TagScript.Text

open Markup (StartsWithout)

/-- A heading and what is below it. -/
inductive Outline where
  | mk (head : List Char) (below : List Outline)

namespace Outline

/-- The heading. -/
def head : Outline → List Char
  | mk head _ => head

mutual

/-- The lines of a heading and of what is below it. -/
def render (level : Nat) : Outline → List Char
  | mk head below =>
    List.replicate (2 * level) ' ' ++ (head ++ '\n' :: renderAll (level + 1) below)

/-- The lines of headings, one after another. -/
def renderAll (level : Nat) : List Outline → List Char
  | [] => []
  | o :: rest => render level o ++ renderAll level rest

end

/-- A text that can be a heading: one line that does not start with space. -/
structure IsHeading (head : List Char) : Prop where
  nonempty : head ≠ []
  flush : StartsWithout (· == ' ') head
  single : '\n' ∉ head

mutual

/-- All headings of an outline are fit to be some. -/
inductive Legible : Outline → Prop where
  | mk {head : List Char} {below : List Outline} : IsHeading head → LegibleAll below →
      Legible (mk head below)

/-- All headings of some outlines are fit to be some. -/
inductive LegibleAll : List Outline → Prop where
  | nil : LegibleAll []
  | cons {o : Outline} {rest : List Outline} : Legible o → LegibleAll rest →
      LegibleAll (o :: rest)

end

/-! ## Lines -/

/-- Two lists that are cut where a property ends are the same if the parts are. -/
theorem append_inj_of_head {α : Type} {P : α → Prop} {s t r r' : List α} (hs : ∀ c ∈ s, P c)
    (ht : ∀ c ∈ t, P c) (hr : ∀ c ∈ r.head?, ¬ P c) (hr' : ∀ c ∈ r'.head?, ¬ P c)
    (h : s ++ r = t ++ r') : s = t ∧ r = r' := by
  induction s generalizing t with
  | nil =>
      cases t with
      | nil => exact ⟨rfl, h⟩
      | cons c t =>
          rw [List.nil_append] at h
          subst h
          exact absurd (ht c List.mem_cons_self) (hr c rfl)
  | cons a s ih =>
      cases t with
      | nil =>
          rw [List.nil_append] at h
          subst h
          exact absurd (hs a List.mem_cons_self) (hr' a rfl)
      | cons c t =>
          obtain ⟨rfl, hrest⟩ := List.cons.inj h
          rw [List.forall_mem_cons] at hs ht
          obtain ⟨rfl, hafter⟩ := ih hs.2 ht.2 hrest
          exact ⟨rfl, hafter⟩

/-- Two texts that are cut where a class of characters ends are the same if the parts are. -/
theorem append_inj_of_without {p : Char → Bool} {s t r r' : List Char} (hs : ∀ c ∈ s, p c = true)
    (ht : ∀ c ∈ t, p c = true) (hr : StartsWithout p r) (hr' : StartsWithout p r')
    (h : s ++ r = t ++ r') : s = t ∧ r = r' :=
  append_inj_of_head hs ht (fun c hc => Bool.eq_false_iff.1 (hr c hc))
    (fun c hc => Bool.eq_false_iff.1 (hr' c hc)) h

/-- A heading ends at its line feed. -/
theorem IsHeading.append_inj {s t r r' : List Char} (hs : IsHeading s) (ht : IsHeading t)
    (h : s ++ '\n' :: r = t ++ '\n' :: r') : s = t ∧ r = r' := by
  have hline : ∀ {u : List Char}, IsHeading u → ∀ c ∈ u, (c != '\n') = true := by
    intro u hu c hc
    rw [bne_iff_ne]
    intro heq
    subst heq
    exact hu.single hc
  obtain ⟨hst, hrest⟩ :=
    append_inj_of_without (hline hs) (hline ht) (.cons (by decide) r) (.cons (by decide) r') h
  exact ⟨hst, (List.cons.inj hrest).2⟩

/-- The number of spaces that a text starts with. -/
def indent (s : List Char) : Nat := (s.takeWhile (· == ' ')).length

theorem indent_render {o : Outline} (ho : Legible o) (level : Nat) (rest : List Char) :
    indent (render level o ++ rest) = 2 * level := by
  obtain ⟨hhead, -⟩ := ho
  rename_i head below
  have hflush : StartsWithout (· == ' ') (head ++ ('\n' :: renderAll (level + 1) below ++ rest)) :=
    (StartsWithout.append_iff hhead.nonempty _).2 hhead.flush
  have hspaces : ∀ c ∈ List.replicate (2 * level) ' ', (c == ' ') = true := by
    intro c hc
    rw [List.eq_of_mem_replicate hc]
    rfl
  rw [indent, render, List.append_assoc, List.append_assoc,
    (Markup.takeWhile_append_of_without hspaces hflush).1, List.length_replicate]

/-- What comes after the headings below one is indented no further than the headings beside it. -/
theorem indent_renderAll {os : List Outline} (hos : LegibleAll os) {level : Nat}
    {rest : List Char} (hrest : indent rest < 2 * level) :
    indent (renderAll level os ++ rest) ≤ 2 * level := by
  rcases hos with _ | ⟨ho, -⟩
  · exact Nat.le_of_lt hrest
  · refine Nat.le_of_eq ?_
    rw [renderAll, List.append_assoc, indent_render ho]

/-! ## Forests -/

mutual

/-- A heading with what is below it can be told from what comes after it. -/
theorem render_append_inj : (o p : Outline) → Legible o → Legible p → ∀ {level : Nat}
    {rest rest' : List Char}, indent rest < 2 * (level + 1) → indent rest' < 2 * (level + 1) →
    render level o ++ rest = render level p ++ rest' → o = p ∧ rest = rest'
  | .mk head below, .mk head' below', .mk hhead hbelow, .mk hhead' hbelow', level, rest, rest',
      hrest, hrest', h => by
    simp only [render, List.append_assoc, List.append_cancel_left_eq, List.cons_append] at h
    obtain ⟨rfl, hlines⟩ := hhead.append_inj hhead' h
    obtain ⟨rfl, hafter⟩ := renderAll_append_inj below below' hbelow hbelow' hrest hrest' hlines
    exact ⟨rfl, hafter⟩

/-- Headings one after another can be told from what comes after them, if that is not indented as
    far. -/
theorem renderAll_append_inj : (os ps : List Outline) → LegibleAll os → LegibleAll ps →
    ∀ {level : Nat} {rest rest' : List Char}, indent rest < 2 * level → indent rest' < 2 * level →
    renderAll level os ++ rest = renderAll level ps ++ rest' → os = ps ∧ rest = rest'
  | [], [], _, _, level, rest, rest', _, _, h => ⟨rfl, h⟩
  | [], p :: ps, _, .cons hp _, level, rest, rest', hrest, _, h => by
    -- what follows would start with a heading, but it is not indented as far
    have hindent := indent_render hp level (renderAll level ps ++ rest')
    rw [← List.append_assoc] at hindent
    rw [show rest = _ from h] at hrest
    exact absurd hindent (Nat.ne_of_lt hrest)
  | o :: os, [], .cons ho _, _, level, rest, rest', _, hrest', h => by
    have hindent := indent_render ho level (renderAll level os ++ rest)
    rw [← List.append_assoc] at hindent
    rw [show rest' = _ from h.symm] at hrest'
    exact absurd hindent (Nat.ne_of_lt hrest')
  | o :: os, p :: ps, .cons ho hos, .cons hp hps, level, rest, rest', hrest, hrest', h => by
    simp only [renderAll, List.append_assoc] at h
    have hshallow : ∀ {n : Nat}, n ≤ 2 * level → n < 2 * (level + 1) := by
      intro n hn
      omega
    obtain ⟨rfl, hlines⟩ := render_append_inj o p ho hp (hshallow (indent_renderAll hos hrest))
      (hshallow (indent_renderAll hps hrest')) h
    obtain ⟨rfl, hafter⟩ := renderAll_append_inj os ps hos hps hrest hrest' hlines
    exact ⟨rfl, hafter⟩

end

/-- The lines of an outline determine its level and the outline. -/
theorem render_inj {o p : Outline} (ho : Legible o) (hp : Legible p) {k l : Nat}
    (h : render k o = render l p) : k = l ∧ o = p := by
  have hlevel : 2 * k = 2 * l := by
    rw [← indent_render ho k [], ← indent_render hp l [], h]
  obtain rfl : k = l := by omega
  have hempty : indent [] < 2 * (k + 1) := Nat.mul_pos (by decide) k.succ_pos
  refine ⟨rfl, (render_append_inj o p ho hp hempty hempty ?_).1⟩
  rw [h]

end Outline

end TagScript.Text
