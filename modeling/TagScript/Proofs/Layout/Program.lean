import TagScript.Proofs.Markup.Bare

set_option autoImplicit false

/-! # The analysis does not depend on places

The analysis reads tags, attributes and children, and copies the span of an element to the
instruction or the error that it gives. So the analysis of a tree whose places have been forgotten
gives what the analysis of the tree gives, with its places forgotten (`Analysis.program_bare`):
trees that are the same up to their places have programs that are, or the same error. -/

namespace TagScript

open Markup (Node)

/-! ## Programs without their places -/

/-- The place forgotten, if there is one. -/
def Span.forget (span : Option Span) : Option Span := span.map fun _ => nowhere

namespace Instr

mutual

/-- The instruction with all places in it forgotten. -/
def bare : Instr → Instr
  | mk k v os b o s => mk k v (bareAll os) (bareAll b) (bareAll o) (Span.forget s)

/-- The instructions with all places in them forgotten. -/
def bareAll : List Instr → List Instr
  | [] => []
  | i :: rest => bare i :: bareAll rest

end

theorem bareAll_eq_map (is : List Instr) : bareAll is = is.map bare := by
  induction is with
  | nil => rfl
  | cons i rest ih => simp only [bareAll, ih, List.map_cons]

theorem bare_mk (k : Kind) (v : Option String) (os b o : List Instr) (s : Option Span) :
    (mk k v os b o s).bare
      = mk k v (os.map bare) (b.map bare) (o.map bare) (Span.forget s) := by
  simp only [bare, bareAll_eq_map]

@[simp] theorem kind_bare (i : Instr) : i.bare.kind = i.kind := by
  obtain ⟨k, v, os, b, o, s⟩ := i
  rfl

@[simp] theorem value_bare (i : Instr) : i.bare.value = i.value := by
  obtain ⟨k, v, os, b, o, s⟩ := i
  rfl

@[simp] theorem operands_bare (i : Instr) : i.bare.operands = i.operands.map bare := by
  obtain ⟨k, v, os, b, o, s⟩ := i
  exact bareAll_eq_map os

@[simp] theorem body_bare (i : Instr) : i.bare.body = i.body.map bare := by
  obtain ⟨k, v, os, b, o, s⟩ := i
  exact bareAll_eq_map b

@[simp] theorem orelse_bare (i : Instr) : i.bare.orelse = i.orelse.map bare := by
  obtain ⟨k, v, os, b, o, s⟩ := i
  exact bareAll_eq_map o

@[simp] theorem span_bare (i : Instr) : i.bare.span = Span.forget i.span := by
  obtain ⟨k, v, os, b, o, s⟩ := i
  rfl

end Instr

/-- The function with all places in it forgotten. -/
def FunctionDef.bare (f : FunctionDef) : FunctionDef :=
  { f with body := f.body.map Instr.bare, span := Span.nowhere }

/-- The program with all places in it forgotten. -/
def Program.bare (p : Program) : Program :=
  ⟨p.functions.map FunctionDef.bare, p.main.map Instr.bare⟩

/-- The error with its place forgotten. -/
def SemanticsError.bare (e : SemanticsError) : SemanticsError :=
  { e with span := Span.forget e.span }

/-! ## Outcomes up to places -/

namespace Analysis

variable {α β γ δ : Type}

/-- The outcome of an analysis with the result changed and the place of an error forgotten. -/
def bareOutcome (g : α → β) : Except SemanticsError α → Except SemanticsError β
  | .ok a => .ok (g a)
  | .error e => .error e.bare

/-- The second analysis has the outcome of the first, up to places. -/
def Erases (g : α → β) (x : Analysis α) (y : Analysis β) : Prop :=
  y.outcome = bareOutcome g x.outcome

theorem Erases.pure (g : α → β) (a : α) : Erases g (pure a) (pure (g a)) := rfl

theorem Erases.bind {g : α → β} {h : γ → δ} {x : Analysis α} {y : Analysis β}
    {f : α → Analysis γ} {f' : β → Analysis δ} (hx : Erases g x y)
    (hf : ∀ a, Erases h (f a) (f' (g a))) : Erases h (x >>= f) (y >>= f') := by
  unfold Erases at *
  rw [outcome_bind, outcome_bind, hx]
  cases x.outcome with
  | ok a => exact hf a
  | error e => rfl

theorem Erases.map {g : α → β} {h : γ → δ} {k : α → γ} {k' : β → δ} {x : Analysis α}
    {y : Analysis β} (hx : Erases g x y) (hk : ∀ a, k' (g a) = h (k a)) :
    Erases h (x.map k) (y.map k') := by
  unfold Erases at *
  rw [outcome_map, outcome_map, hx]
  cases x.outcome with
  | ok a => exact congrArg Except.ok (hk a)
  | error e => rfl

theorem Erases.refuse (g : α → β) (n : Node) (fault : StructureFault) :
    Erases g (refuse n fault) (refuse n.bare fault) := by
  simp only [Erases, Analysis.refuse, bareOutcome, SemanticsError.bare, Node.span_bare]
  rfl

theorem Erases.require {g : α → β} (n : Node) (fault : StructureFault) {a : Option α}
    {b : Option β} (hab : b = a.map g) : Erases g (require n fault a) (require n.bare fault b) := by
  subst hab
  cases a with
  | some a => exact .pure g a
  | none => exact .refuse g n fault

theorem Erases.each {g : α → β} {h : γ → δ} {f : α → Analysis γ} {f' : β → Analysis δ}
    (hf : ∀ a, Erases h (f a) (f' (g a))) (as : List α) :
    Erases (List.map h) (each f as) (each f' (as.map g)) := by
  induction as with
  | nil => exact .pure _ _
  | cons a rest ih => exact (hf a).bind fun b => ih.map fun _ => rfl

/-! ## Parts of elements -/

theorem attributeOf_erases (n : Node) (name : String) :
    Erases id (attributeOf n name) (attributeOf n.bare name) := by
  unfold attributeOf
  rw [Node.tag_bare, Node.attribute?_bare]
  exact .require n _ (by simp)

theorem wrapper_erases (n : Node) (tag : String) :
    Erases Node.bare (wrapper n tag) (wrapper n.bare tag) := by
  unfold wrapper
  rw [Node.tag_bare, Node.child?_bare]
  exact .require n _ rfl

theorem operand_erases (n : Node) (what : String) (skip : List String) :
    Erases Node.bare (operand n what skip) (operand n.bare what skip) := by
  unfold operand
  rw [Node.tag_bare, Node.children_bare]
  exact .require n _ (Node.find?_map_bare (fun tag => !skip.contains tag) n.children)

/-- The instruction of an element, its parts having lost their places. -/
theorem instr_erases (n : Node) (k : Kind) (v : Option String) (os b o : List Instr) :
    Erases Instr.bare (pure (.mk k v os b o (some n.span)))
      (pure (.mk k v (os.map Instr.bare) (b.map Instr.bare) (o.map Instr.bare)
        (some n.bare.span))) := by
  simp only [Erases, outcome_pure, bareOutcome, Instr.bare_mk, Node.span_bare]
  rfl

section Shaped

variable {analyse analyse' : Node → Analysis Instr}
  (h : ∀ m, Erases Instr.bare (analyse m) (analyse' m.bare))
include h

theorem wrapped_erases (n : Node) (tag : String) :
    Erases Instr.bare (wrapped analyse n tag) (wrapped analyse' n.bare tag) := by
  unfold wrapped
  refine (wrapper_erases n tag).bind fun w => ?_
  rw [Node.tag_bare, Node.children_bare]
  exact (Erases.require n _ List.head?_map).bind h

theorem block_erases (n : Node) (tag : String) :
    Erases (List.map Instr.bare) (block analyse n tag) (block analyse' n.bare tag) := by
  refine (wrapper_erases n tag).bind fun w => ?_
  rw [Node.children_bare]
  exact .each h w.children

/-- The elements whose only parts are their operands. -/
theorem each_wrapped_erases (n : Node) (tags : List String) :
    Erases (List.map Instr.bare) (each (wrapped analyse n) tags)
      (each (wrapped analyse' n.bare) tags) := by
  have heach := Erases.each (g := id) (wrapped_erases h n) tags
  rwa [List.map_id] at heach

theorem shaped_erases (n : Node) (shape : Shape) :
    Erases Instr.bare (shaped analyse n shape) (shaped analyse' n.bare shape) := by
  cases shape with
  | reference => exact (attributeOf_erases n _).bind fun name => instr_erases n _ _ [] [] []
  | literal kind cast =>
      simp only [shaped, Node.attribute?_bare, Node.tag_bare, Node.children_bare]
      split
      · exact instr_erases n _ _ [] [] []
      · exact (Erases.require n _ List.head?_map).bind fun child =>
          (h child).bind fun e => instr_erases n _ _ [e] [] []
  | nary kind needsOperand =>
      simp only [shaped, Node.tag_bare, Node.children_bare]
      refine (Erases.each h n.children).bind fun operands => ?_
      rw [List.isEmpty_map]
      split
      · exact .refuse _ n _
      · exact instr_erases n _ _ operands [] []
  | comparison kind =>
      simp only [shaped, Node.tag_bare, Node.children_bare, List.length_map]
      split
      · exact (Erases.each h n.children).bind fun operands => instr_erases n _ _ operands [] []
      · exact .refuse _ n _
  | unary kind =>
      exact (operand_erases n _ _).bind fun child => (h child).bind fun e =>
        instr_erases n _ _ [e] [] []
  | assign =>
      exact (attributeOf_erases n _).bind fun name => (operand_erases n _ _).bind fun child =>
        (h child).bind fun e => instr_erases n _ _ [e] [] []
  | call =>
      simp only [shaped, Node.attribute?_bare]
      refine (block_erases h n _).bind fun args => ?_
      split
      · exact instr_erases n _ _ args [] []
      · exact (operand_erases n _ _).bind fun child => (h child).bind fun callee =>
          instr_erases n _ _ (callee :: args) [] []
  | condition =>
      simp only [shaped, Node.child?_bare]
      refine (operand_erases n _ _).bind fun child => (h child).bind fun test =>
        (block_erases h n _).bind fun thenBlock => ?_
      cases n.child? "else" with
      | none => exact instr_erases n _ _ [test] thenBlock []
      | some other =>
          simp only [Option.map_some, Node.children_bare]
          exact (Erases.each h other.children).bind fun elseBlock =>
            instr_erases n _ _ [test] thenBlock elseBlock
  | countLoop =>
      exact (attributeOf_erases n _).bind fun name => (each_wrapped_erases h n _).bind fun bounds =>
        (block_erases h n _).bind fun body => instr_erases n _ _ bounds body []
  | eachLoop =>
      exact (attributeOf_erases n _).bind fun name => (operand_erases n _ _).bind fun child =>
        (h child).bind fun array => (block_erases h n _).bind fun body =>
          instr_erases n _ _ [array] body []
  | whileLoop =>
      exact (operand_erases n _ _).bind fun child => (h child).bind fun test =>
        (block_erases h n _).bind fun body => instr_erases n _ _ [test] body []
  | store kind parts =>
      exact (each_wrapped_erases h n parts).bind fun operands => instr_erases n _ _ operands [] []

theorem instrWith_erases (n : Node) :
    Erases Instr.bare (instrWith analyse n) (instrWith analyse' n.bare) := by
  unfold instrWith
  refine Erases.bind (g := id) rfl fun _ => ?_
  rw [Node.tag_bare]
  exact (Erases.require (g := id) n _ (by simp)).bind fun shape => shaped_erases h n shape

end Shaped

/-! ## Programs -/

theorem instrOfDepth_erases (depth : Nat) (n : Node) :
    Erases Instr.bare (instrOfDepth depth n) (instrOfDepth depth n.bare) := by
  induction depth generalizing n with
  | zero =>
      unfold instrOfDepth
      rw [Node.tag_bare]
      exact .refuse _ n _
  | succ depth ih => exact instrWith_erases ih n

theorem instr_bare (n : Node) : Erases Instr.bare (instr n) (instr n.bare) := by
  unfold instr
  rw [Node.depth_bare]
  exact instrOfDepth_erases n.depth n

theorem functionDef_erases (n : Node) :
    Erases FunctionDef.bare (functionDef n) (functionDef n.bare) := by
  unfold functionDef
  rw [Node.attribute?_bare]
  refine (Erases.require (g := id) n _ (by simp)).bind fun name =>
    (wrapper_erases n _).bind fun arguments => ?_
  rw [Node.children_bare]
  have hparam : ∀ m : Node, Erases id (param m) (param m.bare) := by
    intro m
    unfold param
    rw [Node.attribute?_bare]
    exact .require m _ (by simp)
  refine (Erases.each hparam arguments.children).bind fun params =>
    (block_erases instr_bare n _).bind fun body => ?_
  simp only [Erases, outcome_pure, bareOutcome, FunctionDef.bare, List.map_id, id_eq,
    Node.span_bare]

theorem topLevel_erases (main? : Option Node) (ns : List Node) :
    Erases (fun r => (r.1.map FunctionDef.bare, r.2.map Node.bare)) (topLevel main? ns)
      (topLevel (main?.map Node.bare) (ns.map Node.bare)) := by
  induction ns generalizing main? with
  | nil => exact .pure _ _
  | cons n rest ih =>
      simp only [topLevel, List.map_cons, Node.tag_bare]
      split
      · exact (functionDef_erases n).bind fun f => (ih main?).bind fun r => .pure _ _
      · split
        · cases main? with
          | some m => exact .refuse _ n _
          | none => exact ih (some n)
        · exact .refuse _ n _

/-- The analysis of a tree whose places are forgotten gives what the analysis of the tree gives,
    with its places forgotten. -/
theorem program_bare (root : Node) : Erases Program.bare (program root) (program root.bare) := by
  unfold program
  rw [Node.children_bare]
  refine (topLevel_erases none root.children).bind fun r => ?_
  refine (Erases.require root _ rfl).bind fun main => ?_
  rw [Node.children_bare]
  exact (Erases.each instr_bare main.children).bind fun statements => .pure _ _

/-- Trees that are the same up to their places have the same program or the same error, up to
    places. -/
theorem program_outcome_of_bare_eq {root root' : Node} (h : root.bare = root'.bare) :
    bareOutcome Program.bare (program root).outcome
      = bareOutcome Program.bare (program root').outcome :=
  (program_bare root).symm.trans (h ▸ program_bare root')

end Analysis

end TagScript
