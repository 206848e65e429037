import TagScript.Proofs.Shape.Analysis
import TagScript.Proofs.Shape.Validity

set_option autoImplicit false

/-! # The analysis accepts the valid programs

For each shape, what the analysis of an element asks of the element and of the elements that it
uses; from that, by induction on the depth in one direction and on validity in the other, the
analysis of an element succeeds exactly for valid instructions (`instr_accepts_iff`), and the
analysis of a tree exactly for valid programs (`program_accepts_iff`). -/

namespace TagScript

open Markup (Node)

/-! ## Tags and shapes -/

theorem Shape.mem_of_ofTag? {tag : String} {shape : Shape} (h : ofTag? tag = some shape) :
    (tag, shape) ∈ tags := by
  obtain ⟨before, after, hsplit, _⟩ := List.lookup_eq_some_iff.1 h
  rw [hsplit]
  simp

/-- The tags whose elements have the shape, but for the kinds and the parts named in it. -/
def Shape.family : Shape → List String
  | .reference => ["value"]
  | .literal _ _ => ["integer", "float", "string"]
  | .nary _ false => ["array", "add", "multiply", "and", "or"]
  | .nary _ true => ["subtract", "divide"]
  | .comparison _ => ["equal", "greater", "lower"]
  | .unary _ => ["not", "return"]
  | .assign => ["assign"]
  | .call => ["call"]
  | .condition => ["if"]
  | .countLoop => ["for"]
  | .eachLoop => ["each"]
  | .whileLoop => ["while"]
  | .store _ _ => ["assign-array", "insert-array"]

theorem Shape.mem_family {tag : String} {shape : Shape} (h : ofTag? tag = some shape) :
    tag ∈ shape.family := by
  have htable : ∀ e ∈ tags, e.1 ∈ e.2.family := by decide
  exact htable (tag, shape) (mem_of_ofTag? h)

/-- Only two shapes name parts, each for a tag of its own. -/
theorem Shape.parts_of_ofTag? {tag : String} {kind : Kind} {parts : List String}
    (h : ofTag? tag = some (.store kind parts)) :
    tag = "assign-array" ∧ parts = ["array", "index", "value"] ∨
      tag = "insert-array" ∧ parts = ["array", "value"] := by
  have hmem := mem_of_ofTag? h
  simp only [tags, List.mem_cons, Prod.mk.injEq, reduceCtorEq, store.injEq, and_false, false_or,
    List.not_mem_nil, or_false] at hmem
  rcases hmem with ⟨htag, _, hparts⟩ | ⟨htag, _, hparts⟩
  · exact .inl ⟨htag, hparts⟩
  · exact .inr ⟨htag, hparts⟩

section Families

variable {tag : String}

theorem Shape.ofTag?_literal (h : tag ∈ ["integer", "float", "string"]) :
    ∃ kind cast, ofTag? tag = some (.literal kind cast) := by
  simp only [List.mem_cons, List.not_mem_nil, or_false] at h
  rcases h with rfl | rfl | rfl <;> exact ⟨_, _, rfl⟩

theorem Shape.ofTag?_nary (h : tag ∈ ["array", "add", "multiply", "and", "or"]) :
    ∃ kind, ofTag? tag = some (.nary kind false) := by
  simp only [List.mem_cons, List.not_mem_nil, or_false] at h
  rcases h with rfl | rfl | rfl | rfl | rfl <;> exact ⟨_, rfl⟩

theorem Shape.ofTag?_naryOnSome (h : tag ∈ ["subtract", "divide"]) :
    ∃ kind, ofTag? tag = some (.nary kind true) := by
  simp only [List.mem_cons, List.not_mem_nil, or_false] at h
  rcases h with rfl | rfl <;> exact ⟨_, rfl⟩

theorem Shape.ofTag?_comparison (h : tag ∈ ["equal", "greater", "lower"]) :
    ∃ kind, ofTag? tag = some (.comparison kind) := by
  simp only [List.mem_cons, List.not_mem_nil, or_false] at h
  rcases h with rfl | rfl | rfl <;> exact ⟨_, rfl⟩

theorem Shape.ofTag?_unary (h : tag ∈ ["not", "return"]) :
    ∃ kind, ofTag? tag = some (.unary kind) := by
  simp only [List.mem_cons, List.not_mem_nil, or_false] at h
  rcases h with rfl | rfl <;> exact ⟨_, rfl⟩

end Families

namespace Analysis

variable {α β : Type}

/-! ## Analyses that succeed -/

/-- The analysis gives a result. -/
def Accepts (a : Analysis α) : Prop := ∃ r, a.outcome = .ok r

@[simp] theorem accepts_pure (r : α) : (pure r : Analysis α).Accepts ↔ True :=
  ⟨fun _ => trivial, fun _ => ⟨r, rfl⟩⟩

@[simp] theorem accepts_refuse (n : Node) (fault : StructureFault) :
    (refuse n fault : Analysis α).Accepts ↔ False :=
  ⟨nofun, nofun⟩

theorem accepts_bind (x : Analysis α) (f : α → Analysis β) :
    (x >>= f).Accepts ↔ ∃ a, x.outcome = .ok a ∧ (f a).Accepts := by
  constructor
  · rintro ⟨b, hb⟩
    obtain ⟨a, ha, hb⟩ := bind_ok hb
    exact ⟨a, ha, b, hb⟩
  · rintro ⟨a, ha, b, hb⟩
    refine ⟨b, ?_⟩
    rw [outcome_bind, ha]
    exact hb

/-- Whether the second of two analyses succeeds may not depend on the result of the first. -/
theorem accepts_bind_const {x : Analysis α} {f : α → Analysis β} {p : Prop}
    (hf : ∀ a, (f a).Accepts ↔ p) : (x >>= f).Accepts ↔ x.Accepts ∧ p := by
  simp only [accepts_bind, hf, exists_and_right]
  rfl

theorem accepts_require_bind {n : Node} {fault : StructureFault} {x : Option α}
    {f : α → Analysis β} : (require n fault x >>= f).Accepts ↔ ∃ a, x = some a ∧ (f a).Accepts := by
  rw [accepts_bind]
  constructor
  · rintro ⟨a, ha, hf⟩
    exact ⟨a, require_ok ha, hf⟩
  · rintro ⟨a, rfl, hf⟩
    exact ⟨a, rfl, hf⟩

theorem accepts_each {f : α → Analysis β} {as : List α} :
    (each f as).Accepts ↔ ∀ a ∈ as, (f a).Accepts := by
  induction as with
  | nil => exact ⟨fun _ => nofun, fun _ => ⟨[], rfl⟩⟩
  | cons a rest ih =>
      have hmap : ∀ b, ((each f rest).map (b :: ·)).Accepts ↔ (each f rest).Accepts := by
        intro b
        constructor
        · rintro ⟨r, hr⟩
          obtain ⟨bs, hbs, _⟩ := except_map_ok hr
          exact ⟨bs, hbs⟩
        · rintro ⟨bs, hbs⟩
          exact ⟨b :: bs, by rw [outcome_map, hbs]; rfl⟩
      rw [List.forall_mem_cons, ← ih]
      exact accepts_bind_const hmap

/-- The last step of an analysis puts a result together and does not fail. -/
@[simp] theorem accepts_bind_pure (x : Analysis α) (f : α → β) :
    (x >>= fun a => pure (f a)).Accepts ↔ x.Accepts :=
  (accepts_bind_const fun _ => accepts_pure _).trans (and_iff_left trivial)

section Shaped

variable {analyse : Node → Analysis Instr} {n : Node} {kind : Kind}

theorem attributeOf_accepts {name : String} {f : String → Analysis β} {p : Prop}
    (hf : ∀ v, (f v).Accepts ↔ p) :
    (attributeOf n name >>= f).Accepts ↔ n.HasAttribute name ∧ p := by
  simp only [attributeOf, accepts_require_bind, hf, exists_and_right, Node.hasAttribute_iff]

theorem attributeOf_accepts_self {name : String} :
    (attributeOf n name).Accepts ↔ n.HasAttribute name := by
  rw [← accepts_bind_pure (attributeOf n name) id, attributeOf_accepts fun _ => accepts_pure _]
  exact and_iff_left trivial

theorem operand_accepts {what : String} {skip : List String} {f : Node → Analysis β} :
    (operand n what skip >>= f).Accepts ↔ ∃ c, n.FirstOther skip c ∧ (f c).Accepts := by
  simp only [operand, accepts_require_bind, Node.find?_other_eq_some]

theorem wrapped_accepts {tag : String} :
    (wrapped analyse n tag).Accepts ↔ ∃ c, n.FirstInside tag c ∧ (analyse c).Accepts := by
  simp only [wrapped, wrapper, accepts_require_bind, Node.child?_eq_some, Node.head?_eq_some]
  constructor
  · rintro ⟨w, hw, c, hc, hacc⟩
    exact ⟨c, ⟨w, hw, hc⟩, hacc⟩
  · rintro ⟨c, ⟨w, hw, hc⟩, hacc⟩
    exact ⟨w, hw, c, hc, hacc⟩

theorem block_accepts {tag : String} :
    (block analyse n tag).Accepts
      ↔ ∃ w, n.FirstWith tag w ∧ ∀ c ∈ w.children, (analyse c).Accepts := by
  simp only [block, wrapper, accepts_require_bind, Node.child?_eq_some, accepts_each]

theorem reference_accepts :
    (shaped analyse n .reference).Accepts ↔ n.HasAttribute "variable" := by
  simp only [shaped, accepts_bind_pure, attributeOf_accepts_self]

theorem literal_accepts {cast : Kind} :
    (shaped analyse n (.literal kind cast)).Accepts ↔ n.HasAttribute "value" ∨
      ¬ n.HasAttribute "value" ∧ ∃ c, n.FirstChild c ∧ (analyse c).Accepts := by
  simp only [shaped]
  split
  · rename_i text htext
    simp [Node.hasAttribute_iff.2 ⟨text, htext⟩]
  · rename_i hnone
    simp [Node.attribute?_eq_none.1 hnone, accepts_require_bind, Node.head?_eq_some]

theorem nary_accepts {needsOperand : Bool} :
    (shaped analyse n (.nary kind needsOperand)).Accepts ↔
      (needsOperand = true → n.children ≠ []) ∧ ∀ c ∈ n.children, (analyse c).Accepts := by
  have hempty : ∀ operands, (each analyse n.children).outcome = .ok operands →
      (operands = [] ↔ n.children = []) := by
    intro operands hops
    rw [← List.length_eq_zero_iff, (each_ok hops).1, List.length_eq_zero_iff]
  simp only [shaped, accepts_bind]
  constructor
  · rintro ⟨operands, hops, h⟩
    refine ⟨?_, accepts_each.1 ⟨operands, hops⟩⟩
    rintro rfl hnil
    simp [(hempty operands hops).2 hnil] at h
  · rintro ⟨hne, hall⟩
    obtain ⟨operands, hops⟩ := accepts_each.2 hall
    refine ⟨operands, hops, ?_⟩
    rw [if_neg]
    · exact (accepts_pure _).2 trivial
    · intro h
      obtain ⟨hneeds, hnil⟩ := Bool.and_eq_true_iff.1 h
      exact hne hneeds ((hempty operands hops).1 (List.isEmpty_iff.1 hnil))

theorem comparison_accepts :
    (shaped analyse n (.comparison kind)).Accepts ↔
      n.children.length = 2 ∧ ∀ c ∈ n.children, (analyse c).Accepts := by
  simp only [shaped]
  split
  · rename_i htwo
    simp [htwo, accepts_each]
  · rename_i hcount
    simp [hcount]

theorem unary_accepts :
    (shaped analyse n (.unary kind)).Accepts ↔ ∃ c, n.FirstChild c ∧ (analyse c).Accepts := by
  simp only [shaped, operand_accepts, Node.firstOther_nil, accepts_bind_pure]

theorem assign_accepts :
    (shaped analyse n .assign).Accepts ↔
      n.HasAttribute "variable" ∧ ∃ c, n.FirstChild c ∧ (analyse c).Accepts := by
  refine attributeOf_accepts fun _ => ?_
  simp only [operand_accepts, Node.firstOther_nil, accepts_bind_pure]

theorem call_accepts :
    (shaped analyse n .call).Accepts ↔
      (∃ w, n.FirstWith "arguments" w ∧ ∀ c ∈ w.children, (analyse c).Accepts) ∧
      (n.HasAttribute "function" ∨ ¬ n.HasAttribute "function" ∧
        ∃ c, n.FirstOther ["arguments"] c ∧ (analyse c).Accepts) := by
  rw [← block_accepts]
  refine accepts_bind_const fun args => ?_
  split
  · rename_i name hname
    simp [Node.hasAttribute_iff.2 ⟨name, hname⟩]
  · rename_i hnone
    simp [Node.attribute?_eq_none.1 hnone, operand_accepts]

theorem condition_accepts :
    (shaped analyse n .condition).Accepts ↔
      ∃ c, n.FirstOther ["then", "else"] c ∧ (analyse c).Accepts ∧
        (∃ w, n.FirstWith "then" w ∧ ∀ c ∈ w.children, (analyse c).Accepts) ∧
        ((∀ m ∈ n.children, m.tag ≠ "else") ∨
          ∃ w, n.FirstWith "else" w ∧ ∀ c ∈ w.children, (analyse c).Accepts) := by
  simp only [shaped, operand_accepts, ← block_accepts]
  refine exists_congr fun c => and_congr_right fun _ => ?_
  refine accepts_bind_const fun test => accepts_bind_const fun thenBlock => ?_
  rw [← Node.child?_eq_none]
  unfold block wrapper
  split
  · rename_i hnone
    simp [hnone]
  · rename_i other hother
    simp [hother, accepts_require_bind]

theorem countLoop_accepts :
    (shaped analyse n .countLoop).Accepts ↔
      n.HasAttribute "variable" ∧
        (∀ tag ∈ ["from", "to", "step"], ∃ c, n.FirstInside tag c ∧ (analyse c).Accepts) ∧
        ∃ w, n.FirstWith "do" w ∧ ∀ c ∈ w.children, (analyse c).Accepts := by
  refine attributeOf_accepts fun _ => ?_
  simp only [← block_accepts, ← wrapped_accepts]
  rw [← accepts_each]
  exact accepts_bind_const fun bounds => accepts_bind_pure _ _

theorem eachLoop_accepts :
    (shaped analyse n .eachLoop).Accepts ↔
      n.HasAttribute "variable" ∧ ∃ c, n.FirstOther ["do"] c ∧ (analyse c).Accepts ∧
        ∃ w, n.FirstWith "do" w ∧ ∀ c ∈ w.children, (analyse c).Accepts := by
  refine attributeOf_accepts fun _ => ?_
  simp only [operand_accepts, ← block_accepts]
  refine exists_congr fun c => and_congr_right fun _ => ?_
  exact accepts_bind_const fun array => accepts_bind_pure _ _

theorem whileLoop_accepts :
    (shaped analyse n .whileLoop).Accepts ↔
      ∃ c, n.FirstOther ["do"] c ∧ (analyse c).Accepts ∧
        ∃ w, n.FirstWith "do" w ∧ ∀ c ∈ w.children, (analyse c).Accepts := by
  simp only [shaped, operand_accepts, ← block_accepts]
  refine exists_congr fun c => and_congr_right fun _ => ?_
  exact accepts_bind_const fun test => accepts_bind_pure _ _

theorem store_accepts {parts : List String} :
    (shaped analyse n (.store kind parts)).Accepts ↔
      ∀ tag ∈ parts, ∃ c, n.FirstInside tag c ∧ (analyse c).Accepts := by
  simp only [shaped, accepts_bind_pure, accepts_each, wrapped_accepts]

end Shaped

/-! ## Instructions -/

theorem instrOfDepth_accepts {depth : Nat} {n : Node} :
    (instrOfDepth (depth + 1) n).Accepts ↔
      ∃ shape, Shape.ofTag? n.tag = some shape ∧ (shaped (instrOfDepth depth) n shape).Accepts := by
  have hvisit : (instrOfDepth (depth + 1) n).Accepts ↔
      (visit n).Accepts ∧ (require n (.unknownTag n.tag) (Shape.ofTag? n.tag) >>=
        shaped (instrOfDepth depth) n).Accepts :=
    accepts_bind_const fun _ => Iff.rfl
  rw [hvisit, accepts_require_bind]
  exact and_iff_right ⟨(), rfl⟩

/-- What the analysis accepts is a valid instruction. -/
theorem isInstruction_of_accepts {depth : Nat} {n : Node} (h : (instrOfDepth depth n).Accepts) :
    n.IsInstruction := by
  induction depth generalizing n with
  | zero => exact absurd h (by simp [instrOfDepth])
  | succ depth ih =>
      obtain ⟨shape, hshape, h⟩ := instrOfDepth_accepts.1 h
      have htag := Shape.mem_family hshape
      cases shape with
      | reference =>
          exact .value (List.mem_singleton.1 htag) (reference_accepts.1 h)
      | literal kind cast =>
          rcases literal_accepts.1 h with hvalue | ⟨hvalue, c, hc, hacc⟩
          · exact .literal htag hvalue
          · exact .cast htag hvalue hc (ih hacc)
      | nary kind needsOperand =>
          obtain ⟨hne, hall⟩ := nary_accepts.1 h
          have hvalid := fun c hc => ih (hall c hc)
          cases needsOperand with
          | false => exact .nary htag hvalid
          | true => exact .naryOnSome htag (hne rfl) hvalid
      | comparison kind =>
          obtain ⟨htwo, hall⟩ := comparison_accepts.1 h
          exact .comparison htag htwo fun c hc => ih (hall c hc)
      | unary kind =>
          obtain ⟨c, hc, hacc⟩ := unary_accepts.1 h
          exact .unary htag hc (ih hacc)
      | assign =>
          obtain ⟨hname, c, hc, hacc⟩ := assign_accepts.1 h
          exact .assign (List.mem_singleton.1 htag) hname hc (ih hacc)
      | call =>
          obtain ⟨⟨w, hw, hargs⟩, hway⟩ := call_accepts.1 h
          have hvalid := fun c hc => ih (hargs c hc)
          rcases hway with hname | ⟨hname, c, hc, hacc⟩
          · exact .callByName (List.mem_singleton.1 htag) hname hw hvalid
          · exact .callByValue (List.mem_singleton.1 htag) hname hw hvalid hc (ih hacc)
      | condition =>
          obtain ⟨c, hc, hacc, ⟨w, hw, hthen⟩, hway⟩ := condition_accepts.1 h
          have hvalid := fun c hc => ih (hthen c hc)
          rcases hway with hnone | ⟨e, he, helse⟩
          · exact .ifThen (List.mem_singleton.1 htag) hc (ih hacc) hw hvalid hnone
          · exact .ifElse (List.mem_singleton.1 htag) hc (ih hacc) hw hvalid he
              fun c hc => ih (helse c hc)
      | countLoop =>
          obtain ⟨hname, hbounds, w, hw, hbody⟩ := countLoop_accepts.1 h
          obtain ⟨first, hfirst, hf⟩ := hbounds "from" (by decide)
          obtain ⟨last, hlast, hl⟩ := hbounds "to" (by decide)
          obtain ⟨step, hstep, hs⟩ := hbounds "step" (by decide)
          exact .countLoop (List.mem_singleton.1 htag) hname hfirst (ih hf) hlast (ih hl) hstep
            (ih hs) hw fun c hc => ih (hbody c hc)
      | eachLoop =>
          obtain ⟨hname, c, hc, hacc, w, hw, hbody⟩ := eachLoop_accepts.1 h
          exact .eachLoop (List.mem_singleton.1 htag) hname hc (ih hacc) hw
            fun c hc => ih (hbody c hc)
      | whileLoop =>
          obtain ⟨c, hc, hacc, w, hw, hbody⟩ := whileLoop_accepts.1 h
          exact .whileLoop (List.mem_singleton.1 htag) hc (ih hacc) hw fun c hc => ih (hbody c hc)
      | store kind parts =>
          have hparts := store_accepts.1 h
          rcases Shape.parts_of_ofTag? hshape with ⟨hset, rfl⟩ | ⟨hpush, rfl⟩
          · obtain ⟨array, harray, ha⟩ := hparts "array" (by decide)
            obtain ⟨index, hindex, hi⟩ := hparts "index" (by decide)
            obtain ⟨v, hv, hacc⟩ := hparts "value" (by decide)
            exact .assignArray hset harray (ih ha) hindex (ih hi) hv (ih hacc)
          · obtain ⟨array, harray, ha⟩ := hparts "array" (by decide)
            obtain ⟨v, hv, hacc⟩ := hparts "value" (by decide)
            exact .insertArray hpush harray (ih ha) hv (ih hacc)

/-- An element is accepted with room for what is inside it if its parts are. -/
theorem accepts_of_shaped {depth : Nat} {n : Node} {shape : Shape}
    (hshape : Shape.ofTag? n.tag = some shape) (hdepth : n.depth ≤ depth)
    (h : ∀ d, (∀ c : Node, c.depth < n.depth → c.depth ≤ d) →
      (shaped (instrOfDepth d) n shape).Accepts) : (instrOfDepth depth n).Accepts := by
  cases depth with
  | zero =>
      obtain ⟨t, as, cs, e⟩ := n
      exact absurd hdepth (Nat.not_succ_le_zero _)
  | succ d =>
      refine instrOfDepth_accepts.2 ⟨shape, hshape, h d fun c hc => ?_⟩
      exact Nat.le_of_lt_succ (Nat.lt_of_lt_of_le hc hdepth)

/-- A valid instruction is accepted if the analysis goes deep enough. -/
theorem accepts_of_isInstruction {n : Node} (h : n.IsInstruction) :
    ∀ {depth : Nat}, n.depth ≤ depth → (instrOfDepth depth n).Accepts := by
  induction h with
  | value htag hname =>
      intro depth hdepth
      exact accepts_of_shaped (by rw [htag]; rfl) hdepth fun d _ => reference_accepts.2 hname
  | assign htag hname hc _ ih =>
      intro depth hdepth
      refine accepts_of_shaped (by rw [htag]; rfl) hdepth fun d hd => ?_
      exact assign_accepts.2 ⟨hname, _, hc, ih (hd _ hc.depth_lt)⟩
  | literal htag hvalue =>
      intro depth hdepth
      obtain ⟨kind, cast, hshape⟩ := Shape.ofTag?_literal htag
      exact accepts_of_shaped hshape hdepth fun d _ => literal_accepts.2 (.inl hvalue)
  | cast htag hvalue hc _ ih =>
      intro depth hdepth
      obtain ⟨kind, cast, hshape⟩ := Shape.ofTag?_literal htag
      refine accepts_of_shaped hshape hdepth fun d hd => ?_
      exact literal_accepts.2 (.inr ⟨hvalue, _, hc, ih (hd _ hc.depth_lt)⟩)
  | nary htag _ ih =>
      intro depth hdepth
      obtain ⟨kind, hshape⟩ := Shape.ofTag?_nary htag
      refine accepts_of_shaped hshape hdepth fun d hd => ?_
      exact nary_accepts.2 ⟨nofun, fun c hc => ih c hc (hd c (Node.depth_lt_of_mem hc))⟩
  | naryOnSome htag hne _ ih =>
      intro depth hdepth
      obtain ⟨kind, hshape⟩ := Shape.ofTag?_naryOnSome htag
      refine accepts_of_shaped hshape hdepth fun d hd => ?_
      exact nary_accepts.2 ⟨fun _ => hne, fun c hc => ih c hc (hd c (Node.depth_lt_of_mem hc))⟩
  | comparison htag htwo _ ih =>
      intro depth hdepth
      obtain ⟨kind, hshape⟩ := Shape.ofTag?_comparison htag
      refine accepts_of_shaped hshape hdepth fun d hd => ?_
      exact comparison_accepts.2 ⟨htwo, fun c hc => ih c hc (hd c (Node.depth_lt_of_mem hc))⟩
  | unary htag hc _ ih =>
      intro depth hdepth
      obtain ⟨kind, hshape⟩ := Shape.ofTag?_unary htag
      refine accepts_of_shaped hshape hdepth fun d hd => ?_
      exact unary_accepts.2 ⟨_, hc, ih (hd _ hc.depth_lt)⟩
  | callByName htag hname hw _ ih =>
      intro depth hdepth
      refine accepts_of_shaped (by rw [htag]; rfl) hdepth fun d hd => ?_
      exact call_accepts.2 ⟨⟨_, hw, fun c hc => ih c hc (hd c (hw.depth_lt hc))⟩, .inl hname⟩
  | callByValue htag hname hw _ hc _ ihArgs ih =>
      intro depth hdepth
      refine accepts_of_shaped (by rw [htag]; rfl) hdepth fun d hd => ?_
      exact call_accepts.2 ⟨⟨_, hw, fun c hc => ihArgs c hc (hd c (hw.depth_lt hc))⟩,
        .inr ⟨hname, _, hc, ih (hd _ hc.depth_lt)⟩⟩
  | ifThen htag hc _ hw _ hnone ih ihThen =>
      intro depth hdepth
      refine accepts_of_shaped (by rw [htag]; rfl) hdepth fun d hd => ?_
      exact condition_accepts.2 ⟨_, hc, ih (hd _ hc.depth_lt),
        ⟨_, hw, fun c hc => ihThen c hc (hd c (hw.depth_lt hc))⟩, .inl hnone⟩
  | ifElse htag hc _ hw _ he _ ih ihThen ihElse =>
      intro depth hdepth
      refine accepts_of_shaped (by rw [htag]; rfl) hdepth fun d hd => ?_
      exact condition_accepts.2 ⟨_, hc, ih (hd _ hc.depth_lt),
        ⟨_, hw, fun c hc => ihThen c hc (hd c (hw.depth_lt hc))⟩,
        .inr ⟨_, he, fun c hc => ihElse c hc (hd c (he.depth_lt hc))⟩⟩
  | countLoop htag hname hfirst _ hlast _ hstep _ hw _ ihFirst ihLast ihStep ihBody =>
      intro depth hdepth
      refine accepts_of_shaped (by rw [htag]; rfl) hdepth fun d hd => ?_
      refine countLoop_accepts.2 ⟨hname, ?_, _, hw, fun c hc => ihBody c hc (hd c (hw.depth_lt hc))⟩
      simp only [List.forall_mem_cons]
      exact ⟨⟨_, hfirst, ihFirst (hd _ hfirst.depth_lt)⟩, ⟨_, hlast, ihLast (hd _ hlast.depth_lt)⟩,
        ⟨_, hstep, ihStep (hd _ hstep.depth_lt)⟩, nofun⟩
  | eachLoop htag hname hc _ hw _ ih ihBody =>
      intro depth hdepth
      refine accepts_of_shaped (by rw [htag]; rfl) hdepth fun d hd => ?_
      exact eachLoop_accepts.2 ⟨hname, _, hc, ih (hd _ hc.depth_lt), _, hw,
        fun c hc => ihBody c hc (hd c (hw.depth_lt hc))⟩
  | whileLoop htag hc _ hw _ ih ihBody =>
      intro depth hdepth
      refine accepts_of_shaped (by rw [htag]; rfl) hdepth fun d hd => ?_
      exact whileLoop_accepts.2 ⟨_, hc, ih (hd _ hc.depth_lt), _, hw,
        fun c hc => ihBody c hc (hd c (hw.depth_lt hc))⟩
  | assignArray htag harray _ hindex _ hv _ ihArray ihIndex ihValue =>
      intro depth hdepth
      refine accepts_of_shaped (by rw [htag]; rfl) hdepth fun d hd => ?_
      simp only [store_accepts, List.forall_mem_cons]
      exact ⟨⟨_, harray, ihArray (hd _ harray.depth_lt)⟩,
        ⟨_, hindex, ihIndex (hd _ hindex.depth_lt)⟩, ⟨_, hv, ihValue (hd _ hv.depth_lt)⟩, nofun⟩
  | insertArray htag harray _ hv _ ihArray ihValue =>
      intro depth hdepth
      refine accepts_of_shaped (by rw [htag]; rfl) hdepth fun d hd => ?_
      simp only [store_accepts, List.forall_mem_cons]
      exact ⟨⟨_, harray, ihArray (hd _ harray.depth_lt)⟩,
        ⟨_, hv, ihValue (hd _ hv.depth_lt)⟩, nofun⟩

/-- The analysis of an element succeeds if and only if the element is a valid instruction. -/
theorem instr_accepts_iff {n : Node} : (instr n).Accepts ↔ n.IsInstruction :=
  ⟨isInstruction_of_accepts, fun h => accepts_of_isInstruction h (Nat.le_refl _)⟩

/-! ## Programs -/

theorem functionDef_accepts_iff {n : Node} : (functionDef n).Accepts ↔ n.IsFunction := by
  have hparam : ∀ a : Node, (param a).Accepts ↔ a.HasAttribute "name" := fun a => by
    rw [← accepts_bind_pure _ id, param, accepts_require_bind, Node.hasAttribute_iff]
    simp only [accepts_pure, and_true]
  have hbody : (block instr n "body").Accepts ↔
      ∃ w, n.FirstWith "body" w ∧ ∀ c ∈ w.children, c.IsInstruction := by
    simp only [block_accepts, instr_accepts_iff]
  have hall : (functionDef n).Accepts ↔ (∃ name, n.attribute? "name" = some name) ∧
      ∃ w, n.FirstWith "arguments" w ∧ (∀ a ∈ w.children, a.HasAttribute "name") ∧
        (block instr n "body").Accepts := by
    rw [← exists_and_right]
    simp only [functionDef, wrapper, accepts_require_bind, Node.child?_eq_some]
    refine exists_congr fun name => and_congr_right fun _ => exists_congr fun w =>
      and_congr_right fun _ => ?_
    simp only [← hparam, ← accepts_each]
    exact accepts_bind_const fun params => accepts_bind_pure _ _
  rw [hall, hbody, ← Node.hasAttribute_iff]
  constructor
  · rintro ⟨hname, w, hw, hparams, hbody⟩
    exact ⟨hname, ⟨w, hw, hparams⟩, hbody⟩
  · rintro ⟨hname, ⟨w, hw, hparams⟩, hbody⟩
    exact ⟨hname, w, hw, hparams, hbody⟩

/-- The elements at the top are accepted if they are valid functions and main elements; the main
    element is the only one. -/
theorem topLevel_eq_ok {main? found? : Option Node} {ns : List Node} :
    (∃ functions, (topLevel main? ns).outcome = .ok (functions, found?)) ↔
      (∀ n ∈ ns, n.tag = "function" ∧ n.IsFunction ∨ n.tag = "main") ∧
        main?.toList ++ ns.filter (·.tag = "main") = found?.toList := by
  induction ns generalizing main? with
  | nil =>
      have hsame : main?.toList = found?.toList ↔ main? = found? := by
        cases main? <;> cases found? <;> simp
      rw [List.filter_nil, List.append_nil, hsame]
      constructor
      · rintro ⟨_, h⟩
        cases h
        exact ⟨nofun, rfl⟩
      · rintro ⟨_, rfl⟩
        exact ⟨[], rfl⟩
  | cons n rest ih =>
      rw [List.forall_mem_cons]
      unfold topLevel
      split
      · rename_i hfunction
        have hother : n.tag ≠ "main" := by
          rw [hfunction]
          decide
        simp only [List.filter_cons, hother, decide_false, Bool.false_eq_true, if_false, or_false]
        rw [and_assoc, ← ih, ← functionDef_accepts_iff]
        constructor
        · rintro ⟨functions, h⟩
          obtain ⟨f, hf, h⟩ := bind_ok h
          obtain ⟨⟨fs, m⟩, hrest, h⟩ := bind_ok h
          cases h
          exact ⟨⟨hfunction, f, hf⟩, fs, hrest⟩
        · rintro ⟨⟨_, f, hf⟩, fs, hrest⟩
          refine ⟨f :: fs, ?_⟩
          rw [outcome_bind, hf]
          show (topLevel main? rest >>= _).outcome = _
          rw [outcome_bind, hrest]
          rfl
      · rename_i hnot
        split
        · rename_i hmain
          simp only [hmain, or_true, true_and, List.filter_cons, decide_true, if_true]
          cases main? with
          | none => exact ih
          | some earlier =>
              -- one main element has been found already
              refine iff_of_false (by rintro ⟨_, ⟨⟩⟩) ?_
              rintro ⟨_, htwo⟩
              have hlen := congrArg List.length htwo
              cases found? <;> simp at hlen
        · rename_i hmain
          refine iff_of_false (by rintro ⟨_, ⟨⟩⟩) ?_
          rintro ⟨⟨⟨h, _⟩ | h, _⟩, _⟩
          · exact hnot h
          · exact hmain h

/-- The analysis of a tree succeeds if and only if the tree is a valid program. -/
theorem program_accepts_iff {root : Node} : (program root).Accepts ↔ root.IsProgram := by
  have hsteps : (program root).Accepts ↔ ∃ main,
      (∃ functions, (topLevel none root.children).outcome = .ok (functions, some main)) ∧
        ∀ c ∈ main.children, c.IsInstruction := by
    simp only [← instr_accepts_iff, ← accepts_each]
    constructor
    · intro h
      obtain ⟨⟨functions, main?⟩, htop, h⟩ := (accepts_bind _ _).1 h
      obtain ⟨main, rfl, h⟩ := accepts_require_bind.1 h
      exact ⟨main, ⟨functions, htop⟩, (accepts_bind_pure _ _).1 h⟩
    · rintro ⟨main, ⟨functions, htop⟩, h⟩
      refine (accepts_bind _ _).2 ⟨(functions, some main), htop, ?_⟩
      exact accepts_require_bind.2 ⟨main, rfl, (accepts_bind_pure _ _).2 h⟩
  simp only [hsteps, topLevel_eq_ok, Option.toList_none, List.nil_append, Option.toList_some]
  constructor
  · rintro ⟨main, ⟨hknown, hone⟩, hmain⟩
    have hfound : ∀ n ∈ root.children, n.tag = "main" → n = main := fun n hn htag => by
      have hmem : n ∈ root.children.filter (·.tag = "main") :=
        List.mem_filter.2 ⟨hn, by simpa using htag⟩
      rw [hone] at hmem
      exact List.mem_singleton.1 hmem
    refine ⟨fun n hn => (hknown n hn).imp_left And.left, by rw [hone]; rfl, fun n hn htag => ?_,
      fun n hn htag => ?_⟩
    · rcases hknown n hn with h | h
      · exact h.2
      · rw [htag] at h
        exact absurd h (by decide)
    · rw [hfound n hn htag]
      exact hmain
  · rintro ⟨hknown, hone, hfunctions, hmain⟩
    obtain ⟨main, hone⟩ := List.length_eq_one_iff.1 hone
    have hmem : main ∈ root.children.filter (·.tag = "main") := by
      rw [hone]
      exact List.mem_cons_self
    obtain ⟨hin, htag⟩ := List.mem_filter.1 hmem
    refine ⟨main, ⟨fun n hn => ?_, hone⟩, hmain main hin (by simpa using htag)⟩
    exact (hknown n hn).imp_left fun h => ⟨h, hfunctions n hn h⟩

end Analysis

end TagScript
