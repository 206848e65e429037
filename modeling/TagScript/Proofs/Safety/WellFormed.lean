import TagScript.Proofs.Safety.Eval

set_option autoImplicit false

/-! # Well-formed stores

Every value that a run of an analysed program comes to hold is well formed, wherever it is held: in
a frame, also one whose function waits for a call to end, in a list, among the values of operands or
arguments, or as a result. Values of a type that is not one of the six do not occur, so nothing that
operations do with them is ever done. -/

namespace TagScript

open Markup (Node)

namespace Value

/-- The types that values have. -/
def tags : List String := ["Integer", "Real", "Text", "List", "Closure", "NativeFunction"]

/-- The value is well formed while the heap has `size` lists. -/
structure WellFormed (p : Program) (arguments : List String) (size : Nat) (v : Value) : Prop where
  tag : ∃ tag ∈ tags, v.type? = some tag
  known : ∀ tag, v ≠ .other tag
  integer : ∀ n, v = .int n → -Int.pow 2 63 ≤ n ∧ n ≤ Int.pow 2 63 - 1
  list : ∀ id, v = .list id → id < size
  closure : ∀ f, v = .closure f → ∃ d ∈ p.functions, f = ⟨d.name, d.params, d.body⟩
  native : ∀ f, v = .native f → f ∈ Native.library arguments

theorem Sound.wellFormed {p : Program} {arguments : List String} {size : Nat} {v : Value}
    (h : v.Sound p arguments size) : v.WellFormed p arguments size := by
  have htag : ∃ tag ∈ tags, v.type? = some tag := by
    cases v with
    | other | absent => exact absurd h id
    | _ => exact ⟨_, by decide, rfl⟩
  refine ⟨htag, ?_, ?_, ?_, ?_, ?_⟩ <;> rintro x rfl
  · exact h
  · exact h
  · exact h
  · exact h
  · exact h

/-! ## The text of values, but for unknown types -/

/-- The text of a value, where values of an unknown type are shown by `other`. -/
def formatWithinElse (other : String → Except Halt String) (h : Heap) :
    (room : Nat) → (path : List Nat) → (nested : Bool) → Value → Except Halt String
  | 0, _, _, .list _ => .ok "[...]"
  | room + 1, path, _, .list id =>
    if path.contains id then .ok "[...]"
    else
      (formatAll (formatWithinElse other h room (id :: path) true) (h.items id).toList).map
        fun texts => "[" ++ ", ".intercalate texts ++ "]"
  | _, _, _, .other tag => other tag
  | room, path, nested, v => formatWithin h room path nested v

/-- It is the text of the value if those values of an unknown type that occur are shown by their
    tags. -/
theorem formatWithinElse_eq {P : Value → Prop} {h : Heap} (hh : h.Each P)
    {other : String → Except Halt String}
    (hother : ∀ tag, P (.other tag) → other tag = .ok ("<" ++ tag ++ ">")) (room : Nat)
    (path : List Nat) (nested : Bool) {v : Value} (hv : P v) :
    formatWithinElse other h room path nested v = formatWithin h room path nested v := by
  induction room generalizing path nested v with
  | zero =>
      cases v with
      | other tag => exact hother tag hv
      | _ => rfl
  | succ room ih =>
      cases v with
      | other tag => exact hother tag hv
      | list id =>
          have hitems : formatAll (formatWithinElse other h room (id :: path) true)
                (h.items id).toList
              = formatAll (formatWithin h room (id :: path) true) (h.items id).toList :=
            formatAll_congr fun x hx => ih _ _ (hh id x (Array.mem_toList_iff.1 hx))
          simp only [formatWithinElse, formatWithin, hitems]
      | _ => rfl

/-- The text of a value, where values of an unknown type are shown by `other`. -/
def formatElse (other : String → Except Halt String) (h : Heap) (v : Value) (nested : Bool) :
    Except Halt String :=
  formatWithinElse other h (h.lists.size + 1) [] nested v

end Value

/-! ## Well-formed states -/

/-- All values that are held in the frames of an environment and in the heap are well formed. -/
structure State.WellFormed (p : Program) (arguments : List String) (outer : List Frame)
    (s : State) : Prop where
  frames : ∀ f ∈ s.frame :: outer, f.Each fun v => v.WellFormed p arguments s.size
  heap : s.store.heap.Each fun v => v.WellFormed p arguments s.size

/-- The evaluation of an instruction starts and ends with well-formed values, and all that it comes
    to hold meanwhile is well formed. -/
structure Check.WellFormed (p : Program) (arguments : List String) (opts : Options)
    (outer : List Frame) (i : Instr) (s : State) (o : Outcome State (Option Value)) : Prop where
  start : s.WellFormed p arguments outer
  finish : ∀ t, o.state? = some t → t.WellFormed p arguments outer
  result : ∀ v t, o = .done (some v) t → v.WellFormed p arguments t.size
  /-- The values of operands, among them the arguments of calls. -/
  operands : ∀ fuel op is vs t, is ⊆ i.operands →
    Eval.values (eval opts fuel outer) op is (s.traced opts i) = .done vs t →
    ∀ v ∈ vs, v.WellFormed p arguments t.size
  /-- The frames of the environment stay well formed while whatever the instruction calls is
      evaluated. -/
  waiting : ∀ fuel alarm,
    alarmed opts (fun _ _ u _ => ∀ f ∈ s.frame :: outer, f.Each fun v =>
        v.WellFormed p arguments u.size) alarm fuel outer i s
      = eval opts fuel outer i s

namespace Watch

variable {w : Watch}

theorem Frames.wellFormed {frames : List Frame} {k : Nat} (h : w.Frames frames k) :
    ∀ f ∈ frames, f.Each fun v => v.WellFormed w.program w.arguments k :=
  fun f hf => (h f hf).imp fun _ hv => hv.1.wellFormed

theorem Kept.wellFormed {n : Nat} {s : State} (h : w.Kept n s) {outer : List Frame}
    (houter : w.Frames outer s.size) : s.WellFormed w.program w.arguments outer where
  frames := (Frames.cons h.proper.frame houter).wellFormed
  heap := h.proper.heap.imp fun _ hv => hv.1.wellFormed

theorem Ends.kept_of_state? {α : Type} {n : Nat} {Q : α → Nat → Prop} {o : Outcome State α}
    {t : State} (h : w.Ends n Q o) (ht : o.state? = some t) : w.Kept n t := by
  cases h with
  | done hk _ =>
      cases ht
      exact hk
  | halted hk _ =>
      cases ht
      exact hk
  | outOfFuel => cases ht

/-- The frames that are there when the heap has `n` lists stay well formed. -/
theorem passes_frames {n : Nat} {frames : List Frame} (h : w.Frames frames n)
    (hcheck : w.check = fun _ _ u _ => ∀ f ∈ frames, f.Each fun v =>
      v.WellFormed w.program w.arguments u.size) : w.Passes n := by
  intro _ _ u _ _ _ hu _
  rw [hcheck]
  exact (h.mono hu.size).wellFormed

/-- Every evaluation of a safe run is well formed. -/
theorem passes_wellFormed
    (hcheck : w.check = Check.WellFormed w.program w.arguments w.opts) : w.Passes 0 := by
  intro outer i s o hi houter hs hends
  rw [hcheck]
  refine ⟨hs.wellFormed houter, fun t ht => ?_, ?_, ?_, ?_⟩
  · have hk := hends.kept_of_state? ht
    exact hk.wellFormed (houter.mono hk.size)
  · rintro v t rfl
    cases hends with
    | done _ hr => exact (hr v rfl).1.wellFormed
  · intro fuel op is vs t his hvs v hv
    exact ((values_proper hi houter hs.proper his hvs).2 v hv).1.wellFormed
  · intro fuel alarm
    let w' : Watch := { w with
      check := fun _ _ u _ => ∀ f ∈ s.frame :: outer, f.Each fun v =>
        v.WellFormed w.program w.arguments u.size
      alarm }
    have hframes : w'.Frames (s.frame :: outer) s.size := Frames.cons hs.proper.frame houter
    exact (eval_safe (w := w') (passes_frames hframes rfl) (n := s.size) houter hi s
      ⟨hs.proper, Nat.le_refl _⟩).2

end Watch

/-- In every run of an analysed program, whether or not it ends, all values that are held are well
    formed: those in frames, return slots and lists, the values of operands and arguments, and the
    results of evaluation. There are 14 native functions; no run halts because the type of a value
    is unknown; and how values of an unknown type would be shown does not matter. -/
theorem analysed_store_wellFormed {root : Node} {p : Program}
    (hp : (Analysis.program root).outcome = .ok p) (opts : Options) (arguments : List String)
    (files : Files) (stdin : Input) (fuel : Nat) :
    (∀ alarm,
      p.alarmedRun opts (Check.WellFormed p arguments opts) alarm fuel arguments
          (Program.start files stdin)
        = p.run opts fuel arguments (Program.start files stdin)) ∧
    (∀ t, (p.run opts fuel arguments (Program.start files stdin)).state? = some t →
      t.WellFormed p arguments [Frame.ofProgram p arguments]) ∧
    (Native.library arguments).length = 14 ∧
    (∀ op tag span t, p.run opts fuel arguments (Program.start files stdin)
      ≠ .halted (.fault (.operation op (.unknownType tag)) span) t) ∧
    (∀ (outer : List Frame) (s : State) (v : Value), s.WellFormed p arguments outer →
      v.WellFormed p arguments s.size →
      ∀ other nested, v.formatElse other s.store.heap nested = v.format s.store.heap nested) := by
  have hsafe : ∀ alarm, _ := fun alarm =>
    let w : Watch :=
      ⟨p, arguments, opts, Check.WellFormed p arguments opts, alarm, Analysis.program_shaped hp⟩
    w.run_safe (w.passes_wellFormed rfl) fuel (Program.start files stdin)
      (w.kept_start files stdin)
  refine ⟨fun alarm => (hsafe alarm).2, fun t ht => ?_, rfl, fun op tag span t hrun => ?_, ?_⟩
  · exact ((hsafe (.crash .noRoom)).1.kept_of_state? ht).wellFormed (Watch.frames_root _ _)
  · have hends := (hsafe (.crash .noRoom)).1
    rw [hrun] at hends
    cases hends with
    | halted _ hh => exact hh
  · intro outer s v hs hv other nested
    exact Value.formatWithinElse_eq hs.heap (fun tag htag => absurd rfl (htag.known tag)) _ _ _ hv

/-- A document that puts a list into itself and prints it. -/
def cyclicDocument : Node :=
  let element (tag : String) (attributes : List (String × String)) (children : List Node) : Node :=
    .mk tag attributes children ⟨⟨"", 1, 1, 1, 1⟩, false⟩
  let list := element "value" [("variable", "a")] []
  element "program" []
    [element "main" []
      [element "assign" [("variable", "a")]
        [element "array" [] [element "integer" [("value", "7")] []]],
       element "insert-array" [] [element "array" [] [list], element "value" [] [list]],
       element "call" [("function", "print")] [element "arguments" [] [list]]]]

/-- The document is analysed, its run prints the list, and the list in itself is well formed. -/
theorem analysed_store_wellFormed_cyclic :
    ∃ p t, (Analysis.program cyclicDocument).outcome = .ok p ∧
      p.run {} 9 [] (Program.start {} {}) = .done () t ∧ t.store.stdout = "[7, [...]]" ∧
      t.store.heap.items 0 = #[.int 7, .list 0] ∧
      t.WellFormed p [] [Frame.ofProgram p []] := by
  obtain ⟨p, t, hp, hrun, hout, hitems⟩ :
      ∃ p t, (Analysis.program cyclicDocument).outcome = .ok p ∧
        p.run {} 9 [] (Program.start {} {}) = .done () t ∧ t.store.stdout = "[7, [...]]" ∧
        t.store.heap.items 0 = #[.int 7, .list 0] := ⟨_, _, rfl, rfl, rfl, rfl⟩
  have hwell := (analysed_store_wellFormed hp {} [] {} {} 9).2.1 t (by rw [hrun]; rfl)
  exact ⟨p, t, hp, hrun, hout, hitems, hwell⟩

end TagScript
