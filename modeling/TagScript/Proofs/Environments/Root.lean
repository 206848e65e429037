import TagScript.Proofs.Environments.Mirror

set_option autoImplicit false

/-! # The root of a run

At every moment of a run of a program the root is as it was loaded and every environment is inside
it (`Session.InProgram`): evaluation in an environment inside the root does not touch the root, and
a call puts its environment inside one that is there. A function that is called by its name is
therefore the same one throughout the run, the one that the program and the library define, whatever
is bound in other frames (`Linked.callNamed_eq`). -/

namespace TagScript

namespace Session

/-! ## Chains of parents -/

/-- The chain of parents from an environment on is finite and ends in the root. -/
inductive EndsIn (s : Session) (root : Nat) : Nat → Prop where
  | root {frame : Frame} : s.environments[root]? = some ⟨.none, frame⟩ → EndsIn s root root
  | inside {k p : Nat} {frame : Frame} : s.environments[k]? = some ⟨.environment p, frame⟩ →
      EndsIn s root p → EndsIn s root k

theorem EndsIn.of_parents {s t : Session} {root k : Nat} (h : s.EndsIn root k)
    (hparents : ∀ (j : Nat) e, s.environments[j]? = some e →
      ∃ frame, t.environments[j]? = some ⟨e.parent, frame⟩) : t.EndsIn root k := by
  induction h with
  | root hroot =>
      obtain ⟨frame, ht⟩ := hparents _ _ hroot
      exact .root ht
  | inside hk _ ih =>
      obtain ⟨frame, ht⟩ := hparents _ _ hk
      exact .inside ht ih

theorem EndsIn.rootFrom {s : Session} {root k room : Nat} (hs : s.Ordered) (h : s.EndsIn root k)
    (hroom : k < room) : s.rootFrom room k = some root := by
  induction h generalizing room with
  | root hroot =>
      obtain ⟨room, rfl⟩ : ∃ r, room = r + 1 := ⟨room - 1, by omega⟩
      rw [Session.rootFrom, hroot]
  | inside hk _ ih =>
      obtain ⟨room, rfl⟩ : ∃ r, room = r + 1 := ⟨room - 1, by omega⟩
      have hlt := hs _ _ hk _ rfl
      rw [Session.rootFrom, hk]
      exact ih (by omega)

/-- A moment of a run of a program, in one of the environments inside the root: the root is as it
    was loaded, and the chain of every environment ends in it. -/
structure InProgram (p : Program) (arguments : List String) (number : Nat) (s : Session) :
    Prop where
  ordered : s.Ordered
  inside : 0 < number
  lt : number < s.environments.size
  root : s.environments[0]? = some ⟨.none, Frame.ofProgram p arguments⟩
  chains : ∀ k < s.environments.size, s.EndsIn 0 k

namespace InProgram

variable {p : Program} {arguments : List String} {number : Nat} {s : Session}

/-- The frame of the root as it is seen from an environment on the table, the root included. -/
theorem frame_root_of_lt (h : s.InProgram p arguments number) {k : Nat}
    (hk : k < s.environments.size) :
    (s.frame k).root (s.outer k) = Frame.ofProgram p arguments := by
  obtain ⟨e, he⟩ := exists_environment hk
  have hroot := (h.chains k hk).rootFrom h.ordered hk
  have hget := (getElem?_rootFrom h.ordered hk he hroot).2
  rw [h.root] at hget
  rw [frame_eq he, outer_eq he]
  injection hget with hget
  injection hget with _ hframe
  exact hframe.symm

theorem root? (h : s.InProgram p arguments number) : s.root? number = some 0 :=
  (h.chains number h.lt).rootFrom h.ordered h.lt

theorem rootParent (h : s.InProgram p arguments number) :
    s.rootParent number = .environment 0 := by
  rw [Session.rootParent, h.root?]

/-- The frame of the root as it is seen from the environment of the run. -/
theorem frame_root (h : s.InProgram p arguments number) :
    (s.frame number).root (s.outer number) = Frame.ofProgram p arguments :=
  h.frame_root_of_lt h.lt

theorem enter (h : s.InProgram p arguments number) {q : Nat} (hq : q < s.environments.size)
    (frame : Frame) :
    (s.enter (.environment q) frame).InProgram p arguments s.environments.size where
  ordered := h.ordered.enter (by rintro _ ⟨⟩; exact hq)
  inside := Nat.lt_of_le_of_lt (Nat.zero_le number) h.lt
  lt := by
    rw [size_enter]
    exact Nat.lt_succ_self _
  root := by
    rw [getElem?_enter_lt (Nat.lt_of_le_of_lt (Nat.zero_le number) h.lt), h.root]
  chains := by
    have hold : ∀ k < s.environments.size, (s.enter (.environment q) frame).EndsIn 0 k := by
      intro k hk
      refine (h.chains k hk).of_parents fun j e he => ⟨e.frame, ?_⟩
      rw [getElem?_enter_lt (lt_size he), he]
    intro k hk
    rw [size_enter] at hk
    rcases Nat.lt_succ_iff_lt_or_eq.1 hk with hk | rfl
    · exact hold k hk
    · exact .inside getElem?_enter_size (hold q hq)

theorem invariant (p : Program) (arguments : List String) :
    Linked.Invariant fun number s => s.InProgram p arguments number where
  ordered h := h.ordered
  lt h := h.lt
  withState {number s} t h :=
    { ordered := h.ordered.withState t
      inside := h.inside
      lt := by rw [size_withState]; exact h.lt
      -- the environment of the run is never the root itself
      root := by rw [getElem?_withState_ne t (Nat.ne_of_lt h.inside), h.root]
      chains := by
        intro k hk
        rw [size_withState] at hk
        refine (h.chains k hk).of_parents fun j e he => ?_
        rw [getElem?_withState]
        split
        · exact ⟨t.frame, by rw [he]; rfl⟩
        · exact ⟨e.frame, he⟩ }
  lexical frame h := h.enter h.lt frame
  global frame h := by
    rw [h.rootParent]
    exact h.enter (Nat.lt_of_le_of_lt (Nat.zero_le _) h.lt) frame

theorem start (p : Program) (arguments : List String) (store : Store) (depth : Nat) :
    { Session.start p arguments store with depth }.InProgram p arguments 1 where
  ordered := by
    intro k e he q hq
    match k, he with
    | 0, he => cases he; cases hq
    | 1, he => cases he; cases hq; exact Nat.one_pos
  inside := Nat.one_pos
  lt := Nat.lt_succ_self 1
  root := rfl
  chains := by
    intro k hk
    match k, hk with
    | 0, _ => exact .root rfl
    | 1, _ => exact .inside rfl (.root rfl)

end InProgram

end Session

/-! ## Functions by name -/

/-- The function of a name: the last one of that name that the program defines, else the native one,
    else none. -/
def Program.resolve (p : Program) (arguments : List String) : Name → Option Value
  | none => none
  | some name =>
    match p.functions.reverse.find? (·.name = name) with
    | some d => some (.closure ⟨d.name, d.params, d.body⟩)
    | none => ((Native.library arguments).find? (·.name = name)).map .native

/-- Of entries that are bound one after another, the last one of a name counts. -/
theorem Frame.get?_foldl_bind {α : Type} (key : α → String) (value : α → Value) (entries : List α)
    (f : Frame) (name : Name) :
    (entries.foldl (fun f a => f.bind (some (key a)) (value a)) f).bindings.get? name
      = ((entries.reverse.find? fun a => some (key a) = name).map value).or
          (f.bindings.get? name) := by
  induction entries generalizing f with
  | nil => rfl
  | cons a entries ih =>
      rw [List.foldl_cons, ih, Frame.bind, Bindings.get?_insert, List.reverse_cons,
        List.find?_append]
      cases entries.reverse.find? (fun a => some (key a) = name) with
      | some b => rfl
      | none =>
          by_cases ha : some (key a) = name
          · simp [ha]
          · simp [ha, Ne.symm ha]

/-- The names of the native functions differ. -/
theorem Native.find?_reverse_library (arguments : List String) (name : Name) :
    (Native.library arguments).reverse.find? (fun f => some f.name = name)
      = (Native.library arguments).find? (fun f => some f.name = name) := by
  have hnames : ((Native.library arguments).map Native.name).Nodup := by
    -- the arguments are in the functions but not in their names
    show ((Native.library []).map Native.name).Nodup
    decide
  generalize Native.library arguments = natives at hnames
  induction natives with
  | nil => rfl
  | cons f natives ih =>
      rw [List.map_cons, List.nodup_cons] at hnames
      rw [List.reverse_cons, List.find?_append, ih hnames.2]
      by_cases hf : some f.name = name
      · have hnone : natives.find? (fun f => some f.name = name) = none := by
          rw [List.find?_eq_none]
          intro g hg hname
          have hsame : g.name = f.name := Option.some.inj ((of_decide_eq_true hname).trans hf.symm)
          exact hnames.1 (List.mem_map.2 ⟨g, hg, hsame⟩)
        simp [hf, hnone]
      · simp [hf]

/-- A function is looked up in the root frame of a program. -/
theorem Program.get?_ofProgram (p : Program) (arguments : List String) (name : Name) :
    ((Frame.ofProgram p arguments).bindings.get? name).bind Value.present?
      = p.resolve arguments name := by
  unfold Frame.ofProgram
  simp only
  rw [Frame.get?_foldl_bind FunctionDef.name, Frame.get?_foldl_bind Native.name,
    Native.find?_reverse_library]
  cases name with
  | none =>
      have hfunctions : p.functions.reverse.find? (fun d => some d.name = none) = none :=
        List.find?_eq_none.2 (by simp)
      have hnatives : (Native.library arguments).find? (fun f => some f.name = none) = none :=
        List.find?_eq_none.2 (by simp)
      rw [hfunctions, hnatives]
      rfl
  | some name =>
      simp only [Option.some.injEq, Program.resolve]
      cases p.functions.reverse.find? (·.name = name) with
      | some d => rfl
      | none =>
          cases (Native.library arguments).find? (·.name = name) with
          | some f => rfl
          | none => rfl

/-- The program has a function of the name. -/
def Program.Defines (p : Program) (name : String) : Prop := ∃ d ∈ p.functions, d.name = name

/-- A name that the program does not define is that of a native function, if of any. -/
theorem Program.resolve_of_not_defines {p : Program} {name : String} (h : ¬ p.Defines name)
    (arguments : List String) :
    p.resolve arguments (some name)
      = ((Native.library arguments).find? (·.name = name)).map .native := by
  have hnone : p.functions.reverse.find? (·.name = name) = none := by
    rw [List.find?_eq_none]
    intro d hd hname
    exact h ⟨d, List.mem_reverse.1 hd, of_decide_eq_true hname⟩
  rw [Program.resolve, hnone]

/-! ## Every moment of a run -/

namespace Linked

/-- The watch that finds nothing. -/
def unwatched : Linked Unit := pure ()

open Classical in
/-- The watch that halts with the alarm unless the condition holds. That a run is the same with and
    without it, whatever the alarm, says that the condition holds at every moment of the run. -/
noncomputable def alarmUnless (condition : Nat → Session → Prop) (alarm : Halt) : Linked Unit :=
  fun number s => if condition number s then .done () s else .halted alarm s

/-- A call of a function that has been looked up before. -/
def callResolved (opts : Options) (eval : Instr → Linked (Option Value)) (f? : Option Value)
    (i : Instr) : Linked (Option Value) := do
  let vs ← values eval "call" i.operands
  match f? with
  | some f => callValue opts eval .global f vs
  | none => Run.halt (.fault (.unknownFunction i.value) none)

/-- The run of a program over linked environments is its run in the main environment, as long as the
    watch finds nothing. -/
theorem run_eq (opts : Options) (fuel : Nat) (p : Program) (arguments : List String) (store : Store)
    (depth : Nat) {watch : Linked Unit}
    (hw : ∀ number s, s.InProgram p arguments number → watch number s = .done () s) :
    Linked.run opts watch fuel p 1 { Session.start p arguments store with depth }
      = { Session.start p arguments store with depth }.perform 1 (p.run opts fuel arguments) := by
  have inv := Session.InProgram.invariant p arguments
  refine (Mirrors.bind inv (Mirrors.onFrame _) fun _ => ?_) 1 _ (.start p arguments store depth) rfl
  exact Mirrors.block inv (Mirrors.eval inv opts hw fuel _) p.main

/-- At every moment of a run a function that is called by its name is the one that the program and
    the library define. -/
theorem callNamed_eq (opts : Options) (fuel : Nat) {p : Program} {arguments : List String}
    {watch : Linked Unit}
    (hw : ∀ number s, s.InProgram p arguments number → watch number s = .done () s) (i : Instr)
    {number : Nat} {s : Session} (hs : s.InProgram p arguments number) :
    callNamed opts watch (eval opts watch fuel) i number s
      = callResolved opts (eval opts watch fuel) (p.resolve arguments i.value) i number s := by
  have inv := Session.InProgram.invariant p arguments
  have hvalues := Mirrors.values inv (Mirrors.eval inv opts hw fuel (s.outer number)) "call"
    i.operands number s hs rfl
  -- the arguments come first, and the root is the same when the name is looked up after them
  show Linked.bind _ _ number s = Linked.bind _ _ number s
  unfold Linked.bind
  rw [hvalues, Session.perform_eq]
  cases Eval.values (TagScript.eval opts fuel (s.outer number)) "call" i.operands
      (s.state number) with
  | done vs t =>
      have ht := inv.withState t hs
      have hfunction : rootFunction i.value number (s.withState number t)
          = .done (p.resolve arguments i.value) (s.withState number t) := by
        rw [rootFunction, ht.frame_root, Program.get?_ofProgram]
      exact (bind_done (hw number _ ht)).trans (bind_done hfunction)
  | halted h t => rfl
  | outOfFuel => rfl

end Linked

end TagScript
