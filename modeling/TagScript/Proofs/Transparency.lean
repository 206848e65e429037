import TagScript.CommandLine.Program
import TagScript.Proofs.Eval.Tracing
import TagScript.Proofs.Safety.WellFormed

set_option autoImplicit false

/-! # Tracing is transparent

Every stage can be traced: reading a script, analysing it, running its program. The stages decide
alike with tracing and without it, and what they leave is the same but for the trace lines on the
error stream (`debug_transparent`). That a run of an analysed program is not stopped by a trace line
is where its safety is needed: showing the arguments of a call would fail on an absent value. -/

namespace TagScript

open Markup (Node)

/-! ## Stores with trace lines -/

namespace Store

theorem traceAll_nil (s : Store) (debug : Bool) : s.traceAll debug [] = s := by
  cases debug <;> rfl

theorem traceAll_concat (s : Store) (debug : Bool) (lines more : List String) :
    (s.traceAll debug lines).traceAll debug more = s.traceAll debug (lines ++ more) := by
  cases debug with
  | false => rfl
  | true => simp [traceAll]

/-- Trace lines change the error stream alone. -/
theorem traceAll_eq (s : Store) (debug : Bool) (lines : List String) :
    s.traceAll debug lines = { s with stderr := (s.traceAll debug lines).stderr } := by
  cases debug with
  | false => rfl
  | true =>
      induction lines generalizing s with
      | nil => rfl
      | cons line lines ih => exact ih (s.trace line)

theorem traceAll_files (s : Store) (debug : Bool) (lines : List String) :
    (s.traceAll debug lines).files = s.files := by
  rw [traceAll_eq]

theorem traceAll_heap (s : Store) (debug : Bool) (lines : List String) :
    (s.traceAll debug lines).heap = s.heap := by
  rw [traceAll_eq]

theorem traceAll_print (s : Store) (debug : Bool) (lines : List String) (text : String) :
    (s.traceAll debug lines).print text = (s.print text).traceAll debug lines := by
  cases debug with
  | false => rfl
  | true =>
      induction lines generalizing s with
      | nil => rfl
      | cons line lines ih => exact ih (s.trace line)

end Store

/-! ## Runs -/

theorem State.Proper.traceAll {p : Program} {arguments : List String} {s : State}
    (h : s.Proper p arguments) (debug : Bool) (lines : List String) :
    (s.traceAll debug lines).Proper p arguments := by
  have hheap : (s.traceAll debug lines).store.heap = s.store.heap :=
    s.store.traceAll_heap debug lines
  have hsize : (s.traceAll debug lines).size = s.size := congrArg (·.lists.size) hheap
  constructor
  · rw [hsize]
    exact h.frame
  · rw [hsize, hheap]
    exact h.heap

/-- No run of an analysed program finds an absent value where it has to show one. -/
theorem Program.not_findsAbsent {root : Node} {p : Program}
    (hp : (Analysis.program root).outcome = .ok p) (opts : Options) (fuel : Nat)
    {arguments : List String} {s : State} (hs : s.Proper p arguments) :
    ¬ (p.run opts fuel arguments s).FindsAbsent := by
  rintro ⟨t, ht⟩
  let w : Watch := ⟨p, arguments, opts, fun _ _ _ _ => True, .crash .absentInspected,
    Analysis.program_shaped hp⟩
  have hends := (w.run_safe (fun _ _ _ _ _ _ _ _ => trivial) fuel s ⟨hs, Nat.zero_le _⟩).1
  have hrun : w.program.run w.opts fuel w.arguments s = .halted (.crash .absentInspected) t := ht
  rw [hrun] at hends
  -- a safe run halts for an ordinary reason, and to find an absent value is none
  cases hends with
  | halted _ hordinary => exact hordinary

/-- A run of an analysed program goes the same way with and without tracing. -/
theorem Program.run_traced {root : Node} {p : Program}
    (hp : (Analysis.program root).outcome = .ok p) (opts : Options) (fuel : Nat)
    {arguments : List String} {s : State} (hs : s.Proper p arguments) (lines : List String) :
    (p.run { opts with debug := false } fuel arguments s).Like (State.Echoes false)
      (p.run { opts with debug := true } fuel arguments (s.traceAll true lines)) := by
  let plain := p.run { opts with debug := false } fuel arguments s
  let traced := p.run { opts with debug := true } fuel arguments (s.traceAll true lines)
  have hecho : s.Echoes false (s.traceAll true lines) := ⟨s, lines, rfl, rfl⟩
  have hplain : ¬ plain.FindsAbsent := Program.not_findsAbsent hp _ fuel hs
  have htraced : ¬ traced.FindsAbsent := Program.not_findsAbsent hp _ fuel (hs.traceAll true lines)
  have hthere : plain = .outOfFuel ∨ plain.FindsAbsent ∨ traced.FindsAbsent ∨
      plain.Like (State.Echoes false) traced :=
    (Run.Alongside.congruence opts false).run (Nat.le_refl fuel) p arguments _ _ hecho
  have hback : traced = .outOfFuel ∨ traced.FindsAbsent ∨ plain.FindsAbsent ∨
      traced.Like (State.Echoes true) plain :=
    (Run.Alongside.congruence opts true).run (Nat.le_refl fuel) p arguments _ _
      (State.echoes_true.2 hecho)
  rcases hthere with hfuel | habsent | habsent | hlike
  · -- the run without tracing lacks fuel, and so does the other
    have hfuel' : traced = .outOfFuel := by
      rcases hback with h | habsent | habsent | hlike
      · exact h
      · exact absurd habsent htraced
      · exact absurd habsent hplain
      · refine Outcome.eq_of_not_finished (hlike.finished_eq.trans ?_)
        rw [hfuel]
        rfl
    show plain.Like _ traced
    rw [hfuel, hfuel']
    exact trivial
  · exact absurd habsent hplain
  · exact absurd habsent htraced
  · exact hlike

/-! ## Reports -/

/-- The store with a text added on the error stream. -/
def Store.writeError (s : Store) (text : String) : Store := { s with stderr := s.stderr ++ text }

/-- The second store is the first with trace lines on the error stream, before what was reported
    there in the end. -/
def Store.TracedBefore (s t : Store) : Prop :=
  ∃ (u : Store) (lines : List String) (report : String),
    s = u.writeError report ∧ t = (u.traceAll true lines).writeError report

namespace Store

theorem writeError_files (s : Store) (text : String) : (s.writeError text).files = s.files := rfl

theorem writeError_empty (s : Store) : s.writeError "" = s := by
  simp [writeError]

theorem TracedBefore.of_traceAll (s : Store) (lines : List String) :
    s.TracedBefore (s.traceAll true lines) :=
  ⟨s, lines, "", (writeError_empty _).symm, (writeError_empty _).symm⟩

theorem reportLine_eq (s : Store) (line : String) :
    s.reportLine line = s.writeError (line ++ "\n") := by
  simp [reportLine, writeError, String.append_assoc]

theorem writeError_writeError (s : Store) (text more : String) :
    (s.writeError text).writeError more = s.writeError (text ++ more) := by
  simp [writeError, String.append_assoc]

end Store

namespace CommandLine

/-- What is reported about an error depends on nothing but the error and the files. -/
theorem reportError_eq (kind path text : String) (span : Option Span) (files : Files) :
    ∃ lines, ∀ s : Store, s.files = files →
      reportError kind path text span s = s.writeError lines := by
  let header := kind ++ " in '" ++ path ++ "': " ++ text ++ "\n"
  cases span with
  | none => exact ⟨header, fun s _ => s.reportLine_eq _⟩
  | some span =>
      let location := "  Location: " ++ span.format ++ "\n"
      cases hline : sourceLine? files span with
      | none =>
          refine ⟨header ++ location, fun s hs => ?_⟩
          simp only [reportError, Store.reportLine_eq, Store.writeError_writeError,
            Store.writeError_files, hs, hline, header, location]
      | some line =>
          refine ⟨header ++ location ++ ("  Source: " ++ line ++ "\n"), fun s hs => ?_⟩
          simp only [reportError, Store.reportLine_eq, Store.writeError_writeError,
            Store.writeError_files, hs, hline, header, location]

/-- A failure is reported, or is a crash. -/
theorem report_eq (path : String) (failure : Failure) (files : Files) :
    (∃ lines, ∀ s : Store, s.files = files → report path failure s = .done 1 (s.writeError lines)) ∨
    ∃ cause, ∀ s, report path failure s = .halted (.crash cause) s := by
  match failure with
  | .parse e =>
      refine .inl ⟨"Parse error in '" ++ path ++ "':" ++ "\n" ++ (e.text ++ "\n"), fun s _ => ?_⟩
      simp only [report, Store.reportLine_eq, Store.writeError_writeError]
  | .semantics e =>
      obtain ⟨lines, h⟩ := reportError_eq "Semantic analysis error" path e.text e.span files
      exact .inl ⟨lines, fun s hs => congrArg (Outcome.done 1) (h s hs)⟩
  | .halt (.fault cause span) =>
      obtain ⟨lines, h⟩ := reportError_eq "Runtime error" path cause.message span files
      exact .inl ⟨lines, fun s hs => congrArg (Outcome.done 1) (h s hs)⟩
  | .halt (.crash cause) => exact .inr ⟨cause, fun _ => rfl⟩

/-- A failure is reported the same way after trace lines. -/
theorem report_traced (path : String) (failure : Failure) (s : Store) (lines : List String) :
    (report path failure s).Like Store.TracedBefore
      (report path failure (s.traceAll true lines)) := by
  rcases report_eq path failure s.files with ⟨text, h⟩ | ⟨cause, h⟩
  · rw [h s rfl, h _ (s.traceAll_files true lines)]
    exact ⟨rfl, s, lines, text, rfl, rfl⟩
  · rw [h, h]
    exact ⟨rfl, .of_traceAll s lines⟩

/-! ## Stages -/

/-- A script is read alike with tracing and without it. -/
theorem scriptTree_eq (path : String) (s : Store) :
    ∃ tree lines, ∀ debug before, scriptTree debug path (s.traceAll debug before)
      = (tree, s.traceAll debug (before ++ lines)) := by
  cases htext : scriptText s.files path with
  | error failure =>
      refine ⟨.error failure, [], fun debug before => ?_⟩
      simp only [scriptTree, Store.traceAll_files, htext, List.append_nil]
  | ok text =>
      let reading := Markup.read .document path text
      refine ⟨reading.mapError fun stop => .ofMarkup (stop.failure .document path text),
        (Markup.completed reading).map Node.traceLine, fun debug before => ?_⟩
      simp only [scriptTree, Store.traceAll_files, htext, Store.traceAll_concat, reading]

/-- A script is analysed alike with tracing and without it. -/
theorem scriptProgram_eq (path : String) (s : Store) :
    ∃ program lines, (∀ p, program = .ok p → ∃ root, (Analysis.program root).outcome = .ok p) ∧
      ∀ debug before, scriptProgram debug path (s.traceAll debug before)
        = (program, s.traceAll debug (before ++ lines)) := by
  obtain ⟨tree, lines, htree⟩ := scriptTree_eq path s
  cases tree with
  | error failure =>
      refine ⟨.error failure, lines, nofun, fun debug before => ?_⟩
      simp only [scriptProgram, htree]
  | ok root =>
      let analysis := Analysis.program root
      refine ⟨analysis.outcome.mapError .semantics, lines ++ analysis.programTrace, fun p hp => ?_,
        fun debug before => ?_⟩
      · refine ⟨root, ?_⟩
        cases houtcome : (Analysis.program root).outcome with
        | ok q => simpa [analysis, houtcome, Except.mapError] using hp
        | error e => simp [analysis, houtcome, Except.mapError] at hp
      · simp only [scriptProgram, htree, Store.traceAll_concat, List.append_assoc, analysis]

/-! ## The command line -/

/-- What is printed does not depend on trace lines. -/
theorem print_traced (text : String) (s : Store) (lines : List String) :
    (Outcome.done 0 (s.print text) : Outcome Store Nat).Like Store.TracedBefore
      (.done 0 ((s.traceAll true lines).print text)) := by
  rw [Store.traceAll_print]
  exact ⟨rfl, .of_traceAll _ lines⟩

theorem showTree_traced (settings : Settings) (path : String) (s : Store) :
    (showTree { settings with debug := false } path s).Like Store.TracedBefore
      (showTree { settings with debug := true } path s) := by
  obtain ⟨tree, lines, htree⟩ := scriptTree_eq path s
  have hplain : scriptTree false path s = (tree, s) := htree false []
  have htraced : scriptTree true path s = (tree, s.traceAll true lines) := htree true []
  simp only [showTree, hplain, htraced]
  cases tree with
  | error failure => exact report_traced path failure s lines
  | ok root => exact print_traced (root.outline 0) s lines

theorem showProgram_traced (settings : Settings) (path : String) (s : Store) :
    (showProgram { settings with debug := false } path s).Like Store.TracedBefore
      (showProgram { settings with debug := true } path s) := by
  obtain ⟨program, lines, -, hprogram⟩ := scriptProgram_eq path s
  have hplain : scriptProgram false path s = (program, s) := hprogram false []
  have htraced : scriptProgram true path s = (program, s.traceAll true lines) := hprogram true []
  simp only [showProgram, hplain, htraced]
  cases program with
  | error failure => exact report_traced path failure s lines
  | ok p => exact print_traced p.outline s lines

/-- What the outcome of a run comes to on the command line. -/
def concluded (path : String) : Outcome State Unit → Outcome Store Nat
  | .done () t => .done 0 t.store
  | .halted h t => report path (.halt h) t.store
  | .outOfFuel => .outOfFuel

theorem concluded_traced (path : String) {o o' : Outcome State Unit}
    (h : o.Like (State.Echoes false) o') :
    (concluded path o).Like Store.TracedBefore (concluded path o') := by
  cases o <;> cases o' <;> simp only [Outcome.Like] at h
  · obtain ⟨lines, rfl⟩ := State.echoes_false.1 h.2
    exact ⟨rfl, .of_traceAll _ lines⟩
  · obtain ⟨rfl, hecho⟩ := h
    obtain ⟨lines, rfl⟩ := State.echoes_false.1 hecho
    exact report_traced path _ _ lines
  · exact trivial

theorem runScript_traced (fuel : Nat) (settings : Settings) (path : String)
    (arguments : List String) (files : Files) (stdin : Input) :
    (runScript fuel { settings with debug := false } path arguments { files, stdin }).Like
      Store.TracedBefore
      (runScript fuel { settings with debug := true } path arguments { files, stdin }) := by
  generalize hs : ({ files, stdin } : Store) = s
  obtain ⟨program, lines, hanalysed, hprogram⟩ := scriptProgram_eq path s
  let before := ["parsing " ++ path]
  have hplain : scriptProgram false path (s.traceAll false before) = (program, s) :=
    hprogram false before
  have htraced : scriptProgram true path (s.traceAll true before)
      = (program, s.traceAll true (before ++ lines)) := hprogram true before
  simp only [runScript, hplain, htraced, before]
  cases program with
  | error failure => exact report_traced path failure s _
  | ok p =>
      obtain ⟨root, hp⟩ := hanalysed p rfl
      have hproper : State.Proper p (path :: arguments) ⟨{}, s, 0⟩ := by
        subst hs
        exact ⟨Frame.Each.empty, Heap.Each.empty⟩
      have hrun := Program.run_traced hp
        { shortCircuitLoops := settings.shortCircuitLoops
          maxCallDepth := settings.maxCallDepth } fuel hproper (before ++ lines)
      exact concluded_traced path hrun

end CommandLine

/-! ## Main result -/

theorem Program.terminates_iff {p : Program} {opts : Options} {arguments : List String}
    {s : State} :
    p.Terminates opts arguments s ↔ ∃ fuel, (p.run opts fuel arguments s).finished = true := by
  constructor
  · rintro ⟨o, ho, fuel, rfl⟩
    exact ⟨fuel, ho⟩
  · rintro ⟨fuel, h⟩
    exact ⟨_, h, fuel, rfl⟩

/-- Tracing changes nothing but the error stream. A script has the same tree and the same program,
    or is refused for the same reason; a run ends with the same result or the same reason to halt,
    the same environment, lists, files and output, and it ends if and only if the run without
    tracing does; and a command line gives the same exit code, files and output, its report coming
    after the trace lines. -/
theorem debug_transparent :
    (∀ path s, ∃ tree lines, ∀ debug,
      CommandLine.scriptTree debug path s = (tree, s.traceAll debug lines)) ∧
    (∀ path s, ∃ program lines, ∀ debug,
      CommandLine.scriptProgram debug path s = (program, s.traceAll debug lines)) ∧
    (∀ root p, (Analysis.program root).outcome = .ok p →
      ∀ (opts : Options) (arguments : List String) (files : Files) (stdin : Input),
      let start := Program.start files stdin
      (∀ fuel, (p.run { opts with debug := false } fuel arguments start).Like
        (fun t u => ∃ lines, u = t.traceAll true lines)
        (p.run { opts with debug := true } fuel arguments start)) ∧
      (p.Terminates { opts with debug := true } arguments start ↔
        p.Terminates { opts with debug := false } arguments start)) ∧
    ∀ (settings : CommandLine.Settings) (path : String) (files : Files) (stdin : Input),
      let plain : CommandLine.Settings := { settings with debug := false }
      let traced : CommandLine.Settings := { settings with debug := true }
      let s : Store := { files, stdin }
      (CommandLine.showTree plain path s).Like Store.TracedBefore
        (CommandLine.showTree traced path s) ∧
      (CommandLine.showProgram plain path s).Like Store.TracedBefore
        (CommandLine.showProgram traced path s) ∧
      ∀ fuel arguments, (CommandLine.runScript fuel plain path arguments s).Like
        Store.TracedBefore (CommandLine.runScript fuel traced path arguments s) := by
  refine ⟨fun path s => ?_, fun path s => ?_, fun root p hp opts arguments files stdin => ?_,
    fun settings path files stdin => ⟨?_, ?_, fun fuel arguments => ?_⟩⟩
  · obtain ⟨tree, lines, htree⟩ := CommandLine.scriptTree_eq path s
    refine ⟨tree, lines, fun debug => ?_⟩
    simpa only [Store.traceAll_nil, List.nil_append] using htree debug []
  · obtain ⟨program, lines, -, hprogram⟩ := CommandLine.scriptProgram_eq path s
    refine ⟨program, lines, fun debug => ?_⟩
    simpa only [Store.traceAll_nil, List.nil_append] using hprogram debug []
  · have hproper : (Program.start files stdin).Proper p arguments :=
      ⟨Frame.Each.empty, Heap.Each.empty⟩
    have hlike := fun fuel => Program.run_traced hp opts fuel hproper []
    refine ⟨fun fuel => (hlike fuel).mono fun _ _ => State.echoes_false.1, ?_⟩
    rw [Program.terminates_iff, Program.terminates_iff]
    exact exists_congr fun fuel => by rw [(hlike fuel).finished_eq]; rfl
  · exact CommandLine.showTree_traced settings path _
  · exact CommandLine.showProgram_traced settings path _
  · exact CommandLine.runScript_traced fuel settings path arguments files stdin

/-- The document that puts a list into itself and prints it, run with tracing and without it. -/
theorem debug_transparent_cyclic :
    ∃ p t lines, (Analysis.program cyclicDocument).outcome = .ok p ∧
      p.run {} 9 [] (Program.start {} {}) = .done () t ∧ t.store.stdout = "[7, [...]]" ∧
      p.run { debug := true } 9 [] (Program.start {} {}) = .done () (t.traceAll true lines) := by
  obtain ⟨p, t, hp, hrun, hout⟩ : ∃ p t, (Analysis.program cyclicDocument).outcome = .ok p ∧
      p.run {} 9 [] (Program.start {} {}) = .done () t ∧ t.store.stdout = "[7, [...]]" :=
    ⟨_, _, rfl, rfl, rfl⟩
  have hlike : (p.run {} 9 [] (Program.start {} {})).Like _
      (p.run { debug := true } 9 [] (Program.start {} {})) :=
    (debug_transparent.2.2.1 cyclicDocument p hp {} [] {} {}).1 9
  rw [hrun] at hlike
  obtain ⟨u, hu, lines, rfl⟩ := hlike.of_done
  exact ⟨p, t, lines, hp, hrun, hout, hu⟩

end TagScript
