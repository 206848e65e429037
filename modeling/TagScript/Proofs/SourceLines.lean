import Mathlib.Data.List.TakeWhile
import TagScript.Proofs.Location.Innermost
import TagScript.Proofs.Markup.Nesting
import TagScript.Proofs.Shape.Blame
import TagScript.Proofs.Text.Place
import TagScript.Proofs.Text.Utf8
import TagScript.Proofs.Transparency

set_option autoImplicit false

/-! # Source lines in reports

The spans of a script are counted in its text with the tabs expanded, and a report shows a line of
the file as it stands there. Expanding tabs moves places along their lines but never to another line
(`Markup.Node.OpensAt.startLine_eq`), and what a script fails for, once it has been read, is placed
at one of its elements (`CommandLine.failure_placed`). So the line shown is the one on which that
element opens (`CommandLine.reported_source_line`). -/

namespace TagScript

open Markup (Node)

/-! ## Trimmed lines -/

namespace Text

theorem dropTrailing_eq_nil {p : Char → Bool} {s : List Char} :
    dropTrailing p s = [] ↔ ∀ c ∈ s, p c = true := by
  simp [dropTrailing]

/-- A text with a character that is not blank does not become empty when it is trimmed. -/
theorem trim_ne_nil {s : List Char} {c : Char} (hc : c ∈ s) (hblank : isBlank c = false) :
    trim s ≠ [] := by
  intro htrim
  have hrest : ∀ d ∈ s.dropWhile isBlank, isBlank d = true := dropTrailing_eq_nil.1 htrim
  have hmem : c ∈ s.takeWhile isBlank ∨ c ∈ s.dropWhile isBlank := by
    rw [← List.mem_append, List.takeWhile_append_dropWhile]
    exact hc
  rcases hmem with hmem | hmem
  · rw [List.mem_takeWhile_imp hmem] at hblank
    cases hblank
  · rw [hrest c hmem] at hblank
    cases hblank

end Text

/-! ## Where elements open -/

namespace Markup

variable {file : String} {source : List Char} {n : Node} {k : Nat}

/-- The element opens at the offset `k` of the source: the `<` there is the one with which the piece
    begins that the element takes of the expanded text. -/
structure Node.OpensAt (file : String) (source : List Char) (k : Nat) (n : Node) : Prop where
  opens : source[k]? = some '<'
  takes : ∃ past, n.Takes file (Text.expandTabs source)
    (Text.expandTabs (source.take k)).length past

/-- Every element of a document opens somewhere in its source. -/
theorem exists_opensAt {text : String} {root : Node} (h : parse .document file text = .ok root)
    (hn : n ∈ root.postorder) : ∃ k, n.OpensAt file text.toList k := by
  obtain ⟨first, past, htakes⟩ := ((parse_eq_ok.1 h).stands n hn).takes
  obtain ⟨k, hopens, hfirst⟩ := Text.exists_of_getElem?_expandTabs htakes.opens (by decide)
  subst hfirst
  exact ⟨k, hopens, past, htakes⟩

namespace Node.OpensAt

/-- An element starts on the line on which it opens. -/
theorem startLine_eq (h : n.OpensAt file source k) :
    n.span.startLine = (Text.lineAt source k : Nat) := by
  obtain ⟨past, htakes⟩ := h.takes
  have hfirst := congrArg (fun place => (ofLex place).1) htakes.isFirst
  rw [← Text.lineAt_expandTabs]
  exact hfirst

theorem onLine (h : n.OpensAt file source k) :
    Text.OnLine source k (Text.lineAt source k) (Text.columnAt source k) (Text.lineOf source k) :=
  Text.onLine_of_le (Nat.le_of_lt (List.getElem?_eq_some_iff.1 h.opens).1)

/-- The `<` stands on its line. -/
theorem getElem?_line (h : n.OpensAt file source k) :
    (Text.lineOf source k)[Text.columnAt source k - 1]? = some '<' :=
  Text.getElem?_lineOf h.opens (by decide)

theorem trim_line_ne_nil (h : n.OpensAt file source k) : Text.trim (Text.lineOf source k) ≠ [] :=
  Text.trim_ne_nil (List.mem_of_getElem? h.getElem?_line) (by decide)

end Node.OpensAt

end Markup

/-! ## Runs that end in a fault -/

/-- Whatever proper state an analysed program is run from, a fault is placed at an element. -/
theorem Program.fault_at_element {root : Node} {p : Program}
    (hp : (Analysis.program root).outcome = .ok p) {opts : Options} {fuel : Nat}
    {arguments : List String} {s t : State} (hs : s.Proper p arguments) {cause : Fault}
    {place : Option Span} (hrun : p.run opts fuel arguments s = .halted (.fault cause place) t) :
    ∃ n ∈ root.postorder, place = some n.span := by
  obtain ⟨culprit, raw, hr⟩ := Program.exists_raises hrun
  have hmem := hr.culprit_mem_of_proper (Analysis.program_shaped hp) hs
  obtain ⟨n, hn, hspan⟩ := Analysis.program_spans hp culprit hmem
  obtain ⟨u, hu⟩ := hr.outcome hspan
  have hsame := (Outcome.halted.inj (hrun.symm.trans hu)).1
  cases raw with
  | crash c => cases hsame
  | fault c q =>
      obtain rfl : q = none := hr.raised.place_eq_none
      exact ⟨n, hn, (Halt.fault.inj hsame).2⟩

/-! ## Failures of a script -/

namespace CommandLine

/-- The options of a run. -/
def Settings.options (settings : Settings) : Options :=
  { debug := settings.debug
    shortCircuitLoops := settings.shortCircuitLoops
    maxCallDepth := settings.maxCallDepth }

/-- The place that a failure is reported with. -/
def Failure.span? : Failure → Option Span
  | .parse _ => none
  | .semantics e => e.span
  | .halt (.fault _ span) => span
  | .halt (.crash _) => none

/-- Why a stage of loading has come to nothing, and the store then. -/
def refused? {α : Type} : Except Failure α × Store → Option (Failure × Store)
  | (.error failure, t) => some (failure, t)
  | (.ok _, _) => none

/-- Why a run has halted, and the store then. -/
def halted? : Outcome State Unit → Option (Failure × Store)
  | .halted h t => some (.halt h, t.store)
  | .done _ _ => none
  | .outOfFuel => none

/-- Why the run of a loaded script has halted, or why it could not be loaded. -/
def runFailure? (fuel : Nat) (settings : Settings) (arguments : List String) :
    Except Failure Program × Store → Option (Failure × Store)
  | (.error failure, t) => some (failure, t)
  | (.ok p, u) => halted? (p.run settings.options fuel arguments ⟨{}, u, 0⟩)

/-- The failure that a script comes to in the stages that the settings ask for, and the store
    then. -/
def failure? (fuel : Nat) (settings : Settings) (path : String) (arguments : List String)
    (s : Store) : Option (Failure × Store) :=
  if settings.parse then refused? (scriptTree settings.debug path s)
  else if settings.analyze then refused? (scriptProgram settings.debug path s)
  else runFailure? fuel settings (path :: arguments)
    (scriptProgram settings.debug path (s.traceAll settings.debug ["parsing " ++ path]))

/-- The outcome reports the failure; without one, its exit code is not 1. -/
def Reports (path : String) : Option (Failure × Store) → Outcome Store Nat → Prop
  | some (failure, u), o => o = report path failure u
  | none, o => ∀ t, o ≠ .done 1 t

variable {fuel : Nat} {settings : Settings} {path : String} {arguments : List String}

theorem showTree_reports (settings : Settings) (path : String) (s : Store) :
    Reports path (refused? (scriptTree settings.debug path s)) (showTree settings path s) := by
  unfold showTree
  rcases scriptTree settings.debug path s with ⟨failure | root, u⟩
  · rfl
  · exact fun t => nofun

theorem showProgram_reports (settings : Settings) (path : String) (s : Store) :
    Reports path (refused? (scriptProgram settings.debug path s))
      (showProgram settings path s) := by
  unfold showProgram
  rcases scriptProgram settings.debug path s with ⟨failure | p, u⟩
  · rfl
  · exact fun t => nofun

theorem concluded_reports (path : String) (o : Outcome State Unit) :
    Reports path (halted? o) (concluded path o) := by
  cases o with
  | done _ t => exact fun u => nofun
  | halted h t => rfl
  | outOfFuel => exact fun u => nofun

theorem runScript_reports (fuel : Nat) (settings : Settings) (path : String)
    (arguments : List String) (s : Store) :
    Reports path (runFailure? fuel settings (path :: arguments)
        (scriptProgram settings.debug path (s.traceAll settings.debug ["parsing " ++ path])))
      (runScript fuel settings path arguments s) := by
  simp only [runScript]
  rcases scriptProgram settings.debug path (s.traceAll settings.debug ["parsing " ++ path])
    with ⟨failure | p, u⟩
  · rfl
  · exact concluded_reports path (p.run settings.options fuel (path :: arguments) ⟨{}, u, 0⟩)

/-- A command line on a script reports the failure that the script comes to. -/
theorem execute_reports {command : List String} {s : Store}
    (hrequest : Request.ofArguments command = .script settings path arguments)
    (hfound : s.files.exists? path = .ok true) (hroom : settings.hasRoom = true) :
    Reports path (failure? fuel settings path arguments s) (execute fuel command s) := by
  simp only [execute, hrequest, hfound, hroom, Bool.not_true, Bool.false_eq_true, if_false]
  unfold failure?
  by_cases hparse : settings.parse = true
  · rw [if_pos hparse, if_pos hparse]
    exact showTree_reports settings path s
  rw [if_neg hparse, if_neg hparse]
  by_cases hanalyze : settings.analyze = true
  · rw [if_pos hanalyze, if_pos hanalyze]
    exact showProgram_reports settings path s
  · rw [if_neg hanalyze, if_neg hanalyze]
    exact runScript_reports fuel settings path arguments s

theorem execute_of_failure {command : List String} {s u : Store} {failure : Failure}
    (hrequest : Request.ofArguments command = .script settings path arguments)
    (hfound : s.files.exists? path = .ok true) (hroom : settings.hasRoom = true)
    (h : failure? fuel settings path arguments s = some (failure, u)) :
    execute fuel command s = report path failure u := by
  have hreports : Reports path (failure? fuel settings path arguments s)
      (execute fuel command s) := execute_reports hrequest hfound hroom
  rw [h] at hreports
  exact hreports

theorem exists_failure {command : List String} {s t : Store}
    (hrequest : Request.ofArguments command = .script settings path arguments)
    (hfound : s.files.exists? path = .ok true) (h : execute fuel command s = .done 1 t) :
    ∃ failure u, failure? fuel settings path arguments s = some (failure, u) ∧
      report path failure u = .done 1 t := by
  -- without room for the calls there is no exit code
  have hroom : settings.hasRoom = true := by
    by_contra hroom
    rw [Bool.not_eq_true] at hroom
    simp [execute, hrequest, hfound, hroom] at h
  have hreports : Reports path (failure? fuel settings path arguments s)
      (execute fuel command s) := execute_reports hrequest hfound hroom
  cases hfailure : failure? fuel settings path arguments s with
  | none =>
      rw [hfailure] at hreports
      exact absurd h (hreports t)
  | some result =>
      rw [hfailure] at hreports
      exact ⟨result.1, result.2, rfl, hreports.symm.trans h⟩

section Read

variable {s : Store} {text : String} {root : Node}

theorem scriptTree_ok (htext : scriptText s.files path = .ok text)
    (hroot : Markup.parse .document path text = .ok root) (debug : Bool) :
    ∃ lines, scriptTree debug path s = (.ok root, s.traceAll debug lines) := by
  have hread : Markup.read .document path text = .ok root :=
    Markup.readPrepared_eq_ok.2 (Markup.parse_eq_ok.1 hroot)
  simp only [scriptTree, htext, hread]
  exact ⟨_, rfl⟩

theorem scriptProgram_ok (htext : scriptText s.files path = .ok text)
    (hroot : Markup.parse .document path text = .ok root) (debug : Bool) :
    ∃ lines, scriptProgram debug path s
      = ((Analysis.program root).outcome.mapError .semantics, s.traceAll debug lines) := by
  obtain ⟨lines, htree⟩ := scriptTree_ok htext hroot debug
  simp only [scriptProgram, htree, Store.traceAll_concat]
  exact ⟨_, rfl⟩

/-- The failure is a crash, or is placed at an element of the tree. -/
def Failure.PlacedIn (root : Node) (failure : Failure) : Prop :=
  (∃ cause, failure = .halt (.crash cause)) ∨ ∃ n ∈ root.postorder, failure.span? = some n.span

theorem refused_placed {t u : Store} {failure : Failure}
    (h : refused? ((Analysis.program root).outcome.mapError .semantics, u) = some (failure, t)) :
    failure.PlacedIn root := by
  cases houtcome : (Analysis.program root).outcome with
  | ok p =>
      rw [houtcome] at h
      cases h
  | error e =>
      rw [houtcome] at h
      cases h
      exact .inr (Analysis.program_blames root e houtcome)

theorem runFailure_placed {t : Store} {failure : Failure} (files : Files) (stdin : Input)
    (debug : Bool) (lines : List String)
    (h : runFailure? fuel settings arguments ((Analysis.program root).outcome.mapError .semantics,
      ({ files, stdin } : Store).traceAll debug lines) = some (failure, t)) :
    failure.PlacedIn root := by
  cases hp : (Analysis.program root).outcome with
  | error e =>
      rw [hp] at h
      cases h
      exact .inr (Analysis.program_blames root e hp)
  | ok p =>
      rw [hp] at h
      have hstart : State.Proper p arguments ⟨{}, { files, stdin }, 0⟩ :=
        ⟨Frame.Each.empty, Heap.Each.empty⟩
      -- the traces of loading come before the run, and a proper state stays proper under them
      have hproper := hstart.traceAll debug lines
      have hhalted : halted? (p.run settings.options fuel arguments
          (State.traceAll ⟨{}, { files, stdin }, 0⟩ debug lines)) = some (failure, t) := h
      unfold halted? at hhalted
      split at hhalted
      · rename_i halt u hrun
        cases hhalted
        cases halt with
        | crash cause => exact .inl ⟨cause, rfl⟩
        | fault cause place => exact .inr (Program.fault_at_element hp hproper hrun)
      · cases hhalted
      · cases hhalted

end Read

/-- What a script that can be read fails for is placed at one of its elements, unless it is a
    crash. -/
theorem failure_placed {files : Files} {stdin : Input} {text : String} {root : Node}
    {failure : Failure} {t : Store} (htext : scriptText files path = .ok text)
    (hroot : Markup.parse .document path text = .ok root)
    (h : failure? fuel settings path arguments { files, stdin } = some (failure, t)) :
    failure.PlacedIn root := by
  unfold failure? at h
  by_cases hparse : settings.parse = true
  · -- the tree is all that is asked for, and it can be read
    obtain ⟨lines, htree⟩ := scriptTree_ok (s := { files, stdin }) htext hroot settings.debug
    rw [if_pos hparse, htree] at h
    cases h
  rw [if_neg hparse] at h
  by_cases hanalyze : settings.analyze = true
  · obtain ⟨lines, hprogram⟩ :=
      scriptProgram_ok (s := { files, stdin }) htext hroot settings.debug
    rw [if_pos hanalyze, hprogram] at h
    exact refused_placed h
  · have htraced : scriptText (({ files, stdin } : Store).traceAll settings.debug
        ["parsing " ++ path]).files path = .ok text := by
      rw [Store.traceAll_files]
      exact htext
    obtain ⟨lines, hprogram⟩ := scriptProgram_ok htraced hroot settings.debug
    rw [if_neg hanalyze, hprogram, Store.traceAll_concat] at h
    exact runFailure_placed files stdin settings.debug _ h

/-- A script that can be read has bytes of which its text is decoded. -/
theorem exists_bytes {files : Files} {text : String} (h : scriptText files path = .ok text) :
    ∃ bytes, files.read path = .ok bytes ∧ fileText bytes = .ok text := by
  unfold scriptText at h
  cases hread : files.read path with
  | error fault =>
      rw [hread] at h
      cases fault <;> cases h
  | ok bytes =>
      rw [hread] at h
      cases hdecoded : fileText bytes with
      | error refusal => simp [hdecoded] at h
      | ok decoded =>
          simp only [hdecoded] at h
          cases h
          exact ⟨bytes, rfl, hdecoded⟩

/-- A text without carriage returns is read from its bytes as it is. -/
theorem fileText_encode {text : String} (h : '\r' ∉ text.toList) :
    fileText (Utf8.encode text.toList) = .ok text := by
  rw [fileText, Utf8.decode, Utf8.decodeFrom_encode]
  show Except.ok (String.ofList (Text.unifyNewlines text.toList)) = _
  rw [Text.unifyNewlines_of_not_mem _ h, String.ofList_toList]

/-- The line shown for an element of a script is the one on which it opens, while the file is the
    one that was read. -/
theorem sourceLine?_eq {files : Files} {text : String} {n : Node} {k : Nat}
    (htext : scriptText files path = .ok text) (h : n.OpensAt path text.toList k) :
    sourceLine? files n.span = some (String.ofList (Text.trim (Text.lineOf text.toList k))) := by
  obtain ⟨past, htakes⟩ := h.takes
  have hpos := Text.one_le_lineAt text.toList k
  have hindex : (n.span.startLine - 1).toNat = Text.lineAt text.toList k - 1 := by
    rw [h.startLine_eq]
    omega
  have hshown : ¬ (n.span.startLine < 1 ∨
      (Text.trim (Text.lineOf text.toList k)).isEmpty = true) := by
    rw [h.startLine_eq, List.isEmpty_iff]
    rintro (hline | hempty)
    · omega
    · exact h.trim_line_ne_nil hempty
  obtain ⟨bytes, hbytes, hdecoded⟩ := exists_bytes htext
  simp only [sourceLine?, htakes.isFile, hbytes, hdecoded, hindex, Text.lineOf_spec]
  exact if_neg hshown

/-- A report of a placed failure ends with the source line. -/
theorem report_source {failure : Failure} {u t : Store} {span : Span} {line : String}
    (hspan : failure.span? = some span) (hline : sourceLine? u.files span = some line)
    (h : report path failure u = .done 1 t) :
    ∃ above, t.stderr = above ++ "  Source: " ++ line ++ "\n" := by
  have hplaced : ∀ kind message, ∃ above, (reportError kind path message (some span) u).stderr
      = above ++ "  Source: " ++ line ++ "\n" := by
    intro kind message
    simp only [reportError, Store.reportLine, hline]
    exact ⟨_, by rw [← String.append_assoc]⟩
  cases failure with
  | parse e => cases hspan
  | semantics e =>
      have hsame : e.span = some span := hspan
      simp only [report, hsame] at h
      cases h
      exact hplaced _ _
  | halt reason =>
      cases reason with
      | crash cause => cases hspan
      | fault cause place =>
          have hsame : place = some span := hspan
          simp only [report, hsame] at h
          cases h
          exact hplaced _ _

/-- A report changes no file. -/
theorem report_files {failure : Failure} {u t : Store} (h : report path failure u = .done 1 t) :
    t.files = u.files := by
  rcases report_eq path failure u.files with ⟨lines, hreport⟩ | ⟨cause, hreport⟩
  · rw [hreport u rfl] at h
    cases h
    exact u.writeError_files lines
  · rw [hreport u] at h
    cases h

/-! ## Main result -/

/-- Every element of a script that can be read opens at a `<` of its text, and it starts on the line
    of the text, lines being counted between line feeds, on which that `<` stands. Exit code 1 on
    the script means a failure that is placed at one of the elements; and if the file is still the
    one that was read, the source line that the report ends with is the line on which that element
    opens, trimmed. -/
theorem reported_source_line {files : Files} {text : String} {root : Node}
    (htext : scriptText files path = .ok text)
    (hroot : Markup.parse .document path text = .ok root) :
    (∀ n ∈ root.postorder, (∃ k, n.OpensAt path text.toList k) ∧
      ∀ k, n.OpensAt path text.toList k →
        n.span.startLine = (Text.lineAt text.toList k : Nat) ∧
        Text.OnLine text.toList k (Text.lineAt text.toList k) (Text.columnAt text.toList k)
          (Text.lineOf text.toList k) ∧
        (Text.lineOf text.toList k)[Text.columnAt text.toList k - 1]? = some '<') ∧
    ∀ (fuel : Nat) (command : List String) (settings : Settings) (arguments : List String)
      (stdin : Input) (t : Store),
      Request.ofArguments command = .script settings path arguments →
      files.exists? path = .ok true → execute fuel command { files, stdin } = .done 1 t →
      ∃ failure u, failure? fuel settings path arguments { files, stdin } = some (failure, u) ∧
        report path failure u = .done 1 t ∧
        ∃ n ∈ root.postorder, failure.span? = some n.span ∧
          (t.files.read path = files.read path → ∀ k, n.OpensAt path text.toList k →
            let line := String.ofList (Text.trim (Text.lineOf text.toList k))
            sourceLine? t.files n.span = some line ∧
            ∃ above, t.stderr = above ++ "  Source: " ++ line ++ "\n") := by
  refine ⟨fun n hn => ?_, fun fuel command settings arguments stdin t hrequest hfound ht => ?_⟩
  · exact ⟨Markup.exists_opensAt hroot hn, fun k hk =>
      ⟨hk.startLine_eq, hk.onLine, hk.getElem?_line⟩⟩
  obtain ⟨failure, u, hfailure, hreport⟩ :=
    exists_failure (s := { files, stdin }) hrequest hfound ht
  have hfiles := report_files hreport
  refine ⟨failure, u, hfailure, hreport, ?_⟩
  rcases failure_placed htext hroot hfailure with ⟨cause, rfl⟩ | ⟨n, hn, hspan⟩
  · cases hreport
  refine ⟨n, hn, hspan, fun hunchanged k hk => ?_⟩
  have hsame : scriptText t.files path = .ok text := by
    rw [scriptText, hunchanged]
    exact htext
  have hline := sourceLine?_eq hsame hk
  exact ⟨hline, report_source hspan (hfiles ▸ hline) hreport⟩

/-- A script whose second line is indented with a tab and reads a variable that nobody has bound. -/
def tabbedScript : String :=
  "<program>\n\t<main><not><value variable='x'/></not></main>\n</program>"

/-- The files of a directory with that script in it. -/
def tabbedFiles : Files := { entries := [(["f"], .file (Utf8.encode tabbedScript.toList))] }

/-- The tree of that script. -/
def tabbedTree : Node :=
  .mk "program" []
    [.mk "main" []
      [.mk "not" []
        [.mk "value" [("variable", "x")] [] ⟨⟨"f", 2, 20, 2, 41⟩, true⟩]
        ⟨⟨"f", 2, 15, 2, 47⟩, false⟩]
      ⟨⟨"f", 2, 9, 2, 54⟩, false⟩]
    ⟨⟨"f", 1, 1, 3, 11⟩, false⟩

/-- The fault is reported with the whole line, and without its tab. -/
theorem reported_source_line_tabbed :
    ∃ t above, execute 9 ["f"] { files := tabbedFiles } = .done 1 t ∧
      t.stderr
        = above ++ "  Source: " ++ "<main><not><value variable='x'/></not></main>" ++ "\n" := by
  let span : Span := ⟨"f", 2, 20, 2, 41⟩
  have hread : tabbedFiles.read "f" = .ok (Utf8.encode tabbedScript.toList) := by rfl
  have htext : scriptText tabbedFiles "f" = .ok tabbedScript := by
    have hreturn : '\r' ∉ tabbedScript.toList := by decide
    simp only [scriptText, hread, fileText_encode hreturn]
  have hroot : Markup.parse .document "f" tabbedScript = .ok tabbedTree := by rfl
  obtain ⟨p, hp, u, hrun, hfiles⟩ : ∃ p, (Analysis.program tabbedTree).outcome = .ok p ∧
      ∃ u, p.run (Settings.options {}) 9 ["f"] ⟨{}, { files := tabbedFiles }, 0⟩
          = .halted (.fault (.unknownVariable (some "x")) (some span)) u ∧
        u.store.files = tabbedFiles :=
    ⟨_, rfl, _, rfl, rfl⟩
  have hfailure : failure? 9 {} "f" [] { files := tabbedFiles }
      = some (.halt (.fault (.unknownVariable (some "x")) (some span)), u.store) := by
    obtain ⟨lines, hload⟩ := scriptProgram_ok (s := { files := tabbedFiles }) htext hroot false
    rw [hp] at hload
    have hstart : ({ files := tabbedFiles } : Store).traceAll false ["parsing " ++ "f"]
        = { files := tabbedFiles } := rfl
    unfold failure?
    rw [if_neg (by decide), if_neg (by decide), hstart, hload]
    exact congrArg halted? hrun
  have hrequest : Request.ofArguments ["f"] = .script {} "f" [] := by rfl
  have hfound : tabbedFiles.exists? "f" = .ok true := by rfl
  have hreport : execute 9 ["f"] { files := tabbedFiles } = .done 1 _ :=
    execute_of_failure (s := { files := tabbedFiles }) hrequest hfound (by decide) hfailure
  obtain ⟨hopens, hshown⟩ := reported_source_line htext hroot
  obtain ⟨failure, v, hsame, hreported, n, hn, hspan, hline⟩ :=
    hshown 9 ["f"] {} [] {} _ hrequest hfound hreport
  cases Option.some.inj (hfailure.symm.trans hsame)
  have hnode : n.span = span := (Option.some.inj hspan).symm
  obtain ⟨⟨k, hk⟩, hall⟩ := hopens n hn
  obtain ⟨hstart, honLine, -⟩ := hall k hk
  -- the place is not computed: its line is the one that the span starts on
  have hsecond : Text.lineAt tabbedScript.toList k = 2 := by
    rw [hnode] at hstart
    have hnumber : ((Text.lineAt tabbedScript.toList k : Nat) : Int) = (2 : Nat) := hstart.symm
    exact_mod_cast hnumber
  have hcontent := honLine.isLine
  rw [hsecond] at hcontent
  have hlineOf : Text.lineOf tabbedScript.toList k
      = "\t<main><not><value variable='x'/></not></main>".toList :=
    (Option.some.inj hcontent).symm
  obtain ⟨-, above, habove⟩ := hline (by rw [report_files hreported, hfiles]) k hk
  rw [hlineOf] at habove
  exact ⟨_, above, hreport, habove⟩

end CommandLine

end TagScript
