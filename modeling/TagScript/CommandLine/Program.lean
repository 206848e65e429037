import TagScript.CommandLine.Arguments
import TagScript.Markup.Report
import TagScript.Program.Analysis
import TagScript.Session

set_option autoImplicit false

/-! # The command line program

A command line is carried out on a store: the files, the input and the output so far. The result is
an exit code and the store afterwards. A failure of the machine under the program gives no exit
code. -/

namespace TagScript.CommandLine

/-! ## Texts -/

/-- The version line. -/
def versionText : String := "plxml v0.3.0\n"

/-- The usage lines. -/
def usageText : String :=
  "usage: plxml [-h] [--parse] [--analyze] [--debug] [--short-circuit-loops]\n"
    ++ "             [--max-call-depth MAX_CALL_DEPTH] [--version]\n"
    ++ "             script ...\n"

/-- The help page. -/
def helpText : String :=
  usageText
    ++ "\n"
    ++ "plxml - a small imperative language written as markup\n"
    ++ "\n"
    ++ "positional arguments:\n"
    ++ "  script                plxml program to execute\n"
    ++ "  args                  arguments passed to the program (see get-args)\n"
    ++ "\n"
    ++ "options:\n"
    ++ "  -h, --help            show this help message and exit\n"
    ++ "  --parse               Parse file and show the markup tree\n"
    ++ "  --analyze             Parse and analyze file, show the instruction tree\n"
    ++ "  --debug               Enable debug output for all stages\n"
    ++ "  --short-circuit-loops\n"
    ++ "                        Stop for/each loops as soon as a return is pending\n"
    ++ "  --max-call-depth MAX_CALL_DEPTH\n"
    ++ "                        Maximum nesting of user function calls (default 1000)\n"
    ++ "  --version             show program's version number and exit\n"
    ++ "\n"
    ++ "Examples:\n"
    ++ "  plxml program.xml a b          # Run a program with two arguments\n"
    ++ "  plxml --parse program.xml      # Parse and show the markup tree\n"
    ++ "  plxml --analyze program.xml    # Parse, analyze and show the instructions\n"
    ++ "  plxml --debug program.xml      # Run with trace output on stderr\n"
    ++ "        \n"

/-! ## Reports -/

/-- Why a script did not come to its end. -/
inductive Failure where
  | parse (e : Markup.ParseError)
  | semantics (e : SemanticsError)
  | halt (h : Halt)

/-- The failure of a script whose text has no tree. -/
def Failure.ofMarkup : Markup.Failure → Failure
  | .refused e => .parse e
  | .crashed cause => .halt (.crash cause)

/-- The line of a file at which a span starts, trimmed; nothing if it is blank or out of reach. -/
def sourceLine? (files : Files) (span : Span) : Option String :=
  match files.read span.file with
  | .error _ => none
  | .ok bytes =>
    match fileText bytes with
    | .error _ => none
    | .ok text =>
      match (Text.lines text.toList)[(span.startLine - 1).toNat]? with
      | some line =>
        if span.startLine < 1 ∨ (Text.trim line).isEmpty then none
        else some (String.ofList (Text.trim line))
      | none => none

/-- The store after an error has been reported with the place it is about. -/
def reportError (kind path text : String) (span : Option Span) (s : Store) : Store :=
  let s := s.reportLine (kind ++ " in '" ++ path ++ "': " ++ text)
  match span with
  | none => s
  | some span =>
    let s := s.reportLine ("  Location: " ++ span.format)
    match sourceLine? s.files span with
    | some line => s.reportLine ("  Source: " ++ line)
    | none => s

/-- The store after a failure has been reported; a crash is not reported. -/
def report (path : String) (failure : Failure) (s : Store) : Outcome Store Nat :=
  match failure with
  | .parse e => .done 1 ((s.reportLine ("Parse error in '" ++ path ++ "':")).reportLine e.text)
  | .semantics e => .done 1 (reportError "Semantic analysis error" path e.text e.span s)
  | .halt (.fault cause span) =>
    .done 1 (reportError "Runtime error" path cause.message span s)
  | .halt (.crash cause) => .halted (.crash cause) s

/-! ## Stages -/

/-- Why a file could not be decoded. -/
def decodeMessage (path : String) (r : Utf8.Refusal) : String :=
  let place :=
    if r.size = 1 then
      "byte 0x" ++ String.ofList (Text.hexDigits 2 r.first.toNat) ++ " in position "
        ++ toString r.position
    else
      "bytes in position " ++ toString r.position ++ "-" ++ toString (r.position + r.size - 1)
  "Cannot decode file " ++ path ++ ": 'utf-8' codec can't decode " ++ place ++ ": "
    ++ r.defect.message

/-- The text of a script. -/
def scriptText (files : Files) (path : String) : Except Failure String :=
  match files.read path with
  | .error .missing =>
    .error (.parse { message := "File not found: " ++ path, file := path })
  | .error .isDirectory => .error (.halt (.crash (.scriptIsDirectory path)))
  | .error .notDirectory => .error (.halt (.crash (.scriptUnderFile path)))
  | .error .tooLong => .error (.halt (.crash (.scriptNameTooLong path)))
  | .ok bytes =>
    match fileText bytes with
    | .ok text => .ok text
    | .error r => .error (.parse { message := decodeMessage path r, file := path })

/-- The tree of a script, and the store after the trace of reading it. -/
def scriptTree (debug : Bool) (path : String) (s : Store) :
    Except Failure Markup.Node × Store :=
  match scriptText s.files path with
  | .error failure => (.error failure, s)
  | .ok text =>
    let reading := Markup.read .document path text
    let s := s.traceAll debug ((Markup.completed reading).map Markup.Node.traceLine)
    (reading.mapError fun stop => .ofMarkup (stop.failure .document path text), s)

/-- The program of a script, and the store after the traces of reading and analysing it. -/
def scriptProgram (debug : Bool) (path : String) (s : Store) :
    Except Failure Program × Store :=
  match scriptTree debug path s with
  | (.error failure, s) => (.error failure, s)
  | (.ok root, s) =>
    let analysis := Analysis.program root
    (analysis.outcome.mapError .semantics, s.traceAll debug analysis.programTrace)

/-- The markup tree of a script, printed. -/
def showTree (settings : Settings) (path : String) (s : Store) : Outcome Store Nat :=
  match scriptTree settings.debug path s with
  | (.ok root, s) => .done 0 (s.print (root.outline 0))
  | (.error failure, s) => report path failure s

/-- The instructions of a script, printed. -/
def showProgram (settings : Settings) (path : String) (s : Store) : Outcome Store Nat :=
  match scriptProgram settings.debug path s with
  | (.ok program, s) => .done 0 (s.print program.outline)
  | (.error failure, s) => report path failure s

/-- A script run with its arguments. -/
def runScript (fuel : Nat) (settings : Settings) (path : String) (arguments : List String)
    (s : Store) : Outcome Store Nat :=
  let s := s.traceAll settings.debug ["parsing " ++ path]
  match scriptProgram settings.debug path s with
  | (.error failure, s) => report path failure s
  | (.ok program, s) =>
    let opts : Options :=
      { debug := settings.debug
        shortCircuitLoops := settings.shortCircuitLoops
        maxCallDepth := settings.maxCallDepth }
    match program.run opts fuel (path :: arguments) ⟨{}, s, 0⟩ with
    | .done () t => .done 0 t.store
    | .halted h t => report path (.halt h) t.store
    | .outOfFuel => .outOfFuel

/-- The frames that a call takes. -/
def framesPerCall : Int := 24

/-- The frames that are kept besides those of calls. -/
def spareFrames : Int := 1000

/-- The most frames that there can be. -/
def maxFrames : Int := 2147483647

/-- Whether there is room for as many calls as the settings allow. -/
def Settings.hasRoom (settings : Settings) : Bool :=
  settings.maxCallDepth * framesPerCall + spareFrames ≤ maxFrames

/-- A command line carried out. -/
def execute (fuel : Nat) (arguments : List String) (s : Store) : Outcome Store Nat :=
  match Request.ofArguments arguments with
  | .help => .done 0 (s.print helpText)
  | .version => .done 0 (s.print versionText)
  | .mistake message =>
    .done 2 { s with stderr := s.stderr ++ usageText ++ "plxml: error: " ++ message ++ "\n" }
  | .noDepth => .halted (.crash .noDepth) s
  | .script settings path arguments =>
    match s.files.exists? path with
    | .ok true =>
      if !settings.hasRoom then .halted (.crash .noRoom) s
      else if settings.parse then showTree settings path s
      else if settings.analyze then showProgram settings path s
      else runScript fuel settings path arguments s
    | .ok false =>
      .done 1 ((s.reportLine ("Error: Script file '" ++ path ++ "' does not exist")).reportLine
        "  Hint: Check the file path and make sure the file exists")
    | .error _ => .halted (.crash (.scriptNameTooLong (Files.plainPath path))) s

end TagScript.CommandLine
