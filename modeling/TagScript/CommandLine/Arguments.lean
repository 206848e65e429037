import TagScript.Text.Quoted
import TagScript.Text.WideNumeral

set_option autoImplicit false

/-! # Command line arguments

Options stand before the script; everything after the script belongs to the program. A long option
may be cut short as long as no other starts the same way. Options act in the order in which they
are met, so asking for help comes before a mistake further on. -/

namespace TagScript.CommandLine

/-! ## Options -/

/-- The options. -/
inductive Opt where
  | help
  | parse
  | analyze
  | debug
  | shortCircuitLoops
  | maxCallDepth
  | version
  deriving DecidableEq, Repr

/-- The spellings of the options. -/
def spellings : List (String × Opt) :=
  [("-h", .help), ("--help", .help), ("--parse", .parse), ("--analyze", .analyze),
   ("--debug", .debug), ("--short-circuit-loops", .shortCircuitLoops),
   ("--max-call-depth", .maxCallDepth), ("--version", .version)]

/-- The name of an option in messages: all its spellings. -/
def Opt.shown (o : Opt) : String :=
  "/".intercalate ((spellings.filter (·.2 = o)).map (·.1))

/-- What an argument is taken for, before its place is known. -/
inductive Token where
  /-- An argument that is not an option. -/
  | plain (text : String)
  /-- Two dashes, after which nothing is an option. -/
  | dashes
  /-- An option, with the text that is attached to it. -/
  | option (opt : Opt) (attached : Option String)
  /-- The help letter with a text attached. -/
  | letters (attached : List Char)
  /-- What looks like an option and is none. -/
  | unknown (text : String)
  deriving DecidableEq, Repr

/-- The part of a text before the first equals sign, and the part after it. -/
def splitEquals (s : List Char) : List Char × Option (List Char) :=
  match s.dropWhile (· ≠ '=') with
  | _ :: value => (s.takeWhile (· ≠ '='), some value)
  | [] => (s, none)

/-- The options that a name of two dashes may stand for: the one with that spelling, or else all
    whose spelling starts so. -/
def candidates (name : List Char) : List (String × Opt) :=
  match spellings.filter (·.1.toList = name) with
  | [] =>
    if ['-', '-'].isPrefixOf name then spellings.filter fun o => name.isPrefixOf o.1.toList
    else []
  | exact => exact

/-- What a text is taken for that starts with a dash and is no spelling of an option. More than one
    option that starts the same way is a mistake. -/
def Token.ofDashed (text : String) : Except String Token :=
  let s := text.toList
  let (name, value) := splitEquals s
  if name = ['-', 'h'] then .ok (.letters (value.getD []))
  else if ['-', 'h'].isPrefixOf s then .ok (.letters (s.drop 2))
  else match candidates name with
  | [(_, opt)] => .ok (.option opt (value.map String.ofList))
  | _ :: _ :: _ =>
    .error ("ambiguous option: " ++ text ++ " could match "
      ++ ", ".intercalate ((candidates name).map (·.1)))
  | [] =>
    if Text.looksNegative s || s.contains ' ' then .ok (.plain text)
    else .ok (.unknown text)

/-- What an argument is taken for. -/
def Token.ofText (text : String) : Except String Token :=
  match text.toList with
  | '-' :: _ :: _ =>
    match spellings.lookup text with
    | some opt => .ok (.option opt none)
    | none => Token.ofDashed text
  | _ => .ok (.plain text)

/-- What the arguments are taken for. -/
def tokens : List String → Except String (List (String × Token))
  | [] => .ok []
  | text :: rest =>
    if text = "--" then .ok ((text, .dashes) :: rest.map fun t => (t, .plain t))
    else
      match Token.ofText text, tokens rest with
      | .ok token, .ok more => .ok ((text, token) :: more)
      | .error e, _ => .error e
      | .ok _, .error e => .error e

/-! ## Requests -/

/-- What the options before the script ask for. -/
structure Settings where
  parse : Bool := false
  analyze : Bool := false
  debug : Bool := false
  shortCircuitLoops : Bool := false
  maxCallDepth : Int := 1000
  /-- Whether the depth option that was met last came without a number. -/
  depthLacking : Bool := false
  deriving DecidableEq, Repr, Inhabited

/-- What a command line asks for. -/
inductive Request where
  | help
  | version
  | mistake (message : String)
  | noDepth
  | script (settings : Settings) (path : String) (arguments : List String)
  deriving DecidableEq, Repr

/-- The mistake in the use of an option. -/
def Request.badOption (opt : Opt) (message : String) : Request :=
  .mistake ("argument " ++ opt.shown ++ ": " ++ message)

/-- The mistake of text attached to an option that takes none. -/
def Request.ignored (opt : Opt) (text : String) : Request :=
  .badOption opt ("ignored explicit argument " ++ Text.quoted text)

/-- The mistake of a command line without a script. -/
def Request.noScript : Request := .mistake "the following arguments are required: script, args"

/-- What a text attached to the help letter asks for: help if it is made of that letter, and else
    what follows the letter is a mistake. An empty text is one too. -/
def letterRequest (attached : List Char) : Request :=
  match attached.dropWhile (· = 'h') with
  | [] => if attached.isEmpty then .ignored .help "" else .help
  | rest => .ignored .help (String.ofList rest)

/-- The request for a script, unless options before it were unknown. -/
def scriptRequest (settings : Settings) (unknown : List String) (path : String)
    (arguments : List String) : Request :=
  if unknown.isEmpty then
    if settings.depthLacking then .noDepth
    else if settings.maxCallDepth < 1 then .mistake "--max-call-depth must be at least 1"
    else .script settings path arguments
  else .mistake ("unrecognized arguments: " ++ " ".intercalate unknown)

/-- The settings with the call depth that a text gives; two dashes are taken for no text. -/
def withDepth (settings : Settings) (text : String) : Except Request Settings :=
  if text = "--" then .ok { settings with depthLacking := true }
  else match Text.readWideInteger? text.toList with
  | some n => .ok { settings with maxCallDepth := n, depthLacking := false }
  | none => .error (.badOption .maxCallDepth ("invalid int value: " ++ Text.quoted text))

/-- The request of the arguments that are left, after the given settings and unknown options. -/
def requestFrom (settings : Settings) (unknown : List String) :
    List (String × Token) → Request
  | [] => .noScript
  | (path, .plain _) :: (_, .dashes) :: rest =>
    scriptRequest settings unknown path (rest.map (·.1))
  | (path, .plain _) :: rest => scriptRequest settings unknown path (rest.map (·.1))
  | (_, .dashes) :: (path, _) :: rest => scriptRequest settings unknown path (rest.map (·.1))
  | [(_, .dashes)] => .noScript
  | (text, .unknown _) :: rest => requestFrom settings (unknown ++ [text]) rest
  | (_, .letters attached) :: _ => letterRequest attached
  | (_, .option .maxCallDepth none) :: (text, .plain _) :: rest =>
    match withDepth settings text with
    | .ok settings => requestFrom settings unknown rest
    | .error mistake => mistake
  | (_, .option .maxCallDepth none) :: _ => .badOption .maxCallDepth "expected one argument"
  | (_, .option .maxCallDepth (some text)) :: rest =>
    match withDepth settings text with
    | .ok settings => requestFrom settings unknown rest
    | .error mistake => mistake
  | (_, .option opt (some text)) :: _ => .ignored opt text
  | (_, .option .help none) :: _ => .help
  | (_, .option .version none) :: _ => .version
  | (_, .option .parse none) :: rest => requestFrom { settings with parse := true } unknown rest
  | (_, .option .analyze none) :: rest =>
    requestFrom { settings with analyze := true } unknown rest
  | (_, .option .debug none) :: rest => requestFrom { settings with debug := true } unknown rest
  | (_, .option .shortCircuitLoops none) :: rest =>
    requestFrom { settings with shortCircuitLoops := true } unknown rest

/-- What a command line asks for. -/
def Request.ofArguments (arguments : List String) : Request :=
  match tokens arguments with
  | .ok ts => requestFrom {} [] ts
  | .error message => .mistake message

end TagScript.CommandLine
