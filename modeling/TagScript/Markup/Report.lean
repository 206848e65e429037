import TagScript.Markup.Reader

set_option autoImplicit false

/-! # Parse errors

A parse error says where reading stopped and why, and shows the reader of the message the lines
around that place, what stands there and what may help. Line and column are those of the prepared
text; the context and the text found are cut from the text as it was given. -/

namespace TagScript.Markup

/-! ## Pieces of a report -/

/-- The piece of a line from `start` up to `stop`; a negative `stop` is counted from the end of
    the line. -/
def slice (line : List Char) (start : Nat) (stop : Int) : List Char :=
  let stop := if stop < 0 then stop + line.length else stop
  (line.take stop.toNat).drop start

/-- A line number, right-aligned in four columns. -/
def lineNumber (n : Nat) : String :=
  let digits := toString n
  String.ofList (List.replicate (4 - digits.length) ' ') ++ digits

/-- The lines of the context, numbered from `number` on, with a mark below line `line` at
    column `column`. -/
def numberedLines (line column : Int) : (number : Nat) → List (List Char) → List String
  | _, [] => []
  | number, text :: rest =>
    let shown := lineNumber number ++ ": " ++ String.ofList text
    let mark :=
      String.ofList (List.replicate (6 + (column - 1).toNat) ' ') ++ "^ Error here"
    if (number : Int) = line then shown :: mark :: numberedLines line column (number + 1) rest
    else shown :: numberedLines line column (number + 1) rest

/-- The lines of a text from `around` lines before a place to `around` lines after it. -/
def contextOf (source : List Char) (line column : Int) (around : Int := 2) : String :=
  let lines := Text.lines source
  let first := (line - around - 1).toNat
  let last := (min (lines.length : Int) (line + around)).toNat
  "\n".intercalate (numberedLines line column (first + 1) ((lines.take last).drop first))

/-- What may stand at a place: a piece of text, or the end of a line or of the text. -/
inductive Found where
  | text (piece : List Char)
  | endOfLine
  | endOfInput
  deriving DecidableEq, Repr

/-- The wording of what was found. -/
def Found.format : Found → String
  | .text piece => "'" ++ String.ofList piece ++ "'"
  | .endOfLine => "end of line"
  | .endOfInput => "end of input"

/-- The line with the given number; the number zero and those below count from the last line
    back. -/
def lineNumbered? (lines : List (List Char)) (line : Int) : Option (List Char) :=
  if line ≤ 0 then
    if 0 ≤ line - 1 + lines.length then lines[(line - 1 + lines.length).toNat]? else none
  else lines[(line - 1).toNat]?

/-- What stands at a column of a line: up to eleven characters, trimmed. -/
def foundIn (text : List Char) (column : Int) : Found :=
  if column ≤ text.length then
    match Text.trim (slice text (column - 1).toNat (min (text.length : Int) (column + 10))) with
    | [] => .endOfLine
    | piece => .text piece
  else .endOfLine

/-- What stands at a place of a text, unless its line number counts back beyond the first line. -/
def foundAt? (source : List Char) (line column : Int) : Option Found :=
  let lines := Text.lines source
  if lines.length < line then some .endOfInput
  else (lineNumbered? lines line).map fun text => foundIn text column

/-! ## Expectations in a message -/

/-- Whether an expectation ends here: before a comma and the word found, before a blank and an
    opening bracket, at the end of the message or before its last line feed. -/
def expectationEnds (s : List Char) : Bool :=
  let clause := match s with
    | ',' :: rest =>
      !(rest.takeWhile Text.isBlank).isEmpty
        && ['f', 'o', 'u', 'n', 'd'].isPrefixOf (rest.dropWhile Text.isBlank)
    | _ => false
  let bracket :=
    !(s.takeWhile Text.isBlank).isEmpty && (s.dropWhile Text.isBlank).head? == some '('
  clause || bracket || s == [] || s == ['\n']

/-- The text up to the first place where an expectation ends; it does not cross a line. -/
def expectation? : List Char → Option (List Char)
  | [] => none
  | c :: rest =>
    if c = '\n' then none
    else if expectationEnds rest then some [c]
    else (expectation? rest).map (c :: ·)

/-- The expectation after `blanks` blanks or, failing that, after fewer; at least one blank stands
    before it. -/
def expectationAfter? (s : List Char) : (blanks : Nat) → Option (List Char)
  | 0 => none
  | blanks + 1 => (expectation? (s.drop (blanks + 1))).or (expectationAfter? s blanks)

/-- The first expectation that a message names after the word Expected. -/
def messageExpectation? : List Char → Option (List Char)
  | [] => none
  | c :: rest =>
    let here := match Text.after? "Expected".toList (c :: rest) with
      | some s => expectationAfter? s (s.takeWhile Text.isBlank).length
      | none => none
    here.or (messageExpectation? rest)

/-- What was expected according to a message. -/
def expectedIn (message : List Char) : List String :=
  match messageExpectation? message with
  | some text => [String.ofList text]
  | none => ["well-formed markup"]

/-! ## Suggestions -/

/-- The hints that fit a message and the text found. -/
def suggestionsFor (message found : List Char) : List String :=
  (if Text.occursIn "closing tag".toList message then
    ["Every <tag> must be closed by a matching </tag> or written as <tag/>"] else [])
  ++ (if found.contains '&' then ["Escape '&' in attribute values as '&amp;'"] else [])
  ++ (if found.contains '=' && !found.contains Text.doubleQuote
        && !found.contains Text.singleQuote then
    ["Attribute values must be quoted, e.g. value=\"1\""] else [])
  ++ (if found == "end of input".toList then
    ["The document ended early - check for an unclosed element"] else [])
  ++ (if found.contains '<' && !found.contains '>' then
    ["Tag names must start with a letter or '_'"] else [])

/-! ## Parse errors -/

/-- A parse error. A line of zero means that no place is known. -/
structure ParseError where
  message : String
  location : Int := 0
  line : Int := 0
  column : Int := 0
  expected : List String := []
  found : Option String := none
  context : Option String := none
  suggestions : List String := []
  file : String := "<input>"
  deriving DecidableEq, Repr

namespace ParseError

/-- A line of a report, left out if there is nothing to say. -/
def optionalLine (label : String) : Option String → String
  | none => ""
  | some text => if text.isEmpty then "" else label ++ text ++ "\n"

/-- The report with its place, whatever that is. -/
def placedText (e : ParseError) : String :=
  "Parse error at line " ++ toString e.line ++ ", column " ++ toString e.column ++ ":\n"
    ++ "  " ++ e.message ++ "\n"
    ++ (if e.expected.isEmpty then "" else "  Expected: " ++ ", ".intercalate e.expected ++ "\n")
    ++ optionalLine "  Got: " e.found
    ++ optionalLine "  Context:\n" e.context
    ++ (if e.suggestions.isEmpty then ""
        else "  Suggestions:\n"
          ++ String.join (e.suggestions.map fun s => "    - " ++ s ++ "\n"))

/-- The text of a parse error. -/
def text (e : ParseError) : String :=
  if e.line = 0 then "Parse error: " ++ e.message else e.placedText

/-- The parse error for a stop at an offset of the text `read`, reported against the text `given`.
    What lies before a negative offset is counted from the end of the text. -/
def atOffset (file : String) (given read : List Char) (offset : Int) (message : String) :
    ParseError :=
  let before := (if offset < 0 then offset + read.length else offset).toNat
  let line : Int := Text.lineAt read before
  let column : Int := offset - Text.lineStart read before + 1
  let found := ((foundAt? given line column).getD .endOfInput).format
  { message
    location := offset
    line
    column
    expected := expectedIn message.toList
    found := some found
    context := some (contextOf given line column)
    suggestions := suggestionsFor message.toList found.toList
    file }

end ParseError

/-- The parse error for a stop while reading `text`. -/
def Stop.report (mode : Mode) (file text : String) (stop : Stop) : ParseError :=
  .atOffset file text.toList (mode.prepare text.toList) stop.offset stop.cause.message

/-- Why a text has no tree: it is refused with a parse error, or reading it crashes. -/
inductive Failure where
  | refused (e : ParseError)
  | crashed (cause : Crash)
  deriving DecidableEq, Repr

/-- What a stop while reading `text` comes to: a crash inside a reference is no parse error. -/
def Stop.failure (mode : Mode) (file text : String) (stop : Stop) : Failure :=
  match stop.cause with
  | .entity (.crash cause) => .crashed cause
  | _ => .refused (stop.report mode file text)

/-- The tree of a text, or why it has none. -/
def parse (mode : Mode) (file text : String) : Except Failure Node :=
  (read mode file text).mapError (Stop.failure mode file text)

end TagScript.Markup
