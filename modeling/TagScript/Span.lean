set_option autoImplicit false

/-! # Spans

A span names the piece of a source that an element takes: the file, and the line and column of its
first character and of the place just after its last one. -/

namespace TagScript

/-- A piece of a source file. The span of an element has positive numbers; one written by hand may
    have any. -/
structure Span where
  file : String
  startLine : Int
  startColumn : Int
  endLine : Int
  endColumn : Int
  deriving DecidableEq, Repr, Inhabited

/-- The text form of a span: the end line is left out if it is the start line. -/
def Span.format (s : Span) : String :=
  let start := s.file ++ ":" ++ toString s.startLine ++ ":" ++ toString s.startColumn ++ "-"
  if s.startLine = s.endLine then start ++ toString s.endColumn
  else start ++ toString s.endLine ++ ":" ++ toString s.endColumn

end TagScript
