import TagScript.Files
import TagScript.Value.Heap

set_option autoImplicit false

/-! # The store

What a run shares between all its functions: the lists, the files, the input that is left and the
output so far. -/

namespace TagScript

/-- The input that is left: the text that is handed over before bytes that cannot be decoded are
    met, and whether they are. What a refused read does to buffers on the way is left out. -/
structure Input where
  text : List Char := []
  broken : Bool := false
  deriving DecidableEq, Repr, Inhabited

/-- The lists, the files and the streams of a run. -/
structure Store where
  heap : Heap := {}
  files : Files := {}
  stdin : Input := {}
  stdout : String := ""
  stderr : String := ""
  deriving Repr, Inhabited

namespace Store

/-- The store after a text has been printed. -/
def print (s : Store) (text : String) : Store := { s with stdout := s.stdout ++ text }

/-- The store after a line has been written on the error stream. -/
def reportLine (s : Store) (line : String) : Store := { s with stderr := s.stderr ++ line ++ "\n" }

/-- The store after a trace line has been written on the error stream. -/
def trace (s : Store) (line : String) : Store := s.reportLine ("DEBUG: " ++ line)

/-- The store after several trace lines, if tracing is on. -/
def traceAll (s : Store) (debug : Bool) (lines : List String) : Store :=
  if debug then lines.foldl trace s else s

/-- The refusal of input whose next line is not all text. -/
def checkLine (s : Store) : Except Halt Unit :=
  if s.stdin.broken ∧ '\n' ∉ s.stdin.text then .error (.crash .undecodableInput) else .ok ()

/-- The next line of the input without its line feed, and the store without that line. -/
def readLine (s : Store) : String × Store :=
  (String.ofList (s.stdin.text.takeWhile (· ≠ '\n')),
    { s with stdin := { s.stdin with text := (s.stdin.text.dropWhile (· ≠ '\n')).drop 1 } })

/-- The value that refers to a new list, and the store with it. -/
def newList (s : Store) (items : List Value) : Value × Store :=
  let (v, heap) := s.heap.alloc items
  (v, { s with heap })

end Store

end TagScript
