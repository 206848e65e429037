import TagScript.Span
import TagScript.Text.Lines
import TagScript.Text.Quoted

set_option autoImplicit false

/-! # Instructions and programs

An instruction is a node of one shape for all kinds: a scalar payload (a name or a literal), the
expressions it evaluates, and two blocks of statements. Which parts an instruction uses depends on
its kind; the analysis of a markup tree fills exactly those, and nothing else does so on its own,
so an instruction written by hand may lack one. -/

namespace TagScript

/-- The kind of an instruction. A word that names no kind is kept as `unknown`. -/
inductive Kind where
  | value
  | assign
  | integer
  | integerCast
  | real
  | realCast
  | text
  | textCast
  | array
  | add
  | subtract
  | multiply
  | divide
  | and
  | or
  | not
  | equal
  | greater
  | lower
  | call
  | callNamed
  | giveBack
  | ifThen
  | ifElse
  | countLoop
  | eachLoop
  | whileLoop
  | arraySet
  | arrayPush
  | unknown (word : String)
  deriving DecidableEq, Repr

namespace Kind

/-- The kinds that have a word of their own, each with its word. -/
def words : List (Kind × String) :=
  [(.value, "VALUE"), (.assign, "ASSIGN"), (.integer, "INTEGER"), (.integerCast, "INTEGER_CAST"),
   (.real, "REAL"), (.realCast, "REAL_CAST"), (.text, "TEXT"), (.textCast, "TEXT_CAST"),
   (.array, "ARRAY"), (.add, "ADD"), (.subtract, "SUBTRACT"), (.multiply, "MULTIPLY"),
   (.divide, "DIVIDE"), (.and, "AND"), (.or, "OR"), (.not, "NOT"), (.equal, "EQUAL"),
   (.greater, "GREATER"), (.lower, "LOWER"), (.call, "CALL"), (.callNamed, "CALL_NAMED"),
   (.giveBack, "RETURN"), (.ifThen, "IF"), (.ifElse, "IF_ELSE"), (.countLoop, "FOR"),
   (.eachLoop, "EACH"), (.whileLoop, "WHILE"), (.arraySet, "ARRAY_SET"),
   (.arrayPush, "ARRAY_PUSH")]

/-- The word of a kind. -/
def word : Kind → String
  | .unknown w => w
  | k => (words.lookup k).getD ""

/-- The kind of a word. -/
def ofWord (w : String) : Kind :=
  match words.find? (·.2 == w) with
  | some (k, _) => k
  | none => .unknown w

end Kind

/-- An instruction. -/
inductive Instr where
  | mk (kind : Kind) (value : Option String) (operands body orelse : List Instr)
      (span : Option Span)
  deriving Repr

instance : Inhabited Instr := ⟨.mk (.unknown "") none [] [] [] none⟩

namespace Instr

/-- The kind. -/
def kind : Instr → Kind
  | mk k _ _ _ _ _ => k

/-- The scalar payload: a name or the text of a literal. -/
def value : Instr → Option String
  | mk _ v _ _ _ _ => v

/-- The expressions, in the order of their evaluation. -/
def operands : Instr → List Instr
  | mk _ _ os _ _ _ => os

/-- The statements of the body, or of the branch taken when a condition holds. -/
def body : Instr → List Instr
  | mk _ _ _ b _ _ => b

/-- The statements of the other branch. -/
def orelse : Instr → List Instr
  | mk _ _ _ _ o _ => o

/-- Where the instruction was written. -/
def span : Instr → Option Span
  | mk _ _ _ _ _ s => s

/-! ## Printing -/

mutual

/-- The outline of an instruction: one line for each instruction, operands and blocks indented. -/
def outline (level : Nat) : Instr → String
  | mk k v os b o _ =>
    Text.indentation level ++ k.word
      ++ (match v with
          | some text => "(" ++ Text.quoted text ++ ")"
          | none => "")
      ++ "\n"
      ++ outlineAll (level + 1) os
      ++ (if b.isEmpty then ""
          else Text.indentation (level + 1) ++ "do:\n" ++ outlineAll (level + 2) b)
      ++ (if o.isEmpty then ""
          else Text.indentation (level + 1) ++ "else:\n" ++ outlineAll (level + 2) o)

/-- The outlines of a list of instructions. -/
def outlineAll (level : Nat) : List Instr → String
  | [] => ""
  | i :: rest => outline level i ++ outlineAll level rest

end

mutual

/-- The one-line form of an instruction; blocks are left out. -/
def inline : Instr → String
  | mk k v os _ _ _ =>
    k.word
      ++ (match v with
          | some text => " " ++ Text.quoted text
          | none => "")
      ++ (if os.isEmpty then "" else " [" ++ ", ".intercalate (inlineAll os) ++ "]")

/-- The one-line forms of a list of instructions. -/
def inlineAll : List Instr → List String
  | [] => []
  | i :: rest => inline i :: inlineAll rest

end

end Instr

/-- A function of a program. -/
structure FunctionDef where
  name : String
  params : List String
  body : List Instr
  span : Span
  deriving Repr

/-- A program: its functions in the order of the document, and its main block. -/
structure Program where
  functions : List FunctionDef
  main : List Instr
  deriving Repr

/-- The outline of a function. -/
def FunctionDef.outline (f : FunctionDef) : String :=
  "function " ++ f.name ++ "(" ++ ", ".intercalate f.params ++ ")\n" ++ Instr.outlineAll 1 f.body

/-- The outline of a program. -/
def Program.outline (p : Program) : String :=
  String.join (p.functions.map FunctionDef.outline) ++ "main\n" ++ Instr.outlineAll 1 p.main

end TagScript
