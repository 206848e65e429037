import TagScript.Text.Split
import TagScript.Text.Lines
import TagScript.Text.Utf8

set_option autoImplicit false

/-! # Files

The files and directories of a system, and the directory in which a run works. A path is followed
part by part, from the root if it is absolute and from the working directory otherwise; every part
but the last has to lead to a directory. -/

namespace TagScript

/-- What a name in a directory stands for. -/
inductive Entry where
  | file (bytes : List UInt8)
  | directory
  deriving DecidableEq, Repr

/-- A place in the file system: the names that lead to it from the root. -/
abbrev Place := List String

/-- The files and directories of a system, and the working directory. -/
structure Files where
  entries : List (Place × Entry) := []
  directory : Place := []
  deriving Repr, Inhabited

/-- Why a path leads nowhere. -/
inductive PathFault where
  | missing
  | notDirectory
  | isDirectory
  | tooLong
  deriving DecidableEq, Repr

namespace Files

/-- What stands at a place. The working directory and those above it are directories. -/
def get? (fs : Files) (place : Place) : Option Entry :=
  if place <+: fs.directory then some .directory else fs.entries.lookup place

/-- The longest name in bytes. -/
def maxNameBytes : Nat := 255

/-- The longest path in bytes. -/
def maxPathBytes : Nat := 4095

/-- The number of bytes of a text. -/
def byteCount (s : String) : Nat := (Utf8.encode s.toList).length

/-- The place one part further, seen from a directory. The root is above itself. -/
def step (fs : Files) (place : Place) (part : String) : Except PathFault Place :=
  match fs.get? place with
  | none => .error .missing
  | some (.file _) => .error .notDirectory
  | some .directory =>
    if part = "" ∨ part = "." then .ok place
    else if part = ".." then .ok place.dropLast
    else if maxNameBytes < byteCount part then .error .tooLong
    else .ok (place ++ [part])

/-- The place that parts lead to. -/
def walk (fs : Files) (place : Place) : List String → Except PathFault Place
  | [] => .ok place
  | part :: rest =>
    match fs.step place part with
    | .ok next => fs.walk next rest
    | .error e => .error e

/-- The parts of a path. -/
def parts (path : String) : List String :=
  (Text.splitAtChar '/' path.toList).map String.ofList

/-- Whether a path starts from the root of the file system. -/
def isAbsolute (path : String) : Bool := path.toList.head? == some '/'

/-- The place that a path leads to; nothing need stand there yet. -/
def resolve (fs : Files) (path : String) : Except PathFault Place :=
  if path = "" then .error .missing
  else if maxPathBytes < byteCount path then .error .tooLong
  else fs.walk (if isAbsolute path then [] else fs.directory) (parts path)

/-- The path without its empty parts and dots. -/
def plainPath (path : String) : String :=
  let kept := (parts path).filter fun p => p != "" && p != "."
  if isAbsolute path then "/" ++ "/".intercalate kept
  else if kept.isEmpty then "." else "/".intercalate kept

/-- Whether something stands at the end of a path, empty parts and dots being left out of it; a path
    beyond the limits has no answer. -/
def exists? (fs : Files) (path : String) : Except PathFault Bool :=
  if path.toList.contains '\x00' then .ok false
  else match fs.resolve (plainPath path) with
    | .ok place => .ok (fs.get? place).isSome
    | .error .tooLong => .error .tooLong
    | .error _ => .ok false

/-- The bytes of a file. -/
def read (fs : Files) (path : String) : Except PathFault (List UInt8) :=
  match fs.resolve path with
  | .error e => .error e
  | .ok place =>
    match fs.get? place with
    | some (.file bytes) => .ok bytes
    | some .directory => .error .isDirectory
    | none => .error .missing

/-- The entries with one entry replaced or added. -/
def putEntry (place : Place) (e : Entry) : List (Place × Entry) → List (Place × Entry)
  | [] => [(place, e)]
  | (p, old) :: rest =>
    if p = place then (place, e) :: rest else (p, old) :: putEntry place e rest

/-- The files with one entry replaced or added. -/
def put (fs : Files) (place : Place) (e : Entry) : Files :=
  { fs with entries := putEntry place e fs.entries }

/-- A place that is not above the working directory holds what was put there last. -/
theorem get?_put (fs : Files) (place other : Place) (e : Entry) (h : ¬ place <+: fs.directory) :
    (fs.put place e).get? other = if other = place then some e else fs.get? other := by
  obtain ⟨entries, directory⟩ := fs
  by_cases hn : other <+: directory
  · have ho : other ≠ place := by
      rintro rfl
      exact h hn
    simp [get?, put, hn, ho]
  · clear h
    simp only [get?, put, hn, if_false]
    induction entries with
    | nil =>
        by_cases ho : other = place
        · simp [putEntry, ho]
        · have hb : (other == place) = false := by simpa using ho
          simp [putEntry, ho, List.lookup_cons, hb]
    | cons first rest ih =>
        obtain ⟨p, old⟩ := first
        unfold putEntry
        by_cases hp : p = place
        · subst hp
          by_cases ho : other = p
          · simp [ho]
          · have hb : (other == p) = false := by simpa using ho
            simp [ho, List.lookup_cons, hb]
        · by_cases ho : other = p
          · subst ho
            simp [hp]
          · have hb : (other == p) = false := by simpa using ho
            simp [hp, List.lookup_cons, hb, ih]

/-! ## Writing -/

/-- The place of the file that a path leads to, if the file can be opened to be written. -/
def target (fs : Files) (path : String) : Except PathFault Place :=
  match fs.resolve path with
  | .error e => .error e
  | .ok place => if fs.get? place = some .directory then .error .isDirectory else .ok place

/-- The bytes of the file at a place, none if there is no file. -/
def bytesAt (fs : Files) (place : Place) : List UInt8 :=
  match fs.get? place with
  | some (.file bytes) => bytes
  | _ => []

/-- The files after the one at a place has been opened to be written: it is there, and it is empty
    unless it is to be appended to. -/
def opened (fs : Files) (place : Place) (append : Bool) : Files :=
  fs.put place (.file (if append then fs.bytesAt place else []))

/-- The files after bytes have been added at the end of the one at a place. -/
def extended (fs : Files) (place : Place) (bytes : List UInt8) : Files :=
  fs.put place (.file (fs.bytesAt place ++ bytes))

end Files

/-- The text of the bytes of a file, its newlines unified. -/
def fileText (bytes : List UInt8) : Except Utf8.Refusal String :=
  (Utf8.decode bytes).map fun s => String.ofList (Text.unifyNewlines s)

end TagScript
