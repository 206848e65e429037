import TagScript.Value.Basic

set_option autoImplicit false

/-! # Frames and environments

A frame binds names to values and has a slot for the value that its function returns. An environment
is a chain of frames: the frame of the running function, then the frames outside it, the last of
which is the root. Names are looked up from the inside out; only the innermost frame is ever
written. A name bound to the absent value hides the bindings outside and has no value itself. -/

namespace TagScript

/-- The name of a variable or a function. An instruction written by hand may lack its name; what it
    binds is found again by an instruction that lacks it too. -/
abbrev Name := Option String

/-- Names bound to values, in the order in which they were first bound. -/
structure Bindings where
  entries : List (Name × Value) := []
  deriving Repr, Inhabited

namespace Bindings

/-- The value of a name. -/
def get? (b : Bindings) (name : Name) : Option Value := b.entries.lookup name

/-- The entries with one name bound anew. -/
def insertEntry (name : Name) (v : Value) : List (Name × Value) → List (Name × Value)
  | [] => [(name, v)]
  | (k, old) :: rest =>
    if k = name then (k, v) :: rest else (k, old) :: insertEntry name v rest

/-- The bindings with one name bound anew. -/
def insert (b : Bindings) (name : Name) (v : Value) : Bindings :=
  ⟨insertEntry name v b.entries⟩

/-- A name has the value it was bound to last. -/
theorem get?_insert (b : Bindings) (name other : Name) (v : Value) :
    (b.insert name v).get? other = if other = name then some v else b.get? other := by
  obtain ⟨entries⟩ := b
  show (insertEntry name v entries).lookup other = if other = name then some v
    else entries.lookup other
  induction entries with
  | nil =>
      by_cases h : other = name
      · simp [insertEntry, h]
      · have hb : (other == name) = false := by simpa using h
        simp [insertEntry, h, List.lookup_cons, hb]
  | cons e rest ih =>
      obtain ⟨k, old⟩ := e
      unfold insertEntry
      by_cases hk : k = name
      · subst hk
        by_cases h : other = k
        · simp [h]
        · have hb : (other == k) = false := by simpa using h
          simp [h, List.lookup_cons, hb]
      · by_cases h : other = k
        · subst h
          simp [hk]
        · have hb : (other == k) = false := by simpa using h
          simp [hk, List.lookup_cons, hb, ih]

end Bindings

/-- The bindings of one call, and the value it returns once it does. -/
structure Frame where
  bindings : Bindings := {}
  returned : Option Value := none
  deriving Repr, Inhabited

namespace Frame

/-- The frame with one name bound anew. -/
def bind (f : Frame) (name : Name) (v : Value) : Frame :=
  { f with bindings := f.bindings.insert name v }

/-- The frame of a call: each parameter bound to its argument. -/
def ofArguments (params : List String) (args : List Value) : Frame :=
  (params.zip args).foldl (fun f (name, v) => f.bind (some name) v) {}

/-- The value of a name in a frame or the frames outside it. -/
def lookup? (name : Name) : List Frame → Option Value
  | [] => none
  | f :: outer =>
    match f.bindings.get? name with
    | some v => some v
    | none => lookup? name outer

/-- The root of the environment whose innermost frame is `f`. -/
def root (f : Frame) : (outer : List Frame) → Frame
  | [] => f
  | g :: outer => root g outer

/-- The root frame of a program: the native functions, then the functions of the program. -/
def ofProgram (program : Program) (arguments : List String) : Frame :=
  let natives := (Native.library arguments).foldl (fun f n => f.bind (some n.name) (.native n)) {}
  program.functions.foldl
    (fun f d => f.bind (some d.name) (.closure ⟨d.name, d.params, d.body⟩)) natives

end Frame

end TagScript
