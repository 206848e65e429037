import TagScript.CommandLine.Program

set_option autoImplicit false

/-! # The executable

The files below the working directory and the input are read, the command line is carried out on
them, and what it printed and wrote is given back. Bytes of the input from the first one on that
cannot be decoded are left out. -/

namespace TagScript

/-- All that is left of a stream. -/
partial def readAll (stream : IO.FS.Stream) (soFar : ByteArray) : IO ByteArray := do
  let bytes ← stream.read 65536
  if bytes.isEmpty then pure soFar else readAll stream (soFar ++ bytes)

/-- Bytes as input: the text that they start with, and whether that is all. -/
def Input.ofBytes (bytes : List UInt8) : Input :=
  match Utf8.decode bytes with
  | .ok text => { text }
  | .error r =>
    { text := ((Utf8.decode (bytes.take r.position)).toOption).getD [], broken := true }

/-- The entries of a directory and of those inside it. -/
partial def loadEntries (entries : Array IO.FS.DirEntry) (place : Place) :
    IO (List (Place × Entry)) := do
  let mut found := #[]
  for e in entries do
    let here := place ++ [e.fileName]
    if ← e.path.isDir then
      found := found.push (here, Entry.directory)
      for inner in ← loadEntries (← e.path.readDir) here do
        found := found.push inner
    else
      let bytes ← IO.FS.readBinFile e.path
      found := found.push (here, Entry.file bytes.toList)
  pure found.toList

/-- The files that a run has written or changed, put back. -/
def saveFiles (before after : Files) : IO Unit := do
  for (place, e) in after.entries do
    match e with
    | .directory => pure ()
    | .file bytes =>
      unless before.get? place == some e do
        IO.FS.writeBinFile ("/" ++ "/".intercalate place) ⟨bytes.toArray⟩

end TagScript

open TagScript in
/-- The command line carried out on the working directory. -/
def main (arguments : List String) : IO UInt32 := do
  let here ← IO.currentDir
  let directory := here.components.filter (· ≠ "")
  let entries ← loadEntries (← here.readDir) directory
  let input ← readAll (← IO.getStdin) .empty
  let before : Store :=
    { files := { entries, directory }, stdin := Input.ofBytes input.toList }
  let (code, after) := match CommandLine.execute ampleFuel arguments before with
    | .done code s => (code, s)
    | .halted h s => (1, s.reportLine h.message)
    | .outOfFuel => (1, before.reportLine "out of fuel")
  let stdout ← IO.getStdout
  let stderr ← IO.getStderr
  stdout.putStr after.stdout
  stderr.putStr after.stderr
  saveFiles before.files after.files
  pure (UInt32.ofNat code)
