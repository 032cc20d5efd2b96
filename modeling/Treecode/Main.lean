import Treecode.CommandLine.Run

set_option autoImplicit false

namespace Treecode.Shell

open Treecode.CommandLine

/-- The files with a directory added, if there is room for it. -/
def addDirectory (files : Files) (path : String) : Files :=
  match files.makeDirectories path with
  | .ok made => made
  | .error _ => files

/-- The files with a file added, if there is room for it. -/
def addFile (files : Files) (path : String) (bytes : ByteArray) : Files :=
  match (addDirectory files ((Path.parent? path).getD "")).write path bytes with
  | .ok made => made
  | .error _ => files

def lookAt (files : Files) (path : String) : IO Files := do
  try
    if ← (← IO.FS.realPath path).isDir then return addDirectory files path
    else return addFile files path (← IO.FS.readBinFile path)
  catch _ => return files

/-- The names of the library files in a directory; a path to anything else has none. -/
def libraryNames (dir : String) : IO (List String) := do
  try
    let listed ← (← IO.FS.realPath dir).readDir
    return (listed.toList.map (·.fileName)).filter fun name => name.endsWith ".mcl"
  catch _ => return []

/-- Adds an entry of a search path with the library files that it offers. -/
def lookThrough (files : Files) (entry : String) : IO Files := do
  let names ← libraryNames (if entry = "" then "." else entry)
  (names.map (Path.join entry)).foldlM lookAt (← lookAt files entry)

/-- Everything on the standard input. -/
partial def readAll (stream : IO.FS.Stream) (before : ByteArray) : IO ByteArray := do
  let more ← stream.read 65536
  if more.isEmpty then return before else readAll stream (before ++ more)

/-- What a run with given options needs to see. -/
def worldFor (options : Options) : IO World := do
  let libraryVariable ← IO.getEnv "MACAL_LIBRARY_PATH"
  let world : World := ⟨.empty, libraryVariable, .empty⟩
  let libraries ← (searchPath world options).foldlM lookThrough Files.empty
  let sources ← options.input.toList.foldlM lookAt libraries
  let targets := options.output.toList.flatMap fun path => Path.withParents (path.length + 1) path
  let files ← (targets.reverse.filter (· ≠ "")).foldlM lookAt sources
  let fromInput := options.input.isNone && !options.listLibraries
  let input ← if fromInput then readAll (← IO.getStdin) .empty else pure .empty
  return { world with files, input }

/-- Writes the output file of a run that went well. -/
def store (options : Options) (outcome : Outcome) : IO Unit := do
  match options.output with
  | some path =>
    match outcome.files.read path with
    | .ok text =>
      match Path.parent? path with
      | some above => if above ≠ "" then IO.FS.createDirAll above
      | none => pure ()
      IO.FS.writeFile path text
    | .error _ => pure ()
  | none => pure ()

end Treecode.Shell

open Treecode CommandLine in
def main (arguments : List String) : IO UInt32 := do
  let outcome ← match Request.ofArguments arguments with
    | .run options => do
      let outcome := run (← Shell.worldFor options) options
      if outcome.code = 0 then Shell.store options outcome
      pure outcome
    | _ => pure (perform ⟨.empty, none, .empty⟩ arguments)
  IO.print outcome.output
  IO.eprint outcome.errors
  return outcome.code.toUInt32
