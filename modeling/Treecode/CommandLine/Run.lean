import Treecode.CommandLine
import Treecode.Compile.Programs
import Treecode.Instruction.Dump
import Treecode.Instruction.Script

set_option autoImplicit false

namespace Treecode.CommandLine

/-- What a run finds: the files, the directories of the environment and the standard input. -/
structure World where
  files : Files
  libraryVariable : Option String
  input : ByteArray

/-- What a run leaves behind. -/
structure Outcome where
  code : Nat
  output : String
  errors : String
  files : Files

/-- Why a run failed: what it was doing, and the causes, the nearest first. -/
structure Failure where
  context : String
  causes : List String
  deriving DecidableEq, Repr

namespace Failure

def brief (failure : Failure) : String :=
  ": ".intercalate (failure.context :: failure.causes) ++ "\n"

/-- A text whose further lines are moved in. -/
def indented (margin text : String) : String :=
  ("\n" ++ margin).intercalate ((text.toList.splitOn '\n').map String.ofList)

def numbered (number : Nat) (cause : String) : String :=
  let digits := toString number
  String.ofList (List.replicate (5 - digits.length) ' ') ++ digits ++ ": " ++
    indented "       " cause

def full (failure : Failure) : String :=
  let causes := match failure.causes with
    | [] => []
    | [cause] => ["    " ++ indented "    " cause]
    | several => several.mapIdx numbered
  let heading := if causes.isEmpty then [] else ["", "Caused by:"]
  "\n".intercalate (("Error: " ++ failure.context) :: heading ++ causes) ++ "\n"

end Failure

def causesOf (error : Error) : List String :=
  match error with
  | .unreadable _ fault => [error.message, fault.message]
  | _ => [error.message]

/-- The text of a line, counted from one, without the white space around it. -/
def excerpt (source : String) (line : Nat) : String :=
  Text.trim (String.ofList (((source.toList.splitOn '\n')[line - 1]?).getD []))

/-- A failed compilation. An error that points into the script itself is shown with its line. -/
def compileFailure (error : Error) (source file : String) : Failure :=
  let context := "failed to compile " ++ file
  match error.location? with
  | none => ⟨context, causesOf error⟩
  | some place =>
    if place.file = file then
      ⟨"failed to compile " ++ place.text ++ " `" ++ excerpt source place.line ++ "`",
        causesOf error⟩
    else ⟨context, causesOf error⟩

/-- The script to compile, and the name of its file. -/
def script (world : World) (options : Options) : Except Failure (String × String) :=
  match options.input with
  | some path =>
    match world.files.read path with
    | .ok text => .ok (text, path)
    | .error fault => .error ⟨"failed to read input file " ++ path, [fault.message]⟩
  | none =>
    match String.fromUTF8? world.input with
    | some text => .ok (text, "<stdin>")
    | none => .error ⟨"failed to read source from stdin", [FileFault.invalidText.message]⟩

/-- The files after a text is written to one of them. Missing directories above it are made. -/
def writeFile (files : Files) (path text : String) : Except Failure Files := do
  let ready ← match Path.parent? path with
    | none => pure files
    | some above =>
      (files.makeDirectories above).mapError fun fault =>
        ⟨"failed to create directory " ++ Text.quoted above, [fault.message]⟩
  (ready.write path text.toUTF8).mapError fun fault =>
    ⟨"failed to write output file " ++ path, [fault.message]⟩

/-- Where libraries are looked for: the directories given as arguments come first. -/
def searchPath (world : World) (options : Options) : SearchPath :=
  options.libraryPath ++ SearchPath.standard world.libraryVariable

def listing (world : World) (options : Options) : String :=
  String.join ((Library.available world.files (searchPath world options)).map fun library =>
    library.name ++ "\t" ++ library.path ++ "\n")

def failed (world : World) (options : Options) (shown : String) (failure : Failure) : Outcome :=
  ⟨1, shown, if options.raise then failure.full else failure.brief, world.files⟩

def delivered (world : World) (options : Options) (shown text : String) : Outcome :=
  match options.output with
  | none => ⟨0, shown ++ text, "", world.files⟩
  | some path =>
    match writeFile world.files path text with
    | .ok files => ⟨0, shown, "", files⟩
    | .error failure => failed world options shown failure

def rendering (options : Options) (code : List Instruction) : Except Error String :=
  match options.emit.getD .bytecode with
  | .bytecode => .ok (Instruction.dump code)
  | .source => Instruction.programScript code

def run (world : World) (options : Options) : Outcome :=
  if options.listLibraries then delivered world options "" (listing world options)
  else
    match script world options with
    | .error failure => failed world options "" failure
    | .ok (source, file) =>
      let setting : Compile.Setting := ⟨world.files, searchPath world options⟩
      match Compile.sourceText setting source file options.reserved with
      | .error error => failed world options "" (compileFailure error source file)
      | .ok code =>
        let shown := if options.verbose then Instruction.dump code else ""
        match rendering options code with
        | .ok text => delivered world options shown text
        | .error error =>
          failed world options shown ⟨"failed to decompile " ++ file, causesOf error⟩

/-- How the program is called. -/
def usage : String :=
  "Usage: macal-cli [OPTIONS]\n\n" ++
  "  -i, --input FILE         script to compile, instead of the standard input\n" ++
  "  -o, --output FILE        file to write, instead of the standard output\n" ++
  "      --emit FORM          bytecode or source\n" ++
  "      --library-path DIR   directory searched for libraries, may be repeated\n" ++
  "      --reserved NAME      name declared beforehand, may be repeated\n" ++
  "      --verbose            show the compiled instructions\n" ++
  "      --raise              show all causes of a failure\n" ++
  "      --list-libraries     list the libraries that can be included\n" ++
  "      --log-level LEVEL    off, error, warn, info, debug or trace\n" ++
  "  -h, --help               show this text\n" ++
  "  -V, --version            show the version\n"

def perform (world : World) (arguments : List String) : Outcome :=
  match Request.ofArguments arguments with
  | .run options => run world options
  | .version => ⟨0, "macal-cli 0.1.0\n", "", world.files⟩
  | .help => ⟨0, usage, "", world.files⟩
  | .misuse => ⟨2, "", usage, world.files⟩

end Treecode.CommandLine
