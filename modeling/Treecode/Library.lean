import Treecode.Error
import Treecode.Path

set_option autoImplicit false

namespace Treecode

/-- The directories searched for libraries, first one first. -/
abbrev SearchPath := List String

/-- The directories that a variable of the environment lists, separated by colons. -/
def SearchPath.ofVariable (value : Option String) : SearchPath :=
  match value with
  | none => []
  | some text => (text.toList.splitOn ':').map String.ofList

/-- Where libraries are looked for by default: the directories of the environment, then the working
directory. -/
def SearchPath.standard (value : Option String) : SearchPath := ofVariable value ++ ["."]

/-- A library: the name that includes it, and the path of its file. -/
structure Library where
  name : String
  path : String
  deriving DecidableEq, Repr

/-- What a walk comes upon: a path, and whether it is the path of a file. -/
structure WalkEntry where
  path : String
  isFile : Bool
  deriving DecidableEq, Repr

/-- A walk through a directory: the directory itself and what stands in it, or the wording of the
fault that kept it from being looked at. -/
abbrev Walk := String → List (Except String WalkEntry)

/-- A walk through a directory of some files. -/
def Files.walkThrough (files : Files) : Walk := fun dir =>
  match files.find dir with
  | .error fault => [.error fault.message]
  | .ok (_, .file _) => [.ok ⟨dir, true⟩]
  | .ok (place, .directory) =>
    .ok ⟨dir, false⟩ :: (files.namesIn place).map fun (name, isFile) =>
      .ok ⟨Path.join dir name, isFile⟩

namespace Library

/-- The library file of a name in a directory. -/
def candidate (name dir : String) : String := Path.join dir (name ++ ".mcl")

/-- The path of the library of a name: the first candidate that is a file. -/
def find? (files : Files) (searchPath : SearchPath) (name : String) : Option String :=
  (searchPath.map (candidate name)).find? files.isFile

def load (files : Files) (path : String) : Except Error String :=
  match files.read path with
  | .ok text => .ok text
  | .error fault => .error (.unreadable path fault)

/-- The name of the library that a file name stands for: what precedes its ending, if anything. -/
def nameOf? (fileName : String) : Option String :=
  match fileName.toList.reverse with
  | 'l' :: 'c' :: 'm' :: '.' :: c :: rest => some (String.ofList (c :: rest).reverse)
  | _ => none

/-- The libraries that a walk comes upon in one entry of a search path, by name. What went wrong on
the way is passed over. -/
def inEntry (walk : Walk) (dir : String) : List Library :=
  let found := (walk dir).filterMap fun
    | .ok ⟨path, true⟩ => ((Path.lastName? path).bind nameOf?).map fun name => ⟨name, path⟩
    | _ => none
  found.mergeSort fun a b => !(b.name < a.name)

def addNew (known : List Library) (library : Library) : List Library :=
  if known.any (·.name == library.name) then known else known ++ [library]

/-- The libraries that walks come upon on a search path. Of several with one name the first entry's
is listed. -/
def listed (walk : Walk) (searchPath : SearchPath) : List Library :=
  (searchPath.flatMap (inEntry walk)).foldl addNew []

def available (files : Files) (searchPath : SearchPath) : List Library :=
  listed files.walkThrough searchPath

end Library

end Treecode
