set_option autoImplicit false

namespace Treecode

/-- Why a file could not be read or written. -/
inductive FileFault where
  | notFound
  | alreadyThere
  | notADirectory
  | isADirectory
  | nameTooLong
  | zeroInPath
  | invalidText
  deriving DecidableEq, Repr

def FileFault.message : FileFault → String
  | .notFound => "No such file or directory (os error 2)"
  | .alreadyThere => "File exists (os error 17)"
  | .notADirectory => "Not a directory (os error 20)"
  | .isADirectory => "Is a directory (os error 21)"
  | .nameTooLong => "File name too long (os error 36)"
  | .zeroInPath => "file name contained an unexpected NUL byte"
  | .invalidText => "stream did not contain valid UTF-8"

/-- What stands at a place: a directory, or a file with its bytes. -/
inductive FileNode where
  | directory
  | file (bytes : ByteArray)
  deriving Inhabited

def FileNode.isFile : FileNode → Bool
  | .directory => false
  | .file _ => true

/-- What stands at which place. A place is the list of names that lead to it from the working
directory; above that it starts with two points, and counted from the root with a slash. -/
structure Files where
  nodes : List (List String × FileNode)

namespace Files

/-- Directories with nothing in them. -/
def empty : Files := ⟨[]⟩

/-- The places that are always directories: the root, the working directory and those above it. -/
def isBase (place : List String) : Bool := place == ["/"] || place.all (· == "..")

def node? (files : Files) (place : List String) : Option FileNode :=
  if isBase place then some .directory else files.nodes.lookup place

/-- The directory that holds a place. The root holds itself. -/
def above (place : List String) : List String :=
  if place = ["/"] then place
  else if isBase place then ".." :: place
  else place.dropLast

/-- The names of a path. -/
def names (path : String) : List String := (path.toList.splitOn '/').map String.ofList

/-- A name that stays where it is: an empty one, as before a second slash, or a single point. -/
def staysPut (name : String) : Bool := name == "" || name == "."

/-- Whether a name is longer than a file system stores. -/
def tooLong (name : String) : Bool := 255 < name.utf8ByteSize

/-- Follows names from a directory. Only the last one may name a file. -/
def walk (files : Files) (here : List String) :
    List String → Except FileFault (List String × FileNode)
  | [] => .ok (here, .directory)
  | name :: rest =>
    if staysPut name then files.walk here rest
    else if name = ".." then files.walk (above here) rest
    else if tooLong name then .error .nameTooLong
    else
      match files.node? (here ++ [name]) with
      | none => .error .notFound
      | some .directory => files.walk (here ++ [name]) rest
      | some (.file bytes) =>
        if rest = [] then .ok (here ++ [name], .file bytes) else .error .notADirectory

/-- Where a path starts, and its names from there. A path takes up to 4095 bytes, however short it
would be without the names that stay put. -/
def route (path : String) : Except FileFault (List String × List String) :=
  if path.toList.contains '\x00' then .error .zeroInPath
  else if path = "" then .error .notFound
  else if 4095 < path.utf8ByteSize then .error .nameTooLong
  else if path.toList.head? = some '/' then .ok (["/"], names path)
  else .ok ([], names path)

/-- The place that a path leads to, and what stands there. -/
def find (files : Files) (path : String) : Except FileFault (List String × FileNode) :=
  match route path with
  | .ok (start, steps) => files.walk start steps
  | .error fault => .error fault

def isFile (files : Files) (path : String) : Bool :=
  match files.find path with
  | .ok (_, .file _) => true
  | _ => false

def isDirectory (files : Files) (path : String) : Bool :=
  match files.find path with
  | .ok (_, .directory) => true
  | _ => false

/-- The text of a file. -/
def read (files : Files) (path : String) : Except FileFault String :=
  match files.find path with
  | .error fault => .error fault
  | .ok (_, .directory) => .error .isADirectory
  | .ok (_, .file bytes) =>
    match String.fromUTF8? bytes with
    | some text => .ok text
    | none => .error .invalidText

/-- The names of what stands directly in a directory, and whether they are names of files. -/
def namesIn (files : Files) (place : List String) : List (String × Bool) :=
  files.nodes.filterMap fun (names, node) =>
    match names.getLast? with
    | some name => if names.dropLast = place then some (name, node.isFile) else none
    | none => none

def set (files : Files) (place : List String) (node : FileNode) : Files :=
  ⟨(place, node) :: files.nodes.filter (fun entry => entry.1 ≠ place)⟩

/-- The directory that is to hold the last name of a path, and that name. A last name that stays put
or leads upward names nothing new. -/
def container (files : Files) (path : String) : Except FileFault (List String × Option String) :=
  match route path with
  | .error fault => .error fault
  | .ok (start, steps) =>
    match steps.reverse.dropWhile (· == "") with
    | [] => .ok (start, none)
    | last :: outer =>
      match files.walk start outer.reverse with
      | .error fault => .error fault
      | .ok (_, .file _) => .error .notADirectory
      | .ok (place, .directory) =>
        if last = "." ∨ last = ".." then .ok (place, none) else .ok (place, some last)

def makeDirectory (files : Files) (path : String) : Except FileFault Files :=
  match files.container path with
  | .error fault => .error fault
  | .ok (_, none) => .error .alreadyThere
  | .ok (place, some name) =>
    if tooLong name then .error .nameTooLong
    else
      match files.node? (place ++ [name]) with
      | some _ => .error .alreadyThere
      | none => .ok (files.set (place ++ [name]) .directory)

/-- Replaces the bytes of a file, or makes the file. The directory above it has to be there. -/
def write (files : Files) (path : String) (bytes : ByteArray) : Except FileFault Files :=
  match files.container path with
  | .error fault => .error fault
  | .ok (_, none) => .error .isADirectory
  | .ok (place, some name) =>
    if path.toList.getLast? = some '/' then .error .isADirectory
    else if tooLong name then .error .nameTooLong
    else
      match files.node? (place ++ [name]) with
      | some .directory => .error .isADirectory
      | _ => .ok (files.set (place ++ [name]) (.file bytes))

end Files

end Treecode
