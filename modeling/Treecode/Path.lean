import Treecode.Files

set_option autoImplicit false

namespace Treecode.Path

/-- Whether a path counts from the root. -/
def isAbsolute (path : String) : Bool := path.toList.head? == some '/'

/-- A name below a directory. A name that starts with a slash stands for itself, and no slash is put
after an empty directory or after one that ends in a slash. -/
def join (dir name : String) : String :=
  if isAbsolute name || dir = "" then name
  else if dir.toList.getLast? = some '/' then dir ++ name
  else dir ++ "/" ++ name

/-- The names without those at the end that stay put. The first name is always kept. -/
def withoutTail : List String → List String
  | [] => []
  | first :: rest => first :: (rest.reverse.dropWhile Files.staysPut).reverse

/-- The directory above a path, empty for a single name; the empty path and the root have none. -/
def parent? (path : String) : Option String :=
  if (withoutTail (Files.names path)).all (· == "") then none
  else
    let above := "/".intercalate (withoutTail (withoutTail (Files.names path)).dropLast)
    some (if above = "" && isAbsolute path then "/" else above)

/-- The names of a path that say where it leads: the first one, and the others that do not stay
put. -/
def steps (path : String) : List String :=
  match Files.names path with
  | [] => []
  | first :: rest =>
    let others := rest.filter (!Files.staysPut ·)
    if isAbsolute path then "/" :: others
    else if first = "" then others
    else first :: others

def lastName? (path : String) : Option String := (steps path).getLast?

/-- Whether two paths are written alike but for repeated slashes and inner points. -/
def same (a b : String) : Bool := steps a == steps b

/-- A path and the directories above it, innermost first. Each is shorter than the one before. -/
def withParents : Nat → String → List String
  | 0, _ => []
  | bound + 1, path =>
    match parent? path with
    | none => [path]
    | some above => path :: withParents bound above

end Treecode.Path

namespace Treecode.Files

/-- Makes the first of some directories; the ones after it are those above it, and are made where
they are missing. -/
def makeInnermost (files : Files) : List String → Except FileFault Files
  | [] => .error .notFound
  | path :: above =>
    let settle := fun (files : Files) (fault : FileFault) =>
      if files.isDirectory path then .ok files else .error fault
    if path = "" then .ok files
    else
      match files.makeDirectory path with
      | .ok made => .ok made
      | .error .notFound =>
        match files.makeInnermost above with
        | .error fault => .error fault
        | .ok made =>
          match made.makeDirectory path with
          | .ok made => .ok made
          | .error fault => settle made fault
      | .error fault => settle files fault

/-- Makes a directory and those above it, as far as they are missing. -/
def makeDirectories (files : Files) (path : String) : Except FileFault Files :=
  files.makeInnermost (Path.withParents (path.length + 1) path)

end Treecode.Files
