import Treecode.Compile.Statements
import Treecode.Library
import Treecode.Program.Reading

set_option autoImplicit false

namespace Treecode.Compile

open Step

/-- Where libraries come from. -/
structure Setting where
  files : Files
  searchPath : SearchPath

def programIn (includeOne : Including) (scope : Nat) (program : Program) :
    Step (List Instruction) :=
  inFile program.file (statements includeOne scope program.statements)

/-- The file of a library that is not under way. -/
def libraryFile (setting : Setting) (library : Token) : Step String := do
  match Library.find? setting.files setting.searchPath library.text with
  | none => raise (.libraryNotFound library.text (← placeOf library))
  | some path =>
    if (← fun session => (.ok session.including, session)).any (Path.same path) then
      object library (.circularInclude library.text)
    else return path

def libraryScope (scope : Nat) (name : String) : Step Nat := do
  changeTree (·.addLibrary scope name)
  let child ← newScope scope name
  changeTree (·.setLibrary child true)
  return child

/-- Includes a library, where libraries may include others down to a given depth. No library is
under way twice, so a depth beyond the number of library files is never reached. -/
def library (setting : Setting) : Nat → Including
  | 0, name, _ => object name (.circularInclude name.text)
  | depth + 1, name, scope => do
    if (← tree).hasLibrary scope name.text then return []
    else
      let path ← libraryFile setting name
      let text ← ofExcept (Library.load setting.files path)
      let child ← libraryScope scope name.text
      let program ← ofExcept (Program.ofSource text path)
      whileIncluding path (programIn (library setting depth) child program)

/-- A depth that includes never reach: there are at most as many paths of libraries as there are
pairs of a directory and a file, and one more for the name that a program itself may give. -/
def Setting.depth (setting : Setting) : Nat :=
  setting.searchPath.length * setting.files.nodes.length + 2

/-- The reserved names that are not blank, without the white space around them. -/
def reservedNames (reserved : List String) : List String :=
  (reserved.map Text.trim).filter (· ≠ "")

/-- The scopes before a program is compiled: the reserved names are declared. -/
def reservedTree (reserved : List String) : ScopeTree :=
  (reservedNames reserved).foldl
    (fun tree name => tree.declare (.fresh name ScopeTree.root)) .initial

/-- Compiles a program in fresh scopes, in which the reserved names are declared. -/
def program (setting : Setting) (source : Program) (reserved : List String) :
    Step (List Instruction) := fun session =>
  let start := { session with tree := reservedTree reserved, including := [] }
  match programIn (library setting setting.depth) ScopeTree.root source start with
  | (.ok code, after) => (.ok (code ++ [.finalHalt]), after)
  | (.error error, after) => (.error error, after)

/-- The bytecode of a source text. -/
def sourceText (setting : Setting) (text file : String) (reserved : List String) :
    Except Error (List Instruction) :=
  match Program.ofSource text file with
  | .error error => .error error
  | .ok source => (program setting source reserved .initial).1

end Treecode.Compile
