import Treecode.Error
import Treecode.Scope

set_option autoImplicit false

namespace Treecode.Compile

/-- What a compilation keeps: the scopes, the file that errors point into, and the libraries whose
compilation is under way, innermost first. -/
structure Session where
  tree : ScopeTree
  file : String
  including : List String

namespace Session

/-- Before the first compilation. -/
def initial : Session := ⟨.initial, "", []⟩

end Session

/-- A step of a compilation: it yields something or fails, and changes the session. -/
def Step (α : Type) := Session → Except Error α × Session

namespace Step

variable {α β : Type}

instance : Monad Step where
  pure a := fun session => (.ok a, session)
  bind step next := fun session =>
    match step session with
    | (.ok a, session) => next a session
    | (.error error, session) => (.error error, session)

def raise (error : Error) : Step α := fun session => (.error error, session)

/-- The outcome of something that needs no session. -/
def ofExcept (result : Except Error α) : Step α := fun session => (result, session)

def tree : Step ScopeTree := fun session => (.ok session.tree, session)

def changeTree (change : ScopeTree → ScopeTree) : Step Unit :=
  fun session => (.ok (), { session with tree := change session.tree })

def placeOf (token : Token) : Step Location := fun session =>
  (.ok ⟨session.file, token.position.line, token.position.column⟩, session)

def object (token : Token) (objection : Objection) : Step α := do
  raise (.rejected (← placeOf token) objection)

/-- Acts on another file and comes back, also after a failure. -/
def inFile (file : String) (step : Step α) : Step α := fun session =>
  let (result, after) := step { session with file }
  (result, { after with file := session.file })

/-- Acts while a library is under way, also after a failure. -/
def whileIncluding (path : String) (step : Step α) : Step α := fun session =>
  let (result, after) := step { session with including := path :: session.including }
  (result, { after with including := after.including.tail })

/-- Acts in a new scope and discards it, also after a failure. -/
def inScope (parent : Nat) (name : String) (step : Nat → Step α) : Step α := fun session =>
  let child := session.tree.size
  let (result, after) := step child { session with tree := session.tree.newChild parent name }
  (result, { after with tree := after.tree.discardChild parent child })

/-- Makes a scope inside another and yields its number. -/
def newScope (parent : Nat) (name : String) : Step Nat := fun session =>
  (.ok session.tree.size, { session with tree := session.tree.newChild parent name })

@[simp] theorem pure_apply (a : α) (session : Session) :
    (pure a : Step α) session = (.ok a, session) := rfl

theorem bind_apply (step : Step α) (next : α → Step β) (session : Session) :
    (step >>= next) session =
      match step session with
      | (.ok a, after) => next a after
      | (.error error, after) => (.error error, after) := rfl

end Step

end Treecode.Compile
