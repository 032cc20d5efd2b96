set_option autoImplicit false

namespace Treecode.CommandLine

/-- What is written: bytecode, or a script again. -/
inductive Emit where
  | bytecode
  | source
  deriving DecidableEq, Repr

/-- What the arguments ask for. An option that is missing here was not given. -/
structure Options where
  input : Option String
  output : Option String
  emit : Option Emit
  libraryPath : List String
  reserved : List String
  logLevel : Option String
  verbose : Bool
  raise : Bool
  listLibraries : Bool
  deriving DecidableEq, Repr

def Options.none : Options := ⟨.none, .none, .none, [], [], .none, false, false, false⟩

/-- The options that take a value. -/
inductive Setting where
  | input
  | output
  | emit
  | libraryPath
  | reserved
  | logLevel
  deriving DecidableEq, Repr

/-- The options that stand alone. -/
inductive Switch where
  | verbose
  | raise
  | listLibraries
  | version
  | help
  deriving DecidableEq, Repr

/-- The option with a value that has a given name. -/
def Setting.ofName? : String → Option Setting
  | "input" => some .input
  | "output" => some .output
  | "emit" => some .emit
  | "library-path" => some .libraryPath
  | "reserved" => some .reserved
  | "log-level" => some .logLevel
  | _ => none

/-- The option without a value that has a given name. -/
def Switch.ofName? : String → Option Switch
  | "verbose" => some .verbose
  | "raise" => some .raise
  | "list-libraries" => some .listLibraries
  | "version" => some .version
  | "help" => some .help
  | _ => none

inductive Argument where
  | setting (name : Setting) (value : Option String)
  | switch (name : Switch)
  | plain (text : String)
  | stopOptions
  | unknown
  deriving DecidableEq, Repr

def longArgument (text : List Char) : Argument :=
  let name := String.ofList (text.takeWhile (· ≠ '='))
  let value := text.dropWhile (· ≠ '=')
  match Setting.ofName? name, Switch.ofName? name with
  | some setting, _ => .setting setting (value.tail?.map String.ofList)
  | none, some switch => if value.isEmpty then .switch switch else .unknown
  | none, none => .unknown

/-- A value attached to a one-letter option. An equals sign may stand between them. -/
def attached : List Char → Option String
  | [] => none
  | '=' :: value => some (String.ofList value)
  | value => some (String.ofList value)

/-- What an argument is, read by itself. A single hyphen is no option. -/
def Argument.ofText (text : String) : Argument :=
  match text.toList with
  | ['-', '-'] => .stopOptions
  | '-' :: '-' :: rest => longArgument rest
  | '-' :: 'i' :: rest => .setting .input (attached rest)
  | '-' :: 'o' :: rest => .setting .output (attached rest)
  | '-' :: 'V' :: _ => .switch .version
  | '-' :: 'h' :: _ => .switch .help
  | '-' :: _ :: _ => .unknown
  | _ => .plain text

def logLevels : List String := ["off", "error", "warn", "info", "debug", "trace"]

/-- Sets an option, unless it is set or the value does not fit. Paths must not be empty; the search
path and the reserved names grow with each use. -/
def Options.set? (options : Options) (name : Setting) (value : String) : Option Options :=
  match name with
  | .input => if options.input.isSome || value.isEmpty then .none
      else some { options with input := some value }
  | .output => if options.output.isSome || value.isEmpty then .none
      else some { options with output := some value }
  | .emit =>
    if options.emit.isSome then .none
    else if value = "bytecode" then some { options with emit := some .bytecode }
    else if value = "source" then some { options with emit := some .source }
    else .none
  | .libraryPath => if value.isEmpty then .none
      else some { options with libraryPath := options.libraryPath ++ [value] }
  | .reserved => some { options with reserved := options.reserved ++ [value] }
  | .logLevel =>
    let level := String.ofList (value.toList.map Char.toLower)
    if options.logLevel.isSome || !logLevels.contains level then .none
    else some { options with logLevel := some level }

/-- What the arguments ask for: a run, a text about the program itself, or nothing sensible. -/
inductive Request where
  | run (options : Options)
  | version
  | help
  | misuse
  deriving DecidableEq, Repr

/-- The request of the arguments that are left, where an option may wait for its value. -/
def request (options : Options) (waiting : Option Setting) : List String → Request
  | [] => if waiting.isSome then .misuse else .run options
  | text :: rest =>
    match Argument.ofText text, waiting with
    | .plain value, some name =>
      match options.set? name value with
      | some options => request options none rest
      | none => .misuse
    | _, some _ => .misuse
    | .setting name none, none => request options (some name) rest
    | .setting name (some value), none =>
      match options.set? name value with
      | some options => request options none rest
      | none => .misuse
    | .switch .verbose, none =>
      if options.verbose then .misuse else request { options with verbose := true } none rest
    | .switch .raise, none =>
      if options.raise then .misuse else request { options with raise := true } none rest
    | .switch .listLibraries, none =>
      if options.listLibraries then .misuse
      else request { options with listLibraries := true } none rest
    | .switch .version, none => .version
    | .switch .help, none => .help
    | .stopOptions, none => if rest.isEmpty then .run options else .misuse
    | .plain _, none | .unknown, none => .misuse

def Request.ofArguments (arguments : List String) : Request := request .none none arguments

end Treecode.CommandLine
