/-!
Arguments of the command line:

    [-v | --verbose]... check PATH [--emit-types] [--format human|plain] [-v | --verbose]...
    --version | -V

Options may stand before or after the path and have to be spelled out; after `--` everything is a
path. Only `-v` may be repeated.
-/
namespace CoolStatics.CommandLine

inductive OutputFormat
  | human
  | plain
  deriving DecidableEq, Repr

def OutputFormat.ofString? : String → Option OutputFormat
  | "human" => some human
  | "plain" => some plain
  | _ => none

inductive Request
  | version
  | check (path : String) (emitTypes : Bool) (format : OutputFormat) (verbosity : Nat)
  deriving DecidableEq, Repr

/-- The arguments of `check` as far as they have been read. -/
structure CheckArguments where
  path : Option String
  emitTypes : Bool
  format : Option OutputFormat
  verbosity : Nat
  deriving DecidableEq, Repr

namespace CheckArguments

def empty : CheckArguments := ⟨none, false, none, 0⟩

def addPath (a : CheckArguments) (path : String) : Option CheckArguments :=
  if a.path.isNone then some { a with path := some path } else none

def addPaths (a : CheckArguments) : List String → Option CheckArguments
  | [] => some a
  | path :: rest => do (← a.addPath path).addPaths rest

def addFormat (a : CheckArguments) (word : String) : Option CheckArguments := do
  let format ← OutputFormat.ofString? word
  if a.format.isNone then some { a with format := some format } else none

/-- Letters after a single dash, all of which have to be `v`. -/
def addLetters (a : CheckArguments) (letters : List Char) : Option CheckArguments :=
  if letters.all (· = 'v') then some { a with verbosity := a.verbosity + letters.length } else none

def formatValue? (arg : String) : Option String :=
  let flag := "--format=".toList
  if flag.isPrefixOf arg.toList then some (String.ofList (arg.toList.drop flag.length)) else none

def read (a : CheckArguments) : List String → Option CheckArguments
  | [] => some a
  | "--" :: rest => a.addPaths rest
  | "--emit-types" :: rest =>
    if a.emitTypes then none else { a with emitTypes := true }.read rest
  | "--verbose" :: rest => { a with verbosity := a.verbosity + 1 }.read rest
  | "--format" :: [] => none
  | "--format" :: word :: rest => do (← a.addFormat word).read rest
  | arg :: rest => do
    match formatValue? arg with
    | some word => (← a.addFormat word).read rest
    | none =>
      match arg.toList with
      | '-' :: '-' :: _ => none
      | '-' :: c :: letters => (← a.addLetters (c :: letters)).read rest
      | _ => (← a.addPath arg).read rest

end CheckArguments

/-- The letters after a single dash before the command: the verbosity they add, or `none` once one
of them asks for the version. -/
def leadingLetters : List Char → Option (Option Nat)
  | [] => some (some 0)
  | 'v' :: rest => (leadingLetters rest).map (·.map (· + 1))
  | 'V' :: _ => some none
  | _ => none

/-- Reads the arguments of a run. A `-v` after the command makes those before it void. -/
def Request.read (verbosity : Nat) : List String → Option Request
  | [] => none
  | "--version" :: _ => some .version
  | "--verbose" :: rest => read (verbosity + 1) rest
  | "check" :: rest => do
    let a ← CheckArguments.empty.read rest
    return .check (← a.path) a.emitTypes (a.format.getD .human)
      (if a.verbosity = 0 then verbosity else a.verbosity)
  | arg :: rest =>
    match arg.toList with
    | '-' :: '-' :: _ => none
    | '-' :: c :: letters => do
      match ← leadingLetters (c :: letters) with
      | none => some .version
      | some n => read (verbosity + n) rest
    | _ => none

def Request.ofArguments? (args : List String) : Option Request := Request.read 0 args

end CoolStatics.CommandLine
