import CoolStatics.CommandLine.Arguments
import CoolStatics.CommandLine.Log
import CoolStatics.ProgramFile.Load

/-!
A run of the command: from the request, and the text of the file that it names, to what is printed
and the exit status.
-/
namespace CoolStatics.CommandLine

structure Response where
  status : UInt32
  out : String
  log : List String
  err : String
  deriving DecidableEq, Repr

def version : String := "coolc 0.1.0\n"

def entry (code text : String) (help : Option String) : String :=
  code ++ "\n\n  × " ++ text ++ "\n" ++
    (match help with
      | some help => "  help: " ++ help ++ "\n"
      | none => "") ++ "\n"

def loadFailure (e : LoadError) : String :=
  match e.code? with
  | some code => entry code e.message e.help?
  | none => "  × " ++ e.message ++ "\n"

def failure (format : OutputFormat) (path : String) (ds : List Diagnostic) : String :=
  let listing := match format with
    | .plain => Diagnostic.listing ds
    | .human =>
      entry Diagnostic.checkCode (Diagnostic.summary path ds) none ++
        String.join (ds.map fun d => "Error: " ++ entry Diagnostic.code d.text d.hint)
  listing ++ Diagnostic.halted ++ "\n"

/-- Checks a program that has been loaded. A check that broke off prints nothing. -/
def checkLoaded (path : String) (emitTypes : Bool) (format : OutputFormat) (verbosity : Nat)
    (p : Program) (i : Interner) : Response :=
  let a := p.analyse i
  let log := ((Event.ofAnalysis path a).filter (·.level.threshold ≤ verbosity)).map (·.line path)
  match a.verdict with
  | .error _ => ⟨101, "", log, ""⟩
  | .ok v =>
    let out := if emitTypes then v.program.typeListing a.interner else ""
    if v.passed then ⟨0, out, log, ""⟩
    else ⟨1, out, log, failure format path (v.diagnostics a.interner)⟩

/-- The answer to a request; `content` is the text at the path that the request names. -/
def respond (request : Option Request) (content : Option String) : Response :=
  match request with
  | none => ⟨2, "", [], ""⟩
  | some .version => ⟨0, version, [], ""⟩
  | some (.check path emitTypes format verbosity) =>
    match Program.load path content .empty with
    | (.error e, _) => ⟨1, "", [], loadFailure e⟩
    | (.ok p, i) => checkLoaded path emitTypes format verbosity p i

end CoolStatics.CommandLine
