import CoolStatics.Analysis
import CoolStatics.Text.Combining
import CoolStatics.Text.Ignorable
import CoolStatics.Text.Unprintable

/-!
The log of a check: what happened at each step, in order.
-/
namespace CoolStatics.CommandLine

inductive Level
  | info
  | debug
  | trace
  deriving DecidableEq, Repr

namespace Level

def text : Level → String
  | info => "INFO"
  | debug => "DEBUG"
  | trace => "TRACE"

/-- The number of `-v`s from which on events of this level are shown. -/
def threshold : Level → Nat
  | info => 0
  | debug => 1
  | trace => 2

end Level

structure Event where
  level : Level
  target : String
  text : String
  deriving DecidableEq, Repr

def Event.line (path : String) (e : Event) : String :=
  e.level.text ++ " check\x7bpath=" ++ path ++ "\x7d: " ++ e.target ++ ": " ++ e.text

/-- Characters that a reader of the line could miss: unprintable, combining or ignorable ones. -/
def isHidden (c : Char) : Bool :=
  Text.unprintable.holds c || Text.combining.holds c || Text.ignorable.holds c

def escaped (c : Char) : List Char :=
  if c = '"' then ['\\', '"']
  else if c = '\\' then ['\\', '\\']
  else if c = '\n' then ['\\', 'n']
  else if c = '\r' then ['\\', 'r']
  else if c = '\t' then ['\\', 't']
  else if c.toNat = 0 then ['\\', '0']
  else if isHidden c then ['\\', 'u', '\x7b'] ++ Nat.toDigits 16 c.toNat ++ ['\x7d']
  else [c]

def quoted (s : String) : String := "\"" ++ String.ofList (s.toList.flatMap escaped) ++ "\""

namespace Event

def programLoaded (path : String) (p : Program) : Event :=
  ⟨.debug, "coolc::program_file",
    "program loaded path=" ++ path ++ " classes=" ++ p.classes.length.repr⟩

def fault (i : Interner) (f : Fault) : Event :=
  ⟨.trace, "coolc_core::diagnostic", "semantic error diagnostic=" ++ (f.diagnostic i).text⟩

def registrationStopped (i : Interner) (c : Symbol) : Event :=
  ⟨.debug, "coolc_core::semantic_analysis::class_hierarchy",
    "class registration stopped class=" ++ quoted (i.resolve c)⟩

def hierarchyBuilt (r : Hierarchy.Registration) : Event :=
  ⟨.debug, "coolc_core::semantic_analysis::class_hierarchy",
    "class hierarchy built classes=" ++ r.hierarchy.classes.size.repr ++ " errors=" ++
      r.faults.length.repr⟩

def registrationFinished (p : Program) (r : Hierarchy.Registration) : Event :=
  ⟨.debug, "coolc_core::semantic_analysis",
    "registration finished classes=" ++ p.classes.length.repr ++ " errors=" ++
      r.faults.length.repr⟩

def classChecked (i : Interner) (c : Symbol) (faults : Nat) : Event :=
  ⟨.trace, "coolc_core::semantic_analysis::type_checker",
    "class checked class=" ++ quoted (i.resolve c) ++ " errors=" ++ faults.repr⟩

def typingFinished (faults : Nat) : Event :=
  ⟨.debug, "coolc_core::semantic_analysis", "type checking finished errors=" ++ faults.repr⟩

def analysisFinished (faults : Nat) : Event :=
  ⟨.debug, "coolc::check", "analysis finished errors=" ++ faults.repr⟩

def noErrors : Event := ⟨.info, "coolc::check", "no semantic errors"⟩

/-- Faults of registration in order; the class that ended it is named before its fault. -/
def ofRegistration (i : Interner) (r : Hierarchy.Registration) : List Event :=
  match r.rejected with
  | none => r.faults.map (fault i)
  | some c =>
    r.faults.dropLast.map (fault i) ++ registrationStopped i c ::
      r.faults.getLast?.toList.map (fault i)

/-- Classes one by one, up to the first whose check broke off. -/
def ofClasses (i : Interner) : List (ClassDecl × Report ClassDecl) → List Event
  | [] => []
  | (c, r) :: rest =>
    r.faults.map (fault i) ++
      if r.completed then classChecked i c.name r.faults.length :: ofClasses i rest else []

def ofConclusion (a : Analysis) : List Event :=
  match a.conclusion with
  | .halted faults =>
    if a.registration.faults.isEmpty then faults.map (fault a.interner) else []
  | .checked classes =>
    let r := Report.all classes
    ofClasses a.interner (a.program.classes.zip classes) ++
      if r.completed then [typingFinished r.faults.length] else []

def ofVerdict : Except NoCommonAncestor Verdict → List Event
  | .error _ => []
  | .ok v => analysisFinished v.faults.length :: if v.passed then [noErrors] else []

def ofAnalysis (path : String) (a : Analysis) : List Event :=
  programLoaded path a.program ::
    (ofRegistration a.interner a.registration ++
      [hierarchyBuilt a.registration, registrationFinished a.program a.registration] ++
      ofConclusion a ++ ofVerdict a.verdict)

end Event
end CoolStatics.CommandLine
