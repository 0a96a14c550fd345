import CoolStatics.Typing.Check

/-!
Analysis of a whole program. Classes are registered first; a program whose registration, `Main`
class and parents are in order then has every class checked. What an earlier step finds keeps the
later ones from being taken, and leaves the program as it was.
-/
namespace CoolStatics

namespace Hierarchy

/-- A program needs a class `Main` that itself declares a method `main` without formals. -/
def mainFault? (h : Hierarchy) : Option Fault :=
  match h.get? (h.names .mainClass) with
  | none => some ⟨.noMainClass, none⟩
  | some info =>
    match info.methods.get? (h.names .mainMethod) with
    | none => some ⟨.noMainMethod, some info.place⟩
    | some main =>
      if main.arity = 0 then none else some ⟨.mainHasParameters, some ⟨info.file, main.line⟩⟩

/-- One fault for each class whose parent is neither registered nor `_no_class`. -/
def parentFaults (h : Hierarchy) : List Fault :=
  h.classes.entries.filterMap fun (c, info) =>
    if info.parent = h.names .noClass || h.has info.parent then none
    else some ⟨.undefinedParent c info.parent, some info.place⟩

end Hierarchy

/-- Where an analysis ended: at faults of the program's outline, or after its classes had been
checked one by one. -/
inductive Conclusion
  | halted (faults : List Fault)
  | checked (classes : List (Report ClassDecl))

structure Analysis where
  program : Program
  interner : Interner
  registration : Hierarchy.Registration
  conclusion : Conclusion

/-- What there is to say of a program whose analysis came to its end. -/
structure Verdict where
  program : Program
  faults : List Fault

/-- The faults that keep the classes of a program from being checked. -/
def Hierarchy.Registration.outlineFaults (r : Hierarchy.Registration) : List Fault :=
  if r.faults.isEmpty then
    match r.hierarchy.mainFault? with
    | some fault => [fault]
    | none => r.hierarchy.parentFaults
  else r.faults

def Program.analyse (p : Program) (i : Interner) : Analysis :=
  let (names, interner) := Vocabulary.intern i
  let registration := Hierarchy.build names p
  let faults := registration.outlineFaults
  { program := p, interner, registration
    conclusion :=
      if faults.isEmpty then .checked (p.classes.map (·.check registration.hierarchy))
      else .halted faults }

namespace Analysis

def hierarchy (a : Analysis) : Hierarchy := a.registration.hierarchy

def verdict (a : Analysis) : Except NoCommonAncestor Verdict :=
  match a.conclusion with
  | .halted faults => .ok ⟨a.program, faults⟩
  | .checked classes =>
    let r := Report.all classes
    r.outcome.map fun classes => ⟨⟨classes⟩, r.faults⟩

end Analysis

namespace Verdict

def passed (v : Verdict) : Bool := v.faults.isEmpty

def diagnostics (v : Verdict) (i : Interner) : List Diagnostic := v.faults.map (·.diagnostic i)

end Verdict

/-- One line for each expression that has a type: `FILE:LINE: KIND : TYPE`. -/
def Program.typeListing (p : Program) (i : Interner) : String :=
  String.join <| p.walk.filterMap fun (c, e) =>
    e.type?.map fun type =>
      Place.text ⟨c.file, e.line⟩ ++ ": " ++ e.kind ++ " : " ++ i.resolve type ++ "\n"

end CoolStatics
