import CoolStatics.Fault
import CoolStatics.Hierarchy.BasicClasses

/-!
Building the hierarchy of a program. Classes enter in source order, and each declares its features
as soon as it has entered; the first class that may not enter ends the registration.
-/
namespace CoolStatics
namespace Hierarchy

def closesCycle (h : Hierarchy) (child parent : Symbol) : Bool :=
  child = parent || (h.chain parent).contains child

/-- The first rule that keeps a class out of the hierarchy. -/
def rejection? (h : Hierarchy) (c : ClassDecl) : Option Rejection :=
  if h.names.isReserved c.name then some (.reservedName c.name)
  else if h.names.isSealed c.parent then some (.sealedParent c.name c.parent)
  else if h.has c.name then some (.redefined c.name)
  else if h.closesCycle c.name c.parent then some (.cyclic c.name)
  else none

def register (h : Hierarchy) (c : ClassDecl) : Except Rejection Hierarchy :=
  match h.rejection? c with
  | some why => .error why
  | none => .ok (h.enter c)

/-- What a feature may not repeat of the features before it. -/
def clash? (h : Hierarchy) (owner : Symbol) : Feature → Option Cause
  | .method m =>
    if (h.method? owner m.name).isSome then some (.methodRedefined owner m.name) else none
  | .attr a =>
    if a.name = h.names .self then some .selfAttribute
    else if (h.attr? owner a.name).isSome then some (.attributeRedefined owner a.name)
    else none

/-- A feature is recorded also where it clashes, so the last declaration of a name stands. -/
def declareFeature (h : Hierarchy) (owner : Symbol) : Feature → Hierarchy
  | .method m => h.addMethod owner (m.signature owner)
  | .attr a => h.addAttr owner a.name a.type

def declareFeatures (h : Hierarchy) (c : ClassDecl) : List Feature → Hierarchy × List Fault
  | [] => (h, [])
  | f :: rest =>
    let fault := (h.clash? c.name f).map fun cause => ⟨cause, some ⟨c.file, f.line⟩⟩
    let (h', faults) := (h.declareFeature c.name f).declareFeatures c rest
    (h', fault.toList ++ faults)

def declare (h : Hierarchy) (c : ClassDecl) : Hierarchy × List Fault :=
  h.declareFeatures c c.features

/-- The hierarchy of the basic classes alone, which declare their features without a fault. -/
def basic (names : Vocabulary) : Hierarchy :=
  (BasicClasses.all names).foldl (fun h c => ((h.enter c).declare c).1) ⟨names, ∅⟩

/-- A hierarchy with the faults found on the way, and the class that ended the registration. -/
structure Registration where
  hierarchy : Hierarchy
  faults : List Fault
  rejected : Option Symbol

def registerAll (h : Hierarchy) : List ClassDecl → Registration
  | [] => ⟨h, [], none⟩
  | c :: rest =>
    match h.register c with
    | .error why => ⟨h, [⟨.rejected why, some c.place⟩], some c.name⟩
    | .ok h' =>
      let (h'', faults) := h'.declare c
      let r := h''.registerAll rest
      { r with faults := faults ++ r.faults }

def build (names : Vocabulary) (p : Program) : Registration :=
  (basic names).registerAll p.classes

end Hierarchy
end CoolStatics
