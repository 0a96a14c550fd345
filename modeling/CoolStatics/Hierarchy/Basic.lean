import CoolStatics.Predefined
import CoolStatics.Program
import CoolStatics.Table

/-!
The class hierarchy: for each registered class the name of its parent and the members that it
declares itself. A parent is known by name only and need not be registered.
-/
namespace CoolStatics

/-- What callers of a method have to know of it. -/
structure Signature where
  name : Symbol
  formals : List Formal
  result : Symbol
  owner : Symbol
  line : Line
  deriving DecidableEq, Repr

namespace Signature

def arity (s : Signature) : Nat := s.formals.length

def types (s : Signature) : List Symbol := s.formals.map (·.type)

end Signature

def Method.signature (m : Method) (owner : Symbol) : Signature :=
  ⟨m.name, m.formals, m.result, owner, m.line⟩

/-- A registered class. The class at the root has `_no_class` for its parent. -/
structure ClassInfo where
  parent : Symbol
  methods : Table Signature
  attributes : Table Symbol
  file : String
  line : Line

def ClassInfo.place (c : ClassInfo) : Place := ⟨c.file, c.line⟩

structure Hierarchy where
  names : Vocabulary
  classes : Table ClassInfo

namespace Hierarchy

def get? (h : Hierarchy) (c : Symbol) : Option ClassInfo := h.classes.get? c

def has (h : Hierarchy) (c : Symbol) : Bool := h.classes.contains c

/-- In the order of registration. -/
def classNames (h : Hierarchy) : List Symbol := h.classes.keys

def parent? (h : Hierarchy) (c : Symbol) : Option Symbol := (h.get? c).map (·.parent)

def edges (h : Hierarchy) : List (Symbol × Symbol) :=
  h.classes.entries.map fun e => (e.1, e.2.parent)

/-- Follows parents from `c` for at most the given number of steps, never to a name in `seen`. -/
def climb (h : Hierarchy) : Nat → List Symbol → Symbol → List Symbol
  | 0, _, _ => []
  | n + 1, seen, c =>
    match h.parent? c with
    | none => []
    | some p => if p = h.names .noClass ∨ p ∈ seen then [] else p :: climb h n (p :: seen) p

/-- The strict ancestors of a class, the nearest first. A parent that is not registered still
belongs to the chain and ends it. -/
def chain (h : Hierarchy) (c : Symbol) : List Symbol := h.climb h.classes.size [c] c

/-- The strict ancestors that are registered. -/
def ancestors (h : Hierarchy) (c : Symbol) : List Symbol := (h.chain c).filter h.has

/-- A registered class followed by its registered ancestors. -/
def lineage (h : Hierarchy) (c : Symbol) : List Symbol :=
  if h.has c then c :: h.ancestors c else []

def method? (h : Hierarchy) (c m : Symbol) : Option Signature :=
  (h.get? c).bind (·.methods.get? m)

/-- The method of the nearest strict ancestor that declares it. -/
def inheritedMethod? (h : Hierarchy) (c m : Symbol) : Option Signature :=
  (h.ancestors c).findSome? (h.method? · m)

def findMethod? (h : Hierarchy) (c m : Symbol) : Option Signature :=
  (h.method? c m).or (h.inheritedMethod? c m)

def attr? (h : Hierarchy) (c a : Symbol) : Option Symbol :=
  (h.get? c).bind (·.attributes.get? a)

/-- The declared type of an attribute of the nearest strict ancestor that declares it. -/
def inheritedAttr? (h : Hierarchy) (c a : Symbol) : Option Symbol :=
  (h.ancestors c).findSome? (h.attr? · a)

def findAttr? (h : Hierarchy) (c a : Symbol) : Option Symbol :=
  (h.attr? c a).or (h.inheritedAttr? c a)

/-- Records a method in the table of a registered class, over an earlier one of its name. -/
def addMethod (h : Hierarchy) (c : Symbol) (s : Signature) : Hierarchy :=
  { h with classes := h.classes.modify c fun info =>
      { info with methods := info.methods.insert s.name s } }

def addAttr (h : Hierarchy) (c a type : Symbol) : Hierarchy :=
  { h with classes := h.classes.modify c fun info =>
      { info with attributes := info.attributes.insert a type } }

/-- Puts a class into the hierarchy without members. -/
def enter (h : Hierarchy) (c : ClassDecl) : Hierarchy :=
  { h with classes := h.classes.insert c.name ⟨c.parent, ∅, ∅, c.file, c.line⟩ }

end Hierarchy
end CoolStatics
