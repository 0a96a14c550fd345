import CoolStatics.Table

/-!
Lexical scopes: levels of local bindings, the innermost in front. A name means its binding in the
nearest level that has one. There is always at least the outermost level.
-/
namespace CoolStatics

structure Scope where
  innermost : Table Symbol
  enclosing : List (Table Symbol)

namespace Scope

/-- A single level without bindings. -/
def empty : Scope := ⟨∅, []⟩

/-- Innermost first. -/
def levels (s : Scope) : List (Table Symbol) := s.innermost :: s.enclosing

/-- How many levels enclose the innermost one. -/
def depth (s : Scope) : Nat := s.enclosing.length

def push (s : Scope) : Scope := ⟨∅, s.levels⟩

/-- Leaves the innermost level; the outermost one cannot be left. -/
def pop? (s : Scope) : Option Scope :=
  match s.enclosing with
  | [] => none
  | next :: rest => some ⟨next, rest⟩

def define (s : Scope) (name type : Symbol) : Scope :=
  { s with innermost := s.innermost.insert name type }

def lookup (s : Scope) (name : Symbol) : Option Symbol := s.levels.findSome? (·.get? name)

def probe (s : Scope) (name : Symbol) : Option Symbol := s.innermost.get? name

@[simp] theorem lookup_empty (name : Symbol) : empty.lookup name = none := rfl

@[simp] theorem lookup_push (s : Scope) (name : Symbol) : s.push.lookup name = s.lookup name := rfl

@[simp] theorem pop?_push (s : Scope) : s.push.pop? = some s := rfl

@[simp] theorem pop?_define_push (s : Scope) (name type : Symbol) :
    (s.push.define name type).pop? = some s := rfl

@[simp] theorem depth_push (s : Scope) : s.push.depth = s.depth + 1 := rfl

@[simp] theorem lookup_define (s : Scope) (name type x : Symbol) :
    (s.define name type).lookup x = if x = name then some type else s.lookup x := by
  by_cases h : x = name <;> simp [lookup, levels, define, List.findSome?_cons, h]

@[simp] theorem probe_define (s : Scope) (name type x : Symbol) :
    (s.define name type).probe x = if x = name then some type else s.probe x := by
  simp [probe, define]

end Scope
end CoolStatics
