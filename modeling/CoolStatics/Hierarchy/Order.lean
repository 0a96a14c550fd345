import CoolStatics.Hierarchy.Basic

/-!
Conformance and joins. Both take the class that is being checked, for which `SELF_TYPE` stands.
-/
namespace CoolStatics

/-- Two types without a registered class above both. -/
structure NoCommonAncestor where
  left : Symbol
  right : Symbol
  deriving DecidableEq, Repr

def NoCommonAncestor.message (f : NoCommonAncestor) : String :=
  "no common ancestor for " ++ f.left.text ++ " and " ++ f.right.text ++
    ": type outside the class tree"

namespace Hierarchy

/-- The class whose members a type has. -/
def denoted (h : Hierarchy) (current type : Symbol) : Symbol :=
  if type = h.names .selfType then current else type

/-- Whether a value of type `descendant` may stand where `ancestor` is declared: `_no_type` may
stand anywhere, and where `SELF_TYPE` is declared only `SELF_TYPE` may. -/
def conforms (h : Hierarchy) (current ancestor descendant : Symbol) : Bool :=
  if descendant = h.names .noType then true
  else if ancestor = h.names .selfType then descendant = h.names .selfType
  else
    let d := h.denoted current descendant
    d = h.names .noType || ancestor = d || (h.chain d).contains ancestor

/-- The nearest class above both types: `_no_type` is neutral, and equal types, two `SELF_TYPE`s
among them, join to themselves. -/
def join (h : Hierarchy) (current a b : Symbol) : Except NoCommonAncestor Symbol :=
  if a = h.names .noType then .ok b
  else if b = h.names .noType ∨ a = b then .ok a
  else
    let left := h.denoted current a
    let right := h.denoted current b
    match (h.lineage right).find? (h.lineage left).contains with
    | some c => .ok c
    | none => .error ⟨left, right⟩

end Hierarchy
end CoolStatics
