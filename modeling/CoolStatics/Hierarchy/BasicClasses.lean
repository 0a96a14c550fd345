import CoolStatics.Hierarchy.Basic

/-!
The classes that every program starts from. Their methods have no bodies.
-/
namespace CoolStatics
namespace BasicClasses

def file : String := "<basic class>"

def method (name : Symbol) (formals : List (Symbol × Symbol)) (result : Symbol) : Feature :=
  .method ⟨name, formals.map fun f => ⟨f.1, f.2, 0⟩, result, Expr.absent 0, 0⟩

def attr (name type : Symbol) : Feature := .attr ⟨name, type, Expr.absent 0, 0⟩

variable (names : Vocabulary)

def object : ClassDecl :=
  { name := names .object, parent := names .noClass, file, line := 0
    features :=
      [method (names .abort) [] (names .object),
        method (names .typeName) [] (names .string),
        method (names .copy) [] (names .selfType)] }

def int : ClassDecl :=
  { name := names .int, parent := names .object, file, line := 0
    features := [attr (names .val) (names .primSlot)] }

def io : ClassDecl :=
  { name := names .io, parent := names .object, file, line := 0
    features :=
      [method (names .outString) [(names .arg, names .string)] (names .selfType),
        method (names .outInt) [(names .arg, names .int)] (names .selfType),
        method (names .inString) [] (names .string),
        method (names .inInt) [] (names .int)] }

def bool : ClassDecl :=
  { name := names .bool, parent := names .object, file, line := 0
    features := [attr (names .val) (names .primSlot)] }

/-- A string holds its length in `_val` and its characters in `_str_field`. -/
def string : ClassDecl :=
  { name := names .string, parent := names .object, file, line := 0
    features :=
      [attr (names .val) (names .int),
        attr (names .strField) (names .primSlot),
        method (names .length) [] (names .int),
        method (names .concat) [(names .arg, names .string)] (names .string),
        method (names .substr) [(names .arg, names .int), (names .arg2, names .int)]
          (names .string)] }

def all : List ClassDecl := [object names, int names, io names, bool names, string names]

end BasicClasses

namespace Vocabulary

/-- Names that no class of a program may take. -/
def isReserved (v : Vocabulary) (name : Symbol) : Bool :=
  name = v .object || name = v .io || name = v .int || name = v .bool || name = v .string ||
    name = v .selfType

/-- Names that no class of a program may inherit. -/
def isSealed (v : Vocabulary) (parent : Symbol) : Bool :=
  parent = v .selfType || parent = v .int || parent = v .bool || parent = v .string

end Vocabulary
end CoolStatics
