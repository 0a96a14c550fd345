import CoolStatics.Symbol

/-!
Names that the language itself gives a meaning to, and their symbols in a given interner.
-/
namespace CoolStatics

inductive Predefined
  | object | io | int | bool | string
  | selfType | noClass | noType
  | self | mainClass | mainMethod
  | primSlot | val | strField | arg | arg2
  | abort | typeName | copy
  | outString | outInt | inString | inInt
  | length | concat | substr
  deriving DecidableEq, Repr

namespace Predefined

/-- Every predefined name, in the order in which they are interned. -/
def all : List Predefined :=
  [object, io, int, bool, string, selfType, noClass, noType, self, mainClass, mainMethod,
    primSlot, val, strField, arg, arg2, abort, typeName, copy, outString, outInt, inString, inInt,
    length, concat, substr]

def text : Predefined → String
  | object => "Object" | io => "IO" | int => "Int" | bool => "Bool" | string => "String"
  | selfType => "SELF_TYPE" | noClass => "_no_class" | noType => "_no_type"
  | self => "self" | mainClass => "Main" | mainMethod => "main"
  | primSlot => "_prim_slot" | val => "_val" | strField => "_str_field"
  | arg => "arg" | arg2 => "arg2"
  | abort => "abort" | typeName => "type_name" | copy => "copy"
  | outString => "out_string" | outInt => "out_int"
  | inString => "in_string" | inInt => "in_int"
  | length => "length" | concat => "concat" | substr => "substr"

theorem all_ctorIdx (p : Predefined) : all[p.ctorIdx]? = some p := by
  cases p <;> rfl

theorem ctorIdx_lt (p : Predefined) : p.ctorIdx < all.length :=
  (List.getElem?_eq_some_iff.mp (all_ctorIdx p)).1

theorem nodup_text : (all.map text).Nodup := by decide

end Predefined

/-- One symbol for each predefined name, in the order of `Predefined.all`. -/
structure Vocabulary where
  symbols : List Symbol
  length_eq : symbols.length = Predefined.all.length
  nodup : symbols.Nodup
  deriving DecidableEq

namespace Vocabulary

def symbol (v : Vocabulary) (p : Predefined) : Symbol :=
  v.symbols.get ⟨p.ctorIdx, v.length_eq ▸ p.ctorIdx_lt⟩

instance : CoeFun Vocabulary fun _ => Predefined → Symbol := ⟨symbol⟩

theorem symbol_injective (v : Vocabulary) {p q : Predefined} (h : v p = v q) : p = q := by
  have hi : p.ctorIdx = q.ctorIdx := (List.getElem_inj v.nodup).mp h
  have hp := Predefined.all_ctorIdx p
  rw [hi, Predefined.all_ctorIdx q] at hp
  exact (Option.some.inj hp).symm

@[simp] theorem symbol_inj (v : Vocabulary) {p q : Predefined} : v p = v q ↔ p = q :=
  ⟨v.symbol_injective, fun h => h ▸ rfl⟩

def intern (i : Interner) : Vocabulary × Interner :=
  let named := i.internAll (Predefined.all.map Predefined.text)
  (⟨named.1, by simp [named, Interner.length_internAll],
    Interner.nodup_internAll Predefined.nodup_text i⟩, named.2)

/-- Classes whose values are compared by content. -/
def isPrimitive (v : Vocabulary) (s : Symbol) : Bool :=
  s = v .int || s = v .bool || s = v .string

end Vocabulary
end CoolStatics
