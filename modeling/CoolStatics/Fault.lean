import CoolStatics.Diagnostic
import CoolStatics.Expr

/-!
Violations of the language's rules. A cause names what was violated by symbols only; its wording
needs the interner that issued them.
-/
namespace CoolStatics

/-- Why a class may not enter the hierarchy. -/
inductive Rejection
  | reservedName (name : Symbol)
  | sealedParent (name parent : Symbol)
  | redefined (name : Symbol)
  | cyclic (name : Symbol)
  deriving DecidableEq, Repr

/-- The first way in which a method departs from the one that it overrides. -/
inductive Departure
  | count (found inherited : Nat)
  | parameter (found inherited : Symbol)
  | result (found inherited : Symbol)
  deriving DecidableEq, Repr

inductive Guarded
  | cond
  | loop
  deriving DecidableEq, Repr

def Guarded.keyword : Guarded → String
  | cond => "if"
  | loop => "while"

inductive Cause
  -- entering a class and its features
  | rejected (why : Rejection)
  | methodRedefined (owner method : Symbol)
  | attributeRedefined (owner attr : Symbol)
  | selfAttribute
  -- the program as a whole
  | noMainClass
  | noMainMethod
  | mainHasParameters
  | undefinedParent (name parent : Symbol)
  -- features
  | attributeInherited (attr : Symbol)
  | undefinedAttributeType (attr type : Symbol)
  | attributeInit (attr declared actual : Symbol)
  | selfFormal
  | duplicateFormal (name : Symbol)
  | invalidFormalType (name type : Symbol)
  | undefinedResult (method type : Symbol)
  | overrideDeparts (method : Symbol) (how : Departure)
  | methodResult (method declared actual : Symbol)
  -- expressions
  | assignToSelf
  | undeclared (name : Symbol)
  | assignedValue (name declared actual : Symbol)
  | undefinedDispatchClass (type : Symbol)
  | undefinedMethod (method : Symbol)
  | argumentCount (method : Symbol) (expected found : Nat)
  | argument (method param expected actual : Symbol)
  | undefinedCallResult (method type : Symbol)
  | undefinedStaticType (type : Symbol)
  | staticReceiver (declared actual : Symbol)
  | predicate (of : Guarded)
  | duplicateBranch (type : Symbol)
  | undefinedBranchType (type : Symbol)
  | selfBranch
  | undefinedLetType (name type : Symbol)
  | selfLet
  | letInit (name declared actual : Symbol)
  | nonIntArith (op : ArithOp) (lhs rhs : Symbol)
  | nonIntCompare (op : CompareOp) (lhs rhs : Symbol)
  | nonIntNegation (actual : Symbol)
  | basicComparison (lhs rhs : Symbol)
  | nonBoolNot (actual : Symbol)
  | undefinedNew (type : Symbol)
  deriving DecidableEq, Repr

def Rejection.message (i : Interner) : Rejection → String
  | reservedName name => "Redefinition of basic class " ++ i.resolve name
  | sealedParent name parent =>
    "Class " ++ i.resolve name ++ " cannot inherit class " ++ i.resolve parent
  | redefined name => "Class " ++ i.resolve name ++ " was previously defined"
  | cyclic name =>
    "Class " ++ i.resolve name ++ ", or an ancestor of " ++ i.resolve name ++
      ", is involved in an inheritance cycle"

def Departure.message (i : Interner) : Departure → String
  | count found inherited =>
    "number of formal parameters " ++ found.repr ++ " is different from original number " ++
      inherited.repr
  | parameter found inherited =>
    "parameter type " ++ i.resolve found ++ " is different from original type " ++
      i.resolve inherited
  | result found inherited =>
    "return type " ++ i.resolve found ++ " is different from original return type " ++
      i.resolve inherited

namespace Cause

def message (i : Interner) : Cause → String
  | rejected why => why.message i
  | methodRedefined owner method =>
    "Method " ++ i.resolve method ++ " is multiply defined in class " ++ i.resolve owner
  | attributeRedefined owner attr =>
    "Attribute " ++ i.resolve attr ++ " is multiply defined in class " ++ i.resolve owner
  | selfAttribute => "'self' cannot be the name of an attribute"
  | noMainClass => "Class Main is not defined"
  | noMainMethod => "No 'main' method in class Main"
  | mainHasParameters => "'main' method in class Main should have no arguments"
  | undefinedParent name parent =>
    "Class " ++ i.resolve name ++ " inherits from an undefined class " ++ i.resolve parent
  | attributeInherited attr =>
    "Attribute " ++ i.resolve attr ++ " is an attribute of an inherited class"
  | undefinedAttributeType attr type =>
    "Class " ++ i.resolve type ++ " of attribute " ++ i.resolve attr ++ " is undefined"
  | attributeInit attr declared actual =>
    "Inferred type " ++ i.resolve actual ++ " of initialization of attribute " ++ i.resolve attr ++
      " does not conform to declared type " ++ i.resolve declared
  | selfFormal => "'self' cannot be the name of a formal parameter"
  | duplicateFormal name => "Formal parameter " ++ i.resolve name ++ " is multiply defined"
  | invalidFormalType name type =>
    "Formal parameter " ++ i.resolve name ++ " cannot have type " ++ i.resolve type
  | undefinedResult method type =>
    "Undefined return type " ++ i.resolve type ++ " in method " ++ i.resolve method
  | overrideDeparts method how =>
    "In redefined method " ++ i.resolve method ++ ", " ++ how.message i
  | methodResult method declared actual =>
    "Inferred return type " ++ i.resolve actual ++ " of method " ++ i.resolve method ++
      " does not conform to declared return type " ++ i.resolve declared
  | assignToSelf => "Cannot assign to 'self'"
  | undeclared name => "Undeclared identifier " ++ i.resolve name
  | assignedValue name declared actual =>
    "Type " ++ i.resolve actual ++ " of assigned expression does not conform to declared type " ++
      i.resolve declared ++ " of identifier " ++ i.resolve name
  | undefinedDispatchClass type => "Dispatch on undefined class " ++ i.resolve type
  | undefinedMethod method => "Dispatch to undefined method " ++ i.resolve method
  | argumentCount method expected found =>
    "Method " ++ i.resolve method ++ " called with wrong number of arguments: expected " ++
      expected.repr ++ ", found " ++ found.repr
  | argument method param expected actual =>
    "In call of method " ++ i.resolve method ++ ", type " ++ i.resolve actual ++ " of parameter " ++
      i.resolve param ++ " does not conform to declared type " ++ i.resolve expected
  | undefinedCallResult method type =>
    "Return type " ++ i.resolve type ++ " of method " ++ i.resolve method ++
      " is not a defined class"
  | undefinedStaticType type => "Static dispatch to undefined class " ++ i.resolve type
  | staticReceiver declared actual =>
    "Expression type " ++ i.resolve actual ++
      " does not conform to declared static dispatch type " ++ i.resolve declared
  | predicate of => "Predicate of '" ++ of.keyword ++ "' does not have type Bool"
  | duplicateBranch type => "Duplicate branch " ++ i.resolve type ++ " in case statement"
  | undefinedBranchType type => "Class " ++ i.resolve type ++ " of case branch is undefined"
  | selfBranch => "'self' bound in 'case'"
  | undefinedLetType name type =>
    "Class " ++ i.resolve type ++ " of let-bound identifier " ++ i.resolve name ++ " is undefined"
  | selfLet => "'self' cannot be bound in a 'let' expression"
  | letInit name declared actual =>
    "Inferred type " ++ i.resolve actual ++ " of initialization of " ++ i.resolve name ++
      " does not conform to identifier's declared type " ++ i.resolve declared
  | nonIntArith op lhs rhs =>
    "non-Int arguments: " ++ i.resolve lhs ++ " " ++ op.text ++ " " ++ i.resolve rhs
  | nonIntCompare op lhs rhs =>
    "non-Int arguments: " ++ i.resolve lhs ++ " " ++ op.text ++ " " ++ i.resolve rhs
  | nonIntNegation actual => "Argument of '~' has type " ++ i.resolve actual ++ " instead of Int"
  | basicComparison lhs rhs =>
    "Illegal comparison with a basic type: " ++ i.resolve lhs ++ " = " ++ i.resolve rhs
  | nonBoolNot actual => "Argument of 'not' has type " ++ i.resolve actual ++ " instead of Bool"
  | undefinedNew type => "'new' used with undefined class " ++ i.resolve type

def hint : Cause → Option String
  | rejected (.sealedParent ..) => some "Only Object, IO and user-defined classes can be inherited"
  | noMainMethod | mainHasParameters =>
    some "Declare `main(): Object \x7b ... \x7d;` in class Main"
  | overrideDeparts .. =>
    some "An overriding method must repeat the inherited parameter and return types exactly"
  | basicComparison .. => some "Int, Bool and String can only be compared with the same type"
  | _ => none

end Cause

/-- A violated rule and where; a fault of the program as a whole has no place. -/
structure Fault where
  cause : Cause
  place : Option Place
  deriving DecidableEq, Repr

def Fault.diagnostic (i : Interner) (f : Fault) : Diagnostic :=
  ⟨f.cause.message i, f.place, f.cause.hint⟩

end CoolStatics
