import CoolStatics.Hierarchy.Registration
import CoolStatics.Scope
import CoolStatics.Typing.Report

/-!
The class in which expressions are typed, and the rules that give each form its type from the types
of its parts. A violated rule notes a fault and goes on with a type that is always there.
-/
namespace CoolStatics

/-- The declared type of a variable in a class: local bindings come first, then the attributes of
the class, then inherited ones. -/
def Scope.objectType? (s : Scope) (h : Hierarchy) (c name : Symbol) : Option Symbol :=
  (s.lookup name).or (h.findAttr? c name)

/-- The class whose features are being typed. -/
structure Context where
  hierarchy : Hierarchy
  current : Symbol
  file : String

namespace Context

variable (cx : Context)

def names : Vocabulary := cx.hierarchy.names

def conforms (ancestor descendant : Symbol) : Bool :=
  cx.hierarchy.conforms cx.current ancestor descendant

def join (a b : Symbol) : Report Symbol := .ofExcept (cx.hierarchy.join cx.current a b)

def note (line : Line) (cause : Cause) : Report Unit := .note ⟨cause, some ⟨cx.file, line⟩⟩

def noteAll (line : Line) (causes : List Cause) : Report Unit :=
  .noteAll (causes.map fun cause => ⟨cause, some ⟨cx.file, line⟩⟩)

/-- Notes the cause unless the rule is kept. -/
def require (kept : Bool) (line : Line) (cause : Cause) : Report Unit :=
  if kept then pure () else cx.note line cause

/-- An expression that breaks a rule is taken for an `Object`. -/
def fallBack (line : Line) (cause : Cause) : Report Symbol := do
  cx.note line cause
  pure (cx.names .object)

/-- The given type if the rule is kept. -/
def expect (kept : Bool) (line : Line) (cause : Cause) (type : Symbol) : Report Symbol :=
  if kept then pure type else cx.fallBack line cause

/-- Registered classes and `SELF_TYPE`. -/
def isKnown (type : Symbol) : Bool :=
  type = cx.names .selfType || cx.hierarchy.has type

/-- The type that a declared type is taken for. -/
def taken (type : Symbol) : Symbol :=
  if cx.isKnown type || type = cx.names .noType then type else cx.names .object

def objectType? (scope : Scope) (name : Symbol) : Option Symbol :=
  scope.objectType? cx.hierarchy cx.current name

def identifierType (scope : Scope) (line : Line) (name : Symbol) : Report Symbol :=
  if name = cx.names .self then pure (cx.names .selfType)
  else match cx.objectType? scope name with
    | some type => pure (cx.taken type)
    | none => cx.fallBack line (.undeclared name)

/-- An assignment has the type of its value, or of the variable where the value does not fit. -/
def assignType (scope : Scope) (line : Line) (name value : Symbol) : Report Symbol :=
  if name = cx.names .self then cx.fallBack line .assignToSelf
  else match cx.objectType? scope name with
    | none => cx.fallBack line (.undeclared name)
    | some type => do
      let declared := cx.taken type
      if cx.conforms declared value then pure value
      else
        cx.note line (.assignedValue name declared value)
        pure declared

def misfits (args : List (Formal × Symbol)) : List (Formal × Symbol) :=
  args.filter fun (formal, actual) => !cx.conforms formal.type actual

/-- The result of a call; a method that returns `SELF_TYPE` returns the type of the receiver. -/
def resultType (line : Line) (method receiver result : Symbol) : Report Symbol :=
  if result = cx.names .selfType then pure receiver
  else cx.expect (cx.hierarchy.has result) line (.undefinedCallResult method result) result

/-- A call of the method that `owner` has, declared or inherited. -/
def callType (line : Line) (owner method receiver : Symbol) (args : List Symbol) : Report Symbol :=
  match cx.hierarchy.findMethod? owner method with
  | none => cx.fallBack line (.undefinedMethod method)
  | some s =>
    if s.arity = args.length then do
      let misfits := cx.misfits (s.formals.zip args)
      cx.noteAll line <| misfits.map fun (formal, actual) =>
        .argument method formal.name formal.type actual
      if misfits.isEmpty then cx.resultType line method receiver s.result
      else pure (cx.names .object)
    else cx.fallBack line (.argumentCount method s.arity args.length)

def dispatchType (line : Line) (method receiver : Symbol) (args : List Symbol) : Report Symbol :=
  let owner := cx.hierarchy.denoted cx.current receiver
  if cx.hierarchy.has owner then cx.callType line owner method receiver args
  else cx.fallBack line (.undefinedDispatchClass receiver)

def staticDispatchType (line : Line) (owner method receiver : Symbol) (args : List Symbol) :
    Report Symbol :=
  if owner = cx.names .selfType ∨ cx.hierarchy.has owner = false then
    cx.fallBack line (.undefinedStaticType owner)
  else if cx.conforms owner receiver then cx.callType line owner method receiver args
  else cx.fallBack line (.staticReceiver owner receiver)

def checkPredicate (of : Guarded) (line : Line) (type : Symbol) : Report Unit :=
  cx.require (type = cx.names .bool) line (.predicate of)

def arithType (op : ArithOp) (line : Line) (lhs rhs : Symbol) : Report Symbol :=
  cx.expect (lhs = cx.names .int && rhs = cx.names .int) line (.nonIntArith op lhs rhs)
    (cx.names .int)

def compareType (op : CompareOp) (line : Line) (lhs rhs : Symbol) : Report Symbol :=
  cx.expect (lhs = cx.names .int && rhs = cx.names .int) line (.nonIntCompare op lhs rhs)
    (cx.names .bool)

/-- Primitive values may only be compared with values of the same class. -/
def eqType (line : Line) (lhs rhs : Symbol) : Report Symbol :=
  cx.expect (lhs = rhs || !(cx.names.isPrimitive lhs || cx.names.isPrimitive rhs)) line
    (.basicComparison lhs rhs) (cx.names .bool)

def negType (line : Line) (operand : Symbol) : Report Symbol :=
  cx.expect (operand = cx.names .int) line (.nonIntNegation operand) (cx.names .int)

def notType (line : Line) (operand : Symbol) : Report Symbol :=
  cx.expect (operand = cx.names .bool) line (.nonBoolNot operand) (cx.names .bool)

def newType (line : Line) (type : Symbol) : Report Symbol :=
  cx.expect (cx.isKnown type) line (.undefinedNew type) type

def letType (line : Line) (name type : Symbol) : Report Symbol := do
  let declared ← cx.expect (cx.isKnown type) line (.undefinedLetType name type) type
  cx.require (name ≠ cx.names .self) line .selfLet
  pure declared

/-- A nested scope with one binding; `self` cannot be bound. -/
def extend (scope : Scope) (name type : Symbol) : Scope :=
  if name = cx.names .self then scope.push else scope.push.define name type

/-- The scope of a branch, whose type may not be among those of the branches before it. -/
def branchScope (scope : Scope) (before : List Symbol) (line : Line) (name type : Symbol) :
    Report Scope := do
  cx.require (!before.contains type) line (.duplicateBranch type)
  cx.require (cx.isKnown type) line (.undefinedBranchType type)
  cx.require (name ≠ cx.names .self) line .selfBranch
  pure (cx.extend scope name (if cx.isKnown type then type else cx.names .object))

/-- The type that a branch contributes to its case. -/
def branchType (type body : Symbol) : Symbol :=
  if cx.isKnown type then body else cx.names .object

/-- Binds the formals of a method in the innermost level, where none may stand twice. -/
def bindFormals (scope : Scope) : List Formal → Report Scope
  | [] => pure scope
  | f :: rest =>
    if f.name = cx.names .self then do
      cx.note f.line .selfFormal
      bindFormals scope rest
    else do
      cx.require (scope.probe f.name).isNone f.line (.duplicateFormal f.name)
      let type ← cx.expect (f.type ≠ cx.names .selfType && cx.hierarchy.has f.type) f.line
        (.invalidFormalType f.name f.type) f.type
      bindFormals (scope.define f.name type) rest

end Context

/-- The first way in which a method departs from an inherited signature. -/
def Method.departure? (m : Method) (s : Signature) : Option Departure :=
  if m.formals.length ≠ s.arity then some (.count m.formals.length s.arity)
  else match ((m.formals.map (·.type)).zip s.types).find? fun p => p.1 ≠ p.2 with
    | some p => some (.parameter p.1 p.2)
    | none => if m.result ≠ s.result then some (.result m.result s.result) else none

end CoolStatics
