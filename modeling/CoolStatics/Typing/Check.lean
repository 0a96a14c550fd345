import CoolStatics.Typing.Context

/-!
Typing of expressions and features. Every node is annotated with its type, also where a rule is
violated, and nothing else about the program changes.
-/
namespace CoolStatics

namespace Expr

/-- A node with its type, and the type beside it. -/
def typed (line : Line) (type : Symbol) (form : Form Expr) : Symbol × Expr :=
  (type, node line (some type) form)

mutual

def check (cx : Context) (scope : Scope) : Expr → Report (Symbol × Expr)
  | node line _ form =>
    match form with
    | .assign name value => do
      let (t, value) ← value.check cx scope
      let type ← cx.assignType scope line name t
      pure (typed line type (.assign name value))
    | .dispatch receiver method args => do
      let (r, receiver) ← receiver.check cx scope
      let args ← checkList cx scope args
      let type ← cx.dispatchType line method r (args.map (·.1))
      pure (typed line type (.dispatch receiver method (args.map (·.2))))
    | .staticDispatch receiver owner method args => do
      let (r, receiver) ← receiver.check cx scope
      let args ← checkList cx scope args
      let type ← cx.staticDispatchType line owner method r (args.map (·.1))
      pure (typed line type (.staticDispatch receiver owner method (args.map (·.2))))
    | .cond pred yes no => do
      let (p, pred) ← pred.check cx scope
      cx.checkPredicate .cond pred.line p
      let (y, yes) ← yes.check cx scope
      let (n, no) ← no.check cx scope
      let type ← cx.join y n
      pure (typed line type (.cond pred yes no))
    | .loop pred body => do
      let (p, pred) ← pred.check cx scope
      cx.checkPredicate .loop pred.line p
      let (_, body) ← body.check cx scope
      pure (typed line (cx.names .object) (.loop pred body))
    | .case scrutinee branches => do
      let (_, scrutinee) ← scrutinee.check cx scope
      let (type, branches) ← checkBranches cx scope [] (cx.names .noType) branches
      pure (typed line type (.case scrutinee branches))
    | .block body => do
      let body ← checkList cx scope body
      let type := (body.getLast?.map (·.1)).getD (cx.names .noType)
      pure (typed line type (.block (body.map (·.2))))
    | .letIn name type init body => do
      let declared ← cx.letType line name type
      let (i, init) ← init.check cx scope
      cx.require (cx.conforms declared i) line (.letInit name declared i)
      let (b, body) ← body.check cx (cx.extend scope name declared)
      pure (typed line b (.letIn name type init body))
    | .arith op lhs rhs => do
      let (l, lhs) ← lhs.check cx scope
      let (r, rhs) ← rhs.check cx scope
      let type ← cx.arithType op line l r
      pure (typed line type (.arith op lhs rhs))
    | .compare op lhs rhs => do
      let (l, lhs) ← lhs.check cx scope
      let (r, rhs) ← rhs.check cx scope
      let type ← cx.compareType op line l r
      pure (typed line type (.compare op lhs rhs))
    | .eq lhs rhs => do
      let (l, lhs) ← lhs.check cx scope
      let (r, rhs) ← rhs.check cx scope
      let type ← cx.eqType line l r
      pure (typed line type (.eq lhs rhs))
    | .neg operand => do
      let (o, operand) ← operand.check cx scope
      let type ← cx.negType line o
      pure (typed line type (.neg operand))
    | .not operand => do
      let (o, operand) ← operand.check cx scope
      let type ← cx.notType line o
      pure (typed line type (.not operand))
    | .isVoid operand => do
      let (_, operand) ← operand.check cx scope
      pure (typed line (cx.names .bool) (.isVoid operand))
    | .int value => pure (typed line (cx.names .int) (.int value))
    | .string value => pure (typed line (cx.names .string) (.string value))
    | .bool value => pure (typed line (cx.names .bool) (.bool value))
    | .new type => do
      let t ← cx.newType line type
      pure (typed line t (.new type))
    | .identifier name => do
      let t ← cx.identifierType scope line name
      pure (typed line t (.identifier name))
    | .absent => pure (typed line (cx.names .noType) .absent)

def checkList (cx : Context) (scope : Scope) : List Expr → Report (List (Symbol × Expr))
  | [] => pure []
  | e :: rest => do
    let checked ← e.check cx scope
    let others ← checkList cx scope rest
    pure (checked :: others)

/-- Checks branches from left to right, where `before` are the types of those already checked and
`soFar` is the join of what they contribute. -/
def checkBranches (cx : Context) (scope : Scope) (before : List Symbol) (soFar : Symbol) :
    List (Branch Expr) → Report (Symbol × List (Branch Expr))
  | [] => pure (soFar, [])
  | ⟨name, type, body, line⟩ :: rest => do
    let inner ← cx.branchScope scope before line name type
    let (b, body) ← body.check cx inner
    let joined ← cx.join soFar (cx.branchType type b)
    let (all, others) ← checkBranches cx scope (type :: before) joined rest
    pure (all, ⟨name, type, body, line⟩ :: others)

end

end Expr

namespace Context

def checkMethod (cx : Context) (scope : Scope) (m : Method) : Report Method := do
  match (cx.hierarchy.inheritedMethod? cx.current m.name).bind m.departure? with
  | some how => cx.note m.line (.overrideDeparts m.name how)
  | none => pure ()
  let declared ← cx.expect (cx.isKnown m.result) m.line (.undefinedResult m.name m.result) m.result
  let inner ← cx.bindFormals scope.push m.formals
  let (b, body) ← m.body.check cx inner.push
  cx.require (cx.conforms declared b) m.line (.methodResult m.name declared b)
  pure { m with body }

def checkAttr (cx : Context) (scope : Scope) (a : Attribute) : Report Attribute := do
  cx.require (a.name = cx.names .self || (cx.hierarchy.inheritedAttr? cx.current a.name).isNone)
    a.line (.attributeInherited a.name)
  let declared ← cx.expect (cx.isKnown a.type) a.line (.undefinedAttributeType a.name a.type) a.type
  let (i, init) ← a.init.check cx scope.push
  cx.require (cx.conforms declared i) a.line (.attributeInit a.name declared i)
  pure { a with init }

def checkFeature (cx : Context) (scope : Scope) : Feature → Report Feature
  | .method m => return .method (← cx.checkMethod scope m)
  | .attr a => return .attr (← cx.checkAttr scope a)

/-- The level that all features of a class share. -/
def classScope (cx : Context) : Scope := Scope.empty.define (cx.names .self) (cx.names .selfType)

def checkFeatures (cx : Context) : List Feature → Report (List Feature)
  | [] => pure []
  | f :: rest => do
    let checked ← cx.checkFeature cx.classScope.push f
    let others ← checkFeatures cx rest
    pure (checked :: others)

end Context

namespace ClassDecl

def context (c : ClassDecl) (h : Hierarchy) : Context := ⟨h, c.name, c.file⟩

def check (h : Hierarchy) (c : ClassDecl) : Report ClassDecl := do
  let features ← (c.context h).checkFeatures c.features
  pure { c with features }

end ClassDecl
end CoolStatics
