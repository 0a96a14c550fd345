import CoolStatics.Predefined
import CoolStatics.Program
import CoolStatics.ProgramFile.Basic

/-!
From a program file to a program: names are interned and what the file leaves out is filled in. A
node without a line has the line of the node around it. Blocks and cases may not be empty.
-/
namespace CoolStatics

inductive EmptyForm
  | block
  | case
  deriving DecidableEq, Repr

/-- A block without expressions, or a case without branches. -/
structure EmptyNode where
  form : EmptyForm
  place : Place
  deriving DecidableEq, Repr

/-- Interning may precede a failure, so the interner outlasts it. -/
abbrev Lowering := ExceptT EmptyNode (StateM Interner)

namespace Lowering

def intern (text : String) : Lowering Symbol := fun i =>
  let (s, i) := i.intern text
  (.ok s, i)

def refuse {α : Type} (form : EmptyForm) (file : String) (line : Line) : Lowering α :=
  throw ⟨form, file, line⟩

end Lowering

open Lowering

namespace ExprEntry

mutual

/-- The expression of an entry in a class of `file`, inside a node at line `outer`. -/
def lower (file : String) (outer : Line) : ExprEntry → Lowering Expr
  | node own form =>
    let line := own.getD outer
    match form with
    | .assign x value => do
      let x ← intern x
      let value ← lower file line value
      return .plain line (.assign x value)
    | .dispatch none m args => do
      let self ← intern (Predefined.text .self)
      let m ← intern m
      let args ← lowerList file line args
      return .plain line (.dispatch (.plain line (.identifier self)) m args)
    | .dispatch (some receiver) m args => do
      let receiver ← lower file line receiver
      let m ← intern m
      let args ← lowerList file line args
      return .plain line (.dispatch receiver m args)
    | .staticDispatch receiver type m args => do
      let receiver ← lower file line receiver
      let type ← intern type
      let m ← intern m
      let args ← lowerList file line args
      return .plain line (.staticDispatch receiver type m args)
    | .cond pred yes no => do
      let pred ← lower file line pred
      let yes ← lower file line yes
      let no ← lower file line no
      return .plain line (.cond pred yes no)
    | .loop pred body => do
      let pred ← lower file line pred
      let body ← lower file line body
      return .plain line (.loop pred body)
    | .case _ [] => refuse .case file line
    | .case scrutinee (b :: bs) => do
      let scrutinee ← lower file line scrutinee
      let branches ← lowerBranches file line (b :: bs)
      return .plain line (.case scrutinee branches)
    | .block [] => refuse .block file line
    | .block (e :: es) => do
      let body ← lowerList file line (e :: es)
      return .plain line (.block body)
    | .letIn x type none body => do
      let x ← intern x
      let type ← intern type
      let body ← lower file line body
      return .plain line (.letIn x type (.absent line) body)
    | .letIn x type (some init) body => do
      let x ← intern x
      let type ← intern type
      let init ← lower file line init
      let body ← lower file line body
      return .plain line (.letIn x type init body)
    | .arith op lhs rhs => do
      let lhs ← lower file line lhs
      let rhs ← lower file line rhs
      return .plain line (.arith op lhs rhs)
    | .compare op lhs rhs => do
      let lhs ← lower file line lhs
      let rhs ← lower file line rhs
      return .plain line (.compare op lhs rhs)
    | .eq lhs rhs => do
      let lhs ← lower file line lhs
      let rhs ← lower file line rhs
      return .plain line (.eq lhs rhs)
    | .neg operand => do
      let operand ← lower file line operand
      return .plain line (.neg operand)
    | .not operand => do
      let operand ← lower file line operand
      return .plain line (.not operand)
    | .isVoid operand => do
      let operand ← lower file line operand
      return .plain line (.isVoid operand)
    | .int value => return .plain line (.int value)
    | .string value => return .plain line (.string value)
    | .bool value => return .plain line (.bool value)
    | .new type => do
      let type ← intern type
      return .plain line (.new type)
    | .identifier x => do
      let x ← intern x
      return .plain line (.identifier x)
    | .absent => return .plain line .absent

def lowerList (file : String) (outer : Line) : List ExprEntry → Lowering (List Expr)
  | [] => return []
  | e :: rest => do
    let e ← lower file outer e
    let rest ← lowerList file outer rest
    return e :: rest

def lowerBranches (file : String) (outer : Line) :
    List (BranchEntry ExprEntry) → Lowering (List (Branch Expr))
  | [] => return []
  | ⟨x, type, body, own⟩ :: rest => do
    let line := own.getD outer
    let x ← intern x
    let type ← intern type
    let body ← lower file line body
    let rest ← lowerBranches file outer rest
    return ⟨x, type, body, line⟩ :: rest

end

end ExprEntry

def FormalEntry.lower (line : Line) (f : FormalEntry) : Lowering Formal := do
  let x ← intern f.name
  let type ← intern f.type
  return ⟨x, type, line⟩

def FeatureEntry.lower (file : String) (outer : Line) : FeatureEntry → Lowering Feature
  | .method m formals result body own => do
    let line := own.getD outer
    let m ← intern m
    let formals ← formals.mapM (·.lower line)
    let result ← intern result
    let body ← body.lower file line
    return .method ⟨m, formals, result, body, line⟩
  | .attr x type init own => do
    let line := own.getD outer
    let x ← intern x
    let type ← intern type
    let init ← match init with
      | none => pure (Expr.absent line)
      | some init => init.lower file line
    return .attr ⟨x, type, init, line⟩

/-- A class without a parent inherits `Object`, and one without a file has the given one. -/
def ClassEntry.lower (defaultFile : String) (c : ClassEntry) : Lowering ClassDecl := do
  let file := c.file.getD defaultFile
  let features ← c.features.mapM (·.lower file c.line)
  let x ← intern c.name
  let parent ← intern (c.parent.getD (Predefined.text .object))
  return ⟨x, parent, features, file, c.line⟩

def ProgramFile.lower (defaultFile : String) (f : ProgramFile) : Lowering Program := do
  let classes ← f.classes.mapM (·.lower defaultFile)
  return ⟨classes⟩

end CoolStatics
