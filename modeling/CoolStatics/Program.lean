import CoolStatics.Expr

/-!
Programs: classes with their features.
-/
namespace CoolStatics

structure Formal where
  name : Symbol
  type : Symbol
  line : Line
  deriving DecidableEq, Repr

structure Method where
  name : Symbol
  formals : List Formal
  result : Symbol
  body : Expr
  line : Line

/-- An attribute without an initialiser has the absent expression as `init`. -/
structure Attribute where
  name : Symbol
  type : Symbol
  init : Expr
  line : Line

inductive Feature
  | method (m : Method)
  | attr (a : Attribute)

namespace Feature

def line : Feature → Line
  | method m => m.line
  | attr a => a.line

def body : Feature → Expr
  | method m => m.body
  | attr a => a.init

def method? : Feature → Option Method
  | method m => some m
  | attr _ => none

def attr? : Feature → Option Attribute
  | method _ => none
  | attr a => some a

end Feature

structure ClassDecl where
  name : Symbol
  parent : Symbol
  features : List Feature
  file : String
  line : Line

namespace ClassDecl

def methods (c : ClassDecl) : List Method := c.features.filterMap (·.method?)

def attributes (c : ClassDecl) : List Attribute := c.features.filterMap (·.attr?)

def place (c : ClassDecl) : Place := ⟨c.file, c.line⟩

def walk (c : ClassDecl) : List Expr := c.features.flatMap (·.body.walk)

end ClassDecl

structure Program where
  classes : List ClassDecl

namespace Program

/-- Every expression of the program beside the class it stands in. -/
def walk (p : Program) : List (ClassDecl × Expr) :=
  p.classes.flatMap fun c => c.walk.map (c, ·)

end Program
end CoolStatics
