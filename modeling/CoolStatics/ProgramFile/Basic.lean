import CoolStatics.Expr

/-!
Program files: parsed programs as they are stored. Names are plain text, and most lines may be left
out, as may the receiver of a dispatch and the initialiser of a variable.
-/
namespace CoolStatics

structure BranchEntry (ε : Type) where
  name : String
  type : String
  body : ε
  line : Option Line

inductive EntryForm (ε : Type)
  | assign (name : String) (value : ε)
  | dispatch (receiver : Option ε) (method : String) (args : List ε)
  | staticDispatch (receiver : ε) (type : String) (method : String) (args : List ε)
  | cond (pred yes no : ε)
  | loop (pred body : ε)
  | case (scrutinee : ε) (branches : List (BranchEntry ε))
  | block (body : List ε)
  | letIn (name type : String) (init : Option ε) (body : ε)
  | arith (op : ArithOp) (lhs rhs : ε)
  | compare (op : CompareOp) (lhs rhs : ε)
  | eq (lhs rhs : ε)
  | neg (operand : ε)
  | not (operand : ε)
  | isVoid (operand : ε)
  | int (value : Int64)
  | string (value : String)
  | bool (value : Bool)
  | new (type : String)
  | identifier (name : String)
  | absent

inductive ExprEntry
  | node (line : Option Line) (form : EntryForm ExprEntry)

structure FormalEntry where
  name : String
  type : String
  deriving DecidableEq, Repr

inductive FeatureEntry
  | method (name : String) (formals : List FormalEntry) (result : String) (body : ExprEntry)
      (line : Option Line)
  | attr (name type : String) (init : Option ExprEntry) (line : Option Line)

structure ClassEntry where
  name : String
  parent : Option String
  file : Option String
  line : Line
  features : List FeatureEntry

structure ProgramFile where
  classes : List ClassEntry

end CoolStatics
