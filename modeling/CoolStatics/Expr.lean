import CoolStatics.Place
import CoolStatics.Symbol

/-!
Expressions. `Form` gives the shape of one node over an arbitrary type of sub-expressions, and an
expression is a node of that shape with its line and, once it has been typed, its type. What holds
of a node whenever it holds of its `children` holds of every expression (`Expr.induct`).
-/
namespace CoolStatics

inductive ArithOp
  | add | sub | mul | div
  deriving DecidableEq, Repr

def ArithOp.text : ArithOp → String
  | add => "+" | sub => "-" | mul => "*" | div => "/"

inductive CompareOp
  | lt | le
  deriving DecidableEq, Repr

def CompareOp.text : CompareOp → String
  | lt => "<" | le => "<="

/-- One alternative of a case: the value is bound to `name` if its class conforms to `type`. -/
structure Branch (ε : Type) where
  name : Symbol
  type : Symbol
  body : ε
  line : Line

inductive Form (ε : Type)
  | assign (name : Symbol) (value : ε)
  | dispatch (receiver : ε) (method : Symbol) (args : List ε)
  | staticDispatch (receiver : ε) (type : Symbol) (method : Symbol) (args : List ε)
  | cond (pred yes no : ε)
  | loop (pred body : ε)
  | case (scrutinee : ε) (branches : List (Branch ε))
  | block (body : List ε)
  | letIn (name type : Symbol) (init body : ε)
  | arith (op : ArithOp) (lhs rhs : ε)
  | compare (op : CompareOp) (lhs rhs : ε)
  | eq (lhs rhs : ε)
  | neg (operand : ε)
  | not (operand : ε)
  | isVoid (operand : ε)
  | int (value : Int64)
  | string (value : String)
  | bool (value : Bool)
  | new (type : Symbol)
  | identifier (name : Symbol)
  | absent

namespace Form

variable {ε : Type}

/-- The word by which listings call this form. -/
def kind : Form ε → String
  | assign .. => "assign"
  | dispatch .. => "dispatch"
  | staticDispatch .. => "static_dispatch"
  | cond .. => "cond"
  | loop .. => "loop"
  | case .. => "case"
  | block .. => "block"
  | letIn .. => "let"
  | arith .. => "arith"
  | compare .. => "compare"
  | eq .. => "eq"
  | neg .. => "neg"
  | not .. => "not"
  | isVoid .. => "isvoid"
  | int .. => "int"
  | string .. => "string"
  | bool .. => "bool"
  | new .. => "new"
  | identifier .. => "object"
  | absent => "no_expr"

def children : Form ε → List ε
  | assign _ value => [value]
  | dispatch receiver _ args => receiver :: args
  | staticDispatch receiver _ _ args => receiver :: args
  | cond pred yes no => [pred, yes, no]
  | loop pred body => [pred, body]
  | case scrutinee branches => scrutinee :: branches.map (·.body)
  | block body => body
  | letIn _ _ init body => [init, body]
  | arith _ lhs rhs => [lhs, rhs]
  | compare _ lhs rhs => [lhs, rhs]
  | eq lhs rhs => [lhs, rhs]
  | neg operand => [operand]
  | not operand => [operand]
  | isVoid operand => [operand]
  | int _ => []
  | string _ => []
  | bool _ => []
  | new _ => []
  | identifier _ => []
  | absent => []

end Form

inductive Expr
  | node (line : Line) (type? : Option Symbol) (form : Form Expr)

namespace Expr

def line : Expr → Line
  | node line _ _ => line

def type? : Expr → Option Symbol
  | node _ type? _ => type?

def form : Expr → Form Expr
  | node _ _ form => form

def kind (e : Expr) : String := e.form.kind

def children (e : Expr) : List Expr := e.form.children

/-- A node that has not been typed. -/
def plain (line : Line) (form : Form Expr) : Expr := node line none form

/-- Stands where the source has no expression. -/
def absent (line : Line) : Expr := plain line .absent

def isAbsent (e : Expr) : Bool :=
  match e.form with
  | .absent => true
  | _ => false

theorem isAbsent_iff {e : Expr} : e.isAbsent = true ↔ e.form = .absent := by
  rw [isAbsent]
  split <;> simp_all

theorem sizeOf_lt_of_mem_children {e c : Expr} (h : c ∈ e.children) : sizeOf c < sizeOf e := by
  obtain ⟨line, type?, f⟩ := e
  cases f
  case case scrutinee branches =>
    simp only [children, Expr.form, Form.children, List.mem_cons, List.mem_map] at h
    rcases h with rfl | ⟨⟨name, type, body, at_⟩, hb, rfl⟩
    · simp; omega
    · have := List.sizeOf_lt_of_mem hb
      simp at this ⊢; omega
  all_goals
    simp only [children, Expr.form, Form.children, List.mem_cons, List.not_mem_nil, or_false] at h
  case dispatch receiver method args =>
    rcases h with rfl | h
    · simp; omega
    · have := List.sizeOf_lt_of_mem h
      simp; omega
  case staticDispatch receiver type method args =>
    rcases h with rfl | h
    · simp; omega
    · have := List.sizeOf_lt_of_mem h
      simp; omega
  case block body =>
    have := List.sizeOf_lt_of_mem h
    simp; omega
  all_goals rcases h with rfl | rfl | rfl <;> simp <;> omega

/-- What passes from the children of a node to the node holds of every expression. -/
theorem induct {P : Expr → Prop} (step : ∀ e, (∀ c ∈ e.children, P c) → P e) (e : Expr) : P e :=
  step e fun c _ => induct step c
termination_by sizeOf e
decreasing_by exact sizeOf_lt_of_mem_children ‹_›

@[induction_eliminator]
theorem formInduct {P : Expr → Prop}
    (assign : ∀ line type? name value, P value → P (node line type? (.assign name value)))
    (dispatch : ∀ line type? receiver method args, P receiver → (∀ e ∈ args, P e) →
      P (node line type? (.dispatch receiver method args)))
    (staticDispatch : ∀ line type? receiver type method args, P receiver → (∀ e ∈ args, P e) →
      P (node line type? (.staticDispatch receiver type method args)))
    (cond : ∀ line type? pred yes no, P pred → P yes → P no →
      P (node line type? (.cond pred yes no)))
    (loop : ∀ line type? pred body, P pred → P body → P (node line type? (.loop pred body)))
    (case : ∀ line type? scrutinee branches, P scrutinee →
      (∀ b ∈ branches, P (Branch.body b)) → P (node line type? (.case scrutinee branches)))
    (block : ∀ line type? body, (∀ e ∈ body, P e) → P (node line type? (.block body)))
    (letIn : ∀ line type? name type init body, P init → P body →
      P (node line type? (.letIn name type init body)))
    (arith : ∀ line type? op lhs rhs, P lhs → P rhs → P (node line type? (.arith op lhs rhs)))
    (compare : ∀ line type? op lhs rhs, P lhs → P rhs → P (node line type? (.compare op lhs rhs)))
    (eq : ∀ line type? lhs rhs, P lhs → P rhs → P (node line type? (.eq lhs rhs)))
    (neg : ∀ line type? operand, P operand → P (node line type? (.neg operand)))
    (not : ∀ line type? operand, P operand → P (node line type? (.not operand)))
    (isVoid : ∀ line type? operand, P operand → P (node line type? (.isVoid operand)))
    (int : ∀ line type? value, P (node line type? (.int value)))
    (string : ∀ line type? value, P (node line type? (.string value)))
    (bool : ∀ line type? value, P (node line type? (.bool value)))
    (new : ∀ line type? type, P (node line type? (.new type)))
    (identifier : ∀ line type? name, P (node line type? (.identifier name)))
    (absent : ∀ line type?, P (node line type? .absent)) (e : Expr) : P e := by
  refine induct (fun e ih => ?_) e
  obtain ⟨line, type?, f⟩ := e
  have first : ∀ {c rest}, children (node line type? f) = c :: rest → P c :=
    fun h => ih _ (h ▸ List.mem_cons_self)
  have second : ∀ {b c rest}, children (node line type? f) = b :: c :: rest → P c :=
    fun h => ih _ (h ▸ List.mem_cons_of_mem _ List.mem_cons_self)
  cases f with
  | assign name value => exact assign _ _ _ _ (first rfl)
  | dispatch receiver method args =>
    exact dispatch _ _ _ _ _ (first rfl) fun e he => ih _ (List.mem_cons_of_mem _ he)
  | staticDispatch receiver type method args =>
    exact staticDispatch _ _ _ _ _ _ (first rfl) fun e he => ih _ (List.mem_cons_of_mem _ he)
  | cond pred yes no =>
    have third : no ∈ children (node line type? (.cond pred yes no)) := .tail _ (.tail _ (.head _))
    exact cond _ _ _ _ _ (first rfl) (second rfl) (ih no third)
  | loop pred body => exact loop _ _ _ _ (first rfl) (second rfl)
  | case scrutinee branches =>
    refine case _ _ _ _ (first rfl) fun b hb => ih _ ?_
    exact List.mem_cons_of_mem _ (List.mem_map.mpr ⟨b, hb, rfl⟩)
  | block body => exact block _ _ _ ih
  | letIn name type init body => exact letIn _ _ _ _ _ _ (first rfl) (second rfl)
  | arith op lhs rhs => exact arith _ _ _ _ _ (first rfl) (second rfl)
  | compare op lhs rhs => exact compare _ _ _ _ _ (first rfl) (second rfl)
  | eq lhs rhs => exact eq _ _ _ _ (first rfl) (second rfl)
  | neg operand => exact neg _ _ _ (first rfl)
  | not operand => exact not _ _ _ (first rfl)
  | isVoid operand => exact isVoid _ _ _ (first rfl)
  | int value => exact int _ _ _
  | string value => exact string _ _ _
  | bool value => exact bool _ _ _
  | new type => exact new _ _ _
  | identifier name => exact identifier _ _ _
  | absent => exact absent _ _

mutual
/-- The node itself, then everything below it, from left to right. -/
def walk : Expr → List Expr
  | e@(node _ _ form) => e :: match form with
    | .assign _ value => walk value
    | .dispatch receiver _ args => walk receiver ++ walkList args
    | .staticDispatch receiver _ _ args => walk receiver ++ walkList args
    | .cond pred yes no => walk pred ++ walk yes ++ walk no
    | .loop pred body => walk pred ++ walk body
    | .case scrutinee branches => walk scrutinee ++ walkBranches branches
    | .block body => walkList body
    | .letIn _ _ init body => walk init ++ walk body
    | .arith _ lhs rhs => walk lhs ++ walk rhs
    | .compare _ lhs rhs => walk lhs ++ walk rhs
    | .eq lhs rhs => walk lhs ++ walk rhs
    | .neg operand => walk operand
    | .not operand => walk operand
    | .isVoid operand => walk operand
    | .int _ | .string _ | .bool _ | .new _ | .identifier _ | .absent => []

def walkList : List Expr → List Expr
  | [] => []
  | e :: rest => walk e ++ walkList rest

def walkBranches : List (Branch Expr) → List Expr
  | [] => []
  | ⟨_, _, body, _⟩ :: rest => walk body ++ walkBranches rest
end

theorem walkList_eq (es : List Expr) : walkList es = es.flatMap walk := by
  induction es with
  | nil => rfl
  | cons e rest ih => simp [walkList, ih]

theorem walkBranches_eq (bs : List (Branch Expr)) :
    walkBranches bs = (bs.map (·.body)).flatMap walk := by
  induction bs with
  | nil => rfl
  | cons b rest ih => simp [walkBranches, ih]

theorem walk_eq (e : Expr) : e.walk = e :: e.children.flatMap walk := by
  obtain ⟨line, type?, f⟩ := e
  cases f <;> simp [walk, children, form, Form.children, walkList_eq, walkBranches_eq]

end Expr
end CoolStatics
