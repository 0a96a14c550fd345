import CoolStatics.Proofs.Simulation

/-!
Programs without their types. Two expressions are the same but for their types if they are equal once
every node has lost its own, and a program keeps all else that it has: classes, features, lines. What
it loses is the list of its annotations.
-/
namespace CoolStatics

theorem map_eq_of_forall₂ {α β : Type} {R : α → α → Prop} {f : α → β}
    (hf : ∀ {a a'}, R a a' → f a' = f a) {l l' : List α} (hl : List.Forall₂ R l l') :
    l'.map f = l.map f := by
  induction hl with
  | nil => rfl
  | cons ha _ ih => rw [List.map_cons, List.map_cons, hf ha, ih]

namespace Expr

mutual

/-- The expression with no type at any node. -/
def untyped : Expr → Expr
  | node line _ form => plain line <| match form with
    | .assign name value => .assign name (untyped value)
    | .dispatch receiver method args => .dispatch (untyped receiver) method (untypedList args)
    | .staticDispatch receiver type method args =>
      .staticDispatch (untyped receiver) type method (untypedList args)
    | .cond pred yes no => .cond (untyped pred) (untyped yes) (untyped no)
    | .loop pred body => .loop (untyped pred) (untyped body)
    | .case scrutinee branches => .case (untyped scrutinee) (untypedBranches branches)
    | .block body => .block (untypedList body)
    | .letIn name type init body => .letIn name type (untyped init) (untyped body)
    | .arith op lhs rhs => .arith op (untyped lhs) (untyped rhs)
    | .compare op lhs rhs => .compare op (untyped lhs) (untyped rhs)
    | .eq lhs rhs => .eq (untyped lhs) (untyped rhs)
    | .neg operand => .neg (untyped operand)
    | .not operand => .not (untyped operand)
    | .isVoid operand => .isVoid (untyped operand)
    | .int value => .int value
    | .string value => .string value
    | .bool value => .bool value
    | .new type => .new type
    | .identifier name => .identifier name
    | .absent => .absent

def untypedList : List Expr → List Expr
  | [] => []
  | e :: rest => untyped e :: untypedList rest

def untypedBranches : List (Branch Expr) → List (Branch Expr)
  | [] => []
  | ⟨name, type, body, line⟩ :: rest => ⟨name, type, untyped body, line⟩ :: untypedBranches rest

end

section Related

variable {P : Expr → Expr → Prop}

theorem untypedList_eq_of_forall₂ (hP : ∀ {e e'}, P e e' → e'.untyped = e.untyped)
    {es es' : List Expr} (hes : List.Forall₂ P es es') : untypedList es' = untypedList es := by
  induction hes with
  | nil => rfl
  | cons he _ ih => rw [untypedList, untypedList, hP he, ih]

theorem untypedBranches_eq_of_forall₂ (hP : ∀ {e e'}, P e e' → e'.untyped = e.untyped)
    {bs bs' : List (Branch Expr)} (hbs : List.Forall₂ (Branch.Rel P) bs bs') :
    untypedBranches bs' = untypedBranches bs := by
  induction hbs with
  | nil => rfl
  | cons hb _ ih =>
    obtain ⟨hbody, hrest⟩ := hb
    rw [hrest, untypedBranches, untypedBranches, hP hbody, ih]

theorem untyped_node_eq (hP : ∀ {e e'}, P e e' → e'.untyped = e.untyped) {f f' : Form Expr}
    (hf : Form.Rel P f f') (line : Line) (type? type?' : Option Symbol) :
    (node line type?' f').untyped = (node line type? f).untyped := by
  cases hf with
  | dispatch hr hargs => simp only [untyped, hP hr, untypedList_eq_of_forall₂ hP hargs]
  | staticDispatch hr hargs => simp only [untyped, hP hr, untypedList_eq_of_forall₂ hP hargs]
  | cond hp hy hn => simp only [untyped, hP hp, hP hy, hP hn]
  | case hs hbs => simp only [untyped, hP hs, untypedBranches_eq_of_forall₂ hP hbs]
  | block hes => simp only [untyped, untypedList_eq_of_forall₂ hP hes]
  | assign h | neg h | not h | isVoid h => simp only [untyped, hP h]
  | loop h₁ h₂ | letIn h₁ h₂ | arith h₁ h₂ | compare h₁ h₂ | eq h₁ h₂ =>
    simp only [untyped, hP h₁, hP h₂]
  | int | string | bool | new | identifier | absent => simp only [untyped]

end Related
end Expr

def Feature.untyped : Feature → Feature
  | .method m => .method { m with body := m.body.untyped }
  | .attr a => .attr { a with init := a.init.untyped }

def ClassDecl.untyped (c : ClassDecl) : ClassDecl :=
  { c with features := c.features.map Feature.untyped }

def Program.untyped (p : Program) : Program := ⟨p.classes.map ClassDecl.untyped⟩

/-! The types alone, from left to right. -/

def Expr.annotations (e : Expr) : List (Option Symbol) := e.walk.map (·.type?)

def ClassDecl.annotations (c : ClassDecl) : List (Option Symbol) := c.walk.map (·.type?)

def Program.annotations (p : Program) : List (Option Symbol) := p.walk.map (·.2.type?)

theorem Expr.annotations_eq (e : Expr) :
    e.annotations = e.type? :: e.children.flatMap annotations := by
  rw [annotations, walk_eq, List.map_cons, List.map_flatMap]
  rfl

theorem ClassDecl.annotations_eq (c : ClassDecl) :
    c.annotations = c.features.flatMap (·.body.annotations) := by
  rw [annotations, walk, List.map_flatMap]
  rfl

theorem Program.annotations_eq (p : Program) :
    p.annotations = p.classes.flatMap ClassDecl.annotations := by
  simp only [annotations, walk, List.map_flatMap, List.map_map]
  rfl

end CoolStatics
