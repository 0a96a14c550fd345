import CoolStatics.Proofs.Order
import Mathlib.Data.List.Forall2
import Mathlib.Logic.Function.Basic

/-!
The type system as rules. An expression has a type in an environment, which gives variables their
types, inside a class, for which `SELF_TYPE` stands. There is one rule for each form of expression, but
that `self` and other variables have a rule each. Nothing here follows the order in which a checker
visits an expression, and no rule says what to do where its premises fail.
-/
namespace CoolStatics

abbrev Env := Symbol → Option Symbol

namespace Hierarchy

/-- The signature of a method that a class offers: its own, or else what its parent offers. -/
inductive Offers (h : Hierarchy) : Symbol → Symbol → Signature → Prop
  | own {c m s} : h.method? c m = some s → Offers h c m s
  | inherited {c p m s} : h.method? c m = none → h.Edge c p → Offers h p m s → Offers h c m s

/-- The type of a call, where `SELF_TYPE` as the declared result stands for the receiver's type. -/
def returned (h : Hierarchy) (receiver result : Symbol) : Symbol :=
  if result = h.names .selfType then receiver else result

/-- A call with arguments of the given types has the given type. -/
structure Call (h : Hierarchy) (current owner method receiver : Symbol) (args : List Symbol)
    (t : Symbol) : Prop where
  registered : h.has owner = true
  offered : ∃ s, h.Offers owner method s ∧ List.Forall₂ (h.Sub current) args s.types ∧
    h.Known s.result ∧ h.returned receiver s.result = t

end Hierarchy

mutual

inductive HasType (h : Hierarchy) (current : Symbol) : Env → Expr → Symbol → Prop
  | assign {Γ line type? name value s t} :
      name ≠ h.names .self → Γ name = some t →
      HasType h current Γ value s → h.Sub current s t →
      HasType h current Γ (.node line type? (.assign name value)) s
  | dispatch {Γ line type? receiver method args r ts t} :
      HasType h current Γ receiver r → HasTypes h current Γ args ts →
      h.Call current (h.denoted current r) method r ts t →
      HasType h current Γ (.node line type? (.dispatch receiver method args)) t
  | staticDispatch {Γ line type? receiver owner method args r ts t} :
      HasType h current Γ receiver r → HasTypes h current Γ args ts →
      owner ≠ h.names .selfType → h.Sub current r owner →
      h.Call current owner method r ts t →
      HasType h current Γ (.node line type? (.staticDispatch receiver owner method args)) t
  | cond {Γ line type? pred yes no s t u} :
      HasType h current Γ pred (h.names .bool) →
      HasType h current Γ yes s → HasType h current Γ no t → h.IsLub current [s, t] u →
      HasType h current Γ (.node line type? (.cond pred yes no)) u
  | loop {Γ line type? pred body t} :
      HasType h current Γ pred (h.names .bool) → HasType h current Γ body t →
      HasType h current Γ (.node line type? (.loop pred body)) (h.names .object)
  | case {Γ line type? scrutinee branches s ts u} :
      HasType h current Γ scrutinee s → branches ≠ [] → (branches.map (·.type)).Nodup →
      HasBranches h current Γ branches ts → h.IsLub current ts u →
      HasType h current Γ (.node line type? (.case scrutinee branches)) u
  | block {Γ line type? body ts t} :
      HasTypes h current Γ body ts → ts.getLast? = some t →
      HasType h current Γ (.node line type? (.block body)) t
  | letIn {Γ line type? name type init body s t} :
      name ≠ h.names .self → h.Known type →
      HasType h current Γ init s → h.Sub current s type →
      HasType h current (Function.update Γ name (some type)) body t →
      HasType h current Γ (.node line type? (.letIn name type init body)) t
  | arith {Γ line type? op lhs rhs} :
      HasType h current Γ lhs (h.names .int) → HasType h current Γ rhs (h.names .int) →
      HasType h current Γ (.node line type? (.arith op lhs rhs)) (h.names .int)
  | compare {Γ line type? op lhs rhs} :
      HasType h current Γ lhs (h.names .int) → HasType h current Γ rhs (h.names .int) →
      HasType h current Γ (.node line type? (.compare op lhs rhs)) (h.names .bool)
  | eq {Γ line type? lhs rhs s t} :
      HasType h current Γ lhs s → HasType h current Γ rhs t →
      (s = t ∨ h.names.isPrimitive s = false ∧ h.names.isPrimitive t = false) →
      HasType h current Γ (.node line type? (.eq lhs rhs)) (h.names .bool)
  | neg {Γ line type? operand} :
      HasType h current Γ operand (h.names .int) →
      HasType h current Γ (.node line type? (.neg operand)) (h.names .int)
  | not {Γ line type? operand} :
      HasType h current Γ operand (h.names .bool) →
      HasType h current Γ (.node line type? (.not operand)) (h.names .bool)
  | isVoid {Γ line type? operand t} :
      HasType h current Γ operand t →
      HasType h current Γ (.node line type? (.isVoid operand)) (h.names .bool)
  | int {Γ line type? value} :
      HasType h current Γ (.node line type? (.int value)) (h.names .int)
  | string {Γ line type? value} :
      HasType h current Γ (.node line type? (.string value)) (h.names .string)
  | bool {Γ line type? value} :
      HasType h current Γ (.node line type? (.bool value)) (h.names .bool)
  | new {Γ line type? type} :
      h.Known type → HasType h current Γ (.node line type? (.new type)) type
  | self {Γ line type?} :
      HasType h current Γ (.node line type? (.identifier (h.names .self))) (h.names .selfType)
  | identifier {Γ line type? name t} :
      name ≠ h.names .self → Γ name = some t →
      HasType h current Γ (.node line type? (.identifier name)) t
  | absent {Γ line type?} :
      HasType h current Γ (.node line type? .absent) (h.names .noType)

inductive HasTypes (h : Hierarchy) (current : Symbol) : Env → List Expr → List Symbol → Prop
  | nil {Γ} : HasTypes h current Γ [] []
  | cons {Γ e es t ts} :
      HasType h current Γ e t → HasTypes h current Γ es ts →
      HasTypes h current Γ (e :: es) (t :: ts)

inductive HasBranches (h : Hierarchy) (current : Symbol) :
    Env → List (Branch Expr) → List Symbol → Prop
  | nil {Γ} : HasBranches h current Γ [] []
  | cons {Γ name type body line bs t ts} :
      name ≠ h.names .self → h.Known type →
      HasType h current (Function.update Γ name (some type)) body t →
      HasBranches h current Γ bs ts →
      HasBranches h current Γ (⟨name, type, body, line⟩ :: bs) (t :: ts)

end

namespace Hierarchy

variable {h : Hierarchy} {c m : Symbol} {s : Signature}

/-- The method found along the ancestors is the one that the class offers. -/
theorem findMethod?_eq_some_iff (ac : h.Acyclic) :
    h.findMethod? c m = some s ↔ h.Offers c m s := by
  constructor
  · intro hf
    induction c using ac.induct with
    | step c ih =>
      cases hm : h.method? c m with
      | some s' =>
        rw [findMethod?, hm, Option.some_or] at hf
        exact .own (hm.trans hf)
      | none =>
        rw [findMethod?, hm, Option.none_or] at hf
        by_cases hc : ∃ p, h.Edge c p
        · obtain ⟨p, e⟩ := hc
          rw [inheritedMethod?_of_edge ac e] at hf
          exact .inherited hm e (ih p e hf)
        · rw [inheritedMethod?_of_no_edge (not_exists.mp hc)] at hf
          cases hf
  · intro ho
    induction ho with
    | own hm => rw [findMethod?, hm, Option.some_or]
    | inherited hm e _ ih => rw [findMethod?, hm, Option.none_or, inheritedMethod?_of_edge ac e, ih]

end Hierarchy

/-- Neither a block without expressions nor a case without branches. -/
def Form.isFilled {ε : Type} : Form ε → Bool
  | case _ branches => !branches.isEmpty
  | block body => !body.isEmpty
  | _ => true

namespace Expr

def Filled (e : Expr) : Prop := ∀ x ∈ e.walk, x.form.isFilled = true

instance (e : Expr) : Decidable e.Filled :=
  inferInstanceAs (Decidable (∀ x ∈ e.walk, x.form.isFilled = true))

theorem filled_iff {e : Expr} :
    e.Filled ↔ e.form.isFilled = true ∧ ∀ c ∈ e.children, c.Filled := by
  simp only [Filled]
  rw [walk_eq]
  simp only [List.forall_mem_cons, List.mem_flatMap]
  constructor
  · rintro ⟨he, hc⟩
    exact ⟨he, fun c hm x hx => hc x ⟨c, hm, hx⟩⟩
  · rintro ⟨he, hc⟩
    refine ⟨he, ?_⟩
    rintro x ⟨c, hm, hx⟩
    exact hc c hm x hx

theorem Filled.child {e c : Expr} (he : e.Filled) (hc : c ∈ e.children) : c.Filled :=
  (filled_iff.mp he).2 c hc

end Expr
end CoolStatics
