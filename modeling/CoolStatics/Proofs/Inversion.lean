import CoolStatics.Proofs.Checking
import CoolStatics.Proofs.Noting

/-!
What a check that comes to its end says of the children of a node. A node comes out with its form kept,
and each of its children has been checked, in the scope that the node puts it in, to what then stands in
its place. The faults of the children stand among those of the node in order, and whatever else is there
the node has noted itself. So every node of what comes out has had a check of its own.
-/
namespace CoolStatics

open Report

/-- Lists in a row, with members of which `P` holds before, between and after them. -/
inductive Spaced {α : Type} (P : α → Prop) : List (List α) → List α → Prop
  | nil : Spaced P [] []
  | block {b bs w} : Spaced P bs w → Spaced P (b :: bs) (b ++ w)
  | gap {g bs w} : (∀ x ∈ g, P x) → Spaced P bs w → Spaced P bs (g ++ w)

namespace Spaced

variable {α : Type} {P : α → Prop} {bs : List (List α)} {w : List α}

theorem blocks (cs : List (List α)) (hs : Spaced P bs w) : Spaced P (cs ++ bs) (cs.flatten ++ w) := by
  induction cs with
  | nil => exact hs
  | cons c cs ih =>
    rw [List.flatten_cons, List.append_assoc]
    exact ih.block

theorem mem (hs : Spaced P bs w) {x : α} (hx : x ∈ w) : P x ∨ ∃ b ∈ bs, x ∈ b := by
  induction hs with
  | nil => cases hx
  | block _ ih =>
    rcases List.mem_append.mp hx with hx | hx
    · exact Or.inr ⟨_, List.mem_cons_self, hx⟩
    · exact (ih hx).imp_right fun ⟨b, hb, hx⟩ => ⟨b, List.mem_cons_of_mem _ hb, hx⟩
  | gap hg _ ih =>
    rcases List.mem_append.mp hx with hx | hx
    · exact Or.inl (hg x hx)
    · exact ih hx

theorem subset (hs : Spaced P bs w) {b : List α} (hb : b ∈ bs) : b ⊆ w := by
  induction hs with
  | nil => cases hb
  | block _ ih =>
    rcases List.mem_cons.mp hb with rfl | hb
    · exact List.subset_append_left _ _
    · exact List.Subset.trans (ih hb) (List.subset_append_right _ _)
  | gap _ _ ih => exact List.Subset.trans (ih hb) (List.subset_append_right _ _)

end Spaced

namespace Expr

open Context

variable {cx : Context} {scope : Scope} {line : Line} {type? : Option Symbol} {t : Symbol}
  {f : Form Expr} {e e₁ : Expr} {fs : List Fault}

/-- The expression is checked to its end, in its scope, with the given faults, and comes out as the other
one. -/
def Comes (cx : Context) (c : Scope × Expr) (o : List Fault × Expr) : Prop :=
  ∃ u, (c.2.check cx c.1).Leaves o.1 (u, o.2)

theorem comes_checkList {es : List Expr} {rs : List (Symbol × Expr)}
    (hrs : (checkList cx scope es).Leaves fs rs) :
    List.Forall₂ (fun _ _ => True) es (rs.map (·.2)) ∧
      ∃ outs, List.Forall₂ (Comes cx) (es.map (scope, ·)) outs ∧ rs.map (·.2) = outs.map (·.2) ∧
        fs = (outs.map (·.1)).flatten := by
  rw [checkList_eq_all] at hrs
  obtain ⟨outs, houts, rfl, rfl⟩ := leaves_all hrs
  rw [List.forall₂_map_left_iff] at houts
  refine ⟨?_, outs.map fun o => (o.1, o.2.2), ?_, by simp, by simp [Function.comp_def]⟩
  · refine List.forall₂_iff_zip.mpr ⟨?_, fun _ => trivial⟩
    rw [List.length_map, List.length_map, houts.length_eq]
  · refine List.forall₂_map_left_iff.mpr (List.forall₂_map_right_iff.mpr ?_)
    exact houts.imp fun e o ho => ⟨o.2.1, ho⟩

theorem comes_checkBranches {bs bs₁ : List (Branch Expr)} {before : List Symbol} {s : Symbol}
    (hbs : (checkBranches cx scope before s bs).Leaves fs (t, bs₁)) :
    List.Forall₂ (Branch.Rel fun _ _ => True) bs bs₁ ∧
      ∃ outs, List.Forall₂ (Comes cx)
          (bs.map fun b => (cx.extend scope b.name (cx.bound b.type), b.body)) outs ∧
        bs₁.map (·.body) = outs.map (·.2) ∧ Spaced cx.Own (outs.map (·.1)) fs := by
  induction bs generalizing bs₁ before s fs with
  | nil =>
    obtain ⟨rfl, hout⟩ := leaves_pure.mp hbs
    obtain ⟨-, rfl⟩ := Prod.mk.inj hout
    exact ⟨.nil, [], .nil, rfl, .nil⟩
  | cons b bs ih =>
    obtain ⟨name, type, body, line⟩ := b
    simp only [checkBranches, branchScope, bind_assoc, pure_bind, leaves_bind, leaves_pure] at hbs
    obtain ⟨_, _, _, h₁, ⟨_, _, _, h₂, ⟨_, _, _, h₃, ⟨gs, r, _, hr, ⟨_, j, _, hj,
      ⟨_, ⟨_, others⟩, _, hq, ⟨rfl, heq⟩, rfl⟩, rfl⟩, rfl⟩, rfl⟩, rfl⟩, rfl⟩ := hbs
    obtain ⟨rfl, rfl⟩ := Prod.mk.inj heq
    obtain ⟨hrel, outs, houts, hbodies, hspaced⟩ := ih hq
    refine ⟨.cons ⟨trivial, rfl⟩ hrel, (gs, r.2) :: outs, .cons ⟨r.1, hr⟩ houts, ?_, ?_⟩
    · rw [List.map_cons, List.map_cons, hbodies]
    · refine .gap (within_require.of_leaves h₁) (.gap (within_require.of_leaves h₂) ?_)
      refine .gap (within_require.of_leaves h₃) (.block (.gap (within_join.of_leaves hj) ?_))
      rwa [List.append_nil]

/-- A node that is checked to its end keeps its form, and its children have been checked so. -/
theorem leaves_node (hl : ((node line type? f).check cx scope).Leaves fs (t, e₁)) :
    ∃ f₁ outs, e₁ = node line (some t) f₁ ∧ f.Alike f₁ ∧
      List.Forall₂ (Comes cx) (cx.parts scope f) outs ∧ f₁.children = outs.map (·.2) ∧
      Spaced cx.Own (outs.map (·.1)) fs := by
  cases f with
  | assign name value =>
    simp only [check, leaves_bind, leaves_pure] at hl
    obtain ⟨gs, r, _, hr, ⟨_, u, _, hu, ⟨rfl, heq⟩, rfl⟩, rfl⟩ := hl
    obtain ⟨rfl, rfl⟩ := Prod.mk.inj heq
    exact ⟨_, [(gs, r.2)], rfl, .assign trivial, .cons ⟨r.1, hr⟩ .nil, rfl,
      .block (.gap (within_assignType.of_leaves hu) .nil)⟩
  | dispatch receiver method args =>
    simp only [check, leaves_bind, leaves_pure] at hl
    obtain ⟨gs, r, _, hr, ⟨_, rs, _, hrs, ⟨_, u, _, hu, ⟨rfl, heq⟩, rfl⟩, rfl⟩, rfl⟩ := hl
    obtain ⟨rfl, rfl⟩ := Prod.mk.inj heq
    obtain ⟨halike, outs, houts, hexprs, rfl⟩ := comes_checkList hrs
    refine ⟨_, (gs, r.2) :: outs, rfl, .dispatch trivial halike, .cons ⟨r.1, hr⟩ houts,
      congrArg _ hexprs, .block ?_⟩
    have hgap := (Spaced.gap (within_dispatchType.of_leaves hu) .nil).blocks (outs.map (·.1))
    rwa [List.append_nil] at hgap
  | staticDispatch receiver owner method args =>
    simp only [check, leaves_bind, leaves_pure] at hl
    obtain ⟨gs, r, _, hr, ⟨_, rs, _, hrs, ⟨_, u, _, hu, ⟨rfl, heq⟩, rfl⟩, rfl⟩, rfl⟩ := hl
    obtain ⟨rfl, rfl⟩ := Prod.mk.inj heq
    obtain ⟨halike, outs, houts, hexprs, rfl⟩ := comes_checkList hrs
    refine ⟨_, (gs, r.2) :: outs, rfl, .staticDispatch trivial halike, .cons ⟨r.1, hr⟩ houts,
      congrArg _ hexprs, .block ?_⟩
    have hgap := (Spaced.gap (within_staticDispatchType.of_leaves hu) .nil).blocks (outs.map (·.1))
    rwa [List.append_nil] at hgap
  | cond pred yes no =>
    simp only [check, leaves_bind, leaves_pure] at hl
    obtain ⟨gs, p, _, hp, ⟨_, _, _, hb, ⟨gs', y, _, hy, ⟨gs'', n, _, hn,
      ⟨_, u, _, hj, ⟨rfl, heq⟩, rfl⟩, rfl⟩, rfl⟩, rfl⟩, rfl⟩ := hl
    obtain ⟨rfl, rfl⟩ := Prod.mk.inj heq
    exact ⟨_, [(gs, p.2), (gs', y.2), (gs'', n.2)], rfl, .cond trivial trivial trivial,
      .cons ⟨p.1, hp⟩ (.cons ⟨y.1, hy⟩ (.cons ⟨n.1, hn⟩ .nil)), rfl,
      .block (.gap (within_require.of_leaves hb) (.block (.block
        (.gap (within_join.of_leaves hj) .nil))))⟩
  | loop pred body =>
    simp only [check, leaves_bind, leaves_pure] at hl
    obtain ⟨gs, p, _, hp, ⟨_, _, _, hb, ⟨gs', b, _, hbody, ⟨rfl, heq⟩, rfl⟩, rfl⟩, rfl⟩ := hl
    obtain ⟨rfl, rfl⟩ := Prod.mk.inj heq
    exact ⟨_, [(gs, p.2), (gs', b.2)], rfl, .loop trivial trivial,
      .cons ⟨p.1, hp⟩ (.cons ⟨b.1, hbody⟩ .nil), rfl,
      .block (.gap (within_require.of_leaves hb) (.block .nil))⟩
  | case scrutinee branches =>
    simp only [check, leaves_bind, leaves_pure] at hl
    obtain ⟨gs, s, _, hs, ⟨_, ⟨u, bs₁⟩, _, hbs, ⟨rfl, heq⟩, rfl⟩, rfl⟩ := hl
    obtain ⟨rfl, rfl⟩ := Prod.mk.inj heq
    obtain ⟨hrel, outs, houts, hbodies, hspaced⟩ := comes_checkBranches hbs
    refine ⟨_, (gs, s.2) :: outs, rfl, .case trivial hrel, .cons ⟨s.1, hs⟩ houts,
      congrArg _ hbodies, .block ?_⟩
    rwa [List.append_nil]
  | block body =>
    simp only [check, leaves_bind, leaves_pure] at hl
    obtain ⟨_, rs, _, hrs, ⟨rfl, heq⟩, rfl⟩ := hl
    obtain ⟨rfl, rfl⟩ := Prod.mk.inj heq
    obtain ⟨halike, outs, houts, hexprs, rfl⟩ := comes_checkList hrs
    have hspaced := (Spaced.nil (P := cx.Own)).blocks (outs.map (·.1))
    rw [List.append_nil] at hspaced
    exact ⟨_, outs, rfl, .block halike, houts, hexprs, hspaced⟩
  | letIn name type init body =>
    simp only [check, letType_eq, bind_assoc, pure_bind, leaves_bind, leaves_pure] at hl
    obtain ⟨_, _, _, hk, ⟨_, _, _, hn, ⟨gs, i, _, hi, ⟨_, _, _, hfit, ⟨gs', b, _, hb,
      ⟨rfl, heq⟩, rfl⟩, rfl⟩, rfl⟩, rfl⟩, rfl⟩ := hl
    obtain ⟨rfl, rfl⟩ := Prod.mk.inj heq
    exact ⟨_, [(gs, i.2), (gs', b.2)], rfl, .letIn trivial trivial,
      .cons ⟨i.1, hi⟩ (.cons ⟨b.1, hb⟩ .nil), rfl,
      .gap (within_require.of_leaves hk) (.gap (within_require.of_leaves hn)
        (.block (.gap (within_require.of_leaves hfit) (.block .nil))))⟩
  | arith op lhs rhs | compare op lhs rhs | eq lhs rhs =>
    simp only [check, leaves_bind, leaves_pure] at hl
    obtain ⟨gs, l, _, hlhs, ⟨gs', r, _, hrhs, ⟨_, u, _, hu, ⟨rfl, heq⟩, rfl⟩, rfl⟩, rfl⟩ := hl
    obtain ⟨rfl, rfl⟩ := Prod.mk.inj heq
    refine ⟨_, [(gs, l.2), (gs', r.2)], rfl, ?_, .cons ⟨l.1, hlhs⟩ (.cons ⟨r.1, hrhs⟩ .nil), rfl,
      .block (.block (.gap (within_expect.of_leaves hu) .nil))⟩
    constructor <;> trivial
  | neg operand | not operand =>
    simp only [check, leaves_bind, leaves_pure] at hl
    obtain ⟨gs, o, _, ho, ⟨_, u, _, hu, ⟨rfl, heq⟩, rfl⟩, rfl⟩ := hl
    obtain ⟨rfl, rfl⟩ := Prod.mk.inj heq
    refine ⟨_, [(gs, o.2)], rfl, ?_, .cons ⟨o.1, ho⟩ .nil, rfl,
      .block (.gap (within_expect.of_leaves hu) .nil)⟩
    constructor
    trivial
  | isVoid operand =>
    simp only [check, leaves_bind, leaves_pure] at hl
    obtain ⟨gs, o, _, ho, ⟨rfl, heq⟩, rfl⟩ := hl
    obtain ⟨rfl, rfl⟩ := Prod.mk.inj heq
    exact ⟨_, [(gs, o.2)], rfl, .isVoid trivial, .cons ⟨o.1, ho⟩ .nil, rfl, .block .nil⟩
  | new type =>
    simp only [check, leaves_bind, leaves_pure] at hl
    obtain ⟨_, u, _, hu, ⟨rfl, heq⟩, rfl⟩ := hl
    obtain ⟨rfl, rfl⟩ := Prod.mk.inj heq
    exact ⟨_, [], rfl, .refl _, .nil, rfl, .gap (within_expect.of_leaves hu) .nil⟩
  | identifier name =>
    simp only [check, leaves_bind, leaves_pure] at hl
    obtain ⟨_, u, _, hu, ⟨rfl, heq⟩, rfl⟩ := hl
    obtain ⟨rfl, rfl⟩ := Prod.mk.inj heq
    exact ⟨_, [], rfl, .refl _, .nil, rfl, .gap (within_identifierType.of_leaves hu) .nil⟩
  | int value | string value | bool value | absent =>
    rw [check, leaves_pure] at hl
    obtain ⟨rfl, heq⟩ := hl
    obtain ⟨rfl, rfl⟩ := Prod.mk.inj heq
    exact ⟨_, [], rfl, .refl _, .nil, rfl, .nil⟩

theorem exists_child_of_mem {outs : List (List Fault × Expr)} {o : List Fault × Expr}
    (houts : List.Forall₂ (Comes cx) (cx.parts scope f) outs) (ho : o ∈ outs) :
    ∃ inner, ∃ c ∈ f.children, ∃ u, (check cx inner c).Leaves o.1 (u, o.2) := by
  obtain ⟨c, hc, u, hu⟩ := exists_of_forall₂_mem houts.flip ho
  refine ⟨c.1, c.2, ?_, u, hu⟩
  rw [← cx.map_snd_parts scope f]
  exact List.mem_map_of_mem hc

theorem type?_of_leaves (hl : (e.check cx scope).Leaves fs (t, e₁)) : e₁.type? = some t := by
  obtain ⟨line, type?, f⟩ := e
  obtain ⟨f₁, _, rfl, -⟩ := leaves_node hl
  rfl

/-- All that the check of an expression notes lies in the file of its class. -/
theorem own_of_leaves (hl : (e.check cx scope).Leaves fs (t, e₁)) : ∀ x ∈ fs, cx.Own x := by
  induction e using induct generalizing scope t e₁ fs with
  | step e ih =>
    obtain ⟨line, type?, f⟩ := e
    obtain ⟨f₁, outs, rfl, -, houts, -, hspaced⟩ := leaves_node hl
    intro x hx
    rcases hspaced.mem hx with hx | ⟨_, hb, hx⟩
    · exact hx
    · obtain ⟨o, ho, rfl⟩ := List.mem_map.mp hb
      obtain ⟨inner, c, hc, u, hu⟩ := exists_child_of_mem houts ho
      exact ih c hc hu x hx

/-- Every node of what comes out is itself what comes out of a check, whose faults are among those of the
whole. -/
theorem exists_check_of_mem_walk (hl : (e.check cx scope).Leaves fs (t, e₁)) {x : Expr}
    (hx : x ∈ e₁.walk) : ∃ inner c u gs, (check cx inner c).Leaves gs (u, x) ∧ gs ⊆ fs := by
  induction e using induct generalizing scope t e₁ fs with
  | step e ih =>
    obtain ⟨line, type?, f⟩ := e
    obtain ⟨f₁, outs, rfl, -, houts, hchildren, hspaced⟩ := leaves_node hl
    rw [walk_eq, List.mem_cons, List.mem_flatMap] at hx
    rcases hx with rfl | ⟨c₁, hc₁, hx⟩
    · exact ⟨scope, _, t, fs, hl, List.Subset.refl _⟩
    · rw [children, form, hchildren] at hc₁
      obtain ⟨o, ho, rfl⟩ := List.mem_map.mp hc₁
      obtain ⟨_, c, hc, u, hu⟩ := exists_child_of_mem houts ho
      obtain ⟨inner, c', u', gs, hgs, hsub⟩ := ih c hc hu hx
      exact ⟨inner, c', u', gs, hgs,
        List.Subset.trans hsub (hspaced.subset (List.mem_map_of_mem ho))⟩

/-! Checks in a second context. -/

theorem target?_of_comes {f₁ : Form Expr} {outs : List (List Fault × Expr)} (hf : f.Alike f₁)
    (houts : List.Forall₂ (Comes cx) (cx.parts scope f) outs)
    (hchildren : f₁.children = outs.map (·.2)) :
    f₁.target? cx.typedOwner? = f.target? (cx.checkedOwner? scope) := by
  cases hf with
  | @dispatch receiver receiver₁ method args args₁ =>
    obtain ⟨o, outs, ⟨u, hu⟩, -, rfl⟩ := List.forall₂_cons_left_iff.mp houts
    obtain ⟨rfl, -⟩ := List.cons.inj hchildren
    rw [Form.target?_dispatch (checkedOwner?_of_ok hu.outcome_eq), Form.target?_dispatch]
    rw [typedOwner?, type?_of_leaves hu, Option.map_some]
  | _ => rfl

/-- An expression that is checked to its end is checked in the second context as in the first, if the rules
correspond for the calls in what comes out. -/
theorem rel_check_of_leaves {L : Relator} {cx' : Context} {R : Symbol → Symbol → Prop}
    {P : Expr → Expr → Prop} {called : Symbol → Symbol → Prop} (tr : Transfers L cx cx' R called)
    (hP : Congruent R P) (hline : ∀ {x y}, P x y → y.line = x.line)
    (hl : (e.check cx scope).Leaves fs (t, e₁))
    (hcall : ∀ x ∈ e₁.walk, ∀ c, x.form.target? cx.typedOwner? = some c → called c.1 c.2) :
    L.rel (Paired R P) (e.check cx scope) (e.check cx' scope) := by
  induction e using induct generalizing scope t e₁ fs with
  | step e ih =>
    obtain ⟨line, type?, f⟩ := e
    obtain ⟨f₁, outs, rfl, hf, houts, hchildren, -⟩ := leaves_node hl
    rw [walk_eq, List.forall_mem_cons] at hcall
    have hnode := hcall.1
    rw [form, target?_of_comes hf houts hchildren] at hnode
    refine rel_check_node tr hP hline (.refl f) hnode ?_ line type? type?
    rw [← cx.map_snd_parts scope f, List.forall₂_map_right_iff, List.forall₂_same]
    intro c hc
    obtain ⟨o, ho, u, hu⟩ := exists_of_forall₂_mem houts hc
    refine ih c.2 (mem_children_of_mem_parts hc) hu fun x hx => hcall.2 x ?_
    rw [children, form, hchildren]
    exact List.mem_flatMap.mpr ⟨o.2, List.mem_map_of_mem ho, hx⟩

/-! Checks without faults. -/

/-- The expression is checked without a fault, in its scope, and comes out as the other one. -/
def Yields (cx : Context) (c : Scope × Expr) (c₁ : Expr) : Prop :=
  ∃ u, (c.2.check cx c.1).Gives (u, c₁)

theorem gives_node (hg : ((node line type? f).check cx scope).Gives (t, e₁)) :
    ∃ f₁, e₁ = node line (some t) f₁ ∧ f.Alike f₁ ∧
      List.Forall₂ (Yields cx) (cx.parts scope f) f₁.children := by
  have hl : ((node line type? f).check cx scope).Leaves [] (t, e₁) := hg
  obtain ⟨f₁, outs, rfl, hf, houts, hchildren, hspaced⟩ := leaves_node hl
  -- the faults of every child are among those of the node
  have hnil : List.Forall₂ (fun o c₁ => o.1 = [] ∧ o.2 = c₁) outs (outs.map (·.2)) := by
    refine List.forall₂_map_right_iff.mpr (List.forall₂_same.mpr fun o ho => ⟨?_, rfl⟩)
    exact List.subset_nil.mp (hspaced.subset (List.mem_map_of_mem ho))
  refine ⟨f₁, rfl, hf, ?_⟩
  rw [hchildren]
  refine forall₂_trans houts hnil fun c _ o c₁ hc ho => ?_
  obtain ⟨u, hu⟩ := hc
  rw [ho.1, ho.2] at hu
  exact ⟨u, hu⟩

theorem type?_of_gives (hg : (e.check cx scope).Gives (t, e₁)) : e₁.type? = some t :=
  type?_of_leaves (show (e.check cx scope).Leaves [] (t, e₁) from hg)

end Expr

/-! Features and classes. -/

/-- A feature that is checked to its end keeps all but its body, which has been checked so. -/
theorem Context.leaves_checkFeature {cx : Context} {scope : Scope} {f f₁ : Feature} {fs : List Fault}
    (hl : (cx.checkFeature scope f).Leaves fs f₁) :
    ∃ inner gs u e₁, (cx.bodyScope scope f).outcome = .ok inner ∧
      (f.body.check cx inner.push).Leaves gs (u, e₁) ∧ f₁ = f.withBody e₁ ∧
      Spaced cx.Own [gs] fs := by
  cases f with
  | method m =>
    simp only [checkFeature, checkMethod_eq, bind_assoc, pure_bind, leaves_bind, leaves_pure] at hl
    obtain ⟨_, _, _, h₁, ⟨_, declared, _, h₂, ⟨_, inner, _, h₃, ⟨gs, r, _, hr,
      ⟨_, _, _, h₄, ⟨rfl, rfl⟩, rfl⟩, rfl⟩, rfl⟩, rfl⟩, rfl⟩ := hl
    refine ⟨inner, gs, r.1, r.2, h₃.outcome_eq, hr, rfl, ?_⟩
    exact .gap (within_checkOverride.of_leaves h₁) (.gap (within_expect.of_leaves h₂)
      (.gap ((within_bindFormals _ _).of_leaves h₃) (.block (.gap (within_require.of_leaves h₄) .nil))))
  | attr a =>
    simp only [checkFeature, checkAttr, bind_assoc, pure_bind, leaves_bind, leaves_pure] at hl
    obtain ⟨_, _, _, h₁, ⟨_, declared, _, h₂, ⟨gs, r, _, hr,
      ⟨_, _, _, h₃, ⟨rfl, rfl⟩, rfl⟩, rfl⟩, rfl⟩, rfl⟩ := hl
    refine ⟨scope, gs, r.1, r.2, rfl, hr, rfl, ?_⟩
    exact .gap (within_require.of_leaves h₁) (.gap (within_expect.of_leaves h₂)
      (.block (.gap (within_require.of_leaves h₃) .nil)))

namespace ClassDecl

variable {h : Hierarchy} {c c₁ : ClassDecl} {fs : List Fault}

theorem leaves_check (hl : (c.check h).Leaves fs c₁) :
    ∃ outs : List (List Fault × Feature), List.Forall₂ (fun f o =>
        ((c.context h).checkFeature (c.context h).classScope.push f).Leaves o.1 o.2) c.features outs ∧
      c₁ = { c with features := outs.map (·.2) } ∧ fs = (outs.map (·.1)).flatten := by
  simp only [check, Context.checkFeatures_eq_all, leaves_bind, leaves_pure] at hl
  obtain ⟨_, features, _, hfs, ⟨rfl, rfl⟩, rfl⟩ := hl
  obtain ⟨outs, houts, rfl, rfl⟩ := leaves_all hfs
  exact ⟨outs, List.forall₂_map_left_iff.mp houts, rfl, List.append_nil _⟩

/-- The bodies of a class that is checked to its end have been checked so, and what comes out of them
stands in the class that comes out. -/
theorem leaves_body (hl : (c.check h).Leaves fs c₁) {f : Feature} (hf : f ∈ c.features) :
    ∃ inner gs u e₁, ((c.context h).bodyScope (c.context h).classScope.push f).outcome = .ok inner ∧
      (f.body.check (c.context h) inner.push).Leaves gs (u, e₁) ∧ e₁.walk ⊆ c₁.walk := by
  obtain ⟨outs, houts, rfl, -⟩ := leaves_check hl
  obtain ⟨o, ho, hf₁⟩ := exists_of_forall₂_mem houts hf
  obtain ⟨inner, gs, u, e₁, hinner, he, hbody, -⟩ := Context.leaves_checkFeature hf₁
  refine ⟨inner, gs, u, e₁, hinner, he, fun x hx => ?_⟩
  refine List.mem_flatMap.mpr ⟨o.2, List.mem_map_of_mem ho, ?_⟩
  rw [hbody]
  cases f <;> exact hx

theorem own_of_leaves (hl : (c.check h).Leaves fs c₁) : ∀ x ∈ fs, (c.context h).Own x := by
  obtain ⟨outs, houts, -, rfl⟩ := leaves_check hl
  intro x hx
  obtain ⟨_, hb, hx⟩ := List.mem_flatten.mp hx
  obtain ⟨o, ho, rfl⟩ := List.mem_map.mp hb
  obtain ⟨f, -, hf⟩ := exists_of_forall₂_mem houts.flip ho
  obtain ⟨inner, gs, u, e₁, -, he, -, hspaced⟩ := Context.leaves_checkFeature hf
  rcases hspaced.mem hx with hx | ⟨_, hgs, hx⟩
  · exact hx
  · obtain rfl := List.mem_singleton.mp hgs
    exact Expr.own_of_leaves he x hx

theorem exists_check_of_mem_walk (hl : (c.check h).Leaves fs c₁) {x : Expr} (hx : x ∈ c₁.walk) :
    ∃ inner e u gs, (Expr.check (c.context h) inner e).Leaves gs (u, x) ∧ gs ⊆ fs := by
  obtain ⟨outs, houts, rfl, rfl⟩ := leaves_check hl
  obtain ⟨f₁, hf₁, hx⟩ := List.mem_flatMap.mp hx
  obtain ⟨o, ho, rfl⟩ := List.mem_map.mp hf₁
  obtain ⟨f, -, hf⟩ := exists_of_forall₂_mem houts.flip ho
  obtain ⟨inner, gs, u, e₁, -, he, hbody, hspaced⟩ := Context.leaves_checkFeature hf
  have hx' : x ∈ e₁.walk := by
    rw [hbody] at hx
    cases f <;> exact hx
  obtain ⟨inner', e, u', gs', hgs', hsub⟩ := Expr.exists_check_of_mem_walk he hx'
  refine ⟨inner', e, u', gs', hgs', fun y hy => ?_⟩
  exact List.mem_flatten_of_mem (List.mem_map_of_mem ho)
    (hspaced.subset List.mem_cons_self (hsub hy))

end ClassDecl

namespace Program

variable {p : Program} {i : Interner} {v : Verdict}

theorem analyse_leaves (hv : (p.analyse i).verdict = .ok v)
    (hout : (p.analyse i).registration.outlineFaults = []) :
    (Report.all (p.classes.map (·.check (p.analyse i).hierarchy))).Leaves v.faults
      v.program.classes := by
  rw [analyse_verdict_eq, if_pos hout] at hv
  rcases hr : Report.all (p.classes.map (·.check (p.analyse i).hierarchy)) with ⟨fs, x⟩
  rw [hr] at hv
  cases x with
  | error e => cases hv
  | ok cs =>
    rw [← Except.ok.inj hv]
    exact hr

theorem exists_check_of_mem_walk (hv : (p.analyse i).verdict = .ok v)
    (hout : (p.analyse i).registration.outlineFaults = []) {c : ClassDecl} {x : Expr}
    (hx : (c, x) ∈ v.program.walk) :
    ∃ inner e u gs, (Expr.check (c.context (p.analyse i).hierarchy) inner e).Leaves gs (u, x) ∧
      gs ⊆ v.faults := by
  obtain ⟨outs, houts, hclasses, hfaults⟩ := leaves_all (analyse_leaves hv hout)
  rw [walk, hclasses, List.mem_flatMap] at hx
  obtain ⟨_, hc₁, hx⟩ := hx
  obtain ⟨o, ho, rfl⟩ := List.mem_map.mp hc₁
  obtain ⟨y, hy, heq⟩ := List.mem_map.mp hx
  obtain ⟨rfl, rfl⟩ := Prod.mk.inj heq
  obtain ⟨r, hr, hl⟩ := exists_of_forall₂_mem houts.flip ho
  obtain ⟨d, -, rfl⟩ := List.mem_map.mp hr
  obtain ⟨inner, e, u, gs, he, hsub⟩ := ClassDecl.exists_check_of_mem_walk hl hy
  refine ⟨inner, e, u, gs, ?_, fun f hf => ?_⟩
  · obtain ⟨_, -, hd, -⟩ := ClassDecl.leaves_check hl
    rwa [hd]
  · rw [hfaults]
    exact List.mem_flatten_of_mem (List.mem_map_of_mem ho) (hsub hf)

end Program
end CoolStatics
