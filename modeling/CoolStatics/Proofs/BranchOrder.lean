import CoolStatics.Proofs.Interchange
import CoolStatics.Proofs.Shuffling
import Mathlib.Data.List.FinRange

/-!
The branches of cases in another order. However the branches of all the cases of a program are permuted,
each case by itself, the same checks break off, and otherwise every expression keeps its type, wherever
it has been moved to, and the same messages are given.
-/
namespace CoolStatics

open Report

/-- Permutations of branches, one for each place where a case may stand and each number of branches it
may have there. A place is the way to it: which child is taken at each node. -/
def Rearrangement := List Nat → (n : Nat) → Equiv.Perm (Fin n)

namespace Rearrangement

variable {α β : Type}

def below (σ : Rearrangement) (i : Nat) : Rearrangement := fun place => σ (i :: place)

def apply (σ : Rearrangement) (xs : List α) : List α :=
  List.ofFn fun i => xs.get (σ [] xs.length i)

theorem apply_perm (σ : Rearrangement) (xs : List α) : (σ.apply xs).Perm xs := by
  have hperm := (σ [] xs.length).ofFn_comp_perm xs.get
  rwa [List.ofFn_get] at hperm

theorem apply_eq (σ : Rearrangement) {xs : List α} {n : Nat} (hn : n = xs.length) :
    σ.apply xs = List.ofFn fun i => xs.get (Fin.cast hn (σ [] n i)) := by
  subst hn
  rfl

theorem forall₂_apply (σ : Rearrangement) {R : α → β → Prop} {xs : List α} {ys : List β}
    (h : List.Forall₂ R xs ys) : List.Forall₂ R (σ.apply xs) (σ.apply ys) := by
  obtain ⟨hlen, hR⟩ := List.forall₂_iff_get.mp h
  rw [apply, σ.apply_eq hlen]
  refine List.forall₂_iff_get.mpr ⟨by simp, fun i hi hi' => ?_⟩
  simp only [List.get_ofFn]
  exact hR _ _ _

def reversed : Rearrangement := fun _ _ => Fin.revPerm

end Rearrangement

theorem forall₂_mapIdx {α β γ δ : Type} {R : α → β → Prop} {T : γ → δ → Prop} {f : Nat → α → γ}
    {g : Nat → β → δ} {xs : List α} {ys : List β} (h : List.Forall₂ R xs ys)
    (hT : ∀ i, ∀ x ∈ xs, ∀ y, R x y → T (f i x) (g i y)) :
    List.Forall₂ T (xs.mapIdx f) (ys.mapIdx g) := by
  induction h generalizing f g with
  | nil => exact .nil
  | @cons x y xs ys hxy _ ih =>
    rw [List.mapIdx_cons, List.mapIdx_cons]
    refine .cons (hT 0 x List.mem_cons_self y hxy) (ih fun i z hz => ?_)
    exact hT (i + 1) z (List.mem_cons_of_mem _ hz)

theorem forall₂_mapIdx_right {α β : Type} {T : α → β → Prop} {f : Nat → α → β} {xs : List α}
    (hT : ∀ i, ∀ x ∈ xs, T x (f i x)) : List.Forall₂ T xs (xs.mapIdx f) := by
  refine List.forall₂_iff_get.mpr ⟨by simp, fun i hi _ => ?_⟩
  simpa using hT i xs[i] (List.getElem_mem hi)

theorem map_mapIdx_snd {α β γ : Type} (a : α) (f : Nat → β → γ) (xs : List β) :
    (xs.mapIdx f).map (a, ·) = (xs.map (a, ·)).mapIdx fun i c => (c.1, f i c.2) := by
  refine List.ext_getElem (by simp) fun i hi hi' => ?_
  simp

namespace Expr

mutual

/-- The branches of every case in an expression, rearranged. -/
def rearrange (σ : Rearrangement) : Expr → Expr
  | node line type? form => node line type? (rearrangeForm σ form)

def rearrangeForm (σ : Rearrangement) : Form Expr → Form Expr
  | .assign name value => .assign name (rearrange (σ.below 0) value)
  | .dispatch receiver method args =>
    .dispatch (rearrange (σ.below 0) receiver) method (rearrangeList (fun i => σ.below (i + 1)) args)
  | .staticDispatch receiver type method args =>
    .staticDispatch (rearrange (σ.below 0) receiver) type method
      (rearrangeList (fun i => σ.below (i + 1)) args)
  | .cond pred yes no =>
    .cond (rearrange (σ.below 0) pred) (rearrange (σ.below 1) yes) (rearrange (σ.below 2) no)
  | .loop pred body => .loop (rearrange (σ.below 0) pred) (rearrange (σ.below 1) body)
  | .case scrutinee branches =>
    .case (rearrange (σ.below 0) scrutinee)
      (σ.apply (rearrangeBranches (fun i => σ.below (i + 1)) branches))
  | .block body => .block (rearrangeList σ.below body)
  | .letIn name type init body =>
    .letIn name type (rearrange (σ.below 0) init) (rearrange (σ.below 1) body)
  | .arith op lhs rhs => .arith op (rearrange (σ.below 0) lhs) (rearrange (σ.below 1) rhs)
  | .compare op lhs rhs => .compare op (rearrange (σ.below 0) lhs) (rearrange (σ.below 1) rhs)
  | .eq lhs rhs => .eq (rearrange (σ.below 0) lhs) (rearrange (σ.below 1) rhs)
  | .neg operand => .neg (rearrange (σ.below 0) operand)
  | .not operand => .not (rearrange (σ.below 0) operand)
  | .isVoid operand => .isVoid (rearrange (σ.below 0) operand)
  | .int value => .int value
  | .string value => .string value
  | .bool value => .bool value
  | .new type => .new type
  | .identifier name => .identifier name
  | .absent => .absent

def rearrangeList (σ : Nat → Rearrangement) : List Expr → List Expr
  | [] => []
  | e :: rest => rearrange (σ 0) e :: rearrangeList (fun i => σ (i + 1)) rest

def rearrangeBranches (σ : Nat → Rearrangement) : List (Branch Expr) → List (Branch Expr)
  | [] => []
  | ⟨name, type, body, line⟩ :: rest =>
    ⟨name, type, rearrange (σ 0) body, line⟩ :: rearrangeBranches (fun i => σ (i + 1)) rest

end

theorem rearrangeList_eq (σ : Nat → Rearrangement) (es : List Expr) :
    rearrangeList σ es = es.mapIdx fun i e => e.rearrange (σ i) := by
  induction es generalizing σ with
  | nil => rfl
  | cons e es ih => rw [rearrangeList, ih, List.mapIdx_cons]

theorem rearrangeBranches_eq (σ : Nat → Rearrangement) (bs : List (Branch Expr)) :
    rearrangeBranches σ bs = bs.mapIdx fun i b => { b with body := b.body.rearrange (σ i) } := by
  induction bs generalizing σ with
  | nil => rfl
  | cons b bs ih => rw [rearrangeBranches, ih, List.mapIdx_cons]

theorem line_rearrange (σ : Rearrangement) (e : Expr) : (e.rearrange σ).line = e.line := by
  obtain ⟨_, _, f⟩ := e
  rw [rearrange, line, line]

variable {f : Form Expr}

theorem alike_rearrangeForm (σ : Rearrangement) (hf : ∀ s bs, f ≠ .case s bs) :
    f.Alike (rearrangeForm σ f) := by
  have hlist : ∀ (es : List Expr) (τ : Nat → Rearrangement),
      List.Forall₂ (fun _ _ => True) es (rearrangeList τ es) := fun es τ => by
    rw [rearrangeList_eq]
    exact forall₂_mapIdx_right fun _ _ _ => trivial
  cases f with
  | case scrutinee branches => exact absurd rfl (hf scrutinee branches)
  | dispatch _ _ args => exact .dispatch trivial (hlist args _)
  | staticDispatch _ _ _ args => exact .staticDispatch trivial (hlist args _)
  | block body => exact .block (hlist body _)
  | _ => constructor <;> trivial

theorem parts_rearrangeForm (σ : Rearrangement) (hf : ∀ s bs, f ≠ .case s bs) (cx : Context)
    (scope : Scope) : cx.parts scope (rearrangeForm σ f) =
      (cx.parts scope f).mapIdx fun i c => (c.1, c.2.rearrange (σ.below i)) := by
  cases f with
  | case scrutinee branches => exact absurd rfl (hf scrutinee branches)
  | dispatch receiver method args | staticDispatch receiver _ method args =>
    rw [rearrangeForm, rearrangeList_eq]
    simp only [Context.parts, Form.children, List.map_cons, List.mapIdx_cons, map_mapIdx_snd]
  | block body =>
    rw [rearrangeForm, rearrangeList_eq]
    exact map_mapIdx_snd scope _ body
  | _ => rfl

def SameLine (e e' : Expr) : Prop := e'.line = e.line

theorem congruent_sameLine : Congruent Eq SameLine := fun _ _ => rfl

def ComesAs (cx : Context) (c : Scope × Expr) (e₁ : Expr) : Prop :=
  ∃ u, (c.2.check cx c.1).outcome = .ok (u, e₁)

theorem rightUnique_comesAs (cx : Context) : Relator.RightUnique (ComesAs cx) := by
  rintro c e₁ e₁' ⟨u, hu⟩ ⟨u', hu'⟩
  exact (Prod.mk.inj (Except.ok.inj (hu.symm.trans hu'))).2

variable {cx : Context} {scope : Scope} {line : Line} {type? : Option Symbol} {t : Symbol}
  {f₁ : Form Expr} {e₁ : Expr} {σ : Rearrangement}

theorem comesAs_node (hok : ((node line type? f).check cx scope).outcome = .ok (t, e₁)) :
    ∃ f₁, e₁ = node line (some t) f₁ ∧ f.Alike f₁ ∧
      List.Forall₂ (ComesAs cx) (cx.parts scope f) f₁.children := by
  have hl : ((node line type? f).check cx scope).Leaves
      ((node line type? f).check cx scope).faults (t, e₁) := by
    rw [Leaves, ← hok]
  obtain ⟨f₁, outs, rfl, hf, houts, hchildren, -⟩ := leaves_node hl
  refine ⟨f₁, rfl, hf, ?_⟩
  rw [hchildren, List.forall₂_map_right_iff]
  refine houts.imp fun c o ho => ?_
  obtain ⟨u, hu⟩ := ho
  exact ⟨u, by rw [hu]⟩

/-- What relates the children of two nodes alike, each in its scope, relates them after the rearranging
too, if that is so for each of them. -/
theorem forall₂_rearrangeForm (σ : Rearrangement) {Q : Scope × Expr → Expr → Prop} (hf : f.Alike f₁)
    (hc : List.Forall₂ Q (cx.parts scope f) f₁.children)
    (hQ : ∀ i, ∀ c ∈ cx.parts scope f, ∀ c₁, Q c c₁ →
      Q (c.1, c.2.rearrange (σ.below i)) (c₁.rearrange (σ.below i))) :
    (rearrangeForm σ f).Alike (rearrangeForm σ f₁) ∧
      List.Forall₂ Q (cx.parts scope (rearrangeForm σ f)) (rearrangeForm σ f₁).children := by
  by_cases hcase : ∃ s bs, f = .case s bs
  · obtain ⟨s, bs, rfl⟩ := hcase
    cases hf with
    | @case _ s₁ _ bs₁ _ hbs =>
      obtain ⟨hs, hbodies⟩ := List.forall₂_cons.mp hc
      rw [List.forall₂_map_left_iff, List.forall₂_map_right_iff] at hbodies
      -- branch by branch, before the places change and so also afterwards
      have hbranches : List.Forall₂ (fun b b₁ => Branch.Rel (fun _ _ => True) b b₁ ∧
          Q (cx.extend scope b.name (cx.bound b.type), b.body) b₁.body)
          (rearrangeBranches (fun i => σ.below (i + 1)) bs)
          (rearrangeBranches (fun i => σ.below (i + 1)) bs₁) := by
        rw [rearrangeBranches_eq, rearrangeBranches_eq]
        refine forall₂_mapIdx (hbs.mp (fun _ _ => And.intro) hbodies) fun i b hb b₁ h => ?_
        refine ⟨⟨trivial, by rw [h.1.2]⟩, hQ (i + 1) _ ?_ _ h.2⟩
        exact List.mem_cons_of_mem _ (List.mem_map_of_mem hb)
      have happly := σ.forall₂_apply hbranches
      refine ⟨.case trivial (happly.imp fun _ _ h => h.1), .cons (hQ 0 _ List.mem_cons_self _ hs) ?_⟩
      rw [List.forall₂_map_left_iff, List.forall₂_map_right_iff]
      exact happly.imp fun _ _ h => h.2
  · have hcase : ∀ s bs, f ≠ .case s bs := fun s bs h => hcase ⟨s, bs, h⟩
    have hcase₁ : ∀ s bs, f₁ ≠ .case s bs := by
      rintro s bs rfl
      cases hf with
      | case => exact hcase _ _ rfl
    refine ⟨((alike_rearrangeForm σ hcase).symm.trans hf).trans (alike_rearrangeForm σ hcase₁), ?_⟩
    rw [← cx.map_snd_parts scope, List.forall₂_map_right_iff] at hc ⊢
    rw [parts_rearrangeForm σ hcase, parts_rearrangeForm σ hcase₁]
    exact forall₂_mapIdx hc fun i c hc c₁ h => hQ i c hc c₁.2 h

theorem shuffled_case (en : cx.Enrolled) {s s' : Expr} {bs bs' bs'' : List (Branch Expr)}
    (hs : Abreast shuffled cx cx Eq SameLine (scope, s) (scope, s'))
    (hbs : List.Forall₂ (Branch.Rel fun _ _ => True) bs bs')
    (hbody : List.Forall₂ (Abreast shuffled cx cx Eq SameLine)
      (bs.map fun b => (cx.extend scope b.name (cx.bound b.type), b.body))
      (bs'.map fun b => (cx.extend scope b.name (cx.bound b.type), b.body)))
    (hperm : bs'.Perm bs'') :
    shuffled.rel (Paired Eq SameLine) ((node line type? (.case s bs)).check cx scope)
      ((node line type? (.case s' bs'')).check cx scope) := by
  have hinOrder := abreast_checkBranches (Context.concord_self shuffled cx) hbs (fun _ _ => trivial)
    hbody [] (rfl : cx.names .noType = cx.names .noType)
  have hseen : ((·.1) <$> checkBranches cx scope [] (cx.names .noType) bs).seen =
      ((·.1) <$> checkBranches cx scope [] (cx.names .noType) bs'').seen := by
    rw [seen_map_of_shuffled hinOrder fun _ _ h => h.1, cx.map_fst_checkBranches,
      cx.map_fst_checkBranches, en.seen_joinBranches_perm hperm Context.isType_noType]
  rw [check, check]
  refine shuffled.bind hs fun r r' hr => ?_
  exact shuffled.bind (shuffled_of_seen hseen) fun q q' hq => shuffled.pure ⟨hq, rfl⟩

theorem shuffled_node (en : cx.Enrolled) (hc : ∀ c ∈ cx.parts scope f, ∀ τ,
      Abreast shuffled cx cx Eq SameLine c (c.1, c.2.rearrange τ)) :
    shuffled.rel (Paired Eq SameLine) ((node line type? f).check cx scope)
      ((node line type? (rearrangeForm σ f)).check cx scope) := by
  by_cases hcase : ∃ s bs, f = .case s bs
  · obtain ⟨s, bs, rfl⟩ := hcase
    refine shuffled_case en (hc _ List.mem_cons_self _) ?_ ?_ (σ.apply_perm _).symm
    · rw [rearrangeBranches_eq]
      exact forall₂_mapIdx_right fun _ _ _ => ⟨trivial, rfl⟩
    · rw [rearrangeBranches_eq, List.forall₂_map_left_iff, List.forall₂_map_right_iff]
      refine forall₂_mapIdx_right fun i b hb => ?_
      exact hc _ (List.mem_cons_of_mem _ (List.mem_map_of_mem hb)) _
  · have hcase : ∀ s bs, f ≠ .case s bs := fun s bs h => hcase ⟨s, bs, h⟩
    have cc := Context.concord_self shuffled cx
    refine abreast_node cc congruent_sameLine id (alike_rearrangeForm σ hcase)
      (fun _ _ => cc.sameVariable rfl _) (fun _ _ => trivial) (fun _ _ => trivial) ?_ line type? type?
    rw [parts_rearrangeForm σ hcase]
    exact forall₂_mapIdx_right fun i c hc' => hc c hc' _

/-- An expression with rearranged cases has the type that it had and comes out rearranged, and the
messages are the same. -/
theorem shuffled_rearrange (en : cx.Enrolled) (e : Expr) (σ : Rearrangement) (scope : Scope) :
    shuffled.rel (Paired Eq fun x y => y = x.rearrange σ) (e.check cx scope)
      ((e.rearrange σ).check cx scope) := by
  induction e using induct generalizing σ scope with
  | step e ih =>
    obtain ⟨line, type?, f⟩ := e
    have hchild : ∀ c ∈ cx.parts scope f, ∀ τ, shuffled.rel (Paired Eq fun x y => y = x.rearrange τ)
        (c.2.check cx c.1) ((c.2.rearrange τ).check cx c.1) := fun c hc τ =>
      ih c.2 (Context.mem_children_of_mem_parts hc) τ c.1
    rw [rearrange]
    refine shuffled_imp (shuffled_node en fun c hc τ => ?_) fun ⟨t, e₁⟩ ⟨t', e₁'⟩ hok hok' ht => ?_
    · refine shuffled.mono (hchild c hc τ) fun r r' hr => ⟨hr.1, ?_⟩
      rw [hr.2, SameLine, line_rearrange]
    · -- both have come to their ends, and a node comes out in one way only
      obtain rfl : t = t' := ht.1
      obtain ⟨f₁, rfl, hf, hc⟩ := comesAs_node hok
      obtain ⟨f₁', rfl, hf', hc'⟩ := comesAs_node hok'
      obtain ⟨hf₁, hc₁⟩ := forall₂_rearrangeForm σ hf hc fun i c hc c₁ hout => by
        obtain ⟨u, hu⟩ := hout
        obtain ⟨⟨u', c₁'⟩, hu', -, rfl⟩ := exists_of_shuffled (hchild c hc (σ.below i)) hu
        exact ⟨u', hu'⟩
      have hchildren := List.right_unique_forall₂' (rightUnique_comesAs cx) hc' hc₁
      refine ⟨rfl, ?_⟩
      dsimp only
      rw [rearrange, (hf'.symm.trans hf₁).eq_of_children hchildren]

end Expr

/-! Features, classes and programs. A place begins with the positions of the class and of the feature. -/

def Feature.rearrange (σ : Rearrangement) (f : Feature) : Feature := f.withBody (f.body.rearrange σ)

def ClassDecl.rearrange (σ : Rearrangement) (c : ClassDecl) : ClassDecl :=
  { c with features := c.features.mapIdx fun i f => f.rearrange (σ.below i) }

def Program.rearrange (σ : Rearrangement) (p : Program) : Program :=
  ⟨p.classes.mapIdx fun i c => c.rearrange (σ.below i)⟩

theorem Context.shuffled_checkFeature {cx : Context} (en : cx.Enrolled) (scope : Scope)
    (σ : Rearrangement) (f : Feature) :
    shuffled.rel (fun f₁ f₁' => f₁' = f₁.rearrange σ) (cx.checkFeature scope f)
      (cx.checkFeature scope (f.rearrange σ)) := by
  have hheads : Heads shuffled cx cx Eq scope f (f.rearrange σ) := by
    have hunit : ∀ r : Report Unit, shuffled.rel (fun _ _ => True) r r := fun r =>
      shuffled.mono (shuffled.refl r) fun _ _ _ => trivial
    cases f with
    | method m => exact .method rfl rfl rfl (hunit _) (shuffled.refl _)
    | attr a => exact .attr rfl rfl (hunit _) (shuffled.refl _)
  have hbody : ∀ {inner inner' : Scope}, (cx.bodyScope scope f).outcome = .ok inner → inner = inner' →
      shuffled.rel (Expr.Paired Eq fun x y => y = x.rearrange σ) (f.body.check cx inner.push)
        ((f.rearrange σ).body.check cx inner'.push) := by
    rintro inner _ - rfl
    have hrearranged := Expr.shuffled_rearrange en f.body σ inner.push
    cases f <;> exact hrearranged
  refine shuffled.mono
    (rel_checkFeature (concord_self shuffled cx) rfl (fun _ _ => trivial) hheads hbody) ?_
  rintro f₁ f₁' ⟨e, _, rfl, rfl, rfl⟩
  cases f <;> rfl

theorem Report.Relator.all_mapIdx (L : Relator) {α β : Type} {r : α → Report β} {g : Nat → α → α}
    {k : Nat → β → β} {as : List α}
    (h : ∀ i, ∀ a ∈ as, L.rel (fun b b' => b' = k i b) (r a) (r (g i a))) :
    L.rel (fun bs bs' => bs' = bs.mapIdx k) (Report.all (as.map r))
      (Report.all ((as.mapIdx g).map r)) := by
  induction as generalizing g k with
  | nil => exact L.pure rfl
  | cons a as ih =>
    rw [List.mapIdx_cons, List.map_cons, List.map_cons, Report.all, Report.all]
    refine L.bind (h 0 a List.mem_cons_self) fun b b' hb => ?_
    refine L.bind (ih fun i x hx => h (i + 1) x (List.mem_cons_of_mem _ hx)) fun bs bs' hbs => ?_
    exact L.pure (by rw [hb, hbs, List.mapIdx_cons])

theorem ClassDecl.shuffled_check {h : Hierarchy} {c : ClassDecl} (en : (c.context h).Enrolled)
    (σ : Rearrangement) :
    shuffled.rel (fun c₁ c₁' => c₁' = c₁.rearrange σ) (c.check h) ((c.rearrange σ).check h) := by
  have hctx : (c.rearrange σ).context h = c.context h := rfl
  rw [check, check, hctx, Context.checkFeatures_eq_all, Context.checkFeatures_eq_all]
  refine shuffled.bind (shuffled.all_mapIdx fun i f _ =>
    Context.shuffled_checkFeature en _ (σ.below i) f) fun fs fs' hfs => shuffled.pure ?_
  rw [hfs]
  rfl

theorem Hierarchy.build_rearrange (names : Vocabulary) (σ : Rearrangement) (p : Program) :
    build names (p.rearrange σ) = build names p := by
  refine build_eq_of_bare (map_eq_of_forall₂ (fun h => h) (forall₂_mapIdx_right fun i c _ => ?_))
  rw [ClassDecl.bare, ClassDecl.bare]
  refine congrArg (fun fs => { c with features := fs }) ?_
  refine map_eq_of_forall₂ (fun h => h) (forall₂_mapIdx_right fun j f _ => ?_)
  cases f <;> rfl

theorem Hierarchy.Enrols.enrolled {h : Hierarchy} {p : Program} (en : h.Enrols p)
    (hnt : ∀ c ∈ p.classes, c.name ≠ h.names .noType) {c : ClassDecl} (hc : c ∈ p.classes) :
    (c.context h).Enrolled :=
  ⟨en.furnished c, ⟨en.acyclic, en.not_has_selfType⟩, en.not_has (by decide) hnt, en.has_class hc⟩

theorem Verdict.map_message_diagnostics (v : Verdict) (i : Interner) :
    (v.diagnostics i).map (·.message) = (v.faults.map (·.cause)).map (·.message i) := by
  rw [diagnostics, List.map_map, List.map_map]
  rfl

namespace Program

variable {p : Program} {i : Interner}

/-- The order of branches does not matter. If the classes of a program are checked and none is called
`_no_type`, then however the branches of its cases are rearranged, either both analyses break off, or
each expression has the same type, with branches in their new places, and the messages are the same up
to their order. -/
theorem analyse_rearrange {classes : List (Report ClassDecl)}
    (hnt : ∀ c ∈ p.classes, c.name ≠ (Vocabulary.intern i).1 .noType)
    (hrun : (p.analyse i).conclusion = .checked classes) (σ : Rearrangement) :
    (∃ e e', (p.analyse i).verdict = .error e ∧ ((p.rearrange σ).analyse i).verdict = .error e') ∨
      ∃ v v', (p.analyse i).verdict = .ok v ∧ ((p.rearrange σ).analyse i).verdict = .ok v' ∧
        v'.program = v.program.rearrange σ ∧
        ∀ k, ((v.diagnostics k).map (·.message)).Perm ((v'.diagnostics k).map (·.message)) := by
  obtain ⟨hout, -⟩ := analyse_checked_iff.mp hrun
  obtain ⟨hnames, en, -⟩ := Hierarchy.outline_clean hout
  have hbuild := Hierarchy.build_rearrange (Vocabulary.intern i).1 σ p
  have hsame : ((p.rearrange σ).analyse i).hierarchy = (p.analyse i).hierarchy :=
    congrArg Hierarchy.Registration.hierarchy hbuild
  have hchecks : shuffled.rel (fun cs cs' => cs' = cs.mapIdx fun i c => c.rearrange (σ.below i))
      (Report.all (p.classes.map (·.check (p.analyse i).hierarchy)))
      (Report.all ((p.rearrange σ).classes.map (·.check ((p.rearrange σ).analyse i).hierarchy))) := by
    rw [hsame]
    exact shuffled.all_mapIdx fun i c hc =>
      ClassDecl.shuffled_check (en.enrolled (by rwa [hnames]) hc) _
  have hclean : (p.analyse i).registration.outlineFaults = [] := hout
  have hclean' : ((p.rearrange σ).analyse i).registration.outlineFaults = [] :=
    (congrArg Hierarchy.Registration.outlineFaults hbuild).trans hout
  rw [analyse_verdict_eq, analyse_verdict_eq, if_pos hclean, if_pos hclean']
  obtain ⟨e, e', he, he'⟩ | ⟨cs, cs', hcs, hcs', hrearranged, hcauses⟩ := shuffled_cases.mp hchecks
  · left
    exact ⟨e, e', by rw [he]; rfl, by rw [he']; rfl⟩
  · right
    refine ⟨_, _, by rw [hcs]; rfl, by rw [hcs']; rfl, by rw [hrearranged]; rfl, fun k => ?_⟩
    rw [Verdict.map_message_diagnostics, Verdict.map_message_diagnostics]
    exact hcauses.map _

/-- `case 1 of x : Int => self; x : String => new A; x : Int => new B; esac`. -/
def repeatedBranch (names : Vocabulary) : Expr :=
  Expr.plain 3 (.case (Expr.plain 3 (.int 1))
    [⟨⟨32⟩, names .int, Expr.plain 4 (.identifier (names .self)), 4⟩,
      ⟨⟨32⟩, names .string, Expr.plain 5 (.new ⟨26⟩), 5⟩,
      ⟨⟨32⟩, names .int, Expr.plain 6 (.new ⟨27⟩), 6⟩])

/-- In the other order another branch is found to repeat a type, and again the case has the type `A`. -/
theorem analyse_rearrange_repeatedBranch :
    ∃ v v', ((heirMain .initial (repeatedBranch .initial)).analyse .empty).verdict = .ok v ∧
      (((heirMain .initial (repeatedBranch .initial)).rearrange .reversed).analyse .empty).verdict =
        .ok v' ∧ v.faults.length = 1 ∧ v.faults ≠ v'.faults ∧
      v'.program = v.program.rearrange .reversed ∧
      ∀ k, ((v.diagnostics k).map (·.message)).Perm ((v'.diagnostics k).map (·.message)) := by
  have hnt : ∀ c ∈ (heirMain .initial (repeatedBranch .initial)).classes,
      c.name ≠ (Vocabulary.intern .empty).1 .noType := by decide
  have hrun : ∃ classes,
      ((heirMain .initial (repeatedBranch .initial)).analyse .empty).conclusion = .checked classes :=
    ⟨_, rfl⟩
  have hfaults : ∃ v v',
      ((heirMain .initial (repeatedBranch .initial)).analyse .empty).verdict = .ok v ∧
      (((heirMain .initial (repeatedBranch .initial)).rearrange .reversed).analyse .empty).verdict =
        .ok v' ∧ v.faults.length = 1 ∧ v.faults ≠ v'.faults := ⟨_, _, rfl, rfl, by decide, by decide⟩
  obtain ⟨classes, hrun⟩ := hrun
  obtain ⟨v, v', hv, hv', hlength, hne⟩ := hfaults
  refine ⟨v, v', hv, hv', hlength, hne, ?_⟩
  obtain ⟨e, -, he, -⟩ | ⟨w, w', hw, hw', hprogram, hmessages⟩ :=
    analyse_rearrange hnt hrun .reversed
  · rw [hv] at he
    cases he
  · rw [hv] at hw
    rw [hv'] at hw'
    rw [Except.ok.inj hw, Except.ok.inj hw']
    exact ⟨hprogram, hmessages⟩

end Program
end CoolStatics
