import CoolStatics.Proofs.Correspondence

/-!
Two checks side by side, each in a context and a scope of its own. The two contexts are in concord about
some names if the rules of typing, asked about related types, in related scopes and about these names
only, come to related ends. Then two nodes alike are checked alike if their children are, each in its
scope, and so an expression that mentions no other names is checked alike in both contexts.
-/
namespace CoolStatics

open Report

/-- The names that a node itself mentions as types. -/
def Form.typeNames {ε : Type} : Form ε → List Symbol
  | .staticDispatch _ type _ _ => [type]
  | .case _ branches => branches.map (·.type)
  | .letIn _ type _ _ => [type]
  | .new type => [type]
  | _ => []

def Form.variable? {ε : Type} : Form ε → Option Symbol
  | .assign name _ => some name
  | .identifier name => some name
  | _ => none

def Expr.typeNames (e : Expr) : List Symbol := e.walk.flatMap (·.form.typeNames)

/-- The names that a feature mentions as types, its body included. -/
def Feature.typeNames : Feature → List Symbol
  | .method m => m.result :: m.formals.map (·.type) ++ m.body.typeNames
  | .attr a => a.type :: a.init.typeNames

theorem Feature.mem_typeNames_of_body {f : Feature} {t : Symbol} (ht : t ∈ f.body.typeNames) :
    t ∈ f.typeNames := by
  cases f with
  | method m => exact List.mem_cons_of_mem _ (List.mem_append_right _ ht)
  | attr a => exact List.mem_cons_of_mem _ ht

theorem Expr.typeNames_eq (e : Expr) :
    e.typeNames = e.form.typeNames ++ e.children.flatMap typeNames := by
  rw [typeNames, walk_eq, List.flatMap_cons, List.flatMap_assoc]
  rfl

namespace Context

variable (cx : Context)

/-- The type that a local variable with the given declared type has. -/
def bound (type : Symbol) : Symbol := if cx.isKnown type then type else cx.names .object

/-- The children of a node, each beside the scope that it is checked in. -/
def parts (scope : Scope) : Form Expr → List (Scope × Expr)
  | .case scrutinee branches =>
    (scope, scrutinee) ::
      branches.map fun b => (cx.extend scope b.name (cx.bound b.type), b.body)
  | .letIn name type init body => [(scope, init), (cx.extend scope name (cx.bound type), body)]
  | f => f.children.map (scope, ·)

theorem map_snd_parts (scope : Scope) (f : Form Expr) :
    (cx.parts scope f).map Prod.snd = f.children := by
  cases f <;> simp [parts, Form.children, Function.comp_def]

variable {cx}

theorem mem_children_of_mem_parts {scope : Scope} {f : Form Expr} {c : Scope × Expr}
    (hc : c ∈ cx.parts scope f) : c.2 ∈ f.children := by
  rw [← cx.map_snd_parts scope f]
  exact List.mem_map_of_mem hc

theorem expect_eq {kept : Bool} {line : Line} {cause : Cause} {t : Symbol} :
    cx.expect kept line cause t =
      (do cx.require kept line cause; pure (if kept then t else cx.names .object)) := by
  cases kept <;> rfl

theorem letType_eq {line : Line} {name type : Symbol} :
    cx.letType line name type =
      (do cx.require (cx.isKnown type) line (.undefinedLetType name type)
          cx.require (name ≠ cx.names .self) line .selfLet
          pure (cx.bound type)) := by
  rw [letType, expect_eq, bind_assoc]
  rfl

/-- The class in which a dispatch on the expression looks for its method, by the type that the expression
is checked to have. -/
def checkedOwner? (cx : Context) (scope : Scope) (e : Expr) : Option Symbol :=
  (e.check cx scope).outcome.toOption.map fun r => cx.hierarchy.denoted cx.current r.1

/-- The class in which a dispatch on a typed expression looks for its method. -/
def typedOwner? (cx : Context) (e : Expr) : Option Symbol :=
  e.type?.map (cx.hierarchy.denoted cx.current)

theorem checkedOwner?_of_ok {scope : Scope} {e : Expr} {r : Symbol × Expr}
    (hr : (e.check cx scope).outcome = .ok r) :
    cx.checkedOwner? scope e = some (cx.hierarchy.denoted cx.current r.1) := by
  rw [checkedOwner?, hr]
  rfl

/-- The rules for variables come to related ends when they are asked about the variable `x` in one context
and scope, and about `x'` in another. -/
structure SameVariable (L : Relator) (cx cx' : Context) (R : Symbol → Symbol → Prop)
    (scope scope' : Scope) (x x' : Symbol) : Prop where
  identifier : ∀ {line},
    L.rel R (cx.identifierType scope line x) (cx'.identifierType scope' line x')
  assign : ∀ {line t t'}, R t t' →
    L.rel R (cx.assignType scope line x t) (cx'.assignType scope' line x' t')

/-- The rules of typing keep types related from one context to another, in scopes that are related: those
that take a name for a type for the names in `written`, and those of calls for the methods that are
`called`, each in the class in which it is looked for. -/
structure Concord (L : Relator) (cx cx' : Context) (R : Symbol → Symbol → Prop)
    (S : Scope → Scope → Prop) (written : Symbol → Prop) (called : Symbol → Symbol → Prop) :
    Prop where
  names : cx'.names = cx.names
  isKnown : ∀ {t}, written t → cx'.isKnown t = cx.isKnown t
  known : ∀ {t}, written t → cx.isKnown t = true → R t t
  basic : ∀ q ∈ [Predefined.object, .int, .bool, .string, .noType], R (cx.names q) (cx.names q)
  extend : ∀ {scope scope' name type}, S scope scope' → written type →
    S (cx.extend scope name (cx.bound type)) (cx'.extend scope' name (cx'.bound type))
  require : ∀ {kept line cause},
    L.rel (fun _ _ => True) (cx.require kept line cause) (cx'.require kept line cause)
  identifier : ∀ {scope scope' line name}, S scope scope' →
    L.rel R (cx.identifierType scope line name) (cx'.identifierType scope' line name)
  assign : ∀ {scope scope' line name t t'}, S scope scope' → R t t' →
    L.rel R (cx.assignType scope line name t) (cx'.assignType scope' line name t')
  dispatch : ∀ {line m s s' args args'}, called (cx.hierarchy.denoted cx.current s) m → R s s' →
    List.Forall₂ R args args' → L.rel R (cx.dispatchType line m s args) (cx'.dispatchType line m s' args')
  staticDispatch : ∀ {line owner m s s' args args'}, written owner → called owner m → R s s' →
    List.Forall₂ R args args' →
    L.rel R (cx.staticDispatchType line owner m s args)
      (cx'.staticDispatchType line owner m s' args')
  join : ∀ {s s' t t'}, R s s' → R t t' → L.rel R (cx.join s t) (cx'.join s' t')
  predicate : ∀ {of line t t'}, R t t' →
    L.rel (fun _ _ => True) (cx.checkPredicate of line t) (cx'.checkPredicate of line t')
  fits : ∀ {type line t t'} (cause : Symbol → Cause), R t t' →
    L.rel (fun _ _ => True) (cx.require (cx.conforms type t) line (cause t))
      (cx'.require (cx'.conforms type t') line (cause t'))
  arith : ∀ {op line s s' t t'}, R s s' → R t t' →
    L.rel R (cx.arithType op line s t) (cx'.arithType op line s' t')
  compare : ∀ {op line s s' t t'}, R s s' → R t t' →
    L.rel R (cx.compareType op line s t) (cx'.compareType op line s' t')
  eq : ∀ {line s s' t t'}, R s s' → R t t' → L.rel R (cx.eqType line s t) (cx'.eqType line s' t')
  neg : ∀ {line t t'}, R t t' → L.rel R (cx.negType line t) (cx'.negType line t')
  not : ∀ {line t t'}, R t t' → L.rel R (cx.notType line t) (cx'.notType line t')

namespace Concord

variable {L : Relator} {cx' : Context} {R : Symbol → Symbol → Prop} {S : Scope → Scope → Prop}
  {written : Symbol → Prop} {called : Symbol → Symbol → Prop} {type : Symbol}

theorem object (cc : Concord L cx cx' R S written called) :
    R (cx.names .object) (cx.names .object) :=
  cc.basic _ (by simp)

theorem noType (cc : Concord L cx cx' R S written called) :
    R (cx.names .noType) (cx.names .noType) :=
  cc.basic _ (by simp)

theorem sameVariable (cc : Concord L cx cx' R S written called) {scope scope' : Scope}
    (hs : S scope scope') (name : Symbol) : SameVariable L cx cx' R scope scope' name name :=
  ⟨cc.identifier hs, cc.assign hs⟩

theorem bound_eq (cc : Concord L cx cx' R S written called) (hw : written type) :
    cx'.bound type = cx.bound type := by
  rw [bound, bound, cc.isKnown hw, cc.names]

theorem new (cc : Concord L cx cx' R S written called) {line : Line} (hw : written type) :
    L.rel R (cx.newType line type) (cx'.newType line type) := by
  rw [newType, newType, expect_eq, expect_eq, cc.isKnown hw, cc.names]
  refine L.bind cc.require fun _ _ _ => L.pure ?_
  split_ifs with hk
  · exact cc.known hw hk
  · exact cc.object

theorem branchType (cc : Concord L cx cx' R S written called) (hw : written type) {t t' : Symbol}
    (ht : R t t') : R (cx.branchType type t) (cx'.branchType type t') := by
  rw [Context.branchType, Context.branchType, cc.isKnown hw, cc.names]
  split_ifs
  · exact ht
  · exact cc.object

theorem forall₂_parts (cc : Concord L cx cx' R S written called) {scope scope' : Scope}
    (hs : S scope scope') {f : Form Expr} (hw : ∀ t ∈ f.typeNames, written t) :
    List.Forall₂ (fun c c' : Scope × Expr => S c.1 c'.1 ∧ c'.2 = c.2 ∧ c.2 ∈ f.children)
      (cx.parts scope f) (cx'.parts scope' f) := by
  have hlist : ∀ es : List Expr, List.Forall₂ (fun c c' : Scope × Expr =>
      S c.1 c'.1 ∧ c'.2 = c.2 ∧ c.2 ∈ es) (es.map (scope, ·)) (es.map (scope', ·)) := by
    intro es
    rw [List.forall₂_map_left_iff, List.forall₂_map_right_iff, List.forall₂_same]
    intro e he
    exact ⟨hs, rfl, he⟩
  cases f with
  | case scrutinee branches =>
    refine .cons ⟨hs, rfl, List.mem_cons_self⟩ ?_
    rw [List.forall₂_map_left_iff, List.forall₂_map_right_iff, List.forall₂_same]
    intro b hb
    have hbody : b.body ∈ branches.map (·.body) := List.mem_map_of_mem hb
    exact ⟨cc.extend hs (hw _ (List.mem_map_of_mem hb)), rfl, List.mem_cons_of_mem _ hbody⟩
  | letIn name type init body =>
    have hbody : S (cx.extend scope name (cx.bound type)) (cx'.extend scope' name (cx'.bound type)) :=
      cc.extend hs (hw type List.mem_cons_self)
    exact .cons ⟨hs, rfl, by simp [Form.children]⟩ (.cons ⟨hbody, rfl, by simp [Form.children]⟩ .nil)
  | _ => exact hlist _

end Concord

theorem concord_refl (L : Relator) (cx : Context) {S : Scope → Scope → Prop}
    (hextend : ∀ {scope scope' name type}, S scope scope' →
      S (cx.extend scope name type) (cx.extend scope' name type))
    (hvar : ∀ {scope scope' x}, S scope scope' → SameVariable L cx cx Eq scope scope' x x) :
    Concord L cx cx Eq S (fun _ => True) fun _ _ => True := by
  have hunit : ∀ r : Report Unit, L.rel (fun _ _ => True) r r := fun r =>
    L.mono (L.refl r) fun _ _ _ => trivial
  have hargs : ∀ {args args' : List Symbol}, List.Forall₂ Eq args args' → args = args' := by
    intro args args' h
    rwa [List.forall₂_eq_eq_eq] at h
  constructor
  case names => rfl
  case isKnown => exact fun _ => rfl
  case known => exact fun _ _ => rfl
  case basic => exact fun _ _ => rfl
  case extend => exact fun hs _ => hextend hs
  case require => exact hunit _
  case identifier => exact fun hs => (hvar hs).identifier
  case assign => exact fun hs => (hvar hs).assign
  case dispatch =>
    rintro line m s _ args args' _ rfl h
    rw [hargs h]
    exact L.refl _
  case staticDispatch =>
    rintro line owner m s _ args args' _ _ rfl h
    rw [hargs h]
    exact L.refl _
  case join =>
    rintro s _ t _ rfl rfl
    exact L.refl _
  case predicate =>
    rintro of line t _ rfl
    exact hunit _
  case fits =>
    rintro type line t _ cause rfl
    exact hunit _
  case arith | compare =>
    rintro op line s _ t _ rfl rfl
    exact L.refl _
  case eq =>
    rintro line s _ t _ rfl rfl
    exact L.refl _
  case neg | not =>
    rintro line t _ rfl
    exact L.refl _

theorem concord_self (L : Relator) (cx : Context) :
    Concord L cx cx Eq Eq (fun _ => True) fun _ _ => True := by
  refine concord_refl L cx ?_ ?_
  · rintro scope _ name type rfl
    rfl
  · rintro scope _ x rfl
    refine ⟨L.refl _, ?_⟩
    rintro line t _ rfl
    exact L.refl _

end Context

namespace Expr

variable {L : Relator} {cx cx' : Context} {R : Symbol → Symbol → Prop} {P : Expr → Expr → Prop}
  {S : Scope → Scope → Prop} {written : Symbol → Prop} {called : Symbol → Symbol → Prop}
  {scope scope' : Scope}

/-- Passes from the children of two typed nodes to the nodes. -/
def Congruent (R : Symbol → Symbol → Prop) (P : Expr → Expr → Prop) : Prop :=
  ∀ {line t t' f f'}, R t t' → Form.Rel P f f' → P (node line (some t) f) (node line (some t') f')

theorem congruent_eq : Congruent Eq Eq := by
  intro line t t' f f' ht hf
  rw [ht, hf.eq_of_eq]

def Paired (R : Symbol → Symbol → Prop) (P : Expr → Expr → Prop) (r r' : Symbol × Expr) : Prop :=
  R r.1 r'.1 ∧ P r.2 r'.2

theorem Paired.types {rs rs' : List (Symbol × Expr)} (hrs : List.Forall₂ (Paired R P) rs rs') :
    List.Forall₂ R (rs.map (·.1)) (rs'.map (·.1)) :=
  List.forall₂_map_left_iff.mpr (List.forall₂_map_right_iff.mpr (hrs.imp fun _ _ h => h.1))

theorem Paired.exprs {rs rs' : List (Symbol × Expr)} (hrs : List.Forall₂ (Paired R P) rs rs') :
    List.Forall₂ P (rs.map (·.2)) (rs'.map (·.2)) :=
  List.forall₂_map_left_iff.mpr (List.forall₂_map_right_iff.mpr (hrs.imp fun _ _ h => h.2))

theorem rel_getLast {ts ts' : List Symbol} (hts : List.Forall₂ R ts ts') {d d' : Symbol}
    (hd : R d d') : R (ts.getLast?.getD d) (ts'.getLast?.getD d') := by
  induction hts generalizing d d' with
  | nil => exact hd
  | cons ht _ ih =>
    rw [List.getLast?_cons, List.getLast?_cons]
    exact ih ht

/-- The checks of two expressions, each in its scope, correspond. -/
def Abreast (L : Relator) (cx cx' : Context) (R : Symbol → Symbol → Prop)
    (P : Expr → Expr → Prop) (c c' : Scope × Expr) : Prop :=
  L.rel (Paired R P) (c.2.check cx c.1) (c'.2.check cx' c'.1)

theorem abreast_checkList {es es' : List Expr}
    (hes : List.Forall₂ (Abreast L cx cx' R P) (es.map (scope, ·)) (es'.map (scope', ·))) :
    L.rel (List.Forall₂ (Paired R P)) (checkList cx scope es) (checkList cx' scope' es') := by
  rw [List.forall₂_map_left_iff, List.forall₂_map_right_iff] at hes
  induction hes with
  | nil => exact L.pure .nil
  | cons he _ ih =>
    rw [checkList, checkList]
    exact L.bind he fun r r' hr => L.bind ih fun rs rs' hrs => L.pure (.cons hr hrs)

theorem abreast_checkBranches (cc : Context.Concord L cx cx' R S written called)
    {bs bs' : List (Branch Expr)} (hbs : List.Forall₂ (Branch.Rel fun _ _ => True) bs bs')
    (hw : ∀ b ∈ bs, written b.type)
    (hbody : List.Forall₂ (Abreast L cx cx' R P)
      (bs.map fun b => (cx.extend scope b.name (cx.bound b.type), b.body))
      (bs'.map fun b => (cx'.extend scope' b.name (cx'.bound b.type), b.body)))
    (before : List Symbol) {t t' : Symbol} (ht : R t t') :
    L.rel (fun r r' => R r.1 r'.1 ∧ List.Forall₂ (Branch.Rel P) r.2 r'.2)
      (checkBranches cx scope before t bs) (checkBranches cx' scope' before t' bs') := by
  induction hbs generalizing before t t' with
  | nil => exact L.pure ⟨ht, .nil⟩
  | @cons b b' bs bs' hb _ ih =>
    obtain ⟨name, type, body, line⟩ := b
    obtain ⟨-, hb'⟩ := hb
    rw [List.forall_mem_cons] at hw
    obtain ⟨hw, hws⟩ := hw
    rw [hb', List.map_cons, List.map_cons] at hbody
    cases hbody with
    | cons hfirst hrest =>
      have hknown : cx'.isKnown type = cx.isKnown type := cc.isKnown hw
      rw [hb', checkBranches, checkBranches, Context.branchScope, Context.branchScope]
      simp only [bind_assoc, pure_bind]
      rw [hknown, cc.names]
      refine L.bind cc.require fun _ _ _ => L.bind cc.require fun _ _ _ => ?_
      refine L.bind cc.require fun _ _ _ => ?_
      rw [Abreast, Context.bound, Context.bound, hknown, cc.names] at hfirst
      refine L.bind hfirst fun r r' hr => ?_
      refine L.bind (cc.join ht (cc.branchType hw hr.1)) fun j j' hj => ?_
      refine L.bind (ih hws hrest _ hj) fun q q' hq => ?_
      exact L.pure ⟨hq.1, .cons ⟨hr.2, rfl⟩ hq.2⟩

/-- Nodes alike are checked alike if their variables and their children are, each in its scope. -/
theorem abreast_node (cc : Context.Concord L cx cx' R S written called) (hP : Congruent R P)
    (hline : ∀ {x y}, P x y → y.line = x.line) {f f' : Form Expr} (hf : f.Alike f')
    (hvar : ∀ x, f.variable? = some x → Context.SameVariable L cx cx' R scope scope' x x)
    (hw : ∀ t ∈ f.typeNames, written t)
    (hcall : ∀ c, f.target? (cx.checkedOwner? scope) = some c → called c.1 c.2)
    (hc : List.Forall₂ (Abreast L cx cx' R P) (cx.parts scope f) (cx'.parts scope' f'))
    (line : Line) (type? type?' : Option Symbol) :
    L.rel (Paired R P) ((node line type? f).check cx scope)
      ((node line type?' f').check cx' scope') := by
  cases hf with
  | assign =>
    obtain ⟨hv, -⟩ := List.forall₂_cons.mp hc
    rw [check, check]
    refine L.bind hv fun r r' hr => L.bind ((hvar _ rfl).assign hr.1) fun t t' ht => ?_
    exact L.pure ⟨ht, hP ht (.assign hr.2)⟩
  | dispatch =>
    obtain ⟨hr, hargs⟩ := List.forall₂_cons.mp hc
    rw [check, check]
    refine L.bindOk hr fun r r' hok hr => L.bind (abreast_checkList hargs) fun rs rs' hrs => ?_
    have hm := hcall _ (Form.target?_dispatch (Context.checkedOwner?_of_ok hok))
    refine L.bind (cc.dispatch hm hr.1 (Paired.types hrs)) fun t t' ht => ?_
    exact L.pure ⟨ht, hP ht (.dispatch hr.2 (Paired.exprs hrs))⟩
  | staticDispatch =>
    have hown := hw _ List.mem_cons_self
    obtain ⟨hr, hargs⟩ := List.forall₂_cons.mp hc
    rw [check, check]
    refine L.bind hr fun r r' hr => L.bind (abreast_checkList hargs) fun rs rs' hrs => ?_
    refine L.bind (cc.staticDispatch hown (hcall _ rfl) hr.1 (Paired.types hrs)) fun t t' ht => ?_
    exact L.pure ⟨ht, hP ht (.staticDispatch hr.2 (Paired.exprs hrs))⟩
  | cond =>
    obtain ⟨hp, hc⟩ := List.forall₂_cons.mp hc
    obtain ⟨hy, hc⟩ := List.forall₂_cons.mp hc
    obtain ⟨hn, -⟩ := List.forall₂_cons.mp hc
    rw [check, check]
    refine L.bind hp ?_
    rintro ⟨p, pred⟩ ⟨p', pred'⟩ hp
    have hl : pred'.line = pred.line := hline hp.2
    dsimp only
    rw [hl]
    refine L.bind (cc.predicate hp.1) fun _ _ _ => L.bind hy fun y y' hy => ?_
    refine L.bind hn fun n n' hn => L.bind (cc.join hy.1 hn.1) fun t t' ht => ?_
    exact L.pure ⟨ht, hP ht (.cond hp.2 hy.2 hn.2)⟩
  | loop =>
    obtain ⟨hp, hc⟩ := List.forall₂_cons.mp hc
    obtain ⟨hb, -⟩ := List.forall₂_cons.mp hc
    rw [check, check, cc.names]
    refine L.bind hp ?_
    rintro ⟨p, pred⟩ ⟨p', pred'⟩ hp
    have hl : pred'.line = pred.line := hline hp.2
    dsimp only
    rw [hl]
    refine L.bind (cc.predicate hp.1) fun _ _ _ => L.bind hb fun b b' hb => ?_
    exact L.pure ⟨cc.object, hP cc.object (.loop hp.2 hb.2)⟩
  | case _ hbs =>
    obtain ⟨hs, hbody⟩ := List.forall₂_cons.mp hc
    have hw := List.forall_mem_map.mp hw
    rw [check, check, cc.names]
    refine L.bind hs fun s s' hs => ?_
    refine L.bind (abreast_checkBranches cc hbs hw hbody [] cc.noType) fun q q' hq => ?_
    exact L.pure ⟨hq.1, hP hq.1 (.case hs.2 hq.2)⟩
  | block =>
    rw [check, check, cc.names]
    refine L.bind (abreast_checkList hc) fun rs rs' hrs => ?_
    have ht : R ((rs.getLast?.map (·.1)).getD (cx.names .noType))
        ((rs'.getLast?.map (·.1)).getD (cx.names .noType)) := by
      rw [← List.getLast?_map, ← List.getLast?_map]
      exact rel_getLast (Paired.types hrs) cc.noType
    exact L.pure ⟨ht, hP ht (.block (Paired.exprs hrs))⟩
  | letIn =>
    have hdeclared := hw _ List.mem_cons_self
    obtain ⟨hi, hc⟩ := List.forall₂_cons.mp hc
    obtain ⟨hb, -⟩ := List.forall₂_cons.mp hc
    rw [check, check, Context.letType_eq, Context.letType_eq]
    simp only [bind_assoc, pure_bind]
    rw [cc.bound_eq hdeclared] at hb
    rw [cc.isKnown hdeclared, cc.names, cc.bound_eq hdeclared]
    refine L.bind cc.require fun _ _ _ => L.bind cc.require fun _ _ _ => ?_
    refine L.bind hi fun i i' hi => L.bind (cc.fits _ hi.1) fun _ _ _ => ?_
    refine L.bind hb fun b b' hb => ?_
    exact L.pure ⟨hb.1, hP hb.1 (.letIn hi.2 hb.2)⟩
  | arith =>
    obtain ⟨hl, hc⟩ := List.forall₂_cons.mp hc
    obtain ⟨hr, -⟩ := List.forall₂_cons.mp hc
    rw [check, check]
    refine L.bind hl fun l l' hl => L.bind hr fun r r' hr => ?_
    refine L.bind (cc.arith hl.1 hr.1) fun t t' ht => ?_
    exact L.pure ⟨ht, hP ht (.arith hl.2 hr.2)⟩
  | compare =>
    obtain ⟨hl, hc⟩ := List.forall₂_cons.mp hc
    obtain ⟨hr, -⟩ := List.forall₂_cons.mp hc
    rw [check, check]
    refine L.bind hl fun l l' hl => L.bind hr fun r r' hr => ?_
    refine L.bind (cc.compare hl.1 hr.1) fun t t' ht => ?_
    exact L.pure ⟨ht, hP ht (.compare hl.2 hr.2)⟩
  | eq =>
    obtain ⟨hl, hc⟩ := List.forall₂_cons.mp hc
    obtain ⟨hr, -⟩ := List.forall₂_cons.mp hc
    rw [check, check]
    refine L.bind hl fun l l' hl => L.bind hr fun r r' hr => ?_
    refine L.bind (cc.eq hl.1 hr.1) fun t t' ht => ?_
    exact L.pure ⟨ht, hP ht (.eq hl.2 hr.2)⟩
  | neg =>
    obtain ⟨ho, -⟩ := List.forall₂_cons.mp hc
    rw [check, check]
    refine L.bind ho fun o o' ho => L.bind (cc.neg ho.1) fun t t' ht => ?_
    exact L.pure ⟨ht, hP ht (.neg ho.2)⟩
  | not =>
    obtain ⟨ho, -⟩ := List.forall₂_cons.mp hc
    rw [check, check]
    refine L.bind ho fun o o' ho => L.bind (cc.not ho.1) fun t t' ht => ?_
    exact L.pure ⟨ht, hP ht (.not ho.2)⟩
  | isVoid =>
    have hbool := cc.basic .bool (by simp)
    obtain ⟨ho, -⟩ := List.forall₂_cons.mp hc
    rw [check, check, cc.names]
    refine L.bind ho fun o o' ho => ?_
    exact L.pure ⟨hbool, hP hbool (.isVoid ho.2)⟩
  | int =>
    have hint := cc.basic .int (by simp)
    rw [check, check, cc.names]
    exact L.pure ⟨hint, hP hint .int⟩
  | string =>
    have hstring := cc.basic .string (by simp)
    rw [check, check, cc.names]
    exact L.pure ⟨hstring, hP hstring .string⟩
  | bool =>
    have hbool := cc.basic .bool (by simp)
    rw [check, check, cc.names]
    exact L.pure ⟨hbool, hP hbool .bool⟩
  | new =>
    rw [check, check]
    refine L.bind (cc.new (hw _ List.mem_cons_self)) fun t t' ht => ?_
    exact L.pure ⟨ht, hP ht .new⟩
  | identifier =>
    rw [check, check]
    refine L.bind (hvar _ rfl).identifier fun t t' ht => ?_
    exact L.pure ⟨ht, hP ht .identifier⟩
  | absent =>
    rw [check, check, cc.names]
    exact L.pure ⟨cc.noType, hP cc.noType .absent⟩

theorem abreast_check (cc : Context.Concord L cx cx' R S written called) (hP : Congruent R P)
    (e : Expr) (hw : ∀ t ∈ e.typeNames, written t)
    (hcall : ∀ x ∈ e.walk, ∀ m, x.form.callee? = some m → ∀ owner, called owner m)
    (hs : S scope scope') :
    L.rel (Paired R P) (e.check cx scope) (e.check cx' scope') := by
  -- beside the given relation the lines agree
  have hQ : Congruent R fun x y => P x y ∧ y.line = x.line := fun ht hf =>
    ⟨hP ht (hf.imp fun _ _ h => h.1), rfl⟩
  suffices h : L.rel (Paired R fun x y => P x y ∧ y.line = x.line) (e.check cx scope)
      (e.check cx' scope') from L.mono h fun _ _ hr => ⟨hr.1, hr.2.1⟩
  induction e using induct generalizing scope scope' with
  | step e ih =>
    obtain ⟨line, type?, f⟩ := e
    rw [typeNames_eq, List.forall_mem_append] at hw
    rw [walk_eq, List.forall_mem_cons] at hcall
    refine abreast_node cc hQ (fun h => h.2) (.refl f) (fun x _ => cc.sameVariable hs x) hw.1
      (fun c hc => hcall.1 _ (Form.callee?_of_target? hc) c.1) ?_ line type? type?
    refine (cc.forall₂_parts hs hw.1).imp ?_
    rintro ⟨scope, _⟩ ⟨scope', c⟩ ⟨hs, rfl, hc⟩
    exact ih c hc (fun t ht => hw.2 t (List.mem_flatMap.mpr ⟨c, hc, ht⟩))
      (fun x hx => hcall.2 x (List.mem_flatMap.mpr ⟨c, hc, hx⟩)) hs

end Expr
end CoolStatics
