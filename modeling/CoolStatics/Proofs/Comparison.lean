import CoolStatics.Proofs.Concord
import CoolStatics.Proofs.Shape

/-!
Two checks in one scope. If the rules of typing correspond in two contexts for all names, then two checks
correspond node by node, once the checks of the children do, each in its own scope. Contexts of the same
shape are the main case: there the rules that ask for no members are the same.
-/
namespace CoolStatics

open Report

namespace Context

variable {cx : Context}

/-- The rules of typing keep types related from one context to another, those of calls for the methods
that are `called`, each in the class in which it is looked for. -/
structure Transfers (L : Relator) (cx cx' : Context) (R : Symbol → Symbol → Prop)
    (called : Symbol → Symbol → Prop) : Prop where
  names : cx'.names = cx.names
  isKnown : ∀ t, cx'.isKnown t = cx.isKnown t
  refl : ∀ t, R t t
  require : ∀ {kept line cause},
    L.rel (fun _ _ => True) (cx.require kept line cause) (cx'.require kept line cause)
  identifier : ∀ {scope line name},
    L.rel R (cx.identifierType scope line name) (cx'.identifierType scope line name)
  assign : ∀ {scope line name t t'}, R t t' →
    L.rel R (cx.assignType scope line name t) (cx'.assignType scope line name t')
  dispatch : ∀ {line m s s' args args'}, called (cx.hierarchy.denoted cx.current s) m → R s s' →
    List.Forall₂ R args args' → L.rel R (cx.dispatchType line m s args) (cx'.dispatchType line m s' args')
  staticDispatch : ∀ {line owner m s s' args args'}, called owner m → R s s' →
    List.Forall₂ R args args' →
    L.rel R (cx.staticDispatchType line owner m s args)
      (cx'.staticDispatchType line owner m s' args')
  join : ∀ {s s' t t'}, R s s' → R t t' → L.rel R (cx.join s t) (cx'.join s' t')
  predicate : ∀ {of line t t'}, R t t' →
    L.rel (fun _ _ => True) (cx.checkPredicate of line t) (cx'.checkPredicate of line t')
  fits : ∀ {type line t t'} (cause : Symbol → Cause), R t t' →
    L.rel (fun _ _ => True) (cx.require (cx.conforms type t) line (cause t))
      (cx'.require (cx'.conforms type t') line (cause t'))
  arith : ∀ {op line s s' t t'}, R s s' → R t t' →
    L.rel R (cx.arithType op line s t) (cx'.arithType op line s' t')
  compare : ∀ {op line s s' t t'}, R s s' → R t t' →
    L.rel R (cx.compareType op line s t) (cx'.compareType op line s' t')
  eq : ∀ {line s s' t t'}, R s s' → R t t' → L.rel R (cx.eqType line s t) (cx'.eqType line s' t')
  neg : ∀ {line t t'}, R t t' → L.rel R (cx.negType line t) (cx'.negType line t')
  not : ∀ {line t t'}, R t t' → L.rel R (cx.notType line t) (cx'.notType line t')

namespace Transfers

variable {L : Relator} {cx' : Context} {R : Symbol → Symbol → Prop}
  {called : Symbol → Symbol → Prop}

theorem bound_eq (tr : Transfers L cx cx' R called) (t : Symbol) : cx'.bound t = cx.bound t := by
  rw [bound, bound, tr.isKnown, tr.names]

theorem extend_eq (tr : Transfers L cx cx' R called) (scope : Scope) (name t : Symbol) :
    cx'.extend scope name t = cx.extend scope name t := by
  rw [extend, extend, tr.names]

theorem concord (tr : Transfers L cx cx' R called) :
    Concord L cx cx' R Eq (fun _ => True) called where
  names := tr.names
  isKnown _ := tr.isKnown _
  known _ _ := tr.refl _
  basic _ _ := tr.refl _
  extend hs _ := by rw [hs, tr.bound_eq, tr.extend_eq]
  require := tr.require
  identifier hs := hs ▸ tr.identifier
  assign hs := hs ▸ tr.assign
  dispatch := tr.dispatch
  staticDispatch _ := tr.staticDispatch
  join := tr.join
  predicate := tr.predicate
  fits := tr.fits
  arith := tr.arith
  compare := tr.compare
  eq := tr.eq
  neg := tr.neg
  not := tr.not

theorem map_fst_parts (tr : Transfers L cx cx' R called) (scope : Scope) {f f' : Form Expr}
    (hf : f.Alike f') : (cx'.parts scope f').map Prod.fst = (cx.parts scope f).map Prod.fst := by
  have hlist : ∀ {es es' : List Expr}, List.Forall₂ (fun _ _ => True) es es' →
      (es'.map (scope, ·)).map Prod.fst = (es.map (scope, ·)).map Prod.fst := by
    intro es es' hes
    simp [Function.comp_def, hes.length_eq]
  cases hf with
  | dispatch _ hargs | staticDispatch _ hargs => exact congrArg (scope :: ·) (hlist hargs)
  | block hes => exact hlist hes
  | case _ hbs =>
    refine congrArg (scope :: ·) ?_
    rw [List.map_map, List.map_map, ← List.forall₂_eq_eq_eq, List.forall₂_map_left_iff,
      List.forall₂_map_right_iff]
    refine hbs.flip.imp fun b' b hb => ?_
    rw [hb.2]
    simp only [Function.comp_apply, tr.bound_eq, tr.extend_eq]
  | letIn => simp only [parts, List.map_cons, List.map_nil, tr.bound_eq, tr.extend_eq]
  | _ => rfl

end Transfers

/-- The same class in hierarchies that agree about the types in `T`, its own class among them. -/
structure Agree (cx cx' : Context) (T : Symbol → Prop) : Prop where
  names : cx'.names = cx.names
  current : cx'.current = cx.current
  file : cx'.file = cx.file
  own : T cx.current
  has : ∀ {t}, T t → cx'.hierarchy.has t = cx.hierarchy.has t
  conforms : ∀ {d t}, T t → cx'.conforms d t = cx.conforms d t
  join : ∀ {s t}, T s → T t → cx'.join s t = cx.join s t

namespace Agree

variable {cx' : Context} {T : Symbol → Prop} {scope : Scope} {line : Line} {cause : Cause}
  {kept : Bool} {name owner m s t : Symbol} {args : List Symbol}

theorem classScope_eq (ag : Agree cx cx' T) : cx'.classScope = cx.classScope := by
  rw [classScope, classScope, ag.names]

theorem isKnown_eq (ag : Agree cx cx' T) (ht : T t) : cx'.isKnown t = cx.isKnown t := by
  rw [isKnown, isKnown, ag.names, ag.has ht]

theorem taken_eq (ag : Agree cx cx' T) (ht : T t) : cx'.taken t = cx.taken t := by
  rw [taken, taken, ag.isKnown_eq ht, ag.names]

theorem note_eq (ag : Agree cx cx' T) : cx'.note line cause = cx.note line cause := by
  rw [note, note, ag.file]

theorem fallBack_eq (ag : Agree cx cx' T) : cx'.fallBack line cause = cx.fallBack line cause := by
  rw [fallBack, fallBack, ag.note_eq, ag.names]

theorem require_eq (ag : Agree cx cx' T) :
    cx'.require kept line cause = cx.require kept line cause := by
  rw [require, require, ag.note_eq]

theorem expect_eq (ag : Agree cx cx' T) :
    cx'.expect kept line cause t = cx.expect kept line cause t := by
  rw [expect, expect, ag.fallBack_eq]

theorem checkPredicate_eq (ag : Agree cx cx' T) {of : Guarded} :
    cx'.checkPredicate of line t = cx.checkPredicate of line t := by
  rw [checkPredicate, checkPredicate, ag.require_eq, ag.names]

theorem arithType_eq (ag : Agree cx cx' T) {op : ArithOp} :
    cx'.arithType op line s t = cx.arithType op line s t := by
  rw [arithType, arithType, ag.expect_eq, ag.names]

theorem compareType_eq (ag : Agree cx cx' T) {op : CompareOp} :
    cx'.compareType op line s t = cx.compareType op line s t := by
  rw [compareType, compareType, ag.expect_eq, ag.names]

theorem eqType_eq (ag : Agree cx cx' T) : cx'.eqType line s t = cx.eqType line s t := by
  rw [eqType, eqType, ag.expect_eq, ag.names]

theorem negType_eq (ag : Agree cx cx' T) : cx'.negType line t = cx.negType line t := by
  rw [negType, negType, ag.expect_eq, ag.names]

theorem notType_eq (ag : Agree cx cx' T) : cx'.notType line t = cx.notType line t := by
  rw [notType, notType, ag.expect_eq, ag.names]

theorem bindFormals_eq (ag : Agree cx cx' T) (scope : Scope) {fs : List Formal}
    (hfs : ∀ f ∈ fs, T f.type) : cx'.bindFormals scope fs = cx.bindFormals scope fs := by
  induction fs generalizing scope with
  | nil => rfl
  | cons f fs ih =>
    rw [List.forall_mem_cons] at hfs
    rw [bindFormals, bindFormals, ag.names, ag.note_eq, ag.require_eq, ag.expect_eq, ag.has hfs.1]
    simp only [ih _ hfs.2]

theorem identifierType_eq (ag : Agree cx cx' T)
    (hvar : (cx'.objectType? scope name).map cx.taken = (cx.objectType? scope name).map cx.taken)
    (hT : ∀ t, cx'.objectType? scope name = some t → T t) :
    cx'.identifierType scope line name = cx.identifierType scope line name := by
  rw [identifierType, identifierType, ag.names, ag.fallBack_eq]
  cases h : cx.objectType? scope name <;> cases h' : cx'.objectType? scope name <;>
    simp_all [ag.taken_eq]

theorem assignType_eq (ag : Agree cx cx' T)
    (hvar : (cx'.objectType? scope name).map cx.taken = (cx.objectType? scope name).map cx.taken)
    (hT : ∀ t, cx'.objectType? scope name = some t → T t) (ht : T t) :
    cx'.assignType scope line name t = cx.assignType scope line name t := by
  rw [assignType, assignType, ag.names, ag.fallBack_eq, ag.fallBack_eq]
  simp only [ag.conforms ht, ag.note_eq]
  cases h : cx.objectType? scope name <;> cases h' : cx'.objectType? scope name <;>
    simp_all [ag.taken_eq]

theorem misfits_eq (ag : Agree cx cx' T) {pairs : List (Formal × Symbol)}
    (hT : ∀ p ∈ pairs, T p.2) : cx'.misfits pairs = cx.misfits pairs := by
  rw [misfits, misfits]
  refine List.filter_congr fun p hp => ?_
  exact congrArg (!·) (ag.conforms (hT p hp))

theorem callType_eq (ag : Agree cx cx' T)
    (hm : cx'.hierarchy.findMethod? owner m = cx.hierarchy.findMethod? owner m)
    (hT : ∀ sig, cx.hierarchy.findMethod? owner m = some sig → T sig.result)
    (hargs : ∀ a ∈ args, T a) :
    cx'.callType line owner m s args = cx.callType line owner m s args := by
  rw [callType, callType, hm]
  cases hsig : cx.hierarchy.findMethod? owner m with
  | none => exact ag.fallBack_eq
  | some sig =>
    have hmisfits : cx'.misfits (sig.formals.zip args) = cx.misfits (sig.formals.zip args) :=
      ag.misfits_eq fun p hp => hargs p.2 (List.of_mem_zip hp).2
    have hresult : cx'.resultType line m s sig.result = cx.resultType line m s sig.result := by
      rw [resultType, resultType, ag.names, ag.expect_eq, ag.has (hT sig hsig)]
    simp only [ag.fallBack_eq, hmisfits, noteAll, ag.file, hresult, ag.names]

theorem denoted_eq (ag : Agree cx cx' T) (s : Symbol) :
    cx'.hierarchy.denoted cx'.current s = cx.hierarchy.denoted cx.current s := by
  have hself : cx'.hierarchy.names .selfType = cx.hierarchy.names .selfType :=
    congrArg (Vocabulary.symbol · .selfType) ag.names
  rw [Hierarchy.denoted, Hierarchy.denoted, hself, ag.current]

theorem denoted (ag : Agree cx cx' T) (hs : T s) : T (cx.hierarchy.denoted cx.current s) := by
  rw [Hierarchy.denoted]
  split_ifs
  · exact ag.own
  · exact hs

theorem dispatchType_eq (ag : Agree cx cx' T)
    (hm : cx'.hierarchy.findMethod? (cx.hierarchy.denoted cx.current s) m =
      cx.hierarchy.findMethod? (cx.hierarchy.denoted cx.current s) m)
    (hT : ∀ owner sig, cx.hierarchy.findMethod? owner m = some sig → T sig.result) (hs : T s)
    (hargs : ∀ a ∈ args, T a) :
    cx'.dispatchType line m s args = cx.dispatchType line m s args := by
  rw [dispatchType, dispatchType, ag.denoted_eq, ag.has (ag.denoted hs),
    ag.callType_eq hm (hT _) hargs, ag.fallBack_eq]

theorem staticDispatchType_eq (ag : Agree cx cx' T)
    (hm : cx'.hierarchy.findMethod? owner m = cx.hierarchy.findMethod? owner m)
    (hT : ∀ sig, cx.hierarchy.findMethod? owner m = some sig → T sig.result) (hown : T owner)
    (hs : T s) (hargs : ∀ a ∈ args, T a) :
    cx'.staticDispatchType line owner m s args = cx.staticDispatchType line owner m s args := by
  rw [staticDispatchType, staticDispatchType, ag.names, ag.has hown, ag.callType_eq hm hT hargs,
    ag.fallBack_eq, ag.fallBack_eq, ag.conforms hs]

end Agree

/-- The same class in hierarchies of one shape. -/
structure Parallel (cx cx' : Context) : Prop where
  shape : cx.hierarchy.SameShape cx'.hierarchy
  acyclic : cx.hierarchy.Acyclic
  current : cx'.current = cx.current
  file : cx'.file = cx.file

namespace Parallel

variable {cx' : Context}

theorem names_eq (pl : Parallel cx cx') : cx'.names = cx.names := pl.shape.names

theorem agree (pl : Parallel cx cx') : Agree cx cx' fun _ => True where
  names := pl.names_eq
  current := pl.current
  file := pl.file
  own := trivial
  has _ := pl.shape.has_eq _
  conforms _ := by rw [conforms, conforms, pl.current, pl.shape.conforms_eq pl.acyclic]
  join _ _ := by rw [join, join, pl.current, pl.shape.join_eq pl.acyclic]

/-- Every rule comes to the same, if variables are taken for the same types and the methods that are
called have the same signatures. -/
theorem transfers (pl : Parallel cx cx') {L : Relator} {called : Symbol → Symbol → Prop}
    (hvar : ∀ scope name, (cx'.objectType? scope name).map cx.taken =
      (cx.objectType? scope name).map cx.taken)
    (hmethod : ∀ owner m, called owner m →
      cx'.hierarchy.findMethod? owner m = cx.hierarchy.findMethod? owner m) :
    Transfers L cx cx' Eq called := by
  have hunit : ∀ r : Report Unit, L.rel (fun _ _ => True) r r := fun r =>
    L.mono (L.refl r) fun _ _ _ => trivial
  have hargs : ∀ {args args' : List Symbol}, List.Forall₂ Eq args args' → args = args' := by
    intro args args' h
    rwa [List.forall₂_eq_eq_eq] at h
  have ag := pl.agree
  have hall : ∀ {args : List Symbol}, ∀ a ∈ args, True := fun _ _ => trivial
  constructor
  case names => exact ag.names
  case isKnown => exact fun _ => ag.isKnown_eq trivial
  case refl => exact fun _ => rfl
  case require =>
    intro kept line cause
    rw [ag.require_eq]
    exact hunit _
  case identifier =>
    intro scope line name
    rw [ag.identifierType_eq (hvar scope name) fun _ _ => trivial]
    exact L.refl _
  case assign =>
    rintro scope line name t _ rfl
    rw [ag.assignType_eq (hvar scope name) (fun _ _ => trivial) trivial]
    exact L.refl _
  case dispatch =>
    rintro line m s _ args args' hm rfl h
    obtain rfl := hargs h
    rw [ag.dispatchType_eq (hmethod _ m hm) (fun _ _ _ => trivial) trivial hall]
    exact L.refl _
  case staticDispatch =>
    rintro line owner m s _ args args' hm rfl h
    obtain rfl := hargs h
    rw [ag.staticDispatchType_eq (hmethod owner m hm) (fun _ _ => trivial) trivial trivial hall]
    exact L.refl _
  case join =>
    rintro s _ t _ rfl rfl
    rw [ag.join trivial trivial]
    exact L.refl _
  case predicate =>
    rintro of line t _ rfl
    rw [ag.checkPredicate_eq]
    exact hunit _
  case fits =>
    rintro type line t _ cause rfl
    rw [ag.require_eq, ag.conforms trivial]
    exact hunit _
  case arith =>
    rintro op line s _ t _ rfl rfl
    rw [ag.arithType_eq]
    exact L.refl _
  case compare =>
    rintro op line s _ t _ rfl rfl
    rw [ag.compareType_eq]
    exact L.refl _
  case eq =>
    rintro line s _ t _ rfl rfl
    rw [ag.eqType_eq]
    exact L.refl _
  case neg =>
    rintro line t _ rfl
    rw [ag.negType_eq]
    exact L.refl _
  case not =>
    rintro line t _ rfl
    rw [ag.notType_eq]
    exact L.refl _

end Parallel
end Context

namespace Expr

variable {L : Relator} {cx cx' : Context} {R : Symbol → Symbol → Prop} {P : Expr → Expr → Prop}
  {called : Symbol → Symbol → Prop} {scope : Scope}

def Corresponds (L : Relator) (cx cx' : Context) (R : Symbol → Symbol → Prop)
    (P : Expr → Expr → Prop) (c : Scope × Expr) (e' : Expr) : Prop :=
  L.rel (Paired R P) (c.2.check cx c.1) (e'.check cx' c.1)

theorem rel_checkList {es es' : List Expr}
    (hes : List.Forall₂ (Corresponds L cx cx' R P) (es.map (scope, ·)) es') :
    L.rel (List.Forall₂ (Paired R P)) (checkList cx scope es) (checkList cx' scope es') := by
  apply abreast_checkList
  rw [List.forall₂_map_left_iff] at hes
  rwa [List.forall₂_map_left_iff, List.forall₂_map_right_iff]

theorem rel_check_node (tr : Context.Transfers L cx cx' R called) (hP : Congruent R P)
    (hline : ∀ {x y}, P x y → y.line = x.line) {f f' : Form Expr} (hf : f.Alike f')
    (hcall : ∀ c, f.target? (cx.checkedOwner? scope) = some c → called c.1 c.2)
    (hc : List.Forall₂ (Corresponds L cx cx' R P) (cx.parts scope f) f'.children)
    (line : Line) (type? type?' : Option Symbol) :
    L.rel (Paired R P) ((node line type? f).check cx scope) ((node line type?' f').check cx' scope) := by
  refine abreast_node tr.concord hP hline hf (fun x _ => tr.concord.sameVariable rfl x)
    (fun _ _ => trivial) hcall ?_ line type? type?'
  rw [← cx'.map_snd_parts scope f', List.forall₂_map_right_iff] at hc
  have hscope : List.Forall₂ (fun c c' : Scope × Expr => c'.1 = c.1) (cx.parts scope f)
      (cx'.parts scope f') := by
    have hfst := tr.map_fst_parts scope hf
    rw [← List.forall₂_eq_eq_eq, List.forall₂_map_left_iff, List.forall₂_map_right_iff] at hfst
    exact hfst.flip
  refine hscope.mp (fun c c' hs hr => ?_) hc
  rwa [Abreast, hs]

/-- An expression is checked in the second context as in the first. -/
theorem rel_check (tr : Context.Transfers L cx cx' R called) (hP : Congruent R P) (e : Expr)
    (hcall : ∀ x ∈ e.walk, ∀ m, x.form.callee? = some m → ∀ owner, called owner m) (scope : Scope) :
    L.rel (Paired R P) (e.check cx scope) (e.check cx' scope) :=
  abreast_check tr.concord hP e (fun _ _ => trivial) hcall rfl

end Expr

def Feature.withBody : Feature → Expr → Feature
  | .method m, e => .method { m with body := e }
  | .attr a, e => .attr { a with init := e }

namespace Context

variable {L : Relator} {cx cx' : Context} {R : Symbol → Symbol → Prop} {P : Expr → Expr → Prop}
  {S : Scope → Scope → Prop} {written : Symbol → Prop} {called : Symbol → Symbol → Prop}
  {scope : Scope}

/-- Notes how a method departs from the one that it overrides. -/
def checkOverride (cx : Context) (m : Method) : Report Unit :=
  match (cx.hierarchy.inheritedMethod? cx.current m.name).bind m.departure? with
  | some how => cx.note m.line (.overrideDeparts m.name how)
  | none => pure ()

theorem Agree.checkOverride_eq {T : Symbol → Prop} (ag : Agree cx cx' T) {m : Method}
    (hm : cx'.hierarchy.inheritedMethod? cx'.current m.name =
      cx.hierarchy.inheritedMethod? cx.current m.name) :
    cx'.checkOverride m = cx.checkOverride m := by
  rw [checkOverride, checkOverride, hm]
  simp only [ag.note_eq]

theorem checkMethod_eq {m : Method} :
    cx.checkMethod scope m = (do
      cx.checkOverride m
      let declared ← cx.expect (cx.isKnown m.result) m.line (.undefinedResult m.name m.result) m.result
      let inner ← cx.bindFormals scope.push m.formals
      let (b, body) ← m.body.check cx inner.push
      cx.require (cx.conforms declared b) m.line (.methodResult m.name declared b)
      pure { m with body }) := by
  rw [checkMethod, checkOverride]
  cases (cx.hierarchy.inheritedMethod? cx.current m.name).bind m.departure? <;> rfl

/-- The scope beneath which the body of a feature is checked. -/
def bodyScope (cx : Context) (scope : Scope) : Feature → Report Scope
  | .method m => cx.bindFormals scope.push m.formals
  | .attr _ => pure scope

/-- What has to correspond in two features beside their bodies. -/
inductive Heads (L : Relator) (cx cx' : Context) (S : Scope → Scope → Prop) (scope : Scope) :
    Feature → Feature → Prop
  | method {m m' : Method} (name : m'.name = m.name) (result : m'.result = m.result)
      (line : m'.line = m.line)
      (override : L.rel (fun _ _ => True) (cx.checkOverride m) (cx'.checkOverride m'))
      (formals : L.rel S (cx.bindFormals scope.push m.formals)
        (cx'.bindFormals scope.push m'.formals)) : Heads L cx cx' S scope (.method m) (.method m')
  | attr {a a' : Attribute} (name : a'.name = a.name) (line : a'.line = a.line)
      (fresh : L.rel (fun _ _ => True)
        (cx.require (a.name = cx.names .self ||
          (cx.hierarchy.inheritedAttr? cx.current a.name).isNone) a.line (.attributeInherited a.name))
        (cx'.require (a'.name = cx'.names .self ||
          (cx'.hierarchy.inheritedAttr? cx'.current a'.name).isNone) a'.line
          (.attributeInherited a'.name)))
      (declared : L.rel Eq
        (cx.expect (cx.isKnown a.type) a.line (.undefinedAttributeType a.name a.type) a.type)
        (cx'.expect (cx'.isKnown a'.type) a'.line (.undefinedAttributeType a'.name a'.type) a'.type)) :
      Heads L cx cx' S scope (.attr a) (.attr a')

theorem rel_checkFeature (cc : Concord L cx cx' R S written called) (hs : S scope scope)
    {f f' : Feature} (hw : ∀ t ∈ f.typeNames, written t) (hf : Heads L cx cx' S scope f f')
    (hbody : ∀ {inner inner'}, (cx.bodyScope scope f).outcome = .ok inner → S inner inner' →
      L.rel (Expr.Paired R P) (f.body.check cx inner.push) (f'.body.check cx' inner'.push)) :
    L.rel (fun f₁ f₁' => ∃ e e', P e e' ∧ f₁ = f.withBody e ∧ f₁' = f'.withBody e')
      (cx.checkFeature scope f) (cx'.checkFeature scope f') := by
  cases hf with
  | @method m m' name result line override formals =>
    rw [checkFeature, checkFeature, checkMethod_eq, checkMethod_eq]
    simp only [expect_eq, bind_assoc, pure_bind]
    rw [name, result, line, cc.isKnown (hw m.result List.mem_cons_self), cc.names]
    refine L.bind override fun _ _ _ => L.bind cc.require fun _ _ _ => ?_
    refine L.bindOk formals fun inner inner' hok hi => ?_
    refine L.bind (hbody hok hi) fun r r' hr => L.bind (cc.fits _ hr.1) fun _ _ _ => ?_
    exact L.pure ⟨r.2, r'.2, hr.2, rfl, by simp only [Feature.withBody, name, result, line]⟩
  | @attr a a' name line fresh declared =>
    rw [checkFeature, checkFeature, checkAttr, checkAttr]
    simp only [bind_assoc, pure_bind]
    refine L.bind fresh fun _ _ _ => L.bind declared fun t t' ht => ?_
    subst ht
    refine L.bind (hbody rfl hs) fun r r' hr => ?_
    rw [name, line]
    refine L.bind (cc.fits _ hr.1) fun _ _ _ => ?_
    exact L.pure ⟨r.2, r'.2, hr.2, rfl, by simp only [Feature.withBody, name, line]⟩

theorem rel_checkFeatures {S : Feature → Feature → Prop} {fs fs' : List Feature}
    (hfs : List.Forall₂ (fun f f' => L.rel S (cx.checkFeature cx.classScope.push f)
      (cx'.checkFeature cx'.classScope.push f')) fs fs') :
    L.rel (List.Forall₂ S) (cx.checkFeatures fs) (cx'.checkFeatures fs') := by
  induction hfs with
  | nil => exact L.pure .nil
  | cons hf _ ih =>
    rw [checkFeatures, checkFeatures]
    exact L.bind hf fun _ _ h₁ => L.bind ih fun _ _ hs => L.pure (.cons h₁ hs)

end Context

theorem ClassDecl.rel_check {L : Relator} {h h' : Hierarchy} {c c' : ClassDecl}
    {S : Feature → Feature → Prop}
    (hfs : List.Forall₂ (fun f f' =>
      L.rel S ((c.context h).checkFeature (c.context h).classScope.push f)
        ((c'.context h').checkFeature (c'.context h').classScope.push f')) c.features c'.features) :
    L.rel (fun c₁ c₁' => List.Forall₂ S c₁.features c₁'.features ∧
        c₁ = { c with features := c₁.features } ∧ c₁' = { c' with features := c₁'.features })
      (c.check h) (c'.check h') :=
  L.bind (Context.rel_checkFeatures hfs) fun _ _ hs => L.pure ⟨hs, rfl, rfl⟩

/-- A class is checked in the same way in contexts that are in concord about all that it mentions. -/
theorem ClassDecl.check_eq {h h' : Hierarchy} {c : ClassDecl} {R : Symbol → Symbol → Prop}
    {S : Scope → Scope → Prop} {written : Symbol → Prop}
    (cc : Context.Concord same (c.context h) (c.context h') R S written fun _ _ => True)
    (hR : ∀ {t t'}, R t t' → t = t') (hpush : ∀ {s s' : Scope}, S s s' → S s.push s'.push)
    (hscope : S (c.context h).classScope (c.context h).classScope)
    (hw : ∀ f ∈ c.features, ∀ t ∈ f.typeNames, written t)
    (hheads : ∀ f ∈ c.features, Context.Heads same (c.context h) (c.context h') S
      (c.context h).classScope.push f f) : c.check h' = c.check h := by
  have heq : (c.context h').classScope = (c.context h).classScope := by
    rw [Context.classScope, Context.classScope, cc.names]
  have hcongr : Expr.Congruent R Eq := by
    intro line t t' f f' ht hf
    rw [hR ht, hf.eq_of_eq]
  refine (eq_of_same ?_).symm
  refine same.mono (rel_check (S := Eq) (List.forall₂_same.mpr fun f hf => ?_)) fun c₁ c₁' hrel => ?_
  · rw [heq]
    refine same.mono (Context.rel_checkFeature cc (hpush hscope) (hw f hf) (hheads f hf) fun _ hi =>
      Expr.abreast_check cc hcongr f.body (fun t ht => hw f hf t (Feature.mem_typeNames_of_body ht))
        (fun _ _ _ _ _ => trivial) (hpush hi)) ?_
    rintro f₁ f₁' ⟨e, _, rfl, rfl, rfl⟩
    rfl
  · obtain ⟨hfs, hc₁, hc₁'⟩ := hrel
    rw [List.forall₂_eq_eq_eq] at hfs
    rw [hc₁, hc₁', hfs]

end CoolStatics
