import CoolStatics.Proofs.Annotation
import CoolStatics.Proofs.Inversion
import CoolStatics.Proofs.Members

/-!
Calls with and without a class. A dispatch looks for its method in the class of the receiver, a static
dispatch in a class that the receiver conforms to. In a program without faults both find methods of the
same types, wherever above the receiver the second one looks, so the one may be written for the other.
-/
namespace CoolStatics

open Report

/-! The rules of the two calls. -/

/-- A class in which a static dispatch may look for a method of a value of type `s`: the class of the
value, or a registered class above that has the method. -/
def Hierarchy.StaticTarget (h : Hierarchy) (current s method owner : Symbol) : Prop :=
  owner = h.denoted current s ∨
    owner ∈ h.chain (h.denoted current s) ∧ h.has owner = true ∧
      (h.findMethod? owner method).isSome = true

namespace Context

variable {cx : Context} {line line' : Line} {owner method s t : Symbol} {args : List Symbol}

/-- What a program without faults leaves of a hierarchy, where `_no_type` is no class. -/
structure Settled (cx : Context) : Prop extends Furnished cx where
  acyclic : cx.hierarchy.Acyclic
  coherent : cx.hierarchy.Coherent
  current : cx.hierarchy.has cx.current = true
  noType : cx.hierarchy.has (cx.names .noType) = false
  selfType : cx.hierarchy.has (cx.names .selfType) = false

theorem Settled.transfers (st : cx.Settled) {L : Relator} :
    Transfers L cx cx Eq fun _ _ => True :=
  Parallel.transfers ⟨.refl _, st.acyclic, rfl, rfl⟩ (fun _ _ => rfl) fun _ _ _ => rfl

theorem Settled.conforms_iff (st : cx.Settled) :
    cx.conforms t s = true ↔ cx.hierarchy.Sub cx.current s t :=
  Hierarchy.conforms_iff st.acyclic (Hierarchy.ne_of_has st.current st.noType)

/-- A dispatch that is in order is so as a static one, with the same type. -/
theorem Settled.gives_static_of_dispatch (st : cx.Settled)
    (hg : (cx.dispatchType line method s args).Gives t)
    (ho : cx.hierarchy.StaticTarget cx.current s method owner) :
    (cx.staticDispatchType line' owner method s args).Gives t := by
  obtain ⟨hhas, sig, hsig, hacc, hret⟩ := gives_dispatchType.mp hg
  have hown : cx.hierarchy.has owner = true := by
    rcases ho with rfl | ⟨-, ho, -⟩
    · exact hhas
    · exact ho
  have r : cx.hierarchy.Reaches (cx.hierarchy.denoted cx.current s) owner :=
    (Hierarchy.reaches_iff st.acyclic).mpr (ho.imp_right And.left)
  have hself : owner ≠ cx.names .selfType := Hierarchy.ne_of_has hown st.selfType
  -- the class above may find another declaration, but not one of other types
  have hfind : ∃ sig', cx.hierarchy.findMethod? owner method = some sig' ∧ sig.Alike sig' := by
    rcases ho with rfl | ⟨-, -, hsome⟩
    · exact ⟨sig, hsig, .refl sig⟩
    · obtain ⟨sig', hsig'⟩ := Option.isSome_iff_exists.mp hsome
      obtain ⟨sig'', hsig'', halike⟩ := st.coherent.findMethod? st.acyclic r hsig'
      rw [hsig] at hsig''
      exact ⟨sig', hsig', Option.some.inj hsig'' ▸ halike⟩
  obtain ⟨sig', hsig', htypes, hresult⟩ := hfind
  rw [htypes] at hacc
  rw [hresult] at hret
  exact gives_staticDispatchType.mpr
    ⟨hself, hown, st.conforms_iff.mpr (Or.inr (Or.inr ⟨hself, r⟩)), sig', hsig', hacc, hret⟩

theorem Settled.gives_dispatch_of_static (st : cx.Settled)
    (hg : (cx.staticDispatchType line owner method s args).Gives t) (hs : cx.IsType s)
    (hne : s ≠ cx.names .noType) : (cx.dispatchType line' method s args).Gives t := by
  obtain ⟨hself, -, hconf, sig, hsig, hacc, hret⟩ := gives_staticDispatchType.mp hg
  have hhas : cx.hierarchy.has (cx.hierarchy.denoted cx.current s) = true :=
    (isKnown_iff.mp (hs.resolve_left hne)).has_denoted st.current
  have r : cx.hierarchy.Reaches (cx.hierarchy.denoted cx.current s) owner := by
    rcases st.conforms_iff.mp hconf with hnone | rfl | ⟨-, r⟩
    · exact absurd hnone hne
    · rw [Hierarchy.denoted_of_ne hself]
      exact .refl _
    · exact r
  obtain ⟨sig', hsig', htypes, hresult⟩ := st.coherent.findMethod? st.acyclic r hsig
  rw [← htypes] at hacc
  rw [← hresult] at hret
  exact gives_dispatchType.mpr ⟨hhas, sig', hsig', hacc, hret⟩

end Context

/-! Expressions with some of their calls changed. -/

/-- What may stand in the place of a typed node: a node of the same form, or the other kind of call. -/
inductive Form.Interchange (h : Hierarchy) (current : Symbol) : Form Expr → Form Expr → Prop
  | alike {f f'} : f.Alike f' → Interchange h current f f'
  | toStatic {receiver receiver' method args args' s owner} : receiver.type? = some s →
      h.StaticTarget current s method owner →
      Interchange h current (.dispatch receiver method args)
        (.staticDispatch receiver' owner method args')
  | toDynamic {receiver receiver' owner method args args' s} : receiver.type? = some s →
      s ≠ h.names .noType →
      Interchange h current (.staticDispatch receiver owner method args)
        (.dispatch receiver' method args')

namespace Expr

/-- A typed expression with some of its calls changed, whatever types are then written in it. -/
inductive Interchanged (h : Hierarchy) (current : Symbol) : Expr → Expr → Prop
  | node {line type? type?' f f'} : Form.Interchange h current f f' →
      List.Forall₂ (Interchanged h current) f.children f'.children →
      Interchanged h current (node line type? f) (node line type?' f')

variable {cx : Context} {scope : Scope} {line : Line} {type? : Option Symbol} {t : Symbol}
  {e₁ e' : Expr}

/-- Expressions of one line with the same annotations. -/
def SameTypes (e e' : Expr) : Prop := e'.line = e.line ∧ e'.annotations = e.annotations

theorem sameTypes_node {f f' : Form Expr} (hf : List.Forall₂ SameTypes f.children f'.children) :
    SameTypes (node line (some t) f) (node line (some t) f') := by
  refine ⟨rfl, ?_⟩
  have hmap := map_eq_of_forall₂ (f := annotations) (fun h => h.2) hf
  rw [annotations_eq, annotations_eq, children, children, form, form, List.flatMap_def,
    List.flatMap_def, hmap]
  rfl

theorem congruent_sameTypes : Congruent Eq SameTypes := by
  intro line t t' f f' ht hf
  rw [ht]
  exact sameTypes_node hf.children

/-- Calls of the two kinds come to the same if their receivers and arguments do and the rules agree on
the type of the receiver. -/
theorem follows_call (rule rule' : Symbol → List Symbol → Report Symbol)
    (form form' : Expr → List Expr → Form Expr) (hform : ∀ e es, (form e es).children = e :: es)
    (hform' : ∀ e es, (form' e es).children = e :: es) {receiver receiver' receiver₁ : Expr}
    {args args' : List Expr} {s : Symbol} (hs : (receiver.check cx scope).Gives (s, receiver₁))
    (hrule : ∀ ts, Follows Eq (rule s ts) (rule' s ts))
    (hr : Corresponds following cx cx Eq SameTypes (scope, receiver) receiver')
    (hargs : List.Forall₂ (Corresponds following cx cx Eq SameTypes) (args.map (scope, ·)) args') :
    Follows (Paired Eq SameTypes)
      (do let r ← receiver.check cx scope
          let rs ← checkList cx scope args
          let type ← rule r.1 (rs.map (·.1))
          pure (typed line type (form r.2 (rs.map (·.2)))))
      (do let r ← receiver'.check cx scope
          let rs ← checkList cx scope args'
          let type ← rule' r.1 (rs.map (·.1))
          pure (typed line type (form' r.2 (rs.map (·.2))))) := by
  obtain ⟨⟨u, receiver₁'⟩, hs', rfl, hsame⟩ := hr _ hs
  rw [Gives] at hs hs'
  rw [hs, hs', pure_bind, pure_bind]
  refine following.bind (rel_checkList hargs) fun rs rs' hrs => ?_
  have htypes := Paired.types hrs
  rw [List.forall₂_eq_eq_eq] at htypes
  rw [← htypes]
  refine following.bind (hrule _) fun u u' hu => ?_
  subst hu
  refine following.pure ⟨rfl, sameTypes_node ?_⟩
  rw [hform, hform']
  exact .cons hsame (Paired.exprs hrs)

theorem follows_of_interchanged (st : cx.Settled) (e : Expr) (hg : (e.check cx scope).Gives (t, e₁))
    (hi : Interchanged cx.hierarchy cx.current e₁ e') :
    Follows (Paired Eq SameTypes) (e.check cx scope) (e'.check cx scope) := by
  induction e using induct generalizing scope t e₁ e' with
  | step e ih =>
    obtain ⟨line, type?, f⟩ := e
    obtain ⟨f₁, rfl, hf, hyields⟩ := gives_node hg
    cases hi with
    | @node _ _ type?' _ f' hswitch hchildren =>
      -- each child in its scope is followed by what stands in its place
      have hc : List.Forall₂ (Corresponds following cx cx Eq SameTypes) (cx.parts scope f)
          f'.children := by
        refine forall₂_trans hyields hchildren fun c hc c₁ c' ⟨u, hu⟩ hi => ?_
        have hmem : c.2 ∈ f.children := by
          rw [← cx.map_snd_parts scope f]
          exact List.mem_map_of_mem hc
        exact ih c.2 hmem hu hi
      cases hswitch with
      | alike halike =>
        exact rel_check_node (st.transfers (L := following)) congruent_sameTypes (fun h => h.1)
          (hf.trans halike) (fun _ _ => trivial) hc line type? type?'
      | @toStatic receiver₁ receiver' method _ args' s owner hs ho =>
        cases hf with
        | @dispatch receiver _ _ args =>
          obtain ⟨⟨u, hu⟩, -⟩ := List.forall₂_cons.mp hyields
          obtain ⟨hr, hargs⟩ := List.forall₂_cons.mp hc
          obtain rfl : u = s := Option.some.inj ((type?_of_gives hu).symm.trans hs)
          rw [check, check]
          exact follows_call (cx.dispatchType line method) (cx.staticDispatchType line owner method)
            (fun e es => .dispatch e method es) (fun e es => .staticDispatch e owner method es)
            (fun _ _ => rfl) (fun _ _ => rfl) hu
            (fun ts v hv => ⟨v, st.gives_static_of_dispatch hv ho, rfl⟩) hr hargs
      | @toDynamic receiver₁ receiver' owner method _ args' s hs hne =>
        cases hf with
        | @staticDispatch receiver _ _ _ args =>
          obtain ⟨⟨u, hu⟩, -⟩ := List.forall₂_cons.mp hyields
          obtain ⟨hr, hargs⟩ := List.forall₂_cons.mp hc
          obtain rfl : u = s := Option.some.inj ((type?_of_gives hu).symm.trans hs)
          have htype : cx.IsType u :=
            ((comesOut st.toFurnished cx.joins_true receiver scope).of_ok (gives_iff.mp hu).2).1
          rw [check, check]
          exact follows_call (cx.staticDispatchType line owner method) (cx.dispatchType line method)
            (fun e es => .staticDispatch e owner method es) (fun e es => .dispatch e method es)
            (fun _ _ => rfl) (fun _ _ => rfl) hu
            (fun ts v hv => ⟨v, st.gives_dispatch_of_static hv htype hne, rfl⟩) hr hargs

end Expr

/-! Features, classes and programs with some of their calls changed. -/

structure Feature.Interchanged (h : Hierarchy) (current : Symbol) (f f' : Feature) : Prop where
  head : f.withBody f'.body = f'
  body : f.body.Interchanged h current f'.body

structure ClassDecl.Interchanged (h : Hierarchy) (c c' : ClassDecl) : Prop where
  head : { c with features := c'.features } = c'
  features : List.Forall₂ (Feature.Interchanged h c.name) c.features c'.features

def Program.Interchanged (h : Hierarchy) (p p' : Program) : Prop :=
  List.Forall₂ (ClassDecl.Interchanged h) p.classes p'.classes

theorem Context.follows_checkFeature {cx : Context} {scope : Scope} {f f₁ f' : Feature}
    (st : cx.Settled) (hg : (cx.checkFeature scope f).Gives f₁)
    (hi : f₁.Interchanged cx.hierarchy cx.current f') :
    Follows (fun x x' => x'.body.annotations = x.body.annotations) (cx.checkFeature scope f)
      (cx.checkFeature scope f') := by
  intro x hx
  obtain rfl := hx.unique hg
  cases f with
  | method m =>
    obtain ⟨m₁, hm, hf⟩ := gives_bind.mp hg
    obtain rfl := gives_pure.mp hf
    obtain ⟨hover, hk, inner, hinner, t, body, hbody, hconf, rfl⟩ := gives_checkMethod.mp hm
    obtain ⟨e', rfl⟩ : ∃ e', f' = .method { m with body := e' } := ⟨_, hi.head.symm⟩
    obtain ⟨⟨u, body'⟩, hbody', hu, hsame⟩ :=
      Expr.follows_of_interchanged st m.body hbody hi.body _ hbody
    obtain rfl : t = u := hu
    refine ⟨.method { m with body := body' }, gives_bind.mpr ⟨_, ?_, gives_pure.mpr rfl⟩, hsame.2⟩
    exact gives_checkMethod.mpr ⟨hover, hk, inner, hinner, t, body', hbody', hconf, rfl⟩
  | attr a =>
    obtain ⟨a₁, ha, hf⟩ := gives_bind.mp hg
    obtain rfl := gives_pure.mp hf
    obtain ⟨hfresh, hk, t, init, hinit, hconf, rfl⟩ := gives_checkAttr.mp ha
    obtain ⟨e', rfl⟩ : ∃ e', f' = .attr { a with init := e' } := ⟨_, hi.head.symm⟩
    obtain ⟨⟨u, init'⟩, hinit', hu, hsame⟩ :=
      Expr.follows_of_interchanged st a.init hinit hi.body _ hinit
    obtain rfl : t = u := hu
    refine ⟨.attr { a with init := init' }, gives_bind.mpr ⟨_, ?_, gives_pure.mpr rfl⟩, hsame.2⟩
    exact gives_checkAttr.mpr ⟨hfresh, hk, t, init', hinit', hconf, rfl⟩

theorem ClassDecl.follows_check {h : Hierarchy} {c c₁ c' : ClassDecl} (st : (c.context h).Settled)
    (hg : (c.check h).Gives c₁) (hi : c₁.Interchanged h c') :
    Follows (fun x x' => x'.annotations = x.annotations) (c.check h) (c'.check h) := by
  obtain ⟨hfs, hc₁⟩ := gives_check.mp hg
  have hctx : c'.context h = c.context h := by
    rw [← hi.head, ← hc₁]
    rfl
  have hname : c₁.name = (c.context h).current := by
    rw [← hc₁]
    rfl
  refine following.mono (ClassDecl.rel_check (L := following)
    (S := fun x x' => x'.body.annotations = x.body.annotations) ?_) ?_
  · rw [hctx]
    refine forall₂_trans hfs hi.features fun f _ f₁ f' hf hf' => ?_
    rw [hname] at hf'
    exact Context.follows_checkFeature st hf hf'
  · rintro x x' ⟨hfs, -, -⟩
    have hmap := map_eq_of_forall₂ (f := fun f : Feature => f.body.annotations) (fun h => h) hfs
    rw [annotations_eq, annotations_eq, List.flatMap_def, List.flatMap_def, hmap]

/-! Registration reads no bodies. -/

/-- The feature without its body. -/
def Feature.bare (f : Feature) : Feature := f.withBody (Expr.absent f.line)

def ClassDecl.bare (c : ClassDecl) : ClassDecl :=
  { c with features := c.features.map Feature.bare }

namespace Hierarchy

theorem declareFeatures_bare (h : Hierarchy) (c : ClassDecl) (fs : List Feature) :
    h.declareFeatures c.bare (fs.map Feature.bare) = h.declareFeatures c fs := by
  induction fs generalizing h with
  | nil => rfl
  | cons f fs ih =>
    cases f with
    | method m | attr a =>
      rw [List.map_cons, declareFeatures, declareFeatures, ih]
      rfl

theorem registerAll_bare (h : Hierarchy) (cs : List ClassDecl) :
    h.registerAll (cs.map ClassDecl.bare) = h.registerAll cs := by
  induction cs generalizing h with
  | nil => rfl
  | cons c cs ih =>
    have hreg : h.register c.bare = h.register c := rfl
    have hdecl : ∀ h : Hierarchy, h.declare c.bare = h.declare c := fun h =>
      h.declareFeatures_bare c c.features
    rw [List.map_cons, registerAll, registerAll, hreg]
    simp only [hdecl, ih]
    rfl

theorem build_eq_of_bare {names : Vocabulary} {p p' : Program}
    (hp : p'.classes.map ClassDecl.bare = p.classes.map ClassDecl.bare) :
    build names p' = build names p := by
  rw [build, ← registerAll_bare, hp, registerAll_bare, build]

end Hierarchy

theorem Feature.bare_untyped (f : Feature) : f.untyped.bare = f.bare := by
  cases f <;> rfl

theorem ClassDecl.bare_untyped (c : ClassDecl) : c.untyped.bare = c.bare := by
  simp only [bare, untyped, List.map_map, Function.comp_def, Feature.bare_untyped]

theorem Feature.Interchanged.bare_eq {h : Hierarchy} {current : Symbol} {f f' : Feature}
    (hf : f.Interchanged h current f') : f'.bare = f.bare := by
  rw [← hf.head]
  cases f <;> rfl

theorem ClassDecl.Interchanged.bare_eq {h : Hierarchy} {c c' : ClassDecl}
    (hc : c.Interchanged h c') : c'.bare = c.bare := by
  rw [← hc.head, bare, bare, map_eq_of_forall₂ (fun hf => hf.bare_eq) hc.features]

theorem ClassDecl.annotates_of_gives {h : Hierarchy} {c c₁ : ClassDecl}
    (hc : (c.context h).Furnished) (hg : (c.check h).Gives c₁) : c.Annotates h c₁ :=
  (meets_check hc (Context.joins_true _)).of_ok (gives_iff.mp hg).2

theorem Hierarchy.Enrols.settled {h : Hierarchy} {p : Program} (en : h.Enrols p) (co : h.Coherent)
    (hnt : ∀ c ∈ p.classes, c.name ≠ h.names .noType) {c : ClassDecl} (hc : c ∈ p.classes) :
    (c.context h).Settled :=
  ⟨en.furnished c, en.acyclic, co, en.has_class hc, en.not_has (by decide) hnt, en.not_has_selfType⟩

namespace Program

variable {p p' : Program} {i : Interner} {v : Verdict}

/-- In a program without faults calls can be written with and without a class. Where a typed program
has a dispatch, there may be a static dispatch at the class of the receiver or at one above that has
the method, and where it has a static dispatch on something that is not of type `_no_type`, a dispatch:
again there are no faults, and the annotations are the same. -/
theorem analyse_interchanged (hnt : ∀ c ∈ p.classes, c.name ≠ (Vocabulary.intern i).1 .noType)
    (hv : (p.analyse i).verdict = .ok v) (hclean : v.faults = [])
    (hp : v.program.Interchanged (p.analyse i).hierarchy p') :
    ∃ v', (p'.analyse i).verdict = .ok v' ∧ v'.faults = [] ∧ v'.program.untyped = p'.untyped ∧
      v'.program.annotations = v.program.annotations := by
  obtain ⟨en, co⟩ := coherent_of_clean hv hclean
  obtain ⟨hout, hgives⟩ := (analyse_verdict_iff hclean).mp hv
  have hnames : (p.analyse i).hierarchy.names = (Vocabulary.intern i).1 :=
    (Hierarchy.outline_clean hout).1
  rw [← hnames] at hnt
  -- the bodies apart, the classes are those of the program
  have hbuild : Hierarchy.build (Vocabulary.intern i).1 p' =
      Hierarchy.build (Vocabulary.intern i).1 p := by
    refine Hierarchy.build_eq_of_bare (map_eq_of_forall₂ (fun h => h) ?_)
    refine forall₂_trans hgives hp fun c _ c₁ c' hc₁ hc' => ?_
    rw [hc'.bare_eq, ← c₁.bare_untyped, (ClassDecl.annotates_of_gives (en.furnished c) hc₁).untyped,
      c.bare_untyped]
  have hsame : (p'.analyse i).hierarchy = (p.analyse i).hierarchy :=
    congrArg Hierarchy.Registration.hierarchy hbuild
  have hfollows : Follows (List.Forall₂ fun x x' => x'.annotations = x.annotations)
      (Report.all (p.classes.map (·.check (p.analyse i).hierarchy)))
      (Report.all (p'.classes.map (·.check (p'.analyse i).hierarchy))) := by
    refine following.all (List.forall₂_map_left_iff.mpr (List.forall₂_map_right_iff.mpr ?_))
    rw [hsame]
    exact forall₂_trans hgives hp fun c hc c₁ c' hc₁ hc' =>
      ClassDecl.follows_check (en.settled co hnt hc) hc₁ hc'
  obtain ⟨cs', hcs', hannot⟩ := hfollows _ (gives_all.mpr (List.forall₂_map_left_iff.mpr hgives))
  rw [gives_all, List.forall₂_map_left_iff] at hcs'
  have hv' : (p'.analyse i).verdict = .ok ⟨⟨cs'⟩, []⟩ :=
    (analyse_verdict_iff rfl).mpr ⟨by rw [hbuild, hout], hcs'⟩
  have en' := (Hierarchy.outline_clean ((analyse_verdict_iff rfl).mp hv').1).2.1
  refine ⟨_, hv', rfl, ?_, ?_⟩
  · have hrel : List.Forall₂ (ClassDecl.Annotates (p'.analyse i).hierarchy) p'.classes
        (Program.mk cs').classes :=
      hcs'.imp fun c _ hc => ClassDecl.annotates_of_gives (en'.furnished c) hc
    exact (annotated_of_forall₂ hrel).1
  · have hmap := map_eq_of_forall₂ (f := ClassDecl.annotations) (fun h => h) hannot
    rw [annotations_eq, annotations_eq, List.flatMap_def, List.flatMap_def, hmap]

/-- Three classes in a row, of which the first and the last declare `itself`, and under them `Main` with
the given method `main`. -/
def heirMain (names : Vocabulary) (body : Expr) : Program :=
  ⟨{ name := names .mainClass, parent := ⟨28⟩, file := "main.cl", line := 1
     features := [.method ⟨names .mainMethod, [], names .object, body, 2⟩] } ::
    (overriding names).classes.tail⟩

/-- In `Main`, `self.itself(1)@B.itself(2)`. -/
def thenStatic (names : Vocabulary) : Expr :=
  Expr.plain 3 (.staticDispatch
    (Expr.plain 3 (.dispatch (Expr.plain 3 (.identifier (names .self))) ⟨29⟩ [Expr.plain 3 (.int 1)]))
    ⟨27⟩ ⟨29⟩ [Expr.plain 3 (.int 2)])

/-- In `Main`, `self@A.itself(1).itself(2)`. -/
def thenDynamic (names : Vocabulary) : Expr :=
  Expr.plain 3 (.dispatch
    (Expr.plain 3 (.staticDispatch (Expr.plain 3 (.identifier (names .self))) ⟨26⟩ ⟨29⟩
      [Expr.plain 3 (.int 1)])) ⟨29⟩ [Expr.plain 3 (.int 2)])

theorem analyse_interchanged_heirMain :
    ∃ v v', ((heirMain .initial (thenStatic .initial)).analyse .empty).verdict = .ok v ∧
      ((heirMain .initial (thenDynamic .initial)).analyse .empty).verdict = .ok v' ∧
      v'.faults = [] ∧ v'.program.annotations = v.program.annotations := by
  have hnt : ∀ c ∈ (heirMain .initial (thenStatic .initial)).classes,
      c.name ≠ (Vocabulary.intern .empty).1 .noType := by decide
  have hclean : ∃ v, ((heirMain .initial (thenStatic .initial)).analyse .empty).verdict = .ok v ∧
      v.faults = [] ∧
      v.program.Interchanged ((heirMain .initial (thenStatic .initial)).analyse .empty).hierarchy
        (heirMain .initial (thenDynamic .initial)) := by
    have hleaf : ∀ {h current line type? f}, Form.children f = [] →
        Expr.Interchanged h current (.node line type? f) (.plain line f) := fun {_ _ _ _ f} hf =>
      .node (.alike (.refl f)) (hf ▸ .nil)
    refine ⟨_, rfl, rfl, .cons ⟨rfl, .cons ⟨rfl, ?_⟩ .nil⟩ (.cons ⟨rfl, .cons ⟨rfl, hleaf rfl⟩ .nil⟩
      (.cons ⟨rfl, .nil⟩ (.cons ⟨rfl, .cons ⟨rfl, hleaf rfl⟩ .nil⟩ .nil)))⟩
    refine .node (.toDynamic rfl (by decide)) (.cons (.node ?_ ?_) (.cons (hleaf rfl) .nil))
    · exact .toStatic rfl (Or.inr ⟨by decide, by decide, by decide⟩)
    · exact .cons (hleaf rfl) (.cons (hleaf rfl) .nil)
  obtain ⟨v, hv, hclean, hp⟩ := hclean
  obtain ⟨v', hv', hclean', -, hannot⟩ := analyse_interchanged hnt hv hclean hp
  exact ⟨v, v', hv, hv', hclean', hannot⟩

end Program
end CoolStatics
