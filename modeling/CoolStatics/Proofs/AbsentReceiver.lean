import CoolStatics.Proofs.Equivalence
import CoolStatics.Proofs.Inversion
import CoolStatics.Proofs.Mending

/-!
Calls on nothing. An absent expression has the type `_no_type`, which conforms to everything and is no
class. A dispatch on something of that type is refused, since there is no class to look for the method
in. A static dispatch names the class to look in, and passes if nothing else is wrong with it; where the
method returns `SELF_TYPE` it then has the type `_no_type` itself.
-/
namespace CoolStatics

open Report

namespace Context

variable {cx : Context} {line : Line} {cause : Cause} {kept : Bool}
  {method owner receiver type t s : Symbol} {args : List Symbol} {fs : List Fault}

/-- A fault at the line, in the file of the class, and `Object` for the type. -/
def Refuses (cx : Context) (line : Line) (fs : List Fault) (t : Symbol) : Prop :=
  t = cx.names .object ∧ ∃ f ∈ fs, f.place = some ⟨cx.file, line⟩

/-- Gives a type without a fault, or refuses at the line. -/
def Decides (cx : Context) (line : Line) (r : Report Symbol) : Prop :=
  ∃ fs t, r.Leaves fs t ∧ (fs = [] ∨ cx.Refuses line fs t)

theorem decides_pure : cx.Decides line (pure t) := ⟨[], t, rfl, Or.inl rfl⟩

theorem decides_fallBack : cx.Decides line (cx.fallBack line cause) :=
  ⟨_, _, rfl, Or.inr ⟨rfl, _, List.mem_singleton_self _, rfl⟩⟩

theorem decides_resultType : cx.Decides line (cx.resultType line method receiver t) := by
  rw [resultType, expect]
  split_ifs
  · exact decides_pure
  · exact decides_pure
  · exact decides_fallBack

theorem decides_callType : cx.Decides line (cx.callType line owner method receiver args) := by
  rw [callType]
  split
  · exact decides_fallBack
  · next sig _ =>
    split_ifs
    · dsimp only
      cases hm : cx.misfits (sig.formals.zip args) with
      | nil => exact decides_resultType
      | cons misfit rest =>
        exact ⟨_, _, rfl, Or.inr ⟨rfl, _, List.mem_cons_self, rfl⟩⟩
    · exact decides_fallBack

theorem decides_dispatchType : cx.Decides line (cx.dispatchType line method receiver args) := by
  rw [dispatchType]
  split_ifs
  · exact decides_callType
  · exact decides_fallBack

theorem decides_staticDispatchType :
    cx.Decides line (cx.staticDispatchType line owner method receiver args) := by
  rw [staticDispatchType]
  split_ifs
  · exact decides_fallBack
  · exact decides_callType
  · exact decides_fallBack

theorem Decides.of_leaves {r : Report Symbol} (hd : cx.Decides line r) (hl : r.Leaves fs t) :
    r.Gives t ∨ cx.Refuses line fs t := by
  obtain ⟨gs, u, hu, hcase⟩ := hd
  obtain ⟨rfl, heq⟩ := Report.mk.inj (hu.symm.trans hl)
  obtain rfl := Except.ok.inj heq
  rcases hcase with rfl | hrefuses
  · exact Or.inl hu
  · exact Or.inr hrefuses

/-- All that a static dispatch asks for beside a receiver that conforms: a registered class that has the
method, arguments that conform, and a result of a known type. -/
structure Callable (cx : Context) (owner method : Symbol) (args : List Symbol) (sig : Signature) :
    Prop where
  registered : owner ≠ cx.names .selfType ∧ cx.hierarchy.has owner = true
  found : cx.hierarchy.findMethod? owner method = some sig
  accepts : cx.Accepts sig.types args
  result : cx.hierarchy.Known sig.result

/-- A receiver of type `_no_type` is no reason to refuse a static dispatch. -/
theorem gives_staticDispatchType_noType :
    (cx.staticDispatchType line owner method (cx.names .noType) args).Gives t ↔
      ∃ sig, cx.Callable owner method args sig ∧
        cx.hierarchy.returned (cx.names .noType) sig.result = t := by
  have hconf : cx.conforms owner (cx.names .noType) = true := if_pos rfl
  simp only [gives_staticDispatchType, hconf, true_and, returns_iff]
  constructor
  · rintro ⟨hself, hhas, sig, hsig, hacc, hknown, ht⟩
    exact ⟨sig, ⟨⟨hself, hhas⟩, hsig, hacc, hknown⟩, ht⟩
  · rintro ⟨sig, ⟨⟨hself, hhas⟩, hsig, hacc, hknown⟩, ht⟩
    exact ⟨hself, hhas, sig, hsig, hacc, hknown, ht⟩

theorem ne_noType_of_gives_dispatchType (hnt : cx.hierarchy.has (cx.names .noType) = false)
    (hg : (cx.dispatchType line method s args).Gives t) :
    s ≠ cx.names .noType ∧ t ≠ cx.names .noType := by
  obtain ⟨hhas, sig, -, -, hret⟩ := gives_dispatchType.mp hg
  have hs : s ≠ cx.names .noType := by
    rintro rfl
    have hne : cx.names .noType ≠ cx.names .selfType := by simp
    rw [Hierarchy.denoted_of_ne hne, hnt] at hhas
    cases hhas
  refine ⟨hs, ?_⟩
  rcases hret with ⟨-, rfl⟩ | ⟨-, hresult, rfl⟩
  · exact hs
  · exact Hierarchy.ne_of_has hresult hnt

theorem eq_noType_of_gives_staticDispatchType (hnt : cx.hierarchy.has (cx.names .noType) = false)
    (hg : (cx.staticDispatchType line owner method s args).Gives (cx.names .noType)) :
    s = cx.names .noType ∧ ∃ sig, cx.hierarchy.findMethod? owner method = some sig ∧
      sig.result = cx.names .selfType := by
  obtain ⟨-, -, -, sig, hsig, -, hret⟩ := gives_staticDispatchType.mp hg
  rcases hret with ⟨hself, rfl⟩ | ⟨-, hresult, ht⟩
  · exact ⟨rfl, sig, hsig, hself⟩
  · rw [ht, hnt] at hresult
    cases hresult

end Context

namespace Expr

variable {cx : Context} {scope : Scope} {line : Line} {t : Symbol} {e x receiver : Expr}
  {args : List Expr} {method owner : Symbol} {fs faults : List Fault}

/-- A call that is checked to its end has been typed by its rule, from the types that its receiver and
its arguments have come out with. -/
theorem leaves_call (rule : Symbol → List Symbol → Report Symbol)
    (form : Expr → List Expr → Form Expr)
    (hl : (do
      let r ← receiver.check cx scope
      let rs ← checkList cx scope args
      let type ← rule r.1 (rs.map (·.1))
      pure (typed line type (form r.2 (rs.map (·.2)))) : Report (Symbol × Expr)).Leaves fs (t, x)) :
    ∃ receiver₁ s args₁ ts gs, x = node line (some t) (form receiver₁ args₁) ∧
      receiver₁.type? = some s ∧ args₁.map (·.type?) = ts.map some ∧ (rule s ts).Leaves gs t ∧
      gs ⊆ fs := by
  simp only [leaves_bind, leaves_pure] at hl
  obtain ⟨_, r, _, hr, ⟨_, rs, _, hrs, ⟨gs, u, _, hu, ⟨rfl, heq⟩, rfl⟩, rfl⟩, rfl⟩ := hl
  obtain ⟨rfl, rfl⟩ := Prod.mk.inj heq
  have htypes : (rs.map (·.2)).map (·.type?) = (rs.map (·.1)).map some := by
    rw [checkList_eq_all] at hrs
    obtain ⟨outs, houts, heq, -⟩ := leaves_all hrs
    rw [List.map_map, List.map_map]
    refine List.map_congr_left fun q hq => ?_
    rw [heq] at hq
    obtain ⟨o, ho, rfl⟩ := List.mem_map.mp hq
    obtain ⟨_, hmem, hl⟩ := exists_of_forall₂_mem houts.flip ho
    obtain ⟨e, -, rfl⟩ := List.mem_map.mp hmem
    exact type?_of_leaves hl
  refine ⟨r.2, r.1, _, _, gs, rfl, type?_of_leaves hr, htypes, hu, ?_⟩
  rw [List.append_nil]
  exact List.Subset.trans (List.subset_append_right _ _) (List.subset_append_right _ _)

theorem leaves_dispatch (hl : (e.check cx scope).Leaves fs (t, x))
    (hx : x.form = .dispatch receiver method args) :
    ∃ s ts gs, receiver.type? = some s ∧ args.map (·.type?) = ts.map some ∧
      (cx.dispatchType x.line method s ts).Leaves gs t ∧ gs ⊆ fs := by
  obtain ⟨line, type?, f⟩ := e
  obtain ⟨f₁, _, rfl, hf, -⟩ := leaves_node hl
  obtain rfl : f₁ = .dispatch receiver method args := hx
  cases hf
  rw [check] at hl
  obtain ⟨receiver₁, s, args₁, ts, gs, heq, hs, hts, hrule, hsub⟩ :=
    leaves_call (cx.dispatchType line method) (.dispatch · method ·) hl
  obtain ⟨-, -, hform⟩ := node.inj heq
  obtain ⟨rfl, -, rfl⟩ := Form.dispatch.inj hform
  exact ⟨s, ts, gs, hs, hts, hrule, hsub⟩

theorem leaves_staticDispatch (hl : (e.check cx scope).Leaves fs (t, x))
    (hx : x.form = .staticDispatch receiver owner method args) :
    ∃ s ts gs, receiver.type? = some s ∧ args.map (·.type?) = ts.map some ∧
      (cx.staticDispatchType x.line owner method s ts).Leaves gs t ∧ gs ⊆ fs := by
  obtain ⟨line, type?, f⟩ := e
  obtain ⟨f₁, _, rfl, hf, -⟩ := leaves_node hl
  obtain rfl : f₁ = .staticDispatch receiver owner method args := hx
  cases hf
  rw [check] at hl
  obtain ⟨receiver₁, s, args₁, ts, gs, heq, hs, hts, hrule, hsub⟩ :=
    leaves_call (cx.staticDispatchType line owner method) (.staticDispatch · owner method ·) hl
  obtain ⟨-, -, hform⟩ := node.inj heq
  obtain ⟨rfl, -, -, rfl⟩ := Form.staticDispatch.inj hform
  exact ⟨s, ts, gs, hs, hts, hrule, hsub⟩

/-- A typed node that has been refused: its type is `Object`, and there is a fault at its line. -/
def Refused (cx : Context) (faults : List Fault) (x : Expr) : Prop :=
  x.type? = some (cx.names .object) ∧ ∃ f ∈ faults, f.place = some ⟨cx.file, x.line⟩

/-- What has come of a typed node if it is a call on something of type `_no_type`. -/
structure OnNothing (cx : Context) (faults : List Fault) (x : Expr) : Prop where
  dispatch : ∀ {receiver method args}, x.form = .dispatch receiver method args →
    receiver.type? = some (cx.names .noType) → x.Refused cx faults
  dispatch_typed : ∀ {receiver method args}, x.form = .dispatch receiver method args →
    x.type? ≠ some (cx.names .noType)
  static_passed : ∀ {receiver owner method args ts sig},
    x.form = .staticDispatch receiver owner method args →
    receiver.type? = some (cx.names .noType) → args.map (·.type?) = ts.map some →
    cx.Callable owner method ts sig →
    x.type? = some (cx.hierarchy.returned (cx.names .noType) sig.result)
  static_refused : ∀ {receiver owner method args ts},
    x.form = .staticDispatch receiver owner method args →
    receiver.type? = some (cx.names .noType) → args.map (·.type?) = ts.map some →
    (∀ sig, ¬cx.Callable owner method ts sig) → x.Refused cx faults
  static_typed : ∀ {receiver owner method args},
    x.form = .staticDispatch receiver owner method args → x.type? = some (cx.names .noType) →
    receiver.type? = some (cx.names .noType) ∧
      ∃ sig, cx.hierarchy.findMethod? owner method = some sig ∧ sig.result = cx.names .selfType

theorem onNothing_of_leaves (hnt : cx.hierarchy.has (cx.names .noType) = false)
    (hl : (e.check cx scope).Leaves fs (t, x)) (hsub : fs ⊆ faults) : x.OnNothing cx faults := by
  have htype : x.type? = some t := type?_of_leaves hl
  have hobj : cx.names .object ≠ cx.names .noType := by simp
  have hrefused : ∀ {gs}, cx.Refuses x.line gs t → gs ⊆ fs → x.Refused cx faults := by
    rintro gs ⟨rfl, f, hf, hplace⟩ hgs
    exact ⟨htype, f, hsub (hgs hf), hplace⟩
  constructor
  case dispatch =>
    intro receiver method args hx hr
    obtain ⟨s, ts, gs, hs, -, hrule, hgs⟩ := leaves_dispatch hl hx
    obtain rfl := Option.some.inj (hr.symm.trans hs)
    rcases Context.decides_dispatchType.of_leaves hrule with hg | hrefuses
    · exact ((Context.ne_noType_of_gives_dispatchType hnt hg).1 rfl).elim
    · exact hrefused hrefuses hgs
  case dispatch_typed =>
    intro receiver method args hx hxt
    obtain ⟨s, ts, gs, -, -, hrule, -⟩ := leaves_dispatch hl hx
    obtain rfl := Option.some.inj (htype.symm.trans hxt)
    rcases Context.decides_dispatchType.of_leaves hrule with hg | hrefuses
    · exact (Context.ne_noType_of_gives_dispatchType hnt hg).2 rfl
    · exact hobj hrefuses.1.symm
  case static_passed =>
    intro receiver owner method args ts sig hx hr hts hcall
    obtain ⟨s, ts', gs, hs, hts', hrule, -⟩ := leaves_staticDispatch hl hx
    obtain rfl := Option.some.inj (hr.symm.trans hs)
    obtain rfl := List.map_injective_iff.mpr (fun _ _ => Option.some.inj) (hts.symm.trans hts')
    have hg : (cx.staticDispatchType x.line owner method (cx.names .noType) ts).Gives
        (cx.hierarchy.returned (cx.names .noType) sig.result) :=
      Context.gives_staticDispatchType_noType.mpr ⟨sig, hcall, rfl⟩
    rw [htype, ← Except.ok.inj (Report.mk.inj (hrule.symm.trans hg)).2]
  case static_refused =>
    intro receiver owner method args ts hx hr hts hcall
    obtain ⟨s, ts', gs, hs, hts', hrule, hgs⟩ := leaves_staticDispatch hl hx
    obtain rfl := Option.some.inj (hr.symm.trans hs)
    obtain rfl := List.map_injective_iff.mpr (fun _ _ => Option.some.inj) (hts.symm.trans hts')
    rcases Context.decides_staticDispatchType.of_leaves hrule with hg | hrefuses
    · obtain ⟨sig, hsig, -⟩ := Context.gives_staticDispatchType_noType.mp hg
      exact (hcall sig hsig).elim
    · exact hrefused hrefuses hgs
  case static_typed =>
    intro receiver owner method args hx hxt
    obtain ⟨s, ts, gs, hs, -, hrule, -⟩ := leaves_staticDispatch hl hx
    obtain rfl := Option.some.inj (htype.symm.trans hxt)
    rcases Context.decides_staticDispatchType.of_leaves hrule with hg | hrefuses
    · obtain ⟨rfl, hsig⟩ := Context.eq_noType_of_gives_staticDispatchType hnt hg
      exact ⟨hs, hsig⟩
    · exact (hobj hrefuses.1.symm).elim

end Expr

namespace Program

variable {p : Program} {i : Interner} {v : Verdict}

/-- Where `_no_type` is no class, every dispatch on something of that type is refused: it has the type
`Object`, and there is a fault at its line. A static dispatch on it is refused only if something else is
wrong, and otherwise has the declared result of the method, or for `SELF_TYPE` the type `_no_type`. No
other calls have that type. -/
theorem analyse_onNothing (hnt : ∀ c ∈ p.classes, c.name ≠ (Vocabulary.intern i).1 .noType)
    {rs : List (Report ClassDecl)} (hrs : (p.analyse i).conclusion = .checked rs)
    (hv : (p.analyse i).verdict = .ok v) {c : ClassDecl} {x : Expr} (hx : (c, x) ∈ v.program.walk) :
    x.OnNothing (c.context (p.analyse i).hierarchy) v.faults := by
  have hout := (analyse_checked_iff.mp hrs).1
  obtain ⟨hn, en, -⟩ := Hierarchy.outline_clean hout
  rw [← hn] at hnt
  obtain ⟨inner, e, u, gs, hl, hsub⟩ := exists_check_of_mem_walk hv hout hx
  exact Expr.onNothing_of_leaves (en.not_has (by decide) hnt) hl hsub

def copyOfNothing (names : Vocabulary) (line : Line) : Expr :=
  Expr.plain line (.dispatch (Expr.absent line) (names .copy) [])

def staticCopyOfNothing (names : Vocabulary) (line : Line) : Expr :=
  Expr.plain line (.staticDispatch (Expr.absent line) (names .object) (names .copy) [])

/-- In `Main`, a block of the two. -/
def copiesOfNothing (names : Vocabulary) : Program :=
  ofMain names [] (Expr.plain 6 (.block [copyOfNothing names 7, staticCopyOfNothing names 8]))

/-- The dispatch is refused, and the static dispatch has the type `_no_type`. -/
theorem analyse_onNothing_copiesOfNothing :
    ∃ a v c x y, (copiesOfNothing .initial).analyse .empty = a ∧ a.verdict = .ok v ∧
      (c, x) ∈ v.program.walk ∧ (c, y) ∈ v.program.walk ∧ x.line = 7 ∧ y.line = 8 ∧
      x.Refused (c.context a.hierarchy) v.faults ∧ y.type? = some (a.hierarchy.names .noType) := by
  have hnodes : ∃ a rs v c x y receiver receiver' sig,
      (copiesOfNothing .initial).analyse .empty = a ∧ a.conclusion = .checked rs ∧ a.verdict = .ok v ∧
      ((c, x) ∈ v.program.walk ∧ x.line = 7 ∧
        x.form = .dispatch receiver (a.hierarchy.names .copy) [] ∧
        receiver.type? = some (a.hierarchy.names .noType)) ∧
      ((c, y) ∈ v.program.walk ∧ y.line = 8 ∧
        y.form = .staticDispatch receiver' (a.hierarchy.names .object) (a.hierarchy.names .copy) [] ∧
        receiver'.type? = some (a.hierarchy.names .noType)) ∧
      a.hierarchy.has (a.hierarchy.names .object) = true ∧
      a.hierarchy.findMethod? (a.hierarchy.names .object) (a.hierarchy.names .copy) = some sig ∧
      sig.types = [] ∧ sig.result = a.hierarchy.names .selfType :=
    ⟨_, _, _, _, _, _, _, _, _, rfl, rfl, rfl, ⟨.tail _ (.head _), rfl, rfl, rfl⟩,
      ⟨.tail _ (.tail _ (.tail _ (.head _))), rfl, rfl, rfl⟩, rfl, rfl, rfl, rfl⟩
  obtain ⟨a, rs, v, c, x, y, receiver, receiver', sig, ha, hrs, hv, ⟨hx, hxl, hxf, hr⟩,
    ⟨hy, hyl, hyf, hr'⟩, hhas, hfound, htypes, hself⟩ := hnodes
  have hon : ∀ z, (c, z) ∈ v.program.walk → z.OnNothing (c.context a.hierarchy) v.faults := by
    subst ha
    exact fun z hz => analyse_onNothing (by decide) hrs hv hz
  have hcallable : (c.context a.hierarchy).Callable (a.hierarchy.names .object)
      (a.hierarchy.names .copy) [] sig := by
    refine ⟨⟨fun h => ?_, hhas⟩, hfound, ?_, Or.inl hself⟩
    · cases Vocabulary.symbol_injective _ h
    · rw [htypes]
      exact .nil
  have hpassed := (hon y hy).static_passed hyf hr' List.map_nil hcallable
  exact ⟨a, v, c, x, y, ha, hv, hx, hy, hxl, hyl, (hon x hx).dispatch hxf hr,
    hpassed.trans (congrArg some (if_pos hself))⟩

/-- There are no faults, and yet a call on something of type `_no_type`, which has that type itself. -/
def PassesNothing (p : Program) : Prop :=
  ∃ v, (p.analyse .empty).verdict = .ok v ∧ v.faults = [] ∧ ∃ c x receiver args,
    (c, x) ∈ v.program.walk ∧ x.form.children = receiver :: args ∧ x.form.callee?.isSome ∧
      receiver.type? = some (Vocabulary.initial .noType) ∧
      x.type? = some (Vocabulary.initial .noType)

/-- A static dispatch passes by itself, and a dispatch where there is a class `_no_type`. -/
theorem passesNothing_static_and_named :
    (ofMain .initial [] (staticCopyOfNothing .initial 6)).PassesNothing ∧
      (⟨⟨Vocabulary.initial .noType, Vocabulary.initial .object, [], "main.cl", 8⟩ ::
        (ofMain .initial [] (copyOfNothing .initial 6)).classes⟩ : Program).PassesNothing :=
  ⟨⟨_, rfl, rfl, _, _, _, _, .head _, rfl, rfl, rfl, rfl⟩,
    ⟨_, rfl, rfl, _, _, _, _, .head _, rfl, rfl, rfl, rfl⟩⟩

end Program
end CoolStatics
