import CoolStatics.Proofs.Annotation
import CoolStatics.Proofs.Interchange
import CoolStatics.Proofs.Numbering

/-!
Analysing a program again. The check of an expression does not look at the types that its nodes have
already, so programs that differ in nothing else are judged alike. An analysis interns the predefined
names and no others, and these are found at their places by the next one. Hence the outcome of an
analysis is what analysing it gives.
-/
namespace CoolStatics

/-! Types that are there already are not read. -/

namespace Expr

variable {cx : Context}

theorem checkList_untyped {es : List Expr}
    (hes : ∀ e ∈ es, ∀ scope, e.untyped.check cx scope = e.check cx scope) (scope : Scope) :
    checkList cx scope (untypedList es) = checkList cx scope es := by
  induction es with
  | nil => rfl
  | cons e es ih =>
    rw [List.forall_mem_cons] at hes
    rw [untypedList, checkList, checkList, hes.1, ih hes.2]

theorem checkBranches_untyped {bs : List (Branch Expr)}
    (hbs : ∀ b ∈ bs, ∀ scope, b.body.untyped.check cx scope = b.body.check cx scope) (scope : Scope)
    (before : List Symbol) (soFar : Symbol) :
    checkBranches cx scope before soFar (untypedBranches bs) =
      checkBranches cx scope before soFar bs := by
  induction bs generalizing before soFar with
  | nil => rfl
  | cons b bs ih =>
    rw [List.forall_mem_cons] at hbs
    simp only [untypedBranches, checkBranches, hbs.1, ih hbs.2]

theorem check_untyped (cx : Context) (e : Expr) (scope : Scope) :
    e.untyped.check cx scope = e.check cx scope := by
  induction e generalizing scope with
  | dispatch line type? receiver method args ihr iha =>
    simp only [untyped, plain, check, ihr, checkList_untyped iha]
  | staticDispatch line type? receiver type method args ihr iha =>
    simp only [untyped, plain, check, ihr, checkList_untyped iha]
  | case line type? scrutinee branches ihs ihb =>
    simp only [untyped, plain, check, ihs, checkBranches_untyped ihb]
  | block line type? body ih => simp only [untyped, plain, check, checkList_untyped ih]
  | cond line type? pred yes no ihp ihy ihn => simp only [untyped, plain, check, ihp, ihy, ihn]
  | assign _ _ _ _ ih | neg _ _ _ ih | not _ _ _ ih | isVoid _ _ _ ih =>
    simp only [untyped, plain, check, ih]
  | loop _ _ _ _ ih ih' | letIn _ _ _ _ _ _ ih ih' | arith _ _ _ _ _ ih ih'
  | compare _ _ _ _ _ ih ih' | eq _ _ _ _ ih ih' => simp only [untyped, plain, check, ih, ih']
  | int | string | bool | new | identifier | absent => simp only [untyped, plain, check]

end Expr

theorem Context.checkFeature_untyped (cx : Context) (scope : Scope) (f : Feature) :
    cx.checkFeature scope f.untyped = cx.checkFeature scope f := by
  cases f with
  | method m =>
    have hdeparts : ({ m with body := m.body.untyped } : Method).departure? = m.departure? := rfl
    simp only [Feature.untyped, checkFeature, checkMethod, hdeparts, Expr.check_untyped]
  | attr a => simp only [Feature.untyped, checkFeature, checkAttr, Expr.check_untyped]

theorem ClassDecl.check_untyped (h : Hierarchy) (c : ClassDecl) :
    c.untyped.check h = c.check h := by
  have hfs : ∀ cx : Context, cx.checkFeatures (c.features.map Feature.untyped) =
      cx.checkFeatures c.features := by
    intro cx
    simp only [Context.checkFeatures_eq_all, List.map_map, Function.comp_def,
      Context.checkFeature_untyped]
  simp only [check, untyped, context, hfs]

/-! Names that are there already are found at their places. -/

namespace Interner

theorem internAll_of_subset {i : Interner} {names : List String} (hsub : names ⊆ i.names) :
    i.internAll names = (names.map fun name => ⟨i.names.idxOf name⟩, i) := by
  induction names with
  | nil => rfl
  | cons name names ih =>
    rw [List.cons_subset] at hsub
    simp only [internAll, intern_of_mem hsub.1, ih hsub.2, List.map_cons]

theorem internAll_symbols (i : Interner) (names : List String) :
    (i.internAll names).1 = names.map fun name => ⟨(i.internAll names).2.names.idxOf name⟩ := by
  induction names generalizing i with
  | nil => rfl
  | cons name names ih =>
    obtain ⟨rest, hrest⟩ := names_prefix_internAll (i.intern name).2 names
    have hidx : ((i.intern name).2.internAll names).2.names.idxOf name =
        (i.intern name).2.names.idxOf name := by
      rw [← hrest, List.idxOf_append_of_mem (mem_names_intern i name)]
    simp only [internAll, List.map_cons, hidx, ← intern_symbol, ← ih]

/-- Interning names a second time gives the same symbols and adds nothing. -/
theorem internAll_again (i : Interner) (names : List String) :
    (i.internAll names).2.internAll names = i.internAll names := by
  rw [internAll_of_subset (subset_names_internAll i names), ← internAll_symbols]

end Interner

theorem Vocabulary.intern_again (i : Interner) : intern (intern i).2 = intern i := by
  have hagain := i.internAll_again (Predefined.all.map Predefined.text)
  refine Prod.ext (eq_of_symbols_eq ?_) ?_
  · rw [symbols_intern, intern_snd, hagain, symbols_intern]
  · rw [intern_snd, intern_snd, hagain]

/-! Two analyses. -/

namespace Program

variable {p q : Program} {i : Interner} {v : Verdict}

theorem build_eq_of_untyped (names : Vocabulary) (hpq : p.untyped = q.untyped) :
    Hierarchy.build names q = Hierarchy.build names p := by
  have hclasses : p.classes.map ClassDecl.untyped = q.classes.map ClassDecl.untyped :=
    congrArg Program.classes hpq
  have hbare := congrArg (List.map ClassDecl.bare) hclasses
  simp only [List.map_map, Function.comp_def, ClassDecl.bare_untyped] at hbare
  exact Hierarchy.build_eq_of_bare hbare.symm

theorem checkAll_eq_of_untyped (h : Hierarchy) (hpq : p.untyped = q.untyped) :
    q.classes.map (·.check h) = p.classes.map (·.check h) := by
  have hclasses : p.classes.map ClassDecl.untyped = q.classes.map ClassDecl.untyped :=
    congrArg Program.classes hpq
  have hcheck := congrArg (List.map (ClassDecl.check h)) hclasses
  simp only [List.map_map, Function.comp_def, ClassDecl.check_untyped] at hcheck
  exact hcheck.symm

/-- Programs that differ in types alone have the same verdict, but that each stays as it is where the
outline has faults. -/
theorem verdict_eq_of_untyped (i : Interner) (hpq : p.untyped = q.untyped) :
    (q.analyse i).verdict =
      if (p.analyse i).registration.outlineFaults = [] then (p.analyse i).verdict
      else .ok ⟨q, (p.analyse i).registration.outlineFaults⟩ := by
  have hreg : (q.analyse i).registration = (p.analyse i).registration :=
    build_eq_of_untyped _ hpq
  have hhier : (q.analyse i).hierarchy = (p.analyse i).hierarchy :=
    congrArg Hierarchy.Registration.hierarchy hreg
  rw [analyse_verdict_eq, analyse_verdict_eq, hreg, hhier, checkAll_eq_of_untyped _ hpq]
  split_ifs <;> rfl

theorem untyped_of_verdict (hv : (p.analyse i).verdict = .ok v) : v.program.untyped = p.untyped := by
  rcases analyse_verdict_cases hv with ⟨-, rfl⟩ | ⟨hout, hend⟩
  · rfl
  · have en := (Hierarchy.outline_clean hout).2.1
    have hrel := (Report.meets_all fun c _ =>
      ClassDecl.meets_check (en.furnished c) (Context.joins_true _)).of_ok hend
    exact (annotated_of_forall₂ hrel).1

theorem analyse_interner_again (p q : Program) (i : Interner) :
    (q.analyse (p.analyse i).interner).interner = (p.analyse i).interner := by
  rw [analyse_interner, analyse_interner, Vocabulary.intern_again]

/-- With the interner that an analysis leaves, another one comes to what it comes to with that which the
first was given. -/
theorem analyse_verdict_again (p q : Program) (i : Interner) :
    (q.analyse (p.analyse i).interner).registration = (q.analyse i).registration ∧
      (q.analyse (p.analyse i).interner).verdict = (q.analyse i).verdict := by
  have hreg : (q.analyse (p.analyse i).interner).registration = (q.analyse i).registration := by
    have hnames := congrArg Prod.fst (Vocabulary.intern_again i)
    rw [analyse_interner]
    exact congrArg (Hierarchy.build · q) hnames
  have hhier : (q.analyse (p.analyse i).interner).hierarchy = (q.analyse i).hierarchy :=
    congrArg Hierarchy.Registration.hierarchy hreg
  exact ⟨hreg, by rw [analyse_verdict_eq, analyse_verdict_eq, hreg, hhier]⟩

/-- Types that are there before an analysis make no difference to it: programs that are equal without
them are registered alike, and both analyses break off at the same join or find the same faults, with the
same program as their outcome if the classes were checked. And what an analysis comes to stays as it is
when it is analysed again. -/
theorem analyse_again (i : Interner) :
    (∀ p q : Program, p.untyped = q.untyped →
      (q.analyse i).registration = (p.analyse i).registration ∧
        (q.analyse i).interner = (p.analyse i).interner ∧
        (q.analyse i).verdict.map (·.faults) = (p.analyse i).verdict.map (·.faults) ∧
        ((p.analyse i).registration.outlineFaults = [] →
          (q.analyse i).verdict = (p.analyse i).verdict)) ∧
      ∀ (p : Program) (v : Verdict), (p.analyse i).verdict = .ok v →
        (v.program.analyse (p.analyse i).interner).verdict = .ok v ∧
          (v.program.analyse (p.analyse i).interner).registration = (p.analyse i).registration ∧
          (v.program.analyse (p.analyse i).interner).interner = (p.analyse i).interner := by
  constructor
  · intro p q hpq
    have hverdict := verdict_eq_of_untyped i hpq
    refine ⟨build_eq_of_untyped _ hpq, rfl, ?_, fun hout => by rw [hverdict, if_pos hout]⟩
    rw [hverdict]
    split_ifs with hout
    · rfl
    · rw [analyse_verdict_eq, if_neg hout]
      rfl
  · intro p v hv
    obtain ⟨hreg, hverdict⟩ := analyse_verdict_again p v.program i
    have hpv : p.untyped = v.program.untyped := (untyped_of_verdict hv).symm
    refine ⟨?_, by rw [hreg]; exact build_eq_of_untyped _ hpv, analyse_interner_again p v.program i⟩
    rw [hverdict, verdict_eq_of_untyped i hpv, hv]
    split_ifs with hout
    · rfl
    · rw [analyse_verdict_eq, if_neg hout] at hv
      rw [← Except.ok.inj hv]

/-- The types that `stale` has are not read, and its outcome is analysed to itself. -/
theorem analyse_again_stale :
    ∃ v, ((stale .initial).analyse .empty).verdict = .ok v ∧
      (stale .initial).annotations ≠ (stale .initial).untyped.annotations ∧
      ((stale .initial).untyped.analyse .empty).verdict = .ok v ∧
      (v.program.analyse ((stale .initial).analyse .empty).interner).verdict = .ok v := by
  have hverdict : ∃ v, ((stale .initial).analyse .empty).verdict = .ok v := ⟨_, rfl⟩
  obtain ⟨v, hv⟩ := hverdict
  obtain ⟨hsame, hagain⟩ := analyse_again .empty
  refine ⟨v, hv, by decide, ?_, (hagain _ v hv).1⟩
  rw [(hsame (stale .initial) (stale .initial).untyped rfl).2.2.2 (by decide), hv]

end Program
end CoolStatics
