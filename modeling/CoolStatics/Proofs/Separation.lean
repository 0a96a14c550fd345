import CoolStatics.Proofs.Interchange
import CoolStatics.Proofs.Reordering

/-!
Classes are checked separately. Registration reads no bodies, and the check of a class reads those of
that class only. So what is found in a class, and how the class comes out, is the same in all programs
that differ in the bodies of other classes, and a program comes out class by class.
-/
namespace CoolStatics

open Report

/-- A verdict that is made up, in the order of the classes, of what is found in each by itself: its own
faults, all of them in its file, and the class with its types. -/
structure Verdict.MadeOf (own : ClassDecl → List Fault) (annotated : ClassDecl → ClassDecl)
    (p : Program) (v : Verdict) : Prop where
  faults : v.faults = p.classes.flatMap own
  places : ∀ c ∈ p.classes, ∀ f ∈ own c, ∃ line, f.place = some ⟨c.file, line⟩
  classes : v.program.classes = p.classes.map annotated

theorem ClassDecl.annotated_of_ok {h : Hierarchy} {c c₁ : ClassDecl}
    (hc : (c.check h).outcome = .ok c₁) : c.annotated h = c₁ := by
  rw [annotated, hc]

namespace Program

variable {p p' : Program} {i : Interner} {v : Verdict}

/-- Classes that are checked to their ends make up the verdict. -/
theorem analyse_madeOf (hv : (p.analyse i).verdict = .ok v)
    (hout : (p.analyse i).registration.outlineFaults = []) :
    v.MadeOf (fun c => (c.check (p.analyse i).hierarchy).faults)
      (·.annotated (p.analyse i).hierarchy) p := by
  have hl := analyse_leaves hv hout
  obtain ⟨outs, houts, -⟩ := leaves_all hl
  rw [List.forall₂_map_left_iff] at houts
  have hend : ∀ c ∈ p.classes, ∃ fs c₁, (c.check (p.analyse i).hierarchy).Leaves fs c₁ := by
    intro c hc
    obtain ⟨o, -, ho⟩ := exists_of_forall₂_mem houts hc
    exact ⟨o.1, o.2, ho⟩
  have hok : ∀ c ∈ p.classes, (c.check (p.analyse i).hierarchy).outcome =
      .ok (c.annotated (p.analyse i).hierarchy) := by
    intro c hc
    obtain ⟨fs, c₁, hc₁⟩ := hend c hc
    have hc₁ : (c.check (p.analyse i).hierarchy).outcome = .ok c₁ := congrArg outcome hc₁
    rw [ClassDecl.annotated_of_ok hc₁, hc₁]
  rw [Report.all_map_of_ok hok] at hl
  obtain ⟨hfaults, hclasses⟩ := Report.mk.inj hl
  refine ⟨hfaults.symm, fun c hc f hf => ?_, (Except.ok.inj hclasses).symm⟩
  exact ClassDecl.own_of_leaves (leaves_of_ok (hok c hc)) f hf

/-- Programs that differ in bodies alone either both stop at the same faults of their outline, or both
have their classes checked. What is then found in a class, and what the class comes out as, depends on
that class alone. -/
theorem analyse_separately (hp : p'.classes.map ClassDecl.bare = p.classes.map ClassDecl.bare) :
    (∃ faults, (p.analyse i).conclusion = .halted faults ∧
        (p'.analyse i).conclusion = .halted faults) ∨
      (∃ rs rs', (p.analyse i).conclusion = .checked rs ∧ (p'.analyse i).conclusion = .checked rs') ∧
        ∃ own annotated, (∀ v, (p.analyse i).verdict = .ok v → v.MadeOf own annotated p) ∧
          ∀ v', (p'.analyse i).verdict = .ok v' → v'.MadeOf own annotated p' := by
  have hbuild : Hierarchy.build (Vocabulary.intern i).1 p' =
      Hierarchy.build (Vocabulary.intern i).1 p := Hierarchy.build_eq_of_bare hp
  by_cases hout : (p.analyse i).registration.outlineFaults = []
  · have hout' : (p'.analyse i).registration.outlineFaults = [] :=
      (congrArg Hierarchy.Registration.outlineFaults hbuild).trans hout
    have hsame : (p'.analyse i).hierarchy = (p.analyse i).hierarchy :=
      congrArg Hierarchy.Registration.hierarchy hbuild
    refine Or.inr ⟨⟨_, _, analyse_checked_iff.mpr ⟨hout, rfl⟩, analyse_checked_iff.mpr ⟨hout', rfl⟩⟩,
      _, _, fun v hv => analyse_madeOf hv hout, fun v' hv' => ?_⟩
    rw [← hsame]
    exact analyse_madeOf hv' hout'
  · exact Or.inl ⟨_, analyse_halted_iff.mpr ⟨hout, rfl⟩,
      analyse_halted_iff.mpr ⟨by rwa [hbuild], congrArg _ hbuild⟩⟩

/-- `Main`, where `main` is a variable that is not declared, and in another file a class with an
attribute of type `Int` that is given the initialiser. -/
def besideMain (names : Vocabulary) (init : Expr) : Program :=
  ⟨[{ name := names .mainClass, parent := names .object, file := "main.cl", line := 1
      features := [.method ⟨names .mainMethod, [], names .object,
        Expr.plain 2 (.identifier ⟨26⟩), 2⟩] },
    ⟨⟨27⟩, names .object, [.attr ⟨⟨28⟩, names .int, init, 4⟩], "other.cl", 3⟩]⟩

/-- With either initialiser `Main` has the same faults and comes out the same. -/
theorem analyse_separately_besideMain :
    ∃ v v', ((besideMain .initial (Expr.plain 4 (.bool true))).analyse .empty).verdict = .ok v ∧
      ((besideMain .initial (Expr.plain 5 (.int 1))).analyse .empty).verdict = .ok v' ∧
      v.faults.length = 2 ∧ v'.faults.length = 1 ∧
      v'.program.classes.head? = v.program.classes.head? ∧
      ∃ main other other', v.faults = main ++ other ∧ v'.faults = main ++ other' := by
  have hverdicts : ∃ v v',
      ((besideMain .initial (Expr.plain 4 (.bool true))).analyse .empty).verdict = .ok v ∧
      ((besideMain .initial (Expr.plain 5 (.int 1))).analyse .empty).verdict = .ok v' ∧
      v.faults.length = 2 ∧ v'.faults.length = 1 := ⟨_, _, rfl, rfl, by decide, by decide⟩
  obtain ⟨v, v', hv, hv', hlen, hlen'⟩ := hverdicts
  refine ⟨v, v', hv, hv', hlen, hlen', ?_⟩
  have hp : (besideMain .initial (Expr.plain 5 (.int 1))).classes.map ClassDecl.bare =
      (besideMain .initial (Expr.plain 4 (.bool true))).classes.map ClassDecl.bare := rfl
  rcases analyse_separately (i := .empty) hp with ⟨faults, hhalted, -⟩ | ⟨-, own, annotated, hm, hm'⟩
  · exact ((analyse_halted_iff.mp hhalted).1 rfl).elim
  · refine ⟨?_, _, _, _, (hm v hv).faults, (hm' v' hv').faults⟩
    rw [(hm v hv).classes, (hm' v' hv').classes]
    rfl

end Program
end CoolStatics
