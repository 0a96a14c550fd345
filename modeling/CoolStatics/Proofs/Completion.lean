import CoolStatics.Proofs.Checking

/-!
Checking comes to its end. Where no class inherits `_no_class` any two types that expressions can have
have a join. So no analysis breaks off, and none asks whether a type conforms in a class for which the
question would be asked again for ever.
-/
namespace CoolStatics

namespace Context

open Report

/-- A context in whose hierarchy every class reaches the root. -/
structure Rooted (cx : Context) : Prop extends Furnished cx where
  acyclic : cx.hierarchy.Acyclic
  reaches : ∀ {c}, cx.hierarchy.has c = true → cx.hierarchy.Reaches c (cx.names .object)
  current : cx.hierarchy.has cx.current = true

variable {cx : Context} {a b t : Symbol}

theorem IsType.has_denoted (ht : cx.IsType t) (hc : cx.hierarchy.has cx.current = true) :
    t = cx.names .noType ∨ cx.hierarchy.has (cx.hierarchy.denoted cx.current t) = true := by
  rcases ht with ht | ht
  · exact Or.inl ht
  · exact Or.inr ((isKnown_iff.mp ht).has_denoted hc)

theorem Rooted.ends_join (hc : cx.Rooted) (ha : cx.IsType a) (hb : cx.IsType b) :
    (cx.join a b).Ends cx.IsType := by
  obtain ⟨j, hj⟩ := Hierarchy.exists_join hc.acyclic hc.object hc.reaches
    (ha.has_denoted hc.current) (hb.has_denoted hc.current)
  exact ⟨j, hj, ha.of_join hb hj⟩

theorem Rooted.joins_false (hc : cx.Rooted) : cx.Joins False :=
  fun _ _ ha hb => (hc.ends_join ha hb).meets

end Context

namespace Expr

variable {cx : Context}

/-- An expression is checked to its end, and its type is one that expressions can have. -/
def Completes (cx : Context) (e : Expr) : Prop :=
  ∀ scope, (e.check cx scope).Ends fun r => cx.IsType r.1

theorem completes (hc : cx.Rooted) (e : Expr) : e.Completes cx :=
  fun scope => ((comesOut hc.toFurnished hc.joins_false e scope).imp fun _ hr => hr.1).ends

end Expr

theorem Report.ends_all {α : Type} {rs : List (Report α)} (h : ∀ r ∈ rs, r.Ends fun _ => True) :
    (Report.all rs).Ends fun _ => True := by
  have hmeets : (all (rs.map id)).Meets False (List.Forall₂ (fun _ _ => True) rs) :=
    meets_all fun r hr => (h r hr).meets
  rw [List.map_id] at hmeets
  exact (hmeets.imp fun _ _ => trivial).ends

theorem ClassDecl.ends_check {h : Hierarchy} {c : ClassDecl} (hc : (c.context h).Rooted) :
    (c.check h).Ends fun _ => True :=
  ((meets_check hc.toFurnished hc.joins_false).imp fun _ _ => trivial).ends

namespace Hierarchy

variable {h : Hierarchy} {current a d : Symbol}

/-- Conformance where a value of type `SELF_TYPE` has the question asked again of `current`: the answer
that is found within so many questions. -/
def conformsWithin (h : Hierarchy) : Nat → Symbol → Symbol → Symbol → Option Bool
  | 0, _, _, _ => none
  | n + 1, current, ancestor, descendant =>
    if descendant = h.names .noType then some true
    else if ancestor = h.names .selfType then some (descendant = h.names .selfType)
    else if descendant = h.names .selfType then h.conformsWithin n current ancestor current
    else some (ancestor = descendant || (h.chain descendant).contains ancestor)

/-- Inside a class the question is asked again at most once. -/
theorem conformsWithin_two (hc : current ≠ h.names .selfType) :
    h.conformsWithin 2 current a d = some (h.conforms current a d) := by
  rw [conformsWithin, conforms]
  split_ifs with hn ha hd
  · rfl
  · rfl
  · rw [conformsWithin, hd, denoted_selfType]
    simp only [ha, hc, if_false]
    split_ifs with hcn
    · simp [hcn]
    · simp [hcn]
  · rw [denoted_of_ne hd]
    simp [hn]

/-- Were `SELF_TYPE` itself the class, the question would be asked again for ever. -/
theorem conformsWithin_selfType (ha : a ≠ h.names .selfType) (n : Nat) :
    h.conformsWithin n (h.names .selfType) a (h.names .selfType) = none := by
  induction n with
  | zero => rfl
  | succ n ih => simpa [conformsWithin, ha] using ih

theorem Enrols.rooted {p : Program} (en : h.Enrols p) (cl : h.Closed)
    (hp : ∀ c ∈ p.classes, c.parent ≠ h.names .noClass) {c : ClassDecl} (hc : c ∈ p.classes) :
    (c.context h).Rooted :=
  ⟨en.furnished c, en.acyclic, fun hr => en.reaches_object cl hp hr, en.has_class hc⟩

end Hierarchy

theorem Analysis.exists_verdict {a : Analysis}
    (hends : ∀ classes, a.conclusion = .checked classes →
      (Report.all classes).Ends fun _ => True) : ∃ v, a.verdict = .ok v := by
  rw [verdict]
  cases hc : a.conclusion with
  | halted faults => exact ⟨_, rfl⟩
  | checked classes =>
    obtain ⟨checked, hchecked, -⟩ := hends classes hc
    exact ⟨⟨⟨checked⟩, (Report.all classes).faults⟩, by simp [hchecked, Except.map]⟩

namespace Program

variable {p : Program} {i : Interner}

/-- Where no class inherits `_no_class` an analysis comes to its end, and every class that it checks
is one in which the question whether a type conforms is answered after being asked twice. -/
theorem analyse_completes (hp : ∀ c ∈ p.classes, c.parent ≠ (Vocabulary.intern i).1 .noClass) :
    (∃ v, (p.analyse i).verdict = .ok v) ∧
      ∀ classes, (p.analyse i).conclusion = .checked classes → ∀ c ∈ p.classes, ∀ a d,
        (p.analyse i).hierarchy.conformsWithin 2 c.name a d =
          some ((p.analyse i).hierarchy.conforms c.name a d) := by
  constructor
  · refine Analysis.exists_verdict fun classes hcl => ?_
    obtain ⟨hf, rfl⟩ := analyse_checked_iff.mp hcl
    obtain ⟨hn, en, cl⟩ := Hierarchy.outline_clean hf
    refine Report.ends_all fun r hr => ?_
    obtain ⟨c, hc, rfl⟩ := List.mem_map.mp hr
    exact ClassDecl.ends_check (en.rooted cl (by rwa [hn]) hc)
  · intro classes hcl c hc a d
    obtain ⟨en, -⟩ := (Hierarchy.outline_clean (analyse_checked_iff.mp hcl).1).2
    refine Hierarchy.conformsWithin_two fun hself => ?_
    have hreg := en.has_class hc
    rw [hself] at hreg
    exact absurd (en.not_has_selfType.symm.trans hreg) (by simp)

/-- A program in order whose class bodies are not: `_no_type` is a class, the attribute `x` of `Main`
has an undefined type, and `main` joins it with `SELF_TYPE`. -/
def undefinedAttribute (names : Vocabulary) : Program :=
  ⟨[{ name := names .mainClass, parent := names .io, file := "main.cl", line := 1
      features := [.attr ⟨⟨26⟩, ⟨27⟩, Expr.plain 2 .absent, 2⟩,
        .method ⟨names .mainMethod, [], names .object,
          Expr.plain 3 (.cond (Expr.plain 3 (.bool true))
            (Expr.plain 4 (.identifier ⟨26⟩)) (Expr.plain 5 (.identifier (names .self)))), 3⟩] },
    ⟨names .noType, names .object, [], "main.cl", 8⟩]⟩

theorem analyse_completes_undefinedAttribute :
    (Hierarchy.build .initial (undefinedAttribute .initial)).outlineFaults = [] ∧
      ∃ v, ((undefinedAttribute .initial).analyse .empty).verdict = .ok v :=
  ⟨by decide, (analyse_completes (i := .empty) (by decide)).1⟩

end Program
end CoolStatics
