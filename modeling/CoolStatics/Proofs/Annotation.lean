import CoolStatics.Proofs.Checking
import CoolStatics.Proofs.Outline

/-!
What an analysis does to a program. It leaves a program whose outline has faults as it was. Otherwise,
if it comes to its end, it has written a type at every node, whatever faults it has found and whatever
types were there before, and has changed nothing else. The types are `SELF_TYPE`, `_no_type` and the
registered classes.
-/
namespace CoolStatics

/-- What an analysis makes of a program with the registration `r`. The steps before typing report one at
a time, and the first that does so ends the analysis with the program as it was. -/
structure AllOrNothing (p : Program) (r : Hierarchy.Registration) (v : Verdict) : Prop where
  untyped : v.program.untyped = p.untyped
  registration : r.faults ≠ [] → v = ⟨p, r.faults⟩ ∧ Hierarchy.FromRegistration r.faults
  main : r.faults = [] → ∀ f, r.hierarchy.mainFault? = some f →
    v = ⟨p, [f]⟩ ∧ f.cause.stage = .main
  parents : r.faults = [] → r.hierarchy.mainFault? = none → r.hierarchy.parentFaults ≠ [] →
    v = ⟨p, r.hierarchy.parentFaults⟩ ∧ Hierarchy.FromParents r.hierarchy.parentFaults
  typed : r.faults = [] → r.hierarchy.mainFault? = none → r.hierarchy.parentFaults = [] →
    ∀ x ∈ v.program.walk, ∃ t, x.2.type? = some t ∧
      (t = r.hierarchy.names .selfType ∨ t = r.hierarchy.names .noType ∨ r.hierarchy.has t = true)

namespace Program

variable {p p' : Program} {i : Interner} {v : Verdict}

theorem annotated_of_forall₂ {h : Hierarchy}
    (hrel : List.Forall₂ (ClassDecl.Annotates h) p.classes p'.classes) :
    p'.untyped = p.untyped ∧ ∀ x ∈ p'.walk, ∃ t, x.2.type? = some t ∧
      (t = h.names .selfType ∨ t = h.names .noType ∨ h.has t = true) := by
  constructor
  · rw [untyped, untyped, map_eq_of_forall₂ (fun hc => hc.untyped) hrel]
  · intro x hx
    obtain ⟨c', hc', hx⟩ := List.mem_flatMap.mp hx
    obtain ⟨e, he, rfl⟩ := List.mem_map.mp hx
    obtain ⟨c, -, hc⟩ := exists_of_forall₂_mem hrel.flip hc'
    obtain ⟨t, ht, hnone | hknown⟩ := hc.typed e he
    · exact ⟨t, ht, Or.inr (Or.inl hnone)⟩
    · exact ⟨t, ht, (Context.isKnown_iff.mp hknown).imp_right Or.inr⟩

theorem analyse_verdict_cases (hv : (p.analyse i).verdict = .ok v) :
    ((p.analyse i).registration.outlineFaults ≠ [] ∧
        v = ⟨p, (p.analyse i).registration.outlineFaults⟩) ∨
      ((p.analyse i).registration.outlineFaults = [] ∧
        (Report.all (p.classes.map (·.check (p.analyse i).hierarchy))).outcome =
          .ok v.program.classes) := by
  rw [analyse_verdict_eq] at hv
  split_ifs at hv with hf
  · cases hout : (Report.all (p.classes.map (·.check (p.analyse i).hierarchy))).outcome with
    | error e => simp [hout, Except.map] at hv
    | ok classes =>
      simp only [hout, Except.map] at hv
      exact Or.inr ⟨hf, by rw [← Except.ok.inj hv]⟩
  · exact Or.inl ⟨hf, (Except.ok.inj hv).symm⟩

/-- An analysis that comes to its end annotates all of the program or nothing. -/
theorem analyse_allOrNothing (hv : (p.analyse i).verdict = .ok v) :
    AllOrNothing p (p.analyse i).registration v := by
  rcases analyse_verdict_cases hv with ⟨hne, rfl⟩ | ⟨hf, hout⟩
  · refine ⟨rfl, fun hr => ?_, fun hr f hm => ?_, fun hr hm _ => ?_, fun hr hm hp => ?_⟩
    · refine ⟨?_, Hierarchy.registerAll_fromRegistration _ _⟩
      simp [Hierarchy.Registration.outlineFaults, hr]
    · refine ⟨?_, Hierarchy.stage_of_mainFault? hm⟩
      simp [Hierarchy.Registration.outlineFaults, hr, hm]
    · refine ⟨?_, Hierarchy.parentFaults_fromParents _⟩
      simp [Hierarchy.Registration.outlineFaults, hr, hm]
    · exact absurd (Hierarchy.Registration.outlineFaults_eq_nil_iff.mpr ⟨hr, hm, hp⟩) hne
  · obtain ⟨-, en, -⟩ := Hierarchy.outline_clean hf
    have hrel := (Report.meets_all fun c _ =>
      ClassDecl.meets_check (en.furnished c) (Context.joins_true _)).of_ok hout
    obtain ⟨huntyped, htyped⟩ := annotated_of_forall₂ hrel
    obtain ⟨hr, hm, hp⟩ := Hierarchy.Registration.outlineFaults_eq_nil_iff.mp hf
    refine ⟨huntyped, fun hne => absurd hr hne, fun _ f hsome => ?_, fun _ _ hne => absurd hp hne,
      fun _ _ _ => htyped⟩
    rw [hm] at hsome
    cases hsome

/-- A class `Main` under `_no_class` whose method `main` is a dispatch without a receiver. Its nodes
have types that are no classes, as if from another analysis. -/
def stale (names : Vocabulary) : Program :=
  ⟨[{ name := names .mainClass, parent := names .noClass, file := "main.cl", line := 1
      features := [.method ⟨names .mainMethod, [], names .object,
        .node 2 (some ⟨40⟩) (.dispatch (.node 2 (some ⟨41⟩) .absent) ⟨26⟩
          [.node 3 none (.identifier ⟨27⟩), .node 3 (some ⟨42⟩) (.int 7)]), 2⟩] }]⟩

theorem analyse_allOrNothing_stale :
    ∃ v, ((stale .initial).analyse .empty).verdict = .ok v ∧ v.faults ≠ [] ∧
      AllOrNothing (stale .initial) ((stale .initial).analyse .empty).registration v := by
  have hverdict : ∃ v, ((stale .initial).analyse .empty).verdict = .ok v ∧ v.faults ≠ [] :=
    ⟨_, rfl, by decide⟩
  obtain ⟨v, hv, hfaults⟩ := hverdict
  exact ⟨v, hv, hfaults, analyse_allOrNothing hv⟩

end Program
end CoolStatics
