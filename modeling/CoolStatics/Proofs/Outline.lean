import CoolStatics.Proofs.Tree

/-!
The faults of an outline. Each cause belongs to one stage of the analysis. Registration notes what
features clash with and ends with at most one class that may not enter; a program without such faults
has at most one fault about `Main`, and one without that only such about parents.
-/
namespace CoolStatics

/-- The step of an analysis that notes a fault. -/
inductive Stage
  | entry
  | declaration
  | main
  | parents
  | typing
  deriving DecidableEq, Repr

def Cause.stage : Cause → Stage
  | .rejected _ => .entry
  | .methodRedefined .. | .attributeRedefined .. | .selfAttribute => .declaration
  | .noMainClass | .noMainMethod | .mainHasParameters => .main
  | .undefinedParent .. => .parents
  | _ => .typing

namespace Hierarchy

variable {h : Hierarchy}

theorem stage_of_clash? {owner : Symbol} {f : Feature} {cause : Cause}
    (hc : h.clash? owner f = some cause) : cause.stage = .declaration := by
  cases f with
  | method m =>
    rw [clash?] at hc
    split_ifs at hc
    obtain rfl := Option.some.inj hc
    rfl
  | attr a =>
    rw [clash?] at hc
    split_ifs at hc
    · obtain rfl := Option.some.inj hc
      rfl
    · obtain rfl := Option.some.inj hc
      rfl

theorem stage_of_mem_declareFeatures {c : ClassDecl} {fs : List Feature} {fault : Fault}
    (hf : fault ∈ (h.declareFeatures c fs).2) : fault.cause.stage = .declaration := by
  induction fs generalizing h with
  | nil => cases hf
  | cons f fs ih =>
    rw [declareFeatures] at hf
    rcases List.mem_append.mp hf with hf | hf
    · obtain ⟨cause, hc, rfl⟩ := Option.map_eq_some_iff.mp (Option.mem_toList.mp hf)
      exact stage_of_clash? hc
    · exact ih hf

/-- Clashes of features, and after them at most one class that may not enter. -/
def FromRegistration (faults : List Fault) : Prop :=
  ∃ declared rejected, faults = declared ++ Option.toList rejected ∧
    (∀ f ∈ declared, f.cause.stage = .declaration) ∧ ∀ f ∈ rejected, f.cause.stage = .entry

def FromParents (faults : List Fault) : Prop := ∀ f ∈ faults, f.cause.stage = .parents

theorem FromRegistration.append {faults more : List Fault}
    (hd : ∀ f ∈ faults, f.cause.stage = .declaration) (hr : FromRegistration more) :
    FromRegistration (faults ++ more) := by
  obtain ⟨declared, rejected, rfl, hdeclared, hrejected⟩ := hr
  refine ⟨faults ++ declared, rejected, (List.append_assoc _ _ _).symm, ?_, hrejected⟩
  intro f hf
  rcases List.mem_append.mp hf with hf | hf
  · exact hd f hf
  · exact hdeclared f hf

theorem registerAll_fromRegistration (h : Hierarchy) (cs : List ClassDecl) :
    FromRegistration (h.registerAll cs).faults := by
  induction cs generalizing h with
  | nil => exact ⟨[], none, rfl, by simp, by simp⟩
  | cons c cs ih =>
    rw [registerAll]
    split
    · next why _ => exact ⟨[], some ⟨.rejected why, some c.place⟩, rfl, by simp, by simp [Cause.stage]⟩
    · exact .append (fun f hf => stage_of_mem_declareFeatures hf) (ih _)

theorem stage_of_mainFault? {fault : Fault} (hf : h.mainFault? = some fault) :
    fault.cause.stage = .main := by
  rw [mainFault?] at hf
  split at hf
  · obtain rfl := Option.some.inj hf
    rfl
  · split at hf
    · obtain rfl := Option.some.inj hf
      rfl
    · split_ifs at hf
      obtain rfl := Option.some.inj hf
      rfl

theorem parentFaults_fromParents (h : Hierarchy) : FromParents h.parentFaults := by
  intro f hf
  obtain ⟨⟨c, info⟩, -, hsome⟩ := List.mem_filterMap.mp hf
  dsimp only at hsome
  split_ifs at hsome
  obtain rfl := Option.some.inj hsome
  rfl

end Hierarchy
end CoolStatics
