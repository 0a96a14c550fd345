import CoolStatics.Proofs.Tree
import Mathlib.Data.List.Forall2

/-!
Hierarchies of one shape: the same classes under the same parents, whatever members they have.
Ancestors, conformance and joins depend on the shape alone, and so does all that registration asks of a
class but that its features are distinct.
-/
namespace CoolStatics

namespace Hierarchy

variable {h h' : Hierarchy}

structure SameShape (h h' : Hierarchy) : Prop where
  names : h'.names = h.names
  parent : ∀ c, h'.parent? c = h.parent? c

namespace SameShape

theorem refl (h : Hierarchy) : SameShape h h := ⟨rfl, fun _ => rfl⟩

theorem has_eq (sh : SameShape h h') (c : Symbol) : h'.has c = h.has c := by
  have hnone : h'.has c = false ↔ h.has c = false := by
    rw [← parent?_eq_none_iff, ← parent?_eq_none_iff, sh.parent]
  cases hc : h.has c with
  | false => exact hnone.mpr hc
  | true =>
    by_contra hne
    rw [hnone.mp (by simpa using hne)] at hc
    cases hc

theorem edge_eq (sh : SameShape h h') : h'.Edge = h.Edge := by
  funext c p
  rw [Edge, Edge, sh.parent, sh.names]

theorem acyclic (sh : SameShape h h') (ac : h.Acyclic) : h'.Acyclic := by
  intro c t
  rw [sh.edge_eq] at t
  exact ac c t

theorem closed (sh : SameShape h h') (cl : h.Closed) : h'.Closed := by
  intro c p e
  rw [sh.edge_eq] at e
  rw [sh.has_eq]
  exact cl c p e

theorem chain_eq (sh : SameShape h h') (ac : h.Acyclic) (c : Symbol) : h'.chain c = h.chain c := by
  induction c using ac.induct with
  | step c ih =>
    by_cases hc : ∃ p, h.Edge c p
    · obtain ⟨p, e⟩ := hc
      have e' : h'.Edge c p := by rwa [sh.edge_eq]
      rw [chain_of_edge ac e, chain_of_edge (sh.acyclic ac) e', ih p e]
    · have hc' : ∀ p, ¬h'.Edge c p := by rwa [sh.edge_eq, ← not_exists]
      rw [chain_of_no_edge (not_exists.mp hc), chain_of_no_edge hc']

theorem ancestors_eq (sh : SameShape h h') (ac : h.Acyclic) (c : Symbol) :
    h'.ancestors c = h.ancestors c := by
  have hhas : h'.has = h.has := funext sh.has_eq
  rw [ancestors, ancestors, sh.chain_eq ac, hhas]

theorem lineage_eq (sh : SameShape h h') (ac : h.Acyclic) (c : Symbol) :
    h'.lineage c = h.lineage c := by
  rw [lineage, lineage, sh.ancestors_eq ac, sh.has_eq]

theorem denoted_eq (sh : SameShape h h') (current t : Symbol) :
    h'.denoted current t = h.denoted current t := by
  rw [denoted, denoted, sh.names]

theorem conforms_eq (sh : SameShape h h') (ac : h.Acyclic) (current d t : Symbol) :
    h'.conforms current d t = h.conforms current d t := by
  have hchain : h'.chain = h.chain := funext (sh.chain_eq ac)
  rw [conforms, conforms, sh.names, sh.denoted_eq, hchain]

theorem join_eq (sh : SameShape h h') (ac : h.Acyclic) (current s t : Symbol) :
    h'.join current s t = h.join current s t := by
  have hlineage : h'.lineage = h.lineage := funext (sh.lineage_eq ac)
  rw [join, join, sh.names, sh.denoted_eq, sh.denoted_eq, hlineage]

theorem add (sh : SameShape h h') {c c' : ClassDecl} (hn : c'.name = c.name)
    (hp : c'.parent = c.parent) : SameShape (h.add c) (h'.add c') := by
  refine ⟨sh.names, fun x => ?_⟩
  rw [parent?_add, parent?_add, hn, hp, sh.parent]

theorem rejection?_eq_none (sh : SameShape h h') (ac : h.Acyclic) {c c' : ClassDecl}
    (hn : c'.name = c.name) (hp : c'.parent = c.parent) (hr : h.rejection? c = none) :
    h'.rejection? c' = none := by
  rw [rejection?_eq_none_iff, closesCycle] at hr ⊢
  rwa [sh.names, sh.has_eq, sh.chain_eq ac, hn, hp]

end SameShape

/-- A class with the name and the parent of another one, and with distinct features if that has. -/
structure StandsIn (names : Vocabulary) (c c' : ClassDecl) : Prop where
  name : c'.name = c.name
  parent : c'.parent = c.parent
  distinct : c.Distinct names → c'.Distinct names

theorem StandsIn.refl (names : Vocabulary) (c : ClassDecl) : StandsIn names c c := ⟨rfl, rfl, id⟩

theorem registerAll_standsIn {names : Vocabulary} {cs cs' : List ClassDecl} (sh : SameShape h h')
    (hn : h.names = names) (ac : h.Acyclic) (hcs : List.Forall₂ (StandsIn names) cs cs')
    (hf : (h.registerAll cs).faults = []) :
    (h'.registerAll cs').faults = [] ∧
      SameShape (h.registerAll cs).hierarchy (h'.registerAll cs').hierarchy := by
  induction hcs generalizing h h' with
  | nil => exact ⟨rfl, sh⟩
  | cons hc _ ih =>
    obtain ⟨hr, hd, hrest⟩ := registerAll_cons_eq_nil_iff.mp hf
    have hr' := sh.rejection?_eq_none ac hc.name hc.parent hr
    obtain ⟨hf', sh'⟩ := ih (sh.add hc.name hc.parent) hn (ac.add hr) hrest
    rw [hn] at hd
    rw [registerAll_cons_eq_nil_iff, registerAll_cons_hierarchy hr, registerAll_cons_hierarchy hr',
      sh.names, hn]
    exact ⟨⟨hr', hc.distinct hd, hf'⟩, sh'⟩

end Hierarchy
end CoolStatics
