import CoolStatics.Proofs.Order
import CoolStatics.Proofs.Shape
import Mathlib.Order.Defs.Unbundled

/-!
Hierarchies that grow by single calls. Over the basic classes any classes are registered or rejected
and any members are recorded, in any order, and a class may stand under a parent that arrives later or
never. No call closes a cycle or makes a class of `SELF_TYPE`, and this alone makes conformance a
partial order on all names but `_no_type`.
-/
namespace CoolStatics

/-- A call that may change a hierarchy. -/
inductive Change
  | register (c : ClassDecl)
  | addMethod (c : Symbol) (s : Signature)
  | addAttr (c a type : Symbol)

namespace Hierarchy

variable {h h' : Hierarchy} {c : ClassDecl} {current : Symbol}

/-- The hierarchy after a call. A class that is rejected leaves it as it was. -/
def change (h : Hierarchy) : Change → Hierarchy
  | .register c =>
    match h.register c with
    | .ok h' => h'
    | .error _ => h
  | .addMethod c s => h.addMethod c s
  | .addAttr c a type => h.addAttr c a type

/-- A hierarchy that any finite sequence of calls makes of the basic classes. -/
inductive Grown : Hierarchy → Prop
  | basic (names : Vocabulary) : Grown (basic names)
  | change {h : Hierarchy} (hg : Grown h) (u : Change) : Grown (h.change u)

theorem get?_enter (h : Hierarchy) (c : ClassDecl) (x : Symbol) :
    (h.enter c).get? x =
      if x = c.name then some ⟨c.parent, ∅, ∅, c.file, c.line⟩ else h.get? x :=
  Table.get?_insert _ _ _ _

theorem parent?_enter (h : Hierarchy) (c : ClassDecl) (x : Symbol) :
    (h.enter c).parent? x = if x = c.name then some c.parent else h.parent? x := by
  rw [parent?, get?_enter, parent?]
  split <;> rfl

theorem sameShape_modify (h : Hierarchy) (owner : Symbol) {f : ClassInfo → ClassInfo}
    (hf : ∀ info, (f info).parent = info.parent) :
    SameShape h { h with classes := h.classes.modify owner f } := by
  refine ⟨rfl, fun x => ?_⟩
  have hget : ({ h with classes := h.classes.modify owner f } : Hierarchy).get? x =
      if x = owner then (h.get? x).map f else h.get? x := Table.get?_modify _ _ _ _
  rw [parent?, hget, parent?]
  split
  · rw [Option.map_map]
    exact Option.map_congr fun info _ => hf info
  · rfl

/-- A call keeps the shape or enters a class that no rule rejects. -/
theorem change_cases (h : Hierarchy) (u : Change) :
    SameShape h (h.change u) ∨ ∃ c, u = .register c ∧ h.rejection? c = none ∧
      h.change u = h.enter c := by
  cases u with
  | register c =>
    cases hr : h.rejection? c with
    | some why =>
      have hsame : h.change (.register c) = h := by simp only [change, register, hr]
      rw [hsame]
      exact Or.inl (.refl h)
    | none => exact Or.inr ⟨c, rfl, hr, by simp only [change, register, hr]⟩
  | addMethod owner s => exact Or.inl (sameShape_modify h owner fun _ => rfl)
  | addAttr owner a type => exact Or.inl (sameShape_modify h owner fun _ => rfl)

/-- No class reaches itself, and `SELF_TYPE` names none. -/
structure Regular (h : Hierarchy) : Prop where
  acyclic : h.Acyclic
  selfType : h.has (h.names .selfType) = false

theorem Regular.of_sameShape (rg : h.Regular) (sh : SameShape h h') : h'.Regular := by
  refine ⟨sh.acyclic rg.acyclic, ?_⟩
  rw [sh.names, sh.has_eq]
  exact rg.selfType

theorem Acyclic.enter (ac : h.Acyclic) (hr : h.rejection? c = none) : (h.enter c).Acyclic := by
  have hcycle := (rejection?_eq_none_iff.mp hr).2.2.2
  exact ac.extend rfl (parent?_enter h c) ((closesCycle_eq_false_iff ac).mp hcycle)

theorem Regular.enter (rg : h.Regular) (hr : h.rejection? c = none) : (h.enter c).Regular := by
  have hres := (rejection?_eq_none_iff.mp hr).1
  constructor
  · exact rg.acyclic.enter hr
  · have hne : h.names .selfType ≠ c.name := by
      intro hself
      rw [← hself] at hres
      simp [Vocabulary.isReserved] at hres
    rw [← parent?_eq_none_iff, parent?_enter]
    exact (if_neg hne).trans (parent?_eq_none_iff.mpr rg.selfType)

theorem Regular.change (rg : h.Regular) (u : Change) : (h.change u).Regular := by
  rcases change_cases h u with sh | ⟨c, -, hr, heq⟩
  · exact rg.of_sameShape sh
  · rw [heq]
    exact rg.enter hr

theorem regular_basic (names : Vocabulary) : (basic names).Regular := by
  have en : (build names ⟨[]⟩).hierarchy.Enrols ⟨[]⟩ := enrols_build rfl
  exact ⟨en.acyclic, en.not_has_selfType⟩

theorem Grown.regular (hg : h.Grown) : h.Regular := by
  induction hg with
  | basic names => exact regular_basic names
  | change _ u ih => exact ih.change u

theorem sub_selfType_iff {t : Symbol} (hself : current ≠ h.names .selfType)
    (hnone : current ≠ h.names .noType) :
    h.Sub current (h.names .selfType) t ↔ t = h.names .selfType ∨ h.Sub current current t := by
  rw [Sub, Sub, denoted_selfType, denoted_of_ne hself]
  constructor
  · rintro (hne | rfl | hr)
    · simp at hne
    · exact Or.inl rfl
    · exact Or.inr (Or.inr (Or.inr hr))
  · rintro (rfl | hne | rfl | hr)
    · exact Or.inr (Or.inl rfl)
    · exact absurd hne hnone
    · exact Or.inr (Or.inr ⟨hself, .refl _⟩)
    · exact Or.inr (Or.inr hr)

/-- In a hierarchy that has grown by any calls, conformance orders all names but `_no_type`, whether
registered or not, and `SELF_TYPE` conforms to itself and to what the class that it stands for
conforms to. -/
theorem Grown.isPartialOrder_conforms (hg : h.Grown) (hself : current ≠ h.names .selfType)
    (hnone : current ≠ h.names .noType) :
    IsPartialOrder {t : Symbol // t ≠ h.names .noType}
      (fun s t => h.conforms current t s = true) ∧
    ∀ t, h.conforms current t (h.names .selfType) = true ↔
      t = h.names .selfType ∨ h.conforms current t current = true := by
  have ac := hg.regular.acyclic
  simp only [conforms_iff ac hnone]
  refine ⟨{ refl := ?_, trans := ?_, antisymm := ?_ }, fun t => ?_⟩
  · intro t
    exact sub_refl h current t.1
  · intro s t u hst htu
    exact Sub.trans hst htu t.2
  · intro s t hst hts
    exact Subtype.ext (ac.sub_antisymm hst hts s.2 t.2)
  · exact sub_selfType_iff hself hnone

/-- `A` enters under `B`, which is refused under `A`, enters under `C`, which never arrives, and gains
an attribute. -/
def missingParent : Hierarchy :=
  ((((basic .initial).change (.register ⟨⟨26⟩, ⟨27⟩, [], "a.cl", 1⟩)).change
    (.register ⟨⟨27⟩, ⟨26⟩, [], "a.cl", 2⟩)).change
    (.register ⟨⟨27⟩, ⟨28⟩, [], "a.cl", 3⟩)).change (.addAttr ⟨27⟩ ⟨29⟩ ⟨28⟩)

theorem grown_missingParent : missingParent.Grown :=
  ((((Grown.basic .initial).change _).change _).change _).change _

/-- Inside `A` a value of type `SELF_TYPE` conforms to `C`. -/
theorem isPartialOrder_conforms_missingParent :
    IsPartialOrder {t : Symbol // t ≠ missingParent.names .noType}
      (fun s t => missingParent.conforms ⟨26⟩ t s = true) ∧
    missingParent.conforms ⟨26⟩ ⟨28⟩ (missingParent.names .selfType) = true := by
  have hc : missingParent.conforms ⟨26⟩ ⟨28⟩ ⟨26⟩ = true := by decide
  have hself : (⟨26⟩ : Symbol) ≠ missingParent.names .selfType := by decide
  have hnone : (⟨26⟩ : Symbol) ≠ missingParent.names .noType := by decide
  obtain ⟨horder, hiff⟩ := grown_missingParent.isPartialOrder_conforms hself hnone
  exact ⟨horder, (hiff ⟨28⟩).mpr (Or.inr hc)⟩

end Hierarchy
end CoolStatics
