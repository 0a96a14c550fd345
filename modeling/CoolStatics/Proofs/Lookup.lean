import CoolStatics.Proofs.Growth

/-!
Looking members up while a hierarchy grows. What a class inherits is what its parent finds, if that is
there. A class may enter after others have been put under it, and then lengthens the chains that ended in
its name. They are lengthened at their ends only, so whatever was found along a chain is still found.
-/
namespace CoolStatics

def Change.RecordsIn (c : Symbol) : Change → Prop
  | .register _ => False
  | .addMethod owner _ => owner = c
  | .addAttr owner _ _ => owner = c

namespace Hierarchy

variable {h h' : Hierarchy} {c p new x : Symbol}

def changeAll (h : Hierarchy) (us : List Change) : Hierarchy := us.foldl change h

/-! From a class to its parent. -/

/-- The ancestors of a class are its parent and those of its parent. A parent that is not registered has
neither, and the class under `_no_class` has no parent. -/
theorem ancestors_eq_of_parent? (ac : h.Acyclic) (hp : h.parent? c = some p) :
    h.ancestors c = if h.has p = true ∧ p ≠ h.names .noClass then h.lineage p else [] := by
  by_cases hnc : p = h.names .noClass
  · have hno : ∀ q, ¬h.Edge c q := by
      intro q e
      have hq : q = p := Option.some.inj (e.1.symm.trans hp)
      exact e.2 (hq.trans hnc)
    rw [ancestors_of_no_edge hno, if_neg fun hup => hup.2 hnc]
  · rw [ancestors_of_edge ac ⟨hp, hnc⟩]
    by_cases hreg : h.has p = true
    · rw [if_pos ⟨hreg, hnc⟩]
    · rw [lineage_of_not_has (by simpa using hreg), if_neg fun hup => hreg hup.1]

/-- In a hierarchy that has grown by any calls members are found by recursion along the parents: what a
class does not declare is what its parent has, if that is registered and not `_no_class`. -/
theorem Grown.lookup_at_parent (hg : h.Grown) (hp : h.parent? c = some p) (m a : Symbol) :
    h.findMethod? c m = (h.method? c m).or
        (if h.has p = true ∧ p ≠ h.names .noClass then h.findMethod? p m else none) ∧
      h.inheritedMethod? c m =
        (if h.has p = true ∧ p ≠ h.names .noClass then h.findMethod? p m else none) ∧
      h.inheritedAttr? c a =
        (if h.has p = true ∧ p ≠ h.names .noClass then (h.attr? p a).or (h.inheritedAttr? p a)
        else none) := by
  have hup := ancestors_eq_of_parent? hg.regular.acyclic hp
  have hmethod : h.inheritedMethod? c m =
      if h.has p = true ∧ p ≠ h.names .noClass then h.findMethod? p m else none := by
    rw [inheritedMethod?, hup, findMethod?_eq]
    split <;> rfl
  have hattr : h.inheritedAttr? c a =
      if h.has p = true ∧ p ≠ h.names .noClass then h.findAttr? p a else none := by
    rw [inheritedAttr?, hup, findAttr?_eq]
    split <;> rfl
  exact ⟨by rw [findMethod?, hmethod], hmethod, hattr⟩

/-- `A` has the attribute of `B`, and `B` has no method from `C`, which is not there. -/
theorem lookup_at_parent_missingParent :
    missingParent.inheritedAttr? ⟨26⟩ ⟨29⟩ = some ⟨28⟩ ∧
      missingParent.findMethod? ⟨27⟩ (missingParent.names .copy) = none := by
  have hB : missingParent.parent? ⟨26⟩ = some ⟨27⟩ := by decide
  have hC : missingParent.parent? ⟨27⟩ = some ⟨28⟩ := by decide
  obtain ⟨-, -, hattr⟩ := grown_missingParent.lookup_at_parent hB ⟨29⟩ ⟨29⟩
  obtain ⟨hmethod, -, -⟩ := grown_missingParent.lookup_at_parent hC (missingParent.names .copy) ⟨29⟩
  exact ⟨hattr.trans (by decide), hmethod.trans (by decide)⟩

/-! From a hierarchy to a larger one. -/

/-- The second hierarchy has the classes of the first as they are, and `new`, which in the first some of
them may have for their parent already. -/
structure Receives (h h' : Hierarchy) (new : Symbol) : Prop where
  names : h'.names = h.names
  acyclic : h.Acyclic
  acyclic' : h'.Acyclic
  get? : ∀ {x}, x ≠ new → h'.get? x = h.get? x
  fresh : h.has new = false

namespace Receives

theorem ne_new (w : Receives h h' new) (hx : h.has x = true) : x ≠ new := ne_of_has hx w.fresh

theorem edge_iff (w : Receives h h' new) (hx : x ≠ new) : h'.Edge x p ↔ h.Edge x p := by
  rw [Edge, Edge, parent?, parent?, w.get? hx, w.names]

theorem no_edge_new (w : Receives h h' new) (p : Symbol) : ¬h.Edge new p := by
  intro e
  exact w.ne_new e.has rfl

theorem chain_new (w : Receives h h' new) : h.chain new = [] := chain_of_no_edge w.no_edge_new

/-- A chain that ended in the name of the new class goes on with the chain of that class, and every
other one is as it was. -/
theorem chain_eq (w : Receives h h' new) (hx : x ≠ new) :
    h'.chain x =
      if (h.chain x).getLast? = some new then h.chain x ++ h'.chain new else h.chain x := by
  induction x using w.acyclic.induct with
  | step x ih =>
    by_cases hup : ∃ p, h.Edge x p
    · obtain ⟨p, e⟩ := hup
      rw [chain_of_edge w.acyclic e, chain_of_edge w.acyclic' ((w.edge_iff hx).mpr e)]
      by_cases hp : p = new
      · -- the chain ended here
        simp [hp, w.chain_new]
      · have hlast : (p :: h.chain p).getLast? = some new ↔ (h.chain p).getLast? = some new := by
          rw [List.getLast?_cons]
          cases (h.chain p).getLast? <;> simp [hp]
        rw [ih p e hp]
        simp only [hlast]
        split <;> rfl
    · have hup' : ∀ p, ¬h'.Edge x p := fun p e => hup ⟨p, (w.edge_iff hx).mp e⟩
      rw [chain_of_no_edge (not_exists.mp hup), chain_of_no_edge hup']
      rfl

theorem chain_prefix (w : Receives h h' new) (x : Symbol) : h.chain x <+: h'.chain x := by
  by_cases hx : x = new
  · rw [hx, w.chain_new]
    exact List.nil_prefix
  · rw [w.chain_eq hx]
    split
    · exact List.prefix_append _ _
    · exact List.prefix_refl _

theorem lineage_prefix (w : Receives h h' new) (x : Symbol) : h.lineage x <+: h'.lineage x := by
  induction x using w.acyclic.induct with
  | step x ih =>
    by_cases hreg : h.has x = true
    · have hx := w.ne_new hreg
      have hreg' : h'.has x = true := by rwa [has_eq_isSome_get?, w.get? hx]
      rw [lineage_of_has hreg, lineage_of_has hreg', List.prefix_cons_inj]
      by_cases hup : ∃ p, h.Edge x p
      · obtain ⟨p, e⟩ := hup
        rw [ancestors_of_edge w.acyclic e, ancestors_of_edge w.acyclic' ((w.edge_iff hx).mpr e)]
        exact ih p e
      · rw [ancestors_of_no_edge (not_exists.mp hup)]
        exact List.nil_prefix
    · rw [lineage_of_not_has (by simpa using hreg)]
      exact List.nil_prefix

theorem findSome?_lineage (w : Receives h h' new) {α : Type} {f f' : Symbol → Option α} {v : α}
    (hf : ∀ d, d ≠ new → f' d = f d) (hv : (h.lineage x).findSome? f = some v) :
    (h'.lineage x).findSome? f' = some v := by
  apply (w.lineage_prefix x).findSome?_eq_some
  have hsame : ∀ d ∈ h.lineage x, f' d = f d := fun d hd => hf d (w.ne_new (has_of_mem_lineage hd))
  obtain ⟨front, d, back, heq, hd, hfront⟩ := List.findSome?_eq_some_iff.mp hv
  rw [heq] at hsame
  refine List.findSome?_eq_some_iff.mpr ⟨front, d, back, heq, ?_, fun e he => ?_⟩
  · rw [hsame d (by simp), hd]
  · rw [hsame e (by simp [he]), hfront e he]

theorem method?_eq (w : Receives h h' new) (hx : x ≠ new) (m : Symbol) :
    h'.method? x m = h.method? x m := by
  rw [method?, method?, w.get? hx]

theorem attr?_eq (w : Receives h h' new) (hx : x ≠ new) (a : Symbol) :
    h'.attr? x a = h.attr? x a := by
  rw [attr?, attr?, w.get? hx]

theorem findMethod?_eq_some (w : Receives h h' new) {m : Symbol} {s : Signature}
    (hs : h.findMethod? x m = some s) : h'.findMethod? x m = some s := by
  rw [findMethod?_eq] at hs ⊢
  exact w.findSome?_lineage (fun d hd => w.method?_eq hd m) hs

theorem inheritedAttr?_eq_some (w : Receives h h' new) {a t : Symbol}
    (ht : h.inheritedAttr? x a = some t) : h'.inheritedAttr? x a = some t := by
  by_cases hup : ∃ p, h.Edge x p
  · obtain ⟨p, e⟩ := hup
    have e' := (w.edge_iff (w.ne_new e.has)).mpr e
    rw [inheritedAttr?_of_edge w.acyclic e, findAttr?_eq] at ht
    rw [inheritedAttr?_of_edge w.acyclic' e', findAttr?_eq]
    exact w.findSome?_lineage (fun d hd => w.attr?_eq hd a) ht
  · rw [inheritedAttr?_of_no_edge (not_exists.mp hup)] at ht
    cases ht

theorem conforms_eq_true (w : Receives h h' new) {current a d : Symbol}
    (hc : h.conforms current a d = true) : h'.conforms current a d = true := by
  have hden : h'.denoted current d = h.denoted current d := by rw [denoted, denoted, w.names]
  simp only [conforms, w.names, hden] at hc ⊢
  split_ifs at hc ⊢
  · rfl
  · exact hc
  · rw [Bool.or_eq_true, List.contains_iff_mem] at hc ⊢
    exact hc.imp_right fun ha => (w.chain_prefix _).subset ha

/-! The calls that make one. -/

theorem enter {c : ClassDecl} (ac : h.Acyclic) (hr : h.rejection? c = none) :
    Receives h (h.enter c) c.name := by
  have hnew := (rejection?_eq_none_iff.mp hr).2.2.1
  refine ⟨rfl, ac, ac.enter hr, fun hx => ?_, hnew⟩
  rw [get?_enter, if_neg hx]

theorem modify (w : Receives h h' new) {f : ClassInfo → ClassInfo}
    (hf : ∀ info, (f info).parent = info.parent) :
    Receives h { h' with classes := h'.classes.modify new f } new where
  names := w.names
  acyclic := w.acyclic
  acyclic' := (sameShape_modify h' new hf).acyclic w.acyclic'
  get? hx := by
    change (h'.classes.modify new f).get? _ = _
    rw [Table.get?_modify, if_neg hx]
    exact w.get? hx
  fresh := w.fresh

theorem changeAll (w : Receives h h' new) {us : List Change} (hus : ∀ u ∈ us, u.RecordsIn new) :
    Receives h (h'.changeAll us) new := by
  induction us generalizing h' with
  | nil => exact w
  | cons u us ih =>
    rw [List.forall_mem_cons] at hus
    refine ih ?_ hus.2
    cases u with
    | register c => exact hus.1.elim
    | addMethod owner s =>
      obtain rfl : owner = new := hus.1
      exact w.modify fun _ => rfl
    | addAttr owner a type =>
      obtain rfl : owner = new := hus.1
      exact w.modify fun _ => rfl

end Receives

theorem register_eq_ok_iff {c : ClassDecl} :
    h.register c = .ok h' ↔ h.rejection? c = none ∧ h' = h.enter c := by
  rw [register]
  cases h.rejection? c <;> simp [eq_comm]

/-- A class that enters revises nothing that was found before, and neither do members that are recorded
in it afterwards. A chain goes on at its end, and only if it ended in the name of the class; whatever
conformed still conforms, and a member that was found is found at the same place. -/
theorem Grown.register_revises_nothing (hg : h.Grown) {c : ClassDecl} (hr : h.register c = .ok h')
    {us : List Change} (hus : ∀ u ∈ us, u.RecordsIn c.name) :
    (∀ x, x ≠ c.name → h.chain x <+: (h'.changeAll us).chain x ∧
        ((h.chain x).getLast? ≠ some c.name → (h'.changeAll us).chain x = h.chain x)) ∧
      (∀ current a d, h.conforms current a d = true →
        (h'.changeAll us).conforms current a d = true) ∧
      (∀ x m s, h.findMethod? x m = some s → (h'.changeAll us).findMethod? x m = some s) ∧
      ∀ x a t, h.inheritedAttr? x a = some t → (h'.changeAll us).inheritedAttr? x a = some t := by
  obtain ⟨hnone, rfl⟩ := register_eq_ok_iff.mp hr
  have w := (Receives.enter hg.regular.acyclic hnone).changeAll hus
  refine ⟨fun x hx => ⟨w.chain_prefix x, fun hlast => ?_⟩, ?_, ?_, ?_⟩
  · rw [w.chain_eq hx, if_neg hlast]
  · exact fun _ _ _ => w.conforms_eq_true
  · exact fun _ _ _ => w.findMethod?_eq_some
  · exact fun _ _ _ => w.inheritedAttr?_eq_some

/-- The parent that was missing: `C` enters under `IO`. -/
def arriving (names : Vocabulary) : ClassDecl := ⟨⟨28⟩, names .io, [], "a.cl", 4⟩

/-- `C` arrives and then declares the attribute that `A` has from `B`. -/
theorem register_revises_nothing_arriving :
    ∃ h', missingParent.register (arriving .initial) = .ok h' ∧
      missingParent.chain ⟨26⟩ = [⟨27⟩, ⟨28⟩] ∧
      [⟨27⟩, ⟨28⟩] <+: (h'.changeAll [.addAttr ⟨28⟩ ⟨29⟩ ⟨26⟩]).chain ⟨26⟩ ∧
      (h'.changeAll [.addAttr ⟨28⟩ ⟨29⟩ ⟨26⟩]).chain ⟨26⟩ ≠ [⟨27⟩, ⟨28⟩] ∧
      (h'.changeAll [.addAttr ⟨28⟩ ⟨29⟩ ⟨26⟩]).conforms ⟨26⟩ ⟨28⟩ ⟨26⟩ = true ∧
      (h'.changeAll [.addAttr ⟨28⟩ ⟨29⟩ ⟨26⟩]).inheritedAttr? ⟨26⟩ ⟨29⟩ = some ⟨28⟩ := by
  have hus : ∀ u ∈ [Change.addAttr ⟨28⟩ ⟨29⟩ ⟨26⟩], u.RecordsIn (arriving .initial).name := by
    rw [List.forall_mem_singleton]
    exact rfl
  obtain ⟨hchain, hconforms, -, hattr⟩ :=
    grown_missingParent.register_revises_nothing (c := arriving .initial) rfl hus
  have hbefore : missingParent.chain ⟨26⟩ = [⟨27⟩, ⟨28⟩] := by decide
  refine ⟨_, rfl, hbefore, ?_, by decide, ?_, ?_⟩
  · exact hbefore ▸ (hchain ⟨26⟩ (by decide)).1
  · exact hconforms ⟨26⟩ ⟨28⟩ ⟨26⟩ (by decide)
  · exact hattr ⟨26⟩ ⟨29⟩ ⟨28⟩ (by decide)

end Hierarchy
end CoolStatics
