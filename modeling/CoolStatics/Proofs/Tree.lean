import CoolStatics.Analysis
import CoolStatics.Proofs.Registration

/-!
The shape of an accepted hierarchy. Registration, `Main` and parents being in order, every parent is
registered or `_no_class`, and nothing else is checked of the two sentinels: the classes form a tree
under `Object` exactly if no class inherits `_no_class` and none is called `_no_class` or `_no_type`.
-/
namespace CoolStatics

namespace Hierarchy

open Relation

variable {h : Hierarchy} {p : Program}

/-- Every parent is registered. -/
def Closed (h : Hierarchy) : Prop := ∀ c p, h.Edge c p → h.has p = true

theorem parentFaults_eq_nil_iff : h.parentFaults = [] ↔ h.Closed := by
  rw [parentFaults, List.filterMap_eq_nil_iff]
  constructor
  · rintro hall c q ⟨hp, hne⟩
    obtain ⟨info, hg, rfl⟩ := Option.map_eq_some_iff.mp hp
    have hf := hall (c, info) ((Table.get?_eq_some_iff _).mp hg)
    simpa [hne] using hf
  · rintro hcl ⟨c, info⟩ hm
    have hp : h.parent? c = some info.parent := by
      rw [parent?, get?, (Table.get?_eq_some_iff _).mpr hm, Option.map_some]
    by_cases hne : info.parent = h.names .noClass
    · simp [hne]
    · simp [hcl _ _ ⟨hp, hne⟩]

theorem mainFault?_eq_none_iff :
    h.mainFault? = none ↔
      ∃ s, h.method? (h.names .mainClass) (h.names .mainMethod) = some s ∧ s.arity = 0 := by
  rw [mainFault?, method?]
  cases h.get? (h.names .mainClass) with
  | none => simp
  | some info =>
    cases hm : info.methods.get? (h.names .mainMethod) with
    | none => simp [hm]
    | some s => simp [hm]

theorem Registration.outlineFaults_eq_nil_iff {r : Registration} :
    r.outlineFaults = [] ↔
      r.faults = [] ∧ r.hierarchy.mainFault? = none ∧ r.hierarchy.parentFaults = [] := by
  rw [outlineFaults]
  split_ifs with hf
  · rw [List.isEmpty_iff] at hf
    cases r.hierarchy.mainFault? <;> simp [hf]
  · rw [List.isEmpty_iff] at hf
    simp [hf]

/-- What an outline without faults says of the hierarchy. -/
theorem outline_clean {names : Vocabulary} (hf : (build names p).outlineFaults = []) :
    (build names p).hierarchy.names = names ∧ (build names p).hierarchy.Enrols p ∧
      (build names p).hierarchy.Closed := by
  obtain ⟨hreg, -, hpar⟩ := Registration.outlineFaults_eq_nil_iff.mp hf
  exact ⟨build_names hreg, enrols_build hreg, parentFaults_eq_nil_iff.mp hpar⟩

theorem Enrols.not_has {q : Predefined} (en : h.Enrols p)
    (hb : q ∉ [Predefined.object, .int, .io, .bool, .string])
    (hc : ∀ c ∈ p.classes, c.name ≠ h.names q) : h.has (h.names q) = false := by
  rw [← Bool.not_eq_true, en.has_iff]
  rintro ⟨c, hmem, hn⟩
  rcases List.mem_append.mp hmem with hmem | hmem
  · simp only [BasicClasses.all, List.mem_cons, List.not_mem_nil, or_false] at hmem
    rcases hmem with rfl | rfl | rfl | rfl | rfl <;>
      simp [BasicClasses.object, BasicClasses.int, BasicClasses.io, BasicClasses.bool,
        BasicClasses.string] at hn <;> simp [← hn] at hb
  · exact hc c hmem hn

theorem Enrols.not_has_selfType (en : h.Enrols p) : h.has (h.names .selfType) = false := by
  refine en.not_has (by decide) fun c hc hn => ?_
  have hr := en.unreserved c hc
  simp [Vocabulary.isReserved, hn] at hr

theorem Enrols.no_edge_object (en : h.Enrols p) (q : Symbol) : ¬h.Edge (h.names .object) q := by
  rintro ⟨hp, hne⟩
  rw [show h.names .object = (BasicClasses.object h.names).name from rfl,
    en.parent?_eq (p.object_mem_roster h.names)] at hp
  exact hne (Option.some.inj hp).symm

theorem Enrols.reaches_object (en : h.Enrols p) (cl : h.Closed)
    (hp : ∀ c ∈ p.classes, c.parent ≠ h.names .noClass) {c : Symbol} (hc : h.has c = true) :
    h.Reaches c (h.names .object) := by
  induction c using en.acyclic.induct with
  | step c ih =>
    obtain ⟨d, hd, rfl⟩ := en.has_iff.mp hc
    have hup : d.parent ≠ h.names .noClass → h.Reaches d.name (h.names .object) := by
      intro hne
      have e : h.Edge d.name d.parent := ⟨en.parent?_eq hd, hne⟩
      exact e.reaches.trans (ih _ e (cl _ _ e))
    rcases List.mem_append.mp hd with hb | hu
    · rcases BasicClasses.parent_eq hb with ⟨hn, -⟩ | ⟨-, hpar⟩
      · rw [hn]
        exact .refl _
      · exact hup (by simp [hpar])
    · exact hup (hp d hu)

/-- The name that `n` steps to the declared parent lead to. -/
def ascend (h : Hierarchy) : Nat → Symbol → Option Symbol
  | 0, c => some c
  | n + 1, c => (h.parent? c).bind (h.ascend n)

/-- The registered classes form a tree with `Object` at its root, and no sentinel is one of them. -/
structure RootedTree (h : Hierarchy) : Prop where
  /-- Steps to the declared parent end at the root and meet no name twice. -/
  reached : ∀ c, h.has c = true → ∃ n, h.ascend n c = some (h.names .object) ∧
    ∀ i j, i < j → j ≤ n → h.ascend i c ≠ h.ascend j c
  root : ∀ q, h.parent? (h.names .object) = some q → h.has q = false
  sentinels : ∀ q ∈ [Predefined.selfType, .noClass, .noType], h.has (h.names q) = false

/-- What is reached is met by steps to the parent, and all that they meet is reached. -/
theorem Reaches.exists_ascend {c a : Symbol} (r : h.Reaches c a) :
    ∃ n, h.ascend n c = some a ∧
      ∀ i j, i < j → j ≤ n → ∃ x y, h.ascend i c = some x ∧ h.ascend j c = some y ∧
        TransGen h.Edge x y := by
  induction r using ReflTransGen.head_induction_on with
  | refl => exact ⟨0, rfl, fun i j hij hj => absurd hij (by omega)⟩
  | @head c d e r ih =>
    obtain ⟨n, hn, hpath⟩ := ih
    have hs : ∀ k, h.ascend (k + 1) c = h.ascend k d := fun k => by rw [ascend, e.1, Option.bind_some]
    refine ⟨n + 1, by rw [hs, hn], fun i j hij hj => ?_⟩
    obtain ⟨j, rfl⟩ : ∃ k, j = k + 1 := ⟨j - 1, by omega⟩
    cases i with
    | succ i =>
      rw [hs, hs]
      exact hpath i j (by omega) (by omega)
    | zero =>
      -- from the start the first step is the edge, the others come by the induction
      rw [hs]
      cases j with
      | zero => exact ⟨c, d, rfl, rfl, .single e⟩
      | succ j =>
        obtain ⟨x, y, hx, hy, t⟩ := hpath 0 (j + 1) (by omega) (by omega)
        obtain rfl : d = x := Option.some.inj hx
        exact ⟨c, y, rfl, hy, .head e t⟩

theorem Enrols.rootedTree (en : h.Enrols p) (cl : h.Closed)
    (hp : ∀ c ∈ p.classes, c.parent ≠ h.names .noClass ∧ c.name ≠ h.names .noClass ∧
      c.name ≠ h.names .noType) : h.RootedTree := by
  have hnc : h.has (h.names .noClass) = false := en.not_has (by decide) fun c hc => (hp c hc).2.1
  have hnt : h.has (h.names .noType) = false := en.not_has (by decide) fun c hc => (hp c hc).2.2
  refine ⟨fun c hc => ?_, fun q hq => ?_, ?_⟩
  · obtain ⟨n, hn, hpath⟩ := (en.reaches_object cl (fun c hc => (hp c hc).1) hc).exists_ascend
    refine ⟨n, hn, fun i j hij hj heq => ?_⟩
    obtain ⟨x, y, hx, hy, t⟩ := hpath i j hij hj
    rw [hx, hy] at heq
    obtain rfl := Option.some.inj heq
    exact en.acyclic x t
  · by_cases hne : q = h.names .noClass
    · rw [hne, hnc]
    · exact absurd ⟨hq, hne⟩ (en.no_edge_object q)
  · simp [en.not_has_selfType, hnc, hnt]

theorem Enrols.clear_of_rootedTree (en : h.Enrols p) (tree : h.RootedTree) {c : ClassDecl}
    (hc : c ∈ p.classes) :
    c.parent ≠ h.names .noClass ∧ c.name ≠ h.names .noClass ∧ c.name ≠ h.names .noType := by
  have hnc : h.has (h.names .noClass) = false := tree.sentinels _ (by decide)
  have hnt : h.has (h.names .noType) = false := tree.sentinels _ (by decide)
  have hreg := en.has_class hc
  refine ⟨fun hpar => ?_, fun hn => ?_, fun hn => ?_⟩
  · -- from a class under `_no_class` one step leads out of the hierarchy
    have hp : h.parent? c.name = some (h.names .noClass) := by
      rw [en.parent?_eq (List.mem_append_right _ hc), hpar]
    obtain ⟨n, hn, -⟩ := tree.reached c.name hreg
    rcases n with - | - | n
    · have hobj : c.name = h.names .object := Option.some.inj hn
      have hr := en.unreserved c hc
      simp [Vocabulary.isReserved, hobj] at hr
    · simp [ascend, hp] at hn
    · simp [ascend, hp, parent?_eq_none_iff.mpr hnc] at hn
  · rw [hn, hnc] at hreg
    cases hreg
  · rw [hn, hnt] at hreg
    cases hreg

/-- An outline without faults is a tree under `Object` exactly if its classes are clear of the
sentinels: none inherits `_no_class`, none is called `_no_class` or `_no_type`. -/
theorem rootedTree_build_iff {names : Vocabulary} (hf : (build names p).outlineFaults = []) :
    (build names p).hierarchy.RootedTree ↔
      ∀ c ∈ p.classes, c.parent ≠ names .noClass ∧ c.name ≠ names .noClass ∧
        c.name ≠ names .noType := by
  obtain ⟨hn, en, cl⟩ := outline_clean hf
  constructor
  · intro tree c hc
    have hclear := en.clear_of_rootedTree tree hc
    rwa [hn] at hclear
  · intro hp
    refine en.rootedTree cl fun c hc => ?_
    rw [hn]
    exact hp c hc

end Hierarchy

/-- The predefined names of an interner that has seen nothing else. -/
def Vocabulary.initial : Vocabulary := (Vocabulary.intern .empty).1

/-- A class `Main` under the given parent whose method `main` returns the object itself. -/
def ClassDecl.mainUnder (names : Vocabulary) (parent : Symbol) : ClassDecl :=
  { name := names .mainClass, parent, file := "main.cl", line := 1
    features := [.method ⟨names .mainMethod, [], names .object,
      Expr.plain 2 (.identifier (names .self)), 2⟩] }

namespace Hierarchy

/-- `Main` may stand before its parent. -/
theorem rootedTree_main_before_parent :
    (build .initial ⟨[.mainUnder .initial ⟨26⟩,
      ⟨⟨26⟩, Vocabulary.initial .io, [], "main.cl", 5⟩]⟩).hierarchy.RootedTree :=
  (rootedTree_build_iff (by decide)).mpr (by decide)

/-- A class under `_no_class` passes every check of the outline. -/
theorem not_rootedTree_under_noClass :
    (build .initial ⟨[.mainUnder .initial (Vocabulary.initial .noClass)]⟩).outlineFaults = [] ∧
      ¬(build .initial ⟨[.mainUnder .initial (Vocabulary.initial .noClass)]⟩).hierarchy.RootedTree := by
  have hf : (build .initial ⟨[.mainUnder .initial (Vocabulary.initial .noClass)]⟩).outlineFaults =
      [] := by decide
  obtain ⟨hn, en, -⟩ := outline_clean hf
  refine ⟨hf, fun tree => ?_⟩
  have hclear := en.clear_of_rootedTree tree List.mem_cons_self
  rw [hn] at hclear
  exact hclear.1 rfl

end Hierarchy
end CoolStatics
