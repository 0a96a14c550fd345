import CoolStatics.Hierarchy.Registration
import CoolStatics.Proofs.Ancestry
import Mathlib.Data.List.Nodup
import Mathlib.Tactic.SplitIfs
import Mathlib.Tactic.Tauto

/-!
What registration leaves behind. A class that enters and declares its features is written into the
hierarchy with all that it declares, and a registration without faults has written every class of the
program beside the basic ones. Only parents matter to the classes that come later, and no edge that
registration accepts closes a cycle.
-/
namespace CoolStatics

open Relation

namespace Feature

@[simp] theorem methods_method (m : Method) (fs : List Feature) :
    (method m :: fs).filterMap (·.method?) = m :: fs.filterMap (·.method?) := rfl

@[simp] theorem methods_attr (a : Attribute) (fs : List Feature) :
    (attr a :: fs).filterMap (·.method?) = fs.filterMap (·.method?) := rfl

@[simp] theorem attributes_method (m : Method) (fs : List Feature) :
    (method m :: fs).filterMap (·.attr?) = fs.filterMap (·.attr?) := rfl

@[simp] theorem attributes_attr (a : Attribute) (fs : List Feature) :
    (attr a :: fs).filterMap (·.attr?) = a :: fs.filterMap (·.attr?) := rfl

end Feature

namespace ClassInfo

def record (owner : Symbol) (info : ClassInfo) : Feature → ClassInfo
  | .method m => { info with methods := info.methods.insert m.name (m.signature owner) }
  | .attr a => { info with attributes := info.attributes.insert a.name a.type }

@[simp] theorem record_parent (owner : Symbol) (info : ClassInfo) (f : Feature) :
    (info.record owner f).parent = info.parent := by cases f <;> rfl

def recordAll (owner : Symbol) (info : ClassInfo) (fs : List Feature) : ClassInfo :=
  fs.foldl (record owner) info

@[simp] theorem recordAll_nil (owner : Symbol) (info : ClassInfo) :
    info.recordAll owner [] = info := rfl

@[simp] theorem recordAll_cons (owner : Symbol) (info : ClassInfo) (f : Feature) (fs : List Feature) :
    info.recordAll owner (f :: fs) = (info.record owner f).recordAll owner fs := rfl

theorem recordAll_parent (owner : Symbol) (info : ClassInfo) (fs : List Feature) :
    (info.recordAll owner fs).parent = info.parent := by
  induction fs generalizing info with
  | nil => rfl
  | cons f fs ih => rw [recordAll_cons, ih, record_parent]

theorem recordAll_methods (owner : Symbol) (info : ClassInfo) (fs : List Feature) :
    (info.recordAll owner fs).methods = (fs.filterMap (·.method?)).foldl
      (fun t m => t.insert m.name (m.signature owner)) info.methods := by
  induction fs generalizing info with
  | nil => rfl
  | cons f fs ih => cases f <;> exact ih _

theorem recordAll_attributes (owner : Symbol) (info : ClassInfo) (fs : List Feature) :
    (info.recordAll owner fs).attributes = (fs.filterMap (·.attr?)).foldl
      (fun t a => t.insert a.name a.type) info.attributes := by
  induction fs generalizing info with
  | nil => rfl
  | cons f fs ih => cases f <;> exact ih _

end ClassInfo

namespace ClassDecl

/-- What a hierarchy knows of a class that has declared its features. -/
def info (c : ClassDecl) : ClassInfo :=
  ClassInfo.recordAll c.name ⟨c.parent, ∅, ∅, c.file, c.line⟩ c.features

@[simp] theorem info_parent (c : ClassDecl) : c.info.parent = c.parent :=
  ClassInfo.recordAll_parent _ _ _

theorem info_methods (c : ClassDecl) : c.info.methods =
    c.methods.foldl (fun t m => t.insert m.name (m.signature c.name)) ∅ :=
  ClassInfo.recordAll_methods _ _ _

theorem info_attributes (c : ClassDecl) : c.info.attributes =
    c.attributes.foldl (fun t a => t.insert a.name a.type) ∅ :=
  ClassInfo.recordAll_attributes _ _ _

/-- No feature repeats another one, and no attribute is called `self`. -/
structure Distinct (names : Vocabulary) (c : ClassDecl) : Prop where
  methods : (c.methods.map (·.name)).Nodup
  attributes : (c.attributes.map (·.name)).Nodup
  noSelf : ∀ a ∈ c.attributes, a.name ≠ names .self

variable {names : Vocabulary} {c : ClassDecl}

theorem Distinct.method_iff (hd : c.Distinct names) {n : Symbol} {s : Signature} :
    c.info.methods.get? n = some s ↔ ∃ m ∈ c.methods, m.name = n ∧ m.signature c.name = s := by
  have hf : (∅ : Table Signature).Fresh (c.methods.map (·.name)) := Table.fresh_empty.mpr hd.methods
  rw [info_methods]
  exact (Table.get?_foldl_insert _ _ hf).trans (or_iff_left (by simp [EmptyCollection.emptyCollection]))

theorem Distinct.attr_iff (hd : c.Distinct names) {n t : Symbol} :
    c.info.attributes.get? n = some t ↔ ∃ a ∈ c.attributes, a.name = n ∧ a.type = t := by
  have hf : (∅ : Table Symbol).Fresh (c.attributes.map (·.name)) :=
    Table.fresh_empty.mpr hd.attributes
  rw [info_attributes]
  exact (Table.get?_foldl_insert _ _ hf).trans (or_iff_left (by simp [EmptyCollection.emptyCollection]))

end ClassDecl

namespace Hierarchy

variable {h : Hierarchy} {c : ClassDecl}

def add (h : Hierarchy) (c : ClassDecl) : Hierarchy :=
  { h with classes := h.classes.insert c.name c.info }

@[simp] theorem add_names (h : Hierarchy) (c : ClassDecl) : (h.add c).names = h.names := rfl

theorem get?_add (h : Hierarchy) (c : ClassDecl) (x : Symbol) :
    (h.add c).get? x = if x = c.name then some c.info else h.get? x := by
  simp [add, get?]

theorem parent?_add (h : Hierarchy) (c : ClassDecl) (x : Symbol) :
    (h.add c).parent? x = if x = c.name then some c.parent else h.parent? x := by
  rw [parent?, get?_add, parent?]
  split <;> simp

theorem declareFeature_insert (names : Vocabulary) (t : Table ClassInfo) (owner : Symbol)
    (info : ClassInfo) (f : Feature) :
    (⟨names, t.insert owner info⟩ : Hierarchy).declareFeature owner f =
      ⟨names, t.insert owner (info.record owner f)⟩ := by
  cases f with
  | method m => simp only [declareFeature, addMethod, Table.modify_insert]; rfl
  | attr a => simp only [declareFeature, addAttr, Table.modify_insert]; rfl

theorem declareFeatures_insert (names : Vocabulary) (t : Table ClassInfo) (c : ClassDecl)
    (info : ClassInfo) (fs : List Feature) :
    ((⟨names, t.insert c.name info⟩ : Hierarchy).declareFeatures c fs).1 =
      ⟨names, t.insert c.name (info.recordAll c.name fs)⟩ := by
  induction fs generalizing info with
  | nil => rfl
  | cons f fs ih => simp only [declareFeatures, declareFeature_insert, ih, ClassInfo.recordAll_cons]

theorem declare_enter (h : Hierarchy) (c : ClassDecl) : ((h.enter c).declare c).1 = h.add c :=
  declareFeatures_insert h.names h.classes c _ c.features

theorem clash?_insert_method (names : Vocabulary) (t : Table ClassInfo) (owner : Symbol)
    (info : ClassInfo) (m : Method) :
    (⟨names, t.insert owner info⟩ : Hierarchy).clash? owner (.method m) = none ↔
      info.methods.get? m.name = none := by
  have hm : (⟨names, t.insert owner info⟩ : Hierarchy).method? owner m.name =
      info.methods.get? m.name := by simp [method?, get?]
  rw [clash?, hm]
  cases info.methods.get? m.name <;> simp

theorem clash?_insert_attr (names : Vocabulary) (t : Table ClassInfo) (owner : Symbol)
    (info : ClassInfo) (a : Attribute) :
    (⟨names, t.insert owner info⟩ : Hierarchy).clash? owner (.attr a) = none ↔
      a.name ≠ names .self ∧ info.attributes.get? a.name = none := by
  have ha : (⟨names, t.insert owner info⟩ : Hierarchy).attr? owner a.name =
      info.attributes.get? a.name := by simp [attr?, get?]
  rw [clash?, ha]
  by_cases hs : a.name = names .self
  · simp [hs]
  · cases info.attributes.get? a.name <;> simp [hs]

theorem declareFeatures_eq_nil_iff (names : Vocabulary) (t : Table ClassInfo) (c : ClassDecl)
    (info : ClassInfo) (fs : List Feature) :
    ((⟨names, t.insert c.name info⟩ : Hierarchy).declareFeatures c fs).2 = [] ↔
      info.methods.Fresh ((fs.filterMap (·.method?)).map (·.name)) ∧
      info.attributes.Fresh ((fs.filterMap (·.attr?)).map (·.name)) ∧
      ∀ a ∈ fs.filterMap (·.attr?), a.name ≠ names .self := by
  induction fs generalizing info with
  | nil => simp [declareFeatures, Table.Fresh]
  | cons f fs ih =>
    simp only [declareFeatures, declareFeature_insert, List.append_eq_nil_iff,
      Option.toList_eq_nil_iff, Option.map_eq_none_iff, ih]
    cases f with
    | method m =>
      rw [clash?_insert_method, Feature.methods_method, Feature.attributes_method, List.map_cons,
        Table.fresh_cons (m.signature c.name), and_assoc]
      rfl
    | attr a =>
      rw [clash?_insert_attr, Feature.methods_attr, Feature.attributes_attr, List.map_cons,
        Table.fresh_cons a.type, List.forall_mem_cons]
      simp only [ClassInfo.record]
      tauto

theorem declare_enter_eq_nil_iff (h : Hierarchy) (c : ClassDecl) :
    ((h.enter c).declare c).2 = [] ↔ c.Distinct h.names := by
  refine (declareFeatures_eq_nil_iff h.names h.classes c _ c.features).trans ?_
  rw [Table.fresh_empty, Table.fresh_empty]
  constructor
  · rintro ⟨hm, ha, hs⟩
    exact ⟨hm, ha, hs⟩
  · rintro ⟨hm, ha, hs⟩
    exact ⟨hm, ha, hs⟩

/-! Runs of the registration. -/

def addAll (h : Hierarchy) (cs : List ClassDecl) : Hierarchy := cs.foldl add h

@[simp] theorem addAll_nil (h : Hierarchy) : h.addAll [] = h := rfl

@[simp] theorem addAll_cons (h : Hierarchy) (c : ClassDecl) (cs : List ClassDecl) :
    h.addAll (c :: cs) = (h.add c).addAll cs := rfl

@[simp] theorem addAll_names (h : Hierarchy) (cs : List ClassDecl) :
    (h.addAll cs).names = h.names := by
  induction cs generalizing h with
  | nil => rfl
  | cons c cs ih => rw [addAll_cons, ih, add_names]

theorem addAll_classes (h : Hierarchy) (cs : List ClassDecl) :
    (h.addAll cs).classes = cs.foldl (fun t c => t.insert c.name c.info) h.classes := by
  induction cs generalizing h with
  | nil => rfl
  | cons c cs ih => exact ih _

theorem get?_addAll {cs : List ClassDecl} (hf : h.classes.Fresh (cs.map (·.name))) {x : Symbol}
    {info : ClassInfo} :
    (h.addAll cs).get? x = some info ↔
      (∃ c ∈ cs, c.name = x ∧ c.info = info) ∨ h.get? x = some info := by
  rw [get?, addAll_classes]
  exact Table.get?_foldl_insert _ _ hf

theorem basic_eq (names : Vocabulary) :
    basic names = (⟨names, ∅⟩ : Hierarchy).addAll (BasicClasses.all names) := by
  simp only [basic, declare_enter]
  rfl

/-- A registration has no faults exactly if its first class is neither rejected nor clashes and the
registration of the others over that class has none. -/
theorem registerAll_cons_eq_nil_iff {cs : List ClassDecl} :
    (h.registerAll (c :: cs)).faults = [] ↔
      h.rejection? c = none ∧ c.Distinct h.names ∧ ((h.add c).registerAll cs).faults = [] := by
  rw [registerAll, register]
  split
  · next why hr =>
    split at hr
    · next hw => simp [hw]
    · cases hr
  · next h' hr =>
    split at hr
    · cases hr
    · next hn =>
      obtain rfl := Except.ok.inj hr
      simp only [hn, List.append_eq_nil_iff, declare_enter, declare_enter_eq_nil_iff, true_and]

theorem registerAll_cons_hierarchy {cs : List ClassDecl} (hr : h.rejection? c = none) :
    (h.registerAll (c :: cs)).hierarchy = ((h.add c).registerAll cs).hierarchy := by
  simp only [registerAll, register, hr, declare_enter]

theorem rejection?_eq_none_iff :
    h.rejection? c = none ↔ h.names.isReserved c.name = false ∧ h.names.isSealed c.parent = false ∧
      h.has c.name = false ∧ h.closesCycle c.name c.parent = false := by
  rw [rejection?]
  split_ifs <;> simp_all

theorem closesCycle_eq_false_iff (ac : h.Acyclic) {child parent : Symbol} :
    h.closesCycle child parent = false ↔ ¬h.Reaches parent child := by
  rw [reaches_iff ac, closesCycle, Bool.or_eq_false_iff, not_or]
  simp

/-- A new edge whose end does not reach its start closes no cycle. -/
theorem Acyclic.extend (ac : h.Acyclic) {h' : Hierarchy} {child parent : Symbol}
    (hn : h'.names = h.names)
    (hp : ∀ x, h'.parent? x = if x = child then some parent else h.parent? x)
    (hno : ¬h.Reaches parent child) : h'.Acyclic := by
  have hedge : ∀ {x y}, h'.Edge x y → h.Edge x y ∨ x = child ∧ y = parent := by
    rintro x y ⟨hx, hy⟩
    rw [hp] at hx
    split at hx
    · next hc => exact Or.inr ⟨hc, (Option.some.inj hx).symm⟩
    · exact Or.inl ⟨hx, hn ▸ hy⟩
  -- a path of the larger hierarchy takes the new edge or is a path of the smaller one
  have hcross : ∀ {x y}, TransGen h'.Edge x y →
      TransGen h.Edge x y ∨ h.Reaches x child ∧ h.Reaches parent y := by
    intro x y t
    induction t with
    | single e =>
      rcases hedge e with e | ⟨rfl, rfl⟩
      · exact Or.inl (.single e)
      · exact Or.inr ⟨.refl _, .refl _⟩
    | tail _ e ih =>
      rcases hedge e with e | ⟨rfl, rfl⟩
      · rcases ih with t | ⟨r, s⟩
        · exact Or.inl (t.tail e)
        · exact Or.inr ⟨r, s.trans e.reaches⟩
      · rcases ih with t | ⟨r, s⟩
        · exact Or.inr ⟨t.to_reflTransGen, .refl _⟩
        · exact Or.inr ⟨r, .refl _⟩
  intro x t
  rcases hcross t with t | ⟨r, s⟩
  · exact ac x t
  · exact hno (s.trans r)

theorem Acyclic.add (ac : h.Acyclic) (hr : h.rejection? c = none) : (h.add c).Acyclic := by
  have hcycle := (rejection?_eq_none_iff.mp hr).2.2.2
  exact ac.extend rfl (parent?_add h c) ((closesCycle_eq_false_iff ac).mp hcycle)

/-- Classes that can be registered over a hierarchy one after another. -/
structure Admits (h : Hierarchy) (cs : List ClassDecl) : Prop where
  fresh : h.classes.Fresh (cs.map (·.name))
  unreserved : ∀ c ∈ cs, h.names.isReserved c.name = false
  unsealed : ∀ c ∈ cs, h.names.isSealed c.parent = false
  distinct : ∀ c ∈ cs, c.Distinct h.names
  acyclic : h.Acyclic → (h.addAll cs).Acyclic

/-- A registration without faults has admitted and written every class. -/
theorem registerAll_clean {cs : List ClassDecl} (hf : (h.registerAll cs).faults = [])
    (ac : h.Acyclic) : (h.registerAll cs).hierarchy = h.addAll cs ∧ h.Admits cs := by
  induction cs generalizing h with
  | nil => exact ⟨rfl, ⟨.nil, by simp⟩, by simp, by simp, by simp, id⟩
  | cons c cs ih =>
    obtain ⟨hr, hd, hrest⟩ := registerAll_cons_eq_nil_iff.mp hf
    obtain ⟨hres, hsealed, hnew, -⟩ := rejection?_eq_none_iff.mp hr
    have hac : (h.add c).Acyclic := ac.add hr
    obtain ⟨heq, hadm⟩ := ih hrest hac
    refine ⟨by rw [registerAll_cons_hierarchy hr, heq, addAll_cons], ?_, ?_, ?_, ?_, ?_⟩
    · rw [List.map_cons, Table.fresh_cons c.info]
      exact ⟨get?_of_not_has hnew, hadm.fresh⟩
    · exact List.forall_mem_cons.mpr ⟨hres, hadm.unreserved⟩
    · exact List.forall_mem_cons.mpr ⟨hsealed, hadm.unsealed⟩
    · exact List.forall_mem_cons.mpr ⟨hd, hadm.distinct⟩
    · exact fun _ => hadm.acyclic hac

end Hierarchy

def Program.roster (p : Program) (names : Vocabulary) : List ClassDecl :=
  BasicClasses.all names ++ p.classes

theorem Program.object_mem_roster (p : Program) (names : Vocabulary) :
    BasicClasses.object names ∈ p.roster names := by
  simp [roster, BasicClasses.all]

namespace BasicClasses

theorem nodup_name (names : Vocabulary) : ((all names).map (·.name)).Nodup := by
  simp [all, object, int, io, bool, string]

theorem distinct {names : Vocabulary} {c : ClassDecl} (hc : c ∈ all names) : c.Distinct names := by
  simp only [all, List.mem_cons, List.not_mem_nil, or_false] at hc
  rcases hc with rfl | rfl | rfl | rfl | rfl <;>
    constructor <;>
    simp [ClassDecl.methods, ClassDecl.attributes, object, int, io, bool, string, method, attr]

theorem parent_eq {names : Vocabulary} {c : ClassDecl} (hc : c ∈ all names) :
    c.name = names .object ∧ c.parent = names .noClass ∨
      c.name ≠ names .object ∧ c.parent = names .object := by
  simp only [all, List.mem_cons, List.not_mem_nil, or_false] at hc
  rcases hc with rfl | rfl | rfl | rfl | rfl <;> simp [object, int, io, bool, string]

end BasicClasses

namespace Hierarchy

theorem fresh_basic (names : Vocabulary) :
    (⟨names, ∅⟩ : Hierarchy).classes.Fresh ((BasicClasses.all names).map (·.name)) :=
  Table.fresh_empty.mpr (BasicClasses.nodup_name names)

@[simp] theorem basic_names (names : Vocabulary) : (basic names).names = names := by
  rw [basic_eq, addAll_names]

/-- Enters a class and declares its features, beside the faults found before it. -/
def enterNoting (r : Hierarchy × List Fault) (c : ClassDecl) : Hierarchy × List Fault :=
  (((r.1.enter c).declare c).1, r.2 ++ ((r.1.enter c).declare c).2)

theorem foldl_enterNoting {h : Hierarchy} {cs : List ClassDecl}
    (hcs : ∀ c ∈ cs, c.Distinct h.names) : cs.foldl enterNoting (h, []) = (h.addAll cs, []) := by
  induction cs generalizing h with
  | nil => rfl
  | cons c cs ih =>
    rw [List.forall_mem_cons] at hcs
    have hfirst : enterNoting (h, []) c = (h.add c, []) := by
      rw [enterNoting, declare_enter, (declare_enter_eq_nil_iff h c).mpr hcs.1, List.append_nil]
    rw [List.foldl_cons, hfirst, addAll_cons]
    exact ih hcs.2

/-- The basic classes enter without a fault: the hierarchy that they leave is all that there is to say of
their registration. -/
theorem foldl_enterNoting_basic (names : Vocabulary) :
    (BasicClasses.all names).foldl enterNoting (⟨names, ∅⟩, []) = (basic names, []) := by
  rw [basic_eq]
  exact foldl_enterNoting fun c hc => BasicClasses.distinct hc

theorem get?_basic {names : Vocabulary} {x : Symbol} {info : ClassInfo} :
    (basic names).get? x = some info ↔
      ∃ c ∈ BasicClasses.all names, c.name = x ∧ c.info = info := by
  rw [basic_eq, get?_addAll (fresh_basic names)]
  exact or_iff_left (by simp [get?, EmptyCollection.emptyCollection])

theorem acyclic_basic (names : Vocabulary) : (basic names).Acyclic := by
  have hedge : ∀ {x y}, (basic names).Edge x y → x ≠ names .object ∧ y = names .object := by
    rintro x y ⟨hx, hy⟩
    obtain ⟨info, hg, rfl⟩ := Option.map_eq_some_iff.mp hx
    obtain ⟨c, hc, rfl, rfl⟩ := get?_basic.mp hg
    rw [basic_names, ClassDecl.info_parent] at hy
    rw [ClassDecl.info_parent]
    rcases BasicClasses.parent_eq hc with ⟨-, hp⟩ | h
    · exact absurd hp hy
    · exact h
  intro x t
  obtain ⟨y, e, -⟩ := TransGen.head'_iff.mp t
  obtain ⟨z, -, e'⟩ := TransGen.tail'_iff.mp t
  exact (hedge e).1 (hedge e').2

/-- A hierarchy as a registration of the program without faults leaves it. -/
structure Enrols (h : Hierarchy) (p : Program) : Prop where
  acyclic : h.Acyclic
  nodup : ((p.roster h.names).map (·.name)).Nodup
  distinct : ∀ c ∈ p.roster h.names, c.Distinct h.names
  unreserved : ∀ c ∈ p.classes, h.names.isReserved c.name = false
  unsealed : ∀ c ∈ p.classes, h.names.isSealed c.parent = false
  get?_iff : ∀ {x : Symbol} {info : ClassInfo},
    h.get? x = some info ↔ ∃ c ∈ p.roster h.names, c.name = x ∧ c.info = info

@[simp] theorem build_names {names : Vocabulary} {p : Program}
    (hf : (build names p).faults = []) : (build names p).hierarchy.names = names := by
  obtain ⟨heq, -⟩ := registerAll_clean hf (acyclic_basic names)
  rw [build, heq, addAll_names, basic_names]

theorem enrols_build {names : Vocabulary} {p : Program} (hf : (build names p).faults = []) :
    (build names p).hierarchy.Enrols p := by
  obtain ⟨heq, hadm⟩ := registerAll_clean hf (acyclic_basic names)
  have hn := build_names hf
  have hb : (basic names).names = names := basic_names names
  -- no class of the program has the name of a basic one
  have hdisj : ∀ x ∈ (BasicClasses.all names).map (·.name), ∀ y ∈ p.classes.map (·.name), x ≠ y := by
    rintro x hx y hy rfl
    obtain ⟨c, hc, rfl⟩ := List.mem_map.mp hx
    have hsome := get?_basic.mpr ⟨c, hc, rfl, rfl⟩
    have hnone : (basic names).get? c.name = none := hadm.fresh.2 _ hy
    rw [hsome] at hnone
    cases hnone
  refine ⟨?_, ?_, ?_, ?_, ?_, ?_⟩
  · rw [build, heq]
    exact hadm.acyclic (acyclic_basic names)
  · rw [hn, Program.roster, List.map_append]
    exact List.nodup_append.mpr ⟨BasicClasses.nodup_name names, hadm.fresh.1, hdisj⟩
  · intro c hc
    rw [hn] at hc ⊢
    rcases List.mem_append.mp hc with hc | hc
    · exact BasicClasses.distinct hc
    · exact hb ▸ hadm.distinct c hc
  · intro c hc
    rw [hn]
    exact hb ▸ hadm.unreserved c hc
  · intro c hc
    rw [hn]
    exact hb ▸ hadm.unsealed c hc
  · intro x info
    rw [hn, build, heq, get?_addAll hadm.fresh, get?_basic, Program.roster]
    simp only [List.mem_append, or_and_right, exists_or, or_comm]

namespace Enrols

variable {h : Hierarchy} {p : Program}

theorem get?_eq (en : h.Enrols p) {c : ClassDecl} (hc : c ∈ p.roster h.names) :
    h.get? c.name = some c.info :=
  en.get?_iff.mpr ⟨c, hc, rfl, rfl⟩

theorem has_iff (en : h.Enrols p) {x : Symbol} :
    h.has x = true ↔ ∃ c ∈ p.roster h.names, c.name = x := by
  rw [has_eq_isSome_get?, Option.isSome_iff_exists]
  constructor
  · rintro ⟨info, hg⟩
    obtain ⟨c, hc, hx, -⟩ := en.get?_iff.mp hg
    exact ⟨c, hc, hx⟩
  · rintro ⟨c, hc, rfl⟩
    exact ⟨c.info, en.get?_eq hc⟩

theorem has_class (en : h.Enrols p) {c : ClassDecl} (hc : c ∈ p.classes) : h.has c.name = true :=
  en.has_iff.mpr ⟨c, List.mem_append_right _ hc, rfl⟩

theorem has_basic (en : h.Enrols p) {c : ClassDecl} (hc : c ∈ BasicClasses.all h.names) :
    h.has c.name = true :=
  en.has_iff.mpr ⟨c, List.mem_append_left _ hc, rfl⟩

theorem parent?_eq (en : h.Enrols p) {c : ClassDecl} (hc : c ∈ p.roster h.names) :
    h.parent? c.name = some c.parent := by
  rw [parent?, en.get?_eq hc, Option.map_some, ClassDecl.info_parent]

theorem edge_iff (en : h.Enrols p) {x y : Symbol} :
    h.Edge x y ↔ ∃ c ∈ p.roster h.names, c.name = x ∧ c.parent = y ∧ y ≠ h.names .noClass := by
  constructor
  · intro e
    obtain ⟨c, hc, rfl⟩ := en.has_iff.mp e.has
    have hp := e.1
    rw [en.parent?_eq hc] at hp
    exact ⟨c, hc, rfl, Option.some.inj hp, e.2⟩
  · rintro ⟨c, hc, rfl, rfl, hne⟩
    exact ⟨en.parent?_eq hc, hne⟩

theorem method?_iff (en : h.Enrols p) {c : ClassDecl} (hc : c ∈ p.roster h.names) {n : Symbol}
    {s : Signature} :
    h.method? c.name n = some s ↔ ∃ m ∈ c.methods, m.name = n ∧ m.signature c.name = s := by
  rw [method?, en.get?_eq hc]
  exact (en.distinct c hc).method_iff

theorem attr?_iff (en : h.Enrols p) {c : ClassDecl} (hc : c ∈ p.roster h.names) {n t : Symbol} :
    h.attr? c.name n = some t ↔ ∃ a ∈ c.attributes, a.name = n ∧ a.type = t := by
  rw [attr?, en.get?_eq hc]
  exact (en.distinct c hc).attr_iff

end Enrols
end Hierarchy
end CoolStatics
