import CoolStatics.Proofs.Outline

/-!
Which classes a registration admits. It looks at one class at a time, over those before it only, and a
parent may arrive later or never. What it admits is the longest run of classes from the front that is in
order as a whole: distinct names that are free, parents that may be inherited, no cycle. None of this
depends on the order in which the classes stand.
-/
namespace CoolStatics

open Relation

def ParentEdge (cs : List ClassDecl) (x y : Symbol) : Prop := ∃ c ∈ cs, c.name = x ∧ c.parent = y

/-- Classes that are in order as a whole. -/
structure WellFormed (names : Vocabulary) (cs : List ClassDecl) : Prop where
  nodup : (cs.map (·.name)).Nodup
  name : ∀ c ∈ cs, ∀ q ∈ [Predefined.object, .io, .int, .bool, .string, .selfType],
    c.name ≠ names q
  parent : ∀ c ∈ cs, ∀ q ∈ [Predefined.selfType, .int, .bool, .string], c.parent ≠ names q
  acyclic : ∀ x, ¬TransGen (ParentEdge cs) x x

/-- The longest of the lists that `l` begins with and of which `P` holds. -/
structure IsLongestPrefix {α : Type} (P : List α → Prop) (l pre : List α) : Prop where
  isPrefix : pre <+: l
  holds : P pre
  longest : ∀ q, q <+: l → P q → q <+: pre

theorem WellFormed.perm {names : Vocabulary} {cs cs' : List ClassDecl} (hp : cs.Perm cs')
    (hw : WellFormed names cs) : WellFormed names cs' := by
  have hedge : ParentEdge cs' = ParentEdge cs := by
    funext x y
    simp only [ParentEdge, hp.mem_iff]
  refine ⟨(hp.map _).nodup_iff.mp hw.nodup, fun c hc => hw.name c (hp.mem_iff.mpr hc),
    fun c hc => hw.parent c (hp.mem_iff.mpr hc), ?_⟩
  rw [hedge]
  exact hw.acyclic

namespace Vocabulary

theorem isReserved_eq_false_iff (v : Vocabulary) {name : Symbol} :
    v.isReserved name = false ↔
      ∀ q ∈ [Predefined.object, .io, .int, .bool, .string, .selfType], name ≠ v q := by
  simp [isReserved, and_assoc]

theorem isSealed_eq_false_iff (v : Vocabulary) {parent : Symbol} :
    v.isSealed parent = false ↔
      ∀ q ∈ [Predefined.selfType, .int, .bool, .string], parent ≠ v q := by
  simp [isSealed, and_assoc]

end Vocabulary

namespace Hierarchy

variable {h : Hierarchy} {c : ClassDecl} {cs : List ClassDecl}

/-! One class after another. -/

/-- Classes of which none is rejected, each over those before it. -/
def Enters (h : Hierarchy) : List ClassDecl → Prop
  | [] => True
  | c :: cs => h.rejection? c = none ∧ (h.add c).Enters cs

theorem enters_append {more : List ClassDecl} :
    h.Enters (cs ++ more) ↔ h.Enters cs ∧ (h.addAll cs).Enters more := by
  induction cs generalizing h with
  | nil => simp [Enters]
  | cons c cs ih => rw [List.cons_append, Enters, ih, Enters, addAll_cons, and_assoc]

theorem get?_addAll_of_some (hf : h.classes.Fresh (cs.map (·.name))) {x : Symbol} {info : ClassInfo}
    (hx : h.get? x = some info) : (h.addAll cs).get? x = some info :=
  (get?_addAll hf).mpr (Or.inr hx)

theorem Edge.addAll (hf : h.classes.Fresh (cs.map (·.name))) {x y : Symbol} (e : h.Edge x y) :
    (h.addAll cs).Edge x y := by
  obtain ⟨info, hx, hp⟩ := Option.map_eq_some_iff.mp e.1
  refine ⟨?_, ?_⟩
  · rw [parent?, get?_addAll_of_some hf hx, Option.map_some, hp]
  · rw [addAll_names]
    exact e.2

theorem Acyclic.of_addAll (hf : h.classes.Fresh (cs.map (·.name)))
    (ac : (h.addAll cs).Acyclic) : h.Acyclic :=
  fun x t => ac x (TransGen.mono (fun _ _ e => Edge.addAll hf e) x x t)

theorem not_reaches_of_acyclic_add (hnc : h.has (h.names .noClass) = false)
    (hnew : h.get? c.name = none) (hc : c.name ≠ h.names .noClass) (ac : (h.add c).Acyclic) :
    ¬h.Reaches c.parent c.name := by
  intro r
  have hf : h.classes.Fresh ([c].map (·.name)) := ⟨List.nodup_singleton _, by
    rw [List.map_singleton, List.forall_mem_singleton]
    exact hnew⟩
  by_cases hp : c.parent = h.names .noClass
  · -- `_no_class` is no class, so it reaches itself only
    rw [hp] at r
    rcases ReflTransGen.cases_head r with heq | ⟨_, e, -⟩
    · exact hc heq.symm
    · exact absurd e.has (by simp [hnc])
  · have e : (h.add c).Edge c.name c.parent := ⟨by rw [parent?_add, if_pos rfl], hp⟩
    have r' : (h.add c).Reaches c.parent c.name :=
      ReflTransGen.mono (fun _ _ e => Edge.addAll hf e) _ _ r
    exact ac _ (TransGen.head' e r')

/-- Whether classes enter one after another is decided by all of them together. -/
theorem enters_iff (ac : h.Acyclic) (hnc : h.has (h.names .noClass) = false)
    (hcs : ∀ c ∈ cs, c.name ≠ h.names .noClass) :
    h.Enters cs ↔ h.classes.Fresh (cs.map (·.name)) ∧
      (∀ c ∈ cs, h.names.isReserved c.name = false) ∧
      (∀ c ∈ cs, h.names.isSealed c.parent = false) ∧ (h.addAll cs).Acyclic := by
  induction cs generalizing h with
  | nil => simp [Enters, Table.Fresh, ac]
  | cons c cs ih =>
    rw [List.forall_mem_cons] at hcs
    have hnc' : (h.add c).has ((h.add c).names .noClass) = false := by
      rw [← parent?_eq_none_iff, parent?_add, add_names, if_neg hcs.1.symm]
      exact parent?_eq_none_iff.mpr hnc
    rw [Enters, List.map_cons, Table.fresh_cons c.info, addAll_cons, List.forall_mem_cons,
      List.forall_mem_cons]
    constructor
    · rintro ⟨hr, hrest⟩
      obtain ⟨hres, hseal, hnew, -⟩ := rejection?_eq_none_iff.mp hr
      obtain ⟨hf, hress, hseals, hac⟩ := (ih (ac.add hr) hnc' hcs.2).mp hrest
      exact ⟨⟨get?_of_not_has hnew, hf⟩, ⟨hres, hress⟩, ⟨hseal, hseals⟩, hac⟩
    · rintro ⟨⟨hnew, hf⟩, ⟨hres, hress⟩, ⟨hseal, hseals⟩, hac⟩
      have hadd : (h.add c).Acyclic := .of_addAll hf hac
      have hnot := not_reaches_of_acyclic_add hnc hnew hcs.1 hadd
      refine ⟨?_, (ih hadd hnc' hcs.2).mpr ⟨hf, hress, hseals, hac⟩⟩
      refine rejection?_eq_none_iff.mpr ⟨hres, hseal, ?_, ?_⟩
      · rw [has_eq_isSome_get?, get?, hnew, Option.isSome_none]
      · exact (closesCycle_eq_false_iff ac).mpr hnot

/-! Over the basic classes. -/

theorem fresh_basic_iff {names : Vocabulary} :
    (basic names).classes.Fresh (cs.map (·.name)) ↔ (cs.map (·.name)).Nodup ∧
      ∀ c ∈ cs, ∀ b ∈ BasicClasses.all names, c.name ≠ b.name := by
  have hnone : ∀ x, (basic names).get? x = none ↔ ∀ b ∈ BasicClasses.all names, x ≠ b.name := by
    intro x
    rw [Option.eq_none_iff_forall_ne_some]
    constructor
    · rintro hx b hb rfl
      exact hx b.info (get?_basic.mpr ⟨b, hb, rfl, rfl⟩)
    · intro hx info hg
      obtain ⟨b, hb, rfl, -⟩ := get?_basic.mp hg
      exact hx b hb rfl
  rw [Table.Fresh, List.forall_mem_map]
  exact and_congr_right fun _ => forall₂_congr fun c _ => hnone c.name

theorem ne_basic_of_unreserved {names : Vocabulary} {x : Symbol} (hx : names.isReserved x = false) :
    ∀ b ∈ BasicClasses.all names, x ≠ b.name := by
  rintro b hb rfl
  simp only [BasicClasses.all, List.mem_cons, List.not_mem_nil, or_false] at hb
  rcases hb with rfl | rfl | rfl | rfl | rfl <;>
    simp [Vocabulary.isReserved, BasicClasses.object, BasicClasses.int, BasicClasses.io,
      BasicClasses.bool, BasicClasses.string] at hx

theorem edge_addAll_basic_iff {names : Vocabulary}
    (hf : (basic names).classes.Fresh (cs.map (·.name))) {x y : Symbol} :
    ((basic names).addAll cs).Edge x y ↔
      (ParentEdge cs x y ∨ ParentEdge (BasicClasses.all names) x y) ∧ y ≠ names .noClass := by
  rw [Edge, addAll_names, basic_names, parent?, Option.map_eq_some_iff]
  simp only [get?_addAll hf, get?_basic, ParentEdge]
  refine and_congr_left fun _ => ?_
  constructor
  · rintro ⟨info, ⟨c, hc, hx, rfl⟩ | ⟨c, hc, hx, rfl⟩, hy⟩
    · exact Or.inl ⟨c, hc, hx, by simpa using hy⟩
    · exact Or.inr ⟨c, hc, hx, by simpa using hy⟩
  · rintro (⟨c, hc, hx, hy⟩ | ⟨c, hc, hx, hy⟩)
    · exact ⟨c.info, Or.inl ⟨c, hc, hx, rfl⟩, by simpa using hy⟩
    · exact ⟨c.info, Or.inr ⟨c, hc, hx, rfl⟩, by simpa using hy⟩

/-- An edge that another one follows is one of the classes that are written: above a basic class there
is the root at most, and from that no edge leads. -/
theorem parentEdge_of_edge_edge {names : Vocabulary}
    (hf : (basic names).classes.Fresh (cs.map (·.name))) {x y z : Symbol}
    (e : ((basic names).addAll cs).Edge x y) (e' : ((basic names).addAll cs).Edge y z) :
    ParentEdge cs x y := by
  obtain ⟨hxy | ⟨b, hb, -, hp⟩, hy⟩ := (edge_addAll_basic_iff hf).mp e
  · exact hxy
  · exfalso
    have hobj : y = names .object := by
      rcases BasicClasses.parent_eq hb with ⟨-, hn⟩ | ⟨-, ho⟩
      · exact absurd (hp.symm.trans hn) hy
      · exact hp.symm.trans ho
    obtain ⟨⟨c, hc, hn, -⟩ | ⟨d, hd, hn, hpd⟩, hz⟩ := (edge_addAll_basic_iff hf).mp e'
    · have hroot : BasicClasses.object names ∈ BasicClasses.all names := by simp [BasicClasses.all]
      exact (fresh_basic_iff.mp hf).2 c hc _ hroot (hn.trans hobj)
    · rcases BasicClasses.parent_eq hd with ⟨-, hn'⟩ | ⟨hno, -⟩
      · exact hz (hpd.symm.trans hn')
      · exact hno (hn.trans hobj)

theorem acyclic_addAll_basic_iff {names : Vocabulary}
    (hf : (basic names).classes.Fresh (cs.map (·.name)))
    (hcs : ∀ c ∈ cs, c.name ≠ names .noClass) :
    ((basic names).addAll cs).Acyclic ↔ ∀ x, ¬TransGen (ParentEdge cs) x x := by
  have hstart : ∀ {x y}, ParentEdge cs x y → x ≠ names .noClass := by
    rintro x y ⟨c, hc, rfl, -⟩
    exact hcs c hc
  constructor
  · intro ac x t
    -- every name on a cycle is that of a class, and so is not `_no_class`
    have hlift : ∀ {y z}, TransGen (ParentEdge cs) y z → z ≠ names .noClass →
        TransGen ((basic names).addAll cs).Edge y z := by
      intro y z t
      induction t with
      | single e => exact fun hz => .single ((edge_addAll_basic_iff hf).mpr ⟨Or.inl e, hz⟩)
      | tail _ e ih =>
        exact fun hz => .tail (ih (hstart e)) ((edge_addAll_basic_iff hf).mpr ⟨Or.inl e, hz⟩)
    obtain ⟨_, e, -⟩ := TransGen.head'_iff.mp t
    exact ac x (hlift t (hstart e))
  · intro hac x t
    -- on a cycle every edge is followed by another one
    have hlower : ∀ {y z w}, TransGen ((basic names).addAll cs).Edge y z →
        ((basic names).addAll cs).Edge z w → TransGen (ParentEdge cs) y z := by
      intro y z w t
      induction t generalizing w with
      | single e => exact fun e' => .single (parentEdge_of_edge_edge hf e e')
      | tail _ e ih => exact fun e' => .tail (ih e) (parentEdge_of_edge_edge hf e e')
    obtain ⟨_, e, -⟩ := TransGen.head'_iff.mp t
    exact hac x (hlower t e)

theorem not_has_basic_noClass (names : Vocabulary) :
    (basic names).has ((basic names).names .noClass) = false := by
  have en : (build names ⟨[]⟩).hierarchy.Enrols ⟨[]⟩ := enrols_build rfl
  exact en.not_has (by decide) (by simp)

theorem enters_basic_iff {names : Vocabulary} (hcs : ∀ c ∈ cs, c.name ≠ names .noClass) :
    (basic names).Enters cs ↔ WellFormed names cs := by
  rw [enters_iff (acyclic_basic names) (not_has_basic_noClass names) (by rwa [basic_names]),
    basic_names]
  simp only [Vocabulary.isReserved_eq_false_iff, Vocabulary.isSealed_eq_false_iff]
  constructor
  · rintro ⟨hf, hname, hparent, hac⟩
    exact ⟨hf.1, hname, hparent, (acyclic_addAll_basic_iff hf hcs).mp hac⟩
  · rintro ⟨hnodup, hname, hparent, hac⟩
    have hf : (basic names).classes.Fresh (cs.map (·.name)) := by
      refine fresh_basic_iff.mpr ⟨hnodup, fun c hc => ne_basic_of_unreserved ?_⟩
      exact names.isReserved_eq_false_iff.mpr (hname c hc)
    exact ⟨hf, hname, hparent, (acyclic_addAll_basic_iff hf hcs).mpr hac⟩

/-! Runs of the registration. -/

def Registration.entryFaults (r : Registration) : List Fault :=
  r.faults.filter (·.cause.stage = .entry)

theorem entryFaults_declare (h : Hierarchy) (c : ClassDecl) :
    (h.declare c).2.filter (·.cause.stage = .entry) = [] := by
  rw [List.filter_eq_nil_iff]
  intro f hf
  rw [stage_of_mem_declareFeatures hf]
  decide

theorem registerAll_cons_of_none (hr : h.rejection? c = none) :
    h.registerAll (c :: cs) =
      { (h.add c).registerAll cs with
        faults := ((h.enter c).declare c).2 ++ ((h.add c).registerAll cs).faults } := by
  simp only [registerAll, register, hr, declare_enter]

theorem registerAll_cons_of_some {why : Rejection} (hr : h.rejection? c = some why) :
    h.registerAll (c :: cs) = ⟨h, [⟨.rejected why, some c.place⟩], some c.name⟩ := by
  simp only [registerAll, register, hr]

/-- A registration writes the classes that enter, up to the first that may not, which it reports. -/
theorem exists_registerAll (h : Hierarchy) (cs : List ClassDecl) :
    ∃ pre rest, cs = pre ++ rest ∧ h.Enters pre ∧ (h.registerAll cs).hierarchy = h.addAll pre ∧
      (rest = [] ∧ (h.registerAll cs).entryFaults = [] ∨
        ∃ c more why, rest = c :: more ∧ (h.addAll pre).rejection? c = some why ∧
          (h.registerAll cs).entryFaults = [⟨.rejected why, some c.place⟩]) := by
  induction cs generalizing h with
  | nil => exact ⟨[], [], rfl, trivial, rfl, Or.inl ⟨rfl, rfl⟩⟩
  | cons c cs ih =>
    cases hr : h.rejection? c with
    | some why =>
      refine ⟨[], c :: cs, rfl, trivial, ?_, Or.inr ⟨c, cs, why, rfl, hr, ?_⟩⟩
      · rw [registerAll_cons_of_some hr, addAll_nil]
      · rw [registerAll_cons_of_some hr]
        rfl
    | none =>
      obtain ⟨pre, rest, rfl, hpre, hh, hend⟩ := ih (h.add c)
      refine ⟨c :: pre, rest, rfl, ⟨hr, hpre⟩, ?_, ?_⟩
      · rw [registerAll_cons_of_none hr, addAll_cons]
        exact hh
      · have hfaults : (h.registerAll (c :: (pre ++ rest))).entryFaults =
            ((h.add c).registerAll (pre ++ rest)).entryFaults := by
          rw [registerAll_cons_of_none hr, Registration.entryFaults, List.filter_append,
            entryFaults_declare, List.nil_append]
          rfl
        rw [hfaults]
        exact hend

theorem Enters.isPrefix {pre rest q : List ClassDecl}
    (hstop : ∀ c ∈ rest.head?, (h.addAll pre).rejection? c ≠ none) (hq : q <+: pre ++ rest)
    (he : h.Enters q) : q <+: pre := by
  rcases List.prefix_or_prefix_of_prefix hq (List.prefix_append pre rest) with hle | ⟨more, rfl⟩
  · exact hle
  · rw [List.prefix_append_right_inj] at hq
    cases more with
    | nil => simp
    | cons c more =>
      obtain ⟨rest, rfl⟩ := hq
      exact absurd (enters_append.mp he).2.1 (hstop c rfl)

theorem entries_addAll (hf : h.classes.Fresh (cs.map (·.name))) :
    (h.addAll cs).classes.entries = h.classes.entries ++ cs.map fun c => (c.name, c.info) := by
  rw [addAll_classes]
  exact Table.entries_foldl_insert _ _ hf

theorem entries_addAll_basic {names : Vocabulary}
    (hf : (basic names).classes.Fresh (cs.map (·.name))) :
    ((basic names).addAll cs).classes.entries =
      (BasicClasses.all names ++ cs).map fun c => (c.name, c.info) := by
  have hbasic := entries_addAll (fresh_basic names)
  rw [entries_addAll hf, List.map_append, basic_eq, hbasic]
  rfl

/-- Where no class is called `_no_class`, the classes that a registration enters are the longest run
from the front that is in order as a whole. It reports a class that may not enter exactly if that is
not all of them, and this is the first class after the run. -/
theorem build_longestPrefix {names : Vocabulary} {p : Program}
    (hnc : ∀ c ∈ p.classes, c.name ≠ names .noClass) :
    ∃ pre, IsLongestPrefix (WellFormed names) p.classes pre ∧
      (build names p).hierarchy.edges =
        (BasicClasses.all names ++ pre).map (fun c => (c.name, c.parent)) ∧
      ((build names p).entryFaults ≠ [] ↔ pre ≠ p.classes) ∧
      ∀ c, p.classes[pre.length]? = some c →
        ∃ why, (build names p).entryFaults = [⟨.rejected why, some c.place⟩] := by
  obtain ⟨pre, rest, hsplit, hpre, hh, hend⟩ := exists_registerAll (basic names) p.classes
  have hin : ∀ {q}, q <+: p.classes → ∀ c ∈ q, c.name ≠ names .noClass :=
    fun hq c hc => hnc c (hq.subset hc)
  have hlead : pre <+: p.classes := ⟨rest, hsplit.symm⟩
  have hwf := (enters_basic_iff (hin hlead)).mp hpre
  have hstop : ∀ c ∈ rest.head?, ((basic names).addAll pre).rejection? c ≠ none := by
    rcases hend with ⟨rfl, -⟩ | ⟨c, more, why, rfl, hwhy, -⟩
    · simp
    · simp [hwhy]
  refine ⟨pre, ⟨hlead, hwf, fun q hq hwq => ?_⟩, ?_, ?_, ?_⟩
  · exact Enters.isPrefix hstop (hsplit ▸ hq) ((enters_basic_iff (hin hq)).mpr hwq)
  · have hf := ((enters_iff (acyclic_basic names) (not_has_basic_noClass names)
      (by rw [basic_names]; exact hin hlead)).mp hpre).1
    rw [build, hh, edges, entries_addAll_basic hf, List.map_map]
    exact List.map_congr_left fun c _ => by simp
  · rw [build]
    rcases hend with ⟨rfl, hnone⟩ | ⟨c, more, why, rfl, -, hsome⟩
    · rw [List.append_nil] at hsplit
      rw [hnone, hsplit]
      simp
    · rw [hsome, hsplit]
      simp
  · intro c hc
    rcases hend with ⟨rfl, -⟩ | ⟨d, more, why, rfl, -, hsome⟩
    · simp [hsplit] at hc
    · obtain rfl : d = c := by simpa [hsplit] using hc
      exact ⟨why, hsome⟩

/-- Three classes in a circle, of which the last closes it, between two others. -/
def circle (names : Vocabulary) : List ClassDecl :=
  [⟨⟨26⟩, ⟨27⟩, [], "a.cl", 1⟩, ⟨⟨27⟩, ⟨28⟩, [], "a.cl", 2⟩, .mainUnder names ⟨26⟩,
    ⟨⟨28⟩, ⟨26⟩, [], "a.cl", 9⟩, ⟨⟨29⟩, names .io, [], "a.cl", 12⟩]

/-- The circle is found where it closes, and only what stands before is registered. -/
theorem build_longestPrefix_circle :
    ∃ pre, IsLongestPrefix (WellFormed .initial) (circle .initial) pre ∧ pre.length = 3 ∧
      ∃ why, (build .initial ⟨circle .initial⟩).entryFaults =
        [⟨.rejected why, some ⟨"a.cl", 9⟩⟩] := by
  have hnc : ∀ c ∈ circle .initial, c.name ≠ Vocabulary.initial .noClass := by decide
  obtain ⟨pre, hlong, hedges, -, hentry⟩ := build_longestPrefix (p := ⟨circle .initial⟩) hnc
  have hlen : (build .initial ⟨circle .initial⟩).hierarchy.edges.length = 8 := by decide
  have hpre : pre.length = 3 := by
    rw [hedges] at hlen
    simpa [BasicClasses.all] using hlen
  refine ⟨pre, hlong, hpre, ?_⟩
  refine hentry ⟨⟨28⟩, ⟨26⟩, [], "a.cl", 9⟩ ?_
  rw [hpre]
  rfl

end Hierarchy
end CoolStatics
