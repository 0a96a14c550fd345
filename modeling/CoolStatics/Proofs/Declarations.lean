import CoolStatics.Proofs.Admission

/-!
What declared features leave behind. A table is written over while repeated names are looked for in it.
In the end it holds the last declaration of every name, and what was found on the way is one fault for
each feature that repeats one before it in its class and for each attribute called `self`. Classes that
enter later, and the one that may not, leave all this as it is.
-/
namespace CoolStatics

/-- Of values written one after another the last one at a key stands. -/
theorem Table.get?_foldl_insert_last {α β : Type} (key : β → Symbol) (val : β → α) (xs : List β)
    (t : Table α) (k : Symbol) :
    (xs.foldl (fun t x => t.insert (key x) (val x)) t).get? k =
      ((xs.filter (key · = k)).getLast?.map val).or (t.get? k) := by
  induction xs generalizing t with
  | nil => simp
  | cons x xs ih =>
    rw [List.foldl_cons, ih, get?_insert]
    by_cases hk : key x = k
    · -- the value just written stands only if no later one has its key
      cases hlast : (xs.filter (key · = k)).getLast? <;> simp [hk, hlast, List.getLast?_cons]
    · have hk' : ¬k = key x := fun h => hk h.symm
      simp [hk, hk']

theorem Table.isSome_last_iff {α β : Type} (key : β → Symbol) (val : β → α) (xs : List β)
    (k : Symbol) :
    ((xs.filter (key · = k)).getLast?.map val).isSome = true ↔ ∃ x ∈ xs, key x = k := by
  rw [Option.isSome_map, List.getLast?_isSome, Ne, List.filter_eq_nil_iff]
  simp

/-- What a feature repeats of those before it in its class. A method and an attribute may share a
name; an attribute called `self` is at fault wherever it stands. -/
def Feature.repetition? (names : Vocabulary) (owner : Symbol) (before : List Feature) :
    Feature → Option Cause
  | .method m =>
    if ∃ m' ∈ before.filterMap (·.method?), m'.name = m.name then some (.methodRedefined owner m.name)
    else none
  | .attr a =>
    if a.name = names .self then some .selfAttribute
    else if ∃ a' ∈ before.filterMap (·.attr?), a'.name = a.name then
      some (.attributeRedefined owner a.name)
    else none

namespace ClassDecl

variable (c : ClassDecl)

def lastMethod? (m : Symbol) : Option Method := (c.methods.filter (·.name = m)).getLast?

def lastAttribute? (a : Symbol) : Option Attribute := (c.attributes.filter (·.name = a)).getLast?

def declarationFault? (names : Vocabulary) (before : List Feature) (f : Feature) : Option Fault :=
  (f.repetition? names c.name before).map fun cause => ⟨cause, some ⟨c.file, f.line⟩⟩

/-- The faults of the features in their order, each after those that stand before it. -/
def declarationFaults (names : Vocabulary) : List Fault :=
  c.features.zipIdx.filterMap fun (f, k) => c.declarationFault? names (c.features.take k) f

theorem get?_info_methods (m : Symbol) :
    c.info.methods.get? m = (c.lastMethod? m).map (·.signature c.name) := by
  rw [info_methods, Table.get?_foldl_insert_last]
  exact Option.or_none

theorem get?_info_attributes (a : Symbol) :
    c.info.attributes.get? a = (c.lastAttribute? a).map (·.type) := by
  rw [info_attributes, Table.get?_foldl_insert_last]
  exact Option.or_none

def upTo (before : List Feature) : ClassDecl := { c with features := before }

end ClassDecl

namespace Hierarchy

variable {h : Hierarchy} {c : ClassDecl} {cs : List ClassDecl}

theorem method?_add (h : Hierarchy) (c : ClassDecl) (m : Symbol) :
    (h.add c).method? c.name m = (c.lastMethod? m).map (·.signature c.name) := by
  rw [method?, get?_add, if_pos rfl, Option.bind_some, c.get?_info_methods]

theorem attr?_add (h : Hierarchy) (c : ClassDecl) (a : Symbol) :
    (h.add c).attr? c.name a = (c.lastAttribute? a).map (·.type) := by
  rw [attr?, get?_add, if_pos rfl, Option.bind_some, c.get?_info_attributes]

/-- With the features of `before` recorded, a feature clashes with the table exactly if it repeats one
of them. -/
theorem clash?_add_upTo (h : Hierarchy) (c : ClassDecl) (before : List Feature) (f : Feature) :
    (h.add (c.upTo before)).clash? c.name f = f.repetition? h.names c.name before := by
  cases f with
  | method m =>
    have hm : ((h.add (c.upTo before)).method? c.name m.name).isSome = true ↔
        ∃ m' ∈ before.filterMap (·.method?), m'.name = m.name := by
      change ((h.add (c.upTo before)).method? (c.upTo before).name m.name).isSome = true ↔ _
      rw [method?_add]
      exact Table.isSome_last_iff _ _ _ _
    simp only [clash?, Feature.repetition?, hm]
  | attr a =>
    have ha : ((h.add (c.upTo before)).attr? c.name a.name).isSome = true ↔
        ∃ a' ∈ before.filterMap (·.attr?), a'.name = a.name := by
      change ((h.add (c.upTo before)).attr? (c.upTo before).name a.name).isSome = true ↔ _
      rw [attr?_add]
      exact Table.isSome_last_iff _ _ _ _
    simp only [clash?, Feature.repetition?, ha, add_names]

theorem declareFeature_add_upTo (h : Hierarchy) (c : ClassDecl) (before : List Feature)
    (f : Feature) :
    (h.add (c.upTo before)).declareFeature c.name f = h.add (c.upTo (before ++ [f])) := by
  have hinfo : (c.upTo (before ++ [f])).info = (c.upTo before).info.record c.name f := by
    change ClassInfo.recordAll _ _ (before ++ [f]) = _
    rw [ClassInfo.recordAll, List.foldl_append]
    rfl
  change (⟨h.names, h.classes.insert c.name (c.upTo before).info⟩ : Hierarchy).declareFeature _ _ =
    ⟨h.names, h.classes.insert c.name (c.upTo (before ++ [f])).info⟩
  rw [hinfo, declareFeature_insert]

theorem declareFeatures_add_upTo (h : Hierarchy) (c : ClassDecl) (before fs : List Feature) :
    ((h.add (c.upTo before)).declareFeatures c fs).2 =
      (fs.zipIdx before.length).filterMap fun (f, k) =>
        c.declarationFault? h.names ((before ++ fs).take k) f := by
  induction fs generalizing before with
  | nil => rfl
  | cons f fs ih =>
    -- for the features after `f` it is one of those before them
    have hrest := ih (before ++ [f])
    rw [List.append_assoc, List.singleton_append, List.length_append, List.length_singleton] at hrest
    have hfirst : (before ++ f :: fs).take before.length = before := List.take_left
    simp only [declareFeatures, declareFeature_add_upTo, clash?_add_upTo, hrest, List.zipIdx_cons,
      List.filterMap_cons, hfirst]
    change (c.declarationFault? h.names before f).toList ++ _ = _
    cases c.declarationFault? h.names before f <;> rfl

theorem declare_enter_eq (h : Hierarchy) (c : ClassDecl) :
    ((h.enter c).declare c).2 = c.declarationFaults h.names :=
  declareFeatures_add_upTo h c [] c.features

/-! Whole registrations. -/

theorem Enters.fresh (he : h.Enters cs) : h.classes.Fresh (cs.map (·.name)) := by
  induction cs generalizing h with
  | nil => exact ⟨.nil, by simp⟩
  | cons c cs ih =>
    obtain ⟨-, -, hnew, -⟩ := rejection?_eq_none_iff.mp he.1
    rw [List.map_cons, Table.fresh_cons c.info]
    exact ⟨get?_of_not_has hnew, ih he.2⟩

theorem Enters.faults_append (he : h.Enters cs) (rest : List ClassDecl) :
    (h.registerAll (cs ++ rest)).faults =
      cs.flatMap (·.declarationFaults h.names) ++ ((h.addAll cs).registerAll rest).faults := by
  induction cs generalizing h with
  | nil => rfl
  | cons c cs ih =>
    rw [List.cons_append, registerAll_cons_of_none he.1, declare_enter_eq, ih he.2,
      List.flatMap_cons, List.append_assoc, addAll_cons]
    rfl

/-- The classes that a registration enters have distinct names. Each is left with the last
declarations of its members, and apart from a class that may not enter the faults are those of repeated
features. -/
theorem build_declares (names : Vocabulary) (p : Program) :
    ∃ entered, entered <+: p.classes ∧
      (build names p).hierarchy.classNames = (BasicClasses.all names ++ entered).map (·.name) ∧
      ((BasicClasses.all names ++ entered).map (·.name)).Nodup ∧
      (∀ c ∈ entered, ∀ n,
        (build names p).hierarchy.method? c.name n = (c.lastMethod? n).map (·.signature c.name) ∧
        (build names p).hierarchy.attr? c.name n = (c.lastAttribute? n).map (·.type)) ∧
      (build names p).faults =
        entered.flatMap (·.declarationFaults names) ++ (build names p).entryFaults := by
  obtain ⟨pre, rest, hsplit, hpre, hh, hend⟩ := exists_registerAll (basic names) p.classes
  have hf := hpre.fresh
  have hkeys : (build names p).hierarchy.classNames =
      (BasicClasses.all names ++ pre).map (·.name) := by
    rw [build, hh, classNames, Table.keys, entries_addAll_basic hf, List.map_map]
    rfl
  have hget : ∀ c ∈ pre, (build names p).hierarchy.get? c.name = some c.info := by
    intro c hc
    rw [build, hh]
    exact (get?_addAll hf).mpr (Or.inl ⟨c, hc, rfl, rfl⟩)
  refine ⟨pre, ⟨rest, hsplit.symm⟩, hkeys, ?_, ?_, ?_⟩
  · rw [← hkeys]
    exact (build names p).hierarchy.classes.nodup
  · intro c hc n
    rw [method?, attr?, hget c hc]
    exact ⟨c.get?_info_methods n, c.get?_info_attributes n⟩
  · have hfaults := hpre.faults_append rest
    rw [← hsplit, basic_names] at hfaults
    rw [build, hfaults]
    rcases hend with ⟨rfl, hnone⟩ | ⟨c, more, why, rfl, hwhy, hsome⟩
    · rw [hnone]
      rfl
    · rw [hsome, registerAll_cons_of_some hwhy]

/-- A class that declares an attribute and a method of one name twice each, and `self` twice. -/
def stutter (names : Vocabulary) : ClassDecl :=
  ⟨⟨26⟩, names .object,
    [.attr ⟨⟨27⟩, names .int, Expr.absent 2, 2⟩,
      .method ⟨⟨27⟩, [], names .int, Expr.absent 3, 3⟩,
      .attr ⟨names .self, ⟨26⟩, Expr.absent 4, 4⟩,
      .method ⟨⟨27⟩, [⟨⟨28⟩, names .int, 5⟩], names .string, Expr.absent 5, 5⟩,
      .attr ⟨⟨27⟩, names .bool, Expr.absent 6, 6⟩,
      .attr ⟨names .self, names .io, Expr.absent 7, 7⟩], "a.cl", 1⟩

/-- A second class of its name and what comes after are left out. -/
def stutters (names : Vocabulary) : List ClassDecl :=
  [stutter names, ⟨⟨26⟩, names .io, [.attr ⟨⟨27⟩, names .io, Expr.absent 9, 9⟩], "a.cl", 8⟩,
    .mainUnder names ⟨26⟩]

/-- The last declarations stand, and four features are at fault. -/
theorem build_declares_stutters :
    (build .initial ⟨stutters .initial⟩).hierarchy.method? ⟨26⟩ ⟨27⟩ =
        some ⟨⟨27⟩, [⟨⟨28⟩, Vocabulary.initial .int, 5⟩], Vocabulary.initial .string, ⟨26⟩, 5⟩ ∧
      (build .initial ⟨stutters .initial⟩).hierarchy.attr? ⟨26⟩ ⟨27⟩ =
        some (Vocabulary.initial .bool) ∧
      (build .initial ⟨stutters .initial⟩).faults =
        [⟨.selfAttribute, some ⟨"a.cl", 4⟩⟩, ⟨.methodRedefined ⟨26⟩ ⟨27⟩, some ⟨"a.cl", 5⟩⟩,
          ⟨.attributeRedefined ⟨26⟩ ⟨27⟩, some ⟨"a.cl", 6⟩⟩, ⟨.selfAttribute, some ⟨"a.cl", 7⟩⟩,
          ⟨.rejected (.redefined ⟨26⟩), some ⟨"a.cl", 8⟩⟩] := by
  obtain ⟨entered, hlead, hkeys, -, hmembers, hfaults⟩ :=
    build_declares .initial ⟨stutters .initial⟩
  have hlen : entered.length = 1 := by
    have hcount : (build .initial ⟨stutters .initial⟩).hierarchy.classNames.length = 6 := by decide
    rw [hkeys] at hcount
    simpa [BasicClasses.all] using hcount
  obtain rfl : entered = [stutter .initial] := by
    rw [List.prefix_iff_eq_take.mp hlead, hlen]
    rfl
  obtain ⟨hmethod, hattr⟩ := hmembers (stutter .initial) List.mem_cons_self ⟨27⟩
  refine ⟨hmethod.trans (by decide), hattr.trans (by decide), hfaults.trans ?_⟩
  decide

end Hierarchy
end CoolStatics
