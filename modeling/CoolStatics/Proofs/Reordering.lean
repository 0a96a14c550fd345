import CoolStatics.Proofs.Comparison
import CoolStatics.Proofs.Declarations

/-!
The classes of a program in another order. On the way every hierarchy is another one; in the end all
have the same classes with the same members, and the check of a class looks at nothing else. What is
found is the same, in another order.
-/
namespace CoolStatics

open Report

def ClassDecl.clashes (names : Vocabulary) (c : ClassDecl) : List Fault :=
  (((⟨names, ∅⟩ : Hierarchy).enter c).declare c).2

namespace Hierarchy

variable {h h' : Hierarchy} {cs cs' : List ClassDecl}

/-! What registration leaves behind. -/

theorem declare_enter_faults (h : Hierarchy) (c : ClassDecl) :
    ((h.enter c).declare c).2 = c.clashes h.names := by
  rw [ClassDecl.clashes, declare_enter_eq, declare_enter_eq]

theorem Enters.registerAll_eq (he : h.Enters cs) :
    h.registerAll cs = ⟨h.addAll cs, cs.flatMap (·.clashes h.names), none⟩ := by
  induction cs generalizing h with
  | nil => rfl
  | cons c cs ih =>
    rw [registerAll_cons_of_none he.1, ih he.2, declare_enter_faults, addAll_cons, add_names,
      List.flatMap_cons]

theorem entryFaults_eq_nil_iff : (h.registerAll cs).entryFaults = [] ↔ h.Enters cs := by
  constructor
  · intro hnone
    obtain ⟨pre, rest, rfl, hpre, -, ⟨rfl, -⟩ | ⟨c, more, why, -, -, hsome⟩⟩ :=
      exists_registerAll h cs
    · rwa [List.append_nil]
    · rw [hnone] at hsome
      cases hsome
  · intro he
    obtain ⟨pre, rest, rfl, -, -, ⟨-, hnone⟩ | ⟨c, more, why, rfl, hwhy, -⟩⟩ :=
      exists_registerAll h cs
    · exact hnone
    · have hc := (enters_append.mp he).2.1
      rw [hwhy] at hc
      cases hc

/-! Hierarchies with the same classes. -/

/-- The same classes with the same members, in whatever order they were registered. -/
structure SameClasses (h h' : Hierarchy) : Prop where
  names : h'.names = h.names
  get? : ∀ c, h'.get? c = h.get? c

namespace SameClasses

theorem shape (sc : SameClasses h h') : SameShape h h' := by
  refine ⟨sc.names, fun c => ?_⟩
  rw [parent?, parent?, sc.get?]

theorem method?_eq (sc : SameClasses h h') (c m : Symbol) : h'.method? c m = h.method? c m := by
  rw [method?, method?, sc.get?]

theorem attr?_eq (sc : SameClasses h h') (c a : Symbol) : h'.attr? c a = h.attr? c a := by
  rw [attr?, attr?, sc.get?]

theorem inheritedMethod?_eq (sc : SameClasses h h') (ac : h.Acyclic) (c m : Symbol) :
    h'.inheritedMethod? c m = h.inheritedMethod? c m := by
  simp only [inheritedMethod?, sc.shape.ancestors_eq ac, sc.method?_eq]

theorem inheritedAttr?_eq (sc : SameClasses h h') (ac : h.Acyclic) (c a : Symbol) :
    h'.inheritedAttr? c a = h.inheritedAttr? c a := by
  simp only [inheritedAttr?, sc.shape.ancestors_eq ac, sc.attr?_eq]

theorem mainFault?_eq (sc : SameClasses h h') : h'.mainFault? = h.mainFault? := by
  rw [mainFault?, mainFault?, sc.names, sc.get?]

theorem parentFaults_perm (sc : SameClasses h h')
    (hp : h.classes.entries.Perm h'.classes.entries) : h.parentFaults.Perm h'.parentFaults := by
  have hhas : h'.has = h.has := funext sc.shape.has_eq
  rw [parentFaults, parentFaults, sc.names, hhas]
  exact hp.filterMap _

theorem check_eq (sc : SameClasses h h') (ac : h.Acyclic) (c : ClassDecl) :
    c.check h' = c.check h := by
  have pl : Context.Parallel (c.context h) (c.context h') := ⟨sc.shape, ac, rfl, rfl⟩
  have tr : Context.Transfers same (c.context h) (c.context h') Eq fun _ _ => True := by
    refine pl.transfers (fun scope x => ?_) fun owner m _ => ?_
    · have hattr : h'.findAttr? c.name x = h.findAttr? c.name x := by
        rw [findAttr?, findAttr?, sc.attr?_eq, sc.inheritedAttr?_eq ac]
      simp only [Context.objectType?, Scope.objectType?, ClassDecl.context, hattr]
    · have hmethod : h'.findMethod? owner m = h.findMethod? owner m := by
        rw [findMethod?, findMethod?, sc.method?_eq, sc.inheritedMethod?_eq ac]
      exact hmethod
  refine ClassDecl.check_eq tr.concord id (congrArg Scope.push) rfl (fun _ _ _ _ => trivial) ?_
  intro f _
  cases f with
  | method m =>
    refine .method rfl rfl rfl ?_ ?_
    · rw [pl.agree.checkOverride_eq (sc.inheritedMethod?_eq ac _ _)]
      exact same.mono (same.refl _) fun _ _ _ => trivial
    · rw [pl.agree.bindFormals_eq _ fun _ _ => trivial]
      exact same.refl _
  | attr a =>
    refine .attr rfl rfl ?_ ?_
    · rw [pl.names_eq, pl.agree.require_eq]
      simp only [ClassDecl.context, sc.inheritedAttr?_eq ac]
      exact same.mono (same.refl _) fun _ _ _ => trivial
    · rw [pl.agree.isKnown_eq trivial, pl.agree.expect_eq]
      exact same.refl _

end SameClasses

/-! Two registrations. -/

theorem sameClasses_addAll (hf : h.classes.Fresh (cs.map (·.name))) (hp : cs.Perm cs') :
    SameClasses (h.addAll cs) (h.addAll cs') ∧
      (h.addAll cs).classes.entries.Perm (h.addAll cs').classes.entries := by
  have hf' : h.classes.Fresh (cs'.map (·.name)) :=
    ⟨(hp.map _).nodup_iff.mp hf.1, fun k hk => hf.2 k ((hp.map _).mem_iff.mpr hk)⟩
  refine ⟨⟨by rw [addAll_names, addAll_names], fun x => Option.ext fun info => ?_⟩, ?_⟩
  · rw [get?_addAll hf, get?_addAll hf']
    simp only [hp.mem_iff]
  · rw [entries_addAll hf, entries_addAll hf']
    exact (hp.map _).append_left _

theorem Registration.outlineFaults_perm {r r' : Registration}
    (sc : SameClasses r.hierarchy r'.hierarchy) (hf : r.faults.Perm r'.faults)
    (hp : r.hierarchy.classes.entries.Perm r'.hierarchy.classes.entries) :
    r.outlineFaults.Perm r'.outlineFaults := by
  have hempty : r'.faults.isEmpty = r.faults.isEmpty := by
    rw [Bool.eq_iff_iff, List.isEmpty_iff, List.isEmpty_iff]
    exact ⟨fun h => (h ▸ hf).eq_nil, fun h => (h ▸ hf).nil_eq.symm⟩
  rw [outlineFaults, outlineFaults, hempty, sc.mainFault?_eq]
  split_ifs
  · cases r.hierarchy.mainFault? with
    | some fault => exact .refl _
    | none => exact sc.parentFaults_perm hp
  · exact hf

/-- If no class of a program is rejected, none is in another order, and the two registrations leave the
same classes and the same faults. -/
theorem build_perm {names : Vocabulary} {p p' : Program} (hp : p.classes.Perm p'.classes)
    (hnc : ∀ c ∈ p.classes, c.name ≠ names .noClass) (hentry : (build names p).entryFaults = []) :
    (build names p').entryFaults = [] ∧
      SameClasses (build names p).hierarchy (build names p').hierarchy ∧
      (build names p).hierarchy.Acyclic ∧
      (build names p).outlineFaults.Perm (build names p').outlineFaults := by
  have hnc' : ∀ c ∈ p'.classes, c.name ≠ names .noClass := fun c hc => hnc c (hp.mem_iff.mpr hc)
  have he : (basic names).Enters p.classes := entryFaults_eq_nil_iff.mp hentry
  have he' : (basic names).Enters p'.classes :=
    (enters_basic_iff hnc').mpr (((enters_basic_iff hnc).mp he).perm hp)
  obtain ⟨hf, -, -, ac⟩ := (enters_iff (acyclic_basic names) (not_has_basic_noClass names)
    (by rwa [basic_names])).mp he
  obtain ⟨sc, hentries⟩ := sameClasses_addAll hf hp
  refine ⟨entryFaults_eq_nil_iff.mpr he', ?_⟩
  rw [build, build, he.registerAll_eq, he'.registerAll_eq]
  exact ⟨sc, ac, Registration.outlineFaults_perm sc (hp.flatMap_right _) hentries⟩

end Hierarchy

/-! Two checks. -/

namespace Report

variable {α β : Type} {f : α → Report β} {as : List α}

theorem all_map_of_ok {g : α → β} (hok : ∀ a ∈ as, (f a).outcome = .ok (g a)) :
    Report.all (as.map f) = ⟨as.flatMap fun a => (f a).faults, .ok (as.map g)⟩ := by
  induction as with
  | nil => rfl
  | cons a as ih =>
    rw [List.forall_mem_cons] at hok
    have hfa : f a = ⟨(f a).faults, .ok (g a)⟩ := by rw [← hok.1]
    rw [List.map_cons, Report.all, ih hok.2, hfa]
    simp

theorem all_map_of_error {a : α} {e : NoCommonAncestor} (ha : a ∈ as)
    (he : (f a).outcome = .error e) : ∃ e', (Report.all (as.map f)).outcome = .error e' := by
  induction as with
  | nil => cases ha
  | cons b as ih =>
    rw [List.map_cons, Report.all]
    rcases hb : f b with ⟨fs, x⟩
    cases x with
    | error e' => exact ⟨e', rfl⟩
    | ok b' =>
      rcases List.mem_cons.mp ha with rfl | ha
      · rw [hb] at he
        cases he
      · obtain ⟨e', he'⟩ := ih ha
        rcases hall : Report.all (as.map f) with ⟨gs, y⟩
        rw [hall] at he'
        obtain rfl : y = .error e' := he'
        exact ⟨e', rfl⟩

end Report

/-- The class as its check leaves it; as it was if the check breaks off. -/
def ClassDecl.annotated (h : Hierarchy) (c : ClassDecl) : ClassDecl :=
  match (c.check h).outcome with
  | .ok c₁ => c₁
  | .error _ => c

namespace Program

variable {p p' : Program} {i : Interner}

/-- If no class of a program is rejected, none is in any other order. The hierarchies then have the same
classes with the same members, and either both analyses break off, or they find the same faults up to
order and leave each class in the same way. -/
theorem analyse_reordered (hp : p.classes.Perm p'.classes)
    (hnc : ∀ c ∈ p.classes, c.name ≠ (Vocabulary.intern i).1 .noClass)
    (hentry : (p.analyse i).registration.entryFaults = []) :
    (p'.analyse i).registration.entryFaults = [] ∧
      (∀ c, (p'.analyse i).hierarchy.get? c = (p.analyse i).hierarchy.get? c) ∧
      ((∃ e e', (p.analyse i).verdict = .error e ∧ (p'.analyse i).verdict = .error e') ∨
        ∃ v v', (p.analyse i).verdict = .ok v ∧ (p'.analyse i).verdict = .ok v' ∧
          v.faults.Perm v'.faults ∧ ∃ annotated : ClassDecl → ClassDecl,
            v.program.classes = p.classes.map annotated ∧
            v'.program.classes = p'.classes.map annotated) := by
  obtain ⟨hentry', sc, ac, hout⟩ := Hierarchy.build_perm hp hnc hentry
  refine ⟨hentry', sc.get?, ?_⟩
  rw [analyse_verdict_eq, analyse_verdict_eq]
  by_cases hclean : (p.analyse i).registration.outlineFaults = []
  · have hclean' : (p'.analyse i).registration.outlineFaults = [] := (hclean ▸ hout).nil_eq.symm
    have hcheck : (fun c : ClassDecl => c.check (p'.analyse i).hierarchy) =
        fun c => c.check (p.analyse i).hierarchy := funext (sc.check_eq ac)
    rw [if_pos hclean, if_pos hclean', hcheck]
    by_cases hbreak : ∃ c ∈ p.classes, ∃ e, (c.check (p.analyse i).hierarchy).outcome = .error e
    · left
      obtain ⟨c, hc, e, he⟩ := hbreak
      obtain ⟨e₁, he₁⟩ := Report.all_map_of_error hc he
      obtain ⟨e₂, he₂⟩ := Report.all_map_of_error (hp.mem_iff.mp hc) he
      exact ⟨e₁, e₂, by rw [he₁]; rfl, by rw [he₂]; rfl⟩
    · right
      have hok : ∀ c ∈ p.classes, (c.check (p.analyse i).hierarchy).outcome =
          .ok (c.annotated (p.analyse i).hierarchy) := by
        intro c hc
        cases hx : (c.check (p.analyse i).hierarchy).outcome with
        | error e => exact absurd ⟨c, hc, e, hx⟩ hbreak
        | ok c₁ => rw [ClassDecl.annotated, hx]
      have hok' := fun c hc => hok c (hp.mem_iff.mpr hc)
      rw [Report.all_map_of_ok hok, Report.all_map_of_ok hok']
      exact ⟨_, _, rfl, rfl, hp.flatMap_right _, _, rfl, rfl⟩
  · have hclean' : (p'.analyse i).registration.outlineFaults ≠ [] := fun h =>
      hclean (h ▸ hout).eq_nil
    rw [if_neg hclean, if_neg hclean']
    exact Or.inr ⟨_, _, rfl, rfl, hout, id, (List.map_id _).symm, (List.map_id _).symm⟩

/-- Classes under parents that come later, with an attribute of an undefined type in the first and one
that is initialised to an undeclared variable in the last. -/
def parentsLast (names : Vocabulary) : List ClassDecl :=
  [⟨⟨26⟩, ⟨27⟩, [.attr ⟨⟨28⟩, ⟨29⟩, Expr.absent 2, 2⟩], "a.cl", 1⟩, .mainUnder names ⟨26⟩,
    ⟨⟨27⟩, names .io, [.attr ⟨⟨30⟩, names .int, Expr.plain 8 (.identifier ⟨31⟩), 8⟩], "a.cl", 7⟩]

/-- Both attributes are found out in either order. -/
theorem analyse_reordered_parentsFirst :
    ∃ v v', ((⟨parentsLast .initial⟩ : Program).analyse .empty).verdict = .ok v ∧
      ((⟨(parentsLast .initial).reverse⟩ : Program).analyse .empty).verdict = .ok v' ∧
      v.faults.length = 3 ∧ v.faults ≠ v'.faults ∧ v.faults.Perm v'.faults := by
  have hfaults : ∃ v v', ((⟨parentsLast .initial⟩ : Program).analyse .empty).verdict = .ok v ∧
      ((⟨(parentsLast .initial).reverse⟩ : Program).analyse .empty).verdict = .ok v' ∧
      v.faults.length = 3 ∧ v.faults ≠ v'.faults := ⟨_, _, rfl, rfl, by decide, by decide⟩
  obtain ⟨v, v', hv, hv', hlen, hne⟩ := hfaults
  refine ⟨v, v', hv, hv', hlen, hne, ?_⟩
  have hp : (⟨parentsLast .initial⟩ : Program).classes.Perm
      (⟨(parentsLast .initial).reverse⟩ : Program).classes := (List.reverse_perm _).symm
  obtain ⟨-, -, ⟨e, -, he, -⟩ | ⟨w, w', hw, hw', hperm, -⟩⟩ :=
    analyse_reordered (i := .empty) hp (by decide) (by decide)
  · rw [hv] at he
    cases he
  · rw [hv] at hw
    rw [hv'] at hw'
    rwa [Except.ok.inj hw, Except.ok.inj hw']

end Program
end CoolStatics
