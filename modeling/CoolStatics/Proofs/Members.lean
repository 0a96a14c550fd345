import CoolStatics.Proofs.Rules
import CoolStatics.Proofs.Tree

/-!
Members of the classes of a program, own and inherited. Nothing inherits a primitive class, and of the
basic classes only those have attributes: what attributes a class of the program has was declared in
the program. In a checked program a method that overrides another has its types, and no attribute is
declared again below, so that a class offers all the members of its ancestors with the types that they
have there.
-/
namespace CoolStatics

theorem BasicClasses.attributes_eq_nil {names : Vocabulary} {c : ClassDecl} (hc : c ∈ all names)
    (hp : names.isPrimitive c.name = false) : c.attributes = [] := by
  simp only [all, List.mem_cons, List.not_mem_nil, or_false] at hc
  rcases hc with rfl | rfl | rfl | rfl | rfl
  · rfl
  · simp [int, Vocabulary.isPrimitive] at hp
  · rfl
  · simp [bool, Vocabulary.isPrimitive] at hp
  · simp [string, Vocabulary.isPrimitive] at hp

namespace Hierarchy
namespace Enrols

open Relation

variable {h : Hierarchy} {p : Program}

theorem not_edge_primitive (en : h.Enrols p) {c t : Symbol} (ht : h.names.isPrimitive t = true) :
    ¬h.Edge c t := by
  intro e
  obtain ⟨d, hd, -, rfl, hne⟩ := en.edge_iff.mp e
  rcases List.mem_append.mp hd with hb | hu
  · rcases BasicClasses.parent_eq hb with ⟨-, hp⟩ | ⟨-, hp⟩
    · exact hne hp
    · simp [hp, Vocabulary.isPrimitive] at ht
  · have hs := en.unsealed d hu
    simp only [Vocabulary.isSealed, Vocabulary.isPrimitive, Bool.or_eq_true, Bool.or_eq_false_iff,
      decide_eq_true_eq, decide_eq_false_iff_not] at hs ht
    tauto

theorem eq_of_reaches_primitive (en : h.Enrols p) {c t : Symbol}
    (ht : h.names.isPrimitive t = true) (r : h.Reaches c t) : c = t := by
  cases r with
  | refl => rfl
  | tail _ e => exact absurd e (en.not_edge_primitive ht)

theorem not_primitive (en : h.Enrols p) {c : ClassDecl} (hc : c ∈ p.classes) :
    h.names.isPrimitive c.name = false := by
  have hr := en.unreserved c hc
  simp only [Vocabulary.isReserved, Vocabulary.isPrimitive, Bool.or_eq_false_iff,
    decide_eq_false_iff_not] at hr ⊢
  tauto

theorem exists_attribute (en : h.Enrols p) {c : ClassDecl} (hc : c ∈ p.classes) {x t : Symbol}
    (ht : h.findAttr? c.name x = some t) :
    ∃ d ∈ p.classes, ∃ a ∈ d.attributes, a.name = x ∧ a.type = t := by
  rw [findAttr?_eq] at ht
  obtain ⟨n, hn, ha⟩ := List.exists_of_findSome?_eq_some ht
  obtain ⟨-, hreg, r⟩ := (mem_lineage_iff en.acyclic).mp hn
  obtain ⟨d, hd, rfl⟩ := en.has_iff.mp hreg
  obtain ⟨a, ham, hx, hat⟩ := (en.attr?_iff hd).mp ha
  rcases List.mem_append.mp hd with hb | hu
  · -- the class would have to be primitive itself
    have hp : h.names.isPrimitive d.name = true := by
      by_contra hp
      rw [BasicClasses.attributes_eq_nil hb (by simpa using hp)] at ham
      cases ham
    have hprim := en.not_primitive hc
    rw [en.eq_of_reaches_primitive hp r, hp] at hprim
    cases hprim
  · exact ⟨d, hu, a, ham, hx, hat⟩

end Enrols
end Hierarchy

theorem Signature.Alike.refl (s : Signature) : s.Alike s := ⟨rfl, rfl⟩

theorem Signature.Alike.trans {s t u : Signature} (h : s.Alike t) (k : t.Alike u) : s.Alike u :=
  ⟨h.1.trans k.1, h.2.trans k.2⟩

theorem ClassDecl.mem_methods {c : ClassDecl} {m : Method} :
    m ∈ c.methods ↔ Feature.method m ∈ c.features := by
  rw [methods, List.mem_filterMap]
  constructor
  · rintro ⟨f, hf, hm⟩
    cases f with
    | method m' => rwa [← Option.some.inj hm]
    | attr a => cases hm
  · intro hm
    exact ⟨_, hm, rfl⟩

theorem ClassDecl.mem_attributes {c : ClassDecl} {a : Attribute} :
    a ∈ c.attributes ↔ Feature.attr a ∈ c.features := by
  rw [attributes, List.mem_filterMap]
  constructor
  · rintro ⟨f, hf, ha⟩
    cases f with
    | method m => cases ha
    | attr a' => rwa [← Option.some.inj ha]
  · intro ha
    exact ⟨_, ha, rfl⟩

theorem ClassDecl.exists_checked_method {h : Hierarchy} {c c₁ : ClassDecl} {m : Method}
    (hc : (c.check h).Gives c₁) (hm : m ∈ c.methods) :
    ∃ m₁ ∈ c₁.methods, m₁.name = m.name ∧
      ((c.context h).checkMethod (c.context h).classScope.push m).Gives m₁ := by
  obtain ⟨hfs, -⟩ := gives_check.mp hc
  obtain ⟨f₁, hf₁, hf⟩ := exists_of_forall₂_mem hfs (mem_methods.mp hm)
  obtain ⟨m₁, hm₁, hpure⟩ := Report.gives_bind.mp hf
  obtain rfl := Report.gives_pure.mp hpure
  obtain ⟨-, -, _, -, _, _, -, -, heq⟩ := Context.gives_checkMethod.mp hm₁
  exact ⟨m₁, mem_methods.mpr hf₁, by rw [← heq], hm₁⟩

theorem ClassDecl.exists_checked_attribute {h : Hierarchy} {c c₁ : ClassDecl} {a : Attribute}
    (hc : (c.check h).Gives c₁) (ha : a ∈ c.attributes) :
    ∃ a₁, ((c.context h).checkAttr (c.context h).classScope.push a).Gives a₁ := by
  obtain ⟨hfs, -⟩ := gives_check.mp hc
  obtain ⟨f₁, -, hf⟩ := exists_of_forall₂_mem hfs (mem_attributes.mp ha)
  obtain ⟨a₁, ha₁, -⟩ := Report.gives_bind.mp hf
  exact ⟨a₁, ha₁⟩

theorem BasicClasses.not_override {names : Vocabulary} {c : ClassDecl} (hc : c ∈ all names)
    (hne : c.name ≠ names .object) :
    ∀ n ∈ c.methods.map (·.name), n ∉ (object names).methods.map (·.name) := by
  simp only [all, List.mem_cons, List.not_mem_nil, or_false] at hc
  rcases hc with rfl | rfl | rfl | rfl | rfl
  · exact absurd rfl hne
  all_goals
    simp [ClassDecl.methods, object, int, io, bool, string, method, attr, Feature.method?]

namespace Hierarchy

variable {h : Hierarchy} {p : Program} {c d n x t : Symbol} {s : Signature}

/-- Members that a class declares itself agree with those that its parent has. -/
structure Coherent (h : Hierarchy) : Prop where
  method : ∀ {c p n s s'}, h.Edge c p → h.method? c n = some s → h.findMethod? p n = some s' →
    s.Alike s'
  attr : ∀ {c p x t}, h.Edge c p → h.findAttr? p x = some t → h.attr? c x = none

theorem Coherent.findMethod? (co : h.Coherent) (ac : h.Acyclic) (r : h.Reaches c d)
    (hs : h.findMethod? d n = some s) : ∃ s', h.findMethod? c n = some s' ∧ s'.Alike s := by
  induction r using Relation.ReflTransGen.head_induction_on with
  | refl => exact ⟨s, hs, .refl s⟩
  | head e _ ih =>
    obtain ⟨s₁, hs₁, halike⟩ := ih
    rw [Hierarchy.findMethod?, inheritedMethod?_of_edge ac e, hs₁]
    cases hm : h.method? _ n with
    | none => exact ⟨s₁, rfl, halike⟩
    | some s₂ => exact ⟨s₂, rfl, (co.method e hm hs₁).trans halike⟩

theorem Coherent.findAttr? (co : h.Coherent) (ac : h.Acyclic) (r : h.Reaches c d)
    (ht : h.findAttr? d x = some t) : h.findAttr? c x = some t := by
  induction r using Relation.ReflTransGen.head_induction_on with
  | refl => exact ht
  | head e _ ih =>
    rw [Hierarchy.findAttr?, co.attr e ih, inheritedAttr?_of_edge ac e, ih, Option.none_or]

theorem Coherent.attr?_of_below (co : h.Coherent) (ac : h.Acyclic) (r : h.Reaches c d) (hne : c ≠ d)
    (ht : h.attr? d x = some t) : h.attr? c x = none := by
  rcases Relation.ReflTransGen.cases_head r with heq | ⟨q, e, r'⟩
  · exact absurd heq hne
  · have hfound : h.findAttr? d x = some t := by rw [Hierarchy.findAttr?, ht, Option.some_or]
    exact co.attr e (co.findAttr? ac r' hfound)

theorem Coherent.attr?_unique (co : h.Coherent) (ac : h.Acyclic) {d' u : Symbol} (r : h.Reaches c d)
    (r' : h.Reaches c d') (ht : h.attr? d x = some t) (hu : h.attr? d' x = some u) : d' = d := by
  by_contra hne
  rcases r.total r' with up | up
  · rw [co.attr?_of_below ac up (fun heq => hne heq.symm) hu] at ht
    cases ht
  · rw [co.attr?_of_below ac up hne ht] at hu
    cases hu

/-- The classes of a program whose checks note nothing. -/
def Checked (h : Hierarchy) (p : Program) : Prop := ∀ c ∈ p.classes, ∃ c₁, (c.check h).Gives c₁

theorem Enrols.eq_object_of_edge (en : h.Enrols p) {b : ClassDecl}
    (hb : b ∈ BasicClasses.all h.names) (e : h.Edge b.name d) :
    b.name ≠ h.names .object ∧ d = h.names .object := by
  have hd := e.1
  rw [en.parent?_eq (List.mem_append_left _ hb)] at hd
  obtain rfl := Option.some.inj hd
  rcases BasicClasses.parent_eq hb with ⟨-, hp⟩ | h
  · exact absurd hp e.2
  · exact h

/-- A program whose classes are checked without faults overrides coherently. -/
theorem Enrols.coherent (en : h.Enrols p) (hch : h.Checked p) : h.Coherent := by
  have hroot : ∀ x, ¬h.Edge (h.names .object) x := en.no_edge_object
  constructor
  · intro c q n s s' e hs hs'
    obtain ⟨b, hb, rfl⟩ := en.has_iff.mp e.has
    obtain ⟨m, hm, rfl, rfl⟩ := (en.method?_iff hb).mp hs
    rcases List.mem_append.mp hb with hbasic | huser
    · obtain ⟨hne, rfl⟩ := en.eq_object_of_edge hbasic e
      rw [findMethod?, inheritedMethod?_of_no_edge hroot, Option.or_none] at hs'
      obtain ⟨m', hm', hn', -⟩ := (en.method?_iff (p.object_mem_roster h.names)).mp hs'
      refine absurd ?_ (BasicClasses.not_override hbasic hne m.name (List.mem_map_of_mem hm))
      exact List.mem_map.mpr ⟨m', hm', hn'⟩
    · obtain ⟨b₁, hb₁⟩ := hch b huser
      obtain ⟨m₁, -, -, hm₁⟩ := ClassDecl.exists_checked_method hb₁ hm
      rw [← inheritedMethod?_of_edge en.acyclic e] at hs'
      exact (Context.gives_checkMethod.mp hm₁).1 s' hs'
  · intro c q x t e ht
    obtain ⟨b, hb, rfl⟩ := en.has_iff.mp e.has
    by_contra hne
    obtain ⟨u, hu⟩ := Option.ne_none_iff_exists'.mp hne
    obtain ⟨a, ha, rfl, rfl⟩ := (en.attr?_iff hb).mp hu
    rcases List.mem_append.mp hb with hbasic | huser
    · obtain ⟨-, rfl⟩ := en.eq_object_of_edge hbasic e
      rw [findAttr?, inheritedAttr?_of_no_edge hroot, Option.or_none] at ht
      obtain ⟨a', ha', -⟩ := (en.attr?_iff (p.object_mem_roster h.names)).mp ht
      simp [BasicClasses.object, BasicClasses.method, ClassDecl.attributes, Feature.attr?] at ha'
    · obtain ⟨b₁, hb₁⟩ := hch b huser
      obtain ⟨a₁, ha₁⟩ := ClassDecl.exists_checked_attribute hb₁ ha
      rw [← inheritedAttr?_of_edge en.acyclic e] at ht
      rcases (Context.gives_checkAttr.mp ha₁).1 with hself | hnone
      · exact (en.distinct b hb).noSelf a ha hself
      · rw [show (b.context h).hierarchy.inheritedAttr? (b.context h).current a.name =
          h.inheritedAttr? b.name a.name from rfl, ht] at hnone
        cases hnone

end Hierarchy

namespace Program

variable {p : Program} {i : Interner} {v : Verdict}

theorem coherent_of_clean (hv : (p.analyse i).verdict = .ok v) (hclean : v.faults = []) :
    (p.analyse i).hierarchy.Enrols p ∧ (p.analyse i).hierarchy.Coherent := by
  obtain ⟨hf, hcs⟩ := (analyse_verdict_iff hclean).mp hv
  obtain ⟨-, en, -⟩ := Hierarchy.outline_clean hf
  have hchecked : (p.analyse i).hierarchy.Checked p := by
    intro c hc
    obtain ⟨c₁, -, hc₁⟩ := exists_of_forall₂_mem hcs hc
    exact ⟨c₁, hc₁⟩
  exact ⟨en, en.coherent hchecked⟩

/-- In a program without faults a class has every method of each of its ancestors, near or far, with
the types that it has there. -/
theorem findMethod?_of_mem_chain (hv : (p.analyse i).verdict = .ok v) (hclean : v.faults = [])
    {c d m : Symbol} {s : Signature} (hd : d ∈ (p.analyse i).hierarchy.chain c)
    (hs : (p.analyse i).hierarchy.findMethod? d m = some s) :
    ∃ s', (p.analyse i).hierarchy.findMethod? c m = some s' ∧ s'.arity = s.arity ∧
      s'.types = s.types ∧ s'.result = s.result := by
  obtain ⟨en, co⟩ := coherent_of_clean hv hclean
  have r : (p.analyse i).hierarchy.Reaches c d := (Hierarchy.reaches_iff en.acyclic).mpr (Or.inr hd)
  obtain ⟨s', hs', htypes, hresult⟩ := co.findMethod? en.acyclic r hs
  have harity : s'.arity = s.arity := by
    have hlen := congrArg List.length htypes
    simpa [Signature.types, Signature.arity] using hlen
  exact ⟨s', hs', harity, htypes, hresult⟩

/-- A method `m(x : Int) : SELF_TYPE { self }` whose formal has the given name. -/
def itself (names : Vocabulary) (formal : Symbol) : Method :=
  ⟨⟨29⟩, [⟨formal, names .int, 6⟩], names .selfType, Expr.plain 6 (.identifier (names .self)), 6⟩

/-- `Main` and three classes in a row, of which the first and the last declare the method. -/
def overriding (names : Vocabulary) : Program :=
  ⟨[.mainUnder names (names .io), ⟨⟨26⟩, names .object, [.method (itself names ⟨30⟩)], "main.cl", 5⟩,
    ⟨⟨27⟩, ⟨26⟩, [], "main.cl", 8⟩, ⟨⟨28⟩, ⟨27⟩, [.method (itself names ⟨31⟩)], "main.cl", 9⟩]⟩

theorem findMethod?_of_mem_chain_overriding :
    ∃ s, ((overriding .initial).analyse .empty).hierarchy.findMethod? ⟨28⟩ ⟨29⟩ = some s ∧
      s.types = [Vocabulary.initial .int] ∧ s.result = Vocabulary.initial .selfType := by
  have hclean : ∃ v, ((overriding .initial).analyse .empty).verdict = .ok v ∧ v.faults = [] :=
    ⟨_, rfl, rfl⟩
  obtain ⟨v, hv, hclean⟩ := hclean
  have hd : ⟨26⟩ ∈ ((overriding .initial).analyse .empty).hierarchy.chain ⟨28⟩ := by decide
  have hs : ((overriding .initial).analyse .empty).hierarchy.findMethod? ⟨26⟩ ⟨29⟩ =
      some ((itself .initial ⟨30⟩).signature ⟨26⟩) := by decide
  obtain ⟨s, hfind, -, htypes, hresult⟩ := findMethod?_of_mem_chain hv hclean hd hs
  exact ⟨s, hfind, htypes, hresult⟩

/-- In a program without faults an attribute that a class or one of its ancestors declares is declared
by no other of them, and it is what its name means in the class, unless a local variable has the name:
in all classes below it has the one type that it is declared with. -/
theorem attr?_unambiguous (hv : (p.analyse i).verdict = .ok v) (hclean : v.faults = [])
    {c d a t : Symbol} (hd : d = c ∨ d ∈ (p.analyse i).hierarchy.chain c)
    (ht : (p.analyse i).hierarchy.attr? d a = some t) :
    (∀ d', d' = c ∨ d' ∈ (p.analyse i).hierarchy.chain c → d' ≠ d →
        (p.analyse i).hierarchy.attr? d' a = none) ∧
      ∀ scope : Scope, scope.lookup a = none →
        scope.objectType? (p.analyse i).hierarchy c a = some t := by
  obtain ⟨en, co⟩ := coherent_of_clean hv hclean
  have r : (p.analyse i).hierarchy.Reaches c d := (Hierarchy.reaches_iff en.acyclic).mpr hd
  constructor
  · intro d' hd' hne
    by_contra hsome
    obtain ⟨u, hu⟩ := Option.ne_none_iff_exists'.mp hsome
    exact hne (co.attr?_unique en.acyclic r ((Hierarchy.reaches_iff en.acyclic).mpr hd') ht hu)
  · intro scope hlocal
    have hfound : (p.analyse i).hierarchy.findAttr? d a = some t := by
      rw [Hierarchy.findAttr?, ht, Option.some_or]
    rw [Scope.objectType?, hlocal, Option.none_or]
    exact co.findAttr? en.acyclic r hfound

/-- `Main` and three classes in a row, of which the first two declare an attribute each. -/
def layered (names : Vocabulary) : Program :=
  ⟨[.mainUnder names (names .io),
    ⟨⟨26⟩, names .object, [.attr ⟨⟨29⟩, names .int, Expr.plain 6 (.int 1), 6⟩], "main.cl", 5⟩,
    ⟨⟨27⟩, ⟨26⟩, [.attr ⟨⟨30⟩, names .selfType, Expr.absent 9, 9⟩], "main.cl", 8⟩,
    ⟨⟨28⟩, ⟨27⟩, [], "main.cl", 11⟩]⟩

theorem attr?_unambiguous_layered :
    ((layered .initial).analyse .empty).hierarchy.attr? ⟨27⟩ ⟨29⟩ = none ∧
      (Scope.empty.define ⟨30⟩ (Vocabulary.initial .string)).objectType?
        ((layered .initial).analyse .empty).hierarchy ⟨28⟩ ⟨29⟩ = some (Vocabulary.initial .int) := by
  have hclean : ∃ v, ((layered .initial).analyse .empty).verdict = .ok v ∧ v.faults = [] :=
    ⟨_, rfl, rfl⟩
  obtain ⟨v, hv, hclean⟩ := hclean
  have hd : ⟨26⟩ ∈ ((layered .initial).analyse .empty).hierarchy.chain ⟨28⟩ := by decide
  have ht : ((layered .initial).analyse .empty).hierarchy.attr? ⟨26⟩ ⟨29⟩ =
      some (Vocabulary.initial .int) := by decide
  obtain ⟨hother, hmeans⟩ := attr?_unambiguous hv hclean (Or.inr hd) ht
  exact ⟨hother ⟨27⟩ (Or.inr (by decide)) (by decide), hmeans _ (by decide)⟩

end Program
end CoolStatics
