import CoolStatics.Proofs.Narrowing
import CoolStatics.Proofs.Shape

/-!
A method copied into a descendant. The copy has the types of what it overrides, so no call and no
override sees a difference, and the rest of the program is checked as before. The body of the copy is
checked where `SELF_TYPE` stands for the descendant.
-/
namespace CoolStatics

namespace ClassDecl

variable {names : Vocabulary} {b : ClassDecl} {pre post : List Feature} {m : Method}

def insert (b : ClassDecl) (pre : List Feature) (m : Method) (post : List Feature) : ClassDecl :=
  { b with features := pre ++ .method m :: post }

theorem methods_insert (hb : b.features = pre ++ post) :
    (b.insert pre m post).methods.Perm (m :: b.methods) := by
  rw [methods, methods, insert, hb, List.filterMap_append, List.filterMap_append]
  exact List.perm_middle

theorem attributes_insert (hb : b.features = pre ++ post) :
    (b.insert pre m post).attributes = b.attributes := by
  rw [attributes, attributes, insert, hb, List.filterMap_append, List.filterMap_append]
  rfl

theorem Distinct.insert (hd : b.Distinct names) (hb : b.features = pre ++ post)
    (hm : ∀ m' ∈ b.methods, m'.name ≠ m.name) : (b.insert pre m post).Distinct names := by
  refine ⟨?_, ?_, ?_⟩
  · have hnew : m.name ∉ b.methods.map (·.name) := by
      intro hmem
      obtain ⟨m', hm', heq⟩ := List.mem_map.mp hmem
      exact hm m' hm' heq
    rw [((methods_insert hb).map (·.name)).nodup_iff]
    exact List.nodup_cons.mpr ⟨hnew, hd.methods⟩
  · rw [attributes_insert hb]
    exact hd.attributes
  · rw [attributes_insert hb]
    exact hd.noSelf

end ClassDecl

namespace Hierarchy

variable {h h' : Hierarchy} {b : Symbol} {m : Method}

/-- The class has a method of the name and the types of the given one. -/
def Inherits (h : Hierarchy) (b : Symbol) (m : Method) : Prop :=
  ∃ s, h.findMethod? b m.name = some s ∧ (m.signature b).Alike s

/-- A hierarchy that has one method more than another one, declared by the class `b`. -/
structure Gains (h h' : Hierarchy) (b : Symbol) (m : Method) : Prop where
  shape : SameShape h h'
  lacked : h.method? b m.name = none
  gained : h'.method? b m.name = some (m.signature b)
  methods : ∀ {c n}, ¬(c = b ∧ n = m.name) → h'.method? c n = h.method? c n
  attributes : ∀ c x, h'.attr? c x = h.attr? c x

namespace Gains

theorem findAttr?_eq (g : Gains h h' b m) (ac : h.Acyclic) (c x : Symbol) :
    h'.findAttr? c x = h.findAttr? c x := by
  rw [Hierarchy.findAttr?_eq, Hierarchy.findAttr?_eq, g.shape.lineage_eq ac]
  simp only [g.attributes]

theorem inheritedAttr?_eq (g : Gains h h' b m) (ac : h.Acyclic) (c x : Symbol) :
    h'.inheritedAttr? c x = h.inheritedAttr? c x := by
  have hhas : h'.has = h.has := funext g.shape.has_eq
  rw [inheritedAttr?, inheritedAttr?, ancestors, ancestors, g.shape.chain_eq ac, hhas]
  simp only [g.attributes]

theorem inheritedMethod?_rel (g : Gains h h' b m) (ac : h.Acyclic) (c n : Symbol)
    (hp : ∀ p, h.Edge c p →
      Option.Rel (fun s s' => s'.Alike s) (h.findMethod? p n) (h'.findMethod? p n)) :
    Option.Rel (fun s s' => s'.Alike s) (h.inheritedMethod? c n) (h'.inheritedMethod? c n) := by
  by_cases hc : ∃ p, h.Edge c p
  · obtain ⟨p, e⟩ := hc
    have e' : h'.Edge c p := by rwa [g.shape.edge_eq]
    rw [inheritedMethod?_of_edge ac e, inheritedMethod?_of_edge (g.shape.acyclic ac) e']
    exact hp p e
  · have hc' : ∀ p, ¬h'.Edge c p := by rwa [g.shape.edge_eq, ← not_exists]
    rw [inheritedMethod?_of_no_edge (not_exists.mp hc), inheritedMethod?_of_no_edge hc']
    exact .none

theorem findMethod?_rel (g : Gains h h' b m) (ac : h.Acyclic) (hi : h.Inherits b m)
    (c n : Symbol) :
    Option.Rel (fun s s' => s'.Alike s) (h.findMethod? c n) (h'.findMethod? c n) := by
  induction c using ac.induct with
  | step c ih =>
    by_cases hcn : c = b ∧ n = m.name
    · obtain ⟨rfl, rfl⟩ := hcn
      obtain ⟨s, hs, halike⟩ := hi
      rw [hs, Hierarchy.findMethod?, g.gained, Option.some_or]
      exact .some halike
    · have hinh := g.inheritedMethod?_rel ac c n ih
      rw [Hierarchy.findMethod?, Hierarchy.findMethod?, g.methods hcn]
      cases h.method? c n with
      | none => exact hinh
      | some s => exact .some (.refl s)

/-- A class is checked over the larger hierarchy as it was over the smaller one. -/
theorem simulation (g : Gains h h' b m) (ac : h.Acyclic) (hi : h.Inherits b m) (c : ClassDecl) :
    Simulation (c.context h) (c.context h') Eq where
  names := g.shape.names
  has := g.shape.has_eq
  refl _ := rfl
  int ht := ht.symm
  bool ht := ht.symm
  comparable hs ht hst := hs ▸ ht ▸ hst
  attr hx := (g.findAttr?_eq ac _ _).trans hx
  conforms ht hc := by
    rw [← ht]
    exact (g.shape.conforms_eq ac _ _ _).trans hc
  join hs ht hj := by
    rw [← hs, ← ht]
    exact ⟨_, (g.shape.join_eq ac _ _ _).trans hj, rfl⟩
  receiver {t _} ht hhas := by
    subst ht
    have heq : h'.has (h'.denoted c.name t) = h.has (h.denoted c.name t) := by
      rw [g.shape.denoted_eq, g.shape.has_eq]
    exact heq.trans hhas
  method {t _ n s} ht hs := by
    subst ht
    have hrel := g.findMethod?_rel ac hi (h.denoted c.name t) n
    rw [show h.findMethod? (h.denoted c.name t) n = some s from hs] at hrel
    rw [show (c.context h').hierarchy.denoted (c.context h').current t = h.denoted c.name t from
      g.shape.denoted_eq _ _]
    generalize hs' : h'.findMethod? (h.denoted c.name t) n = o at hrel
    cases hrel with
    | some halike => exact ⟨_, hs', halike⟩

theorem checkFeature (g : Gains h h' b m) (ac : h.Acyclic) (hi : h.Inherits b m)
    {c : ClassDecl} {f f₁ : Feature}
    (hf : ((c.context h).checkFeature (c.context h).classScope.push f).Gives f₁) :
    ((c.context h').checkFeature (c.context h').classScope.push f).Gives f₁ := by
  refine (g.simulation ac hi c).checkFeature_eq ?_ ?_ hf
  · intro n s' hs'
    have hrel := g.inheritedMethod?_rel ac c.name n fun p _ => g.findMethod?_rel ac hi p n
    rw [show h'.inheritedMethod? c.name n = some s' from hs'] at hrel
    generalize hs : h.inheritedMethod? c.name n = o at hrel
    cases hrel with
    | some halike => exact ⟨_, hs, halike⟩
  · intro x hx
    exact (g.inheritedAttr?_eq ac _ _).trans hx

theorem check (g : Gains h h' b m) (ac : h.Acyclic) (hi : h.Inherits b m) {c c₁ : ClassDecl}
    (hc : (c.check h).Gives c₁) : (c.check h').Gives c₁ := by
  obtain ⟨hfs, heq⟩ := ClassDecl.gives_check.mp hc
  exact ClassDecl.gives_check.mpr ⟨hfs.imp fun _ _ hf => g.checkFeature ac hi hf, heq⟩

end Gains

/-- The class that gains the method comes out as before but for the copy. -/
theorem Gains.check_insert {b b₁ : ClassDecl} {pre post : List Feature} {m₂ : Method}
    (g : Gains h h' b.name m) (ac : h.Acyclic) (hi : h.Inherits b.name m)
    (hb : b.features = pre ++ post) (hb₁ : (b.check h).Gives b₁)
    (hm₂ : ((b.context h).checkMethod (b.context h).classScope.push m).Gives m₂) :
    ∃ pre₁ post₁, b₁.features = pre₁ ++ post₁ ∧ pre₁.length = pre.length ∧
      ((b.insert pre m post).check h').Gives (b₁.insert pre₁ m₂ post₁) := by
  obtain ⟨hfs, heq⟩ := ClassDecl.gives_check.mp hb₁
  rw [hb] at hfs
  obtain ⟨pre₁, post₁, hpre, hpost, hfeatures⟩ := exists_of_forall₂_append hfs
  refine ⟨pre₁, post₁, hfeatures, hpre.length_eq.symm, ClassDecl.gives_check.mpr ⟨?_, ?_⟩⟩
  · have hcopy : ((b.context h).checkFeature (b.context h).classScope.push (.method m)).Gives
        (.method m₂) := Report.gives_bind.mpr ⟨m₂, hm₂, rfl⟩
    exact List.rel_append (hpre.imp fun _ _ hf => g.checkFeature ac hi hf)
      (.cons (g.checkFeature ac hi hcopy) (hpost.imp fun _ _ hf => g.checkFeature ac hi hf))
  · rw [← heq]
    rfl

section Build

variable {names : Vocabulary} {before after : List ClassDecl} {b : ClassDecl}
  {pre post : List Feature} {m : Method}

theorem build_insert (hb : b.features = pre ++ post) (hm : ∀ m' ∈ b.methods, m'.name ≠ m.name)
    (hf : (build names ⟨before ++ b :: after⟩).faults = []) :
    (build names ⟨before ++ b.insert pre m post :: after⟩).faults = [] ∧
      SameShape (build names ⟨before ++ b :: after⟩).hierarchy
        (build names ⟨before ++ b.insert pre m post :: after⟩).hierarchy := by
  have hsame : ∀ cs, List.Forall₂ (StandsIn names) cs cs := fun cs =>
    List.forall₂_same.mpr fun c _ => .refl names c
  have hstands : StandsIn names b (b.insert pre m post) := ⟨rfl, rfl, fun hd => hd.insert hb hm⟩
  have hcs : List.Forall₂ (StandsIn names) (before ++ b :: after)
      (before ++ b.insert pre m post :: after) :=
    List.rel_append (hsame before) (.cons hstands (hsame after))
  exact registerAll_standsIn (.refl _) (basic_names names) (acyclic_basic names) hcs hf

theorem get?_insert {h h' : Hierarchy} (en : h.Enrols ⟨before ++ b :: after⟩)
    (en' : h'.Enrols ⟨before ++ b.insert pre m post :: after⟩) (sh : SameShape h h') {c : Symbol}
    (hc : c ≠ b.name) : h'.get? c = h.get? c := by
  by_cases hreg : h.has c = true
  · obtain ⟨d, hd, rfl⟩ := en.has_iff.mp hreg
    have hd' : d ∈ Program.roster ⟨before ++ b.insert pre m post :: after⟩ h'.names := by
      rw [sh.names]
      simp only [Program.roster, List.mem_append, List.mem_cons] at hd ⊢
      rcases hd with hd | hd | rfl | hd
      · exact Or.inl hd
      · exact Or.inr (Or.inl hd)
      · exact absurd rfl hc
      · exact Or.inr (Or.inr (Or.inr hd))
    rw [en.get?_eq hd, en'.get?_eq hd']
  · have hnot : h.has c = false := by simpa using hreg
    have hnot' : h'.has c = false := by rw [sh.has_eq, hnot]
    rw [get?_of_not_has hnot, get?_of_not_has hnot']

theorem gains_insert {h h' : Hierarchy} (en : h.Enrols ⟨before ++ b :: after⟩)
    (en' : h'.Enrols ⟨before ++ b.insert pre m post :: after⟩) (sh : SameShape h h')
    (hb : b.features = pre ++ post) (hm : ∀ m' ∈ b.methods, m'.name ≠ m.name) :
    Gains h h' b.name m := by
  have hmem : b ∈ Program.roster ⟨before ++ b :: after⟩ h.names := by simp [Program.roster]
  have hmem' : b.insert pre m post ∈
      Program.roster ⟨before ++ b.insert pre m post :: after⟩ h'.names := by simp [Program.roster]
  have hold : ∀ {n s}, h.method? b.name n = some s ↔
      ∃ m' ∈ b.methods, m'.name = n ∧ m'.signature b.name = s := en.method?_iff hmem
  have hnew : ∀ {n s}, h'.method? b.name n = some s ↔
      ∃ m' ∈ (b.insert pre m post).methods, m'.name = n ∧ m'.signature b.name = s :=
    en'.method?_iff hmem'
  have hin : ∀ {m'}, m' ∈ (b.insert pre m post).methods ↔ m' = m ∨ m' ∈ b.methods := fun {m'} => by
    rw [(ClassDecl.methods_insert hb).mem_iff, List.mem_cons]
  refine ⟨sh, ?_, ?_, ?_, ?_⟩
  · by_contra hne
    obtain ⟨s, hs⟩ := Option.ne_none_iff_exists'.mp hne
    obtain ⟨m', hm', hn, -⟩ := hold.mp hs
    exact hm m' hm' hn
  · exact hnew.mpr ⟨m, hin.mpr (Or.inl rfl), rfl, rfl⟩
  · intro c n hcn
    by_cases hc : c = b.name
    · subst hc
      ext s
      rw [hnew, hold]
      constructor
      · rintro ⟨m', hm', hn, hs⟩
        rcases hin.mp hm' with rfl | hm'
        · exact absurd ⟨rfl, hn.symm⟩ hcn
        · exact ⟨m', hm', hn, hs⟩
      · rintro ⟨m', hm', hn, hs⟩
        exact ⟨m', hin.mpr (Or.inr hm'), hn, hs⟩
    · rw [method?, method?, get?_insert en en' sh hc]
  · intro c x
    by_cases hc : c = b.name
    · subst hc
      ext t
      have hattr : h'.attr? b.name x = some t ↔
          ∃ a ∈ (b.insert pre m post).attributes, a.name = x ∧ a.type = t := en'.attr?_iff hmem'
      rw [hattr, en.attr?_iff hmem, ClassDecl.attributes_insert hb]
    · rw [attr?, attr?, get?_insert en en' sh hc]

theorem outlineFaults_insert (hb : b.features = pre ++ post)
    (hm : ∀ m' ∈ b.methods, m'.name ≠ m.name)
    (hf : (build names ⟨before ++ b :: after⟩).outlineFaults = []) :
    (build names ⟨before ++ b.insert pre m post :: after⟩).outlineFaults = [] ∧
      Gains (build names ⟨before ++ b :: after⟩).hierarchy
        (build names ⟨before ++ b.insert pre m post :: after⟩).hierarchy b.name m := by
  obtain ⟨hreg, hmain, hpar⟩ := Registration.outlineFaults_eq_nil_iff.mp hf
  obtain ⟨hreg', sh⟩ := build_insert hb hm hreg
  have g := gains_insert (enrols_build hreg) (enrols_build hreg') sh hb hm
  refine ⟨Registration.outlineFaults_eq_nil_iff.mpr ⟨hreg', ?_, ?_⟩, g⟩
  · obtain ⟨s, hs, hz⟩ := mainFault?_eq_none_iff.mp hmain
    refine mainFault?_eq_none_iff.mpr ⟨s, ?_, hz⟩
    rw [sh.names, g.methods, hs]
    -- `Main` declares `main` itself, and the class lacked the method
    rintro ⟨hc, hn⟩
    rw [hc, hn, g.lacked] at hs
    cases hs
  · rw [parentFaults_eq_nil_iff] at hpar ⊢
    exact sh.closed hpar

end Build

section Descendant

variable {h : Hierarchy} {p : Program} {a b : ClassDecl} {m m₁ : Method}

theorem Enrols.inherited (en : h.Enrols p) (co : h.Coherent) (ha : a ∈ p.classes)
    (hba : h.Reaches b.name a.name) (hm : m ∈ a.methods) : h.Inherits b.name m := by
  have hown : h.method? a.name m.name = some (m.signature a.name) :=
    (en.method?_iff (List.mem_append_right _ ha)).mpr ⟨m, hm, rfl, rfl⟩
  have hfind : h.findMethod? a.name m.name = some (m.signature a.name) := by
    rw [findMethod?, hown, Option.some_or]
  obtain ⟨s, hs, htypes, hresult⟩ := co.findMethod? en.acyclic hba hfind
  exact ⟨s, hs, htypes.symm, hresult.symm⟩

/-- A method is checked in a descendant that does not declare it, and its types narrow at most. -/
theorem Enrols.checkMethod_descendant (en : h.Enrols p) (od : h.Ordered) (co : h.Coherent)
    (ha : a ∈ p.classes) (hb : b ∈ p.classes) (hba : h.Reaches b.name a.name) (hm : m ∈ a.methods)
    (hlacked : h.method? b.name m.name = none)
    (hm₁ : ((a.context h).checkMethod (a.context h).classScope.push m).Gives m₁) :
    ∃ m₂, ((b.context h).checkMethod (b.context h).classScope.push m).Gives m₂ ∧
      List.Forall₂ (Expr.TypesRel (h.Narrows b.name)) m₁.body.walk m₂.body.walk := by
  have hinh : ∀ s, h.inheritedMethod? b.name m.name = some s →
      m.formals.map (·.type) = s.types ∧ m.result = s.result := by
    intro s hs
    obtain ⟨s', hs', halike⟩ := en.inherited co ha hba hm
    rw [findMethod?, hlacked, Option.none_or, hs] at hs'
    rw [Option.some.inj hs']
    exact halike
  obtain ⟨m₂, hm₂, hwalk, -⟩ := (en.simulation od co ha hb hba).checkMethod
    (Expr.congruent_walk _) hm₁ hinh
  exact ⟨m₂, hm₂, hwalk⟩

end Descendant
end Hierarchy

/-- A node that keeps its type or has one whose superclass chain the type before is on. -/
def Expr.Specializes (h : Hierarchy) : Expr → Expr → Prop :=
  TypesRel fun t t' => t' = t ∨ h.has t' = true ∧ t ∈ h.chain t'

theorem Hierarchy.Narrows.specializes {h : Hierarchy} (ac : h.Acyclic) {b : Symbol} {x y : Expr}
    (hxy : Expr.TypesRel (h.Narrows b) x y) : Expr.Specializes h x y := by
  obtain ⟨hline, hkind, t, t', ht, ht', hn⟩ := hxy
  refine ⟨hline, hkind, t, t', ht, ht', ?_⟩
  rcases hn with rfl | ⟨hhas, -, r⟩
  · exact Or.inl rfl
  · exact ((Hierarchy.reaches_iff ac).mp r).imp Eq.symm fun hc => ⟨hhas, hc⟩

namespace Program

open Hierarchy

/-- A method of an ancestor may be copied into a class of a program without faults that does not
declare it: the program has no faults then either, every class and feature comes out as before, and so
does the copy but for types that specialize those of the original. -/
theorem analyse_insert_inherited {p : Program} {i : Interner} {v : Verdict}
    {before after : List ClassDecl} {a b : ClassDecl} {pre post : List Feature} {m : Method}
    (hnt : ∀ c ∈ p.classes, c.name ≠ (Vocabulary.intern i).1 .noType)
    (hv : (p.analyse i).verdict = .ok v) (hclean : v.faults = [])
    (hp : p.classes = before ++ b :: after) (hb : b.features = pre ++ post)
    (ha : a ∈ p.classes) (hm : m ∈ a.methods)
    (hchain : a.name ∈ (p.analyse i).hierarchy.chain b.name)
    (hnew : ∀ m' ∈ b.methods, m'.name ≠ m.name) :
    ∃ before₁ b₁ after₁ pre₁ post₁ m₂,
      v.program.classes = before₁ ++ b₁ :: after₁ ∧ before₁.length = before.length ∧
      b₁.features = pre₁ ++ post₁ ∧ pre₁.length = pre.length ∧
      (Program.analyse ⟨before ++ b.insert pre m post :: after⟩ i).verdict =
        .ok ⟨⟨before₁ ++ b₁.insert pre₁ m₂ post₁ :: after₁⟩, []⟩ ∧
      ∃ a₁ ∈ v.program.classes, a₁.name = a.name ∧ ∃ m₁ ∈ a₁.methods, m₁.name = m.name ∧
        List.Forall₂ (Expr.Specializes (p.analyse i).hierarchy) m₁.body.walk m₂.body.walk := by
  obtain ⟨classes⟩ := p
  subst hp
  obtain ⟨hf, hcs⟩ := (analyse_verdict_iff hclean).mp hv
  obtain ⟨hn, en, cl⟩ := outline_clean hf
  have od := en.ordered cl (by rwa [hn])
  have hchecked : (build (Vocabulary.intern i).1 ⟨before ++ b :: after⟩).hierarchy.Checked
      ⟨before ++ b :: after⟩ := by
    intro c hc
    obtain ⟨c₁, -, hc₁⟩ := exists_of_forall₂_mem hcs hc
    exact ⟨c₁, hc₁⟩
  have co := en.coherent hchecked
  have hbmem : b ∈ before ++ b :: after := by simp
  have hba := (reaches_iff en.acyclic).mpr (Or.inr hchain)
  have hi := en.inherited co ha hba hm
  obtain ⟨hf', g⟩ := outlineFaults_insert hb hnew hf
  -- what the classes came out as
  obtain ⟨before₁, _, hbefore, hrest, hsplit⟩ := exists_of_forall₂_append hcs
  obtain ⟨b₁, after₁, hb₁, hafter, rfl⟩ := List.forall₂_cons_left_iff.mp hrest
  obtain ⟨a₁, ha₁, hca⟩ := exists_of_forall₂_mem hcs ha
  obtain ⟨m₁, hm₁, hname, hcm⟩ := ClassDecl.exists_checked_method hca hm
  have haname : a₁.name = a.name := by rw [← (ClassDecl.gives_check.mp hca).2]
  -- the copy, over the hierarchy as it was and then over the new one
  obtain ⟨m₂, hm₂, hwalk⟩ := en.checkMethod_descendant od co ha hbmem hba hm g.lacked hcm
  obtain ⟨pre₁, post₁, hfeatures, hlen, hbcheck⟩ := g.check_insert en.acyclic hi hb hb₁ hm₂
  refine ⟨before₁, b₁, after₁, pre₁, post₁, m₂, hsplit, hbefore.length_eq.symm, hfeatures, hlen, ?_,
    a₁, ha₁, haname, m₁, hm₁, hname, hwalk.imp fun _ _ hxy => Narrows.specializes en.acyclic hxy⟩
  refine (analyse_verdict_iff rfl).mpr ⟨hf', ?_⟩
  exact List.rel_append (hbefore.imp fun _ _ hc => g.check en.acyclic hi hc)
    (.cons hbcheck (hafter.imp fun _ _ hc => g.check en.acyclic hi hc))

/-- A method `m() : A { if true then self else new B fi }`. -/
def selfOrNew (names : Vocabulary) : Method :=
  ⟨⟨28⟩, [], ⟨26⟩, Expr.plain 6 (.cond (Expr.plain 6 (.bool true))
    (Expr.plain 6 (.identifier (names .self))) (Expr.plain 6 (.new ⟨27⟩))), 6⟩

/-- `Main`, a class `A` with that method, and a class `B` under it. -/
def heirs (names : Vocabulary) (heir : ClassDecl) : Program :=
  ⟨[.mainUnder names (names .io), ⟨⟨26⟩, names .object, [.method (selfOrNew names)], "main.cl", 5⟩,
    heir]⟩

def heir : ClassDecl := ⟨⟨27⟩, ⟨26⟩, [], "main.cl", 9⟩

theorem analyse_insert_selfOrNew :
    ∃ classes, ((heirs .initial (heir.insert [] (selfOrNew .initial) [])).analyse .empty).verdict =
      .ok ⟨⟨classes⟩, []⟩ := by
  have hclean : ∃ v, ((heirs .initial heir).analyse .empty).verdict = .ok v ∧ v.faults = [] :=
    ⟨_, rfl, rfl⟩
  obtain ⟨v, hv, hclean⟩ := hclean
  have hp : (heirs .initial heir).classes = [.mainUnder .initial (Vocabulary.initial .io),
      ⟨⟨26⟩, Vocabulary.initial .object, [.method (selfOrNew .initial)], "main.cl", 5⟩] ++
      heir :: [] := rfl
  have hb : heir.features = [] ++ [] := rfl
  obtain ⟨_, _, _, _, _, _, -, -, -, -, hnew, -⟩ := analyse_insert_inherited (by decide) hv hclean
    hp hb (List.mem_cons_of_mem _ List.mem_cons_self) (List.mem_singleton.mpr rfl) (by decide)
    (by simp [heir, ClassDecl.methods])
  exact ⟨_, hnew⟩

/-- The conditional has the type `A` in the original and `B` in the copy. -/
example : (((heirs .initial (heir.insert [] (selfOrNew .initial) [])).analyse .empty).verdict.toOption.map
    fun v => v.program.walk.map (·.2.type?)) =
      some ([Vocabulary.initial .selfType, ⟨26⟩, Vocabulary.initial .bool, Vocabulary.initial .selfType,
        ⟨27⟩, ⟨27⟩, Vocabulary.initial .bool, Vocabulary.initial .selfType, ⟨27⟩].map some) := by
  decide

end Program
end CoolStatics
