import CoolStatics.Proofs.Inversion

/-!
Undefined types of attributes and formals. The class that declares them takes them for `Object`, and so
does every class below it. A caller does not: it compares its arguments with the types as they are
written, so that with `Object` written for them a call can have another type.
-/
namespace CoolStatics

open Report

/-! A program with `Object` for what is undefined. -/

/-- `Object` in the place of a type that may not be declared. -/
def Hierarchy.mend (h : Hierarchy) (t : Symbol) : Symbol := if h.Known t then t else h.names .object

def Formal.mended (h : Hierarchy) (f : Formal) : Formal := { f with type := h.mend f.type }

def Method.mended (h : Hierarchy) (m : Method) : Method :=
  { m with formals := m.formals.map (Formal.mended h) }

def Attribute.mended (h : Hierarchy) (a : Attribute) : Attribute := { a with type := h.mend a.type }

def Feature.mended (h : Hierarchy) : Feature → Feature
  | .method m => .method (m.mended h)
  | .attr a => .attr (a.mended h)

def ClassDecl.mended (h : Hierarchy) (c : ClassDecl) : ClassDecl :=
  { c with features := c.features.map (Feature.mended h) }

def Program.mended (h : Hierarchy) (p : Program) : Program := ⟨p.classes.map (ClassDecl.mended h)⟩

def Signature.mended (h : Hierarchy) (s : Signature) : Signature :=
  { s with formals := s.formals.map (Formal.mended h) }

namespace ClassDecl

variable {h : Hierarchy} {c : ClassDecl}

theorem methods_mended : (c.mended h).methods = c.methods.map (Method.mended h) := by
  rw [methods, methods, mended, List.filterMap_map, List.map_filterMap]
  congr 1
  funext f
  cases f <;> rfl

theorem attributes_mended : (c.mended h).attributes = c.attributes.map (Attribute.mended h) := by
  rw [attributes, attributes, mended, List.filterMap_map, List.map_filterMap]
  congr 1
  funext f
  cases f <;> rfl

theorem info_mended_methods (c : ClassDecl) (n : Symbol) :
    (c.mended h).info.methods.get? n = (c.info.methods.get? n).map (Signature.mended h) := by
  rw [info_methods, info_methods, methods_mended, List.foldl_map]
  have hempty : ∀ k, (∅ : Table Signature).get? k =
      ((∅ : Table Signature).get? k).map (Signature.mended h) := fun _ => rfl
  exact Table.get?_foldl_insert_map Method.name (Method.signature · c.name) _ hempty n

theorem info_mended_attributes (c : ClassDecl) (n : Symbol) :
    (c.mended h).info.attributes.get? n = (c.info.attributes.get? n).map h.mend := by
  rw [info_attributes, info_attributes, attributes_mended, List.foldl_map]
  have hempty : ∀ k, (∅ : Table Symbol).get? k = ((∅ : Table Symbol).get? k).map h.mend :=
    fun _ => rfl
  exact Table.get?_foldl_insert_map Attribute.name Attribute.type _ hempty n

theorem standsIn_mended (names : Vocabulary) : Hierarchy.StandsIn names c (c.mended h) := by
  refine ⟨rfl, rfl, fun hd => ⟨?_, ?_, ?_⟩⟩
  · rw [methods_mended, List.map_map]
    exact hd.methods
  · rw [attributes_mended, List.map_map]
    exact hd.attributes
  · rw [attributes_mended, List.forall_mem_map]
    exact hd.noSelf

end ClassDecl

/-! The two hierarchies. -/

namespace Hierarchy

variable {h h' : Hierarchy} {p : Program} {t : Symbol}

theorem mend_of_known (ht : h.Known t) : h.mend t = t := if_pos ht

theorem mend_of_not_known (ht : ¬h.Known t) : h.mend t = h.names .object := if_neg ht

theorem formalType_mend (t : Symbol) :
    (if t ≠ h.names .selfType && h.has t then t else h.names .object) =
      if h.mend t ≠ h.names .selfType && h.has (h.mend t) then h.mend t else h.names .object := by
  by_cases hk : h.Known t
  · simp only [mend_of_known hk]
  · have hno : h.has t = false := by simpa using fun hh => hk (Or.inr hh)
    simp [mend_of_not_known hk, hno]

theorem mend_mend (t : Symbol) : h.mend (h.mend t) = h.mend t := by
  by_cases hk : h.Known t
  · rw [mend_of_known hk, mend_of_known hk]
  · rw [mend_of_not_known hk, mend, ite_self]

/-- A class is known as before, or it is one of the program and is known with its types mended. -/
theorem Enrols.get?_mended (en : h.Enrols p) (en' : h'.Enrols (p.mended h)) (sh : SameShape h h')
    (x : Symbol) :
    h'.get? x = h.get? x ∨ ∃ c ∈ p.classes, c.name = x ∧ h.get? x = some c.info ∧
      h'.get? x = some (c.mended h).info := by
  by_cases hreg : h.has x = true
  · obtain ⟨c, hc, rfl⟩ := en.has_iff.mp hreg
    have hroster : ∀ d, d ∈ BasicClasses.all h.names ∨ d ∈ (p.mended h).classes →
        d ∈ (p.mended h).roster h'.names := by
      intro d hd
      rw [sh.names]
      exact List.mem_append.mpr hd
    rcases List.mem_append.mp hc with hb | hu
    · exact Or.inl (by rw [en.get?_eq hc, en'.get?_eq (hroster c (Or.inl hb))])
    · have hm : c.mended h ∈ (p.mended h).classes := List.mem_map_of_mem hu
      exact Or.inr ⟨c, hu, rfl, en.get?_eq hc, en'.get?_eq (hroster _ (Or.inr hm))⟩
  · have hnot : h.has x = false := by simpa using hreg
    have hnot' : h'.has x = false := by rw [sh.has_eq, hnot]
    exact Or.inl (by rw [get?_of_not_has hnot, get?_of_not_has hnot'])

/-- Attributes are alike under what does not tell their types from the mended ones. -/
theorem Enrols.map_attr?_mended (en : h.Enrols p) (en' : h'.Enrols (p.mended h))
    (sh : SameShape h h') {α : Type} {g : Symbol → α}
    (hg : ∀ c ∈ p.classes, ∀ a ∈ c.attributes, g (h.mend a.type) = g a.type) (x n : Symbol) :
    (h'.attr? x n).map g = (h.attr? x n).map g := by
  rcases en.get?_mended en' sh x with heq | ⟨c, hc, rfl, hold, hnew⟩
  · rw [attr?, attr?, heq]
  · rw [attr?, attr?, hold, hnew, Option.bind_some, Option.bind_some, c.info_mended_attributes]
    cases ht : c.info.attributes.get? n with
    | none => rfl
    | some t =>
      obtain ⟨a, ha, -, rfl⟩ := (en.distinct c (List.mem_append_right _ hc)).attr_iff.mp ht
      exact congrArg some (hg c hc a ha)

theorem Enrols.map_method?_mended (en : h.Enrols p) (en' : h'.Enrols (p.mended h))
    (sh : SameShape h h') {α : Type} {g : Signature → α} {n : Symbol}
    (hg : ∀ c ∈ p.classes, ∀ m ∈ c.methods, m.name = n →
      g ((m.signature c.name).mended h) = g (m.signature c.name)) (x : Symbol) :
    (h'.method? x n).map g = (h.method? x n).map g := by
  rcases en.get?_mended en' sh x with heq | ⟨c, hc, rfl, hold, hnew⟩
  · rw [method?, method?, heq]
  · rw [method?, method?, hold, hnew, Option.bind_some, Option.bind_some, c.info_mended_methods]
    cases hs : c.info.methods.get? n with
    | none => rfl
    | some s =>
      obtain ⟨m, hm, hn, rfl⟩ := (en.distinct c (List.mem_append_right _ hc)).method_iff.mp hs
      exact congrArg some (hg c hc m hm hn)

theorem Enrols.map_findAttr?_mended (en : h.Enrols p) (en' : h'.Enrols (p.mended h))
    (sh : SameShape h h') {α : Type} {g : Symbol → α}
    (hg : ∀ c ∈ p.classes, ∀ a ∈ c.attributes, g (h.mend a.type) = g a.type) (x n : Symbol) :
    (h'.findAttr? x n).map g = (h.findAttr? x n).map g := by
  rw [findAttr?_eq, findAttr?_eq, sh.lineage_eq en.acyclic, List.map_findSome?, List.map_findSome?]
  exact congrArg (List.findSome? · _) (funext fun c => en.map_attr?_mended en' sh hg c n)

theorem signature_mended {s : Signature} (hs : ∀ f ∈ s.formals, h.Known f.type) :
    s.mended h = s := by
  have hformals : s.formals.map (Formal.mended h) = s.formals := by
    conv_rhs => rw [← List.map_id s.formals]
    refine List.map_congr_left fun f hf => ?_
    rw [Formal.mended, mend_of_known (hs f hf)]
    rfl
  rw [Signature.mended, hformals]

/-- A method whose formals are in order wherever it is declared is found as before. -/
theorem Enrols.findMethod?_mended_of_name (en : h.Enrols p) (en' : h'.Enrols (p.mended h))
    (sh : SameShape h h') {n : Symbol}
    (hn : ∀ c ∈ p.classes, ∀ m ∈ c.methods, m.name = n → ∀ f ∈ m.formals, h.Known f.type)
    (x : Symbol) : h'.findMethod? x n = h.findMethod? x n := by
  have hmethod : ∀ c, h'.method? c n = h.method? c n := by
    intro c
    have hmap := en.map_method?_mended en' sh (g := id)
      (fun d hd m hm hname => signature_mended (hn d hd m hm hname)) c
    rwa [Option.map_id, id, id] at hmap
  rw [findMethod?_eq, findMethod?_eq, sh.lineage_eq en.acyclic]
  simp only [hmethod]

theorem Enrols.method?_mended (en : h.Enrols p) (en' : h'.Enrols (p.mended h)) (sh : SameShape h h')
    (x n : Symbol) : h'.method? x n = h.method? x n ∨
      h'.method? x n = (h.method? x n).map (Signature.mended h) := by
  rcases en.get?_mended en' sh x with heq | ⟨c, -, rfl, hold, hnew⟩
  · rw [method?, method?, heq]
    exact Or.inl rfl
  · rw [method?, method?, hold, hnew, Option.bind_some, Option.bind_some, c.info_mended_methods]
    exact Or.inr rfl

/-- The method that is found is the one that was found, with its formals mended or not. -/
theorem Enrols.findMethod?_mended (en : h.Enrols p) (en' : h'.Enrols (p.mended h))
    (sh : SameShape h h') (x n : Symbol) : h'.findMethod? x n = h.findMethod? x n ∨
      h'.findMethod? x n = (h.findMethod? x n).map (Signature.mended h) := by
  rw [findMethod?_eq, findMethod?_eq, sh.lineage_eq en.acyclic]
  induction h.lineage x with
  | nil => exact Or.inl rfl
  | cons c cs ih =>
    rw [List.findSome?_cons, List.findSome?_cons]
    have hfirst := en.method?_mended en' sh c n
    cases hs : h.method? c n with
    | none =>
      rw [hs, Option.map_none, or_self] at hfirst
      rw [hfirst]
      exact ih
    | some s =>
      rw [hs] at hfirst
      rcases hfirst with hs' | hs'
      · rw [hs']
        exact Or.inl rfl
      · rw [hs']
        exact Or.inr rfl

theorem Enrols.findMethod?_mended_of_known (en : h.Enrols p) (en' : h'.Enrols (p.mended h))
    (sh : SameShape h h') {x n : Symbol}
    (hs : ∀ s ∈ h.findMethod? x n, ∀ f ∈ s.formals, h.Known f.type) :
    h'.findMethod? x n = h.findMethod? x n := by
  rcases en.findMethod?_mended en' sh x n with heq | hmap
  · exact heq
  · rw [hmap]
    cases hfound : h.findMethod? x n with
    | none => rfl
    | some s => exact congrArg some (signature_mended (hs s hfound))

theorem outlineFaults_mended {names : Vocabulary} (hf : (build names p).outlineFaults = []) :
    (build names (p.mended (build names p).hierarchy)).outlineFaults = [] ∧
      SameShape (build names p).hierarchy
        (build names (p.mended (build names p).hierarchy)).hierarchy := by
  obtain ⟨hreg, hmain, hpar⟩ := Registration.outlineFaults_eq_nil_iff.mp hf
  have hcs : List.Forall₂ (StandsIn names) p.classes
      (p.mended (build names p).hierarchy).classes :=
    List.forall₂_map_right_iff.mpr (List.forall₂_same.mpr fun c _ => c.standsIn_mended names)
  obtain ⟨hreg', sh⟩ :=
    registerAll_standsIn (.refl _) (basic_names names) (acyclic_basic names) hcs hreg
  refine ⟨Registration.outlineFaults_eq_nil_iff.mpr ⟨hreg', ?_, ?_⟩, sh⟩
  · obtain ⟨s, hs, hz⟩ := mainFault?_eq_none_iff.mp hmain
    -- the formals of `main` are as many as before
    have harity := (enrols_build hreg).map_method?_mended (enrols_build hreg') sh
      (g := Signature.arity) (n := (build names p).hierarchy.names .mainMethod)
      (fun c _ m _ _ => by simp [Signature.arity, Signature.mended])
      ((build names p).hierarchy.names .mainClass)
    rw [hs, Option.map_some, hz, Option.map_eq_some_iff] at harity
    obtain ⟨s', hs', hz'⟩ := harity
    have hn : (build names (p.mended (build names p).hierarchy)).hierarchy.names =
        (build names p).hierarchy.names := sh.names
    exact mainFault?_eq_none_iff.mpr ⟨s', by rw [hn]; exact hs', hz'⟩
  · rw [parentFaults_eq_nil_iff] at hpar ⊢
    exact sh.closed hpar

end Hierarchy

/-! The two checks. -/

namespace Context

variable {cx cx' : Context} {line line' : Line} {cause cause' : Cause} {kept kept' : Bool}

theorem sameOutcome_note :
    sameOutcome.rel (fun _ _ => True) (cx.note line cause) (cx'.note line' cause') := trivial

theorem sameOutcome_require :
    sameOutcome.rel (fun _ _ => True) (cx.require kept line cause)
      (cx'.require kept' line' cause') := by
  cases kept <;> cases kept' <;> trivial

theorem sameOutcome_expect {t t' : Symbol}
    (ht : (if kept then t else cx.names .object) = if kept' then t' else cx'.names .object) :
    sameOutcome.rel Eq (cx.expect kept line cause t) (cx'.expect kept' line' cause' t') := by
  rw [expect_eq, expect_eq]
  exact sameOutcome.bind sameOutcome_require fun _ _ _ => sameOutcome.pure ht

theorem sameOutcome_checkOverride {m m' : Method} :
    sameOutcome.rel (fun _ _ => True) (cx.checkOverride m) (cx'.checkOverride m') := by
  rw [checkOverride, checkOverride]
  split <;> split <;> trivial

theorem bound_eq_mend (t : Symbol) : cx.bound t = cx.hierarchy.mend t := by
  simp only [bound, Hierarchy.mend, isKnown_iff]
  rfl

/-- A variable is taken for the same type with its declared type mended, unless that is `_no_type`. -/
theorem taken_mend (cx : Context) {t : Symbol} (ht : t = cx.names .noType → cx.hierarchy.Known t) :
    cx.taken (cx.hierarchy.mend t) = cx.taken t := by
  by_cases hk : cx.hierarchy.Known t
  · rw [Hierarchy.mend_of_known hk]
  · have hobj : cx.taken (cx.hierarchy.names .object) = cx.names .object := ite_self _
    have hnot : cx.isKnown t = false := by rwa [← Bool.not_eq_true, isKnown_iff]
    have hne : t ≠ cx.names .noType := fun heq => hk (ht heq)
    rw [Hierarchy.mend_of_not_known hk, hobj, taken]
    simp [hnot, hne]

theorem Parallel.bindFormals_mended (pl : Parallel cx cx') (scope : Scope) (fs : List Formal) :
    sameOutcome.rel Eq (cx.bindFormals scope fs)
      (cx'.bindFormals scope (fs.map (Formal.mended cx.hierarchy))) := by
  induction fs generalizing scope with
  | nil => exact sameOutcome.pure rfl
  | cons f fs ih =>
    have hsame : (f.mended cx.hierarchy).name = f.name := rfl
    rw [List.map_cons, bindFormals, bindFormals, pl.names_eq, hsame]
    by_cases hname : f.name = cx.names .self
    · rw [if_pos hname, if_pos hname]
      exact sameOutcome.bind sameOutcome_note fun _ _ _ => ih scope
    · rw [if_neg hname, if_neg hname]
      refine sameOutcome.bind sameOutcome_require fun _ _ _ => ?_
      refine sameOutcome.bind (sameOutcome_expect ?_) fun t t' ht => ht ▸ ih _
      rw [pl.names_eq, pl.shape.has_eq]
      exact Hierarchy.formalType_mend f.type

end Context

namespace ClassDecl

variable {h h' : Hierarchy} {p : Program} {c : ClassDecl}

/-- No call of the class comes to a method with a formal of an undefined type. Where the check of the class
breaks off, there is no saying what the calls come to, and none names such a method of the program. -/
def CallsKnown (h : Hierarchy) (p : Program) (c : ClassDecl) : Prop :=
  (∃ c₁, (c.check h).outcome = .ok c₁ ∧
    ∀ x ∈ c₁.walk, ∀ n ∈ x.form.target? (c.context h).typedOwner?, ∀ s ∈ h.findMethod? n.1 n.2,
      ∀ f ∈ s.formals, h.Known f.type) ∨
  ∀ e ∈ c.walk, ∀ n ∈ e.form.callee?, ∀ d ∈ p.classes, ∀ m ∈ d.methods, m.name = n →
    ∀ f ∈ m.formals, h.Known f.type

/-- The rules correspond for the methods that are found as before, if no attribute of the program that
differs has the type `_no_type`. -/
theorem transfers_mended (en : h.Enrols p) (en' : h'.Enrols (p.mended h)) (sh : h.SameShape h')
    (hattr : ∀ d ∈ p.classes, ∀ a ∈ d.attributes, a.type = h.names .noType → h.Known a.type) :
    Context.Transfers sameOutcome (c.context h) ((c.mended h).context h') Eq fun owner n =>
      h'.findMethod? owner n = h.findMethod? owner n := by
  have pl : Context.Parallel (c.context h) ((c.mended h).context h') := ⟨sh, en.acyclic, rfl, rfl⟩
  refine pl.transfers (fun scope x => ?_) fun owner n hn => hn
  have hfind := en.map_findAttr?_mended en' sh
    (fun d hd a ha => Context.taken_mend (c.context h) (hattr d hd a ha)) c.name x
  simp only [Context.objectType?, Scope.objectType?]
  cases scope.lookup x with
  | some t => rfl
  | none => exact hfind

theorem heads_mended (pl : Context.Parallel (c.context h) ((c.mended h).context h')) (scope : Scope)
    (f : Feature) :
    Context.Heads sameOutcome (c.context h) ((c.mended h).context h') Eq scope f (f.mended h) := by
  cases f with
  | method m =>
    exact .method rfl rfl rfl Context.sameOutcome_checkOverride (pl.bindFormals_mended _ m.formals)
  | attr a =>
    refine .attr rfl rfl Context.sameOutcome_require (Context.sameOutcome_expect ?_)
    rw [pl.agree.isKnown_eq trivial, pl.names_eq]
    change (c.context h).bound a.type = (c.context h).bound (h.mend a.type)
    rw [Context.bound_eq_mend, Context.bound_eq_mend]
    exact (Hierarchy.mend_mend a.type).symm

theorem sameOutcome_body_mended (en : h.Enrols p) (en' : h'.Enrols (p.mended h))
    (sh : h.SameShape h')
    (hattr : ∀ d ∈ p.classes, ∀ a ∈ d.attributes, a.type = h.names .noType → h.Known a.type)
    (hcall : c.CallsKnown h p) {f : Feature} (hf : f ∈ c.features) {inner : Scope}
    (hinner : ((c.context h).bodyScope (c.context h).classScope.push f).outcome = .ok inner) :
    sameOutcome.rel (Expr.Paired Eq Eq) (f.body.check (c.context h) inner.push)
      (f.body.check ((c.mended h).context h') inner.push) := by
  have tr := transfers_mended (c := c) en en' sh hattr
  rcases hcall with ⟨c₁, hc₁, hcall⟩ | hcall
  · obtain ⟨inner', _, _, _, hinner', hl, hsub⟩ := leaves_body (leaves_of_ok hc₁) hf
    obtain rfl : inner' = inner := Except.ok.inj (hinner'.symm.trans hinner)
    refine Expr.rel_check_of_leaves tr Expr.congruent_eq (fun h => h ▸ rfl) hl fun x hx n hn => ?_
    exact en.findMethod?_mended_of_known en' sh (hcall x (hsub hx) n hn)
  · refine Expr.rel_check tr Expr.congruent_eq f.body (fun e he n hn owner => ?_) inner.push
    exact en.findMethod?_mended_of_name en' sh (hcall e (List.mem_flatMap.mpr ⟨f, hf, he⟩) n hn) owner

theorem sameOutcome_check_mended (en : h.Enrols p) (en' : h'.Enrols (p.mended h))
    (sh : h.SameShape h')
    (hattr : ∀ d ∈ p.classes, ∀ a ∈ d.attributes, a.type = h.names .noType → h.Known a.type)
    (hcall : c.CallsKnown h p) :
    sameOutcome.rel (fun c₁ c₁' => c₁' = c₁.mended h) (c.check h) ((c.mended h).check h') := by
  have pl : Context.Parallel (c.context h) ((c.mended h).context h') := ⟨sh, en.acyclic, rfl, rfl⟩
  have tr := transfers_mended (c := c) en en' sh hattr
  have hbody : ∀ f ∈ c.features, ∀ {inner inner' : Scope},
      ((c.context h).bodyScope (c.context h).classScope.push f).outcome = .ok inner →
      inner = inner' → sameOutcome.rel (Expr.Paired Eq Eq) (f.body.check (c.context h) inner.push)
        ((f.mended h).body.check ((c.mended h).context h') inner'.push) := by
    rintro f hf inner _ hinner rfl
    have hsame : (f.mended h).body = f.body := by cases f <;> rfl
    rw [hsame]
    exact sameOutcome_body_mended en en' sh hattr hcall hf hinner
  refine sameOutcome.mono (ClassDecl.rel_check (S := fun f₁ f₁' => f₁' = f₁.mended h) ?_) ?_
  · refine List.forall₂_map_right_iff.mpr (List.forall₂_same.mpr fun f hf => ?_)
    rw [pl.agree.classScope_eq]
    refine sameOutcome.mono (Context.rel_checkFeature tr.concord rfl (fun _ _ => trivial)
      (heads_mended pl _ f) (hbody f hf)) ?_
    rintro f₁ f₁' ⟨e, _, rfl, rfl, rfl⟩
    cases f <;> rfl
  · rintro c₁ c₁' ⟨hfs, hc₁, hc₁'⟩
    have hmap : c₁'.features = c₁.features.map (Feature.mended h) := by
      rw [← List.forall₂_eq_eq_eq, List.forall₂_map_right_iff]
      exact hfs.flip
    rw [hc₁', hmap, hc₁]
    rfl

end ClassDecl

namespace Program

variable {p : Program} {i : Interner}

theorem sameOutcome_checkAll_mended {h h' : Hierarchy} (en : h.Enrols p)
    (en' : h'.Enrols (p.mended h)) (sh : h.SameShape h')
    (hattr : ∀ c ∈ p.classes, ∀ a ∈ c.attributes, a.type = h.names .noType → h.Known a.type)
    (hcall : ∀ c ∈ p.classes, c.CallsKnown h p) :
    SameOutcome (fun cs cs' => cs' = cs.map (ClassDecl.mended h))
      (Report.all (p.classes.map (·.check h)))
      (Report.all ((p.mended h).classes.map (·.check h'))) := by
  have hcheck : ∀ c ∈ p.classes, sameOutcome.rel (fun c₁ c₁' => c₁' = c₁.mended h) (c.check h)
      ((c.mended h).check h') := fun c hc =>
    ClassDecl.sameOutcome_check_mended en en' sh hattr (hcall c hc)
  rw [mended, List.map_map]
  refine sameOutcome.mono (sameOutcome.all (List.forall₂_map_left_iff.mpr
    (List.forall₂_map_right_iff.mpr (List.forall₂_same.mpr hcheck)))) fun cs cs' hcs => ?_
  rw [← List.forall₂_eq_eq_eq, List.forall₂_map_right_iff]
  exact hcs.flip

theorem verdict_map_of_clean (hclean : (p.analyse i).registration.outlineFaults = []) {α : Type}
    {g : Program → α} :
    (p.analyse i).verdict.map (fun v => g v.program) =
      (Report.all (p.classes.map (·.check (p.analyse i).hierarchy))).outcome.map fun cs => g ⟨cs⟩ := by
  rw [analyse_verdict_eq, if_pos hclean]
  cases (Report.all (p.classes.map (·.check (p.analyse i).hierarchy))).outcome <;> rfl

/-- With `Object` for every undefined type of an attribute or a formal, the classes of a program are
checked to the same end: the same annotations, or the same break. This is so if `_no_type` is not the
type of an attribute, unless it is a class, and no call comes to a method with a formal of an undefined
type. -/
theorem analyse_mended (hclean : (p.analyse i).registration.outlineFaults = [])
    (hattr : ∀ c ∈ p.classes, ∀ a ∈ c.attributes, a.type = (p.analyse i).hierarchy.names .noType →
      (p.analyse i).hierarchy.Known a.type)
    (hcall : ∀ c ∈ p.classes, c.CallsKnown (p.analyse i).hierarchy p) :
    ((p.mended (p.analyse i).hierarchy).analyse i).registration.outlineFaults = [] ∧
      ((p.mended (p.analyse i).hierarchy).analyse i).verdict.map (·.program) =
        (p.analyse i).verdict.map (·.program.mended (p.analyse i).hierarchy) := by
  obtain ⟨hclean', sh⟩ := Hierarchy.outlineFaults_mended hclean
  have en : (p.analyse i).hierarchy.Enrols p := (Hierarchy.outline_clean hclean).2.1
  have en' : ((p.mended (p.analyse i).hierarchy).analyse i).hierarchy.Enrols
      (p.mended (p.analyse i).hierarchy) := (Hierarchy.outline_clean hclean').2.1
  refine ⟨hclean', ?_⟩
  have hout := (sameOutcome_checkAll_mended en en' sh hattr hcall).map_eq
    (fun cs => (Program.mk cs).mended (p.analyse i).hierarchy) Program.mk
    fun cs cs' hcs => congrArg Program.mk hcs
  calc ((p.mended (p.analyse i).hierarchy).analyse i).verdict.map (·.program)
    _ = _ := verdict_map_of_clean (g := id) hclean'
    _ = _ := hout
    _ = _ := (verdict_map_of_clean (g := mended (p.analyse i).hierarchy) hclean).symm

/-- A class `Main` under `IO` with the given features and a method `main` with the given body. -/
def ofMain (names : Vocabulary) (features : List Feature) (body : Expr) : Program :=
  ⟨[{ name := names .mainClass, parent := names .io, file := "main.cl", line := 1
      features := features ++ [.method ⟨names .mainMethod, [], names .object, body, 5⟩] }]⟩

def ownCall (names : Vocabulary) (method : Symbol) (args : List Expr) : Expr :=
  Expr.plain 5 (.dispatch (Expr.plain 5 (.identifier (names .self))) method args)

/-- A method `f(y : C) : Int { 1 }`, where there is no class `C`. -/
def missingFormal (names : Vocabulary) : Feature :=
  .method ⟨⟨26⟩, [⟨⟨27⟩, ⟨28⟩, 2⟩], names .int, Expr.plain 2 (.int 1), 2⟩

/-- The method is declared beside an attribute `x : C`, and `main` is `x <- (new D).f(1)`, where a class `D`
has a method `f(y : Int) : Int { 1 }` of its own. -/
def assignsMissing (names : Vocabulary) : Program :=
  let call := Expr.plain 5 (.dispatch (Expr.plain 5 (.new ⟨30⟩)) ⟨26⟩ [Expr.plain 5 (.int 1)])
  let main := ofMain names [missingFormal names, .attr ⟨⟨29⟩, ⟨28⟩, Expr.absent 3, 3⟩]
    (Expr.plain 5 (.assign ⟨29⟩ call))
  let own := .method ⟨⟨26⟩, [⟨⟨27⟩, names .int, 8⟩], names .int, Expr.plain 8 (.int 1), 8⟩
  ⟨main.classes ++ [⟨⟨30⟩, names .object, [own], "main.cl", 7⟩]⟩

theorem analyse_mended_assignsMissing :
    ((assignsMissing .initial).analyse .empty).registration.outlineFaults = [] ∧
      (((assignsMissing .initial).mended ((assignsMissing .initial).analyse .empty).hierarchy).analyse
          .empty).verdict.map (·.program) =
        ((assignsMissing .initial).analyse .empty).verdict.map
          (·.program.mended ((assignsMissing .initial).analyse .empty).hierarchy) :=
  ⟨by decide, (analyse_mended (by decide) (by decide) (List.forall_mem_cons.mpr
    ⟨Or.inl ⟨_, rfl, by decide⟩, List.forall_mem_singleton.mpr (Or.inl ⟨_, rfl, by decide⟩)⟩)).2⟩

/-- The program has classes to check, and annotations of its own that it has not with `Object` for what
is undefined. -/
def Retyped (p : Program) : Prop :=
  (p.analyse .empty).registration.outlineFaults = [] ∧
    ∃ v v', (p.analyse .empty).verdict = .ok v ∧
      ((p.mended (p.analyse .empty).hierarchy).analyse .empty).verdict = .ok v' ∧
      v.program.annotations ≠ v'.program.annotations

/-- The method is declared, and `main` is `f(1)`. -/
def callsMissing (names : Vocabulary) : Program :=
  ofMain names [missingFormal names] (ownCall names ⟨26⟩ [Expr.plain 5 (.int 1)])

/-- An attribute `x : _no_type` is declared, and `main` is `x`. -/
def readsNoType (names : Vocabulary) : Program :=
  ofMain names [.attr ⟨⟨29⟩, names .noType, Expr.absent 3, 3⟩] (Expr.plain 5 (.identifier ⟨29⟩))

/-- The call has type `Object`, since `Int` does not conform to `C`, and with `Object` for `C` it has
type `Int`. The attribute keeps the type `_no_type`. -/
theorem retyped_callsMissing_readsNoType :
    (callsMissing .initial).Retyped ∧ (readsNoType .initial).Retyped :=
  ⟨⟨by decide, _, _, rfl, rfl, by decide⟩, ⟨by decide, _, _, rfl, rfl, by decide⟩⟩

end Program
end CoolStatics
