import CoolStatics.Proofs.Comparison

/-!
Checking one expression in two contexts. A simulation relates the types that an expression has in one
context to those that it has in another one. What the rules ask of types in the first context must
hold of related types in the second. Then whatever is checked without a fault in the first is so in
the second, and its nodes have related types.
-/
namespace CoolStatics

open Report

/-- Types in the context `cx` are related to types in `cx'` in such a way that the rules of typing go
over from the one to the other. -/
structure Simulation (cx cx' : Context) (R : Symbol → Symbol → Prop) : Prop where
  names : cx'.names = cx.names
  has : ∀ t, cx'.hierarchy.has t = cx.hierarchy.has t
  refl : ∀ t, R t t
  int : ∀ {t}, R (cx.names .int) t → t = cx.names .int
  bool : ∀ {t}, R (cx.names .bool) t → t = cx.names .bool
  comparable : ∀ {s s' t t'}, R s s' → R t t' →
    (s = t ∨ cx.names.isPrimitive s = false ∧ cx.names.isPrimitive t = false) →
    s' = t' ∨ cx.names.isPrimitive s' = false ∧ cx.names.isPrimitive t' = false
  attr : ∀ {x t}, cx.hierarchy.findAttr? cx.current x = some t →
    cx'.hierarchy.findAttr? cx'.current x = some t
  conforms : ∀ {d t t'}, R t t' → cx.conforms d t = true → cx'.conforms d t' = true
  join : ∀ {s s' t t' j}, R s s' → R t t' → cx.hierarchy.join cx.current s t = .ok j →
    ∃ j', cx'.hierarchy.join cx'.current s' t' = .ok j' ∧ R j j'
  receiver : ∀ {t t'}, R t t' → cx.hierarchy.has (cx.hierarchy.denoted cx.current t) = true →
    cx'.hierarchy.has (cx'.hierarchy.denoted cx'.current t') = true
  method : ∀ {t t' m s}, R t t' →
    cx.hierarchy.findMethod? (cx.hierarchy.denoted cx.current t) m = some s →
    ∃ s', cx'.hierarchy.findMethod? (cx'.hierarchy.denoted cx'.current t') m = some s' ∧ s'.Alike s

namespace Simulation

variable {cx cx' : Context} {R : Symbol → Symbol → Prop} {scope : Scope} {line line' : Line}
  {name type method owner s s' t t' : Symbol} {args args' : List Symbol}

theorem isKnown_eq (sim : Simulation cx cx' R) (t : Symbol) : cx'.isKnown t = cx.isKnown t := by
  rw [Context.isKnown, Context.isKnown, sim.names, sim.has]

theorem taken_eq (sim : Simulation cx cx' R) (t : Symbol) : cx'.taken t = cx.taken t := by
  rw [Context.taken, Context.taken, sim.isKnown_eq, sim.names]

theorem objectType? (sim : Simulation cx cx' R) (ht : cx.objectType? scope name = some t) :
    cx'.objectType? scope name = some t := by
  rw [Context.objectType?, Scope.objectType?, Option.or_eq_some_iff] at ht ⊢
  rcases ht with ht | ⟨hn, ht⟩
  · exact Or.inl ht
  · exact Or.inr ⟨hn, sim.attr ht⟩

theorem identifierType (sim : Simulation cx cx' R) :
    Follows R (cx.identifierType scope line name) (cx'.identifierType scope line' name) := by
  intro a ha
  refine ⟨a, ?_, sim.refl a⟩
  rw [Context.gives_identifierType] at ha ⊢
  rcases ha with ha | ⟨hn, d, hd, ha⟩
  · exact Or.inl (by rwa [sim.names])
  · exact Or.inr ⟨by rwa [sim.names], d, sim.objectType? hd, by rwa [sim.taken_eq]⟩

theorem assignType (sim : Simulation cx cx' R) (ht : R t t') :
    Follows R (cx.assignType scope line name t) (cx'.assignType scope line' name t') := by
  intro a ha
  obtain ⟨hn, d, hd, hc, rfl⟩ := Context.gives_assignType.mp ha
  refine ⟨t', Context.gives_assignType.mpr ⟨by rwa [sim.names], d, sim.objectType? hd, ?_, rfl⟩, ht⟩
  rw [sim.taken_eq]
  exact sim.conforms ht hc

theorem accepts (sim : Simulation cx cx' R) {declared : List Symbol}
    (hargs : List.Forall₂ R args args') (ha : cx.Accepts declared args) :
    cx'.Accepts declared args' := by
  induction ha generalizing args' with
  | nil =>
    cases hargs
    exact .nil
  | cons hc _ ih =>
    cases hargs with
    | cons h hs => exact .cons (sim.conforms h hc) (ih hs)

theorem returns (sim : Simulation cx cx' R) {result : Symbol} (hs : R s s')
    (hr : cx.Returns s result t) : ∃ t', cx'.Returns s' result t' ∧ R t t' := by
  rcases hr with ⟨hself, rfl⟩ | ⟨hself, hhas, rfl⟩
  · exact ⟨s', Or.inl ⟨by rwa [sim.names], rfl⟩, hs⟩
  · exact ⟨result, Or.inr ⟨by rwa [sim.names], by rwa [sim.has], rfl⟩, sim.refl _⟩

theorem dispatchType (sim : Simulation cx cx' R) (hs : R s s') (hargs : List.Forall₂ R args args') :
    Follows R (cx.dispatchType line method s args) (cx'.dispatchType line' method s' args') := by
  intro a ha
  obtain ⟨hhas, sig, hsig, hacc, hret⟩ := Context.gives_dispatchType.mp ha
  obtain ⟨sig', hsig', htypes, hresult⟩ := sim.method hs hsig
  obtain ⟨a', hret', haa'⟩ := sim.returns hs hret
  refine ⟨a', Context.gives_dispatchType.mpr ⟨sim.receiver hs hhas, sig', hsig', ?_, ?_⟩, haa'⟩
  · rw [htypes]
    exact sim.accepts hargs hacc
  · rwa [hresult]

theorem staticDispatchType (sim : Simulation cx cx' R) (hs : R s s')
    (hargs : List.Forall₂ R args args') :
    Follows R (cx.staticDispatchType line owner method s args)
      (cx'.staticDispatchType line' owner method s' args') := by
  intro a ha
  obtain ⟨hself, hhas, hc, sig, hsig, hacc, hret⟩ := Context.gives_staticDispatchType.mp ha
  have hown : ∀ c : Context, c.names = cx.names → c.hierarchy.denoted c.current owner = owner :=
    fun c hc => if_neg (by rwa [← hc] at hself)
  rw [← hown cx rfl] at hsig
  obtain ⟨sig', hsig', htypes, hresult⟩ := sim.method (sim.refl owner) hsig
  rw [hown cx' sim.names] at hsig'
  obtain ⟨a', hret', haa'⟩ := sim.returns hs hret
  refine ⟨a', Context.gives_staticDispatchType.mpr ⟨by rwa [sim.names], by rwa [sim.has],
    sim.conforms hs hc, sig', hsig', ?_, ?_⟩, haa'⟩
  · rw [htypes]
    exact sim.accepts hargs hacc
  · rwa [hresult]

theorem join_follows (sim : Simulation cx cx' R) (hs : R s s') (ht : R t t') :
    Follows R (cx.join s t) (cx'.join s' t') := by
  intro j hj
  obtain ⟨j', hj', hjj'⟩ := sim.join hs ht (Context.gives_join.mp hj)
  exact ⟨j', Context.gives_join.mpr hj', hjj'⟩

theorem checkPredicate (sim : Simulation cx cx' R) {of : Guarded} (ht : R t t') :
    Follows (fun _ _ => True) (cx.checkPredicate of line t) (cx'.checkPredicate of line' t') := by
  intro a ha
  rw [Context.gives_checkPredicate] at ha
  rw [ha] at ht
  exact ⟨(), Context.gives_checkPredicate.mpr (by rw [sim.bool ht, sim.names]), trivial⟩

theorem arithType (sim : Simulation cx cx' R) {op : ArithOp} (hs : R s s') (ht : R t t') :
    Follows R (cx.arithType op line s t) (cx'.arithType op line' s' t') := by
  intro a ha
  obtain ⟨⟨rfl, rfl⟩, rfl⟩ := Context.gives_arithType.mp ha
  refine ⟨_, Context.gives_arithType.mpr ?_, sim.refl _⟩
  rw [sim.int hs, sim.int ht, sim.names]
  exact ⟨⟨rfl, rfl⟩, rfl⟩

theorem compareType (sim : Simulation cx cx' R) {op : CompareOp} (hs : R s s') (ht : R t t') :
    Follows R (cx.compareType op line s t) (cx'.compareType op line' s' t') := by
  intro a ha
  obtain ⟨⟨rfl, rfl⟩, rfl⟩ := Context.gives_compareType.mp ha
  refine ⟨_, Context.gives_compareType.mpr ?_, sim.refl _⟩
  rw [sim.int hs, sim.int ht, sim.names]
  exact ⟨⟨rfl, rfl⟩, rfl⟩

theorem eqType (sim : Simulation cx cx' R) (hs : R s s') (ht : R t t') :
    Follows R (cx.eqType line s t) (cx'.eqType line' s' t') := by
  intro a ha
  obtain ⟨hst, rfl⟩ := Context.gives_eqType.mp ha
  refine ⟨_, Context.gives_eqType.mpr ?_, sim.refl _⟩
  rw [sim.names]
  exact ⟨sim.comparable hs ht hst, rfl⟩

theorem negType (sim : Simulation cx cx' R) (ht : R t t') :
    Follows R (cx.negType line t) (cx'.negType line' t') := by
  intro a ha
  obtain ⟨rfl, rfl⟩ := Context.gives_negType.mp ha
  exact ⟨_, Context.gives_negType.mpr (by rw [sim.int ht, sim.names]; exact ⟨rfl, rfl⟩), sim.refl _⟩

theorem notType (sim : Simulation cx cx' R) (ht : R t t') :
    Follows R (cx.notType line t) (cx'.notType line' t') := by
  intro a ha
  obtain ⟨rfl, rfl⟩ := Context.gives_notType.mp ha
  exact ⟨_, Context.gives_notType.mpr (by rw [sim.bool ht, sim.names]; exact ⟨rfl, rfl⟩), sim.refl _⟩

theorem require_conforms (sim : Simulation cx cx' R) {cause cause' : Cause} (ht : R t t') :
    Follows (fun _ _ => True) (cx.require (cx.conforms type t) line cause)
      (cx'.require (cx'.conforms type t') line' cause') := by
  intro a ha
  rw [Context.gives_require] at ha
  exact ⟨(), Context.gives_require.mpr (sim.conforms ht ha), trivial⟩

theorem transfers (sim : Simulation cx cx' R) :
    Context.Transfers following cx cx' R fun _ _ => True where
  names := sim.names
  isKnown := sim.isKnown_eq
  refl := sim.refl
  require _ hg := ⟨(), Context.gives_require.mpr (Context.gives_require.mp hg), trivial⟩
  identifier := sim.identifierType
  assign := sim.assignType
  dispatch _ := sim.dispatchType
  staticDispatch _ := sim.staticDispatchType
  join := sim.join_follows
  predicate := sim.checkPredicate
  fits _ := sim.require_conforms
  arith := sim.arithType
  compare := sim.compareType
  eq := sim.eqType
  neg := sim.negType
  not := sim.notType

end Simulation

/-- Under a simulation every expression is checked in the second context as in the first. -/
theorem Expr.simulated {cx cx' : Context} {R : Symbol → Symbol → Prop} {P : Expr → Expr → Prop}
    (sim : Simulation cx cx' R) (hP : Congruent R P) (e : Expr) (scope : Scope) :
    Follows (Paired R P) (e.check cx scope) (e.check cx' scope) :=
  rel_check sim.transfers hP e (fun _ _ _ _ _ => trivial) scope

namespace Simulation

variable {cx cx' : Context} {R : Symbol → Symbol → Prop} {P : Expr → Expr → Prop}

theorem classScope_eq (sim : Simulation cx cx' R) : cx'.classScope = cx.classScope := by
  rw [Context.classScope, Context.classScope, sim.names]

theorem bindFormals (sim : Simulation cx cx' R) (scope : Scope) (fs : List Formal) :
    Follows Eq (cx.bindFormals scope fs) (cx'.bindFormals scope fs) := by
  induction fs generalizing scope with
  | nil => exact following.pure rfl
  | cons f fs ih =>
    rw [Context.bindFormals, Context.bindFormals, sim.names]
    split_ifs with hself
    · intro inner hi
      obtain ⟨_, hnote, -⟩ := gives_bind.mp hi
      exact absurd hnote Context.not_gives_note
    · refine following.bind sim.transfers.require fun _ _ _ => ?_
      refine following.bind (S := Eq) (fun t ht => ⟨t, ?_, rfl⟩) fun t _ heq => ?_
      · rw [Context.gives_expect] at ht ⊢
        rwa [sim.has]
      · rw [← heq]
        exact ih _

/-- A method goes over to the second context if it does not depart from what is inherited there. -/
theorem checkMethod (sim : Simulation cx cx' R) (hP : Expr.Congruent R P) {scope : Scope}
    {m m₁ : Method} (hm : (cx.checkMethod scope m).Gives m₁)
    (hinh : ∀ s, cx'.hierarchy.inheritedMethod? cx'.current m.name = some s →
      m.formals.map (·.type) = s.types ∧ m.result = s.result) :
    ∃ m₂, (cx'.checkMethod scope m).Gives m₂ ∧ P m₁.body m₂.body ∧
      { m₁ with body := m₂.body } = m₂ := by
  obtain ⟨-, hk, inner, hi, t, body, ht, hc, rfl⟩ := Context.gives_checkMethod.mp hm
  obtain ⟨_, hi', rfl⟩ := sim.bindFormals _ _ _ hi
  obtain ⟨⟨t', body'⟩, ht', hr⟩ := Expr.simulated sim hP m.body _ _ ht
  refine ⟨{ m with body := body' }, ?_, hr.2, rfl⟩
  rw [← sim.isKnown_eq] at hk
  exact Context.gives_checkMethod.mpr
    ⟨hinh, hk, inner, hi', t', body', ht', sim.conforms hr.1 hc, rfl⟩

theorem checkAttr (sim : Simulation cx cx' R) (hP : Expr.Congruent R P) {scope : Scope}
    {a a₁ : Attribute} (ha : (cx.checkAttr scope a).Gives a₁)
    (hinh : cx.hierarchy.inheritedAttr? cx.current a.name = none →
      cx'.hierarchy.inheritedAttr? cx'.current a.name = none) :
    ∃ a₂, (cx'.checkAttr scope a).Gives a₂ ∧ P a₁.init a₂.init ∧
      { a₁ with init := a₂.init } = a₂ := by
  obtain ⟨hname, hk, t, init, ht, hc, rfl⟩ := Context.gives_checkAttr.mp ha
  obtain ⟨⟨t', init'⟩, ht', hr⟩ := Expr.simulated sim hP a.init _ _ ht
  refine ⟨{ a with init := init' }, ?_, hr.2, rfl⟩
  rw [← sim.isKnown_eq] at hk
  rw [← sim.names] at hname
  exact Context.gives_checkAttr.mpr
    ⟨hname.imp id hinh, hk, t', init', ht', sim.conforms hr.1 hc, rfl⟩

end Simulation

/-- Nodes of one line and one kind with related types. -/
def Expr.TypesRel (R : Symbol → Symbol → Prop) (x y : Expr) : Prop :=
  y.line = x.line ∧ y.kind = x.kind ∧ ∃ t t', x.type? = some t ∧ y.type? = some t' ∧ R t t'

theorem Expr.congruent_walk (R : Symbol → Symbol → Prop) :
    Expr.Congruent R fun e e' => List.Forall₂ (TypesRel R) e.walk e'.walk := by
  intro line t t' f f' ht hf
  rw [walk_eq, walk_eq]
  refine .cons ⟨rfl, hf.kind_eq.symm, t, t', rfl, rfl, ht⟩ ?_
  exact List.rel_flatMap hf.children fun _ _ hw => hw

theorem Simulation.checkFeature_eq {cx cx' : Context} (sim : Simulation cx cx' Eq)
    (hmethod : ∀ {n s'}, cx'.hierarchy.inheritedMethod? cx'.current n = some s' →
      ∃ s, cx.hierarchy.inheritedMethod? cx.current n = some s ∧ s'.Alike s)
    (hattr : ∀ {x}, cx.hierarchy.inheritedAttr? cx.current x = none →
      cx'.hierarchy.inheritedAttr? cx'.current x = none)
    {f f₁ : Feature} (hf : (cx.checkFeature cx.classScope.push f).Gives f₁) :
    (cx'.checkFeature cx'.classScope.push f).Gives f₁ := by
  rw [sim.classScope_eq]
  cases f with
  | method m =>
    obtain ⟨m₁, hm, hpure⟩ := gives_bind.mp hf
    have hinh : ∀ s', cx'.hierarchy.inheritedMethod? cx'.current m.name = some s' →
        m.formals.map (·.type) = s'.types ∧ m.result = s'.result := by
      intro s' hs'
      obtain ⟨s, hs, htypes, hresult⟩ := hmethod hs'
      rw [htypes, hresult]
      exact (Context.gives_checkMethod.mp hm).1 s hs
    obtain ⟨m₂, hm₂, hbody, heq⟩ := sim.checkMethod Expr.congruent_eq hm hinh
    rw [← hbody] at heq
    exact gives_bind.mpr ⟨m₂, hm₂, heq ▸ hpure⟩
  | attr a =>
    obtain ⟨a₁, ha, hpure⟩ := gives_bind.mp hf
    obtain ⟨a₂, ha₂, hinit, heq⟩ := sim.checkAttr Expr.congruent_eq ha hattr
    rw [← hinit] at heq
    exact gives_bind.mpr ⟨a₂, ha₂, heq ▸ hpure⟩

end CoolStatics
