import CoolStatics.Proofs.Comparison

/-!
Checking with one stack of scopes. Here a checker has a single scope and one list of faults: it pushes a
level before it binds variables, pops it afterwards, and adds whatever it notes to the list. It comes to
the same end as the check that is given its scope, leaves the stack as it was, and of that stack nothing
counts but what names mean in it.
-/
namespace CoolStatics

open Report

/-- A checker: its scope, the faults noted so far, and all the scopes that it has had, the last one in
front. -/
structure Checker where
  scope : Scope
  noted : List Fault
  past : List Scope

def Checker.start (scope : Scope) (noted : List Fault) : Checker := ⟨scope, noted, [scope]⟩

/-- What a checker does; it breaks off where a join does. -/
abbrev Checking := ExceptT NoCommonAncestor (StateM Checker)

namespace Checking

variable {α β : Type}

/-- The end that is come to from the given checker, and what becomes of that. -/
def runFrom (w : Checking α) (k : Checker) : Except NoCommonAncestor α × Checker := w.run.run k

def rescope (f : Scope → Scope) : Checking Unit :=
  modify fun k => { k with scope := f k.scope, past := f k.scope :: k.past }

def push : Checking Unit := rescope Scope.push

/-- Does nothing at the outermost level. -/
def pop : Checking Unit := rescope fun s => s.pop?.getD s

def define (name type : Symbol) : Checking Unit := rescope (·.define name type)

/-- Asks a rule about the current scope, and notes what the rule does. -/
def ask (rule : Scope → Report α) : Checking α :=
  ExceptT.mk fun k => ((rule k.scope).outcome, { k with noted := k.noted ++ (rule k.scope).faults })

def tell (r : Report α) : Checking α := ask fun _ => r

end Checking

open Checking

def Context.bindVariable (cx : Context) (name type : Symbol) : Checking Unit :=
  if name = cx.names .self then pure () else define name type

namespace Expr

mutual

def checkInPlace (cx : Context) : Expr → Checking (Symbol × Expr)
  | node line _ form =>
    match form with
    | .assign name value => do
      let (t, value) ← value.checkInPlace cx
      let type ← ask (cx.assignType · line name t)
      pure (typed line type (.assign name value))
    | .dispatch receiver method args => do
      let (r, receiver) ← receiver.checkInPlace cx
      let args ← checkListInPlace cx args
      let type ← tell (cx.dispatchType line method r (args.map (·.1)))
      pure (typed line type (.dispatch receiver method (args.map (·.2))))
    | .staticDispatch receiver owner method args => do
      let (r, receiver) ← receiver.checkInPlace cx
      let args ← checkListInPlace cx args
      let type ← tell (cx.staticDispatchType line owner method r (args.map (·.1)))
      pure (typed line type (.staticDispatch receiver owner method (args.map (·.2))))
    | .cond pred yes no => do
      let (p, pred) ← pred.checkInPlace cx
      tell (cx.checkPredicate .cond pred.line p)
      let (y, yes) ← yes.checkInPlace cx
      let (n, no) ← no.checkInPlace cx
      let type ← tell (cx.join y n)
      pure (typed line type (.cond pred yes no))
    | .loop pred body => do
      let (p, pred) ← pred.checkInPlace cx
      tell (cx.checkPredicate .loop pred.line p)
      let (_, body) ← body.checkInPlace cx
      pure (typed line (cx.names .object) (.loop pred body))
    | .case scrutinee branches => do
      let (_, scrutinee) ← scrutinee.checkInPlace cx
      let (type, branches) ← checkBranchesInPlace cx [] (cx.names .noType) branches
      pure (typed line type (.case scrutinee branches))
    | .block body => do
      let body ← checkListInPlace cx body
      let type := (body.getLast?.map (·.1)).getD (cx.names .noType)
      pure (typed line type (.block (body.map (·.2))))
    | .letIn name type init body => do
      let declared ← tell (cx.letType line name type)
      let (i, init) ← init.checkInPlace cx
      tell (cx.require (cx.conforms declared i) line (.letInit name declared i))
      push
      cx.bindVariable name declared
      let (b, body) ← body.checkInPlace cx
      pop
      pure (typed line b (.letIn name type init body))
    | .arith op lhs rhs => do
      let (l, lhs) ← lhs.checkInPlace cx
      let (r, rhs) ← rhs.checkInPlace cx
      let type ← tell (cx.arithType op line l r)
      pure (typed line type (.arith op lhs rhs))
    | .compare op lhs rhs => do
      let (l, lhs) ← lhs.checkInPlace cx
      let (r, rhs) ← rhs.checkInPlace cx
      let type ← tell (cx.compareType op line l r)
      pure (typed line type (.compare op lhs rhs))
    | .eq lhs rhs => do
      let (l, lhs) ← lhs.checkInPlace cx
      let (r, rhs) ← rhs.checkInPlace cx
      let type ← tell (cx.eqType line l r)
      pure (typed line type (.eq lhs rhs))
    | .neg operand => do
      let (o, operand) ← operand.checkInPlace cx
      let type ← tell (cx.negType line o)
      pure (typed line type (.neg operand))
    | .not operand => do
      let (o, operand) ← operand.checkInPlace cx
      let type ← tell (cx.notType line o)
      pure (typed line type (.not operand))
    | .isVoid operand => do
      let (_, operand) ← operand.checkInPlace cx
      pure (typed line (cx.names .bool) (.isVoid operand))
    | .int value => pure (typed line (cx.names .int) (.int value))
    | .string value => pure (typed line (cx.names .string) (.string value))
    | .bool value => pure (typed line (cx.names .bool) (.bool value))
    | .new type => do
      let t ← tell (cx.newType line type)
      pure (typed line t (.new type))
    | .identifier name => do
      let t ← ask (cx.identifierType · line name)
      pure (typed line t (.identifier name))
    | .absent => pure (typed line (cx.names .noType) .absent)

def checkListInPlace (cx : Context) : List Expr → Checking (List (Symbol × Expr))
  | [] => pure []
  | e :: rest => do
    let checked ← e.checkInPlace cx
    let others ← checkListInPlace cx rest
    pure (checked :: others)

def checkBranchesInPlace (cx : Context) (before : List Symbol) (soFar : Symbol) :
    List (Branch Expr) → Checking (Symbol × List (Branch Expr))
  | [] => pure (soFar, [])
  | ⟨name, type, body, line⟩ :: rest => do
    tell (cx.require (!before.contains type) line (.duplicateBranch type))
    tell (cx.require (cx.isKnown type) line (.undefinedBranchType type))
    push
    tell (cx.require (name ≠ cx.names .self) line .selfBranch)
    cx.bindVariable name (if cx.isKnown type then type else cx.names .object)
    let (b, body) ← body.checkInPlace cx
    pop
    let joined ← tell (cx.join soFar (cx.branchType type b))
    let (all, others) ← checkBranchesInPlace cx (type :: before) joined rest
    pure (all, ⟨name, type, body, line⟩ :: others)

end

end Expr

namespace Context

variable (cx : Context)

def bindFormalsInPlace : List Formal → Checking Unit
  | [] => pure ()
  | f :: rest =>
    if f.name = cx.names .self then do
      tell (cx.note f.line .selfFormal)
      bindFormalsInPlace rest
    else do
      ask fun scope => cx.require (scope.probe f.name).isNone f.line (.duplicateFormal f.name)
      let type ← tell (cx.expect (f.type ≠ cx.names .selfType && cx.hierarchy.has f.type) f.line
        (.invalidFormalType f.name f.type) f.type)
      define f.name type
      bindFormalsInPlace rest

def checkMethodInPlace (m : Method) : Checking Method := do
  tell (cx.checkOverride m)
  let declared ← tell (cx.expect (cx.isKnown m.result) m.line (.undefinedResult m.name m.result) m.result)
  push
  cx.bindFormalsInPlace m.formals
  push
  let (b, body) ← m.body.checkInPlace cx
  pop
  pop
  tell (cx.require (cx.conforms declared b) m.line (.methodResult m.name declared b))
  pure { m with body }

def checkAttrInPlace (a : Attribute) : Checking Attribute := do
  tell (cx.require (a.name = cx.names .self || (cx.hierarchy.inheritedAttr? cx.current a.name).isNone)
    a.line (.attributeInherited a.name))
  let declared ← tell
    (cx.expect (cx.isKnown a.type) a.line (.undefinedAttributeType a.name a.type) a.type)
  push
  let (i, init) ← a.init.checkInPlace cx
  pop
  tell (cx.require (cx.conforms declared i) a.line (.attributeInit a.name declared i))
  pure { a with init }

def checkFeatureInPlace : Feature → Checking Feature
  | .method m => return .method (← cx.checkMethodInPlace m)
  | .attr a => return .attr (← cx.checkAttrInPlace a)

def checkFeaturesInPlace : List Feature → Checking (List Feature)
  | [] => pure []
  | f :: rest => do
    push
    let checked ← cx.checkFeatureInPlace f
    pop
    let others ← checkFeaturesInPlace rest
    pure (checked :: others)

end Context

namespace ClassDecl

def checkInPlace (h : Hierarchy) (c : ClassDecl) : Checking ClassDecl := do
  let features ← (c.context h).checkFeaturesInPlace c.features
  pure { c with features }

def checker (h : Hierarchy) (c : ClassDecl) (noted : List Fault) : Checker :=
  .start (c.context h).classScope noted

end ClassDecl

/-! Both ways of checking. -/

namespace Checking

variable {α β γ δ : Type} {x : Symbol} {T : Option Symbol} {s : Scope}

/-- From the scope `s` the checker comes to the end of the report, with a value and a scope of which
`post` holds, and notes the faults of the report after those it had. In every scope on the way `x` has
the meaning `T`. -/
structure Tracks (x : Symbol) (T : Option Symbol) (s : Scope) (w : Checking α) (r : Report β)
    (post : α → β → Scope → Prop) : Prop where
  noted : ∀ fs past, (w.runFrom ⟨s, fs, past⟩).2.noted = fs ++ r.faults
  past : ∀ fs past, ∀ s' ∈ (w.runFrom ⟨s, fs, past⟩).2.past, s' ∈ past ∨ s'.lookup x = T
  ok : ∀ fs past b, r.outcome = .ok b →
    ∃ a, (w.runFrom ⟨s, fs, past⟩).1 = .ok a ∧ post a b (w.runFrom ⟨s, fs, past⟩).2.scope
  error : ∀ fs past e, r.outcome = .error e → (w.runFrom ⟨s, fs, past⟩).1 = .error e

/-- The same value in the same scope. -/
def Unmoved (s : Scope) (a b : α) (s' : Scope) : Prop := a = b ∧ s' = s

theorem tracks_pure {post : α → β → Scope → Prop} {a : α} {b : β} (hpost : post a b s) :
    Tracks x T s (pure a) (pure b) post where
  noted fs _ := (List.append_nil fs).symm
  past _ _ _ hs' := Or.inl hs'
  ok _ _ b' hb := ⟨a, rfl, Except.ok.inj hb ▸ hpost⟩
  error _ _ e he := by cases he

theorem runFrom_bind_ok {w : Checking α} {k k' : Checker} {a : α} (hw : w.runFrom k = (.ok a, k'))
    (f : α → Checking β) : (w >>= f).runFrom k = (f a).runFrom k' := by
  have hrun : w.run.run k = (.ok a, k') := hw
  rw [runFrom, ExceptT.run_bind, StateT.run_bind, hrun]
  rfl

theorem runFrom_bind_error {w : Checking α} {k k' : Checker} {e : NoCommonAncestor}
    (hw : w.runFrom k = (.error e, k')) (f : α → Checking β) : (w >>= f).runFrom k = (.error e, k') := by
  have hrun : w.run.run k = (.error e, k') := hw
  rw [runFrom, ExceptT.run_bind, StateT.run_bind, hrun]
  rfl

theorem Tracks.bind {post : α → β → Scope → Prop} {post' : γ → δ → Scope → Prop} {w : Checking α}
    {r : Report β} {f : α → Checking γ} {g : β → Report δ} (hw : Tracks x T s w r post)
    (hf : ∀ a b s', post a b s' → Tracks x T s' (f a) (g b) post') :
    Tracks x T s (w >>= f) (r >>= g) post' := by
  obtain ⟨gs, y⟩ := r
  cases y with
  | error e =>
    have hrun : ∀ fs past, (w >>= f).runFrom ⟨s, fs, past⟩ =
        (.error e, (w.runFrom ⟨s, fs, past⟩).2) := fun fs past =>
      runFrom_bind_error (Prod.ext (hw.error fs past e rfl) rfl) f
    constructor
    · intro fs past
      rw [hrun]
      exact hw.noted fs past
    · intro fs past
      rw [hrun]
      exact hw.past fs past
    · intro fs past d hd
      cases hd
    · intro fs past e' he
      rw [hrun, ← Except.error.inj he]
  | ok b =>
    have hrun : ∀ fs past, ∃ a s' past', post a b s' ∧ (∀ s₁ ∈ past', s₁ ∈ past ∨ s₁.lookup x = T) ∧
        (w >>= f).runFrom ⟨s, fs, past⟩ = (f a).runFrom ⟨s', fs ++ gs, past'⟩ := by
      intro fs past
      obtain ⟨a, ha, hpost⟩ := hw.ok fs past b rfl
      have hk : w.runFrom ⟨s, fs, past⟩ = (.ok a, ⟨(w.runFrom ⟨s, fs, past⟩).2.scope, fs ++ gs,
          (w.runFrom ⟨s, fs, past⟩).2.past⟩) := by
        rw [← hw.noted fs past, ← ha]
      exact ⟨a, _, _, hpost, hw.past fs past, runFrom_bind_ok hk f⟩
    constructor
    · intro fs past
      obtain ⟨a, s', past', hpost, -, hrun⟩ := hrun fs past
      rw [hrun, (hf a b s' hpost).noted, mk_ok_bind, List.append_assoc]
    · intro fs past s₁ hs₁
      obtain ⟨a, s', past', hpost, hpast, hrun⟩ := hrun fs past
      rw [hrun] at hs₁
      rcases (hf a b s' hpost).past _ _ s₁ hs₁ with hs₁ | hs₁
      · exact hpast s₁ hs₁
      · exact Or.inr hs₁
    · intro fs past d hd
      obtain ⟨a, s', past', hpost, -, hrun⟩ := hrun fs past
      rw [hrun]
      exact (hf a b s' hpost).ok _ _ d hd
    · intro fs past e he
      obtain ⟨a, s', past', hpost, -, hrun⟩ := hrun fs past
      rw [hrun]
      exact (hf a b s' hpost).error _ _ e he

theorem Tracks.step {post : β → γ → Scope → Prop} {w : Checking α} {r : Report α} {f : α → Checking β}
    {g : α → Report γ} (hw : Tracks x T s w r (Unmoved s)) (hf : ∀ a, Tracks x T s (f a) (g a) post) :
    Tracks x T s (w >>= f) (r >>= g) post := by
  refine hw.bind ?_
  rintro a _ _ ⟨rfl, rfl⟩
  exact hf a

theorem tracks_ask (rule : Scope → Report α) : Tracks x T s (ask rule) (rule s) (Unmoved s) where
  noted _ _ := rfl
  past _ _ _ hs' := Or.inl hs'
  ok _ _ b hb := ⟨b, hb, rfl, rfl⟩
  error _ _ _ he := he

theorem tracks_tell (r : Report α) : Tracks x T s (tell r) r (Unmoved s) := tracks_ask fun _ => r

theorem tracks_rescope {f : Scope → Scope} {w : Unit → Checking α} {r : Report β}
    {post : α → β → Scope → Prop} (hx : (f s).lookup x = T) (hw : Tracks x T (f s) (w ()) r post) :
    Tracks x T s (rescope f >>= w) r post where
  noted fs past := hw.noted fs (f s :: past)
  past fs past s' hs' := by
    rcases hw.past fs (f s :: past) s' hs' with hs' | hs'
    · rcases List.mem_cons.mp hs' with rfl | hs'
      · exact Or.inr hx
      · exact Or.inl hs'
    · exact Or.inr hs'
  ok fs past := hw.ok fs (f s :: past)
  error fs past := hw.error fs (f s :: past)

theorem tracks_pop {s' : Scope} {w : Unit → Checking α} {r : Report β} {post : α → β → Scope → Prop}
    (hpop : s.pop? = some s') (hx : s'.lookup x = T) (hw : Tracks x T s' (w ()) r post) :
    Tracks x T s (pop >>= w) r post := by
  have hs' : s.pop?.getD s = s' := by rw [hpop, Option.getD_some]
  refine tracks_rescope ?_ ?_
  · rwa [hs']
  · rwa [hs']

end Checking

namespace Context

variable {cx : Context} {T : Option Symbol} {s : Scope} {α β : Type}

theorem lookup_extend_self (name type : Symbol) :
    (cx.extend s name type).lookup (cx.names .self) = s.lookup (cx.names .self) := by
  rw [extend]
  split_ifs with hname
  · rfl
  · rw [Scope.lookup_define, if_neg (Ne.symm hname), Scope.lookup_push]

theorem pop?_extend (name type : Symbol) : (cx.extend s name type).pop? = some s := by
  rw [extend]
  split_ifs <;> rfl

/-- A variable is bound in a level of its own, for as long as `w` takes. -/
theorem tracks_bindVariable {name type : Symbol} {w : Unit → Checking α} {r : Report β}
    {post : α → β → Scope → Prop} (hs : s.lookup (cx.names .self) = T)
    (hw : Tracks (cx.names .self) T (cx.extend s name type) (w ()) r post) :
    Tracks (cx.names .self) T s.push (cx.bindVariable name type >>= w) r post := by
  have hlookup := cx.lookup_extend_self (s := s) name type
  rw [bindVariable]
  rw [extend] at hw hlookup
  split_ifs at hw hlookup ⊢ with hname
  · rwa [pure_bind]
  · exact tracks_rescope (hlookup.trans hs) hw

end Context

namespace Expr

variable {cx : Context} {T : Option Symbol}

/-- Checked in place, the expression comes to the same end as in the scope that the checker has. -/
def InPlace (cx : Context) (T : Option Symbol) (e : Expr) : Prop :=
  ∀ s : Scope, s.lookup (cx.names .self) = T →
    Tracks (cx.names .self) T s (e.checkInPlace cx) (e.check cx s) (Unmoved s)

theorem tracks_checkListInPlace {es : List Expr} (hes : ∀ e ∈ es, e.InPlace cx T) {s : Scope}
    (hs : s.lookup (cx.names .self) = T) :
    Tracks (cx.names .self) T s (checkListInPlace cx es) (checkList cx s es) (Unmoved s) := by
  induction es with
  | nil => exact tracks_pure ⟨rfl, rfl⟩
  | cons e es ih =>
    rw [List.forall_mem_cons] at hes
    rw [checkListInPlace, checkList]
    exact (hes.1 s hs).step fun r => (ih hes.2).step fun rs => tracks_pure ⟨rfl, rfl⟩

theorem tracks_checkBranchesInPlace {bs : List (Branch Expr)} (hbs : ∀ b ∈ bs, b.body.InPlace cx T)
    {s : Scope} (hs : s.lookup (cx.names .self) = T) (before : List Symbol) (soFar : Symbol) :
    Tracks (cx.names .self) T s (checkBranchesInPlace cx before soFar bs)
      (checkBranches cx s before soFar bs) (Unmoved s) := by
  induction bs generalizing before soFar with
  | nil => exact tracks_pure ⟨rfl, rfl⟩
  | cons b bs ih =>
    obtain ⟨name, type, body, line⟩ := b
    rw [List.forall_mem_cons] at hbs
    rw [checkBranchesInPlace, checkBranches, Context.branchScope]
    simp only [bind_assoc, pure_bind]
    refine (tracks_tell _).step fun _ => (tracks_tell _).step fun _ => ?_
    refine tracks_rescope hs ?_
    refine (tracks_tell _).step fun _ => Context.tracks_bindVariable hs ?_
    refine (hbs.1 _ ((cx.lookup_extend_self _ _).trans hs)).step fun r => ?_
    refine tracks_pop (cx.pop?_extend _ _) hs ?_
    refine (tracks_tell _).step fun j => (ih hbs.2 _ _).step fun q => ?_
    exact tracks_pure ⟨rfl, rfl⟩

/-- One level is pushed and popped for each variable that is bound, so no node leaves the scope changed. -/
theorem inPlace (e : Expr) : e.InPlace cx T := by
  induction e with
  | assign line type? name value ih =>
    intro s hs
    rw [checkInPlace, check]
    exact (ih s hs).step fun r => (tracks_ask _).step fun t => tracks_pure ⟨rfl, rfl⟩
  | dispatch line type? receiver method args ihr iha =>
    intro s hs
    rw [checkInPlace, check]
    refine (ihr s hs).step fun r => (tracks_checkListInPlace iha hs).step fun rs => ?_
    exact (tracks_tell _).step fun t => tracks_pure ⟨rfl, rfl⟩
  | staticDispatch line type? receiver owner method args ihr iha =>
    intro s hs
    rw [checkInPlace, check]
    refine (ihr s hs).step fun r => (tracks_checkListInPlace iha hs).step fun rs => ?_
    exact (tracks_tell _).step fun t => tracks_pure ⟨rfl, rfl⟩
  | cond line type? pred yes no ihp ihy ihn =>
    intro s hs
    rw [checkInPlace, check]
    refine (ihp s hs).step fun p => (tracks_tell _).step fun _ => ?_
    refine (ihy s hs).step fun y => (ihn s hs).step fun n => ?_
    exact (tracks_tell _).step fun t => tracks_pure ⟨rfl, rfl⟩
  | loop line type? pred body ihp ihb =>
    intro s hs
    rw [checkInPlace, check]
    refine (ihp s hs).step fun p => (tracks_tell _).step fun _ => ?_
    exact (ihb s hs).step fun b => tracks_pure ⟨rfl, rfl⟩
  | case line type? scrutinee branches ihs ihb =>
    intro s hs
    rw [checkInPlace, check]
    refine (ihs s hs).step fun r => (tracks_checkBranchesInPlace ihb hs _ _).step fun q => ?_
    exact tracks_pure ⟨rfl, rfl⟩
  | block line type? body ih =>
    intro s hs
    rw [checkInPlace, check]
    exact (tracks_checkListInPlace ih hs).step fun rs => tracks_pure ⟨rfl, rfl⟩
  | letIn line type? name type init body ihi ihb =>
    intro s hs
    rw [checkInPlace, check]
    refine (tracks_tell _).step fun declared => (ihi s hs).step fun i => ?_
    refine (tracks_tell _).step fun _ => tracks_rescope hs ?_
    refine Context.tracks_bindVariable hs ?_
    refine (ihb _ ((cx.lookup_extend_self _ _).trans hs)).step fun b => ?_
    exact tracks_pop (cx.pop?_extend _ _) hs (tracks_pure ⟨rfl, rfl⟩)
  | arith line type? op lhs rhs ihl ihr | compare line type? op lhs rhs ihl ihr
  | eq line type? lhs rhs ihl ihr =>
    intro s hs
    rw [checkInPlace, check]
    refine (ihl s hs).step fun l => (ihr s hs).step fun r => ?_
    exact (tracks_tell _).step fun t => tracks_pure ⟨rfl, rfl⟩
  | neg line type? operand ih | not line type? operand ih =>
    intro s hs
    rw [checkInPlace, check]
    exact (ih s hs).step fun o => (tracks_tell _).step fun t => tracks_pure ⟨rfl, rfl⟩
  | isVoid line type? operand ih =>
    intro s hs
    rw [checkInPlace, check]
    exact (ih s hs).step fun o => tracks_pure ⟨rfl, rfl⟩
  | new line type? type =>
    intro s hs
    rw [checkInPlace, check]
    exact (tracks_tell _).step fun t => tracks_pure ⟨rfl, rfl⟩
  | identifier line type? name =>
    intro s hs
    rw [checkInPlace, check]
    exact (tracks_ask _).step fun t => tracks_pure ⟨rfl, rfl⟩
  | int line type? value | string line type? value | bool line type? value | absent line type? =>
    intro s hs
    rw [checkInPlace, check]
    exact tracks_pure ⟨rfl, rfl⟩

end Expr

/-! Features and classes. -/

namespace Context

variable {cx : Context} {T : Option Symbol} {s outer : Scope}

theorem tracks_bindFormalsInPlace (fs : List Formal) (hs : s.lookup (cx.names .self) = T)
    (hpop : s.pop? = some outer) :
    Tracks (cx.names .self) T s (cx.bindFormalsInPlace fs) (cx.bindFormals s fs) fun _ inner s' =>
      s' = inner ∧ inner.lookup (cx.names .self) = T ∧ inner.pop? = some outer := by
  induction fs generalizing s with
  | nil => exact tracks_pure ⟨rfl, hs, hpop⟩
  | cons f fs ih =>
    rw [bindFormalsInPlace, bindFormals]
    split_ifs with hname
    · exact (tracks_tell _).step fun _ => ih hs hpop
    · refine (tracks_ask _).step fun _ => (tracks_tell _).step fun type => ?_
      have hlookup : (s.define f.name type).lookup (cx.names .self) = T := by
        rw [Scope.lookup_define, if_neg (Ne.symm hname), hs]
      exact tracks_rescope hlookup (ih hlookup hpop)

theorem tracks_checkMethodInPlace (m : Method) (hs : s.lookup (cx.names .self) = T) :
    Tracks (cx.names .self) T s (cx.checkMethodInPlace m) (cx.checkMethod s m) (Unmoved s) := by
  have hpush : s.push.lookup (cx.names .self) = T := hs
  rw [checkMethodInPlace, checkMethod_eq]
  refine (tracks_tell _).step fun _ => (tracks_tell _).step fun declared => ?_
  refine tracks_rescope hs ((tracks_bindFormalsInPlace m.formals hpush s.pop?_push).bind ?_)
  rintro _ _ inner ⟨rfl, hinner, hpop⟩
  have hbody : inner.push.lookup (cx.names .self) = T := hinner
  refine tracks_rescope hinner ((m.body.inPlace _ hbody).step fun r => ?_)
  refine tracks_pop (Scope.pop?_push _) hinner (tracks_pop hpop hs ?_)
  exact (tracks_tell _).step fun _ => tracks_pure ⟨rfl, rfl⟩

theorem tracks_checkAttrInPlace (a : Attribute) (hs : s.lookup (cx.names .self) = T) :
    Tracks (cx.names .self) T s (cx.checkAttrInPlace a) (cx.checkAttr s a) (Unmoved s) := by
  have hpush : s.push.lookup (cx.names .self) = T := hs
  rw [checkAttrInPlace, checkAttr]
  refine (tracks_tell _).step fun _ => (tracks_tell _).step fun declared => ?_
  refine tracks_rescope hs ((a.init.inPlace _ hpush).step fun r => ?_)
  refine tracks_pop (Scope.pop?_push s) hs ?_
  exact (tracks_tell _).step fun _ => tracks_pure ⟨rfl, rfl⟩

theorem tracks_checkFeatureInPlace (f : Feature) (hs : s.lookup (cx.names .self) = T) :
    Tracks (cx.names .self) T s (cx.checkFeatureInPlace f) (cx.checkFeature s f) (Unmoved s) := by
  cases f with
  | method m => exact (tracks_checkMethodInPlace m hs).step fun _ => tracks_pure ⟨rfl, rfl⟩
  | attr a => exact (tracks_checkAttrInPlace a hs).step fun _ => tracks_pure ⟨rfl, rfl⟩

theorem lookup_classScope (cx : Context) :
    cx.classScope.lookup (cx.names .self) = some (cx.names .selfType) := by
  rw [classScope, Scope.lookup_define, if_pos rfl]

theorem tracks_checkFeaturesInPlace (cx : Context) (fs : List Feature) :
    Tracks (cx.names .self) (some (cx.names .selfType)) cx.classScope (cx.checkFeaturesInPlace fs)
      (cx.checkFeatures fs) (Unmoved cx.classScope) := by
  induction fs with
  | nil => exact tracks_pure ⟨rfl, rfl⟩
  | cons f fs ih =>
    have hself := cx.lookup_classScope
    have hpush : cx.classScope.push.lookup (cx.names .self) = some (cx.names .selfType) := hself
    rw [checkFeaturesInPlace, checkFeatures]
    refine tracks_rescope hself ((tracks_checkFeatureInPlace f hpush).step fun f₁ => ?_)
    refine tracks_pop (Scope.pop?_push _) hself ?_
    exact ih.step fun _ => tracks_pure ⟨rfl, rfl⟩

end Context

/-! What counts in a scope. -/

/-- Scopes in which every name means the same, however many levels they have. -/
def Scope.SameMeanings (s s' : Scope) : Prop := ∀ x, s'.lookup x = s.lookup x

namespace Context

variable {cx : Context} {s s' : Scope}

theorem sameMeanings_extend (hs : s.SameMeanings s') (name type : Symbol) :
    (cx.extend s name type).SameMeanings (cx.extend s' name type) := by
  intro x
  rw [extend, extend]
  split_ifs
  · exact hs x
  · rw [Scope.lookup_define, Scope.lookup_define, Scope.lookup_push, Scope.lookup_push, hs x]

theorem sameVariable_of_sameMeanings (L : Relator) (hs : s.SameMeanings s') (x : Symbol) :
    SameVariable L cx cx Eq s s' x x := by
  have htype : cx.objectType? s' x = cx.objectType? s x := by
    rw [objectType?, objectType?, Scope.objectType?, Scope.objectType?, hs x]
  constructor
  · intro line
    rw [identifierType, identifierType, htype]
    exact L.refl _
  · rintro line t _ rfl
    rw [assignType, assignType, htype]
    exact L.refl _

end Context

theorem Expr.check_eq_of_sameMeanings (cx : Context) {s s' : Scope} (hs : s.SameMeanings s')
    (e : Expr) : e.check cx s' = e.check cx s := by
  have cc := Context.concord_refl same cx (fun hs => Context.sameMeanings_extend hs _ _)
    fun hs => Context.sameVariable_of_sameMeanings same hs _
  have hrel := abreast_check cc congruent_eq e (fun _ _ => trivial) (fun _ _ _ _ _ => trivial) hs
  exact (eq_of_same (same.mono hrel fun _ _ hr => Prod.ext hr.1 hr.2)).symm

namespace Checking

variable {α : Type} {x : Symbol} {T : Option Symbol} {w : Checking α} {r : Report α} {k : Checker}

theorem Tracks.runFrom_fst (hw : Tracks x T k.scope w r (Unmoved k.scope)) :
    (w.runFrom k).1 = r.outcome := by
  cases hr : r.outcome with
  | error e => exact hw.error k.noted k.past e hr
  | ok a =>
    obtain ⟨b, hb, rfl, -⟩ := hw.ok k.noted k.past a hr
    exact hb

theorem Tracks.scope_eq (hw : Tracks x T k.scope w r (Unmoved k.scope)) {a : α} {k' : Checker}
    (hrun : w.runFrom k = (.ok a, k')) : k'.scope = k.scope := by
  have hr : r.outcome = .ok a := by rw [← hw.runFrom_fst, hrun]
  obtain ⟨b, -, -, hscope⟩ := hw.ok k.noted k.past a hr
  rwa [show w.runFrom ⟨k.scope, k.noted, k.past⟩ = (.ok a, k') from hrun] at hscope

end Checking

/-- The check of an expression by a checker: it comes to the end that the scope determines, adds its
faults to those already noted, and leaves the stack as it found it. -/
structure Expr.Lexical (cx : Context) (e : Expr) (k : Checker) : Prop where
  outcome : ((e.checkInPlace cx).runFrom k).1 = (e.check cx k.scope).outcome
  noted : ((e.checkInPlace cx).runFrom k).2.noted = k.noted ++ (e.check cx k.scope).faults
  restored : ∀ r k', (e.checkInPlace cx).runFrom k = (.ok r, k') →
    k'.scope.levels = k.scope.levels ∧ k.noted <+: k'.noted
  meanings : ∀ k₂ : Checker, k.scope.SameMeanings k₂.scope →
    ((e.checkInPlace cx).runFrom k₂).1 = ((e.checkInPlace cx).runFrom k).1 ∧
    ∃ new, ((e.checkInPlace cx).runFrom k).2.noted = k.noted ++ new ∧
      ((e.checkInPlace cx).runFrom k₂).2.noted = k₂.noted ++ new

/-- The check of a class by its checker: `self` has the type `SELF_TYPE` in every scope there is, whether
or not the check comes to its end, and each feature starts with the level of the class under an empty
one. -/
structure ClassDecl.Lexical (h : Hierarchy) (c : ClassDecl) (noted : List Fault) : Prop where
  outcome : ((c.checkInPlace h).runFrom (c.checker h noted)).1 = (c.check h).outcome
  self : ∀ s ∈ ((c.checkInPlace h).runFrom (c.checker h noted)).2.past,
    s.lookup (h.names .self) = some (h.names .selfType)
  feature : ∀ before f after, c.features = before ++ f :: after →
    ∀ k, ((c.context h).checkFeaturesInPlace before >>= fun _ => push).runFrom (c.checker h noted) =
        (.ok (), k) →
      k.scope.levels = [∅, (∅ : Table Symbol).insert (h.names .self) (h.names .selfType)]

theorem Expr.lexical (cx : Context) (e : Expr) (k : Checker) : e.Lexical cx k := by
  have htracks : ∀ k : Checker, Tracks (cx.names .self) (k.scope.lookup (cx.names .self)) k.scope
      (e.checkInPlace cx) (e.check cx k.scope) (Unmoved k.scope) := fun k => e.inPlace k.scope rfl
  have hnoted : ∀ k : Checker, ((e.checkInPlace cx).runFrom k).2.noted =
      k.noted ++ (e.check cx k.scope).faults := fun k => (htracks k).noted k.noted k.past
  refine ⟨(htracks k).runFrom_fst, hnoted k, fun r k' hrun => ?_, fun k₂ hk => ?_⟩
  · have hk' := hnoted k
    rw [hrun] at hk'
    rw [(htracks k).scope_eq hrun, hk']
    exact ⟨rfl, List.prefix_append _ _⟩
  · have hcheck := check_eq_of_sameMeanings cx hk e
    refine ⟨?_, _, hnoted k, ?_⟩
    · rw [(htracks k₂).runFrom_fst, (htracks k).runFrom_fst, hcheck]
    · rw [hnoted k₂, hcheck]

theorem ClassDecl.lexical (h : Hierarchy) (c : ClassDecl) (noted : List Fault) :
    c.Lexical h noted := by
  have htracks : Tracks (h.names .self) (some (h.names .selfType)) (c.context h).classScope
      (c.checkInPlace h) (c.check h) (Unmoved (c.context h).classScope) := by
    have hfeatures := (c.context h).tracks_checkFeaturesInPlace c.features
    rw [checkInPlace, check]
    exact hfeatures.step fun _ => tracks_pure ⟨rfl, rfl⟩
  refine ⟨htracks.runFrom_fst (k := c.checker h noted), fun s hs => ?_, fun before f after _ k hk => ?_⟩
  · rcases htracks.past noted [(c.context h).classScope] s hs with hs | hs
    · rw [List.mem_singleton.mp hs]
      exact (c.context h).lookup_classScope
    · exact hs
  · have hbefore := (c.context h).tracks_checkFeaturesInPlace before
    rcases hrun : ((c.context h).checkFeaturesInPlace before).runFrom (c.checker h noted) with ⟨o, k₁⟩
    cases o with
    | error e =>
      rw [runFrom_bind_error hrun] at hk
      cases hk
    | ok fs =>
      rw [runFrom_bind_ok hrun] at hk
      have hscope : k.scope = k₁.scope.push := congrArg Checker.scope (Prod.mk.inj hk).2.symm
      have hk₁ : k₁.scope = (c.context h).classScope := hbefore.scope_eq (k := c.checker h noted) hrun
      rw [hscope, hk₁]
      rfl

/-- Expressions and classes are checked on a stack of scopes as in a lexical environment. -/
theorem checkInPlace_lexical (cx : Context) (e : Expr) (k : Checker) (h : Hierarchy) (c : ClassDecl)
    (noted : List Fault) : e.Lexical cx k ∧ c.Lexical h noted :=
  ⟨e.lexical cx k, c.lexical h noted⟩

end CoolStatics
