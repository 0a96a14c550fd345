import CoolStatics.Proofs.Comparison
import CoolStatics.Proofs.Renaming

/-!
Checking under other symbols. Every rule of typing asks a hierarchy and a scope for its answers and
compares symbols with one another. So the check of a renamed program, in the renamed hierarchy, notes the
renamed faults and comes to the renamed end, or breaks off where the other does.
-/
namespace CoolStatics

variable (σ : Symbol ↪ Symbol)

/-! Scopes. -/

namespace Scope

def rename (s : Scope) : Scope :=
  ⟨s.innermost.rename σ σ, s.enclosing.map (Table.rename σ σ)⟩

theorem lookup_rename (s : Scope) (x : Symbol) : (s.rename σ).lookup (σ x) = (s.lookup x).map σ := by
  have hlevels : (s.rename σ).levels = s.levels.map (Table.rename σ σ) := rfl
  rw [lookup, lookup, hlevels, List.findSome?_map, List.map_findSome?]
  simp only [Function.comp_def, Table.get?_rename]

theorem probe_rename (s : Scope) (x : Symbol) : (s.rename σ).probe (σ x) = (s.probe x).map σ :=
  Table.get?_rename σ _ _ x

theorem push_rename (s : Scope) : s.push.rename σ = (s.rename σ).push := rfl

theorem define_rename (s : Scope) (x t : Symbol) :
    (s.define x t).rename σ = (s.rename σ).define (σ x) (σ t) := by
  rw [define, define, rename, rename, Table.insert_rename]

theorem objectType?_rename (s : Scope) (h : Hierarchy) (c x : Symbol) :
    (s.rename σ).objectType? (h.rename σ) (σ c) (σ x) = (s.objectType? h c x).map σ := by
  rw [objectType?, objectType?, lookup_rename, Hierarchy.findAttr?_rename, Option.map_or]

end Scope

/-! Reports. -/

namespace Report

variable {α β γ δ : Type} {g : α → β} {k : γ → δ}

/-- The second report is the first with renamed faults and the value that `g` makes of the other. -/
def Renamed (g : α → β) (r : Report α) (r' : Report β) : Prop :=
  r' = ⟨r.faults.map (Fault.rename σ), (r.outcome.map g).mapError (NoCommonAncestor.rename σ)⟩

variable {σ}

theorem renamed_pure {a : α} {b : β} (hb : b = g a) : Renamed σ g (pure a) (pure b) := by
  rw [hb]
  rfl

theorem Renamed.bind {r : Report α} {r' : Report β} {f : α → Report γ} {f' : β → Report δ}
    (hr : Renamed σ g r r') (hf : ∀ a, Renamed σ k (f a) (f' (g a))) :
    Renamed σ k (r >>= f) (r' >>= f') := by
  obtain ⟨fs, x⟩ := r
  rw [Renamed] at hr
  cases x with
  | error e =>
    rw [hr]
    rfl
  | ok a =>
    have hfa : f' (g a) = _ := hf a
    rw [hr]
    simp only [Except.map, Except.mapError, mk_ok_bind, hfa, Renamed, List.map_append]

theorem Renamed.bindPair {α' β' : Type} {g' : α' → β'} {r : Report (α × α')}
    {r' : Report (β × β')} {f : α × α' → Report γ} {f' : β × β' → Report δ}
    (hr : Renamed σ (Prod.map g g') r r')
    (hf : ∀ a a', Renamed σ k (f (a, a')) (f' (g a, g' a'))) : Renamed σ k (r >>= f) (r' >>= f') :=
  hr.bind fun a => hf a.1 a.2

theorem renamed_all {rs : List (Report α)} {rs' : List (Report β)}
    (hrs : List.Forall₂ (Renamed σ g) rs rs') : Renamed σ (List.map g) (all rs) (all rs') := by
  induction hrs with
  | nil => exact renamed_pure rfl
  | cons hr _ ih => exact hr.bind fun _ => ih.bind fun _ => renamed_pure rfl

end Report

/-! Rules. -/

theorem Method.departure?_rename (m : Method) (s : Signature) :
    (m.rename σ).departure? (s.rename σ) = (m.departure? s).map (Departure.rename σ) := by
  have hformals : (m.rename σ).formals.map (·.type) = (m.formals.map (·.type)).map σ := by
    simp [rename, Formal.rename, Function.comp_def]
  have hlength : (m.rename σ).formals.length = m.formals.length := by simp [rename]
  have hresult : (m.rename σ).result ≠ (s.rename σ).result ↔ m.result ≠ s.result :=
    σ.injective.ne_iff
  rw [departure?, departure?, hlength, Signature.arity_rename, hformals, Signature.types_rename,
    List.zip_map, List.find?_map]
  simp only [Function.comp_def, Prod.map_fst, Prod.map_snd, σ.injective.ne_iff, hresult]
  split_ifs
  · rfl
  · cases ((m.formals.map (·.type)).zip s.types).find? fun p => p.1 ≠ p.2 <;> rfl
  · cases ((m.formals.map (·.type)).zip s.types).find? fun p => p.1 ≠ p.2 <;> rfl

namespace Context

open Report

def rename (cx : Context) : Context := ⟨cx.hierarchy.rename σ, σ cx.current, cx.file⟩

variable (cx : Context) (scope : Scope) (name t : Symbol)

@[simp] theorem names_rename : (cx.rename σ).names = cx.names.rename σ := rfl

theorem conforms_rename (a d : Symbol) : (cx.rename σ).conforms (σ a) (σ d) = cx.conforms a d :=
  Hierarchy.conforms_rename σ _ _ a d

theorem isKnown_rename : (cx.rename σ).isKnown (σ t) = cx.isKnown t := by
  have hhas : (cx.rename σ).hierarchy.has (σ t) = cx.hierarchy.has t := Hierarchy.has_rename σ _ t
  simp [isKnown, hhas]

theorem taken_rename : (cx.rename σ).taken (σ t) = σ (cx.taken t) := by
  rw [taken, taken, isKnown_rename, apply_ite σ]
  simp

theorem objectType?_rename :
    (cx.rename σ).objectType? (scope.rename σ) (σ name) = (cx.objectType? scope name).map σ :=
  Scope.objectType?_rename σ _ _ _ _

theorem extend_rename :
    (cx.extend scope name t).rename σ = (cx.rename σ).extend (scope.rename σ) (σ name) (σ t) := by
  rw [extend, extend, apply_ite (Scope.rename σ), Scope.define_rename, Scope.push_rename]
  simp

theorem branchType_rename (b : Symbol) :
    (cx.rename σ).branchType (σ t) (σ b) = σ (cx.branchType t b) := by
  rw [branchType, branchType, isKnown_rename, apply_ite σ]
  simp

theorem misfits_rename (args : List (Formal × Symbol)) :
    (cx.rename σ).misfits (args.map (Prod.map (Formal.rename σ) σ)) =
      (cx.misfits args).map (Prod.map (Formal.rename σ) σ) := by
  rw [misfits, misfits, List.filter_map]
  congr 1
  refine List.filter_congr fun p _ => ?_
  exact congrArg Bool.not (conforms_rename σ cx p.1.type p.2)

variable {σ cx scope name t} {line : Line} {cause : Cause} {kept : Bool}
  {method owner receiver type s l r : Symbol} {args : List Symbol}

theorem renamed_note :
    Renamed σ id (cx.note line cause) ((cx.rename σ).note line (cause.rename σ)) := rfl

theorem renamed_require :
    Renamed σ id (cx.require kept line cause) ((cx.rename σ).require kept line (cause.rename σ)) := by
  cases kept with
  | true => exact renamed_pure rfl
  | false => exact renamed_note

theorem renamed_fallBack :
    Renamed σ σ (cx.fallBack line cause) ((cx.rename σ).fallBack line (cause.rename σ)) :=
  renamed_note.bind fun _ => renamed_pure (by simp)

theorem renamed_expect :
    Renamed σ σ (cx.expect kept line cause t)
      ((cx.rename σ).expect kept line (cause.rename σ) (σ t)) := by
  cases kept with
  | true => exact renamed_pure rfl
  | false => exact renamed_fallBack

theorem renamed_join (a b : Symbol) :
    Renamed σ σ (cx.join a b) ((cx.rename σ).join (σ a) (σ b)) :=
  congrArg (Report.mk []) (Hierarchy.join_rename σ _ _ a b)

theorem renamed_identifierType :
    Renamed σ σ (cx.identifierType scope line name)
      ((cx.rename σ).identifierType (scope.rename σ) line (σ name)) := by
  rw [identifierType, identifierType, objectType?_rename]
  simp only [names_rename, Vocabulary.rename_symbol, σ.apply_eq_iff_eq]
  split_ifs
  · exact renamed_pure rfl
  · cases cx.objectType? scope name with
    | none => exact renamed_fallBack
    | some d => exact renamed_pure (taken_rename σ cx d)

theorem renamed_assignType :
    Renamed σ σ (cx.assignType scope line name t)
      ((cx.rename σ).assignType (scope.rename σ) line (σ name) (σ t)) := by
  rw [assignType, assignType, objectType?_rename]
  simp only [names_rename, Vocabulary.rename_symbol, σ.apply_eq_iff_eq]
  split_ifs
  · exact renamed_fallBack
  · cases cx.objectType? scope name with
    | none => exact renamed_fallBack
    | some d =>
      simp only [Option.map_some, taken_rename, conforms_rename]
      split_ifs
      · exact renamed_pure rfl
      · exact renamed_note.bind fun _ => renamed_pure rfl

theorem renamed_resultType :
    Renamed σ σ (cx.resultType line method receiver t)
      ((cx.rename σ).resultType line (σ method) (σ receiver) (σ t)) := by
  have hhas : (cx.rename σ).hierarchy.has (σ t) = cx.hierarchy.has t := Hierarchy.has_rename σ _ t
  rw [resultType, resultType, hhas]
  simp only [names_rename, Vocabulary.rename_symbol, σ.apply_eq_iff_eq]
  split_ifs
  · exact renamed_pure rfl
  · exact renamed_expect

theorem renamed_callType :
    Renamed σ σ (cx.callType line owner method receiver args)
      ((cx.rename σ).callType line (σ owner) (σ method) (σ receiver) (args.map σ)) := by
  have hfind : (cx.rename σ).hierarchy.findMethod? (σ owner) (σ method) =
      (cx.hierarchy.findMethod? owner method).map (Signature.rename σ) :=
    Hierarchy.findMethod?_rename σ _ _ _
  rw [callType, callType, hfind]
  cases cx.hierarchy.findMethod? owner method with
  | none => exact renamed_fallBack
  | some sig =>
    have hzip : (sig.rename σ).formals.zip (args.map σ) =
        (sig.formals.zip args).map (Prod.map (Formal.rename σ) σ) := List.zip_map
    have hnote : ∀ ps : List (Formal × Symbol), Renamed σ id
        (cx.noteAll line (ps.map fun p => Cause.argument method p.1.name p.1.type p.2))
        ((cx.rename σ).noteAll line ((ps.map (Prod.map (Formal.rename σ) σ)).map fun p =>
          Cause.argument (σ method) p.1.name p.1.type p.2)) := by
      intro ps
      simp only [Renamed, noteAll, Report.noteAll, List.map_map]
      rfl
    simp only [Option.map_some, Signature.arity_rename, List.length_map, hzip, misfits_rename,
      List.isEmpty_map]
    split_ifs
    · exact (hnote _).bind fun _ => renamed_resultType
    · exact (hnote _).bind fun _ => renamed_pure (by simp)
    · exact renamed_fallBack

theorem renamed_dispatchType :
    Renamed σ σ (cx.dispatchType line method receiver args)
      ((cx.rename σ).dispatchType line (σ method) (σ receiver) (args.map σ)) := by
  have hdenoted : (cx.rename σ).hierarchy.denoted (cx.rename σ).current (σ receiver) =
      σ (cx.hierarchy.denoted cx.current receiver) := Hierarchy.denoted_rename σ _ _ _
  have hhas : ∀ c, (cx.rename σ).hierarchy.has (σ c) = cx.hierarchy.has c :=
    Hierarchy.has_rename σ _
  simp only [dispatchType, hdenoted, hhas]
  split_ifs
  · exact renamed_callType
  · exact renamed_fallBack

theorem renamed_staticDispatchType :
    Renamed σ σ (cx.staticDispatchType line owner method receiver args)
      ((cx.rename σ).staticDispatchType line (σ owner) (σ method) (σ receiver) (args.map σ)) := by
  have hhas : (cx.rename σ).hierarchy.has (σ owner) = cx.hierarchy.has owner :=
    Hierarchy.has_rename σ _ owner
  simp only [staticDispatchType, hhas, conforms_rename, names_rename, Vocabulary.rename_symbol,
    σ.apply_eq_iff_eq]
  split_ifs
  · exact renamed_fallBack
  · exact renamed_callType
  · exact renamed_fallBack

theorem renamed_checkPredicate {of : Guarded} :
    Renamed σ id (cx.checkPredicate of line t) ((cx.rename σ).checkPredicate of line (σ t)) := by
  simp only [checkPredicate, names_rename, Vocabulary.rename_symbol, σ.apply_eq_iff_eq]
  exact renamed_require

theorem renamed_arithType {op : ArithOp} :
    Renamed σ σ (cx.arithType op line l r) ((cx.rename σ).arithType op line (σ l) (σ r)) := by
  simp only [arithType, names_rename, Vocabulary.rename_symbol, σ.apply_eq_iff_eq]
  exact renamed_expect

theorem renamed_compareType {op : CompareOp} :
    Renamed σ σ (cx.compareType op line l r) ((cx.rename σ).compareType op line (σ l) (σ r)) := by
  simp only [compareType, names_rename, Vocabulary.rename_symbol, σ.apply_eq_iff_eq]
  exact renamed_expect

theorem renamed_eqType :
    Renamed σ σ (cx.eqType line l r) ((cx.rename σ).eqType line (σ l) (σ r)) := by
  simp only [eqType, names_rename, Vocabulary.rename_symbol, Vocabulary.isPrimitive_rename,
    σ.apply_eq_iff_eq]
  exact renamed_expect

theorem renamed_negType : Renamed σ σ (cx.negType line t) ((cx.rename σ).negType line (σ t)) := by
  simp only [negType, names_rename, Vocabulary.rename_symbol, σ.apply_eq_iff_eq]
  exact renamed_expect

theorem renamed_notType : Renamed σ σ (cx.notType line t) ((cx.rename σ).notType line (σ t)) := by
  simp only [notType, names_rename, Vocabulary.rename_symbol, σ.apply_eq_iff_eq]
  exact renamed_expect

theorem renamed_newType : Renamed σ σ (cx.newType line t) ((cx.rename σ).newType line (σ t)) := by
  simp only [newType, isKnown_rename]
  exact renamed_expect

theorem renamed_letType :
    Renamed σ σ (cx.letType line name t) ((cx.rename σ).letType line (σ name) (σ t)) := by
  simp only [letType, isKnown_rename, names_rename, Vocabulary.rename_symbol, σ.injective.ne_iff]
  exact renamed_expect.bind fun _ => renamed_require.bind fun _ => renamed_pure rfl

theorem renamed_branchScope {before : List Symbol} :
    Renamed σ (Scope.rename σ) (cx.branchScope scope before line name t)
      ((cx.rename σ).branchScope (scope.rename σ) (before.map σ) line (σ name) (σ t)) := by
  simp only [branchScope, isKnown_rename, contains_map_rename, names_rename, Vocabulary.rename_symbol,
    σ.injective.ne_iff]
  refine renamed_require.bind fun _ => renamed_require.bind fun _ => renamed_require.bind fun _ => ?_
  exact renamed_pure (by rw [extend_rename, apply_ite σ])

theorem renamed_bindFormals (fs : List Formal) (scope : Scope) :
    Renamed σ (Scope.rename σ) (cx.bindFormals scope fs)
      ((cx.rename σ).bindFormals (scope.rename σ) (fs.map (Formal.rename σ))) := by
  induction fs generalizing scope with
  | nil => exact renamed_pure rfl
  | cons f fs ih =>
    have hhas : (cx.rename σ).hierarchy.has (σ f.type) = cx.hierarchy.has f.type :=
      Hierarchy.has_rename σ _ _
    have hprobe : ((scope.rename σ).probe (σ f.name)).isNone = (scope.probe f.name).isNone := by
      rw [Scope.probe_rename, Option.isNone_map]
    simp only [List.map_cons, bindFormals, Formal.rename, names_rename, Vocabulary.rename_symbol,
      σ.apply_eq_iff_eq, σ.injective.ne_iff, hhas, hprobe]
    split_ifs
    · exact renamed_note.bind fun _ => ih scope
    · refine renamed_require.bind fun _ => renamed_expect.bind fun t => ?_
      rw [← Scope.define_rename]
      exact ih _

theorem renamed_checkOverride (m : Method) :
    Renamed σ id (cx.checkOverride m) ((cx.rename σ).checkOverride (m.rename σ)) := by
  have hinherited : ((cx.rename σ).hierarchy.inheritedMethod? (cx.rename σ).current
        (m.rename σ).name).bind (m.rename σ).departure? =
      ((cx.hierarchy.inheritedMethod? cx.current m.name).bind m.departure?).map
        (Departure.rename σ) := by
    have hfind : (cx.rename σ).hierarchy.inheritedMethod? (cx.rename σ).current (m.rename σ).name =
        (cx.hierarchy.inheritedMethod? cx.current m.name).map (Signature.rename σ) :=
      Hierarchy.inheritedMethod?_rename σ _ _ _
    rw [hfind]
    cases cx.hierarchy.inheritedMethod? cx.current m.name with
    | none => rfl
    | some s => exact m.departure?_rename σ s
  rw [checkOverride, checkOverride, hinherited]
  cases (cx.hierarchy.inheritedMethod? cx.current m.name).bind m.departure? with
  | none => exact renamed_pure rfl
  | some how => exact renamed_note

end Context

/-! Expressions, features and classes. -/

namespace Expr

open Report Context

variable {σ} {cx : Context}

/-- The expression is checked under other symbols as it is under its own. -/
def Equivariant (σ : Symbol ↪ Symbol) (cx : Context) (e : Expr) : Prop :=
  ∀ scope : Scope, Renamed σ (Prod.map σ (rename σ)) (e.check cx scope)
    ((e.rename σ).check (cx.rename σ) (scope.rename σ))

theorem renamed_checkList {es : List Expr} (hes : ∀ e ∈ es, e.Equivariant σ cx) (scope : Scope) :
    Renamed σ (List.map (Prod.map σ (rename σ))) (checkList cx scope es)
      (checkList (cx.rename σ) (scope.rename σ) (renameList σ es)) := by
  induction es with
  | nil => exact renamed_pure rfl
  | cons e es ih =>
    rw [List.forall_mem_cons] at hes
    rw [renameList, checkList, checkList]
    exact (hes.1 scope).bind fun _ => (ih hes.2).bind fun _ => renamed_pure rfl

theorem renamed_checkBranches {bs : List (Branch Expr)} (hbs : ∀ b ∈ bs, b.body.Equivariant σ cx)
    (scope : Scope) (before : List Symbol) (soFar : Symbol) :
    Renamed σ (Prod.map σ (renameBranches σ)) (checkBranches cx scope before soFar bs)
      (checkBranches (cx.rename σ) (scope.rename σ) (before.map σ) (σ soFar)
        (renameBranches σ bs)) := by
  induction bs generalizing before soFar with
  | nil => exact renamed_pure rfl
  | cons b bs ih =>
    obtain ⟨name, type, body, line⟩ := b
    rw [List.forall_mem_cons] at hbs
    rw [renameBranches, checkBranches, checkBranches]
    refine renamed_branchScope.bind fun inner => (hbs.1 inner).bindPair fun b body₁ => ?_
    simp only [branchType_rename]
    refine (renamed_join soFar _).bind fun joined => ?_
    rw [← List.map_cons]
    exact (ih hbs.2 _ joined).bind fun _ => renamed_pure rfl

theorem map_fst_rename (rs : List (Symbol × Expr)) :
    (rs.map (Prod.map σ (rename σ))).map (·.1) = (rs.map (·.1)).map σ := by
  simp [Function.comp_def]

theorem map_snd_rename (rs : List (Symbol × Expr)) :
    (rs.map (Prod.map σ (rename σ))).map (·.2) = renameList σ (rs.map (·.2)) := by
  rw [renameList_eq]
  simp [Function.comp_def]

theorem equivariant (e : Expr) : e.Equivariant σ cx := by
  induction e with
  | assign line type? name value ih =>
    intro scope
    rw [rename, check, check]
    refine (ih scope).bindPair fun t value₁ => renamed_assignType.bind fun t => ?_
    exact renamed_pure rfl
  | dispatch line type? receiver method args ihr iha =>
    intro scope
    rw [rename, check, check]
    refine (ihr scope).bindPair fun r receiver₁ => (renamed_checkList iha scope).bind fun rs => ?_
    simp only [map_fst_rename, map_snd_rename]
    exact renamed_dispatchType.bind fun t => renamed_pure rfl
  | staticDispatch line type? receiver owner method args ihr iha =>
    intro scope
    rw [rename, check, check]
    refine (ihr scope).bindPair fun r receiver₁ => (renamed_checkList iha scope).bind fun rs => ?_
    simp only [map_fst_rename, map_snd_rename]
    exact renamed_staticDispatchType.bind fun t => renamed_pure rfl
  | cond line type? pred yes no ihp ihy ihn =>
    intro scope
    rw [rename, check, check]
    refine (ihp scope).bindPair fun p pred₁ => ?_
    simp only [line_rename]
    refine renamed_checkPredicate.bind fun _ => (ihy scope).bindPair fun y yes₁ => ?_
    refine (ihn scope).bindPair fun n no₁ => (renamed_join y n).bind fun t => ?_
    exact renamed_pure rfl
  | loop line type? pred body ihp ihb =>
    intro scope
    rw [rename, check, check]
    refine (ihp scope).bindPair fun p pred₁ => ?_
    simp only [line_rename]
    refine renamed_checkPredicate.bind fun _ => (ihb scope).bindPair fun b body₁ => ?_
    exact renamed_pure (by simp [typed, rename])
  | case line type? scrutinee branches ihs ihb =>
    intro scope
    rw [rename, check, check]
    refine (ihs scope).bindPair fun s scrutinee₁ => ?_
    simp only [names_rename, Vocabulary.rename_symbol]
    exact (renamed_checkBranches ihb scope [] _).bind fun _ => renamed_pure rfl
  | block line type? body ih =>
    intro scope
    rw [rename, check, check]
    refine (renamed_checkList ih scope).bind fun rs => renamed_pure ?_
    have hlast : ((rs.map (Prod.map σ (rename σ))).getLast?.map (·.1)).getD
        ((cx.rename σ).names .noType) =
        σ ((rs.getLast?.map (·.1)).getD (cx.names .noType)) := by
      rw [List.getLast?_map]
      cases rs.getLast? <;> simp
    rw [hlast, map_snd_rename]
    rfl
  | letIn line type? name type init body ihi ihb =>
    intro scope
    rw [rename, check, check]
    refine renamed_letType.bind fun declared => (ihi scope).bindPair fun i init₁ => ?_
    simp only [conforms_rename]
    refine renamed_require.bind fun _ => ?_
    rw [← extend_rename]
    exact (ihb _).bindPair fun b body₁ => renamed_pure rfl
  | arith line type? op lhs rhs ihl ihr =>
    intro scope
    rw [rename, check, check]
    refine (ihl scope).bindPair fun l lhs₁ => (ihr scope).bindPair fun r rhs₁ => ?_
    exact renamed_arithType.bind fun t => renamed_pure rfl
  | compare line type? op lhs rhs ihl ihr =>
    intro scope
    rw [rename, check, check]
    refine (ihl scope).bindPair fun l lhs₁ => (ihr scope).bindPair fun r rhs₁ => ?_
    exact renamed_compareType.bind fun t => renamed_pure rfl
  | eq line type? lhs rhs ihl ihr =>
    intro scope
    rw [rename, check, check]
    refine (ihl scope).bindPair fun l lhs₁ => (ihr scope).bindPair fun r rhs₁ => ?_
    exact renamed_eqType.bind fun t => renamed_pure rfl
  | neg line type? operand ih =>
    intro scope
    rw [rename, check, check]
    exact (ih scope).bindPair fun o operand₁ => renamed_negType.bind fun t => renamed_pure rfl
  | not line type? operand ih =>
    intro scope
    rw [rename, check, check]
    exact (ih scope).bindPair fun o operand₁ => renamed_notType.bind fun t => renamed_pure rfl
  | isVoid line type? operand ih =>
    intro scope
    rw [rename, check, check]
    exact (ih scope).bindPair fun o operand₁ => renamed_pure (by simp [typed, rename])
  | int line type? value | string line type? value | bool line type? value =>
    intro scope
    rw [rename, check, check]
    exact renamed_pure (by simp [typed, rename])
  | new line type? type =>
    intro scope
    rw [rename, check, check]
    exact renamed_newType.bind fun t => renamed_pure rfl
  | identifier line type? name =>
    intro scope
    rw [rename, check, check]
    exact renamed_identifierType.bind fun t => renamed_pure rfl
  | absent line type? =>
    intro scope
    rw [rename, check, check]
    exact renamed_pure (by simp [typed, rename])

end Expr

namespace Context

open Report

variable {σ} {cx : Context}

theorem renamed_checkFeature (scope : Scope) (f : Feature) :
    Renamed σ (Feature.rename σ) (cx.checkFeature scope f)
      ((cx.rename σ).checkFeature (scope.rename σ) (f.rename σ)) := by
  cases f with
  | method m =>
    rw [Feature.rename, checkFeature, checkFeature, checkMethod_eq, checkMethod_eq]
    simp only [bind_assoc, pure_bind]
    refine (renamed_checkOverride m).bind fun _ => ?_
    simp only [Method.rename, isKnown_rename]
    refine renamed_expect.bind fun declared => ?_
    refine (renamed_bindFormals m.formals scope.push).bind fun inner => ?_
    refine (m.body.equivariant inner.push).bindPair fun b body => ?_
    simp only [conforms_rename]
    exact renamed_require.bind fun _ => renamed_pure rfl
  | attr a =>
    have hinherited : ((cx.rename σ).hierarchy.inheritedAttr? (cx.rename σ).current
        (σ a.name)).isNone = (cx.hierarchy.inheritedAttr? cx.current a.name).isNone := by
      have hattr : (cx.rename σ).hierarchy.inheritedAttr? (cx.rename σ).current (σ a.name) =
          (cx.hierarchy.inheritedAttr? cx.current a.name).map σ :=
        Hierarchy.inheritedAttr?_rename σ _ _ _
      rw [hattr, Option.isNone_map]
    rw [Feature.rename, checkFeature, checkFeature, checkAttr, checkAttr]
    simp only [bind_assoc, pure_bind, Attribute.rename, isKnown_rename, hinherited, names_rename,
      Vocabulary.rename_symbol, σ.apply_eq_iff_eq]
    refine renamed_require.bind fun _ => renamed_expect.bind fun declared => ?_
    refine (a.init.equivariant scope.push).bindPair fun i init => ?_
    simp only [conforms_rename]
    exact renamed_require.bind fun _ => renamed_pure rfl

theorem classScope_rename : (cx.rename σ).classScope = cx.classScope.rename σ := by
  rw [classScope, classScope, Scope.define_rename]
  simp [Scope.rename, Scope.empty]

theorem renamed_checkFeatures (fs : List Feature) :
    Renamed σ (List.map (Feature.rename σ)) (cx.checkFeatures fs)
      ((cx.rename σ).checkFeatures (fs.map (Feature.rename σ))) := by
  induction fs with
  | nil => exact renamed_pure rfl
  | cons f fs ih =>
    rw [List.map_cons, checkFeatures, checkFeatures, classScope_rename, ← Scope.push_rename]
    exact (renamed_checkFeature _ f).bind fun _ => ih.bind fun _ => renamed_pure rfl

end Context

theorem ClassDecl.renamed_check (h : Hierarchy) (c : ClassDecl) :
    Report.Renamed σ (ClassDecl.rename σ) (c.check h) ((c.rename σ).check (h.rename σ)) := by
  have hfeatures : Report.Renamed σ (List.map (Feature.rename σ))
      ((c.context h).checkFeatures c.features)
      (((c.rename σ).context (h.rename σ)).checkFeatures (c.rename σ).features) :=
    Context.renamed_checkFeatures c.features
  exact hfeatures.bind fun _ => Report.renamed_pure rfl

/-! Verdicts. -/

def Verdict.rename (v : Verdict) : Verdict :=
  ⟨v.program.rename σ, v.faults.map (Fault.rename σ)⟩

/-- A renamed program, with the names of the language renamed alike, has the renamed verdict. -/
theorem Program.verdict_rename {i k : Interner}
    (hnames : (Vocabulary.intern k).1 = (Vocabulary.intern i).1.rename σ) (p : Program) :
    ((p.rename σ).analyse k).verdict =
      ((p.analyse i).verdict.map (Verdict.rename σ)).mapError (NoCommonAncestor.rename σ) := by
  have hregistration : ((p.rename σ).analyse k).registration = (p.analyse i).registration.rename σ := by
    have hbuild := Hierarchy.build_rename σ (Vocabulary.intern i).1 p
    rw [← hnames] at hbuild
    exact hbuild
  have hhierarchy : ((p.rename σ).analyse k).hierarchy = (p.analyse i).hierarchy.rename σ :=
    congrArg Hierarchy.Registration.hierarchy hregistration
  have hchecks : Report.Renamed σ (List.map (ClassDecl.rename σ))
      (Report.all (p.classes.map (·.check (p.analyse i).hierarchy)))
      (Report.all ((p.rename σ).classes.map (·.check ((p.rename σ).analyse k).hierarchy))) := by
    refine Report.renamed_all ?_
    rw [hhierarchy, Program.rename, List.map_map]
    refine List.forall₂_map_left_iff.mpr (List.forall₂_map_right_iff.mpr ?_)
    exact List.forall₂_same.mpr fun c _ => ClassDecl.renamed_check σ _ c
  have hfaults : ((p.rename σ).analyse k).registration.outlineFaults =
      (p.analyse i).registration.outlineFaults.map (Fault.rename σ) := by
    rw [hregistration, Hierarchy.Registration.outlineFaults_rename]
  rw [analyse_verdict_eq, analyse_verdict_eq, hchecks, hfaults]
  simp only [List.map_eq_nil_iff]
  split_ifs
  · cases (Report.all (p.classes.map (·.check (p.analyse i).hierarchy))).outcome <;> rfl
  · rfl

end CoolStatics
