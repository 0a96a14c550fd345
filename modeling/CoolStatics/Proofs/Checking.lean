import CoolStatics.Proofs.Erasure
import CoolStatics.Proofs.Order

/-!
What checking comes to. Every rule but that of joins comes to its end, and the type that it hands on is
`SELF_TYPE`, `_no_type` or a registered class, whatever faults it notes on the way. So an expression
comes out with such a type at every node and nothing else changed, unless a join breaks off, and a class
does so with all its features.
-/
namespace CoolStatics

namespace Report

variable {α β : Type} {P : α → Prop} {Q : β → Prop} {breaks : Prop}

/-- Comes to an end of which `P` holds, with or without faults. -/
def Ends (r : Report α) (P : α → Prop) : Prop := ∃ a, r.outcome = .ok a ∧ P a

theorem ends_pure {a : α} (ha : P a) : (pure a : Report α).Ends P := ⟨a, rfl, ha⟩

theorem Ends.bind {r : Report α} {f : α → Report β} (hr : r.Ends P)
    (hf : ∀ a, P a → (f a).Ends Q) : (r >>= f).Ends Q := by
  obtain ⟨fs, x⟩ := r
  obtain ⟨a, rfl, ha⟩ := hr
  obtain ⟨b, hb, hQ⟩ := hf a ha
  exact ⟨b, hb, hQ⟩

theorem ends_note (f : Fault) : (note f).Ends fun _ => True := ⟨(), rfl, trivial⟩

theorem ends_noteAll (fs : List Fault) : (noteAll fs).Ends fun _ => True := ⟨(), rfl, trivial⟩

/-- Comes to an end of which `P` holds, or breaks off where that is allowed. -/
def Meets (breaks : Prop) (r : Report α) (P : α → Prop) : Prop :=
  match r.outcome with
  | .ok a => P a
  | .error _ => breaks

theorem meets_pure {a : α} (ha : P a) : (pure a : Report α).Meets breaks P := ha

theorem Meets.bind {r : Report α} {f : α → Report β} (hr : r.Meets breaks P)
    (hf : ∀ a, P a → (f a).Meets breaks Q) : (r >>= f).Meets breaks Q := by
  obtain ⟨fs, x⟩ := r
  cases x with
  | error e => exact hr
  | ok a => exact hf a hr

theorem Meets.of_ok {r : Report α} {a : α} (hr : r.Meets breaks P) (ha : r.outcome = .ok a) :
    P a := by
  rwa [Meets, ha] at hr

theorem Meets.imp {P' : α → Prop} {r : Report α} (hr : r.Meets breaks P) (himp : ∀ a, P a → P' a) :
    r.Meets breaks P' := by
  obtain ⟨fs, x⟩ := r
  cases x with
  | error e => exact hr
  | ok a => exact himp a hr

theorem Ends.meets {r : Report α} (hr : r.Ends P) : r.Meets breaks P := by
  obtain ⟨a, ha, hP⟩ := hr
  rwa [Meets, ha]

theorem Meets.ends {r : Report α} (hr : r.Meets False P) : r.Ends P := by
  obtain ⟨fs, x⟩ := r
  cases x with
  | error e => exact hr.elim
  | ok a => exact ⟨a, rfl, hr⟩

theorem meets_all {R : α → β → Prop} {f : α → Report β} {as : List α}
    (h : ∀ a ∈ as, (f a).Meets breaks (R a)) :
    (all (as.map f)).Meets breaks (List.Forall₂ R as) := by
  induction as with
  | nil => exact meets_pure .nil
  | cons a as ih =>
    rw [List.forall_mem_cons] at h
    exact h.1.bind fun _ hb => (ih h.2).bind fun _ hbs => meets_pure (.cons hb hbs)

end Report

namespace Context

open Report

/-- The types that expressions can have. -/
def IsType (cx : Context) (t : Symbol) : Prop := t = cx.names .noType ∨ cx.isKnown t = true

/-- A context in whose hierarchy the basic classes are registered. -/
structure Furnished (cx : Context) : Prop where
  basic : ∀ c ∈ BasicClasses.all cx.names, cx.hierarchy.has c.name = true

variable {cx : Context} {scope : Scope} {line : Line} {cause : Cause} {kept : Bool}
  {name method owner receiver type t a b l r : Symbol} {args : List Symbol}

theorem isKnown_iff : cx.isKnown t = true ↔ cx.hierarchy.Known t := by
  rw [isKnown, Bool.or_eq_true, decide_eq_true_eq]
  rfl

theorem isType_of_has (ht : cx.hierarchy.has t = true) : cx.IsType t :=
  Or.inr (isKnown_iff.mpr (Or.inr ht))

theorem isType_selfType : cx.IsType (cx.names .selfType) := Or.inr (isKnown_iff.mpr (Or.inl rfl))

theorem isType_noType : cx.IsType (cx.names .noType) := Or.inl rfl

theorem ends_require : (cx.require kept line cause).Ends fun _ => True := by
  cases kept with
  | true => exact ends_pure trivial
  | false => exact ends_note _

namespace Furnished

theorem object (hc : cx.Furnished) : cx.hierarchy.has (cx.names .object) = true :=
  hc.basic (BasicClasses.object cx.names) (by simp [BasicClasses.all])

theorem isType_object (hc : cx.Furnished) : cx.IsType (cx.names .object) := isType_of_has hc.object

theorem isType_int (hc : cx.Furnished) : cx.IsType (cx.names .int) :=
  isType_of_has (hc.basic (BasicClasses.int cx.names) (by simp [BasicClasses.all]))

theorem isType_bool (hc : cx.Furnished) : cx.IsType (cx.names .bool) :=
  isType_of_has (hc.basic (BasicClasses.bool cx.names) (by simp [BasicClasses.all]))

theorem isType_string (hc : cx.Furnished) : cx.IsType (cx.names .string) :=
  isType_of_has (hc.basic (BasicClasses.string cx.names) (by simp [BasicClasses.all]))

theorem isType_taken (hc : cx.Furnished) (t : Symbol) : cx.IsType (cx.taken t) := by
  rw [taken]
  split_ifs with ht
  · simpa [IsType, or_comm] using ht
  · exact hc.isType_object

theorem ends_fallBack (hc : cx.Furnished) : (cx.fallBack line cause).Ends cx.IsType :=
  (ends_note _).bind fun _ _ => ends_pure hc.isType_object

theorem ends_expect (hc : cx.Furnished) (ht : kept = true → cx.IsType t) :
    (cx.expect kept line cause t).Ends cx.IsType := by
  rw [expect]
  split_ifs with hk
  · exact ends_pure (ht hk)
  · exact hc.ends_fallBack

theorem ends_identifierType (hc : cx.Furnished) :
    (cx.identifierType scope line name).Ends cx.IsType := by
  rw [identifierType]
  split_ifs
  · exact ends_pure isType_selfType
  · split
    · exact ends_pure (hc.isType_taken _)
    · exact hc.ends_fallBack

theorem ends_assignType (hc : cx.Furnished) (ht : cx.IsType t) :
    (cx.assignType scope line name t).Ends cx.IsType := by
  rw [assignType]
  split_ifs
  · exact hc.ends_fallBack
  · split
    · exact hc.ends_fallBack
    · dsimp only
      split_ifs
      · exact ends_pure ht
      · exact (ends_note _).bind fun _ _ => ends_pure (hc.isType_taken _)

theorem ends_resultType (hc : cx.Furnished) (hr : cx.IsType receiver) :
    (cx.resultType line method receiver t).Ends cx.IsType := by
  rw [resultType]
  split_ifs
  · exact ends_pure hr
  · exact hc.ends_expect isType_of_has

theorem ends_callType (hc : cx.Furnished) (hr : cx.IsType receiver) :
    (cx.callType line owner method receiver args).Ends cx.IsType := by
  rw [callType]
  split
  · exact hc.ends_fallBack
  · split_ifs
    · refine (ends_noteAll _).bind fun _ _ => ?_
      split_ifs
      · exact hc.ends_resultType hr
      · exact ends_pure hc.isType_object
    · exact hc.ends_fallBack

theorem ends_dispatchType (hc : cx.Furnished) (hr : cx.IsType receiver) :
    (cx.dispatchType line method receiver args).Ends cx.IsType := by
  rw [dispatchType]
  split_ifs
  · exact hc.ends_callType hr
  · exact hc.ends_fallBack

theorem ends_staticDispatchType (hc : cx.Furnished) (hr : cx.IsType receiver) :
    (cx.staticDispatchType line owner method receiver args).Ends cx.IsType := by
  rw [staticDispatchType]
  split_ifs
  · exact hc.ends_fallBack
  · exact hc.ends_callType hr
  · exact hc.ends_fallBack

theorem ends_newType (hc : cx.Furnished) : (cx.newType line type).Ends cx.IsType :=
  hc.ends_expect Or.inr

theorem ends_letType (hc : cx.Furnished) : (cx.letType line name type).Ends cx.IsType :=
  (hc.ends_expect Or.inr).bind fun _ ht => ends_require.bind fun _ _ => ends_pure ht

end Furnished

theorem ends_branchScope {before : List Symbol} :
    (cx.branchScope scope before line name type).Ends fun _ => True :=
  ends_require.bind fun _ _ => ends_require.bind fun _ _ => ends_require.bind fun _ _ =>
    ends_pure trivial

theorem Furnished.isType_branchType (hc : cx.Furnished) (ht : cx.IsType t) :
    cx.IsType (cx.branchType type t) := by
  rw [branchType]
  split_ifs
  · exact ht
  · exact hc.isType_object

theorem IsType.of_join {j : Symbol} (ha : cx.IsType a) (hb : cx.IsType b)
    (hj : cx.hierarchy.join cx.current a b = .ok j) : cx.IsType j := by
  rcases Hierarchy.eq_or_has_of_join hj with rfl | rfl | hj
  · exact ha
  · exact hb
  · exact isType_of_has hj

/-- The join of two types that expressions can have is such a type, or breaks off where that is
allowed. -/
def Joins (cx : Context) (breaks : Prop) : Prop :=
  ∀ ⦃a b⦄, cx.IsType a → cx.IsType b → (cx.join a b).Meets breaks cx.IsType

theorem joins_true (cx : Context) : cx.Joins True := by
  intro a b ha hb
  unfold Context.join Report.ofExcept Meets
  split
  · next j hj => exact ha.of_join hb hj
  · trivial

def Typed (cx : Context) (e : Expr) : Prop := ∃ t, e.type? = some t ∧ cx.IsType t

end Context

namespace Expr

open Report Context

variable {cx : Context} {breaks : Prop}

/-- The second expression is the first with a type at every node. -/
structure Annotates (cx : Context) (e e' : Expr) : Prop where
  untyped : e'.untyped = e.untyped
  typed : ∀ x ∈ e'.walk, cx.Typed x

theorem Annotates.node {line : Line} {type? : Option Symbol} {t : Symbol} {f f' : Form Expr}
    (ht : cx.IsType t) (hf : Form.Rel (Annotates cx) f f') :
    Annotates cx (node line type? f) (node line (some t) f') := by
  refine ⟨untyped_node_eq (fun h => h.untyped) hf _ _ _, fun x hx => ?_⟩
  rw [walk_eq, List.mem_cons, List.mem_flatMap] at hx
  rcases hx with rfl | ⟨c', hc', hx⟩
  · exact ⟨t, rfl, ht⟩
  · obtain ⟨c, -, hc⟩ := exists_of_forall₂_mem hf.children.flip hc'
    exact hc.typed x hx

/-- The expression comes out annotated, with its type beside it, unless its check breaks off. -/
def ComesOut (cx : Context) (breaks : Prop) (e : Expr) : Prop :=
  ∀ scope, (e.check cx scope).Meets breaks fun r => cx.IsType r.1 ∧ Annotates cx e r.2

theorem checkList_eq_all (cx : Context) (scope : Scope) (es : List Expr) :
    checkList cx scope es = Report.all (es.map (·.check cx scope)) := by
  induction es with
  | nil => rfl
  | cons e es ih => rw [checkList, ih, List.map_cons, Report.all]

theorem meets_checkList {es : List Expr} (hes : ∀ e ∈ es, e.ComesOut cx breaks) (scope : Scope) :
    (checkList cx scope es).Meets breaks fun rs =>
      (∀ r ∈ rs, cx.IsType r.1) ∧ List.Forall₂ (Annotates cx) es (rs.map (·.2)) := by
  rw [checkList_eq_all]
  refine (meets_all fun e he => hes e he scope).imp fun rs hrs => ⟨fun r hr => ?_, ?_⟩
  · obtain ⟨e, -, he⟩ := exists_of_forall₂_mem hrs.flip hr
    exact he.1
  · exact List.forall₂_map_right_iff.mpr (hrs.imp fun _ _ h => h.2)

theorem meets_checkBranches (hc : cx.Furnished) (hj : cx.Joins breaks) {bs : List (Branch Expr)}
    (hbs : ∀ b ∈ bs, b.body.ComesOut cx breaks) (scope : Scope) (before : List Symbol) {soFar : Symbol}
    (hs : cx.IsType soFar) :
    (checkBranches cx scope before soFar bs).Meets breaks fun r =>
      cx.IsType r.1 ∧ List.Forall₂ (Branch.Rel (Annotates cx)) bs r.2 := by
  induction bs generalizing before soFar with
  | nil => exact meets_pure ⟨hs, .nil⟩
  | cons b bs ih =>
    obtain ⟨name, type, body, line⟩ := b
    rw [List.forall_mem_cons] at hbs
    rw [checkBranches]
    refine ends_branchScope.meets.bind fun inner _ => (hbs.1 inner).bind fun r hr => ?_
    refine (hj hs (hc.isType_branchType hr.1)).bind fun j hjoin => ?_
    exact (ih hbs.2 _ hjoin).bind fun _ hq => meets_pure ⟨hq.1, .cons ⟨hr.2, rfl⟩ hq.2⟩

theorem comesOut (hc : cx.Furnished) (hj : cx.Joins breaks) (e : Expr) : e.ComesOut cx breaks := by
  induction e with
  | assign line type? name value ih =>
    intro scope
    rw [check]
    refine (ih scope).bind fun r hr => (hc.ends_assignType hr.1).meets.bind fun t ht => ?_
    exact meets_pure ⟨ht, .node ht (.assign hr.2)⟩
  | dispatch line type? receiver method args ihr iha =>
    intro scope
    rw [check]
    refine (ihr scope).bind fun r hr => (meets_checkList iha scope).bind fun rs hrs => ?_
    refine (hc.ends_dispatchType hr.1).meets.bind fun t ht => ?_
    exact meets_pure ⟨ht, .node ht (.dispatch hr.2 hrs.2)⟩
  | staticDispatch line type? receiver owner method args ihr iha =>
    intro scope
    rw [check]
    refine (ihr scope).bind fun r hr => (meets_checkList iha scope).bind fun rs hrs => ?_
    refine (hc.ends_staticDispatchType hr.1).meets.bind fun t ht => ?_
    exact meets_pure ⟨ht, .node ht (.staticDispatch hr.2 hrs.2)⟩
  | cond line type? pred yes no ihp ihy ihn =>
    intro scope
    rw [check]
    refine (ihp scope).bind fun p hp => ends_require.meets.bind fun _ _ => ?_
    refine (ihy scope).bind fun y hy => (ihn scope).bind fun n hn => ?_
    refine (hj hy.1 hn.1).bind fun t ht => ?_
    exact meets_pure ⟨ht, .node ht (.cond hp.2 hy.2 hn.2)⟩
  | loop line type? pred body ihp ihb =>
    intro scope
    rw [check]
    refine (ihp scope).bind fun p hp => ends_require.meets.bind fun _ _ => ?_
    refine (ihb scope).bind fun b hb => ?_
    exact meets_pure ⟨hc.isType_object, .node hc.isType_object (.loop hp.2 hb.2)⟩
  | case line type? scrutinee branches ihs ihb =>
    intro scope
    rw [check]
    refine (ihs scope).bind fun s hs => ?_
    refine (meets_checkBranches hc hj ihb scope [] isType_noType).bind fun q hq => ?_
    exact meets_pure ⟨hq.1, .node hq.1 (.case hs.2 hq.2)⟩
  | block line type? body ih =>
    intro scope
    rw [check]
    refine (meets_checkList ih scope).bind fun rs hrs => ?_
    have ht : cx.IsType ((rs.getLast?.map (·.1)).getD (cx.names .noType)) := by
      cases hl : rs.getLast? with
      | none => exact isType_noType
      | some r => exact hrs.1 r (List.mem_of_getLast? hl)
    exact meets_pure ⟨ht, .node ht (.block hrs.2)⟩
  | letIn line type? name type init body ihi ihb =>
    intro scope
    rw [check]
    refine hc.ends_letType.meets.bind fun declared _ => (ihi scope).bind fun i hi => ?_
    refine ends_require.meets.bind fun _ _ => (ihb _).bind fun b hb => ?_
    exact meets_pure ⟨hb.1, .node hb.1 (.letIn hi.2 hb.2)⟩
  | arith line type? op lhs rhs ihl ihr =>
    intro scope
    rw [check]
    refine (ihl scope).bind fun l hl => (ihr scope).bind fun r hr => ?_
    refine (hc.ends_expect fun _ => hc.isType_int).meets.bind fun t ht => ?_
    exact meets_pure ⟨ht, .node ht (.arith hl.2 hr.2)⟩
  | compare line type? op lhs rhs ihl ihr =>
    intro scope
    rw [check]
    refine (ihl scope).bind fun l hl => (ihr scope).bind fun r hr => ?_
    refine (hc.ends_expect fun _ => hc.isType_bool).meets.bind fun t ht => ?_
    exact meets_pure ⟨ht, .node ht (.compare hl.2 hr.2)⟩
  | eq line type? lhs rhs ihl ihr =>
    intro scope
    rw [check]
    refine (ihl scope).bind fun l hl => (ihr scope).bind fun r hr => ?_
    refine (hc.ends_expect fun _ => hc.isType_bool).meets.bind fun t ht => ?_
    exact meets_pure ⟨ht, .node ht (.eq hl.2 hr.2)⟩
  | neg line type? operand ih =>
    intro scope
    rw [check]
    refine (ih scope).bind fun o ho => ?_
    refine (hc.ends_expect fun _ => hc.isType_int).meets.bind fun t ht => ?_
    exact meets_pure ⟨ht, .node ht (.neg ho.2)⟩
  | not line type? operand ih =>
    intro scope
    rw [check]
    refine (ih scope).bind fun o ho => ?_
    refine (hc.ends_expect fun _ => hc.isType_bool).meets.bind fun t ht => ?_
    exact meets_pure ⟨ht, .node ht (.not ho.2)⟩
  | isVoid line type? operand ih =>
    intro scope
    rw [check]
    refine (ih scope).bind fun o ho => ?_
    exact meets_pure ⟨hc.isType_bool, .node hc.isType_bool (.isVoid ho.2)⟩
  | int line type? value =>
    intro scope
    rw [check]
    exact meets_pure ⟨hc.isType_int, .node hc.isType_int .int⟩
  | string line type? value =>
    intro scope
    rw [check]
    exact meets_pure ⟨hc.isType_string, .node hc.isType_string .string⟩
  | bool line type? value =>
    intro scope
    rw [check]
    exact meets_pure ⟨hc.isType_bool, .node hc.isType_bool .bool⟩
  | new line type? type =>
    intro scope
    rw [check]
    refine hc.ends_newType.meets.bind fun t ht => ?_
    exact meets_pure ⟨ht, .node ht .new⟩
  | identifier line type? name =>
    intro scope
    rw [check]
    refine hc.ends_identifierType.meets.bind fun t ht => ?_
    exact meets_pure ⟨ht, .node ht .identifier⟩
  | absent line type? =>
    intro scope
    rw [check]
    exact meets_pure ⟨isType_noType, .node isType_noType .absent⟩

end Expr

structure Feature.Annotates (cx : Context) (f f' : Feature) : Prop where
  untyped : f'.untyped = f.untyped
  typed : ∀ x ∈ f'.body.walk, cx.Typed x

namespace Context

open Report

variable {cx : Context} {breaks : Prop}

theorem Furnished.ends_bindFormals (hc : cx.Furnished) (scope : Scope) (fs : List Formal) :
    (cx.bindFormals scope fs).Ends fun _ => True := by
  induction fs generalizing scope with
  | nil => exact ends_pure trivial
  | cons f fs ih =>
    rw [bindFormals]
    split_ifs
    · exact (ends_note _).bind fun _ _ => ih _
    · refine ends_require.bind fun _ _ => ?_
      refine (hc.ends_expect fun hk => isType_of_has ?_).bind fun _ _ => ih _
      exact (Bool.and_eq_true_iff.mp hk).2

theorem meets_checkMethod (hc : cx.Furnished) (hj : cx.Joins breaks) (scope : Scope) (m : Method) :
    (cx.checkMethod scope m).Meets breaks fun m' =>
      Feature.Annotates cx (.method m) (.method m') := by
  rw [checkMethod]
  split
  on_goal 1 => refine (ends_note _).meets.bind fun _ _ => ?_
  all_goals
    refine (hc.ends_expect Or.inr).meets.bind fun declared _ => ?_
    refine (hc.ends_bindFormals _ _).meets.bind fun inner _ => ?_
    refine (Expr.comesOut hc hj m.body _).bind fun r hr => ends_require.meets.bind fun _ _ => ?_
    exact meets_pure ⟨by simp only [Feature.untyped, hr.2.untyped], hr.2.typed⟩

theorem meets_checkAttr (hc : cx.Furnished) (hj : cx.Joins breaks) (scope : Scope) (a : Attribute) :
    (cx.checkAttr scope a).Meets breaks fun a' => Feature.Annotates cx (.attr a) (.attr a') := by
  rw [checkAttr]
  refine ends_require.meets.bind fun _ _ => (hc.ends_expect Or.inr).meets.bind fun declared _ => ?_
  refine (Expr.comesOut hc hj a.init _).bind fun r hr => ends_require.meets.bind fun _ _ => ?_
  exact meets_pure ⟨by simp only [Feature.untyped, hr.2.untyped], hr.2.typed⟩

theorem meets_checkFeature (hc : cx.Furnished) (hj : cx.Joins breaks) (scope : Scope) (f : Feature) :
    (cx.checkFeature scope f).Meets breaks (Feature.Annotates cx f) := by
  cases f with
  | method m => exact (meets_checkMethod hc hj scope m).bind fun _ hm => meets_pure hm
  | attr a => exact (meets_checkAttr hc hj scope a).bind fun _ ha => meets_pure ha

theorem checkFeatures_eq_all (cx : Context) (fs : List Feature) :
    cx.checkFeatures fs = Report.all (fs.map (cx.checkFeature cx.classScope.push)) := by
  induction fs with
  | nil => rfl
  | cons f fs ih => rw [checkFeatures, ih, List.map_cons, Report.all]

end Context

structure ClassDecl.Annotates (h : Hierarchy) (c c' : ClassDecl) : Prop where
  untyped : c'.untyped = c.untyped
  typed : ∀ x ∈ c'.walk, (c.context h).Typed x

theorem ClassDecl.meets_check {h : Hierarchy} {c : ClassDecl} {breaks : Prop}
    (hc : (c.context h).Furnished) (hj : (c.context h).Joins breaks) :
    (c.check h).Meets breaks (c.Annotates h) := by
  rw [check, Context.checkFeatures_eq_all]
  refine (Report.meets_all fun f _ => Context.meets_checkFeature hc hj _ f).bind fun fs' hrel => ?_
  refine Report.meets_pure ⟨?_, fun x hx => ?_⟩
  · simp only [untyped, map_eq_of_forall₂ (fun hf => hf.untyped) hrel]
  · obtain ⟨f', hf', hx⟩ := List.mem_flatMap.mp hx
    obtain ⟨f, -, hf⟩ := exists_of_forall₂_mem hrel.flip hf'
    exact hf.typed x hx

theorem Hierarchy.Enrols.furnished {h : Hierarchy} {p : Program} (en : h.Enrols p) (c : ClassDecl) :
    (c.context h).Furnished :=
  ⟨fun _ hb => en.has_basic hb⟩

end CoolStatics
