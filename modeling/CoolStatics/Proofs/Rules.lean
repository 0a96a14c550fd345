import CoolStatics.Analysis
import Mathlib.Data.List.Forall2
import Mathlib.Tactic.Tauto

/-!
Reports that note nothing. A computation gives a value if it comes to that end without a fault; each
typing rule gives a type exactly under the rule's own conditions.
-/
namespace CoolStatics

theorem exists_of_forall₂_append {α β : Type} {R : α → β → Prop} {l₁ l₂ : List α} {u : List β}
    (h : List.Forall₂ R (l₁ ++ l₂) u) :
    ∃ u₁ u₂, List.Forall₂ R l₁ u₁ ∧ List.Forall₂ R l₂ u₂ ∧ u = u₁ ++ u₂ := by
  induction l₁ generalizing u with
  | nil => exact ⟨[], u, .nil, h, rfl⟩
  | cons a l₁ ih =>
    obtain ⟨b, u, hab, hu, rfl⟩ := List.forall₂_cons_left_iff.mp h
    obtain ⟨u₁, u₂, h₁, h₂, rfl⟩ := ih hu
    exact ⟨b :: u₁, u₂, .cons hab h₁, h₂, rfl⟩

theorem exists_of_forall₂_mem {α β : Type} {R : α → β → Prop} {l : List α} {u : List β} {a : α}
    (h : List.Forall₂ R l u) (ha : a ∈ l) : ∃ b ∈ u, R a b := by
  obtain ⟨l₁, l₂, rfl⟩ := List.append_of_mem ha
  obtain ⟨u₁, _, -, hu, rfl⟩ := exists_of_forall₂_append h
  obtain ⟨b, u₂, hab, -, rfl⟩ := List.forall₂_cons_left_iff.mp hu
  exact ⟨b, List.mem_append_right _ List.mem_cons_self, hab⟩

theorem forall₂_trans {α β γ : Type} {R : α → β → Prop} {S : β → γ → Prop} {T : α → γ → Prop}
    {l : List α} {m : List β} {u : List γ} (hR : List.Forall₂ R l m) (hS : List.Forall₂ S m u)
    (hT : ∀ a ∈ l, ∀ b c, R a b → S b c → T a c) : List.Forall₂ T l u := by
  induction hR generalizing u with
  | nil =>
    cases hS
    exact .nil
  | cons hab _ ih =>
    rw [List.forall_mem_cons] at hT
    cases hS with
    | cons hbc hS => exact .cons (hT.1 _ _ hab hbc) (ih hS hT.2)

namespace Report

variable {α β : Type}

/-- Comes to the end `a` and notes nothing on the way. -/
def Gives (r : Report α) (a : α) : Prop := r = pure a

theorem gives_pure {a b : α} : (pure a : Report α).Gives b ↔ a = b := by
  simp [Gives]

theorem gives_bind {r : Report α} {f : α → Report β} {b : β} :
    (r >>= f).Gives b ↔ ∃ a, r.Gives a ∧ (f a).Gives b := by
  obtain ⟨fs, x⟩ := r
  cases x with
  | error e => simp [Gives]
  | ok a =>
    simp only [Gives, mk_ok_bind, pure_eq, mk.injEq, List.append_eq_nil_iff, Except.ok.injEq]
    constructor
    · rintro ⟨⟨hfs, hga⟩, ho⟩
      exact ⟨a, ⟨hfs, rfl⟩, by rw [← hga, ← ho]⟩
    · rintro ⟨_, ⟨hfs, rfl⟩, hf⟩
      simp [hfs, hf]

theorem gives_ofExcept {x : Except NoCommonAncestor α} {a : α} :
    (ofExcept x).Gives a ↔ x = .ok a := by
  simp [Gives, ofExcept]

theorem gives_noteAll {fs : List Fault} {u : Unit} : (noteAll fs).Gives u ↔ fs = [] := by
  simp [Gives, noteAll]

theorem not_gives_note {f : Fault} {u : Unit} : ¬(note f).Gives u := by
  simp [Gives, note]

theorem Gives.unique {r : Report α} {a b : α} (ha : r.Gives a) (hb : r.Gives b) : a = b :=
  gives_pure.mp (ha ▸ hb)

theorem gives_iff {r : Report α} {a : α} : r.Gives a ↔ r.faults = [] ∧ r.outcome = .ok a := by
  obtain ⟨fs, x⟩ := r
  simp [Gives]

theorem gives_all {rs : List (Report α)} {as : List α} :
    (all rs).Gives as ↔ List.Forall₂ Gives rs as := by
  induction rs generalizing as with
  | nil => simp [all, Gives, eq_comm]
  | cons r rs ih =>
    simp only [all, gives_bind, gives_pure, ih]
    constructor
    · rintro ⟨a, ha, others, ho, rfl⟩
      exact .cons ha ho
    · rintro (_ | ⟨ha, ho⟩)
      exact ⟨_, ha, _, ho, rfl⟩

end Report

namespace Context

open Report

variable {cx : Context} {line : Line} {cause : Cause} {kept : Bool} {scope : Scope}
  {name method owner receiver type t s l r : Symbol}

theorem not_gives_note {u : Unit} : ¬(cx.note line cause).Gives u := Report.not_gives_note

theorem not_gives_fallBack : ¬(cx.fallBack line cause).Gives t := by
  rw [fallBack, gives_bind]
  rintro ⟨_, hn, -⟩
  exact not_gives_note hn

theorem gives_require {u : Unit} : (cx.require kept line cause).Gives u ↔ kept = true := by
  cases kept with
  | true => simp [require, Gives]
  | false => simp [require, not_gives_note]

theorem gives_expect : (cx.expect kept line cause type).Gives t ↔ kept = true ∧ type = t := by
  cases kept with
  | true => simp [expect, Gives]
  | false => simp [expect, not_gives_fallBack]

theorem gives_join {a b j : Symbol} :
    (cx.join a b).Gives j ↔ cx.hierarchy.join cx.current a b = .ok j := gives_ofExcept

theorem gives_identifierType :
    (cx.identifierType scope line name).Gives t ↔
      name = cx.names .self ∧ cx.names .selfType = t ∨
        name ≠ cx.names .self ∧ ∃ d, cx.objectType? scope name = some d ∧ cx.taken d = t := by
  rw [identifierType]
  by_cases hn : name = cx.names .self
  · simp [hn, Gives]
  · rw [if_neg hn]
    cases cx.objectType? scope name with
    | none => simp [hn, not_gives_fallBack]
    | some d => simp [hn, Gives]

theorem gives_assignType :
    (cx.assignType scope line name s).Gives t ↔
      name ≠ cx.names .self ∧
        ∃ d, cx.objectType? scope name = some d ∧ cx.conforms (cx.taken d) s = true ∧ s = t := by
  rw [assignType]
  by_cases hn : name = cx.names .self
  · simp [hn, not_gives_fallBack]
  · rw [if_neg hn]
    cases cx.objectType? scope name with
    | none => simp [not_gives_fallBack]
    | some d =>
      by_cases hc : cx.conforms (cx.taken d) s = true
      · simp [hn, hc, Gives]
      · simp [hn, hc, gives_bind, not_gives_note]

/-- The value that a method with the declared result returns to a caller. -/
def Returns (cx : Context) (receiver result t : Symbol) : Prop :=
  result = cx.names .selfType ∧ receiver = t ∨
    result ≠ cx.names .selfType ∧ cx.hierarchy.has result = true ∧ result = t

theorem gives_resultType {result : Symbol} :
    (cx.resultType line method receiver result).Gives t ↔ cx.Returns receiver result t := by
  rw [resultType, Returns]
  split_ifs with hs
  · simp [hs, Gives]
  · simp [hs, gives_expect]

/-- As many arguments as there are declared types, each conforming to its own. -/
def Accepts (cx : Context) (declared args : List Symbol) : Prop :=
  List.Forall₂ (fun d a => cx.conforms d a = true) declared args

theorem accepts_iff {formals : List Formal} {args : List Symbol} :
    cx.Accepts (formals.map (·.type)) args ↔
      formals.length = args.length ∧ cx.misfits (formals.zip args) = [] := by
  rw [Accepts, List.forall₂_map_left_iff, List.forall₂_iff_zip, misfits, List.filter_eq_nil_iff]
  constructor
  · rintro ⟨hlen, hall⟩
    refine ⟨hlen, fun p hp => ?_⟩
    simpa using hall (show (p.1, p.2) ∈ _ from hp)
  · rintro ⟨hlen, hall⟩
    refine ⟨hlen, fun {d a} hp => ?_⟩
    simpa using hall (d, a) hp

theorem gives_callType {args : List Symbol} :
    (cx.callType line owner method receiver args).Gives t ↔
      ∃ sig, cx.hierarchy.findMethod? owner method = some sig ∧
        cx.Accepts sig.types args ∧ cx.Returns receiver sig.result t := by
  rw [callType]
  cases cx.hierarchy.findMethod? owner method with
  | none => simp [not_gives_fallBack]
  | some sig =>
    have hacc : cx.Accepts sig.types args ↔
        sig.arity = args.length ∧ cx.misfits (sig.formals.zip args) = [] := accepts_iff
    simp only [Option.some.injEq, exists_eq_left', hacc]
    by_cases hlen : sig.arity = args.length
    · rw [if_pos hlen, gives_bind]
      by_cases hm : cx.misfits (sig.formals.zip args) = []
      · simp [hm, hlen, noteAll, gives_noteAll, gives_resultType]
      · simp [hm, noteAll, gives_noteAll]
    · simp [hlen, not_gives_fallBack]

theorem gives_dispatchType {args : List Symbol} :
    (cx.dispatchType line method receiver args).Gives t ↔
      cx.hierarchy.has (cx.hierarchy.denoted cx.current receiver) = true ∧
        ∃ sig, cx.hierarchy.findMethod? (cx.hierarchy.denoted cx.current receiver) method = some sig ∧
          cx.Accepts sig.types args ∧ cx.Returns receiver sig.result t := by
  rw [dispatchType]
  split_ifs with ho
  · simp only [ho, true_and, gives_callType]
  · simp [ho, not_gives_fallBack]

theorem gives_staticDispatchType {args : List Symbol} :
    (cx.staticDispatchType line owner method receiver args).Gives t ↔
      owner ≠ cx.names .selfType ∧ cx.hierarchy.has owner = true ∧
        cx.conforms owner receiver = true ∧
        ∃ sig, cx.hierarchy.findMethod? owner method = some sig ∧
          cx.Accepts sig.types args ∧ cx.Returns receiver sig.result t := by
  rw [staticDispatchType]
  split_ifs with ho hc
  · have hno : ¬(owner ≠ cx.names .selfType ∧ cx.hierarchy.has owner = true) := by
      rintro ⟨h₁, h₂⟩
      rcases ho with ho | ho
      · exact h₁ ho
      · rw [h₂] at ho
        cases ho
    rw [← and_assoc]
    simp [hno, not_gives_fallBack]
  · rw [not_or, Bool.not_eq_false] at ho
    simp only [ne_eq, ho.1, not_false_eq_true, ho.2, hc, true_and, gives_callType]
  · simp [hc, not_gives_fallBack]

theorem gives_checkPredicate {of : Guarded} {u : Unit} :
    (cx.checkPredicate of line type).Gives u ↔ type = cx.names .bool := by
  rw [checkPredicate, gives_require, decide_eq_true_iff]

theorem gives_arithType {op : ArithOp} :
    (cx.arithType op line l r).Gives t ↔
      (l = cx.names .int ∧ r = cx.names .int) ∧ cx.names .int = t := by
  rw [arithType, gives_expect, Bool.and_eq_true, decide_eq_true_iff, decide_eq_true_iff]

theorem gives_compareType {op : CompareOp} :
    (cx.compareType op line l r).Gives t ↔
      (l = cx.names .int ∧ r = cx.names .int) ∧ cx.names .bool = t := by
  rw [compareType, gives_expect, Bool.and_eq_true, decide_eq_true_iff, decide_eq_true_iff]

theorem gives_eqType :
    (cx.eqType line l r).Gives t ↔
      (l = r ∨ cx.names.isPrimitive l = false ∧ cx.names.isPrimitive r = false) ∧
        cx.names .bool = t := by
  rw [eqType, gives_expect, Bool.or_eq_true, decide_eq_true_iff, Bool.not_eq_true',
    Bool.or_eq_false_iff]

theorem gives_negType :
    (cx.negType line s).Gives t ↔ s = cx.names .int ∧ cx.names .int = t := by
  rw [negType, gives_expect, decide_eq_true_iff]

theorem gives_notType :
    (cx.notType line s).Gives t ↔ s = cx.names .bool ∧ cx.names .bool = t := by
  rw [notType, gives_expect, decide_eq_true_iff]

theorem gives_newType :
    (cx.newType line type).Gives t ↔ cx.isKnown type = true ∧ type = t := gives_expect

theorem gives_letType :
    (cx.letType line name type).Gives t ↔
      (cx.isKnown type = true ∧ name ≠ cx.names .self) ∧ type = t := by
  simp only [letType, gives_bind, gives_expect, gives_require, gives_pure, decide_eq_true_iff]
  constructor
  · rintro ⟨_, ⟨hk, rfl⟩, _, hn, rfl⟩
    exact ⟨⟨hk, hn⟩, rfl⟩
  · rintro ⟨⟨hk, hn⟩, rfl⟩
    exact ⟨type, ⟨hk, rfl⟩, (), hn, rfl⟩

theorem gives_branchScope {before : List Symbol} {inner : Scope} :
    (cx.branchScope scope before line name type).Gives inner ↔
      (type ∉ before ∧ cx.isKnown type = true ∧ name ≠ cx.names .self) ∧
        cx.extend scope name type = inner := by
  simp only [branchScope, gives_bind, gives_require, gives_pure, Bool.not_eq_true',
    List.contains_eq_mem, decide_eq_false_iff_not, decide_eq_true_iff]
  constructor
  · rintro ⟨_, hb, _, hk, _, hn, rfl⟩
    exact ⟨⟨hb, hk, hn⟩, by rw [if_pos hk]⟩
  · rintro ⟨⟨hb, hk, hn⟩, rfl⟩
    exact ⟨(), hb, (), hk, (), hn, by rw [if_pos hk]⟩

end Context

/-- Of the same types, and so not told apart by callers. -/
def Signature.Alike (s s' : Signature) : Prop := s.types = s'.types ∧ s.result = s'.result

/-- A method departs from a signature unless it has the same types. -/
theorem Method.departure?_eq_none_iff {m : Method} {s : Signature} :
    m.departure? s = none ↔ m.formals.map (·.type) = s.types ∧ m.result = s.result := by
  have hzip : m.formals.map (·.type) = s.types ↔ m.formals.length = s.arity ∧
      ((m.formals.map (·.type)).zip s.types).find? (fun p => p.1 ≠ p.2) = none := by
    rw [← List.forall₂_eq_eq_eq, List.forall₂_iff_zip, List.length_map, Signature.types,
      List.length_map, List.find?_eq_none]
    simp only [decide_eq_true_eq, ne_eq, Prod.forall, Decidable.not_not]
    rfl
  rw [departure?, hzip]
  by_cases hlen : m.formals.length = s.arity
  · cases hf : ((m.formals.map (·.type)).zip s.types).find? fun p => p.1 ≠ p.2 with
    | some p => simp [hlen]
    | none => simp [hlen]
  · simp [hlen]

namespace Context

open Report

variable {cx : Context} {scope : Scope}

theorem gives_checkMethod {m m₁ : Method} :
    (cx.checkMethod scope m).Gives m₁ ↔
      (∀ s, cx.hierarchy.inheritedMethod? cx.current m.name = some s →
        m.formals.map (·.type) = s.types ∧ m.result = s.result) ∧
      cx.isKnown m.result = true ∧
      ∃ inner, (cx.bindFormals scope.push m.formals).Gives inner ∧
        ∃ t body, (m.body.check cx inner.push).Gives (t, body) ∧
          cx.conforms m.result t = true ∧ { m with body } = m₁ := by
  have hinh : (∀ s, cx.hierarchy.inheritedMethod? cx.current m.name = some s →
      m.formals.map (·.type) = s.types ∧ m.result = s.result) ↔
      (cx.hierarchy.inheritedMethod? cx.current m.name).bind m.departure? = none := by
    simp only [Option.bind_eq_none_iff, Method.departure?_eq_none_iff]
  rw [hinh, checkMethod]
  split
  · next how hsome =>
    rw [hsome, gives_bind]
    simp [not_gives_note]
  · next hnone =>
    simp only [hnone, true_and, gives_bind, gives_expect, gives_require, gives_pure, Prod.exists]
    constructor
    · rintro ⟨_, ⟨hk, rfl⟩, inner, hi, t, body, ht, _, hc, rfl⟩
      exact ⟨hk, inner, hi, t, body, ht, hc, rfl⟩
    · rintro ⟨hk, inner, hi, t, body, ht, hc, rfl⟩
      exact ⟨_, ⟨hk, rfl⟩, inner, hi, t, body, ht, (), hc, rfl⟩

theorem gives_checkAttr {a a₁ : Attribute} :
    (cx.checkAttr scope a).Gives a₁ ↔
      (a.name = cx.names .self ∨ cx.hierarchy.inheritedAttr? cx.current a.name = none) ∧
      cx.isKnown a.type = true ∧
      ∃ t init, (a.init.check cx scope.push).Gives (t, init) ∧
        cx.conforms a.type t = true ∧ { a with init } = a₁ := by
  simp only [checkAttr, gives_bind, gives_require, gives_expect, gives_pure, Prod.exists,
    Bool.or_eq_true, decide_eq_true_eq, Option.isNone_iff_eq_none]
  constructor
  · rintro ⟨_, hname, _, ⟨hk, rfl⟩, t, init, ht, _, hc, rfl⟩
    exact ⟨hname, hk, t, init, ht, hc, rfl⟩
  · rintro ⟨hname, hk, t, init, ht, hc, rfl⟩
    exact ⟨(), hname, _, ⟨hk, rfl⟩, t, init, ht, (), hc, rfl⟩

/-- Without an initialiser an attribute is checked for its name and its type only, since what is absent
conforms to every type. -/
theorem checkAttr_of_isAbsent {a : Attribute} (ha : a.init.isAbsent = true) :
    cx.checkAttr scope a = (do
      cx.require (a.name = cx.names .self || (cx.hierarchy.inheritedAttr? cx.current a.name).isNone)
        a.line (.attributeInherited a.name)
      let _ ← cx.expect (cx.isKnown a.type) a.line (.undefinedAttributeType a.name a.type) a.type
      pure { a with init := .node a.init.line (some (cx.names .noType)) .absent }) := by
  obtain ⟨name, type, ⟨line, type?, f⟩, at_⟩ := a
  obtain rfl : f = .absent := Expr.isAbsent_iff.mp ha
  have hconf : ∀ declared, cx.conforms declared (cx.names .noType) = true := fun _ => if_pos rfl
  simp only [checkAttr, Expr.check, Expr.typed, pure_bind, hconf]
  rfl

theorem gives_checkFeatures {fs fs₁ : List Feature} :
    (cx.checkFeatures fs).Gives fs₁ ↔
      List.Forall₂ (fun f f₁ => (cx.checkFeature cx.classScope.push f).Gives f₁) fs fs₁ := by
  induction fs generalizing fs₁ with
  | nil => simp [checkFeatures, Gives, eq_comm]
  | cons f fs ih =>
    simp only [checkFeatures, gives_bind, gives_pure, ih]
    constructor
    · rintro ⟨f₁, hf, others, ho, rfl⟩
      exact .cons hf ho
    · rintro (_ | ⟨hf, ho⟩)
      exact ⟨_, hf, _, ho, rfl⟩

end Context

theorem ClassDecl.gives_check {h : Hierarchy} {c c₁ : ClassDecl} :
    (c.check h).Gives c₁ ↔
      List.Forall₂ (fun f f₁ => ((c.context h).checkFeature (c.context h).classScope.push f).Gives f₁)
        c.features c₁.features ∧ { c with features := c₁.features } = c₁ := by
  rw [check, Report.gives_bind]
  simp only [Report.gives_pure, Context.gives_checkFeatures]
  constructor
  · rintro ⟨fs, hfs, rfl⟩
    exact ⟨hfs, rfl⟩
  · rintro ⟨hfs, heq⟩
    exact ⟨_, hfs, heq⟩

namespace Program

variable {p : Program} {i : Interner}

theorem analyse_hierarchy (p : Program) (i : Interner) :
    (p.analyse i).hierarchy = (Hierarchy.build (Vocabulary.intern i).1 p).hierarchy := rfl

theorem analyse_checked_iff {classes : List (Report ClassDecl)} :
    (p.analyse i).conclusion = .checked classes ↔
      (Hierarchy.build (Vocabulary.intern i).1 p).outlineFaults = [] ∧
        p.classes.map (·.check (p.analyse i).hierarchy) = classes := by
  rw [analyse_hierarchy]
  simp only [analyse]
  split_ifs with hf
  · rw [List.isEmpty_iff] at hf
    simp [hf]
  · rw [List.isEmpty_iff] at hf
    simp [hf]

theorem analyse_halted_iff {faults : List Fault} :
    (p.analyse i).conclusion = .halted faults ↔
      (Hierarchy.build (Vocabulary.intern i).1 p).outlineFaults ≠ [] ∧
        (Hierarchy.build (Vocabulary.intern i).1 p).outlineFaults = faults := by
  simp only [analyse]
  split_ifs with hf
  · rw [List.isEmpty_iff] at hf
    simp [hf]
  · rw [List.isEmpty_iff] at hf
    simp [hf]

theorem analyse_verdict_eq (p : Program) (i : Interner) :
    (p.analyse i).verdict =
      if (p.analyse i).registration.outlineFaults = [] then
        (Report.all (p.classes.map (·.check (p.analyse i).hierarchy))).outcome.map fun cs =>
          ⟨⟨cs⟩, (Report.all (p.classes.map (·.check (p.analyse i).hierarchy))).faults⟩
      else .ok ⟨p, (p.analyse i).registration.outlineFaults⟩ := by
  rw [Analysis.verdict]
  split_ifs with hf
  · rw [analyse_checked_iff.mpr ⟨hf, rfl⟩]
  · rw [analyse_halted_iff.mpr ⟨hf, rfl⟩]
    rfl

/-- An analysis that finds nothing has an outline in order, and its verdict holds what the classes
come out as. -/
theorem analyse_verdict_iff {v : Verdict} (hv : v.faults = []) :
    (p.analyse i).verdict = .ok v ↔
      (Hierarchy.build (Vocabulary.intern i).1 p).outlineFaults = [] ∧
        List.Forall₂ (fun c c₁ => (c.check (p.analyse i).hierarchy).Gives c₁) p.classes
          v.program.classes := by
  obtain ⟨⟨cs⟩, fs⟩ := v
  obtain rfl : fs = [] := hv
  have hall : (Report.all (p.classes.map (·.check (p.analyse i).hierarchy))).Gives cs ↔
      List.Forall₂ (fun c c₁ => (c.check (p.analyse i).hierarchy).Gives c₁) p.classes cs := by
    rw [Report.gives_all, List.forall₂_map_left_iff]
  have hout : (Hierarchy.build (Vocabulary.intern i).1 p).outlineFaults =
      (p.analyse i).registration.outlineFaults := rfl
  rw [← hall, Report.gives_iff, analyse_verdict_eq, hout]
  split_ifs with hf
  · cases (Report.all (p.classes.map (·.check (p.analyse i).hierarchy))).outcome with
    | error e => simp [hf, Except.map]
    | ok cs' => simp [hf, Except.map, and_comm]
  · simp [hf]

end Program
end CoolStatics
