import CoolStatics.Proofs.Comparison
import CoolStatics.Proofs.Checking
import CoolStatics.Proofs.Joins
import Mathlib.Algebra.Order.Group.Multiset
import Mathlib.Tactic.Abel

/-!
Reports up to the order of what they note. A case gets its type from its branches one after another,
and yet it does not matter which comes first: two joins in a row can be exchanged, and of branches with
one type all but the first are found out, whichever that is.
-/
namespace CoolStatics

open Report

namespace Report

variable {α β : Type}

/-- What there is to see of a report if neither the order of the faults nor their places count: nothing
if it broke off, else the causes beside the result. -/
def seen (r : Report α) : Option (Multiset Cause × α) :=
  match r.outcome with
  | .ok a => some (↑(r.faults.map (·.cause)), a)
  | .error _ => none

@[simp] theorem seen_pure (a : α) : (pure a : Report α).seen = some (0, a) := rfl

theorem seen_bind (r : Report α) (f : α → Report β) :
    (r >>= f).seen = r.seen.bind fun x => (f x.2).seen.map fun y => (x.1 + y.1, y.2) := by
  obtain ⟨fs, x⟩ := r
  cases x with
  | error e => rfl
  | ok a =>
    rcases hfa : f a with ⟨gs, y⟩
    rw [mk_ok_bind, hfa]
    cases y <;> simp [seen, hfa]

theorem seen_map (g : α → β) (r : Report α) :
    (g <$> r).seen = r.seen.map fun x => (x.1, g x.2) := by
  rw [map_eq_pure_bind, seen_bind]
  cases r.seen <;> simp [-pure_eq]

theorem seen_eq_some_iff {r : Report α} {m : Multiset Cause} {a : α} :
    r.seen = some (m, a) ↔ r.outcome = .ok a ∧ ↑(r.faults.map (·.cause)) = m := by
  obtain ⟨fs, x⟩ := r
  cases x <;> simp [seen, and_comm]

/-- Reports that look the same when neither the order of the faults nor their places count. -/
def shuffled : Relator where
  rel S r r' := Option.Rel (fun x y => x.1 = y.1 ∧ S x.2 y.2) r.seen r'.seen
  refl r := by
    cases r.seen with
    | none => exact .none
    | some x => exact .some ⟨rfl, rfl⟩
  pure hab := .some ⟨rfl, hab⟩
  bindOk {_ _ _ _ _ _ r r' f f'} hr hf := by
    rw [seen_bind, seen_bind]
    generalize hu : r.seen = u, r'.seen = u' at hr
    cases hr with
    | none => exact .none
    | @some x y hxy =>
      have hrest := hf x.2 y.2 (seen_eq_some_iff.mp hu).1 hxy.2
      rw [Option.bind_some, Option.bind_some, hxy.1]
      generalize (f x.2).seen = v, (f' y.2).seen = v' at hrest
      cases hrest with
      | none => exact .none
      | some hrest => exact .some ⟨congrArg (y.1 + ·) hrest.1, hrest.2⟩

variable {r r' : Report α} {g : α → β} {S T : α → α → Prop}

theorem shuffled_iff :
    shuffled.rel S r r' ↔ Option.Rel (fun x y => x.1 = y.1 ∧ S x.2 y.2) r.seen r'.seen := Iff.rfl

theorem shuffled_of_seen (h : (g <$> r).seen = (g <$> r').seen) :
    shuffled.rel (fun a b => g a = g b) r r' := by
  rw [seen_map, seen_map] at h
  rw [shuffled_iff]
  cases hx : r.seen <;> cases hy : r'.seen <;> rw [hx, hy] at h
  · exact .none
  · cases h
  · cases h
  · exact .some (Prod.mk.inj (Option.some.inj h))

theorem seen_map_of_shuffled (h : shuffled.rel S r r') (hS : ∀ a b, S a b → g a = g b) :
    (g <$> r).seen = (g <$> r').seen := by
  rw [seen_map, seen_map]
  rw [shuffled_iff] at h
  generalize r.seen = u, r'.seen = u' at h
  cases h with
  | none => rfl
  | some hxy => exact congrArg some (Prod.ext hxy.1 (hS _ _ hxy.2))

theorem shuffled_cases : shuffled.rel S r r' ↔
    (∃ e e', r.outcome = .error e ∧ r'.outcome = .error e') ∨
      ∃ a b, r.outcome = .ok a ∧ r'.outcome = .ok b ∧ S a b ∧
        (r.faults.map (·.cause)).Perm (r'.faults.map (·.cause)) := by
  obtain ⟨fs, x⟩ := r
  obtain ⟨fs', x'⟩ := r'
  rw [shuffled_iff]
  cases x <;> cases x' <;> simp [seen, and_comm]

theorem exists_of_shuffled {a : α} (h : shuffled.rel S r r') (ha : r.outcome = .ok a) :
    ∃ b, r'.outcome = .ok b ∧ S a b := by
  obtain ⟨e, -, he, -⟩ | ⟨a', b, ha', hb, hab, -⟩ := shuffled_cases.mp h
  · rw [he] at ha
    cases ha
  · rw [ha'] at ha
    exact ⟨b, hb, Except.ok.inj ha ▸ hab⟩

theorem shuffled_imp (h : shuffled.rel S r r')
    (hT : ∀ a b, r.outcome = .ok a → r'.outcome = .ok b → S a b → T a b) : shuffled.rel T r r' := by
  rw [shuffled_cases] at h ⊢
  refine h.imp_right ?_
  rintro ⟨a, b, ha, hb, hab, hperm⟩
  exact ⟨a, b, ha, hb, hT a b ha hb hab, hperm⟩

end Report

namespace Context

/-- The context of a class that is registered, as the basic classes are, where no class has the name
`_no_type`. -/
structure Enrolled (cx : Context) : Prop extends Furnished cx where
  regular : cx.hierarchy.Regular
  noType : cx.hierarchy.has (cx.names .noType) = false
  current : cx.hierarchy.has cx.current = true

theorem operand_iff {cx : Context} {t : Symbol} : cx.hierarchy.Operand t ↔ cx.IsType t :=
  or_congr Iff.rfl isKnown_iff.symm

variable (cx : Context) (scope : Scope)

def contribution (b : Branch Expr) : Report Symbol := do
  cx.require (cx.isKnown b.type) b.line (.undefinedBranchType b.type)
  cx.require (b.name ≠ cx.names .self) b.line .selfBranch
  let (t, _) ← b.body.check cx (cx.extend scope b.name (cx.bound b.type))
  pure (cx.branchType b.type t)

/-- The type that some branches give a case, where those before them have the given types and join. -/
def joinBranches (before : List Symbol) (soFar : Symbol) : List (Branch Expr) → Report Symbol
  | [] => pure soFar
  | b :: bs => do
    cx.require (!before.contains b.type) b.line (.duplicateBranch b.type)
    let t ← cx.contribution scope b
    let j ← cx.join soFar t
    joinBranches (b.type :: before) j bs

theorem map_fst_checkBranches (before : List Symbol) (soFar : Symbol) (bs : List (Branch Expr)) :
    (·.1) <$> Expr.checkBranches cx scope before soFar bs = cx.joinBranches scope before soFar bs := by
  induction bs generalizing before soFar with
  | nil => rfl
  | cons b bs ih =>
    rw [joinBranches, Expr.checkBranches, branchScope, contribution]
    simp only [map_eq_pure_bind, bind_assoc, pure_bind] at ih ⊢
    simp only [ih]
    rfl

variable {cx scope} {before before' : List Symbol} {b b' : Branch Expr} {bs bs' : List (Branch Expr)}
  {s t u : Symbol}

theorem joinBranches_congr (h : ∀ t, t ∈ before ↔ t ∈ before') :
    cx.joinBranches scope before s bs = cx.joinBranches scope before' s bs := by
  induction bs generalizing before before' s with
  | nil => rfl
  | cons b bs ih =>
    have hcontains : before.contains b.type = before'.contains b.type := by
      rw [Bool.eq_iff_iff, List.contains_iff_mem, List.contains_iff_mem, h]
    have hcons : ∀ t, t ∈ b.type :: before ↔ t ∈ b.type :: before' := fun t => by
      rw [List.mem_cons, List.mem_cons, h]
    simp only [joinBranches, hcontains, ih hcons]

def repeats (before : List Symbol) (type : Symbol) : Multiset Cause :=
  if type ∈ before then {.duplicateBranch type} else 0

/-- Of two branches with one type the second is at fault, and of others those at fault anyway. -/
theorem repeats_comm (before : List Symbol) (t u : Symbol) :
    repeats before t + repeats (t :: before) u = repeats before u + repeats (u :: before) t := by
  by_cases htu : t = u
  · rw [htu]
  · simp only [repeats, List.mem_cons, htu, Ne.symm htu, false_or, add_comm]

theorem seen_require (kept : Bool) (line : Line) (cause : Cause) :
    (cx.require kept line cause).seen = some (if kept then 0 else {cause}, ()) := by
  cases kept <;> rfl

theorem seen_join : (cx.join s t).seen = (cx.hierarchy.join? cx.current s t).map (0, ·) := by
  rw [join, Hierarchy.join?]
  cases cx.hierarchy.join cx.current s t <;> rfl

theorem seen_joinBranches_cons :
    (cx.joinBranches scope before s (b :: bs)).seen =
      (cx.contribution scope b).seen.bind fun x =>
        (cx.hierarchy.join? cx.current s x.2).bind fun j =>
          (cx.joinBranches scope (b.type :: before) j bs).seen.map fun y =>
            (repeats before b.type + x.1 + y.1, y.2) := by
  have hrepeats : (if !before.contains b.type then 0 else {.duplicateBranch b.type}) =
      repeats before b.type := by
    simp [repeats]
  simp only [joinBranches, seen_bind, seen_require, hrepeats, seen_join, Option.bind_some,
    Option.map_bind, Option.bind_map, Option.map_map, Function.comp_def, zero_add, add_assoc]

theorem Enrolled.join?_right_comm (en : cx.Enrolled) (hs : cx.IsType s) (ht : cx.IsType t)
    (hu : cx.IsType u) :
    ((cx.hierarchy.join? cx.current s t).bind fun j => cx.hierarchy.join? cx.current j u) =
      (cx.hierarchy.join? cx.current s u).bind fun j => cx.hierarchy.join? cx.current j t := by
  have hs := operand_iff.mpr hs
  have ht := operand_iff.mpr ht
  have hu := operand_iff.mpr hu
  rw [en.regular.join?_assoc en.noType en.current hs ht hu,
    en.regular.join?_assoc en.noType en.current hs hu ht,
    en.regular.join?_comm en.noType en.current ht hu]

theorem isType_join (hs : cx.IsType s) (ht : cx.IsType t) {j : Symbol}
    (hj : cx.hierarchy.join? cx.current s t = some j) : cx.IsType j :=
  hs.of_join ht (Hierarchy.join?_eq_some_iff.mp hj)

theorem Enrolled.isType_contribution (en : cx.Enrolled) {m : Multiset Cause}
    (ht : (cx.contribution scope b).seen = some (m, t)) : cx.IsType t := by
  have hmeets : (cx.contribution scope b).Meets True cx.IsType := by
    refine ends_require.meets.bind fun _ _ => ends_require.meets.bind fun _ _ => ?_
    refine (Expr.comesOut en.toFurnished cx.joins_true b.body _).bind fun r hr => meets_pure ?_
    rw [branchType]
    split_ifs
    · exact hr.1
    · exact en.isType_object
  exact hmeets.of_ok (seen_eq_some_iff.mp ht).1

/-- Branches in another order give the case the same type, and the same messages. -/
theorem Enrolled.seen_joinBranches_perm (en : cx.Enrolled) (hbs : bs.Perm bs') (hs : cx.IsType s) :
    (cx.joinBranches scope before s bs).seen = (cx.joinBranches scope before s bs').seen := by
  induction hbs generalizing before s with
  | nil => rfl
  | cons b _ ih =>
    rw [seen_joinBranches_cons, seen_joinBranches_cons]
    refine Option.bind_congr fun x hx => Option.bind_congr fun j hj => ?_
    rw [ih (isType_join hs (en.isType_contribution hx) hj)]
  | swap b b' bs =>
    have hrest : ∀ j, cx.joinBranches scope (b.type :: b'.type :: before) j bs =
        cx.joinBranches scope (b'.type :: b.type :: before) j bs := fun j =>
      joinBranches_congr fun t => by
        rw [List.mem_cons, List.mem_cons, List.mem_cons, List.mem_cons, or_left_comm]
    simp only [seen_joinBranches_cons, hrest]
    cases hx : (cx.contribution scope b').seen with
    | none => simp
    | some x =>
      cases hy : (cx.contribution scope b).seen with
      | none => simp
      | some y =>
        have hcomm := en.join?_right_comm hs (en.isType_contribution hx) (en.isType_contribution hy)
        have hcauses : ∀ m : Multiset Cause,
            repeats before b'.type + x.1 + (repeats (b'.type :: before) b.type + y.1 + m) =
              repeats before b.type + y.1 + (repeats (b.type :: before) b'.type + x.1 + m) := by
          intro m
          calc repeats before b'.type + x.1 + (repeats (b'.type :: before) b.type + y.1 + m)
              = repeats before b'.type + repeats (b'.type :: before) b.type + (x.1 + y.1 + m) := by
                abel
            _ = repeats before b.type + repeats (b.type :: before) b'.type + (x.1 + y.1 + m) := by
                rw [repeats_comm]
            _ = repeats before b.type + y.1 + (repeats (b.type :: before) b'.type + x.1 + m) := by
                abel
        simp only [Option.bind_some, Option.map_bind, Option.map_map, Function.comp_def, hcauses]
        rw [← Option.bind_assoc, hcomm, Option.bind_assoc]
  | trans _ _ ih ih' => rw [ih hs, ih' hs]

end Context

end CoolStatics
