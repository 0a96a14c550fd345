import CoolStatics.Proofs.Comparison

/-!
What is noted, and where. A computation that comes to its end leaves a value and the faults that it has
noted, those of each step after those of the steps before. All that the rules of typing note lies in the
file of the class that is checked.
-/
namespace CoolStatics

namespace Report

variable {α β : Type} {P : Fault → Prop} {fs : List Fault}

/-- Comes to the end `a` with the faults `fs`. -/
def Leaves (r : Report α) (fs : List Fault) (a : α) : Prop := r = ⟨fs, .ok a⟩

theorem leaves_pure {a b : α} : (pure a : Report α).Leaves fs b ↔ fs = [] ∧ a = b := by
  simp [Leaves, eq_comm]

theorem leaves_bind {r : Report α} {f : α → Report β} {b : β} :
    (r >>= f).Leaves fs b ↔ ∃ gs a hs, r.Leaves gs a ∧ (f a).Leaves hs b ∧ fs = gs ++ hs := by
  obtain ⟨gs, x⟩ := r
  cases x with
  | error e => simp [Leaves]
  | ok a =>
    rcases hfa : f a with ⟨hs, y⟩
    simp only [Leaves, mk_ok_bind, hfa, mk.injEq, Except.ok.injEq]
    constructor
    · rintro ⟨rfl, rfl⟩
      exact ⟨gs, a, hs, ⟨rfl, rfl⟩, by rw [hfa], rfl⟩
    · rintro ⟨_, _, _, ⟨rfl, rfl⟩, hf, rfl⟩
      obtain ⟨rfl, rfl⟩ := mk.inj (hfa.symm.trans hf)
      exact ⟨rfl, rfl⟩

theorem Leaves.outcome_eq {r : Report α} {a : α} (hl : r.Leaves fs a) : r.outcome = .ok a := by
  rw [Leaves] at hl
  rw [hl]

theorem leaves_of_ok {r : Report α} {a : α} (ha : r.outcome = .ok a) : r.Leaves r.faults a := by
  rw [Leaves, ← ha]

theorem leaves_all {rs : List (Report α)} {as : List α} (hl : (all rs).Leaves fs as) :
    ∃ outs : List (List Fault × α), List.Forall₂ (fun r o => r.Leaves o.1 o.2) rs outs ∧
      as = outs.map (·.2) ∧ fs = (outs.map (·.1)).flatten := by
  induction rs generalizing fs as with
  | nil =>
    obtain ⟨rfl, rfl⟩ := leaves_pure.mp hl
    exact ⟨[], .nil, rfl, rfl⟩
  | cons r rs ih =>
    simp only [all, leaves_bind, leaves_pure] at hl
    obtain ⟨gs, a, _, hr, ⟨hs, as, _, hrs, ⟨rfl, rfl⟩, rfl⟩, rfl⟩ := hl
    obtain ⟨outs, houts, rfl, rfl⟩ := ih hrs
    exact ⟨(gs, a) :: outs, .cons hr houts, rfl, by simp⟩

/-- Everything that is noted satisfies `P`, whether or not the end is reached. -/
def Within (r : Report α) (P : Fault → Prop) : Prop := ∀ f ∈ r.faults, P f

theorem within_pure {a : α} : (pure a : Report α).Within P := by
  simp [Within]

theorem Within.bind {r : Report α} {f : α → Report β} (hr : r.Within P)
    (hf : ∀ a, (f a).Within P) : (r >>= f).Within P := by
  obtain ⟨gs, x⟩ := r
  cases x with
  | error e => exact hr
  | ok a =>
    intro x hx
    rcases List.mem_append.mp hx with hx | hx
    · exact hr x hx
    · exact hf a x hx

theorem Within.of_leaves {r : Report α} {a : α} (hr : r.Within P) (hl : r.Leaves fs a) :
    ∀ f ∈ fs, P f := by
  rw [Leaves] at hl
  rwa [hl] at hr

end Report

namespace Context

open Report

variable {cx : Context} {scope : Scope} {line : Line} {cause : Cause} {kept : Bool}
  {name method owner receiver type t a b : Symbol} {args : List Symbol}

/-- A fault at a line of the file that the class stands in. -/
def Own (cx : Context) (f : Fault) : Prop := ∃ line, f.place = some ⟨cx.file, line⟩

theorem within_note : (cx.note line cause).Within cx.Own := by
  intro f hf
  obtain rfl := List.mem_singleton.mp hf
  exact ⟨line, rfl⟩

theorem within_noteAll {causes : List Cause} : (cx.noteAll line causes).Within cx.Own := by
  intro f hf
  obtain ⟨cause, -, rfl⟩ := List.mem_map.mp hf
  exact ⟨line, rfl⟩

theorem within_require : (cx.require kept line cause).Within cx.Own := by
  cases kept with
  | true => exact within_pure
  | false => exact within_note

theorem within_fallBack : (cx.fallBack line cause).Within cx.Own :=
  within_note.bind fun _ => within_pure

theorem within_expect : (cx.expect kept line cause type).Within cx.Own := by
  cases kept with
  | true => exact within_pure
  | false => exact within_fallBack

theorem within_join : (cx.join a b).Within cx.Own := by
  intro f hf
  cases hf

theorem within_identifierType : (cx.identifierType scope line name).Within cx.Own := by
  rw [identifierType]
  split_ifs
  · exact within_pure
  · split
    · exact within_pure
    · exact within_fallBack

theorem within_assignType : (cx.assignType scope line name t).Within cx.Own := by
  rw [assignType]
  split_ifs
  · exact within_fallBack
  · split
    · exact within_fallBack
    · dsimp only
      split_ifs
      · exact within_pure
      · exact within_note.bind fun _ => within_pure

theorem within_resultType : (cx.resultType line method receiver t).Within cx.Own := by
  rw [resultType]
  split_ifs
  · exact within_pure
  · exact within_expect

theorem within_callType : (cx.callType line owner method receiver args).Within cx.Own := by
  rw [callType]
  split
  · exact within_fallBack
  · split_ifs
    · refine within_noteAll.bind fun _ => ?_
      split_ifs
      · exact within_resultType
      · exact within_pure
    · exact within_fallBack

theorem within_dispatchType : (cx.dispatchType line method receiver args).Within cx.Own := by
  rw [dispatchType]
  split_ifs
  · exact within_callType
  · exact within_fallBack

theorem within_staticDispatchType :
    (cx.staticDispatchType line owner method receiver args).Within cx.Own := by
  rw [staticDispatchType]
  split_ifs
  · exact within_fallBack
  · exact within_callType
  · exact within_fallBack

theorem within_bindFormals (scope : Scope) (fs : List Formal) :
    (cx.bindFormals scope fs).Within cx.Own := by
  induction fs generalizing scope with
  | nil => exact within_pure
  | cons f fs ih =>
    rw [bindFormals]
    split_ifs
    · exact within_note.bind fun _ => ih _
    · exact within_require.bind fun _ => within_expect.bind fun _ => ih _

theorem within_checkOverride {m : Method} : (cx.checkOverride m).Within cx.Own := by
  rw [checkOverride]
  split
  · exact within_note
  · exact within_pure

end Context
end CoolStatics
