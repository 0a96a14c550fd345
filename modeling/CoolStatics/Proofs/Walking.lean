import CoolStatics.Proofs.Growth
import Mathlib.Data.List.Chain

/-!
The walk along parents as a loop without a bound. It goes on from a class to its parent until the class is
not registered, the parent is `_no_class`, or the parent has been met before. Each round leaves one more
registered class behind, so in every hierarchy, with cycles or without, the loop comes to an end, and a
chain is what it has found by then. In a hierarchy that has grown by calls no parent is ever met before.
-/
namespace CoolStatics
namespace Hierarchy

open Relation

/-- Why a walk goes no further. -/
inductive Halt
  | unregistered | underNoClass | metBefore
  deriving DecidableEq, Repr

/-- A walk under way: what it has found, the nearest first, all that it has met, and where it stands. -/
structure Walk where
  found : List Symbol
  seen : List Symbol
  here : Symbol

namespace Walk

def start (c : Symbol) : Walk := ⟨[], [c], c⟩

def push (w : Walk) (p : Symbol) : Walk := ⟨w.found ++ [p], p :: w.seen, p⟩

end Walk

/-- One round of the loop. -/
def advance (h : Hierarchy) (w : Walk) : Except Halt Walk :=
  match h.parent? w.here with
  | none => .error .unregistered
  | some p =>
    if p = h.names .noClass then .error .underNoClass
    else if p ∈ w.seen then .error .metBefore
    else .ok (w.push p)

def Comes (h : Hierarchy) : Walk → Walk → Prop := ReflTransGen fun w w' => h.advance w = .ok w'

variable {h : Hierarchy} {c : Symbol} {n : Nat} {way : List Symbol} {w w' : Walk} {why : Halt}

/-- A round goes along an edge to a name that was not met, or it ends the walk for one of three
reasons. -/
theorem advance_cases (h : Hierarchy) (w : Walk) :
    (∃ p, h.Edge w.here p ∧ p ∉ w.seen ∧ h.advance w = .ok (w.push p)) ∨
      (h.has w.here = false ∧ h.advance w = .error .unregistered) ∨
      (h.parent? w.here = some (h.names .noClass) ∧ h.advance w = .error .underNoClass) ∨
      ∃ p, h.Edge w.here p ∧ p ∈ w.seen ∧ h.advance w = .error .metBefore := by
  cases hp : h.parent? w.here with
  | none =>
    have hreg := parent?_eq_none_iff.mp hp
    exact Or.inr (Or.inl ⟨hreg, by simp only [advance, hp]⟩)
  | some p =>
    by_cases hnc : p = h.names .noClass
    · exact Or.inr (Or.inr (Or.inl ⟨by rw [hnc], by simp only [advance, hp, if_pos hnc]⟩))
    · have e : h.Edge w.here p := ⟨hp, hnc⟩
      by_cases hseen : p ∈ w.seen
      · refine Or.inr (Or.inr (Or.inr ⟨p, e, hseen, ?_⟩))
        simp only [advance, hp, if_neg hnc, if_pos hseen]
      · refine Or.inl ⟨p, e, hseen, ?_⟩
        simp only [advance, hp, if_neg hnc, if_neg hseen]

theorem advance_eq_ok (ha : h.advance w = .ok w') :
    ∃ p, h.Edge w.here p ∧ p ∉ w.seen ∧ w' = w.push p := by
  rcases advance_cases h w with ⟨p, e, hp, heq⟩ | ⟨-, heq⟩ | ⟨-, heq⟩ | ⟨p, -, -, heq⟩
  · exact ⟨p, e, hp, Except.ok.inj (ha.symm.trans heq)⟩
  all_goals
    rw [heq] at ha
    cases ha

theorem climb_succ (n : Nat) (w : Walk) :
    h.climb (n + 1) w.seen w.here =
      match h.advance w with
      | .ok w' => w'.here :: h.climb n w'.seen w'.here
      | .error _ => [] := by
  rw [climb, advance]
  cases h.parent? w.here with
  | none => rfl
  | some p =>
    by_cases hnc : p = h.names .noClass
    · simp [hnc]
    · by_cases hseen : p ∈ w.seen <;> simp [hnc, hseen, Walk.push]

/-- A walk from `c` that has left the classes of `way` behind, the last one first, and has at most `n`
rounds before it. -/
structure Trail (h : Hierarchy) (c : Symbol) (n : Nat) (way : List Symbol) (w : Walk) : Prop where
  ample : h.Ample n way w.here
  seen : w.seen = w.here :: way
  found : c :: w.found = (w.here :: way).reverse
  path : (w.here :: way).IsChain fun p a => h.Edge a p

namespace Trail

theorem start (h : Hierarchy) (c : Symbol) : h.Trail c h.classes.size [] (.start c) :=
  ⟨ample_start h c, rfl, rfl, .singleton c⟩

/-- A round of the loop lengthens the trail and lowers the number of rounds that are left. -/
theorem advance (tr : h.Trail c n way w) (ha : h.advance w = .ok w') :
    ∃ k, n = k + 1 ∧ h.Trail c k (w.here :: way) w' := by
  obtain ⟨p, e, hp, rfl⟩ := advance_eq_ok ha
  rw [tr.seen] at hp
  obtain ⟨k, hk, am⟩ := tr.ample.push e hp
  refine ⟨k, hk, am, ?_, ?_, ?_⟩
  · exact congrArg (p :: ·) tr.seen
  · calc c :: (w.found ++ [p])
        = (w.here :: way).reverse ++ [p] := by rw [← List.cons_append, tr.found]
      _ = (p :: w.here :: way).reverse := List.reverse_cons.symm
  · exact List.isChain_cons_cons.mpr ⟨e, tr.path⟩

theorem of_comes (r : h.Comes (.start c) w) : ∃ n way, h.Trail c n way w := by
  induction r with
  | refl => exact ⟨_, _, start h c⟩
  | tail _ ha ih =>
    obtain ⟨n, way, tr⟩ := ih
    obtain ⟨k, -, tr'⟩ := tr.advance ha
    exact ⟨k, _, tr'⟩

/-- A walk with at most `n` rounds before it comes to an end, and then has found what a climb of `n` steps
meets. -/
theorem ends (tr : h.Trail c n way w) :
    ∃ w' why, h.Comes w w' ∧ h.advance w' = .error why ∧
      w'.found = w.found ++ h.climb n w.seen w.here := by
  -- a walk that has no round left before it cannot advance, so the bound of the climb is never felt
  induction n generalizing way w with
  | zero =>
    cases ha : h.advance w with
    | ok w' =>
      obtain ⟨k, hk, -⟩ := tr.advance ha
      exact absurd hk (Nat.succ_ne_zero k).symm
    | error why => exact ⟨w, why, .refl, ha, (List.append_nil _).symm⟩
  | succ n ih =>
    rw [climb_succ]
    cases ha : h.advance w with
    | ok w' =>
      obtain ⟨k, hk, tr'⟩ := tr.advance ha
      obtain rfl : n = k := Nat.succ.inj hk
      obtain ⟨last, why, r, hend, hfound⟩ := ih tr'
      have hpush : w'.found = w.found ++ [w'.here] := by
        obtain ⟨p, -, -, rfl⟩ := advance_eq_ok ha
        rfl
      refine ⟨last, why, .head ha r, hend, ?_⟩
      rw [hfound, hpush, List.append_assoc, List.singleton_append]
    | error why => exact ⟨w, why, .refl, ha, (List.append_nil _).symm⟩

theorem nodup (tr : h.Trail c n way w) : (c :: w.found).Nodup := by
  rw [tr.found]
  exact List.nodup_reverse.mpr tr.ample.nodup

theorem isChain (tr : h.Trail c n way w) : (c :: w.found).IsChain h.Edge := by
  rw [tr.found]
  exact List.isChain_reverse.mpr tr.path

theorem length_found_le (tr : h.Trail c n way w) : w.found.length ≤ h.classes.size := by
  have hlen : w.found.length = way.length := by
    simpa using congrArg List.length tr.found
  rw [hlen]
  exact length_le_size (List.nodup_cons.mp tr.ample.nodup).2 tr.ample.registered

theorem here_eq_getLastD (tr : h.Trail c n way w) : w.here = w.found.getLastD c := by
  have hlast := congrArg List.getLast? tr.found
  rw [List.getLast?_reverse, List.head?_cons, List.getLast?_cons] at hlast
  simpa using (Option.some.inj hlast).symm

theorem cases_of_acyclic (ac : h.Acyclic) (tr : h.Trail c n way w) :
    (∃ p, h.Edge w.here p ∧ h.advance w = .ok (w.push p)) ∨
      (h.has w.here = false ∧ h.advance w = .error .unregistered) ∨
      (h.parent? w.here = some (h.names .noClass) ∧ h.advance w = .error .underNoClass) := by
  rcases advance_cases h w with ⟨p, e, -, heq⟩ | hreg | hroot | ⟨p, e, hp, -⟩
  · exact Or.inl ⟨p, e, heq⟩
  · exact Or.inr (Or.inl hreg)
  · exact Or.inr (Or.inr hroot)
  · rw [tr.seen] at hp
    exact absurd hp (tr.ample.fresh ac e)

theorem not_metBefore (ac : h.Acyclic) (tr : h.Trail c n way w) :
    h.advance w ≠ .error .metBefore := by
  rcases tr.cases_of_acyclic ac with ⟨p, -, heq⟩ | ⟨-, heq⟩ | ⟨-, heq⟩ <;> simp [heq]

theorem root_of_error (ac : h.Acyclic) (tr : h.Trail c n way w) (hend : h.advance w = .error why) :
    h.has w.here = false ∨ h.parent? w.here = some (h.names .noClass) := by
  rcases tr.cases_of_acyclic ac with ⟨p, -, heq⟩ | ⟨hreg, -⟩ | ⟨hroot, -⟩
  · simp [heq] at hend
  · exact Or.inl hreg
  · exact Or.inr hroot

end Trail

theorem noClass_not_mem_chain (h : Hierarchy) (c : Symbol) : h.names .noClass ∉ h.chain c := by
  intro hmem
  obtain ⟨b, -, e⟩ := TransGen.tail'_iff.mp (transGen_of_mem_climb hmem)
  exact e.2 rfl

/-- In every hierarchy, with cycles or without, the walk from a class comes to an end, and its chain is
what it has found by then: parent after parent, none of them twice, neither the class itself nor
`_no_class`, and no more than there are classes. In a hierarchy that has grown by any calls the guard
decides in no round, so that a chain ends only in a name that is not registered or in a class under
`_no_class`. -/
theorem walk_ends_with_chain (h : Hierarchy) (c : Symbol) :
    (∃ w why, h.Comes (.start c) w ∧ h.advance w = .error why ∧ w.found = h.chain c) ∧
      (h.chain c).Nodup ∧ c ∉ h.chain c ∧ h.names .noClass ∉ h.chain c ∧
      (h.chain c).length ≤ h.classNames.length ∧
      (c :: h.chain c).IsChain (fun a p => h.parent? a = some p) ∧
      (h.Grown →
        (∀ w, h.Comes (.start c) w → h.advance w ≠ .error .metBefore) ∧
          (h.has ((h.chain c).getLastD c) = false ∨
            h.parent? ((h.chain c).getLastD c) = some (h.names .noClass))) := by
  obtain ⟨w, why, r, hend, hfound⟩ := (Trail.start h c).ends
  have hchain : w.found = h.chain c := hfound
  obtain ⟨n, way, tr⟩ := Trail.of_comes r
  have hnodup := tr.nodup
  have hlen := tr.length_found_le
  have hpath := tr.isChain
  have hlast := tr.here_eq_getLastD
  rw [hchain] at hnodup hlen hpath hlast
  refine ⟨⟨w, why, r, hend, hchain⟩, (List.nodup_cons.mp hnodup).2, (List.nodup_cons.mp hnodup).1,
    noClass_not_mem_chain h c, ?_, hpath.imp fun _ _ e => e.1, fun hg => ⟨?_, ?_⟩⟩
  · simpa [classNames, Table.keys, Table.size] using hlen
  · intro w' r'
    obtain ⟨n', way', tr'⟩ := Trail.of_comes r'
    exact tr'.not_metBefore hg.regular.acyclic
  · rw [← hlast]
    exact tr.root_of_error hg.regular.acyclic hend

/-- `A` and `B` under each other, as no registration leaves them. -/
def mutualParents : Hierarchy :=
  ((basic .initial).enter ⟨⟨26⟩, ⟨27⟩, [], "a.cl", 1⟩).enter ⟨⟨27⟩, ⟨26⟩, [], "a.cl", 2⟩

/-- Between the two the walk from `A` finds `B` and is stopped by the guard. Where `C` is missing, the walk
from `A` goes by `B` to `C` and ends there. -/
theorem walk_ends_with_chain_missingParent :
    (∃ w why, mutualParents.Comes (.start ⟨26⟩) w ∧ mutualParents.advance w = .error why ∧
        w.found = [⟨27⟩]) ∧
      mutualParents.advance ⟨[⟨27⟩], [⟨27⟩, ⟨26⟩], ⟨27⟩⟩ = .error .metBefore ∧
      missingParent.chain ⟨26⟩ = [⟨27⟩, ⟨28⟩] ∧
      (∀ w, missingParent.Comes (.start ⟨26⟩) w → missingParent.advance w ≠ .error .metBefore) ∧
      (missingParent.has ⟨28⟩ = false ∨
        missingParent.parent? ⟨28⟩ = some (missingParent.names .noClass)) := by
  have hmutual : mutualParents.chain ⟨26⟩ = [⟨27⟩] := by decide
  have hmissing : missingParent.chain ⟨26⟩ = [⟨27⟩, ⟨28⟩] := by decide
  obtain ⟨hends, -⟩ := walk_ends_with_chain mutualParents ⟨26⟩
  obtain ⟨-, -, -, -, -, -, hgrown⟩ := walk_ends_with_chain missingParent ⟨26⟩
  obtain ⟨hmet, hlast⟩ := hgrown grown_missingParent
  rw [hmutual] at hends
  rw [hmissing] at hlast
  exact ⟨hends, rfl, hmissing, hmet, hlast⟩

end Hierarchy
end CoolStatics
