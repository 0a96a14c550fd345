import CoolStatics.Hierarchy.Order
import Mathlib.Data.List.Perm.Subperm
import Mathlib.Logic.Relation

/-!
Ancestry as a relation. A registered class has an edge to its parent, unless that is `_no_class`. In a
hierarchy without cycles neither the bound nor the guard of a climb ever cuts it short, so that a
chain lists exactly what its class reaches, the nearest first.
-/
namespace CoolStatics
namespace Hierarchy

open Relation

variable {h : Hierarchy}

/-- From a registered class to its parent. The class at the root has no edge. -/
def Edge (h : Hierarchy) (c p : Symbol) : Prop := h.parent? c = some p ∧ p ≠ h.names .noClass

def Reaches (h : Hierarchy) : Symbol → Symbol → Prop := ReflTransGen h.Edge

/-- No class reaches itself by one or more edges. -/
def Acyclic (h : Hierarchy) : Prop := ∀ c, ¬TransGen h.Edge c c

theorem has_eq_isSome_get? (h : Hierarchy) (c : Symbol) : h.has c = (h.get? c).isSome := rfl

theorem has_iff_mem_keys {c : Symbol} : h.has c = true ↔ c ∈ h.classes.keys := by
  rw [has, Table.contains_eq, decide_eq_true_iff]

theorem parent?_eq_none_iff {c : Symbol} : h.parent? c = none ↔ h.has c = false := by
  rw [parent?, has_eq_isSome_get?, Option.map_eq_none_iff, Option.isSome_eq_false_iff,
    Option.isNone_iff_eq_none]

theorem has_of_parent? {c p : Symbol} (hp : h.parent? c = some p) : h.has c = true := by
  by_contra hc
  rw [parent?_eq_none_iff.mpr (by simpa using hc)] at hp
  exact Option.some_ne_none p hp.symm

theorem ne_of_has {a b : Symbol} (ha : h.has a = true) (hb : h.has b = false) : a ≠ b := by
  rintro rfl
  rw [ha] at hb
  cases hb

theorem Edge.has {c p : Symbol} (e : h.Edge c p) : h.has c = true := has_of_parent? e.1

theorem Reaches.trans {a b c : Symbol} (r : h.Reaches a b) (s : h.Reaches b c) : h.Reaches a c :=
  ReflTransGen.trans r s

theorem Reaches.refl (c : Symbol) : h.Reaches c c := ReflTransGen.refl

theorem Edge.reaches {c p : Symbol} (e : h.Edge c p) : h.Reaches c p := ReflTransGen.single e

theorem Edge.unique {c p q : Symbol} (e : h.Edge c p) (e' : h.Edge c q) : p = q :=
  Option.some.inj (e.1.symm.trans e'.1)

theorem Reaches.total {a b c : Symbol} (r : h.Reaches c a) (s : h.Reaches c b) :
    h.Reaches a b ∨ h.Reaches b a :=
  ReflTransGen.total_of_right_unique (fun _ _ _ e e' => e.unique e') r s

theorem Acyclic.antisymm (ac : h.Acyclic) {a b : Symbol} (r : h.Reaches a b) (s : h.Reaches b a) :
    a = b := by
  rcases reflTransGen_iff_eq_or_transGen.mp r with e | t
  · exact e.symm
  · exact absurd (t.trans_left s) (ac a)

theorem transGen_of_mem_climb {n : Nat} {seen : List Symbol} {c a : Symbol}
    (ha : a ∈ h.climb n seen c) : TransGen h.Edge c a := by
  induction n generalizing seen c with
  | zero => simp [climb] at ha
  | succ n ih =>
    rw [climb] at ha
    split at ha
    · simp at ha
    · next p hp =>
      split at ha
      · simp at ha
      · next hn =>
        have e : h.Edge c p := ⟨hp, fun hnc => hn (Or.inl hnc)⟩
        rcases List.mem_cons.mp ha with rfl | ha
        · exact .single e
        · exact .head e (ih ha)

/-- A climb that has come to `c` by the classes of `way` and may still take `n` steps. -/
structure Ample (h : Hierarchy) (n : Nat) (way : List Symbol) (c : Symbol) : Prop where
  nodup : (c :: way).Nodup
  registered : ∀ s ∈ way, h.has s = true
  below : ∀ s ∈ way, TransGen h.Edge s c
  bound : h.classes.size ≤ n + way.length

theorem ample_start (h : Hierarchy) (c : Symbol) : h.Ample h.classes.size [] c :=
  ⟨by simp, by simp, by simp, by simp⟩

theorem length_le_size {names : List Symbol} (hn : names.Nodup) (hr : ∀ s ∈ names, h.has s = true) :
    names.length ≤ h.classes.size := by
  have hsub : names ⊆ h.classes.keys := fun s hs => has_iff_mem_keys.mp (hr s hs)
  have hle := (List.subperm_of_subset hn hsub).length_le
  simpa [Table.keys, Table.size] using hle

theorem Ample.below_of_edge {n : Nat} {way : List Symbol} {c p : Symbol} (am : h.Ample n way c)
    (e : h.Edge c p) : ∀ s ∈ c :: way, TransGen h.Edge s p := by
  intro s hs
  rcases List.mem_cons.mp hs with rfl | hs
  · exact .single e
  · exact (am.below s hs).tail e

/-- Where there is an edge to a name that was not met, the climb has a step left for it and stays
ample. -/
theorem Ample.push {n : Nat} {way : List Symbol} {c p : Symbol} (am : h.Ample n way c)
    (e : h.Edge c p) (hp : p ∉ c :: way) : ∃ k, n = k + 1 ∧ h.Ample k (c :: way) p := by
  have hreg : ∀ s ∈ c :: way, h.has s = true := by
    intro s hs
    rcases List.mem_cons.mp hs with rfl | hs
    · exact e.has
    · exact am.registered s hs
  have hlen := length_le_size am.nodup hreg
  have hbound := am.bound
  simp only [List.length_cons] at hlen
  refine ⟨n - 1, by omega, List.nodup_cons.mpr ⟨hp, am.nodup⟩, hreg, am.below_of_edge e, ?_⟩
  simp only [List.length_cons]
  omega

theorem Ample.fresh (ac : h.Acyclic) {n : Nat} {way : List Symbol} {c p : Symbol}
    (am : h.Ample n way c) (e : h.Edge c p) : p ∉ c :: way :=
  fun hp => ac p (am.below_of_edge e p hp)

theorem Ample.step (ac : h.Acyclic) {n : Nat} {way : List Symbol} {c p : Symbol}
    (am : h.Ample n way c) (e : h.Edge c p) :
    ∃ k, n = k + 1 ∧ p ∉ c :: way ∧ h.Ample k (c :: way) p := by
  have hp := am.fresh ac e
  obtain ⟨k, hk, hs⟩ := am.push e hp
  exact ⟨k, hk, hp, hs⟩

theorem climb_of_no_edge {n : Nat} {seen : List Symbol} {c : Symbol} (hc : ∀ p, ¬h.Edge c p) :
    h.climb n seen c = [] := by
  cases n with
  | zero => rfl
  | succ n =>
    rw [climb]
    split
    · rfl
    · next p hp =>
      have hnc : p = h.names .noClass := by
        by_contra hnc
        exact hc p ⟨hp, hnc⟩
      rw [if_pos (Or.inl hnc)]

theorem climb_of_edge {n : Nat} {seen : List Symbol} {c p : Symbol} (e : h.Edge c p)
    (hp : p ∉ seen) : h.climb (n + 1) seen c = p :: h.climb n (p :: seen) p := by
  rw [climb, e.1]
  exact if_neg (not_or.mpr ⟨e.2, hp⟩)

theorem climb_eq_climb (ac : h.Acyclic) {n m : Nat} {way way' : List Symbol} {c : Symbol}
    (am : h.Ample n way c) (am' : h.Ample m way' c) :
    h.climb n (c :: way) c = h.climb m (c :: way') c := by
  induction n generalizing m way way' c with
  | zero =>
    have hc : ∀ p, ¬h.Edge c p := by
      intro p e
      obtain ⟨k, hk, -⟩ := am.step ac e
      exact absurd hk (Nat.succ_ne_zero k).symm
    rw [climb_of_no_edge hc, climb_of_no_edge hc]
  | succ n ih =>
    by_cases hc : ∃ p, h.Edge c p
    · obtain ⟨p, e⟩ := hc
      obtain ⟨k, hk, hp, hs⟩ := am.step ac e
      obtain ⟨k', rfl, hp', hs'⟩ := am'.step ac e
      obtain rfl : k = n := by omega
      rw [climb_of_edge e hp, climb_of_edge e hp', ih hs hs']
    · have hc' : ∀ p, ¬h.Edge c p := not_exists.mp hc
      rw [climb_of_no_edge hc', climb_of_no_edge hc']

theorem chain_of_no_edge {c : Symbol} (hc : ∀ p, ¬h.Edge c p) : h.chain c = [] :=
  climb_of_no_edge hc

theorem chain_of_edge (ac : h.Acyclic) {c p : Symbol} (e : h.Edge c p) :
    h.chain c = p :: h.chain p := by
  obtain ⟨k, hk, hp, hs⟩ := (ample_start h c).step ac e
  rw [chain, hk, climb_of_edge e hp, climb_eq_climb ac hs (ample_start h p)]
  rfl

theorem Acyclic.induct (ac : h.Acyclic) {P : Symbol → Prop}
    (step : ∀ c, (∀ p, h.Edge c p → P p) → P c) (c : Symbol) : P c := by
  -- the chain of a parent is shorter by one
  generalize hn : (h.chain c).length = n
  induction n generalizing c with
  | zero =>
    refine step c fun p e => ?_
    rw [chain_of_edge ac e] at hn
    exact absurd hn (by simp)
  | succ n ih =>
    refine step c fun p e => ih p ?_
    rw [chain_of_edge ac e] at hn
    simpa using hn

theorem mem_chain_iff (ac : h.Acyclic) {c a : Symbol} : a ∈ h.chain c ↔ TransGen h.Edge c a := by
  constructor
  · exact transGen_of_mem_climb
  · intro t
    induction t using TransGen.head_induction_on with
    | single e => simp [chain_of_edge ac e]
    | head e _ ih => simp [chain_of_edge ac e, ih]

theorem reaches_iff (ac : h.Acyclic) {c a : Symbol} : h.Reaches c a ↔ a = c ∨ a ∈ h.chain c := by
  rw [mem_chain_iff ac]
  exact reflTransGen_iff_eq_or_transGen

theorem Acyclic.pairwise_chain (ac : h.Acyclic) (c : Symbol) :
    (h.chain c).Pairwise (TransGen h.Edge) := by
  induction c using ac.induct with
  | step c ih =>
    by_cases hc : ∃ p, h.Edge c p
    · obtain ⟨p, e⟩ := hc
      rw [chain_of_edge ac e]
      exact List.pairwise_cons.mpr ⟨fun a ha => (mem_chain_iff ac).mp ha, ih p e⟩
    · rw [chain_of_no_edge (not_exists.mp hc)]
      exact .nil

/-! Registered ancestors. -/

theorem lineage_of_not_has {c : Symbol} (hc : h.has c = false) : h.lineage c = [] := by
  simp [lineage, hc]

theorem lineage_of_has {c : Symbol} (hc : h.has c = true) : h.lineage c = c :: h.ancestors c := by
  simp [lineage, hc]

theorem has_of_mem_lineage {c a : Symbol} (ha : a ∈ h.lineage c) : h.has a = true := by
  rw [lineage] at ha
  split at ha
  · next hc =>
    rcases List.mem_cons.mp ha with rfl | ha
    · exact hc
    · exact (List.mem_filter.mp ha).2
  · cases ha

theorem ancestors_of_no_edge {c : Symbol} (hc : ∀ p, ¬h.Edge c p) : h.ancestors c = [] := by
  rw [ancestors, chain_of_no_edge hc, List.filter_nil]

theorem ancestors_of_edge (ac : h.Acyclic) {c p : Symbol} (e : h.Edge c p) :
    h.ancestors c = h.lineage p := by
  rw [ancestors, chain_of_edge ac e, List.filter_cons]
  by_cases hp : h.has p = true
  · rw [if_pos hp, lineage_of_has hp, ancestors]
  · -- a parent that is not registered ends the chain
    have hp' : h.has p = false := by simpa using hp
    have hno : ∀ q, ¬h.Edge p q := fun q eq => by simp [eq.has] at hp
    rw [if_neg hp, chain_of_no_edge hno, lineage_of_not_has hp', List.filter_nil]

theorem mem_lineage_iff (ac : h.Acyclic) {c a : Symbol} :
    a ∈ h.lineage c ↔ h.has c = true ∧ h.has a = true ∧ h.Reaches c a := by
  by_cases hc : h.has c = true
  · rw [lineage_of_has hc, List.mem_cons, ancestors, List.mem_filter, reaches_iff ac]
    constructor
    · rintro (rfl | ⟨ha, hr⟩)
      · exact ⟨hc, hc, Or.inl rfl⟩
      · exact ⟨hc, hr, Or.inr ha⟩
    · rintro ⟨-, hr, rfl | ha⟩
      · exact Or.inl rfl
      · exact Or.inr ⟨ha, hr⟩
  · rw [lineage_of_not_has (by simpa using hc)]
    simp [hc]

theorem Acyclic.pairwise_lineage (ac : h.Acyclic) (c : Symbol) :
    (h.lineage c).Pairwise h.Reaches := by
  by_cases hc : h.has c = true
  · rw [lineage_of_has hc, ancestors]
    refine List.pairwise_cons.mpr ⟨fun a ha => ?_, ?_⟩
    · exact (reaches_iff ac).mpr (Or.inr (List.mem_filter.mp ha).1)
    · exact ((ac.pairwise_chain c).imp TransGen.to_reflTransGen).filter _
  · rw [lineage_of_not_has (by simpa using hc)]
    exact .nil

/-! Members found along the ancestors. -/

theorem get?_of_not_has {c : Symbol} (hc : h.has c = false) : h.get? c = none := by
  simpa [has_eq_isSome_get?] using hc

theorem findSome?_lineage {α : Type} {f : Symbol → Option α} {c : Symbol}
    (hf : h.has c = false → f c = none) :
    (f c).or ((h.ancestors c).findSome? f) = (h.lineage c).findSome? f := by
  by_cases hc : h.has c = true
  · rw [lineage_of_has hc, List.findSome?_cons]
    cases f c <;> rfl
  · have hno : ∀ p, ¬h.Edge c p := fun p e => hc e.has
    have hc' : h.has c = false := by simpa using hc
    rw [lineage_of_not_has hc', ancestors_of_no_edge hno, hf hc']
    rfl

theorem findMethod?_eq (c m : Symbol) :
    h.findMethod? c m = (h.lineage c).findSome? (h.method? · m) := by
  have hf : h.has c = false → h.method? c m = none := fun hc => by simp [method?, get?_of_not_has hc]
  rw [findMethod?, inheritedMethod?, ← findSome?_lineage hf]

theorem findAttr?_eq (c a : Symbol) :
    h.findAttr? c a = (h.lineage c).findSome? (h.attr? · a) := by
  have hf : h.has c = false → h.attr? c a = none := fun hc => by simp [attr?, get?_of_not_has hc]
  rw [findAttr?, inheritedAttr?, ← findSome?_lineage hf]

theorem inheritedMethod?_of_edge (ac : h.Acyclic) {c p : Symbol} (e : h.Edge c p) (m : Symbol) :
    h.inheritedMethod? c m = h.findMethod? p m := by
  rw [inheritedMethod?, ancestors_of_edge ac e, findMethod?_eq]

theorem inheritedAttr?_of_edge (ac : h.Acyclic) {c p : Symbol} (e : h.Edge c p) (a : Symbol) :
    h.inheritedAttr? c a = h.findAttr? p a := by
  rw [inheritedAttr?, ancestors_of_edge ac e, findAttr?_eq]

theorem inheritedMethod?_of_no_edge {c : Symbol} (hc : ∀ p, ¬h.Edge c p) (m : Symbol) :
    h.inheritedMethod? c m = none := by
  rw [inheritedMethod?, ancestors_of_no_edge hc, List.findSome?_nil]

theorem inheritedAttr?_of_no_edge {c : Symbol} (hc : ∀ p, ¬h.Edge c p) (a : Symbol) :
    h.inheritedAttr? c a = none := by
  rw [inheritedAttr?, ancestors_of_no_edge hc, List.findSome?_nil]

end Hierarchy
end CoolStatics
