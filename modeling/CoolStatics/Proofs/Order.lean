import CoolStatics.Proofs.Tree

/-!
Conformance and joins against the ancestry. In a hierarchy without cycles a join finds the nearest
registered class above both types, and conformance is a partial order on all names but `_no_type`, in
which a join is the least upper bound. Where every parent is registered and `_no_type` names no class,
the order takes in `_no_type` as well.
-/
namespace CoolStatics
namespace Hierarchy

open Relation

variable {h : Hierarchy} {current a b j s t u : Symbol}

/-- Types that may be declared: `SELF_TYPE` and the registered classes. -/
def Known (h : Hierarchy) (t : Symbol) : Prop := t = h.names .selfType ∨ h.has t = true

instance (h : Hierarchy) (t : Symbol) : Decidable (h.Known t) := inferInstanceAs (Decidable (_ ∨ _))

/-- The subtype relation inside the class `current`. -/
def Sub (h : Hierarchy) (current s t : Symbol) : Prop :=
  s = h.names .noType ∨ s = t ∨
    t ≠ h.names .selfType ∧ h.Reaches (h.denoted current s) t

/-- A least upper bound of some types inside the class `current`. -/
structure IsLub (h : Hierarchy) (current : Symbol) (ts : List Symbol) (u : Symbol) : Prop where
  upper : ∀ t ∈ ts, h.Sub current t u
  least : ∀ v, (∀ t ∈ ts, h.Sub current t v) → h.Sub current u v

/-- The nearest registered class above both of two classes. -/
structure NearestCommon (h : Hierarchy) (l r j : Symbol) : Prop where
  has : h.has j = true
  left : h.Reaches l j
  right : h.Reaches r j
  nearest : ∀ k, h.has k = true → h.Reaches l k → h.Reaches r k → h.Reaches j k

theorem denoted_selfType (h : Hierarchy) (current : Symbol) :
    h.denoted current (h.names .selfType) = current := if_pos rfl

theorem denoted_of_ne (ht : t ≠ h.names .selfType) : h.denoted current t = t := if_neg ht

theorem Known.has_denoted (ha : h.Known a) (hc : h.has current = true) :
    h.has (h.denoted current a) = true := by
  by_cases hs : a = h.names .selfType
  · rw [hs, denoted_selfType]
    exact hc
  · rw [denoted_of_ne hs]
    exact ha.resolve_left hs

theorem conforms_iff (ac : h.Acyclic) (hc : current ≠ h.names .noType) :
    h.conforms current t s = true ↔ h.Sub current s t := by
  rw [conforms, Sub]
  by_cases hs : s = h.names .noType
  · simp [hs]
  · rw [if_neg hs]
    by_cases ht : t = h.names .selfType
    · simp [hs, ht]
    · have hd : h.denoted current s ≠ h.names .noType := by
        by_cases hself : s = h.names .selfType
        · rwa [hself, denoted_selfType]
        · rwa [denoted_of_ne hself]
      rw [if_neg ht, reaches_iff ac]
      have heq : s = t → t = h.denoted current s := fun e => by rw [e, denoted_of_ne ht]
      simp only [hd, hs, ht, decide_false, Bool.false_or, Bool.or_eq_true, decide_eq_true_eq,
        List.contains_iff_mem, false_or, ne_eq, not_false_eq_true, true_and]
      tauto

theorem NearestCommon.unique (ac : h.Acyclic) {l r j k : Symbol} (hj : h.NearestCommon l r j)
    (hk : h.NearestCommon l r k) : j = k :=
  ac.antisymm (hj.nearest k hk.has hk.left hk.right) (hk.nearest j hj.has hj.left hj.right)

theorem NearestCommon.reaches {l r j : Symbol} (near : h.NearestCommon l r j) (hl : h.Reaches l t)
    (hr : h.Reaches r t) : h.Reaches j t := by
  rcases near.left.total hl with hjt | htj
  · exact hjt
  · rcases ReflTransGen.cases_head htj with rfl | ⟨_, e, -⟩
    · exact .refl _
    · exact near.nearest t e.has hl hr

theorem mem_lineage_both (ac : h.Acyclic) {l r k : Symbol} (hl : h.has l = true)
    (hr : h.has r = true) :
    k ∈ h.lineage r ∧ (h.lineage l).contains k = true ↔
      h.has k = true ∧ h.Reaches l k ∧ h.Reaches r k := by
  rw [List.contains_iff_mem, mem_lineage_iff ac, mem_lineage_iff ac]
  tauto

theorem nearestCommon_of_find? (ac : h.Acyclic) {l r : Symbol} (hl : h.has l = true)
    (hr : h.has r = true) (hj : (h.lineage r).find? (h.lineage l).contains = some j) :
    h.NearestCommon l r j := by
  obtain ⟨hin, before, after, hsplit, hbefore⟩ := List.find?_eq_some_iff_append.mp hj
  have hmem : j ∈ h.lineage r := by simp [hsplit]
  obtain ⟨hhas, hleft, hright⟩ := (mem_lineage_both ac hl hr).mp ⟨hmem, hin⟩
  refine ⟨hhas, hleft, hright, fun k hk hlk hrk => ?_⟩
  obtain ⟨hkr, hkl⟩ := (mem_lineage_both ac hl hr).mpr ⟨hk, hlk, hrk⟩
  have hpair := ac.pairwise_lineage r
  rw [hsplit] at hkr hpair
  rcases List.mem_append.mp hkr with hb | hc
  · -- nothing that the lineages share stands before the first that they share
    have hnot := hbefore k hb
    rw [hkl] at hnot
    cases hnot
  · rcases List.mem_cons.mp hc with rfl | ha
    · exact .refl _
    · exact List.rel_of_pairwise_cons (List.pairwise_append.mp hpair).2.1 ha

theorem find?_lineage_eq_some_iff (ac : h.Acyclic) {l r : Symbol} :
    (h.lineage r).find? (h.lineage l).contains = some j ↔
      h.has l = true ∧ h.has r = true ∧ h.NearestCommon l r j := by
  constructor
  · intro hj
    have hl := (mem_lineage_iff ac).mp (List.contains_iff_mem.mp (List.find?_some hj))
    have hr := (mem_lineage_iff ac).mp (List.mem_of_find?_eq_some hj)
    exact ⟨hl.1, hr.1, nearestCommon_of_find? ac hl.1 hr.1 hj⟩
  · rintro ⟨hl, hr, hj⟩
    have hmem := (mem_lineage_both ac hl hr).mpr ⟨hj.has, hj.left, hj.right⟩
    obtain ⟨k, hk⟩ := Option.isSome_iff_exists.mp (List.find?_isSome.mpr ⟨j, hmem⟩)
    rw [hk, (nearestCommon_of_find? ac hl hr hk).unique ac hj]

theorem exists_nearestCommon (ac : h.Acyclic) {l r k : Symbol} (hl : h.has l = true)
    (hr : h.has r = true) (hk : h.has k = true) (rl : h.Reaches l k) (rr : h.Reaches r k) :
    ∃ j, h.NearestCommon l r j := by
  have hmem := (mem_lineage_both ac hl hr).mpr ⟨hk, rl, rr⟩
  obtain ⟨j, hj⟩ := Option.isSome_iff_exists.mp (List.find?_isSome.mpr ⟨k, hmem⟩)
  exact ⟨j, nearestCommon_of_find? ac hl hr hj⟩

@[simp] theorem join_noType_left (h : Hierarchy) (current b : Symbol) :
    h.join current (h.names .noType) b = .ok b := by
  rw [join, if_pos rfl]

@[simp] theorem join_noType_right (h : Hierarchy) (current a : Symbol) :
    h.join current a (h.names .noType) = .ok a := by
  by_cases ha : a = h.names .noType
  · rw [ha, join_noType_left]
  · rw [join, if_neg ha, if_pos (Or.inl rfl)]

@[simp] theorem join_self (h : Hierarchy) (current a : Symbol) : h.join current a a = .ok a := by
  by_cases ha : a = h.names .noType
  · rw [ha, join_noType_left]
  · rw [join, if_neg ha, if_pos (Or.inr rfl)]

/-- Different types that are there join to the nearest class above both. -/
theorem join_of_ne (ac : h.Acyclic) (ha : a ≠ h.names .noType) (hb : b ≠ h.names .noType)
    (hab : a ≠ b) :
    h.join current a b = .ok j ↔ h.has (h.denoted current a) = true ∧
      h.has (h.denoted current b) = true ∧
      h.NearestCommon (h.denoted current a) (h.denoted current b) j := by
  rw [← find?_lineage_eq_some_iff ac, join, if_neg ha, if_neg (not_or.mpr ⟨hb, hab⟩)]
  dsimp only
  cases (h.lineage (h.denoted current b)).find? (h.lineage (h.denoted current a)).contains with
  | some c => simp
  | none => simp

theorem eq_or_has_of_join (hj : h.join current a b = .ok j) : j = a ∨ j = b ∨ h.has j = true := by
  rw [join] at hj
  split_ifs at hj
  · exact Or.inr (Or.inl (Except.ok.inj hj).symm)
  · exact Or.inl (Except.ok.inj hj).symm
  · dsimp only at hj
    split at hj
    · next c hc =>
      obtain rfl := Except.ok.inj hj
      exact Or.inr (Or.inr (has_of_mem_lineage (List.mem_of_find?_eq_some hc)))
    · cases hj

theorem exists_join (ac : h.Acyclic) (hobj : h.has (h.names .object) = true)
    (hroot : ∀ {c}, h.has c = true → h.Reaches c (h.names .object))
    (ha : a = h.names .noType ∨ h.has (h.denoted current a) = true)
    (hb : b = h.names .noType ∨ h.has (h.denoted current b) = true) :
    ∃ j, h.join current a b = .ok j := by
  by_cases hna : a = h.names .noType
  · exact ⟨b, by rw [hna, join_noType_left]⟩
  by_cases hnb : b = h.names .noType
  · exact ⟨a, by rw [hnb, join_noType_right]⟩
  by_cases hab : a = b
  · exact ⟨a, by rw [hab, join_self]⟩
  have hl := ha.resolve_left hna
  have hr := hb.resolve_left hnb
  obtain ⟨j, hj⟩ := exists_nearestCommon ac hl hr hobj (hroot hl) (hroot hr)
  exact ⟨j, (join_of_ne ac hna hnb hab).mpr ⟨hl, hr, hj⟩⟩

/-! The order. -/

theorem Closed.has_of_reaches (cl : h.Closed) (hs : h.has s = true) (r : h.Reaches s t) :
    h.has t = true := by
  cases r with
  | refl => exact hs
  | tail _ e => exact cl _ _ e

theorem Closed.eq_of_reaches (cl : h.Closed) (ht : h.has t = false) (r : h.Reaches s t) : s = t := by
  cases r with
  | refl => rfl
  | tail _ e =>
    rw [cl _ _ e] at ht
    cases ht

theorem sub_refl (h : Hierarchy) (current t : Symbol) : h.Sub current t t := Or.inr (Or.inl rfl)

/-- Only through `_no_type` does a step fail to follow another one. -/
theorem Sub.trans (hst : h.Sub current s t) (htu : h.Sub current t u) (ht : t ≠ h.names .noType) :
    h.Sub current s u := by
  rcases hst with hs | rfl | ⟨hself, r⟩
  · exact Or.inl hs
  · exact htu
  · rcases htu with htn | rfl | ⟨hu, q⟩
    · exact absurd htn ht
    · exact Or.inr (Or.inr ⟨hself, r⟩)
    · rw [denoted_of_ne hself] at q
      exact Or.inr (Or.inr ⟨hu, r.trans q⟩)

theorem Acyclic.sub_antisymm (ac : h.Acyclic) (hst : h.Sub current s t) (hts : h.Sub current t s)
    (hs : s ≠ h.names .noType) (ht : t ≠ h.names .noType) : s = t := by
  rcases hst.resolve_left hs with rfl | ⟨htself, r⟩
  · rfl
  · rcases hts.resolve_left ht with rfl | ⟨hsself, q⟩
    · rfl
    · rw [denoted_of_ne hsself] at r
      rw [denoted_of_ne htself] at q
      exact ac.antisymm r q

theorem reaches_of_sub (hab : a ≠ b) (ha : a ≠ h.names .noType) (hb : b ≠ h.names .noType)
    (hau : h.Sub current a u) (hbu : h.Sub current b u) :
    u ≠ h.names .selfType ∧ h.Reaches (h.denoted current a) u := by
  have hu : u ≠ h.names .selfType := by
    -- only `SELF_TYPE` itself conforms to it, and the types differ
    rintro rfl
    have hself : ∀ {x}, x ≠ h.names .noType → h.Sub current x (h.names .selfType) →
        x = h.names .selfType := fun hx hxs => (hxs.resolve_left hx).resolve_right fun k => k.1 rfl
    exact hab ((hself ha hau).trans (hself hb hbu).symm)
  refine ⟨hu, ?_⟩
  rcases hau with he | rfl | ⟨-, r⟩
  · exact absurd he ha
  · rw [denoted_of_ne hu]
    exact .refl _
  · exact r

/-- A join is the least upper bound of its operands. -/
theorem isLub_of_join (ac : h.Acyclic) (hself : h.has (h.names .selfType) = false)
    (hj : h.join current a b = .ok j) : h.IsLub current [a, b] j := by
  by_cases ha : a = h.names .noType
  · rw [ha, join_noType_left] at hj
    obtain rfl := Except.ok.inj hj
    exact ⟨by simp [ha, Sub], fun v hv => hv b (by simp)⟩
  by_cases hb : b = h.names .noType
  · rw [hb, join_noType_right] at hj
    obtain rfl := Except.ok.inj hj
    exact ⟨by simp [hb, Sub], fun v hv => hv a (by simp)⟩
  by_cases hab : a = b
  · rw [hab, join_self] at hj
    obtain rfl := Except.ok.inj hj
    exact ⟨by simp [hab, sub_refl], fun v hv => hv b (by simp)⟩
  obtain ⟨-, -, near⟩ := (join_of_ne ac ha hb hab).mp hj
  have hne : j ≠ h.names .selfType := ne_of_has near.has hself
  refine ⟨fun t ht => ?_, fun v hv => ?_⟩
  · rw [List.mem_pair] at ht
    rcases ht with rfl | rfl
    · exact Or.inr (Or.inr ⟨hne, near.left⟩)
    · exact Or.inr (Or.inr ⟨hne, near.right⟩)
  · have hav := hv a (by simp)
    have hbv := hv b (by simp)
    obtain ⟨hvs, rl⟩ := reaches_of_sub hab ha hb hav hbv
    obtain ⟨-, rr⟩ := reaches_of_sub (Ne.symm hab) hb ha hbv hav
    refine Or.inr (Or.inr ⟨hvs, ?_⟩)
    rw [denoted_of_ne hne]
    exact near.reaches rl rr

theorem isLub_congr {ss ts : List Symbol}
    (hv : ∀ v, (∀ t ∈ ss, h.Sub current t v) ↔ ∀ t ∈ ts, h.Sub current t v) :
    h.IsLub current ss u ↔ h.IsLub current ts u :=
  ⟨fun hs => ⟨(hv u).mp hs.upper, fun v k => hs.least v ((hv v).mpr k)⟩,
    fun ht => ⟨(hv u).mpr ht.upper, fun v k => ht.least v ((hv v).mp k)⟩⟩

theorem isLub_noType_cons_iff {ts : List Symbol} :
    h.IsLub current (h.names .noType :: ts) u ↔ h.IsLub current ts u :=
  isLub_congr fun v => by simp [Sub]

/-- Two types may be replaced by their bound, unless that is `_no_type`. -/
theorem isLub_cons_iff_of_ne {ts : List Symbol} (hj : h.IsLub current [s, t] j)
    (hne : j ≠ h.names .noType) :
    h.IsLub current (j :: ts) u ↔ h.IsLub current (s :: t :: ts) u := by
  refine isLub_congr fun v => ?_
  have hsj := hj.upper s (by simp)
  have htj := hj.upper t (by simp)
  simp only [List.forall_mem_cons]
  constructor
  · rintro ⟨hjv, hts⟩
    exact ⟨hsj.trans hjv hne, htj.trans hjv hne, hts⟩
  · rintro ⟨hsv, htv, hts⟩
    exact ⟨hj.least v (by simp [hsv, htv]), hts⟩

/-- A hierarchy in which conformance is an order: no cycles, no missing parents, and neither
`SELF_TYPE` nor `_no_type` names a class. -/
structure Ordered (h : Hierarchy) : Prop where
  acyclic : h.Acyclic
  closed : h.Closed
  selfType : h.has (h.names .selfType) = false
  noType : h.has (h.names .noType) = false

theorem Enrols.ordered {p : Program} (en : h.Enrols p) (cl : h.Closed)
    (hn : ∀ c ∈ p.classes, c.name ≠ h.names .noType) : h.Ordered :=
  ⟨en.acyclic, cl, en.not_has_selfType, en.not_has (by decide) hn⟩

namespace Ordered

theorem ne_selfType (od : h.Ordered) (ht : h.has t = true) : t ≠ h.names .selfType :=
  ne_of_has ht od.selfType

theorem ne_noType (od : h.Ordered) (ht : h.has t = true) : t ≠ h.names .noType :=
  ne_of_has ht od.noType

theorem denoted_of_has (od : h.Ordered) (ht : h.has t = true) : h.denoted current t = t :=
  denoted_of_ne (od.ne_selfType ht)

theorem eq_noType_of_reaches (od : h.Ordered) (hc : h.has current = true)
    (r : h.Reaches (h.denoted current s) (h.names .noType)) : s = h.names .noType := by
  have hd := od.closed.eq_of_reaches od.noType r
  by_cases hs : s = h.names .selfType
  · rw [hs, denoted_selfType] at hd
    exact absurd hd (od.ne_noType hc)
  · rwa [denoted_of_ne hs] at hd

theorem eq_noType_of_sub (od : h.Ordered) (hc : h.has current = true)
    (hs : h.Sub current s (h.names .noType)) : s = h.names .noType := by
  rcases hs with hs | hs | ⟨-, r⟩
  · exact hs
  · exact hs
  · exact od.eq_noType_of_reaches hc r

theorem sub_antisymm (od : h.Ordered) (hc : h.has current = true) (hst : h.Sub current s t)
    (hts : h.Sub current t s) : s = t := by
  by_cases hs : s = h.names .noType
  · rw [hs] at hts ⊢
    exact (od.eq_noType_of_sub hc hts).symm
  by_cases ht : t = h.names .noType
  · rw [ht] at hst ⊢
    exact od.eq_noType_of_sub hc hst
  exact od.acyclic.sub_antisymm hst hts hs ht

theorem isLub_unique (od : h.Ordered) (hc : h.has current = true) {ts : List Symbol}
    (hs : h.IsLub current ts s) (ht : h.IsLub current ts t) : s = t :=
  od.sub_antisymm hc (hs.least t ht.upper) (ht.least s hs.upper)

end Ordered

end Hierarchy
end CoolStatics
