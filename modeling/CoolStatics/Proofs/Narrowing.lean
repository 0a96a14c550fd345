import CoolStatics.Proofs.Members
import CoolStatics.Proofs.Order
import CoolStatics.Proofs.Simulation

/-!
A method body in a descendant. Where `SELF_TYPE` stands for a class below the one that a body was
written for, types stay as they are or narrow to a class between the descendant and the type before.
Overriding being coherent and primitive classes having no descendants, this is a simulation.
-/
namespace CoolStatics

namespace Hierarchy

variable {h : Hierarchy} {p : Program} {a b d j s s' t t' : Symbol}

/-- The type is kept, or narrowed to a class that lies above `b` and below it. -/
def Narrows (h : Hierarchy) (b t t' : Symbol) : Prop :=
  t = t' ∨ h.has t' = true ∧ h.Reaches b t' ∧ h.Reaches t' t

namespace Ordered

theorem reaches_denoted (od : h.Ordered) (hba : h.Reaches b a) (hn : h.Narrows b t t') :
    h.Reaches (h.denoted b t') (h.denoted a t) := by
  rcases hn with rfl | ⟨ht', -, r⟩
  · by_cases hself : t = h.names .selfType
    · rw [hself, denoted_selfType, denoted_selfType]
      exact hba
    · rw [denoted_of_ne hself, denoted_of_ne hself]
      exact .refl _
  · have ht : h.has t = true := od.closed.has_of_reaches ht' r
    rw [od.denoted_of_has ht', od.denoted_of_has ht]
    exact r

theorem has_denoted (od : h.Ordered) (hb : h.has b = true) (hn : h.Narrows b t t')
    (ht : h.has (h.denoted a t) = true) : h.has (h.denoted b t') = true := by
  rcases hn with rfl | ⟨ht', -, -⟩
  · by_cases hself : t = h.names .selfType
    · rwa [hself, denoted_selfType]
    · rwa [denoted_of_ne hself] at ht ⊢
  · rwa [od.denoted_of_has ht']

theorem denoted_eq_or_reaches (od : h.Ordered) (hn : h.Narrows b t t') :
    h.denoted b t' = h.denoted a t ∨ h.Reaches b (h.denoted b t') := by
  rcases hn with rfl | ⟨ht', r, -⟩
  · by_cases hself : t = h.names .selfType
    · rw [hself, denoted_selfType]
      exact Or.inr (.refl _)
    · rw [denoted_of_ne hself, denoted_of_ne hself]
      exact Or.inl rfl
  · rw [od.denoted_of_has ht']
    exact Or.inr r

theorem eq_noType_iff_of_narrows (od : h.Ordered) (hn : h.Narrows b t t') :
    t' = h.names .noType ↔ t = h.names .noType := by
  rcases hn with rfl | ⟨ht', -, r⟩
  · rfl
  · have ht : h.has t = true := od.closed.has_of_reaches ht' r
    exact iff_of_false (od.ne_noType ht') (od.ne_noType ht)

theorem sub_of_narrows (od : h.Ordered) (hba : h.Reaches b a) (hn : h.Narrows b t t')
    (hs : h.Sub a t d) : h.Sub b t' d := by
  rcases hs with ht | rfl | ⟨hd, r⟩
  · exact Or.inl ((od.eq_noType_iff_of_narrows hn).mpr ht)
  · rcases hn with rfl | ⟨ht', -, r⟩
    · exact sub_refl h b t
    · have ht : h.has t = true := od.closed.has_of_reaches ht' r
      rw [← od.denoted_of_has ht'] at r
      exact Or.inr (Or.inr ⟨od.ne_selfType ht, r⟩)
  · exact Or.inr (Or.inr ⟨hd, (od.reaches_denoted hba hn).trans r⟩)

/-- Different types, at least one of them narrowed from the same type, are registered. -/
theorem nearestCommon_of_join (od : h.Ordered) (hs : h.Narrows b s s') (ht : h.Narrows b t t')
    (hne : s' ≠ t') (hsn : s ≠ h.names .noType) (htn : t ≠ h.names .noType)
    (hj : h.join a s t = .ok j) :
    h.has (h.denoted a s) = true ∧ h.has (h.denoted a t) = true ∧
      h.NearestCommon (h.denoted a s) (h.denoted a t) j := by
  by_cases hst : s = t
  · subst hst
    rw [join_self] at hj
    obtain rfl := Except.ok.inj hj
    -- one of the two has been narrowed, so what it was narrowed from is a class
    have hreg : h.has s = true := by
      rcases hs with rfl | ⟨hs', -, r⟩
      · rcases ht with rfl | ⟨ht', -, r⟩
        · exact absurd rfl hne
        · exact od.closed.has_of_reaches ht' r
      · exact od.closed.has_of_reaches hs' r
    rw [od.denoted_of_has hreg]
    exact ⟨hreg, hreg, hreg, .refl _, .refl _, fun k _ r _ => r⟩
  · exact (join_of_ne od.acyclic hsn htn hst).mp hj

theorem join_of_narrows (od : h.Ordered) (hb : h.has b = true) (hba : h.Reaches b a)
    (hs : h.Narrows b s s') (ht : h.Narrows b t t') (hj : h.join a s t = .ok j) :
    ∃ j', h.join b s' t' = .ok j' ∧ h.Narrows b j j' := by
  have hsn := od.eq_noType_iff_of_narrows hs
  have htn := od.eq_noType_iff_of_narrows ht
  by_cases hs₀ : s = h.names .noType
  · rw [hs₀, join_noType_left] at hj
    obtain rfl := Except.ok.inj hj
    exact ⟨t', by rw [hsn.mpr hs₀, join_noType_left], ht⟩
  by_cases ht₀ : t = h.names .noType
  · rw [ht₀, join_noType_right] at hj
    obtain rfl := Except.ok.inj hj
    exact ⟨s', by rw [htn.mpr ht₀, join_noType_right], hs⟩
  by_cases hne : s' = t'
  · subst hne
    refine ⟨s', join_self h b s', ?_⟩
    by_cases hst : s = t
    · rw [← hst, join_self] at hj
      rwa [← Except.ok.inj hj]
    · -- two types have become one, so one of them has been narrowed
      have hs' : h.has s' = true ∧ h.Reaches b s' := by
        rcases hs with rfl | ⟨hs', r, -⟩
        · rcases ht with rfl | ⟨ht', r, -⟩
          · exact absurd rfl hst
          · exact ⟨ht', r⟩
        · exact ⟨hs', r⟩
      obtain ⟨-, -, near⟩ := (join_of_ne od.acyclic hs₀ ht₀ hst).mp hj
      have r := (od.reaches_denoted hba hs).trans near.left
      rw [od.denoted_of_has hs'.1] at r
      exact Or.inr ⟨hs'.1, hs'.2, r⟩
  · obtain ⟨hl, hr, near⟩ := od.nearestCommon_of_join hs ht hne hs₀ ht₀ hj
    have hl' := od.has_denoted hb hs hl
    have hr' := od.has_denoted hb ht hr
    have rl := (od.reaches_denoted hba hs).trans near.left
    have rr := (od.reaches_denoted hba ht).trans near.right
    obtain ⟨j', near'⟩ := exists_nearestCommon od.acyclic hl' hr' near.has rl rr
    refine ⟨j', (join_of_ne od.acyclic (mt hsn.mp hs₀) (mt htn.mp ht₀) hne).mpr ⟨hl', hr', near'⟩, ?_⟩
    have hjj' : h.Reaches j' j := near'.nearest j near.has rl rr
    rcases od.denoted_eq_or_reaches hs with hes | rs
    · rcases od.denoted_eq_or_reaches ht with het | rt
      · rw [hes, het] at near'
        exact Or.inl (near.unique od.acyclic near')
      · exact Or.inr ⟨near'.has, rt.trans near'.right, hjj'⟩
    · exact Or.inr ⟨near'.has, rs.trans near'.left, hjj'⟩

end Ordered

theorem Enrols.eq_or_not_primitive (en : h.Enrols p) {c : ClassDecl} (hc : c ∈ p.classes)
    (hn : h.Narrows c.name t t') :
    t = t' ∨ h.names.isPrimitive t = false ∧ h.names.isPrimitive t' = false := by
  rcases hn with rfl | ⟨-, rb, rt⟩
  · exact Or.inl rfl
  · by_cases heq : t = t'
    · exact Or.inl heq
    · refine Or.inr ⟨?_, ?_⟩
      · by_contra hp
        exact heq (en.eq_of_reaches_primitive (by simpa using hp) rt).symm
      · by_contra hp
        have hprim : h.names.isPrimitive t' = true := by simpa using hp
        have hcp := en.not_primitive hc
        rw [en.eq_of_reaches_primitive hprim rb, hprim] at hcp
        cases hcp

/-- A body goes over from a class to its descendants. -/
theorem Enrols.simulation (en : h.Enrols p) (od : h.Ordered) (co : h.Coherent) {a b : ClassDecl}
    (ha : a ∈ p.classes) (hb : b ∈ p.classes) (hba : h.Reaches b.name a.name) :
    Simulation (a.context h) (b.context h) (h.Narrows b.name) where
  names := rfl
  has _ := rfl
  refl t := Or.inl rfl
  int hn := by
    rcases en.eq_or_not_primitive hb hn with ht | ⟨hp, -⟩
    · exact ht.symm
    · exact absurd hp (by simp [Context.names, ClassDecl.context, Vocabulary.isPrimitive])
  bool hn := by
    rcases en.eq_or_not_primitive hb hn with ht | ⟨hp, -⟩
    · exact ht.symm
    · exact absurd hp (by simp [Context.names, ClassDecl.context, Vocabulary.isPrimitive])
  comparable hs ht hst := by
    rcases en.eq_or_not_primitive hb hs with rfl | hs
    · rcases en.eq_or_not_primitive hb ht with rfl | ht
      · exact hst
      · rcases hst with rfl | hst
        · exact Or.inr ht
        · exact Or.inr ⟨hst.1, ht.2⟩
    · rcases en.eq_or_not_primitive hb ht with rfl | ht
      · rcases hst with rfl | hst
        · exact Or.inr hs.symm
        · exact Or.inr ⟨hs.2, hst.2⟩
      · exact Or.inr ⟨hs.2, ht.2⟩
  attr hx := co.findAttr? en.acyclic hba hx
  conforms hn hc := by
    have hca := od.ne_noType (en.has_class ha)
    have hcb := od.ne_noType (en.has_class hb)
    exact (conforms_iff od.acyclic hcb).mpr
      (od.sub_of_narrows hba hn ((conforms_iff od.acyclic hca).mp hc))
  join hs ht hj := od.join_of_narrows (en.has_class hb) hba hs ht hj
  receiver hn ht := od.has_denoted (en.has_class hb) hn ht
  method hn hm := co.findMethod? en.acyclic (od.reaches_denoted hba hn) hm

end Hierarchy
end CoolStatics
