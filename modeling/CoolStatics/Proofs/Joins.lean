import CoolStatics.Proofs.Growth

/-!
Joins in a hierarchy that has grown by any calls. Parents may be missing, so that two types need not
have a bound; a join breaks off exactly where they have none among the registered classes, and is the
least of their bounds where it does not. Taken as a partial operation it is idempotent, commutative
and associative.
-/
namespace CoolStatics
namespace Hierarchy

variable {h : Hierarchy} {current a b c j u : Symbol}

/-- A join of which only its result counts. -/
def join? (h : Hierarchy) (current a b : Symbol) : Option Symbol := (h.join current a b).toOption

/-- The types that joins are taken of. -/
def Operand (h : Hierarchy) (t : Symbol) : Prop := t = h.names .noType ∨ h.Known t

instance (h : Hierarchy) (t : Symbol) : Decidable (h.Operand t) :=
  inferInstanceAs (Decidable (_ ∨ _))

theorem join?_eq_some_iff : h.join? current a b = some j ↔ h.join current a b = .ok j := by
  rw [join?]
  cases h.join current a b <;> simp [Except.toOption]

theorem join?_noType_left (h : Hierarchy) (current b : Symbol) :
    h.join? current (h.names .noType) b = some b :=
  join?_eq_some_iff.mpr (join_noType_left h current b)

theorem join?_noType_right (h : Hierarchy) (current a : Symbol) :
    h.join? current a (h.names .noType) = some a :=
  join?_eq_some_iff.mpr (join_noType_right h current a)

theorem Known.ne_noType (hn : h.has (h.names .noType) = false) (ha : h.Known a) :
    a ≠ h.names .noType := by
  rcases ha with rfl | ha
  · simp
  · exact ne_of_has ha hn

theorem Known.of_join (ha : h.Known a) (hb : h.Known b) (hj : h.join current a b = .ok j) :
    h.Known j := by
  rcases eq_or_has_of_join hj with rfl | rfl | hj
  · exact ha
  · exact hb
  · exact Or.inr hj

theorem exists_join_of_bound (ac : h.Acyclic) (hn : h.has (h.names .noType) = false)
    (hc : h.has current = true) (ha : h.Known a) (hb : h.Known b) (hu : h.Known u)
    (hau : h.Sub current a u) (hbu : h.Sub current b u) : ∃ j, h.join current a b = .ok j := by
  by_cases hab : a = b
  · rw [hab, join_self]
    exact ⟨b, rfl⟩
  · have hna := ha.ne_noType hn
    have hnb := hb.ne_noType hn
    obtain ⟨hself, ra⟩ := reaches_of_sub hab hna hnb hau hbu
    obtain ⟨-, rb⟩ := reaches_of_sub (Ne.symm hab) hnb hna hbu hau
    have hl := ha.has_denoted hc
    have hr := hb.has_denoted hc
    obtain ⟨j, near⟩ := exists_nearestCommon ac hl hr (hu.resolve_left hself) ra rb
    exact ⟨j, (join_of_ne ac hna hnb hab).mpr ⟨hl, hr, near⟩⟩

namespace Regular

theorem join?_eq_some_iff_isLub (rg : h.Regular) (hn : h.has (h.names .noType) = false)
    (hc : h.has current = true) (ha : h.Known a) (hb : h.Known b) :
    h.join? current a b = some j ↔ h.Known j ∧ h.IsLub current [a, b] j := by
  rw [join?_eq_some_iff]
  constructor
  · intro hj
    exact ⟨ha.of_join hb hj, isLub_of_join rg.acyclic rg.selfType hj⟩
  · rintro ⟨hk, hlub⟩
    obtain ⟨i, hi⟩ := exists_join_of_bound rg.acyclic hn hc ha hb hk (hlub.upper a (by simp))
      (hlub.upper b (by simp))
    have hilub := isLub_of_join rg.acyclic rg.selfType hi
    have heq : i = j := rg.acyclic.sub_antisymm (hilub.least j hlub.upper)
      (hlub.least i hilub.upper) ((ha.of_join hb hi).ne_noType hn) (hk.ne_noType hn)
    rw [hi, heq]

/-- Two joins in a row give the least upper bound of all three types. -/
theorem join?_bind_eq_some_iff (rg : h.Regular) (hn : h.has (h.names .noType) = false)
    (hc : h.has current = true) (ha : h.Known a) (hb : h.Known b) (hd : h.Known c) :
    ((h.join? current a b).bind fun x => h.join? current x c) = some j ↔
      h.Known j ∧ h.IsLub current [a, b, c] j := by
  rw [Option.bind_eq_some_iff]
  constructor
  · rintro ⟨x, hx, hj⟩
    obtain ⟨hkx, hxlub⟩ := (rg.join?_eq_some_iff_isLub hn hc ha hb).mp hx
    obtain ⟨hkj, hjlub⟩ := (rg.join?_eq_some_iff_isLub hn hc hkx hd).mp hj
    exact ⟨hkj, (isLub_cons_iff_of_ne hxlub (hkx.ne_noType hn)).mp hjlub⟩
  · rintro ⟨hkj, hjlub⟩
    -- what bounds all three bounds the first two, whose join it then bounds too
    obtain ⟨x, hx⟩ := exists_join_of_bound rg.acyclic hn hc ha hb hkj (hjlub.upper a (by simp))
      (hjlub.upper b (by simp))
    have hkx := ha.of_join hb hx
    have hxlub := isLub_of_join rg.acyclic rg.selfType hx
    refine ⟨x, join?_eq_some_iff.mpr hx, (rg.join?_eq_some_iff_isLub hn hc hkx hd).mpr ⟨hkj, ?_⟩⟩
    exact (isLub_cons_iff_of_ne hxlub (hkx.ne_noType hn)).mpr hjlub

theorem join?_comm (rg : h.Regular) (hn : h.has (h.names .noType) = false)
    (hc : h.has current = true) (ha : h.Operand a) (hb : h.Operand b) :
    h.join? current a b = h.join? current b a := by
  rcases ha with rfl | ha
  · rw [join?_noType_left, join?_noType_right]
  rcases hb with rfl | hb
  · rw [join?_noType_left, join?_noType_right]
  ext j
  rw [rg.join?_eq_some_iff_isLub hn hc ha hb, rg.join?_eq_some_iff_isLub hn hc hb ha]
  exact and_congr_right fun _ => isLub_congr fun v => by simp [and_comm]

theorem join?_assoc (rg : h.Regular) (hn : h.has (h.names .noType) = false)
    (hc : h.has current = true) (ha : h.Operand a) (hb : h.Operand b) (hd : h.Operand c) :
    ((h.join? current a b).bind fun x => h.join? current x c) =
      (h.join? current b c).bind fun y => h.join? current a y := by
  rcases ha with rfl | ha
  · simp [join?_noType_left]
  rcases hb with rfl | hb
  · simp [join?_noType_left, join?_noType_right]
  rcases hd with rfl | hd
  · simp [join?_noType_right]
  have hflip : ((h.join? current b c).bind fun y => h.join? current a y) =
      (h.join? current b c).bind fun y => h.join? current y a := by
    refine Option.bind_congr fun y hy => ?_
    have hky := hb.of_join hd (join?_eq_some_iff.mp hy)
    exact rg.join?_comm hn hc (Or.inr ha) (Or.inr hky)
  ext j
  rw [hflip, rg.join?_bind_eq_some_iff hn hc ha hb hd, rg.join?_bind_eq_some_iff hn hc hb hd ha]
  exact and_congr_right fun _ => isLub_congr fun v => by simp; tauto

theorem join_eq_error_iff (rg : h.Regular) (hn : h.has (h.names .noType) = false)
    (hc : h.has current = true) (ha : h.Operand a) (hb : h.Operand b) :
    (∃ e, h.join current a b = .error e) ↔ a ≠ b ∧ a ≠ h.names .noType ∧ b ≠ h.names .noType ∧
      ¬∃ k, h.has k = true ∧ h.Sub current a k ∧ h.Sub current b k := by
  constructor
  · rintro ⟨e, he⟩
    have hno : ∀ j, h.join current a b ≠ .ok j := by
      intro j hj
      rw [he] at hj
      cases hj
    have hna : a ≠ h.names .noType := by
      rintro rfl
      exact hno b (join_noType_left h current b)
    have hnb : b ≠ h.names .noType := by
      rintro rfl
      exact hno a (join_noType_right h current a)
    refine ⟨?_, hna, hnb, ?_⟩
    · rintro rfl
      exact hno a (join_self h current a)
    · rintro ⟨k, hk, hak, hbk⟩
      obtain ⟨j, hj⟩ := exists_join_of_bound rg.acyclic hn hc (ha.resolve_left hna)
        (hb.resolve_left hnb) (Or.inr hk) hak hbk
      exact hno j hj
  · rintro ⟨hab, hna, hnb, hno⟩
    cases hj : h.join current a b with
    | error e => exact ⟨e, rfl⟩
    | ok j =>
      obtain ⟨-, -, near⟩ := (join_of_ne rg.acyclic hna hnb hab).mp hj
      have hlub := isLub_of_join rg.acyclic rg.selfType hj
      exact absurd ⟨j, near.has, hlub.upper a (by simp), hlub.upper b (by simp)⟩ hno

end Regular

/-- In a hierarchy that has grown by any calls and has no class `_no_type`, a join of types inside a
class breaks off exactly if no registered class bounds them; it is their least upper bound otherwise,
and as a partial operation idempotent, commutative and associative. -/
theorem Grown.join_isLub_or_breaks (hg : h.Grown) (hn : h.has (h.names .noType) = false)
    (hc : h.has current = true) (ha : h.Operand a) (hb : h.Operand b) (hd : h.Operand c) :
    ((∃ e, h.join current a b = .error e) ↔
      a ≠ b ∧ a ≠ h.names .noType ∧ b ≠ h.names .noType ∧
        ¬∃ k, h.has k = true ∧ h.conforms current k a = true ∧ h.conforms current k b = true) ∧
    (∀ j, h.join current a b = .ok j →
      h.conforms current j a = true ∧ h.conforms current j b = true ∧
      ∀ t, h.conforms current t a = true → h.conforms current t b = true →
        h.conforms current t j = true) ∧
    h.join? current a a = some a ∧
    h.join? current a b = h.join? current b a ∧
    ((h.join? current a b).bind fun x => h.join? current x c) =
      (h.join? current b c).bind fun y => h.join? current a y := by
  have rg := hg.regular
  have hcurrent : current ≠ h.names .noType := ne_of_has hc hn
  simp only [conforms_iff rg.acyclic hcurrent]
  refine ⟨rg.join_eq_error_iff hn hc ha hb, fun j hj => ?_, ?_, rg.join?_comm hn hc ha hb,
    rg.join?_assoc hn hc ha hb hd⟩
  · have hlub := isLub_of_join rg.acyclic rg.selfType hj
    exact ⟨hlub.upper a (by simp), hlub.upper b (by simp),
      fun t hat hbt => hlub.least t (by simp [hat, hbt])⟩
  · exact join?_eq_some_iff.mpr (join_self h current a)

/-- Inside `A` no registered class is above both `SELF_TYPE` and `Object`, and however these are joined
with `B` there is no result. -/
theorem join_breaks_missingParent :
    (¬∃ k, missingParent.has k = true ∧
      missingParent.conforms ⟨26⟩ k (missingParent.names .selfType) = true ∧
      missingParent.conforms ⟨26⟩ k (missingParent.names .object) = true) ∧
    ((missingParent.join? ⟨26⟩ (missingParent.names .object) ⟨27⟩).bind fun y =>
      missingParent.join? ⟨26⟩ (missingParent.names .selfType) y) = none := by
  have hn : missingParent.has (missingParent.names .noType) = false := by decide
  have hc : missingParent.has ⟨26⟩ = true := by decide
  have hself : missingParent.Operand (missingParent.names .selfType) := by decide
  have hobject : missingParent.Operand (missingParent.names .object) := by decide
  have hb : missingParent.Operand ⟨27⟩ := by decide
  have hbreaks : ∃ e, missingParent.join ⟨26⟩ (missingParent.names .selfType)
      (missingParent.names .object) = .error e := ⟨_, rfl⟩
  have hnone : missingParent.join? ⟨26⟩ (missingParent.names .selfType)
      (missingParent.names .object) = none := rfl
  obtain ⟨hiff, -, -, -, hassoc⟩ :=
    grown_missingParent.join_isLub_or_breaks hn hc hself hobject hb
  rw [hnone] at hassoc
  exact ⟨(hiff.mp hbreaks).2.2.2, hassoc.symm⟩

end Hierarchy
end CoolStatics
