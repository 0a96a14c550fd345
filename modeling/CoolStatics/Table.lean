import CoolStatics.Symbol

/-!
Finite maps from symbols. Entries keep the order in which their keys arrived; writing to a key
that is present replaces its value in place.
-/
namespace CoolStatics

structure Table (α : Type) where
  entries : List (Symbol × α)
  nodup : (entries.map Prod.fst).Nodup

namespace Table

variable {α : Type}

def empty : Table α := ⟨[], .nil⟩

instance : EmptyCollection (Table α) := ⟨empty⟩

def size (t : Table α) : Nat := t.entries.length

def keys (t : Table α) : List Symbol := t.entries.map Prod.fst

def get? (t : Table α) (k : Symbol) : Option α := t.entries.lookup k

def contains (t : Table α) (k : Symbol) : Bool := (t.get? k).isSome

/-- Writes `v` over the first entry at `k`, or after the last entry. -/
def put (k : Symbol) (v : α) : List (Symbol × α) → List (Symbol × α)
  | [] => [(k, v)]
  | e :: rest => if e.1 = k then (k, v) :: rest else e :: put k v rest

theorem map_fst_put (k : Symbol) (v : α) (es : List (Symbol × α)) :
    (put k v es).map Prod.fst =
      if k ∈ es.map Prod.fst then es.map Prod.fst else es.map Prod.fst ++ [k] := by
  induction es with
  | nil => simp [put]
  | cons e rest ih =>
    by_cases h : e.1 = k
    · simp [put, h]
    · have h' : ¬k = e.1 := fun hk => h hk.symm
      simp only [put, if_neg h, List.map_cons, ih, List.mem_cons, h', false_or]
      split <;> simp

def insert (t : Table α) (k : Symbol) (v : α) : Table α :=
  ⟨put k v t.entries, by
    rw [map_fst_put]
    split
    · exact t.nodup
    · next h =>
      refine List.nodup_append.mpr ⟨t.nodup, by simp, ?_⟩
      rintro a ha b hb rfl
      exact h (List.mem_singleton.mp hb ▸ ha)⟩

/-- Changes the value at `k`, if there is one. -/
def modify (t : Table α) (k : Symbol) (f : α → α) : Table α :=
  ⟨t.entries.map fun e => (e.1, if e.1 = k then f e.2 else e.2), by
    simpa [Function.comp_def] using t.nodup⟩

@[simp] theorem get?_empty (k : Symbol) : (empty : Table α).get? k = none := rfl

theorem lookup_entry (k a : Symbol) (b : α) (rest : List (Symbol × α)) :
    ((a, b) :: rest).lookup k = if k = a then some b else rest.lookup k := by
  by_cases h : k = a
  · simp [h]
  · have hb : (k == a) = false := by simpa using h
    simp [List.lookup_cons, h, hb]

theorem lookup_put (k k' : Symbol) (v : α) (es : List (Symbol × α)) :
    (put k v es).lookup k' = if k' = k then some v else es.lookup k' := by
  induction es with
  | nil => simp [put, lookup_entry]
  | cons e rest ih =>
    obtain ⟨a, b⟩ := e
    by_cases h : a = k <;> by_cases h' : k' = a <;> simp_all [put, lookup_entry]

@[simp] theorem get?_insert (t : Table α) (k k' : Symbol) (v : α) :
    (t.insert k v).get? k' = if k' = k then some v else t.get? k' :=
  lookup_put k k' v t.entries

theorem lookup_map_ite (k k' : Symbol) (f : α → α) (es : List (Symbol × α)) :
    (es.map fun e => (e.1, if e.1 = k then f e.2 else e.2)).lookup k' =
      if k' = k then (es.lookup k').map f else es.lookup k' := by
  induction es with
  | nil => simp
  | cons e rest ih =>
    obtain ⟨a, b⟩ := e
    by_cases h : k' = a
    · subst h
      by_cases h' : k' = k <;> simp [h']
    · simp only [List.map_cons, lookup_entry, if_neg h, ih]

@[simp] theorem get?_modify (t : Table α) (k k' : Symbol) (f : α → α) :
    (t.modify k f).get? k' = if k' = k then (t.get? k').map f else t.get? k' :=
  lookup_map_ite k k' f t.entries

theorem put_of_not_mem {k : Symbol} {es : List (Symbol × α)} (v : α) (hk : k ∉ es.map Prod.fst) :
    put k v es = es ++ [(k, v)] := by
  induction es with
  | nil => rfl
  | cons e rest ih =>
    rw [List.map_cons, List.mem_cons, not_or] at hk
    have he : ¬e.1 = k := fun h => hk.1 h.symm
    rw [put, if_neg he, ih hk.2, List.cons_append]

theorem isSome_lookup (k : Symbol) (es : List (Symbol × α)) :
    (es.lookup k).isSome = decide (k ∈ es.map Prod.fst) := by
  induction es with
  | nil => simp
  | cons e rest ih =>
    obtain ⟨a, b⟩ := e
    by_cases h : k = a <;> simp [lookup_entry, h, ih]

theorem contains_eq (t : Table α) (k : Symbol) : t.contains k = decide (k ∈ t.keys) :=
  isSome_lookup k t.entries

theorem lookup_eq_some_iff {k : Symbol} {v : α} {es : List (Symbol × α)}
    (hn : (es.map Prod.fst).Nodup) : es.lookup k = some v ↔ (k, v) ∈ es := by
  induction es with
  | nil => simp
  | cons e rest ih =>
    obtain ⟨a, b⟩ := e
    rw [List.map_cons, List.nodup_cons] at hn
    rw [lookup_entry, List.mem_cons, Prod.mk.injEq]
    by_cases h : k = a
    · subst h
      have hk : (k, v) ∉ rest := fun hm => hn.1 (List.mem_map.mpr ⟨(k, v), hm, rfl⟩)
      simp [hk, eq_comm]
    · simp [h, ih hn.2]

theorem get?_eq_some_iff (t : Table α) {k : Symbol} {v : α} :
    t.get? k = some v ↔ (k, v) ∈ t.entries :=
  lookup_eq_some_iff t.nodup

/-- Distinct keys that the table does not have. -/
def Fresh (t : Table α) (ks : List Symbol) : Prop := ks.Nodup ∧ ∀ k ∈ ks, t.get? k = none

theorem fresh_empty {ks : List Symbol} : (∅ : Table α).Fresh ks ↔ ks.Nodup :=
  ⟨fun h => h.1, fun h => ⟨h, fun _ _ => rfl⟩⟩

theorem fresh_cons {t : Table α} {k : Symbol} {ks : List Symbol} (v : α) :
    t.Fresh (k :: ks) ↔ t.get? k = none ∧ (t.insert k v).Fresh ks := by
  constructor
  · rintro ⟨hn, hf⟩
    rw [List.nodup_cons] at hn
    refine ⟨hf k List.mem_cons_self, hn.2, fun k' hk' => ?_⟩
    have hne : k' ≠ k := fun h => hn.1 (h ▸ hk')
    rw [get?_insert, if_neg hne]
    exact hf k' (List.mem_cons_of_mem _ hk')
  · rintro ⟨hk, hn, hf⟩
    have hnew : ∀ k' ∈ ks, k' ≠ k ∧ t.get? k' = none := by
      intro k' hk'
      have h := hf k' hk'
      rw [get?_insert] at h
      split at h
      · cases h
      · next hne => exact ⟨hne, h⟩
    refine ⟨List.nodup_cons.mpr ⟨fun hmem => (hnew k hmem).1 rfl, hn⟩, fun k' hk' => ?_⟩
    rcases List.mem_cons.mp hk' with rfl | hk'
    · exact hk
    · exact (hnew k' hk').2

theorem not_mem_keys_of_get? {t : Table α} {k : Symbol} (hk : t.get? k = none) : k ∉ t.keys := by
  have hc := t.contains_eq k
  rw [contains, hk] at hc
  simpa using hc.symm

theorem entries_foldl_insert {β : Type} (key : β → Symbol) (val : β → α) {xs : List β} {t : Table α}
    (hf : t.Fresh (xs.map key)) :
    (xs.foldl (fun t x => t.insert (key x) (val x)) t).entries =
      t.entries ++ xs.map fun x => (key x, val x) := by
  induction xs generalizing t with
  | nil => simp
  | cons x xs ih =>
    rw [List.map_cons, fresh_cons (val x)] at hf
    have hput : (t.insert (key x) (val x)).entries = t.entries ++ [(key x, val x)] :=
      put_of_not_mem (val x) (not_mem_keys_of_get? hf.1)
    rw [List.foldl_cons, ih hf.2, hput, List.append_assoc, List.singleton_append, List.map_cons]

theorem get?_foldl_insert {β : Type} (key : β → Symbol) (val : β → α) {xs : List β} {t : Table α}
    (hf : t.Fresh (xs.map key)) {k : Symbol} {v : α} :
    (xs.foldl (fun t x => t.insert (key x) (val x)) t).get? k = some v ↔
      (∃ x ∈ xs, key x = k ∧ val x = v) ∨ t.get? k = some v := by
  induction xs generalizing t with
  | nil => simp
  | cons x xs ih =>
    rw [List.map_cons, fresh_cons (val x)] at hf
    rw [List.foldl_cons, ih hf.2, get?_insert]
    by_cases hk : k = key x
    · subst hk
      simp [hf.1, or_comm]
    · have hk' : ¬key x = k := fun h => hk h.symm
      simp [hk, hk']

theorem get?_foldl_insert_map {β γ : Type} (key : γ → Symbol) (val : γ → α) (g : α → β) {xs : List γ}
    {t : Table α} {t' : Table β} (ht : ∀ k, t'.get? k = (t.get? k).map g) (k : Symbol) :
    (xs.foldl (fun t x => t.insert (key x) (g (val x))) t').get? k =
      ((xs.foldl (fun t x => t.insert (key x) (val x)) t).get? k).map g := by
  induction xs generalizing t t' with
  | nil => exact ht k
  | cons x xs ih =>
    refine ih fun k' => ?_
    rw [get?_insert, get?_insert, ht]
    split <;> rfl

theorem map_ite_of_not_mem {k : Symbol} {es : List (Symbol × α)} (f : α → α)
    (hk : k ∉ es.map Prod.fst) :
    (es.map fun e => (e.1, if e.1 = k then f e.2 else e.2)) = es := by
  induction es with
  | nil => rfl
  | cons e rest ih =>
    rw [List.map_cons, List.mem_cons, not_or] at hk
    have he : ¬e.1 = k := fun h => hk.1 h.symm
    rw [List.map_cons, ih hk.2, if_neg he]

theorem map_ite_put (k : Symbol) (v : α) (f : α → α) {es : List (Symbol × α)}
    (hn : (es.map Prod.fst).Nodup) :
    ((put k v es).map fun e => (e.1, if e.1 = k then f e.2 else e.2)) = put k (f v) es := by
  induction es with
  | nil => simp [put]
  | cons e rest ih =>
    rw [List.map_cons, List.nodup_cons] at hn
    by_cases h : e.1 = k
    · rw [put, if_pos h, put, if_pos h, List.map_cons, map_ite_of_not_mem f (h ▸ hn.1)]
      simp
    · rw [put, if_neg h, put, if_neg h, List.map_cons, ih hn.2, if_neg h]

theorem modify_insert (t : Table α) (k : Symbol) (v : α) (f : α → α) :
    (t.insert k v).modify k f = t.insert k (f v) := by
  have he := map_ite_put k v f t.nodup
  simp only [insert, modify, he]

end Table
end CoolStatics
