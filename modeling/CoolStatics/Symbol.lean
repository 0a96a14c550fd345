/-!
Interned names. A symbol is the position at which its name was first seen, so that within one
interner two symbols are equal exactly when their names are.
-/
namespace CoolStatics

structure Symbol where
  index : Nat
  deriving DecidableEq, Repr

/-- The handle as it is shown when no interner is at hand. -/
def Symbol.text (s : Symbol) : String := "#" ++ s.index.repr

/-- Names in the order of their first occurrence, none of them twice. -/
structure Interner where
  names : List String
  nodup : names.Nodup

namespace Interner

def empty : Interner := ⟨[], .nil⟩

def size (i : Interner) : Nat := i.names.length

def isEmpty (i : Interner) : Bool := i.names.isEmpty

def get? (i : Interner) (name : String) : Option Symbol :=
  if name ∈ i.names then some ⟨i.names.idxOf name⟩ else none

/-- A symbol of another interner may lie beyond the names of this one. -/
def resolve (i : Interner) (s : Symbol) : String := i.names[s.index]?.getD "<unknown>"

def intern (i : Interner) (name : String) : Symbol × Interner :=
  if h : name ∈ i.names then (⟨i.names.idxOf name⟩, i)
  else (⟨i.names.length⟩, ⟨i.names ++ [name], by
    refine List.nodup_append.mpr ⟨i.nodup, by simp, ?_⟩
    rintro a ha b hb rfl
    exact h (List.mem_singleton.mp hb ▸ ha)⟩)

theorem intern_of_mem {i : Interner} {name : String} (h : name ∈ i.names) :
    i.intern name = (⟨i.names.idxOf name⟩, i) := by
  simp [intern, h]

theorem intern_names (i : Interner) (name : String) :
    (i.intern name).2.names = if name ∈ i.names then i.names else i.names ++ [name] := by
  unfold intern
  split <;> simp_all

theorem names_prefix_intern (i : Interner) (name : String) :
    i.names <+: (i.intern name).2.names := by
  rw [intern_names]
  split
  · exact List.prefix_refl _
  · exact List.prefix_append _ _

theorem mem_names_intern (i : Interner) (name : String) : name ∈ (i.intern name).2.names := by
  rw [intern_names]
  split <;> simp_all

theorem intern_symbol (i : Interner) (name : String) :
    (i.intern name).1 = ⟨(i.intern name).2.names.idxOf name⟩ := by
  unfold intern
  split
  · rfl
  · next h => simp [List.idxOf_append, h]

theorem resolve_idxOf {i : Interner} {name : String} (h : name ∈ i.names) :
    i.resolve ⟨i.names.idxOf name⟩ = name := by
  simp [resolve, List.getElem?_eq_getElem (List.idxOf_lt_length_of_mem h)]

@[simp] theorem resolve_intern (i : Interner) (name : String) :
    (i.intern name).2.resolve (i.intern name).1 = name := by
  rw [intern_symbol]
  exact resolve_idxOf (mem_names_intern i name)

/-- What a symbol resolves to survives every extension of the names. -/
theorem resolve_of_isPrefix {i j : Interner} (h : i.names <+: j.names) {s : Symbol}
    (hs : s.index < i.names.length) : j.resolve s = i.resolve s := by
  obtain ⟨rest, hr⟩ := h
  simp [resolve, ← hr, List.getElem?_append_left hs]

theorem intern_index_lt (i : Interner) (name : String) :
    (i.intern name).1.index < (i.intern name).2.names.length := by
  rw [intern_symbol]
  exact List.idxOf_lt_length_of_mem (mem_names_intern i name)

def internAll (i : Interner) : List String → List Symbol × Interner
  | [] => ([], i)
  | name :: rest =>
    let (s, j) := i.intern name
    let (ss, k) := j.internAll rest
    (s :: ss, k)

theorem names_prefix_internAll (i : Interner) (names : List String) :
    i.names <+: (i.internAll names).2.names := by
  induction names generalizing i with
  | nil => exact List.prefix_refl _
  | cons name rest ih => exact (names_prefix_intern i name).trans (ih _)

theorem map_resolve_internAll (i : Interner) (names : List String) :
    (i.internAll names).1.map (i.internAll names).2.resolve = names := by
  induction names generalizing i with
  | nil => rfl
  | cons name rest ih =>
    simp only [internAll, List.map_cons, ih]
    rw [resolve_of_isPrefix (names_prefix_internAll _ rest) (intern_index_lt i name), resolve_intern]

theorem length_internAll (i : Interner) (names : List String) :
    (i.internAll names).1.length = names.length := by
  simpa using congrArg List.length (map_resolve_internAll i names)

theorem nodup_internAll {names : List String} (h : names.Nodup) (i : Interner) :
    (i.internAll names).1.Nodup := by
  have hm := map_resolve_internAll i names
  exact List.Pairwise.of_map _ (fun a b hab e => hab (congrArg _ e)) (hm ▸ h : (List.map _ _).Nodup)

end Interner
end CoolStatics
