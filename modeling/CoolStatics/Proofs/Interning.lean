import CoolStatics.Proofs.Reanalysis
import Mathlib.Data.Finset.Card

/-!
Interning over whole runs. Calls intern single names or all predefined ones, in any order. The symbol of
a name counts the different names before its first occurrence, so names and symbols determine each other
once and for all. Names are laid out in two tables that mirror each other, one for either direction; these
answer every call alike, as long as 32 bits can number the names.
-/
namespace CoolStatics

/-- A call that may add names to an interner. -/
inductive Naming
  | intern (name : String)
  | predefined

def Naming.names : Naming → List String
  | intern name => [name]
  | predefined => Predefined.all.map Predefined.text

def Naming.allNames (us : List Naming) : List String := us.flatMap names

namespace Interner

variable {i : Interner} {name : String} {s : Symbol}

theorem get?_eq_some_iff : i.get? name = some s ↔ s.index < i.size ∧ i.resolve s = name := by
  constructor
  · intro hs
    rw [get?] at hs
    split at hs
    · rename_i hmem
      obtain rfl := Option.some.inj hs
      exact ⟨List.idxOf_lt_length_of_mem hmem, resolve_idxOf hmem⟩
    · cases hs
  · rintro ⟨hlt, rfl⟩
    have hbound : s.index < i.names.length := hlt
    have htext : i.resolve s = i.names[s.index] := by
      rw [resolve, List.getElem?_eq_getElem hbound, Option.getD_some]
    rw [get?, htext, if_pos (List.getElem_mem hbound), i.nodup.idxOf_getElem]

theorem get?_intern (i : Interner) (name other : String) :
    (i.intern name).2.get? other =
      if other = name then some (i.intern name).1 else i.get? other := by
  by_cases hother : other = name
  · rw [if_pos hother, hother, get?, if_pos (mem_names_intern i name), intern_symbol]
  · by_cases hname : name ∈ i.names
    · rw [if_neg hother, intern_of_mem hname]
    · simp only [get?, intern_names, if_neg hname, if_neg hother]
      by_cases hmem : other ∈ i.names
      · simp [hmem, List.idxOf_append]
      · simp [hmem, hother]

/-! Many names. -/

theorem internAll_append (i : Interner) (names more : List String) :
    i.internAll (names ++ more) =
      ((i.internAll names).1 ++ ((i.internAll names).2.internAll more).1,
        ((i.internAll names).2.internAll more).2) := by
  induction names generalizing i with
  | nil => rfl
  | cons name names ih => simp only [List.cons_append, internAll, ih]

theorem mem_names_internAll {names : List String} :
    name ∈ (i.internAll names).2.names ↔ name ∈ i.names ∨ name ∈ names := by
  induction names generalizing i with
  | nil => simp [internAll]
  | cons first names ih =>
    simp only [internAll, ih, intern_names, List.mem_cons]
    split
    · rename_i hfirst
      have hagain : name = first → name ∈ i.names := fun h => h ▸ hfirst
      tauto
    · simp [or_assoc]

theorem size_internAll_empty (names : List String) :
    (empty.internAll names).2.size = names.toFinset.card := by
  rw [size, ← List.toFinset_card_of_nodup (empty.internAll names).2.nodup]
  congr 1
  ext name
  simp [mem_names_internAll, empty]

theorem idxOf_internAll_empty {names : List String} (hname : name ∈ names) :
    (empty.internAll names).2.names.idxOf name =
      (names.takeWhile (· ≠ name)).toFinset.card := by
  obtain ⟨before, after, rfl, hnew⟩ := List.eq_append_cons_of_mem hname
  have hbefore : (before ++ name :: after).takeWhile (· ≠ name) = before := by
    rw [List.takeWhile_append_of_pos]
    · simp
    · intro other hother
      simpa using fun h : other = name => hnew (h ▸ hother)
  have hfresh : name ∉ (empty.internAll before).2.names := by
    simpa [mem_names_internAll, empty] using hnew
  rw [hbefore, ← size_internAll_empty, internAll_append]
  -- what comes after the first occurrence is appended behind it
  obtain ⟨rest, hrest⟩ := names_prefix_internAll ((empty.internAll before).2.intern name).2 after
  simp only [internAll, ← hrest, intern_names, if_neg hfresh]
  simp [List.idxOf_append, hfresh, size]

/-- Where names have been interned before, they have the symbols that they had, and nothing is added. -/
theorem internAll_of_isPrefix {j : Interner} {names : List String}
    (hle : (i.internAll names).2.names <+: j.names) :
    j.internAll names = ((i.internAll names).1, j) := by
  have hsub := subset_names_internAll i names
  rw [internAll_of_subset (List.Subset.trans hsub hle.subset), internAll_symbols]
  obtain ⟨rest, hrest⟩ := hle
  refine Prod.ext (List.map_congr_left fun name hname => ?_) rfl
  rw [← hrest, List.idxOf_append_of_mem (hsub hname)]

/-! Runs of calls. -/

def call (i : Interner) : Naming → List Symbol × Interner
  | .intern name => ([(i.intern name).1], (i.intern name).2)
  | .predefined => ((Vocabulary.intern i).1.symbols, (Vocabulary.intern i).2)

/-- The symbols that calls return from left to right, and the interner after them. -/
def run (i : Interner) : List Naming → List Symbol × Interner
  | [] => ([], i)
  | u :: us => ((i.call u).1 ++ ((i.call u).2.run us).1, ((i.call u).2.run us).2)

theorem call_eq (i : Interner) (u : Naming) : i.call u = i.internAll u.names := by
  cases u with
  | intern name => rfl
  | predefined => simp only [call, Naming.names, Vocabulary.symbols_intern, Vocabulary.intern_snd]

theorem run_eq (i : Interner) (us : List Naming) : i.run us = i.internAll (Naming.allNames us) := by
  induction us generalizing i with
  | nil => rfl
  | cons u us ih =>
    simp only [run, call_eq, ih]
    exact (internAll_append i u.names (Naming.allNames us)).symm

theorem names_prefix_run (i : Interner) (us : List Naming) : i.names <+: (i.run us).2.names := by
  rw [run_eq]
  exact names_prefix_internAll i _

end Interner

theorem Vocabulary.intern_of_isPrefix {i j : Interner} (hle : (intern i).2.names <+: j.names) :
    intern j = ((intern i).1, j) := by
  rw [intern_snd] at hle
  have hj := Interner.internAll_of_isPrefix hle
  refine Prod.ext (eq_of_symbols_eq ?_) ?_
  · rw [symbols_intern, hj, symbols_intern]
  · rw [intern_snd, hj]

/-! The two tables. -/

/-- The number of each name and the name of each number. A number has 32 bits. -/
structure NameTables where
  numbers : Std.HashMap String UInt32
  texts : Array String

namespace NameTables

def empty : NameTables := ⟨∅, #[]⟩

def size (t : NameTables) : Nat := t.texts.size

def get? (t : NameTables) (name : String) : Option UInt32 := t.numbers[name]?

def resolve (t : NameTables) (k : UInt32) : String := t.texts[k.toNat]?.getD "<unknown>"

/-- A name that is not there takes the next number, for which there may be no room. -/
def intern? (t : NameTables) (name : String) : Option (UInt32 × NameTables) :=
  match t.get? name with
  | some k => some (k, t)
  | none =>
    if t.size < UInt32.size then
      let k := UInt32.ofNat t.size
      some (k, ⟨t.numbers.insert name k, t.texts.push name⟩)
    else none

def internAll? (t : NameTables) : List String → Option (List UInt32 × NameTables)
  | [] => some ([], t)
  | name :: names => do
    let (k, t') ← t.intern? name
    let (ks, t'') ← t'.internAll? names
    return (k :: ks, t'')

def symbol (k : UInt32) : Symbol := ⟨k.toNat⟩

/-- Both tables hold the names of the interner, each in its direction. -/
structure Mirrors (t : NameTables) (i : Interner) : Prop where
  texts : t.texts.toList = i.names
  numbers : ∀ name, (t.get? name).map symbol = i.get? name

variable {t : NameTables} {i : Interner}

theorem mirrors_empty : empty.Mirrors .empty where
  texts := rfl
  numbers name := by simp [empty, get?, Interner.empty, Interner.get?]

theorem Mirrors.size_eq (hm : t.Mirrors i) : t.size = i.size := by
  rw [size, Interner.size, ← hm.texts, Array.length_toList]

theorem Mirrors.resolve_eq (hm : t.Mirrors i) (k : UInt32) : t.resolve k = i.resolve (symbol k) := by
  rw [resolve, Interner.resolve, ← hm.texts, Array.getElem?_toList]
  rfl

/-- A name that both have is found, and a new one takes the same number in both. -/
theorem Mirrors.intern (hm : t.Mirrors i) {name : String}
    (hroom : (i.intern name).2.size ≤ UInt32.size) :
    ∃ k t', t.intern? name = some (k, t') ∧ symbol k = (i.intern name).1 ∧
      t'.Mirrors (i.intern name).2 := by
  have hnumber := hm.numbers name
  by_cases hname : name ∈ i.names
  · rw [Interner.get?, if_pos hname] at hnumber
    obtain ⟨k, hk, hsymbol⟩ := Option.map_eq_some_iff.mp hnumber
    rw [Interner.intern_of_mem hname]
    exact ⟨k, t, by simp [intern?, hk], hsymbol, hm⟩
  · rw [Interner.get?, if_neg hname, Option.map_eq_none_iff] at hnumber
    have hfirst : (i.intern name).1 = ⟨i.size⟩ := by simp [Interner.intern, hname, Interner.size]
    have hnames : (i.intern name).2.names = i.names ++ [name] := by
      rw [Interner.intern_names, if_neg hname]
    have hlt : t.size < UInt32.size := by
      rw [Interner.size, hnames, List.length_append, List.length_singleton] at hroom
      rw [hm.size_eq, Interner.size]
      omega
    have hsymbol : symbol (.ofNat t.size) = (i.intern name).1 := by
      rw [symbol, UInt32.toNat_ofNat_of_lt' hlt, hfirst, hm.size_eq]
    refine ⟨_, _, by simp only [intern?, hnumber, if_pos hlt]; rfl, hsymbol, ?_, fun other => ?_⟩
    · rw [Array.toList_push, hm.texts, hnames]
    · rw [Interner.get?_intern, get?, Std.HashMap.getElem?_insert]
      by_cases hother : other = name
      · simp [hother, hsymbol]
      · have hne : ¬name = other := fun h => hother h.symm
        rw [if_neg hother, if_neg (by simpa using hne)]
        exact hm.numbers other

theorem Mirrors.internAll (hm : t.Mirrors i) {names : List String}
    (hroom : (i.internAll names).2.size ≤ UInt32.size) :
    ∃ ks t', t.internAll? names = some (ks, t') ∧ ks.map symbol = (i.internAll names).1 ∧
      t'.Mirrors (i.internAll names).2 := by
  induction names generalizing t i with
  | nil => exact ⟨[], t, rfl, rfl, hm⟩
  | cons name names ih =>
    have hle := (Interner.names_prefix_internAll (i.intern name).2 names).length_le
    obtain ⟨k, t₁, hk, hsymbol, hm₁⟩ := hm.intern (le_trans hle hroom)
    obtain ⟨ks, t₂, hks, hsymbols, hm₂⟩ := ih hm₁ hroom
    refine ⟨k :: ks, t₂, ?_, ?_, hm₂⟩
    · simp [internAll?, hk, hks]
    · rw [List.map_cons, hsymbol, hsymbols]
      rfl

end NameTables

namespace Interner

theorem mem_zip_internAll {i : Interner} {names : List String} {e : String × Symbol}
    (he : e ∈ names.zip (i.internAll names).1) :
    e.1 ∈ (i.internAll names).2.names ∧ e.2 = ⟨(i.internAll names).2.names.idxOf e.1⟩ := by
  rw [internAll_symbols, ← List.map_prod_left_eq_zip] at he
  obtain ⟨name, hname, rfl⟩ := List.mem_map.mp he
  exact ⟨subset_names_internAll i names hname, rfl⟩

/-- After any run of calls names and symbols determine each other, as many symbols as there were different
names. The symbol that is returned for a name counts the different names before its first occurrence, so
that it is the same for every occurrence and for no other name, and no later call changes what it stands
for. The predefined names have 26 symbols, which stay what they are, and interning them again adds nothing.
Two tables with 32 bits for a number have room for the names and answer in the same way. -/
theorem run_bijective {us : List Naming} {ss : List Symbol} {i : Interner}
    (hrun : empty.run us = (ss, i)) (hroom : (Naming.allNames us).toFinset.card < UInt32.size) :
    (∀ name s, i.get? name = some s ↔ s.index < i.size ∧ i.resolve s = name) ∧
      i.size = (Naming.allNames us).toFinset.card ∧
      (ss = (Naming.allNames us).map fun name =>
        ⟨((Naming.allNames us).takeWhile (· ≠ name)).toFinset.card⟩) ∧
      (∀ e ∈ (Naming.allNames us).zip ss, ∀ e' ∈ (Naming.allNames us).zip ss,
        e.2 = e'.2 ↔ e.1 = e'.1) ∧
      (∀ e ∈ (Naming.allNames us).zip ss, ∀ more, (i.run more).2.resolve e.2 = e.1) ∧
      ((Vocabulary.intern i).1.symbols.length = 26 ∧ (Vocabulary.intern i).1.symbols.Nodup ∧
        ∀ more j, ((Vocabulary.intern i).2.run more).2 = j →
          Vocabulary.intern j = ((Vocabulary.intern i).1, j)) ∧
      ∃ ks t, NameTables.empty.internAll? (Naming.allNames us) = some (ks, t) ∧
        ks.map NameTables.symbol = ss ∧ t.size = i.size ∧
        (∀ name, (t.get? name).map NameTables.symbol = i.get? name) ∧
        ∀ k, t.resolve k = i.resolve (NameTables.symbol k) := by
  -- a run interns the names of its calls one after another
  rw [run_eq] at hrun
  generalize Naming.allNames us = names at hrun hroom ⊢
  obtain ⟨rfl, rfl⟩ := Prod.ext_iff.mp hrun
  refine ⟨fun name s => get?_eq_some_iff, size_internAll_empty names, ?_, ?_, ?_, ?_, ?_⟩
  · rw [internAll_symbols]
    exact List.map_congr_left fun name hname => by rw [idxOf_internAll_empty hname]
  · intro e he e' he'
    obtain ⟨hmem, hsymbol⟩ := mem_zip_internAll he
    obtain ⟨hmem', hsymbol'⟩ := mem_zip_internAll he'
    rw [hsymbol, hsymbol', Symbol.mk.injEq, List.idxOf_inj hmem]
  · intro e he more
    obtain ⟨hmem, hsymbol⟩ := mem_zip_internAll he
    have hlt : e.2.index < (empty.internAll names).2.names.length := by
      rw [hsymbol]
      exact List.idxOf_lt_length_of_mem hmem
    rw [resolve_of_isPrefix (names_prefix_run _ more) hlt, hsymbol, resolve_idxOf hmem]
  · refine ⟨(Vocabulary.intern _).1.length_eq, (Vocabulary.intern _).1.nodup, ?_⟩
    rintro more j rfl
    exact Vocabulary.intern_of_isPrefix (names_prefix_run _ more)
  · have hsize : (empty.internAll names).2.size ≤ UInt32.size := by
      rw [size_internAll_empty]
      exact le_of_lt hroom
    obtain ⟨ks, t, hks, hsymbols, hm⟩ := NameTables.mirrors_empty.internAll hsize
    exact ⟨ks, t, hks, hsymbols, hm.size_eq, hm.numbers, hm.resolve_eq⟩

/-- A name of a program between predefined ones, and each kind again. -/
def interleaved : List Naming :=
  [.intern "x", .intern "Object", .intern "x", .predefined, .intern "copy"]

/-- The predefined names go on from where the others stopped, and `Object` keeps its place. -/
theorem run_bijective_interleaved :
    (empty.run interleaved).2.size = 27 ∧
      (empty.run interleaved).1.take 5 = [⟨0⟩, ⟨1⟩, ⟨0⟩, ⟨1⟩, ⟨2⟩] ∧
      ∃ ks t, NameTables.empty.internAll? (Naming.allNames interleaved) = some (ks, t) ∧
        t.size = 27 := by
  have hroom : (Naming.allNames interleaved).toFinset.card < UInt32.size :=
    lt_of_le_of_lt (List.toFinset_card_le _) (by decide)
  have hrun : empty.run interleaved = ((empty.run interleaved).1, (empty.run interleaved).2) := rfl
  obtain ⟨-, hsize, hsymbols, -, -, -, ks, t, hks, -, ht, -⟩ := run_bijective hrun hroom
  have hcard : (Naming.allNames interleaved).toFinset.card = 27 := by decide
  refine ⟨hsize.trans hcard, ?_, ks, t, hks, ht.trans (hsize.trans hcard)⟩
  rw [hsymbols]
  decide

end Interner
end CoolStatics
