import CoolStatics.ProgramFile.Decode
import Mathlib.Data.List.Perm.Basic

/-!
Records as JSON objects. A record has slots; what stands in each of them is found in its object, in
whatever order the fields are and whatever other fields there may be, and reads as the slot has it.
-/
namespace CoolStatics
namespace ProgramFile

/-! Records. -/

/-- A field of a record, the values that may stand in it, and whether it may be left out. -/
structure Slot where
  name : String
  holds : Json → Prop
  mayMiss : Prop

namespace Slot

def required (name : String) (holds : Json → Prop) : Slot := ⟨name, holds, False⟩

def text (name value : String) : Slot := required name (· = .str value)

def absent (name : String) : Slot := ⟨name, (· = .null), True⟩

/-- A field that may be left out if its value is the default. -/
def orDefault (name : String) (isDefault : Prop) (holds : Json → Prop) : Slot :=
  ⟨name, holds, isDefault⟩

/-- The slot of an optional field whose value, if there is one, is written as `holds` has it. -/
def optional {α : Type} (name : String) (holds : α → Json → Prop) : Option α → Slot
  | none => absent name
  | some a => required name (holds a)

def Fillable (slot : Slot) : Prop := ∃ j, slot.holds j

@[simp] theorem required_name (name : String) (holds : Json → Prop) :
    (required name holds).name = name := rfl

@[simp] theorem text_name (name value : String) : (text name value).name = name := rfl

@[simp] theorem absent_name (name : String) : (absent name).name = name := rfl

@[simp] theorem orDefault_name (name : String) (isDefault : Prop) (holds : Json → Prop) :
    (orDefault name isDefault holds).name = name := rfl

@[simp] theorem optional_name {α : Type} (name : String) (holds : α → Json → Prop)
    (value : Option α) : (optional name holds value).name = name := by
  cases value <;> rfl

@[simp] theorem fillable_required {name : String} {holds : Json → Prop} :
    (required name holds).Fillable ↔ ∃ j, holds j := .rfl

@[simp] theorem fillable_orDefault {name : String} {isDefault : Prop} {holds : Json → Prop} :
    (orDefault name isDefault holds).Fillable ↔ ∃ j, holds j := .rfl

@[simp] theorem fillable_text (name value : String) : (text name value).Fillable := ⟨_, rfl⟩

@[simp] theorem fillable_absent (name : String) : (absent name).Fillable := ⟨_, rfl⟩

theorem fillable_optional {α : Type} {name : String} {holds : α → Json → Prop}
    (hholds : ∀ a, ∃ j, holds a j) (value : Option α) : (optional name holds value).Fillable := by
  cases value with
  | none => exact fillable_absent name
  | some a => exact hholds a

end Slot

/-- The fields that stand in some slots, in the order of the slots. -/
inductive Row : List Slot → List (String × Json) → Prop
  | nil : Row [] []
  | field {slot slots j fields} : slot.holds j → Row slots fields →
      Row (slot :: slots) ((slot.name, j) :: fields)
  | leftOut {slot slots fields} : slot.mayMiss → Row slots fields → Row (slot :: slots) fields

/-- An object with fields for the slots, in any order, and others that the record does not know. -/
def OpenRecord (slots : List Slot) (j : Json) : Prop :=
  ∃ row extra fields, Row slots row ∧ (∀ f ∈ extra, f.1 ∉ slots.map (·.name)) ∧
    fields.Perm (row ++ extra) ∧ j = .obj fields

/-- An object with fields for the slots, in any order. -/
def Record (slots : List Slot) (j : Json) : Prop :=
  ∃ row fields, Row slots row ∧ fields.Perm row ∧ j = .obj fields

/-- What a slot is found to hold in an object. -/
def Found (fs : Fields) (slot : Slot) : Prop :=
  fs.find slot.name = some none ∧ slot.mayMiss ∨
    ∃ j, fs.find slot.name = some (some (reading j)) ∧ slot.holds j

variable {slots : List Slot} {slot : Slot} {row fields : List (String × Json)} {j : Json}

theorem Row.name_mem (hrow : Row slots row) : ∀ f ∈ row, f.1 ∈ slots.map (·.name) := by
  induction hrow with
  | nil => simp
  | field _ _ ih =>
    refine List.forall_mem_cons.mpr ⟨List.mem_cons_self, fun f hf => ?_⟩
    exact List.mem_cons_of_mem _ (ih f hf)
  | leftOut _ _ ih => exact fun f hf => List.mem_cons_of_mem _ (ih f hf)

theorem Row.filter_name (hrow : Row slots row) (hnames : (slots.map (·.name)).Nodup)
    (hs : slot ∈ slots) :
    row.filter (·.1 = slot.name) = [] ∧ slot.mayMiss ∨
      ∃ j, row.filter (·.1 = slot.name) = [(slot.name, j)] ∧ slot.holds j := by
  induction hrow with
  | nil => cases hs
  | @field head slots j row hj hrow ih =>
    rw [List.map_cons, List.nodup_cons] at hnames
    rcases List.mem_cons.mp hs with rfl | hs
    · refine Or.inr ⟨j, ?_, hj⟩
      rw [List.filter_cons_of_pos (by simp), List.filter_eq_nil_iff.mpr fun f hf => ?_]
      have hne : f.1 ≠ slot.name := fun heq => hnames.1 (heq ▸ hrow.name_mem f hf)
      simpa using hne
    · have hne : head.name ≠ slot.name := fun heq => hnames.1 (heq ▸ List.mem_map_of_mem hs)
      rw [List.filter_cons_of_neg (by simpa using hne)]
      exact ih hnames.2 hs
  | @leftOut head slots row hmiss hrow ih =>
    rw [List.map_cons, List.nodup_cons] at hnames
    rcases List.mem_cons.mp hs with rfl | hs
    · refine Or.inl ⟨List.filter_eq_nil_iff.mpr fun f hf => ?_, hmiss⟩
      have hne : f.1 ≠ slot.name := fun heq => hnames.1 (heq ▸ hrow.name_mem f hf)
      simpa using hne
    · exact ih hnames.2 hs

theorem find_fieldReadings (fields : List (String × Json)) (name : String) :
    (fieldReadings fields).find name =
      match fields.filter (·.1 = name) with
      | [] => some none
      | [f] => some (some (reading f.2))
      | _ => none := by
  have hfilter : (fieldReadings fields).filter (·.1 = name) =
      (fields.filter (·.1 = name)).map fun f => (f.1, reading f.2) := by
    rw [fieldReadings_eq, List.filter_map]
    rfl
  rw [Fields.find, hfilter]
  generalize fields.filter (·.1 = name) = gs
  rcases gs with - | ⟨f, - | ⟨g, rest⟩⟩ <;> rfl

theorem OpenRecord.found (hj : OpenRecord slots j) (hnames : (slots.map (·.name)).Nodup) :
    ∃ fields, j = .obj fields ∧ ∀ slot ∈ slots, Found (fieldReadings fields) slot := by
  obtain ⟨row, extra, fields, hrow, hextra, hperm, rfl⟩ := hj
  refine ⟨fields, rfl, fun slot hs => ?_⟩
  -- to the fields of one name, neither the order nor the other fields matter
  have hfilter : (fields.filter (·.1 = slot.name)).Perm (row.filter (·.1 = slot.name)) := by
    have hnone : extra.filter (·.1 = slot.name) = [] := by
      refine List.filter_eq_nil_iff.mpr fun f hf => ?_
      have hne : f.1 ≠ slot.name := fun heq => hextra f hf (heq ▸ List.mem_map_of_mem hs)
      simpa using hne
    have hall := hperm.filter (·.1 = slot.name)
    rwa [List.filter_append, hnone, List.append_nil] at hall
  rw [Found, find_fieldReadings]
  rcases hrow.filter_name hnames hs with ⟨hnil, hmiss⟩ | ⟨j, hone, hj⟩
  · rw [hnil] at hfilter
    rw [hfilter.eq_nil]
    exact Or.inl ⟨rfl, hmiss⟩
  · rw [hone] at hfilter
    rw [hfilter.eq_singleton]
    exact Or.inr ⟨j, rfl, hj⟩

theorem Record.openRecord (hj : Record slots j) : OpenRecord slots j := by
  obtain ⟨row, fields, hrow, hperm, rfl⟩ := hj
  exact ⟨row, [], fields, hrow, by simp, by rwa [List.append_nil], rfl⟩

theorem exists_record (hslots : ∀ slot ∈ slots, slot.Fillable) : ∃ j, Record slots j := by
  have hrow : ∃ row, Row slots row := by
    induction slots with
    | nil => exact ⟨[], .nil⟩
    | cons slot slots ih =>
      rw [List.forall_mem_cons] at hslots
      obtain ⟨j, hj⟩ := hslots.1
      obtain ⟨row, hrow⟩ := ih hslots.2
      exact ⟨_, .field hj hrow⟩
  obtain ⟨row, hrow⟩ := hrow
  exact ⟨.obj row, row, row, hrow, .refl _, rfl⟩

theorem exists_openRecord (hslots : ∀ slot ∈ slots, slot.Fillable) : ∃ j, OpenRecord slots j := by
  obtain ⟨j, hj⟩ := exists_record hslots
  exact ⟨j, hj.openRecord⟩

/-! Fields. -/

section

variable {fs : Fields} {name : String} {holds : Json → Prop} {α : Type} {read : Reading → Option α}
  {a : α}

theorem Found.required (hf : Found fs (.required name holds))
    (hread : ∀ j, holds j → read (reading j) = some a) : fs.required name read = some a := by
  rcases hf with ⟨-, hno⟩ | ⟨j, hfind, hj⟩
  · cases hno
  · have hfind' : fs.find name = some (some (reading j)) := hfind
    simp [Fields.required, hfind', hread j hj]

theorem Found.text {value : String} (hf : Found fs (.text name value)) :
    fs.required name (·.str?) = some value :=
  hf.required fun _ hj => by rw [hj]; rfl

theorem Found.orDefault {isDefault : Prop} {default : α}
    (hf : Found fs (.orDefault name isDefault holds)) (hdefault : isDefault → a = default)
    (hread : ∀ j, holds j → read (reading j) = some a) :
    fs.withDefault name default read = some a := by
  rcases hf with ⟨hfind, hmiss⟩ | ⟨j, hfind, hj⟩
  · have hfind' : fs.find name = some none := hfind
    simp [Fields.withDefault, hfind', hdefault hmiss]
  · have hfind' : fs.find name = some (some (reading j)) := hfind
    simp [Fields.withDefault, hfind', hread j hj]

theorem Found.absent (hf : Found fs (.absent name)) : fs.optional name read = some none := by
  rcases hf with ⟨hfind, -⟩ | ⟨j, hfind, hj⟩
  · have hfind' : fs.find name = some none := hfind
    simp [Fields.optional, hfind']
  · have hfind' : fs.find name = some (some (reading j)) := hfind
    obtain rfl : j = .null := hj
    simp [Fields.optional, hfind', reading, Reading.isNull]

theorem Found.present (hf : Found fs (.required name holds))
    (hread : ∀ j, holds j → (reading j).isNull = false ∧ read (reading j) = some a) :
    fs.optional name read = some (some a) := by
  rcases hf with ⟨-, hno⟩ | ⟨j, hfind, hj⟩
  · cases hno
  · have hfind' : fs.find name = some (some (reading j)) := hfind
    simp [Fields.optional, hfind', hread j hj]

theorem Found.optional {written : α → Json → Prop} {value : Option α}
    (hf : Found fs (.optional name written value))
    (hread : ∀ a j, written a j → (reading j).isNull = false ∧ read (reading j) = some a) :
    fs.optional name read = some value := by
  cases value with
  | none => exact hf.absent
  | some a => exact hf.present (hread a)

end

/-! Arrays. -/

def ArrayOf (items : List Json → Prop) (j : Json) : Prop := ∃ js, j = .arr js ∧ items js

theorem exists_arrayOf {items : List Json → Prop} : (∃ j, ArrayOf items j) ↔ ∃ js, items js := by
  constructor
  · rintro ⟨_, js, -, hjs⟩
    exact ⟨js, hjs⟩
  · rintro ⟨js, hjs⟩
    exact ⟨_, js, rfl, hjs⟩

end ProgramFile
end CoolStatics
