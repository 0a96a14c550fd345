import CoolStatics.Json.Reader
import CoolStatics.ProgramFile.Basic

/-!
Program files as JSON. Each record is an object with named fields; records other than expressions may
also be arrays of their fields in order, of which trailing optional ones may be left out. A field may
stand only once. Where a record says nothing of further fields, it has none; expressions and branches
may have others, which are ignored.

A value does not show by itself what it is meant to be, so `Reading` holds everything that it can be
read as, and the record around it chooses.
-/
namespace CoolStatics
namespace ProgramFile

/-- A JSON value and what it reads as; `none` where it cannot be read so. -/
structure Reading where
  json : Json
  expr? : Option ExprEntry
  branch? : Option (BranchEntry ExprEntry)
  exprs? : Option (List ExprEntry)
  branches? : Option (List (BranchEntry ExprEntry))

abbrev Fields := List (String × Reading)

namespace Reading

def str? (r : Reading) : Option String :=
  match r.json with
  | .str s => some s
  | _ => none

def bool? (r : Reading) : Option Bool :=
  match r.json with
  | .bool b => some b
  | _ => none

def line? (r : Reading) : Option Line :=
  match r.json with
  | .int n => if 0 ≤ n ∧ n.toNat < UInt32.size then some (UInt32.ofNat n.toNat) else none
  | _ => none

def int64? (r : Reading) : Option Int64 :=
  match r.json with
  | .int n =>
    if Int64.minValue.toInt ≤ n ∧ n ≤ Int64.maxValue.toInt then some (Int64.ofInt n) else none
  | _ => none

def isNull (r : Reading) : Bool :=
  match r.json with
  | .null => true
  | _ => false

/-- An operator is named by a string, or by the only field of an object that says nothing more. -/
def operator? (r : Reading) : Option String :=
  match r.json with
  | .str s => some s
  | .obj [(s, .null)] => some s
  | .obj [(s, .obj [])] => some s
  | _ => none

end Reading

namespace Fields

/-- The value of a field: `none` if the field is repeated, `some none` if it is missing. -/
def find (fs : Fields) (name : String) : Option (Option Reading) :=
  match fs.filter (·.1 = name) with
  | [] => some none
  | [f] => some (some f.2)
  | _ => none

def required {α : Type} (fs : Fields) (name : String) (read : Reading → Option α) : Option α := do
  read (← ← fs.find name)

/-- A field that takes a given value where it is missing. -/
def withDefault {α : Type} (fs : Fields) (name : String) (default : α)
    (read : Reading → Option α) : Option α := do
  match ← fs.find name with
  | none => some default
  | some r => read r

/-- A field that may be missing; null stands for a missing value. -/
def optional {α : Type} (fs : Fields) (name : String) (read : Reading → Option α) :
    Option (Option α) := do
  match ← fs.find name with
  | none => some none
  | some r => if r.isNull then some none else (read r).map some

def only (fs : Fields) (names : List String) : Bool := fs.all fun f => names.contains f.1

/-- Values without names, in the order of the names. -/
def positional (names : List String) (values : List Reading) : Option Fields :=
  if values.length ≤ names.length then some (names.zip values) else none

end Fields

def arithOp? : String → Option ArithOp
  | "+" => some .add
  | "-" => some .sub
  | "*" => some .mul
  | "/" => some .div
  | _ => none

def compareOp? : String → Option CompareOp
  | "<" => some .lt
  | "<=" => some .le
  | _ => none

def formNames : List String :=
  ["assign", "dispatch", "static_dispatch", "cond", "loop", "case", "block", "let", "arith",
    "compare", "eq", "neg", "not", "isvoid", "int", "string", "bool", "new", "object", "no_expr"]

/-- A form is tagged by its name, or by its place among the names. -/
def formTag? (r : Reading) : Option String :=
  match r.json with
  | .str s => some s
  | .int n => if 0 ≤ n then formNames[n.toNat]? else none
  | _ => none

/-- The form of an expression with the given tag. -/
def form? (tag : String) (fs : Fields) : Option (EntryForm ExprEntry) :=
  let expr (name : String) : Option ExprEntry := fs.required name (·.expr?)
  let text (name : String) : Option String := fs.required name (·.str?)
  let args : Option (List ExprEntry) := fs.withDefault "args" [] (·.exprs?)
  match tag with
  | "assign" => do return .assign (← text "name") (← expr "value")
  | "dispatch" => do
    return .dispatch (← fs.optional "receiver" (·.expr?)) (← text "method") (← args)
  | "static_dispatch" => do
    return .staticDispatch (← expr "receiver") (← text "type") (← text "method") (← args)
  | "cond" => do return .cond (← expr "pred") (← expr "then") (← expr "else")
  | "loop" => do return .loop (← expr "pred") (← expr "body")
  | "case" => do return .case (← expr "scrutinee") (← fs.required "branches" (·.branches?))
  | "block" => do return .block (← fs.required "body" (·.exprs?))
  | "let" => do
    return .letIn (← text "name") (← text "type") (← fs.optional "init" (·.expr?)) (← expr "body")
  | "arith" => do
    return .arith (← fs.required "op" fun r => r.operator?.bind arithOp?) (← expr "lhs")
      (← expr "rhs")
  | "compare" => do
    return .compare (← fs.required "op" fun r => r.operator?.bind compareOp?) (← expr "lhs")
      (← expr "rhs")
  | "eq" => do return .eq (← expr "lhs") (← expr "rhs")
  | "neg" => do return .neg (← expr "operand")
  | "not" => do return .not (← expr "operand")
  | "isvoid" => do return .isVoid (← expr "operand")
  | "int" => do return .int (← fs.required "value" (·.int64?))
  | "string" => do return .string (← text "value")
  | "bool" => do return .bool (← fs.required "value" (·.bool?))
  | "new" => do return .new (← text "type")
  | "object" => do return .identifier (← text "name")
  | "no_expr" => some .absent
  | _ => none

def exprOf (fs : Fields) : Option ExprEntry := do
  let line ← fs.optional "line" (·.line?)
  let tag ← fs.required "expr" formTag?
  return .node line (← form? tag fs)

def branchOf (fs : Fields) : Option (BranchEntry ExprEntry) := do
  return ⟨← fs.required "name" (·.str?), ← fs.required "type" (·.str?),
    ← fs.required "body" (·.expr?), ← fs.optional "line" (·.line?)⟩

def branchFields : List String := ["name", "type", "body", "line"]

mutual

def reading : Json → Reading
  | .arr items =>
    let rs := readings items
    { json := .arr items, expr? := none
      branch? := (Fields.positional branchFields rs).bind branchOf
      exprs? := rs.mapM (·.expr?), branches? := rs.mapM (·.branch?) }
  | .obj fields =>
    let fs := fieldReadings fields
    { json := .obj fields, expr? := exprOf fs, branch? := branchOf fs
      exprs? := none, branches? := none }
  | .null => ⟨.null, none, none, none, none⟩
  | .bool b => ⟨.bool b, none, none, none, none⟩
  | .int n => ⟨.int n, none, none, none, none⟩
  | .float text => ⟨.float text, none, none, none, none⟩
  | .str s => ⟨.str s, none, none, none, none⟩

def readings : List Json → List Reading
  | [] => []
  | j :: rest => reading j :: readings rest

def fieldReadings : List (String × Json) → Fields
  | [] => []
  | (name, j) :: rest => (name, reading j) :: fieldReadings rest

end

theorem fieldReadings_eq (fs : List (String × Json)) :
    fieldReadings fs = fs.map fun f => (f.1, reading f.2) := by
  induction fs with
  | nil => rfl
  | cons f rest ih => simp [fieldReadings, ih]

/-- The fields of a record that has exactly these, by name or by position. -/
def record? (names : List String) : Json → Option Fields
  | .obj fields => if (fieldReadings fields).only names then some (fieldReadings fields) else none
  | .arr items => Fields.positional names (readings items)
  | _ => none

def listOf {α : Type} (read : Json → Option α) : Json → Option (List α)
  | .arr items => items.mapM read
  | _ => none

def formal? (j : Json) : Option FormalEntry := do
  let fs ← record? ["name", "type"] j
  return ⟨← fs.required "name" (·.str?), ← fs.required "type" (·.str?)⟩

def methodFields : List String := ["name", "formals", "return_type", "body", "line"]

def methodOf (fs : Fields) : Option FeatureEntry := do
  return .method (← fs.required "name" (·.str?))
    (← fs.withDefault "formals" [] fun r => listOf formal? r.json)
    (← fs.required "return_type" (·.str?)) (← fs.required "body" (·.expr?))
    (← fs.optional "line" (·.line?))

def attrFields : List String := ["name", "type", "init", "line"]

def attrOf (fs : Fields) : Option FeatureEntry := do
  return .attr (← fs.required "name" (·.str?)) (← fs.required "type" (·.str?))
    (← fs.optional "init" (·.expr?)) (← fs.optional "line" (·.line?))

/-- A feature is tagged by the field `feature`, or by the first item of an array. -/
def feature? : Json → Option FeatureEntry
  | .obj fields => do
    let fs := fieldReadings fields
    let rest := fields.filter (·.1 ≠ "feature")
    match ← fs.required "feature" (·.str?) with
    | "method" => (record? methodFields (.obj rest)).bind methodOf
    | "attribute" => (record? attrFields (.obj rest)).bind attrOf
    | _ => none
  | .arr (.str "method" :: items) => (record? methodFields (.arr items)).bind methodOf
  | .arr (.str "attribute" :: items) => (record? attrFields (.arr items)).bind attrOf
  | _ => none

def class? (j : Json) : Option ClassEntry := do
  let fs ← record? ["name", "parent", "filename", "line", "features"] j
  return ⟨← fs.required "name" (·.str?), ← fs.optional "parent" (·.str?),
    ← fs.optional "filename" (·.str?), ← fs.withDefault "line" 1 (·.line?),
    ← fs.withDefault "features" [] fun r => listOf feature? r.json⟩

def ofJson? (j : Json) : Option ProgramFile := do
  let fs ← record? ["classes"] j
  return ⟨← fs.required "classes" fun r => listOf class? r.json⟩

/-- How deep the arrays and objects of a program file may nest. -/
def maxDepth : Nat := 127

def parse? (text : String) : Option ProgramFile := (Json.parse? maxDepth text).bind ofJson?

end ProgramFile
end CoolStatics
