import CoolStatics.Proofs.Records
import Mathlib.Data.List.Forall2

/-!
How a file may be written. Each entry is a record with its own slots, where an optional slot without a
value may be left out or be null and one with its default value may be left out; expressions and branches
may have fields that they do not know. Every file can be written, and whichever way it is written, it is
read as itself.
-/
namespace CoolStatics
namespace ProgramFile

def LineWritten (line : Line) (j : Json) : Prop := j = .int line.toNat

theorem fillable_line (name : String) (line : Option Line) :
    (Slot.optional name LineWritten line).Fillable := by
  refine Slot.fillable_optional (fun l => ?_) line
  exact ⟨.int l.toNat, rfl⟩

theorem readLine (line : Line) : (reading (.int line.toNat)).line? = some line := by
  simp [reading, Reading.line?, UInt32.toNat_lt_size]

theorem readInt64 (value : Int64) : (reading (.int value.toInt)).int64? = some value := by
  simpa [reading, Reading.int64?, Int64.toInt_le] using value.le_toInt

theorem Found.line {fs : Fields} {line : Option Line}
    (hf : Found fs (.optional "line" LineWritten line)) :
    fs.optional "line" (·.line?) = some line := by
  refine hf.optional fun l j hj => ?_
  rw [hj, readLine]
  exact ⟨rfl, rfl⟩

/-- The object of a node: its line, the tag of its form, and the fields of the form. -/
def NodeWritten (line : Option Line) (tag : String) (slots : List Slot) : Json → Prop :=
  OpenRecord (.optional "line" LineWritten line :: .text "expr" tag :: slots)

end ProgramFile

open ProgramFile

namespace ExprEntry

mutual

/-- The value may be written for the expression. -/
def Written : ExprEntry → Json → Prop
  | node line form => match form with
    | .assign x value => NodeWritten line "assign" [.text "name" x, .required "value" (Written value)]
    | .dispatch none m args => NodeWritten line "dispatch"
      [.absent "receiver", .text "method" m,
        .orDefault "args" (args = []) (ArrayOf (WrittenList args))]
    | .dispatch (some receiver) m args => NodeWritten line "dispatch"
      [.required "receiver" (Written receiver), .text "method" m,
        .orDefault "args" (args = []) (ArrayOf (WrittenList args))]
    | .staticDispatch receiver type m args => NodeWritten line "static_dispatch"
      [.required "receiver" (Written receiver), .text "type" type, .text "method" m,
        .orDefault "args" (args = []) (ArrayOf (WrittenList args))]
    | .cond pred yes no => NodeWritten line "cond"
      [.required "pred" (Written pred), .required "then" (Written yes), .required "else" (Written no)]
    | .loop pred body => NodeWritten line "loop"
      [.required "pred" (Written pred), .required "body" (Written body)]
    | .case scrutinee branches => NodeWritten line "case"
      [.required "scrutinee" (Written scrutinee),
        .required "branches" (ArrayOf (WrittenBranches branches))]
    | .block body => NodeWritten line "block" [.required "body" (ArrayOf (WrittenList body))]
    | .letIn x type none body => NodeWritten line "let"
      [.text "name" x, .text "type" type, .absent "init", .required "body" (Written body)]
    | .letIn x type (some init) body => NodeWritten line "let"
      [.text "name" x, .text "type" type, .required "init" (Written init),
        .required "body" (Written body)]
    | .arith op lhs rhs => NodeWritten line "arith"
      [.text "op" op.text, .required "lhs" (Written lhs), .required "rhs" (Written rhs)]
    | .compare op lhs rhs => NodeWritten line "compare"
      [.text "op" op.text, .required "lhs" (Written lhs), .required "rhs" (Written rhs)]
    | .eq lhs rhs => NodeWritten line "eq"
      [.required "lhs" (Written lhs), .required "rhs" (Written rhs)]
    | .neg operand => NodeWritten line "neg" [.required "operand" (Written operand)]
    | .not operand => NodeWritten line "not" [.required "operand" (Written operand)]
    | .isVoid operand => NodeWritten line "isvoid" [.required "operand" (Written operand)]
    | .int value => NodeWritten line "int" [.required "value" (· = .int value.toInt)]
    | .string value => NodeWritten line "string" [.text "value" value]
    | .bool value => NodeWritten line "bool" [.required "value" (· = .bool value)]
    | .new type => NodeWritten line "new" [.text "type" type]
    | .identifier x => NodeWritten line "object" [.text "name" x]
    | .absent => NodeWritten line "no_expr" []

def WrittenList : List ExprEntry → List Json → Prop
  | [] => (· = [])
  | e :: rest => fun js => ∃ j js', js = j :: js' ∧ Written e j ∧ WrittenList rest js'

def WrittenBranches : List (BranchEntry ExprEntry) → List Json → Prop
  | [] => (· = [])
  | ⟨x, type, body, line⟩ :: rest => fun js => ∃ j js', js = j :: js' ∧
      OpenRecord [.text "name" x, .text "type" type, .required "body" (Written body),
        .optional "line" LineWritten line] j ∧ WrittenBranches rest js'

end

theorem decode_node {line : Option Line} {tag : String} {slots : List Slot} {j : Json}
    {form : EntryForm ExprEntry} (hj : NodeWritten line tag slots j)
    (hnames : ("line" :: "expr" :: slots.map (·.name)).Nodup)
    (hform : ∀ fs, (∀ slot ∈ slots, Found fs slot) → form? tag fs = some form) :
    (reading j).isNull = false ∧ (reading j).expr? = some (node line form) := by
  obtain ⟨fields, rfl, hfound⟩ := hj.found (by simpa using hnames)
  rw [List.forall_mem_cons, List.forall_mem_cons] at hfound
  obtain ⟨hline, htag, hslots⟩ := hfound
  have hname : (fieldReadings fields).required "expr" formTag? = some tag :=
    htag.required fun _ hj => by rw [hj]; rfl
  refine ⟨rfl, ?_⟩
  simp [reading, exprOf, hline.line, hname, hform _ hslots]

section

variable {fs : Fields} {name : String} {e : ExprEntry}
  (he : ∀ {j}, e.Written j → (reading j).isNull = false ∧ (reading j).expr? = some e)

include he

theorem found_expr (hf : Found fs (.required name e.Written)) :
    fs.required name (·.expr?) = some e :=
  hf.required fun _ hj => (he hj).2

theorem found_expr? (hf : Found fs (.required name e.Written)) :
    fs.optional name (·.expr?) = some (some e) :=
  hf.present fun _ hj => he hj

end

mutual

theorem decode : ∀ (e : ExprEntry) {j : Json}, e.Written j →
    (reading j).isNull = false ∧ (reading j).expr? = some e
  | .node line (.assign x value), j, hj => by
    rw [Written] at hj
    refine decode_node hj (by simp) fun fs hfs => ?_
    simp only [List.forall_mem_cons] at hfs
    obtain ⟨hx, hv, -⟩ := hfs
    simp [form?, hx.text, found_expr value.decode hv]
  | .node line (.dispatch none m args), j, hj => by
    rw [Written] at hj
    refine decode_node hj (by simp) fun fs hfs => ?_
    simp only [List.forall_mem_cons] at hfs
    obtain ⟨hr, hm, hargs, -⟩ := hfs
    have hargs : fs.withDefault "args" [] (·.exprs?) = some args :=
      hargs.orDefault id fun _ h => decodeList args h
    simp [form?, hr.absent, hm.text, hargs]
  | .node line (.dispatch (some receiver) m args), j, hj => by
    rw [Written] at hj
    refine decode_node hj (by simp) fun fs hfs => ?_
    simp only [List.forall_mem_cons] at hfs
    obtain ⟨hr, hm, hargs, -⟩ := hfs
    have hargs : fs.withDefault "args" [] (·.exprs?) = some args :=
      hargs.orDefault id fun _ h => decodeList args h
    simp [form?, found_expr? receiver.decode hr, hm.text, hargs]
  | .node line (.staticDispatch receiver type m args), j, hj => by
    rw [Written] at hj
    refine decode_node hj (by simp) fun fs hfs => ?_
    simp only [List.forall_mem_cons] at hfs
    obtain ⟨hr, ht, hm, hargs, -⟩ := hfs
    have hargs : fs.withDefault "args" [] (·.exprs?) = some args :=
      hargs.orDefault id fun _ h => decodeList args h
    simp [form?, found_expr receiver.decode hr, ht.text, hm.text, hargs]
  | .node line (.cond pred yes no), j, hj => by
    rw [Written] at hj
    refine decode_node hj (by simp) fun fs hfs => ?_
    simp only [List.forall_mem_cons] at hfs
    obtain ⟨hp, hy, hn, -⟩ := hfs
    simp [form?, found_expr pred.decode hp, found_expr yes.decode hy, found_expr no.decode hn]
  | .node line (.loop pred body), j, hj => by
    rw [Written] at hj
    refine decode_node hj (by simp) fun fs hfs => ?_
    simp only [List.forall_mem_cons] at hfs
    obtain ⟨hp, hb, -⟩ := hfs
    simp [form?, found_expr pred.decode hp, found_expr body.decode hb]
  | .node line (.case scrutinee branches), j, hj => by
    rw [Written] at hj
    refine decode_node hj (by simp) fun fs hfs => ?_
    simp only [List.forall_mem_cons] at hfs
    obtain ⟨hs, hbs, -⟩ := hfs
    have hbs : fs.required "branches" (·.branches?) = some branches :=
      hbs.required fun _ h => decodeBranches branches h
    simp [form?, found_expr scrutinee.decode hs, hbs]
  | .node line (.block body), j, hj => by
    rw [Written] at hj
    refine decode_node hj (by simp) fun fs hfs => ?_
    simp only [List.forall_mem_cons] at hfs
    obtain ⟨hb, -⟩ := hfs
    have hb : fs.required "body" (·.exprs?) = some body :=
      hb.required fun _ h => decodeList body h
    simp [form?, hb]
  | .node line (.letIn x type none body), j, hj => by
    rw [Written] at hj
    refine decode_node hj (by simp) fun fs hfs => ?_
    simp only [List.forall_mem_cons] at hfs
    obtain ⟨hx, ht, hi, hb, -⟩ := hfs
    simp [form?, hx.text, ht.text, hi.absent, found_expr body.decode hb]
  | .node line (.letIn x type (some init) body), j, hj => by
    rw [Written] at hj
    refine decode_node hj (by simp) fun fs hfs => ?_
    simp only [List.forall_mem_cons] at hfs
    obtain ⟨hx, ht, hi, hb, -⟩ := hfs
    simp [form?, hx.text, ht.text, found_expr? init.decode hi, found_expr body.decode hb]
  | .node line (.arith op lhs rhs), j, hj => by
    rw [Written] at hj
    refine decode_node hj (by simp) fun fs hfs => ?_
    simp only [List.forall_mem_cons] at hfs
    obtain ⟨hop, hl, hr, -⟩ := hfs
    have hop : fs.required "op" (fun r => r.operator?.bind arithOp?) = some op :=
      hop.required fun _ h => by rw [h]; cases op <;> rfl
    simp [form?, hop, found_expr lhs.decode hl, found_expr rhs.decode hr]
  | .node line (.compare op lhs rhs), j, hj => by
    rw [Written] at hj
    refine decode_node hj (by simp) fun fs hfs => ?_
    simp only [List.forall_mem_cons] at hfs
    obtain ⟨hop, hl, hr, -⟩ := hfs
    have hop : fs.required "op" (fun r => r.operator?.bind compareOp?) = some op :=
      hop.required fun _ h => by rw [h]; cases op <;> rfl
    simp [form?, hop, found_expr lhs.decode hl, found_expr rhs.decode hr]
  | .node line (.eq lhs rhs), j, hj => by
    rw [Written] at hj
    refine decode_node hj (by simp) fun fs hfs => ?_
    simp only [List.forall_mem_cons] at hfs
    obtain ⟨hl, hr, -⟩ := hfs
    simp [form?, found_expr lhs.decode hl, found_expr rhs.decode hr]
  | .node line (.neg operand), j, hj | .node line (.not operand), j, hj
  | .node line (.isVoid operand), j, hj => by
    rw [Written] at hj
    refine decode_node hj (by simp) fun fs hfs => ?_
    simp only [List.forall_mem_cons] at hfs
    obtain ⟨ho, -⟩ := hfs
    simp [form?, found_expr operand.decode ho]
  | .node line (.int value), j, hj => by
    rw [Written] at hj
    refine decode_node hj (by simp) fun fs hfs => ?_
    simp only [List.forall_mem_cons] at hfs
    obtain ⟨hv, -⟩ := hfs
    have hv : fs.required "value" (·.int64?) = some value :=
      hv.required fun _ h => by rw [h, readInt64]
    simp [form?, hv]
  | .node line (.string value), j, hj => by
    rw [Written] at hj
    refine decode_node hj (by simp) fun fs hfs => ?_
    simp only [List.forall_mem_cons] at hfs
    obtain ⟨hv, -⟩ := hfs
    simp [form?, hv.text]
  | .node line (.bool value), j, hj => by
    rw [Written] at hj
    refine decode_node hj (by simp) fun fs hfs => ?_
    simp only [List.forall_mem_cons] at hfs
    obtain ⟨hv, -⟩ := hfs
    have hv : fs.required "value" (·.bool?) = some value :=
      hv.required fun _ h => by rw [h]; rfl
    simp [form?, hv]
  | .node line (.new x), j, hj | .node line (.identifier x), j, hj => by
    rw [Written] at hj
    refine decode_node hj (by simp) fun fs hfs => ?_
    simp only [List.forall_mem_cons] at hfs
    obtain ⟨hx, -⟩ := hfs
    simp [form?, hx.text]
  | .node line .absent, j, hj => by
    rw [Written] at hj
    exact decode_node hj (by simp) fun _ _ => rfl

theorem decodeList : ∀ (es : List ExprEntry) {j : Json}, ArrayOf (WrittenList es) j →
    (reading j).exprs? = some es
  | [], j, hj => by
    obtain ⟨js, rfl, hjs⟩ := hj
    rw [WrittenList] at hjs
    rw [hjs]
    rfl
  | e :: es, j, hj => by
    obtain ⟨_, rfl, hjs⟩ := hj
    rw [WrittenList] at hjs
    obtain ⟨j, js, rfl, he, hes⟩ := hjs
    have hrest : (readings js).mapM (·.expr?) = some es := decodeList es ⟨js, rfl, hes⟩
    simp [reading, readings, (e.decode he).2, hrest]

theorem decodeBranches : ∀ (bs : List (BranchEntry ExprEntry)) {j : Json},
    ArrayOf (WrittenBranches bs) j → (reading j).branches? = some bs
  | [], j, hj => by
    obtain ⟨js, rfl, hjs⟩ := hj
    rw [WrittenBranches] at hjs
    rw [hjs]
    rfl
  | ⟨x, type, body, line⟩ :: bs, j, hj => by
    obtain ⟨_, rfl, hjs⟩ := hj
    rw [WrittenBranches] at hjs
    obtain ⟨j, js, rfl, hb, hbs⟩ := hjs
    have hrest : (readings js).mapM (·.branch?) = some bs := decodeBranches bs ⟨js, rfl, hbs⟩
    obtain ⟨fields, rfl, hfs⟩ := hb.found (by simp)
    simp only [List.forall_mem_cons] at hfs
    obtain ⟨hx, ht, hb, hl, -⟩ := hfs
    have hfirst : branchOf (fieldReadings fields) = some ⟨x, type, body, line⟩ := by
      simp [branchOf, hx.text, ht.text, found_expr body.decode hb, hl.line]
    simp [readings, reading, hfirst, hrest]

end

end ExprEntry

/-! Records that have no other fields. -/

def FormalEntry.Written (f : FormalEntry) : Json → Prop :=
  Record [.text "name" f.name, .text "type" f.type]

def FeatureEntry.Written : FeatureEntry → Json → Prop
  | .method m formals result body line => Record
    [.text "feature" "method", .text "name" m,
      .orDefault "formals" (formals = []) (ArrayOf (List.Forall₂ FormalEntry.Written formals)),
      .text "return_type" result, .required "body" body.Written, .optional "line" LineWritten line]
  | .attr x type init line => Record
    [.text "feature" "attribute", .text "name" x, .text "type" type,
      .optional "init" ExprEntry.Written init, .optional "line" LineWritten line]

def TextWritten (text : String) (j : Json) : Prop := j = .str text

def ClassEntry.Written (c : ClassEntry) : Json → Prop :=
  Record [.text "name" c.name, .optional "parent" TextWritten c.parent,
    .optional "filename" TextWritten c.file, .orDefault "line" (c.line = 1) (LineWritten c.line),
    .orDefault "features" (c.features = []) (ArrayOf (List.Forall₂ FeatureEntry.Written c.features))]

/-- The value may be written for the file. -/
def ProgramFile.Written (f : ProgramFile) : Json → Prop :=
  Record [.required "classes" (ArrayOf (List.Forall₂ ClassEntry.Written f.classes))]

namespace ProgramFile

variable {slots : List Slot} {j : Json}

theorem Found.optionalText {fs : Fields} {name : String} {text : Option String}
    (hf : Found fs (.optional name TextWritten text)) : fs.optional name (·.str?) = some text := by
  refine hf.optional fun l j hj => ?_
  rw [hj]
  exact ⟨rfl, rfl⟩

theorem Record.decode (hj : Record slots j) (hnames : (slots.map (·.name)).Nodup) :
    ∃ fs, record? (slots.map (·.name)) j = some fs ∧ ∀ slot ∈ slots, Found fs slot := by
  obtain ⟨fields, rfl, hfound⟩ := hj.openRecord.found hnames
  obtain ⟨row, fields', hrow, hperm, heq⟩ := hj
  obtain rfl := Json.obj.inj heq
  refine ⟨fieldReadings fields, ?_, hfound⟩
  have honly : (fieldReadings fields).only (slots.map (·.name)) = true := by
    simp only [Fields.only, fieldReadings_eq, List.all_map, List.all_eq_true, Function.comp_apply,
      List.contains_iff_mem]
    exact fun f hf => hrow.name_mem f (hperm.mem_iff.mp hf)
  rw [record?, if_pos honly]

theorem Record.untag {name tag : String} (hj : Record (.text name tag :: slots) j)
    (hnames : (name :: slots.map (·.name)).Nodup) :
    ∃ fields, j = .obj fields ∧ (fieldReadings fields).required name (·.str?) = some tag ∧
      Record slots (.obj (fields.filter (·.1 ≠ name))) := by
  obtain ⟨fields, rfl, hfound⟩ := hj.openRecord.found hnames
  refine ⟨fields, rfl, (hfound _ List.mem_cons_self).text, ?_⟩
  obtain ⟨row, fields', hrow, hperm, heq⟩ := hj
  obtain rfl := Json.obj.inj heq
  cases hrow with
  | leftOut hmiss _ => cases hmiss
  | @field _ _ j row hj hrow =>
    refine ⟨row, _, hrow, ?_, rfl⟩
    have hrest : row.filter (·.1 ≠ name) = row := by
      refine List.filter_eq_self.mpr fun f hf => ?_
      have hne : f.1 ≠ name := fun heq => (List.nodup_cons.mp hnames).1 (heq ▸ hrow.name_mem f hf)
      simpa using hne
    have hall := hperm.filter (·.1 ≠ name)
    rwa [List.filter_cons_of_neg (by simp), hrest] at hall

theorem reading_json (j : Json) : (reading j).json = j := by
  cases j <;> rfl

theorem listOf_written {α : Type} {written : α → Json → Prop} {read : Json → Option α}
    (hread : ∀ a j, written a j → read j = some a) {as : List α}
    (hj : ArrayOf (List.Forall₂ written as) j) : listOf read j = some as := by
  obtain ⟨js, rfl, hjs⟩ := hj
  rw [listOf]
  induction hjs with
  | nil => rfl
  | cons ha _ ih => simp [hread _ _ ha, ih]

theorem formal?_written (f : FormalEntry) (j : Json) (hj : f.Written j) : formal? j = some f := by
  obtain ⟨fs, hrecord, hfs⟩ := Record.decode hj (by simp)
  simp only [List.forall_mem_cons] at hfs
  obtain ⟨hx, ht, -⟩ := hfs
  simp only [List.map_cons, List.map_nil, Slot.text_name] at hrecord
  simp [formal?, hrecord, hx.text, ht.text]

theorem feature?_written (f : FeatureEntry) (j : Json) (hj : f.Written j) : feature? j = some f := by
  -- the tag is taken out first, since the variant itself does not know it as a field
  cases f with
  | method m formals result body line =>
    obtain ⟨fields, rfl, htag, hj⟩ := Record.untag hj (by simp)
    obtain ⟨fs, hrecord, hfs⟩ := Record.decode hj (by simp)
    simp only [List.forall_mem_cons] at hfs
    obtain ⟨hm, hformals, hr, hb, hl, -⟩ := hfs
    have hrecord : record? methodFields (.obj (fields.filter (·.1 ≠ "feature"))) = some fs := by
      simpa [methodFields] using hrecord
    have hformals : fs.withDefault "formals" [] (fun r => listOf formal? r.json) = some formals := by
      refine hformals.orDefault id fun j hj => ?_
      rw [reading_json]
      exact listOf_written formal?_written hj
    simp only [feature?, htag, hrecord]
    simp [methodOf, hm.text, hformals, hr.text, ExprEntry.found_expr body.decode hb, hl.line]
  | attr x type init line =>
    obtain ⟨fields, rfl, htag, hj⟩ := Record.untag hj (by simp)
    obtain ⟨fs, hrecord, hfs⟩ := Record.decode hj (by simp)
    simp only [List.forall_mem_cons] at hfs
    obtain ⟨hx, ht, hi, hl, -⟩ := hfs
    have hrecord : record? attrFields (.obj (fields.filter (·.1 ≠ "feature"))) = some fs := by
      simpa [attrFields] using hrecord
    have hi : fs.optional "init" (·.expr?) = some init := hi.optional fun e _ he => e.decode he
    simp only [feature?, htag, hrecord]
    simp [attrOf, hx.text, ht.text, hi, hl.line]

theorem class?_written (c : ClassEntry) (j : Json) (hj : c.Written j) : class? j = some c := by
  obtain ⟨fs, hrecord, hfs⟩ := Record.decode hj (by simp)
  simp only [List.forall_mem_cons] at hfs
  obtain ⟨hx, hp, hfile, hl, hfeatures, -⟩ := hfs
  have hrecord : record? ["name", "parent", "filename", "line", "features"] j = some fs := by
    simpa using hrecord
  have hl : fs.withDefault "line" 1 (·.line?) = some c.line :=
    hl.orDefault id fun _ hj => by rw [hj, readLine]
  have hfeatures : fs.withDefault "features" [] (fun r => listOf feature? r.json) =
      some c.features := by
    refine hfeatures.orDefault id fun j hj => ?_
    rw [reading_json]
    exact listOf_written feature?_written hj
  simp [class?, hrecord, hx.text, hp.optionalText, hfile.optionalText, hl, hfeatures]

/-- However a file is written, it is read as itself. -/
theorem ofJson?_written (f : ProgramFile) (j : Json) (hj : f.Written j) : ofJson? j = some f := by
  obtain ⟨fs, hrecord, hfs⟩ := Record.decode hj (by simp)
  have hclasses : fs.required "classes" (fun r => listOf class? r.json) = some f.classes := by
    refine (hfs _ List.mem_cons_self).required fun j hj => ?_
    rw [reading_json]
    exact listOf_written class?_written hj
  have hrecord : record? ["classes"] j = some fs := by simpa using hrecord
  simp [ofJson?, hrecord, hclasses]

end ProgramFile

/-! Every file can be written. -/

namespace ExprEntry

theorem exists_node {line : Option Line} {tag : String} {slots : List Slot}
    (hslots : ∀ slot ∈ slots, slot.Fillable) : ∃ j, NodeWritten line tag slots j :=
  exists_openRecord (by simpa [fillable_line] using hslots)

mutual

theorem exists_written : ∀ e : ExprEntry, ∃ j, e.Written j
  | .node line (.assign _ e) | .node line (.letIn _ _ none e) | .node line (.neg e)
  | .node line (.not e) | .node line (.isVoid e) => by
    rw [Written]
    exact exists_node (by simp [e.exists_written])
  | .node line (.loop e e') | .node line (.letIn _ _ (some e) e') | .node line (.arith _ e e')
  | .node line (.compare _ e e') | .node line (.eq e e') => by
    rw [Written]
    exact exists_node (by simp [e.exists_written, e'.exists_written])
  | .node line (.cond e e' e'') => by
    rw [Written]
    exact exists_node (by simp [e.exists_written, e'.exists_written, e''.exists_written])
  | .node line (.dispatch none _ es) | .node line (.block es) => by
    rw [Written]
    exact exists_node (by simp [exists_arrayOf, exists_writtenList es])
  | .node line (.dispatch (some e) _ es) | .node line (.staticDispatch e _ _ es) => by
    rw [Written]
    exact exists_node (by simp [e.exists_written, exists_arrayOf, exists_writtenList es])
  | .node line (.case e bs) => by
    rw [Written]
    exact exists_node (by simp [e.exists_written, exists_arrayOf, exists_writtenBranches bs])
  | .node line (.int _) | .node line (.string _) | .node line (.bool _) | .node line (.new _)
  | .node line (.identifier _) | .node line .absent => by
    rw [Written]
    exact exists_node (by simp)

theorem exists_writtenList : ∀ es : List ExprEntry, ∃ js, WrittenList es js
  | [] => by simp [WrittenList]
  | e :: es => by
    obtain ⟨j, hj⟩ := e.exists_written
    obtain ⟨js, hjs⟩ := exists_writtenList es
    rw [WrittenList]
    exact ⟨_, j, js, rfl, hj, hjs⟩

theorem exists_writtenBranches : ∀ bs : List (BranchEntry ExprEntry), ∃ js, WrittenBranches bs js
  | [] => by simp [WrittenBranches]
  | ⟨x, type, body, line⟩ :: bs => by
    obtain ⟨j, hj⟩ : ∃ j, OpenRecord [.text "name" x, .text "type" type,
        .required "body" (Written body), .optional "line" LineWritten line] j :=
      exists_openRecord (by simp [body.exists_written, fillable_line])
    obtain ⟨js, hjs⟩ := exists_writtenBranches bs
    rw [WrittenBranches]
    exact ⟨_, j, js, rfl, hj, hjs⟩

end

end ExprEntry

theorem exists_forall₂ {α : Type} {written : α → Json → Prop} (hw : ∀ a, ∃ j, written a j)
    (as : List α) : ∃ js, List.Forall₂ written as js := by
  induction as with
  | nil => exact ⟨[], .nil⟩
  | cons a as ih =>
    obtain ⟨j, hj⟩ := hw a
    obtain ⟨js, hjs⟩ := ih
    exact ⟨j :: js, .cons hj hjs⟩

theorem FormalEntry.exists_written (f : FormalEntry) : ∃ j, f.Written j :=
  exists_record (by simp)

theorem FeatureEntry.exists_written (f : FeatureEntry) : ∃ j, f.Written j := by
  cases f with
  | method m formals result body line =>
    exact exists_record (by simp [exists_arrayOf, exists_forall₂ FormalEntry.exists_written,
      body.exists_written, fillable_line])
  | attr x type init line =>
    exact exists_record (by simp [Slot.fillable_optional ExprEntry.exists_written, fillable_line])

theorem ClassEntry.exists_written (c : ClassEntry) : ∃ j, c.Written j := by
  have htext : ∀ name text, (Slot.optional name TextWritten text).Fillable := by
    intro name text
    refine Slot.fillable_optional (fun text => ?_) text
    exact ⟨.str text, rfl⟩
  have hline : ∃ j, LineWritten c.line j := ⟨_, rfl⟩
  exact exists_record (by simp [htext, hline, exists_arrayOf,
    exists_forall₂ FeatureEntry.exists_written])

theorem ProgramFile.exists_written (f : ProgramFile) : ∃ j, f.Written j :=
  exists_record (by simp [exists_arrayOf, exists_forall₂ ClassEntry.exists_written])

end CoolStatics
