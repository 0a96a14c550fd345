import CoolStatics.Proofs.FileFormat
import CoolStatics.Proofs.Judgment
import CoolStatics.Proofs.Lowering

/-!
Programs that come back from their files. A program is written with the names that its symbols resolve
to. Lowering the file with the same interner meets no name that is not there yet, and no empty node if
the program has none: it adds nothing and ends with the program itself.
-/
namespace CoolStatics

/-! Symbols. -/

def Form.symbols {ε : Type} : Form ε → List Symbol
  | .assign x _ => [x]
  | .dispatch _ m _ => [m]
  | .staticDispatch _ type m _ => [type, m]
  | .case _ branches => branches.flatMap fun b => [b.name, b.type]
  | .letIn x type _ _ => [x, type]
  | .new type => [type]
  | .identifier x => [x]
  | _ => []

def Expr.symbols (e : Expr) : List Symbol := e.walk.flatMap (·.form.symbols)

def Feature.symbols : Feature → List Symbol
  | .method m => m.name :: m.result :: m.formals.flatMap (fun f => [f.name, f.type]) ++ m.body.symbols
  | .attr a => a.name :: a.type :: a.init.symbols

def ClassDecl.symbols (c : ClassDecl) : List Symbol :=
  c.name :: c.parent :: c.features.flatMap Feature.symbols

def Program.symbols (p : Program) : List Symbol := p.classes.flatMap ClassDecl.symbols

theorem Expr.symbols_eq (e : Expr) : e.symbols = e.form.symbols ++ e.children.flatMap symbols := by
  rw [symbols, walk_eq, List.flatMap_cons, List.flatMap_assoc]
  rfl

namespace Interner

/-- The symbol is that of one of the names. -/
def Issued (i : Interner) (s : Symbol) : Prop := s.index < i.size

instance (i : Interner) (s : Symbol) : Decidable (i.Issued s) :=
  inferInstanceAs (Decidable (s.index < i.size))

theorem intern_resolve {i : Interner} {s : Symbol} (hs : i.Issued s) :
    i.intern (i.resolve s) = (s, i) := by
  have hname : i.resolve s = i.names.get ⟨s.index, hs⟩ := by
    rw [resolve, List.getElem?_eq_getElem hs]
    rfl
  rw [hname, intern_of_mem (List.get_mem _ _), List.get_eq_getElem, List.Nodup.idxOf_getElem i.nodup]

end Interner

/-! Lowering that adds no names. -/

namespace Lowering

variable {α β γ : Type} {i : Interner} {a : α} {b : β}

/-- The computation ends with the given value and leaves the interner as it is. -/
def Restores (i : Interner) (x : Lowering α) (a : α) : Prop := x i = (.ok a, i)

theorem restores_pure (i : Interner) (a : α) : Restores i (pure a) a := rfl

theorem restores_intern {s : Symbol} (hs : i.Issued s) : Restores i (intern (i.resolve s)) s := by
  rw [Restores, intern, Interner.intern_resolve hs]

theorem Restores.bind {x : Lowering α} {f : α → Lowering β} (hx : Restores i x a)
    (hf : Restores i (f a) b) : Restores i (x >>= f) b := by
  rw [Restores, bind_apply, hx]
  exact hf

theorem Restores.map {x : Lowering α} {g : α → β} (hx : Restores i x a) :
    Restores i (x >>= fun a => pure (g a)) (g a) :=
  hx.bind (restores_pure i _)

theorem restores_mapM {f : β → Lowering α} {write : α → β} {as : List α}
    (hf : ∀ a ∈ as, Restores i (f (write a)) a) : Restores i ((as.map write).mapM f) as := by
  induction as with
  | nil => exact restores_pure i []
  | cons a as ih =>
    rw [List.forall_mem_cons] at hf
    rw [List.map_cons, List.mapM_cons]
    exact hf.1.bind (ih hf.2).map

end Lowering

open Lowering

namespace Expr

variable {i : Interner} {file : String}

/-- The expression comes back from its entry, wherever that stands. -/
def Returns (i : Interner) (file : String) (e : Expr) : Prop :=
  ∀ outer, Restores i ((e.entry i).lower file outer) e.untyped

theorem restores_lowerList {es : List Expr} (hes : ∀ e ∈ es, e.Returns i file) (outer : Line) :
    Restores i (ExprEntry.lowerList file outer (entryList i es)) (untypedList es) := by
  induction es with
  | nil => exact restores_pure i []
  | cons e es ih =>
    rw [List.forall_mem_cons] at hes
    rw [entryList, untypedList, ExprEntry.lowerList]
    exact (hes.1 _).bind (ih hes.2).map

theorem restores_lowerBranches {bs : List (Branch Expr)}
    (hsymbols : ∀ b ∈ bs, i.Issued b.name ∧ i.Issued b.type)
    (hbs : ∀ b ∈ bs, b.body.Returns i file) (outer : Line) :
    Restores i (ExprEntry.lowerBranches file outer (entryBranches i bs)) (untypedBranches bs) := by
  induction bs with
  | nil => exact restores_pure i []
  | cons b bs ih =>
    rw [List.forall_mem_cons] at hsymbols hbs
    obtain ⟨⟨hx, ht⟩, hrest⟩ := hsymbols
    rw [entryBranches, untypedBranches, ExprEntry.lowerBranches]
    refine (restores_intern hx).bind ((restores_intern ht).bind ?_)
    exact (hbs.1 _).bind (ih hrest hbs.2).map

theorem returns_node {line : Line} {type? : Option Symbol} {form : Form Expr}
    (hfilled : form.isFilled = true) (hsymbols : ∀ s ∈ form.symbols, i.Issued s)
    (hchildren : ∀ c ∈ form.children, c.Returns i file) : (node line type? form).Returns i file := by
  intro outer
  cases form with
  | assign x value =>
    simp only [Form.symbols, Form.children, List.forall_mem_singleton] at hsymbols hchildren
    rw [entry, untyped, ExprEntry.lower]
    exact (restores_intern hsymbols).bind (hchildren _).map
  | dispatch receiver m args =>
    simp only [Form.symbols, Form.children, List.forall_mem_cons] at hsymbols hchildren
    rw [entry, untyped, ExprEntry.lower]
    refine (hchildren.1 _).bind ((restores_intern hsymbols.1).bind ?_)
    exact (restores_lowerList hchildren.2 _).map
  | staticDispatch receiver type m args =>
    simp only [Form.symbols, Form.children, List.forall_mem_cons] at hsymbols hchildren
    obtain ⟨ht, hm, -⟩ := hsymbols
    rw [entry, untyped, ExprEntry.lower]
    refine (hchildren.1 _).bind ((restores_intern ht).bind ((restores_intern hm).bind ?_))
    exact (restores_lowerList hchildren.2 _).map
  | cond pred yes no =>
    simp only [Form.children, List.forall_mem_cons] at hchildren
    obtain ⟨hp, hy, hn, -⟩ := hchildren
    rw [entry, untyped, ExprEntry.lower]
    exact (hp _).bind ((hy _).bind (hn _).map)
  | case scrutinee branches =>
    simp only [Form.symbols, Form.children, List.forall_mem_cons, List.mem_flatMap,
      List.forall_mem_map] at hsymbols hchildren
    have hbranches : ∀ b ∈ branches, i.Issued b.name ∧ i.Issued b.type := fun b hb =>
      ⟨hsymbols _ ⟨b, hb, by simp⟩, hsymbols _ ⟨b, hb, by simp⟩⟩
    -- without branches the node would be refused
    cases branches with
    | nil => cases hfilled
    | cons b bs =>
      rw [entry, untyped, entryBranches, ExprEntry.lower]
      exact (hchildren.1 _).bind (restores_lowerBranches hbranches hchildren.2 _).map
  | block body =>
    cases body with
    | nil => cases hfilled
    | cons e es =>
      rw [entry, untyped, entryList, ExprEntry.lower]
      exact (restores_lowerList hchildren _).map
  | letIn x type init body =>
    simp only [Form.symbols, Form.children, List.forall_mem_cons] at hsymbols hchildren
    obtain ⟨hx, ht, -⟩ := hsymbols
    obtain ⟨hi, hb, -⟩ := hchildren
    rw [entry, untyped, ExprEntry.lower]
    exact (restores_intern hx).bind ((restores_intern ht).bind ((hi _).bind (hb _).map))
  | loop lhs rhs | arith _ lhs rhs | compare _ lhs rhs | eq lhs rhs =>
    simp only [Form.children, List.forall_mem_cons] at hchildren
    obtain ⟨hl, hr, -⟩ := hchildren
    rw [entry, untyped, ExprEntry.lower]
    exact (hl _).bind (hr _).map
  | neg operand | not operand | isVoid operand =>
    simp only [Form.children, List.forall_mem_singleton] at hchildren
    rw [entry, untyped, ExprEntry.lower]
    exact (hchildren _).map
  | new x | identifier x =>
    simp only [Form.symbols, List.forall_mem_singleton] at hsymbols
    rw [entry, untyped, ExprEntry.lower]
    exact (restores_intern hsymbols).map
  | int | string | bool | absent =>
    rw [entry, untyped, ExprEntry.lower]
    exact restores_pure i _

theorem returns {e : Expr} (hfilled : e.Filled) (hsymbols : ∀ s ∈ e.symbols, i.Issued s) :
    e.Returns i file := by
  induction e using induct with
  | step e ih =>
    rw [filled_iff] at hfilled
    rw [symbols_eq, List.forall_mem_append] at hsymbols
    obtain ⟨line, type?, form⟩ := e
    refine returns_node hfilled.1 hsymbols.1 fun c hc => ih c hc (hfilled.2 c hc) fun s hs => ?_
    exact hsymbols.2 s (List.mem_flatMap.mpr ⟨c, hc, hs⟩)

theorem restores_lower (e : Expr) (hplain : e.untyped = e) (hfilled : e.Filled)
    (hsymbols : ∀ s ∈ e.symbols, i.Issued s) (file : String) (outer : Line) :
    Restores i ((e.entry i).lower file outer) e := by
  have hreturns : Restores i ((e.entry i).lower file outer) e.untyped :=
    returns hfilled hsymbols outer
  rwa [hplain] at hreturns

end Expr

variable {i : Interner}

theorem Feature.restores_lower (f : Feature) (hplain : f.Plain) (hfilled : f.body.Filled)
    (hsymbols : ∀ s ∈ f.symbols, i.Issued s) (file : String) (outer : Line) :
    Restores i ((f.entry i).lower file outer) f := by
  cases f with
  | method m =>
    simp only [symbols, List.cons_append, List.forall_mem_cons, List.forall_mem_append] at hsymbols
    obtain ⟨hx, hr, hformals, hbody⟩ := hsymbols
    have hlower : Restores i ((m.formals.map (·.entry i)).mapM (·.lower m.line)) m.formals := by
      refine restores_mapM fun f hf => ?_
      have hname : i.Issued f.name := hformals _ (List.mem_flatMap.mpr ⟨f, hf, by simp⟩)
      have htype : i.Issued f.type := hformals _ (List.mem_flatMap.mpr ⟨f, hf, by simp⟩)
      rw [Formal.entry, FormalEntry.lower, ← hplain.2 f hf]
      exact (restores_intern hname).bind (restores_intern htype).map
    rw [entry, FeatureEntry.lower]
    refine (restores_intern hx).bind (hlower.bind ((restores_intern hr).bind ?_))
    exact (m.body.restores_lower hplain.1 hfilled hbody _ _).map
  | attr a =>
    simp only [symbols, List.forall_mem_cons] at hsymbols
    obtain ⟨hx, ht, hbody⟩ := hsymbols
    rw [entry, FeatureEntry.lower]
    refine (restores_intern hx).bind ((restores_intern ht).bind ?_)
    exact (a.init.restores_lower hplain hfilled hbody _ _).map

theorem ClassDecl.restores_lower (c : ClassDecl) (hplain : ∀ f ∈ c.features, f.Plain)
    (hfilled : ∀ f ∈ c.features, f.body.Filled) (hsymbols : ∀ s ∈ c.symbols, i.Issued s)
    (defaultFile : String) : Restores i ((c.entry i).lower defaultFile) c := by
  simp only [symbols, List.forall_mem_cons] at hsymbols
  obtain ⟨hx, hp, hfeatures⟩ := hsymbols
  rw [entry, ClassEntry.lower]
  refine (restores_mapM fun f hf => ?_).bind ((restores_intern hx).bind (restores_intern hp).map)
  exact f.restores_lower (hplain f hf) (hfilled f hf)
    (fun s hs => hfeatures s (List.mem_flatMap.mpr ⟨f, hf, hs⟩)) _ _

theorem Program.restores_lower (p : Program) (hplain : p.Plain)
    (hfilled : ∀ x ∈ p.walk, x.2.form.isFilled = true) (hsymbols : ∀ s ∈ p.symbols, i.Issued s)
    (defaultFile : String) : Restores i ((p.file i).lower defaultFile) p := by
  rw [file, ProgramFile.lower]
  refine (restores_mapM fun c hc => ?_).map
  refine c.restores_lower (hplain c hc) (fun f hf e he => ?_) (fun s hs => ?_) defaultFile
  · exact hfilled (c, e) (List.mem_flatMap.mpr
      ⟨c, hc, List.mem_map_of_mem (List.mem_flatMap.mpr ⟨f, hf, he⟩)⟩)
  · exact hsymbols s (List.mem_flatMap.mpr ⟨c, hc, hs⟩)

/-- Every file can be written, and is read as itself however it is written. So every program without
types and empty nodes, with its formals on the lines of their methods and its symbols from an interner,
is what some value is read and lowered to. -/
theorem ProgramFile.ofJson?_covers :
    (∀ f : ProgramFile, (∃ j, f.Written j) ∧ ∀ j, f.Written j → ofJson? j = some f) ∧
      ∀ (p : Program) (i : Interner) (defaultFile : String), p.Plain →
        (∀ x ∈ p.walk, x.2.form.isFilled = true) → (∀ s ∈ p.symbols, i.Issued s) →
        ∃ f j, f.Written j ∧ ofJson? j = some f ∧ f.lower defaultFile i = (.ok p, i) := by
  refine ⟨fun f => ⟨f.exists_written, f.ofJson?_written⟩, ?_⟩
  intro p i defaultFile hplain hfilled hsymbols
  obtain ⟨j, hj⟩ := (p.file i).exists_written
  exact ⟨p.file i, j, hj, ofJson?_written _ j hj, p.restores_lower hplain hfilled hsymbols defaultFile⟩

/-- A class with one attribute. Its objects have their fields in reverse, a null for what is absent, and
one field more in the initialiser. -/
def ProgramFile.reversed : ProgramFile × Json :=
  (⟨[⟨"Main", none, none, 1, [.attr "a" "Int" (some (.node none (.identifier "b"))) (some 2)]⟩]⟩,
    .obj [("classes", .arr [.obj [
      ("features", .arr [.obj [
        ("line", .int 2),
        ("init", .obj [
          ("note", .bool true), ("name", .str "b"), ("expr", .str "object"), ("line", .null)]),
        ("type", .str "Int"), ("name", .str "a"), ("feature", .str "attribute")]]),
      ("parent", .null), ("name", .str "Main")]])])

/-- A class with one method, which takes an argument and returns it out of a block. -/
def Program.identity : Program × Interner :=
  (⟨[⟨⟨0⟩, ⟨1⟩, [.method ⟨⟨2⟩, [⟨⟨3⟩, ⟨4⟩, 2⟩], ⟨4⟩,
      .plain 3 (.block [.plain 4 (.identifier ⟨3⟩)]), 2⟩], "main.cl", 1⟩]⟩,
    ⟨["Main", "Object", "same", "x", "Int"], by decide⟩)

theorem ProgramFile.ofJson?_covers_reversed :
    reversed.1.Written reversed.2 ∧ ofJson? reversed.2 = some reversed.1 ∧
      ∃ f j, f.Written j ∧ ofJson? j = some f ∧
        f.lower "in.cl" Program.identity.2 = (.ok Program.identity.1, Program.identity.2) := by
  have hinit : ExprEntry.Written (.node none (.identifier "b"))
      (.obj [("note", .bool true), ("name", .str "b"), ("expr", .str "object"), ("line", .null)]) := by
    rw [ExprEntry.Written]
    exact ⟨_, [("note", .bool true)], _, .field rfl (.field rfl (.field rfl .nil)), by simp,
      List.reverse_perm _, rfl⟩
  have hfile : reversed.1.Written reversed.2 := by
    refine ⟨_, _, .field ⟨_, rfl, .cons ?_ .nil⟩ .nil, .refl _, rfl⟩
    refine ⟨_, _, .field rfl (.field rfl (.leftOut trivial (.leftOut rfl (.field
      ⟨_, rfl, .cons ?_ .nil⟩ .nil)))), List.reverse_perm _, rfl⟩
    exact ⟨_, _, .field rfl (.field rfl (.field rfl (.field hinit (.field rfl .nil)))),
      List.reverse_perm _, rfl⟩
  have hplain : Program.identity.1.Plain := by
    simp [Program.identity, Program.Plain, Feature.Plain, Expr.plain, Expr.untyped, Expr.untypedList]
  exact ⟨hfile, (ofJson?_covers.1 _).2 _ hfile,
    ofJson?_covers.2 _ _ _ hplain (by decide) (by decide)⟩

end CoolStatics
