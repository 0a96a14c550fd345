import CoolStatics.ProgramFile.Lower
import CoolStatics.Proofs.Erasure

/-!
What lowering makes of a file. It walks over the nodes of the file from left to right, a node before what
is below it, and fails at the first one that is an empty block or case. If there is none, the program
says what the file says with everything written out that the file leaves out. Names that are interned on
the way keep their symbols, so that it does not matter how many follow.
-/
namespace CoolStatics

open Lowering

/-! What a file says. -/

def EntryForm.empty? {ε : Type} : EntryForm ε → Option EmptyForm
  | .block [] => some .block
  | .case _ [] => some .case
  | _ => none

namespace ExprEntry

mutual

/-- The nodes of an expression in a class of `file`, inside a node at line `outer`, each with its place:
the node itself, then everything below it, from left to right. -/
def nodes (file : String) (outer : Line) : ExprEntry → List (Place × EntryForm ExprEntry)
  | node own form =>
    let line := own.getD outer
    (⟨file, line⟩, form) :: match form with
      | .assign _ value => nodes file line value
      | .dispatch none _ args => nodesList file line args
      | .dispatch (some receiver) _ args => nodes file line receiver ++ nodesList file line args
      | .staticDispatch receiver _ _ args => nodes file line receiver ++ nodesList file line args
      | .cond pred yes no => nodes file line pred ++ (nodes file line yes ++ nodes file line no)
      | .loop pred body => nodes file line pred ++ nodes file line body
      | .case scrutinee branches => nodes file line scrutinee ++ nodesBranches file line branches
      | .block body => nodesList file line body
      | .letIn _ _ none body => nodes file line body
      | .letIn _ _ (some init) body => nodes file line init ++ nodes file line body
      | .arith _ lhs rhs => nodes file line lhs ++ nodes file line rhs
      | .compare _ lhs rhs => nodes file line lhs ++ nodes file line rhs
      | .eq lhs rhs => nodes file line lhs ++ nodes file line rhs
      | .neg operand => nodes file line operand
      | .not operand => nodes file line operand
      | .isVoid operand => nodes file line operand
      | .int _ | .string _ | .bool _ | .new _ | .identifier _ | .absent => []

def nodesList (file : String) (outer : Line) : List ExprEntry → List (Place × EntryForm ExprEntry)
  | [] => []
  | e :: rest => nodes file outer e ++ nodesList file outer rest

def nodesBranches (file : String) (outer : Line) :
    List (BranchEntry ExprEntry) → List (Place × EntryForm ExprEntry)
  | [] => []
  | ⟨_, _, body, own⟩ :: rest =>
    nodes file (own.getD outer) body ++ nodesBranches file outer rest

end

mutual

/-- The expression, inside a node at line `outer`, with everything written out that it leaves out. -/
def explicit (outer : Line) : ExprEntry → ExprEntry
  | node own form =>
    let line := own.getD outer
    node (some line) <| match form with
      | .assign x value => .assign x (explicit line value)
      | .dispatch none m args =>
        .dispatch (some (node (some line) (.identifier "self"))) m (explicitList line args)
      | .dispatch (some receiver) m args =>
        .dispatch (some (explicit line receiver)) m (explicitList line args)
      | .staticDispatch receiver type m args =>
        .staticDispatch (explicit line receiver) type m (explicitList line args)
      | .cond pred yes no => .cond (explicit line pred) (explicit line yes) (explicit line no)
      | .loop pred body => .loop (explicit line pred) (explicit line body)
      | .case scrutinee branches => .case (explicit line scrutinee) (explicitBranches line branches)
      | .block body => .block (explicitList line body)
      | .letIn x type none body =>
        .letIn x type (some (node (some line) .absent)) (explicit line body)
      | .letIn x type (some init) body => .letIn x type (some (explicit line init)) (explicit line body)
      | .arith op lhs rhs => .arith op (explicit line lhs) (explicit line rhs)
      | .compare op lhs rhs => .compare op (explicit line lhs) (explicit line rhs)
      | .eq lhs rhs => .eq (explicit line lhs) (explicit line rhs)
      | .neg operand => .neg (explicit line operand)
      | .not operand => .not (explicit line operand)
      | .isVoid operand => .isVoid (explicit line operand)
      | .int value => .int value
      | .string value => .string value
      | .bool value => .bool value
      | .new type => .new type
      | .identifier x => .identifier x
      | .absent => .absent

def explicitList (outer : Line) : List ExprEntry → List ExprEntry
  | [] => []
  | e :: rest => explicit outer e :: explicitList outer rest

def explicitBranches (outer : Line) : List (BranchEntry ExprEntry) → List (BranchEntry ExprEntry)
  | [] => []
  | ⟨x, type, body, own⟩ :: rest =>
    ⟨x, type, explicit (own.getD outer) body, some (own.getD outer)⟩ :: explicitBranches outer rest

end

end ExprEntry

namespace FeatureEntry

def nodes (file : String) (outer : Line) : FeatureEntry → List (Place × EntryForm ExprEntry)
  | .method _ _ _ body own => body.nodes file (own.getD outer)
  | .attr _ _ none _ => []
  | .attr _ _ (some init) own => init.nodes file (own.getD outer)

def explicit (outer : Line) : FeatureEntry → FeatureEntry
  | .method m formals result body own =>
    .method m formals result (body.explicit (own.getD outer)) (some (own.getD outer))
  | .attr x type none own =>
    .attr x type (some (.node (some (own.getD outer)) .absent)) (some (own.getD outer))
  | .attr x type (some init) own =>
    .attr x type (some (init.explicit (own.getD outer))) (some (own.getD outer))

end FeatureEntry

namespace ClassEntry

def nodes (defaultFile : String) (c : ClassEntry) : List (Place × EntryForm ExprEntry) :=
  c.features.flatMap (·.nodes (c.file.getD defaultFile) c.line)

def explicit (defaultFile : String) (c : ClassEntry) : ClassEntry :=
  { c with
    parent := some (c.parent.getD "Object")
    file := some (c.file.getD defaultFile)
    features := c.features.map (·.explicit c.line) }

end ClassEntry

namespace ProgramFile

def nodes (defaultFile : String) (f : ProgramFile) : List (Place × EntryForm ExprEntry) :=
  f.classes.flatMap (·.nodes defaultFile)

def explicit (defaultFile : String) (f : ProgramFile) : ProgramFile :=
  ⟨f.classes.map (·.explicit defaultFile)⟩

end ProgramFile

/-! What a program says. -/

namespace Expr

variable (i : Interner)

mutual

/-- The expression as it is written to a file, with nothing left out. -/
def entry : Expr → ExprEntry
  | node line _ form => .node (some line) <| match form with
    | .assign x value => .assign (i.resolve x) (entry value)
    | .dispatch receiver m args => .dispatch (some (entry receiver)) (i.resolve m) (entryList args)
    | .staticDispatch receiver type m args =>
      .staticDispatch (entry receiver) (i.resolve type) (i.resolve m) (entryList args)
    | .cond pred yes no => .cond (entry pred) (entry yes) (entry no)
    | .loop pred body => .loop (entry pred) (entry body)
    | .case scrutinee branches => .case (entry scrutinee) (entryBranches branches)
    | .block body => .block (entryList body)
    | .letIn x type init body =>
      .letIn (i.resolve x) (i.resolve type) (some (entry init)) (entry body)
    | .arith op lhs rhs => .arith op (entry lhs) (entry rhs)
    | .compare op lhs rhs => .compare op (entry lhs) (entry rhs)
    | .eq lhs rhs => .eq (entry lhs) (entry rhs)
    | .neg operand => .neg (entry operand)
    | .not operand => .not (entry operand)
    | .isVoid operand => .isVoid (entry operand)
    | .int value => .int value
    | .string value => .string value
    | .bool value => .bool value
    | .new type => .new (i.resolve type)
    | .identifier x => .identifier (i.resolve x)
    | .absent => .absent

def entryList : List Expr → List ExprEntry
  | [] => []
  | e :: rest => entry e :: entryList rest

def entryBranches : List (Branch Expr) → List (BranchEntry ExprEntry)
  | [] => []
  | ⟨x, type, body, line⟩ :: rest =>
    ⟨i.resolve x, i.resolve type, entry body, some line⟩ :: entryBranches rest

end

end Expr

def Formal.entry (i : Interner) (f : Formal) : FormalEntry := ⟨i.resolve f.name, i.resolve f.type⟩

def Feature.entry (i : Interner) : Feature → FeatureEntry
  | .method m => .method (i.resolve m.name) (m.formals.map (·.entry i)) (i.resolve m.result)
      (m.body.entry i) (some m.line)
  | .attr a => .attr (i.resolve a.name) (i.resolve a.type) (some (a.init.entry i)) (some a.line)

def ClassDecl.entry (i : Interner) (c : ClassDecl) : ClassEntry :=
  ⟨i.resolve c.name, some (i.resolve c.parent), some c.file, c.line, c.features.map (·.entry i)⟩

def Program.file (i : Interner) (p : Program) : ProgramFile := ⟨p.classes.map (·.entry i)⟩

/-- What a file does not say is not there: no node has a type, and formals stand on the line of their
method. -/
def Feature.Plain : Feature → Prop
  | .method m => m.body.untyped = m.body ∧ ∀ f ∈ m.formals, f.line = m.line
  | .attr a => a.init.untyped = a.init

def Program.Plain (p : Program) : Prop := ∀ c ∈ p.classes, ∀ f ∈ c.features, f.Plain

/-! Walking over nodes. -/

def firstEmpty? (nodes : List (Place × EntryForm ExprEntry)) : Option EmptyNode :=
  nodes.findSome? fun n => n.2.empty?.map (⟨·, n.1⟩)

theorem EntryForm.empty?_eq_none_iff {ε : Type} {form : EntryForm ε} :
    form.empty? = none ↔ ¬(form = .block [] ∨ ∃ scrutinee, form = .case scrutinee []) := by
  cases form with
  | block body => cases body <;> simp [empty?]
  | case scrutinee branches => cases branches <;> simp [empty?]
  | _ => simp [empty?]

theorem firstEmpty?_eq_none_iff (ns : List (Place × EntryForm ExprEntry)) :
    firstEmpty? ns = none ↔
      ¬∃ n ∈ ns, n.2 = .block [] ∨ ∃ scrutinee, n.2 = .case scrutinee [] := by
  rw [firstEmpty?, List.findSome?_eq_none_iff]
  simp only [Option.map_eq_none_iff, EntryForm.empty?_eq_none_iff]
  push Not
  rfl

theorem firstEmpty?_append (ns ms : List (Place × EntryForm ExprEntry)) :
    firstEmpty? (ns ++ ms) = (firstEmpty? ns).or (firstEmpty? ms) :=
  List.findSome?_append

theorem firstEmpty?_cons_of_none {place : Place} {form : EntryForm ExprEntry}
    (hform : form.empty? = none) (ns : List (Place × EntryForm ExprEntry)) :
    firstEmpty? ((place, form) :: ns) = firstEmpty? ns := by
  rw [firstEmpty?, List.findSome?_cons, hform]
  rfl

namespace Lowering

variable {α β γ : Type} {ns ms : List (Place × EntryForm ExprEntry)} {P : Interner → α → Prop}
  {Q : Interner → β → Prop}

/-- The computation adds names and walks over the given nodes: at the first empty one it fails, and
without such it comes to an end of which `P` holds, and holds still when more names are added. -/
def Walks (ns : List (Place × EntryForm ExprEntry)) (P : Interner → α → Prop) (x : Lowering α) : Prop :=
  ∀ i, i.names <+: (x i).2.names ∧
    match firstEmpty? ns with
    | some e => (x i).1 = .error e
    | none => ∃ a, (x i).1 = .ok a ∧ ∀ j : Interner, (x i).2.names <+: j.names → P j a

theorem bind_apply (x : Lowering α) (f : α → Lowering β) (j : Interner) :
    (x >>= f) j = ExceptT.bindCont f (x j).1 (x j).2 := rfl

theorem walks_pure {a : α} (ha : ∀ j, P j a) : Walks [] P (pure a) :=
  fun _ => ⟨List.prefix_refl _, a, rfl, fun j _ => ha j⟩

theorem walks_intern (name : String) :
    Walks [] (fun j s => j.resolve s = name) (intern name) := by
  intro i
  refine ⟨Interner.names_prefix_intern i name, (i.intern name).1, rfl, fun j hj => ?_⟩
  change j.resolve (i.intern name).1 = name
  rw [Interner.resolve_of_isPrefix hj (Interner.intern_index_lt i name)]
  exact Interner.resolve_intern i name

theorem walks_refuse {file : String} {line : Line} {form : EntryForm ExprEntry} {empty : EmptyForm}
    (hform : form.empty? = some empty) :
    Walks ((⟨file, line⟩, form) :: ns) P (refuse empty file line) := by
  intro i
  refine ⟨List.prefix_refl _, ?_⟩
  rw [firstEmpty?, List.findSome?_cons, hform]
  rfl

theorem Walks.node {place : Place} {form : EntryForm ExprEntry} {x : Lowering α}
    (hform : form.empty? = none) (hx : Walks ns P x) : Walks ((place, form) :: ns) P x := by
  intro i
  rw [firstEmpty?_cons_of_none hform]
  exact hx i

theorem Walks.bind {x : Lowering α} {f : α → Lowering β} (hx : Walks ns P x)
    (hf : ∀ a, Walks ms (fun j b => P j a → Q j b) (f a)) : Walks (ns ++ ms) Q (x >>= f) := by
  intro i
  obtain ⟨hgrow, hend⟩ := hx i
  rw [bind_apply, firstEmpty?_append]
  cases hn : firstEmpty? ns with
  | some e =>
    rw [hn] at hend
    rw [hend]
    exact ⟨hgrow, rfl⟩
  | none =>
    rw [hn] at hend
    obtain ⟨a, ha, hP⟩ := hend
    -- `f` goes on from the names that `x` leaves, and what `x` came to holds of all that follow
    obtain ⟨hgrow', hend'⟩ := hf a (x i).2
    rw [ha, Option.none_or]
    refine ⟨hgrow.trans hgrow', ?_⟩
    cases hm : firstEmpty? ms with
    | some e =>
      rw [hm] at hend'
      exact hend'
    | none =>
      rw [hm] at hend'
      obtain ⟨b, hb, hQ⟩ := hend'
      exact ⟨b, hb, fun j hj => hQ j hj (hP j (hgrow'.trans hj))⟩

theorem Walks.map {x : Lowering α} {g : α → β} (hx : Walks ns P x) (hg : ∀ j a, P j a → Q j (g a)) :
    Walks ns Q (x >>= fun a => pure (g a)) := by
  rw [← List.append_nil ns]
  exact hx.bind fun a => walks_pure fun j => hg j a

/-- Items of a list are lowered one after another: what they are lowered to reads, item by item, as `g`
has it, and has the property `T`. -/
theorem walks_mapM {f : γ → Lowering α} {nodes : γ → List (Place × EntryForm ExprEntry)}
    {read : Interner → α → β} {g : γ → β} {T : α → Prop} {cs : List γ}
    (hf : ∀ c ∈ cs, Walks (nodes c) (fun j a => read j a = g c ∧ T a) (f c)) :
    Walks (cs.flatMap nodes) (fun j as => as.map (read j) = cs.map g ∧ ∀ a ∈ as, T a)
      (cs.mapM f) := by
  induction cs with
  | nil => exact walks_pure fun _ => ⟨rfl, by simp⟩
  | cons c cs ih =>
    rw [List.forall_mem_cons] at hf
    rw [List.mapM_cons, List.flatMap_cons]
    refine hf.1.bind fun a => (ih hf.2).map fun j as has ha => ?_
    exact ⟨by rw [List.map_cons, List.map_cons, ha.1, has.1], List.forall_mem_cons.mpr ⟨ha.2, has.2⟩⟩

end Lowering

open Lowering

/-- The expression says what the entry says, and none of its nodes has a type. -/
structure Expr.Says (j : Interner) (x : ExprEntry) (e : Expr) : Prop where
  entry : e.entry j = x
  untyped : e.untyped = e

structure Expr.SaysAll (j : Interner) (xs : List ExprEntry) (es : List Expr) : Prop where
  entry : entryList j es = xs
  untyped : untypedList es = es

structure Expr.SaysBranches (j : Interner) (xs : List (BranchEntry ExprEntry))
    (bs : List (Branch Expr)) : Prop where
  entry : entryBranches j bs = xs
  untyped : untypedBranches bs = bs

section

variable (file : String)

mutual

theorem ExprEntry.walks_lower (outer : Line) : ∀ e : ExprEntry,
    Walks (e.nodes file outer) (fun j => Expr.Says j (e.explicit outer)) (e.lower file outer)
  | .node own (.assign x value) => by
    rw [lower, nodes, explicit]
    refine .node rfl ((walks_intern x).bind fun _ => (walks_lower _ value).map ?_)
    intro j value' hv hx
    constructor <;> simp only [Expr.plain, Expr.entry, Expr.untyped, hx, hv.entry, hv.untyped]
  | .node own (.dispatch none m args) => by
    rw [lower, nodes, explicit]
    refine .node rfl ((walks_intern _).bind fun _ => (walks_intern m).bind fun _ => ?_)
    refine (walks_lowerList _ args).map fun j args' ha hm hself => ?_
    constructor <;> simp only [Expr.plain, Expr.entry, Expr.untyped, hself, hm, ha.entry, ha.untyped]
    rfl
  | .node own (.dispatch (some receiver) m args) => by
    rw [lower, nodes, explicit]
    refine .node rfl ((walks_lower _ receiver).bind fun _ => (walks_intern m).bind fun _ => ?_)
    refine (walks_lowerList _ args).map fun j args' ha hm hr => ?_
    constructor <;>
      simp only [Expr.plain, Expr.entry, Expr.untyped, hm, hr.entry, hr.untyped, ha.entry, ha.untyped]
  | .node own (.staticDispatch receiver type m args) => by
    rw [lower, nodes, explicit]
    refine .node rfl ((walks_lower _ receiver).bind fun _ => (walks_intern type).bind fun _ => ?_)
    refine (walks_intern m).bind fun _ => (walks_lowerList _ args).map fun j args' ha hm ht hr => ?_
    constructor <;>
      simp only [Expr.plain, Expr.entry, Expr.untyped, hm, ht, hr.entry, hr.untyped, ha.entry,
        ha.untyped]
  | .node own (.cond pred yes no) => by
    rw [lower, nodes, explicit]
    refine .node rfl ((walks_lower _ pred).bind fun _ => (walks_lower _ yes).bind fun _ => ?_)
    refine (walks_lower _ no).map fun j no' hn hy hp => ?_
    constructor <;> simp only [Expr.plain, Expr.entry, Expr.untyped, hp.entry, hp.untyped, hy.entry,
      hy.untyped, hn.entry, hn.untyped]
  | .node own (.loop pred body) => by
    rw [lower, nodes, explicit]
    refine .node rfl ((walks_lower _ pred).bind fun _ => (walks_lower _ body).map ?_)
    intro j body' hb hp
    constructor <;>
      simp only [Expr.plain, Expr.entry, Expr.untyped, hp.entry, hp.untyped, hb.entry, hb.untyped]
  | .node own (.case _ []) => by
    rw [lower, nodes]
    exact walks_refuse rfl
  | .node own (.case scrutinee (b :: bs)) => by
    rw [lower, nodes, explicit]
    refine .node rfl ((walks_lower _ scrutinee).bind fun _ => ?_)
    refine (walks_lowerBranches _ (b :: bs)).map fun j branches' hbs hs => ?_
    constructor <;>
      simp only [Expr.plain, Expr.entry, Expr.untyped, hs.entry, hs.untyped, hbs.entry, hbs.untyped]
  | .node own (.block []) => by
    rw [lower, nodes]
    exact walks_refuse rfl
  | .node own (.block (e :: es)) => by
    rw [lower, nodes, explicit]
    refine .node rfl ((walks_lowerList _ (e :: es)).map fun j body' hb => ?_)
    constructor <;> simp only [Expr.plain, Expr.entry, Expr.untyped, hb.entry, hb.untyped]
  | .node own (.letIn x type none body) => by
    rw [lower, nodes, explicit]
    refine .node rfl ((walks_intern x).bind fun _ => (walks_intern type).bind fun _ => ?_)
    refine (walks_lower _ body).map fun j body' hb ht hx => ?_
    constructor <;> simp only [Expr.plain, Expr.absent, Expr.entry, Expr.untyped, hx, ht, hb.entry,
      hb.untyped]
  | .node own (.letIn x type (some init) body) => by
    rw [lower, nodes, explicit]
    refine .node rfl ((walks_intern x).bind fun _ => (walks_intern type).bind fun _ => ?_)
    refine (walks_lower _ init).bind fun _ => (walks_lower _ body).map fun j body' hb hi ht hx => ?_
    constructor <;> simp only [Expr.plain, Expr.entry, Expr.untyped, hx, ht, hi.entry, hi.untyped,
      hb.entry, hb.untyped]
  | .node own (.arith _ lhs rhs) | .node own (.compare _ lhs rhs) | .node own (.eq lhs rhs) => by
    rw [lower, nodes, explicit]
    refine .node rfl ((walks_lower _ lhs).bind fun _ => (walks_lower _ rhs).map ?_)
    intro j rhs' hr hl
    constructor <;>
      simp only [Expr.plain, Expr.entry, Expr.untyped, hl.entry, hl.untyped, hr.entry, hr.untyped]
  | .node own (.neg operand) | .node own (.not operand) | .node own (.isVoid operand) => by
    rw [lower, nodes, explicit]
    refine .node rfl ((walks_lower _ operand).map fun j operand' ho => ?_)
    constructor <;> simp only [Expr.plain, Expr.entry, Expr.untyped, ho.entry, ho.untyped]
  | .node own (.new x) | .node own (.identifier x) => by
    rw [lower, nodes, explicit]
    refine .node rfl ((walks_intern x).map fun j x' hx => ?_)
    constructor <;> simp only [Expr.plain, Expr.entry, Expr.untyped, hx]
  | .node own (.int value) | .node own (.string value) | .node own (.bool value)
  | .node own .absent => by
    rw [lower, nodes, explicit]
    refine .node rfl (walks_pure fun j => ?_)
    constructor <;> simp only [Expr.plain, Expr.entry, Expr.untyped]

theorem ExprEntry.walks_lowerList (outer : Line) : ∀ es : List ExprEntry,
    Walks (nodesList file outer es) (fun j => Expr.SaysAll j (explicitList outer es))
      (lowerList file outer es)
  | [] => by
    rw [lowerList, nodesList, explicitList]
    exact walks_pure fun _ => ⟨rfl, rfl⟩
  | e :: es => by
    rw [lowerList, nodesList, explicitList]
    refine (walks_lower _ e).bind fun _ => (walks_lowerList _ es).map fun j es' hes he => ?_
    constructor <;> simp only [Expr.entryList, Expr.untypedList, he.entry, he.untyped, hes.entry,
      hes.untyped]

theorem ExprEntry.walks_lowerBranches (outer : Line) : ∀ bs : List (BranchEntry ExprEntry),
    Walks (nodesBranches file outer bs) (fun j => Expr.SaysBranches j (explicitBranches outer bs))
      (lowerBranches file outer bs)
  | [] => by
    rw [lowerBranches, nodesBranches, explicitBranches]
    exact walks_pure fun _ => ⟨rfl, rfl⟩
  | ⟨x, type, body, own⟩ :: bs => by
    rw [lowerBranches, nodesBranches, explicitBranches]
    refine (walks_intern x).bind fun _ => (walks_intern type).bind fun _ => ?_
    refine (walks_lower _ body).bind fun _ => (walks_lowerBranches _ bs).map ?_
    intro j bs' hbs hb ht hx
    constructor <;> simp only [Expr.entryBranches, Expr.untypedBranches, hx, ht, hb.entry, hb.untyped,
      hbs.entry, hbs.untyped]

end

theorem FormalEntry.walks_lower (line : Line) (f : FormalEntry) :
    Walks [] (fun j f' => f'.entry j = f ∧ f'.line = line) (f.lower line) := by
  rw [lower]
  refine (walks_intern f.name).bind fun _ => (walks_intern f.type).map fun j type ht hx => ?_
  exact ⟨by simp only [Formal.entry, hx, ht], rfl⟩

theorem FormalEntry.walks_lowerAll (line : Line) (fs : List FormalEntry) :
    Walks [] (fun j fs' => fs'.map (·.entry j) = fs ∧ ∀ f ∈ fs', f.line = line)
      (fs.mapM (·.lower line)) := by
  have hall := walks_mapM fun f (_ : f ∈ fs) => f.walks_lower line
  rwa [List.flatMap_eq_nil_iff.mpr fun _ _ => rfl, List.map_id'] at hall

theorem FeatureEntry.walks_lower (outer : Line) (f : FeatureEntry) :
    Walks (f.nodes file outer) (fun j f' => f'.entry j = f.explicit outer ∧ f'.Plain)
      (f.lower file outer) := by
  cases f with
  | method m formals result body own =>
    rw [lower, nodes, explicit]
    refine (walks_intern m).bind fun _ => (FormalEntry.walks_lowerAll _ formals).bind fun _ => ?_
    refine (walks_intern result).bind fun _ => (body.walks_lower file _).map ?_
    intro j body' hb hr hfs hm
    exact ⟨by simp only [Feature.entry, hm, hfs.1, hr, hb.entry], hb.untyped, hfs.2⟩
  | attr x type init own =>
    cases init with
    | none =>
      rw [lower, nodes, explicit]
      refine (walks_intern x).bind fun _ => (walks_intern type).bind fun _ => walks_pure ?_
      intro j ht hx
      exact ⟨by simp only [Feature.entry, Expr.absent, Expr.plain, Expr.entry, hx, ht], rfl⟩
    | some init =>
      rw [lower, nodes, explicit]
      refine (walks_intern x).bind fun _ => (walks_intern type).bind fun _ => ?_
      refine (init.walks_lower file _).map fun j init' hi ht hx => ?_
      exact ⟨by simp only [Feature.entry, hx, ht, hi.entry], hi.untyped⟩

end

theorem ClassEntry.walks_lower (defaultFile : String) (c : ClassEntry) :
    Walks (c.nodes defaultFile)
      (fun j c' => c'.entry j = c.explicit defaultFile ∧ ∀ f ∈ c'.features, f.Plain)
      (c.lower defaultFile) := by
  have hfeatures := walks_mapM fun f (_ : f ∈ c.features) =>
    f.walks_lower (c.file.getD defaultFile) c.line
  rw [lower, nodes, ← List.append_nil (List.flatMap _ _)]
  refine hfeatures.bind fun features => (walks_intern c.name).bind fun _ => (walks_intern _).map ?_
  intro j parent hp hx hfs
  exact ⟨by simp only [ClassDecl.entry, explicit, hfs.1, hx, hp, Predefined.text], hfs.2⟩

theorem ProgramFile.walks_lower (defaultFile : String) (f : ProgramFile) :
    Walks (f.nodes defaultFile) (fun j p => p.file j = f.explicit defaultFile ∧ p.Plain)
      (f.lower defaultFile) := by
  have hclasses := walks_mapM fun c (_ : c ∈ f.classes) => c.walks_lower defaultFile
  rw [lower, nodes]
  refine hclasses.map fun j cs hcs => ?_
  exact ⟨by rw [Program.file, explicit, hcs.1], hcs.2⟩

/-- Lowering fails exactly if some block of the file has no expressions or some case no branches, and
then names the first such node with its place. Otherwise the program, resolved with the interner that is
left, says what the file says with everything written out, and nothing beyond that. -/
theorem ProgramFile.lower_faithful (f : ProgramFile) (defaultFile : String) (i : Interner) :
    ((∃ e, (f.lower defaultFile i).1 = .error e) ↔
        ∃ n ∈ f.nodes defaultFile, n.2 = .block [] ∨ ∃ scrutinee, n.2 = .case scrutinee []) ∧
      (∀ e, (f.lower defaultFile i).1 = .error e → firstEmpty? (f.nodes defaultFile) = some e) ∧
      ∀ p, (f.lower defaultFile i).1 = .ok p →
        p.file (f.lower defaultFile i).2 = f.explicit defaultFile ∧ p.Plain := by
  obtain ⟨-, hend⟩ := f.walks_lower defaultFile i
  have hempty := firstEmpty?_eq_none_iff (f.nodes defaultFile)
  cases hfirst : firstEmpty? (f.nodes defaultFile) with
  | some e =>
    rw [hfirst] at hend hempty
    rw [hend]
    refine ⟨⟨fun _ => ?_, fun _ => ⟨e, rfl⟩⟩, fun e' he => ?_, fun p hp => ?_⟩
    · by_contra hno
      cases hempty.mpr hno
    · rw [Except.error.inj he]
    · cases hp
  | none =>
    rw [hfirst] at hend
    obtain ⟨p, hp, hsays⟩ := hend
    rw [hp]
    refine ⟨⟨fun ⟨e, he⟩ => ?_, fun hn => absurd hn (hempty.mp hfirst)⟩, fun e he => ?_, ?_⟩
    · cases he
    · cases he
    · intro p' hp'
      rw [← Except.ok.inj hp']
      exact hsays _ (List.prefix_refl _)

/-- A class with a file of its own, whose method has an empty case inside a loop and an empty block after
that. -/
def ProgramFile.nestedEmpty : ProgramFile :=
  ⟨[⟨"Main", none, some "b.cl", 3, [.method "main" [] "Object" (.node none (.block [
    .node (some 7) (.loop (.node none (.bool true)) (.node none (.case (.node none (.int 0)) []))),
    .node (some 9) (.block [])])) none]⟩]⟩

theorem ProgramFile.lower_faithful_nestedEmpty :
    (nestedEmpty.lower "a.cl" .empty).1 = .error ⟨.case, ⟨"b.cl", 7⟩⟩ := by
  have hfirst : firstEmpty? (nestedEmpty.nodes "a.cl") = some ⟨.case, ⟨"b.cl", 7⟩⟩ := by decide
  obtain ⟨hiff, herror, -⟩ := nestedEmpty.lower_faithful "a.cl" .empty
  obtain ⟨e, he⟩ := hiff.mpr (by
    by_contra hno
    rw [(firstEmpty?_eq_none_iff _).mpr hno] at hfirst
    cases hfirst)
  rw [he]
  rw [herror e he] at hfirst
  rw [Option.some.inj hfirst]

end CoolStatics
