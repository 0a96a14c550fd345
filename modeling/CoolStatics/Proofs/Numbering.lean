import CoolStatics.ProgramFile.Load
import CoolStatics.Proofs.Equivariance
import CoolStatics.Proofs.Lowering

/-!
The numbers of symbols do not show. Two interners number the names of a program file differently, but an
interner that has the names of another one has them under a renaming of the symbols, which resolve to the
same texts. A file is lowered by the one to the renamed program of the other, and that has the renamed
verdict. What is shown of a verdict are texts only.
-/
namespace CoolStatics

variable {σ : Symbol ↪ Symbol} {i j k : Interner}

/-! Texts. Symbols are shown by their names, so renamed symbols with the same names show as the same. -/

section Texts

variable (hres : ∀ s, k.resolve (σ s) = i.resolve s)

include hres

theorem Cause.message_rename (c : Cause) : (c.rename σ).message k = c.message i := by
  -- `delta`, since the equations of so large a match are slow to come by.
  delta message
  cases c with
  | rejected why =>
    delta Rejection.message
    cases why <;> simp only [rename, Rejection.rename, hres]
  | overrideDeparts method how =>
    delta Departure.message
    cases how <;> simp only [rename, Departure.rename, hres]
  | _ => simp only [rename, hres]

theorem Fault.diagnostic_rename (f : Fault) : (f.rename σ).diagnostic k = f.diagnostic i := by
  have hhint : (f.cause.rename σ).hint = f.cause.hint := by
    cases f.cause with
    | rejected why => cases why <;> rfl
    | _ => rfl
  rw [diagnostic, diagnostic, rename, hhint, Cause.message_rename hres]

theorem Verdict.diagnostics_rename (v : Verdict) :
    (v.rename σ).diagnostics k = v.diagnostics i := by
  simp [diagnostics, rename, Fault.diagnostic_rename hres]

end Texts

namespace Expr

theorem kind_rename (e : Expr) : (e.rename σ).kind = e.kind := by
  obtain ⟨line, type?, f⟩ := e
  cases f <;> rfl

theorem type?_rename (e : Expr) : (e.rename σ).type? = e.type?.map σ := by
  obtain ⟨line, type?, f⟩ := e
  cases f <;> rfl

theorem children_rename (e : Expr) : (e.rename σ).children = e.children.map (rename σ) := by
  have hbranches : ∀ bs : List (Branch Expr),
      (renameBranches σ bs).map (·.body) = (bs.map (·.body)).map (rename σ) := by
    intro bs
    induction bs with
    | nil => rfl
    | cons b bs ih => rw [renameBranches, List.map_cons, List.map_cons, List.map_cons, ih]
  obtain ⟨line, type?, f⟩ := e
  cases f <;> simp [rename, children, form, Form.children, renameList_eq, hbranches]

theorem walk_rename (e : Expr) : (e.rename σ).walk = e.walk.map (rename σ) := by
  induction e using induct with
  | step e ih =>
    rw [walk_eq, walk_eq, children_rename, List.map_cons, List.map_flatMap, List.flatMap_map]
    congr 1
    exact List.flatMap_congr fun c hc => ih c hc

end Expr

theorem ClassDecl.walk_rename (c : ClassDecl) : (c.rename σ).walk = c.walk.map (Expr.rename σ) := by
  have hbody : ∀ f : Feature, (f.rename σ).body = f.body.rename σ := by
    intro f
    cases f <;> rfl
  rw [walk, walk, rename, List.flatMap_map, List.map_flatMap]
  simp only [hbody, Expr.walk_rename]

theorem Program.walk_rename (p : Program) :
    (p.rename σ).walk = p.walk.map (Prod.map (ClassDecl.rename σ) (Expr.rename σ)) := by
  rw [walk, walk, rename, List.flatMap_map, List.map_flatMap]
  simp only [ClassDecl.walk_rename, List.map_map]
  rfl

theorem Program.typeListing_rename (hres : ∀ s, k.resolve (σ s) = i.resolve s) (p : Program) :
    (p.rename σ).typeListing k = p.typeListing i := by
  rw [typeListing, typeListing, walk_rename, List.filterMap_map]
  congr 1
  refine List.filterMap_congr fun x _ => ?_
  simp only [Function.comp_apply, Prod.map, Expr.type?_rename, Expr.kind_rename, Expr.line_rename,
    Option.map_map, Function.comp_def, hres]
  rfl

/-! From one interner to another. -/

namespace Interner

/-- The symbol that `k` has for the name of a symbol of `i`. A symbol without a name stays without
one. -/
def moved (i k : Interner) (s : Symbol) : Symbol :=
  match i.names[s.index]? with
  | some name => ⟨k.names.idxOf name⟩
  | none => ⟨k.names.length + s.index⟩

theorem moved_of_none {s : Symbol} (hs : i.names[s.index]? = none) :
    moved i k s = ⟨k.names.length + s.index⟩ := by
  rw [moved, hs]

theorem moved_of_some {s : Symbol} {name : String} (hs : i.names[s.index]? = some name) :
    moved i k s = ⟨k.names.idxOf name⟩ := by
  rw [moved, hs]

theorem moved_injective (hsub : i.names ⊆ k.names) : Function.Injective (moved i k) := by
  have hmem : ∀ {s : Symbol} {name}, i.names[s.index]? = some name → name ∈ k.names :=
    fun hs => hsub (List.mem_of_getElem? hs)
  intro a b hab
  cases ha : i.names[a.index]? with
  | none =>
    cases hb : i.names[b.index]? with
    | none =>
      rw [moved_of_none ha, moved_of_none hb, Symbol.mk.injEq] at hab
      exact congrArg Symbol.mk (Nat.add_left_cancel hab)
    | some y =>
      rw [moved_of_none ha, moved_of_some hb, Symbol.mk.injEq] at hab
      have hlt := List.idxOf_lt_length_of_mem (hmem hb)
      omega
  | some x =>
    cases hb : i.names[b.index]? with
    | none =>
      rw [moved_of_some ha, moved_of_none hb, Symbol.mk.injEq] at hab
      have hlt := List.idxOf_lt_length_of_mem (hmem ha)
      omega
    | some y =>
      rw [moved_of_some ha, moved_of_some hb, Symbol.mk.injEq] at hab
      obtain rfl : x = y := (List.idxOf_inj (hmem ha)).mp hab
      obtain ⟨_, hxa⟩ := List.getElem?_eq_some_iff.mp ha
      obtain ⟨_, hxb⟩ := List.getElem?_eq_some_iff.mp hb
      exact congrArg Symbol.mk ((List.getElem_inj i.nodup).mp (hxa.trans hxb.symm))

/-- The renaming from one interner to another that has all its names. -/
def into (i k : Interner) (hsub : i.names ⊆ k.names) : Symbol ↪ Symbol :=
  ⟨moved i k, moved_injective hsub⟩

theorem resolve_into (hsub : i.names ⊆ k.names) (s : Symbol) :
    k.resolve (i.into k hsub s) = i.resolve s := by
  change k.resolve (moved i k s) = i.resolve s
  cases hs : i.names[s.index]? with
  | none =>
    rw [moved_of_none hs, resolve, resolve, hs]
    simp
  | some name =>
    rw [moved_of_some hs, resolve_idxOf (hsub (List.mem_of_getElem? hs)), resolve, hs,
      Option.getD_some]

theorem into_idxOf (hsub : i.names ⊆ k.names) {name : String} (hname : name ∈ i.names) :
    i.into k hsub ⟨i.names.idxOf name⟩ = ⟨k.names.idxOf name⟩ := by
  refine moved_of_some ?_
  rw [List.getElem?_eq_getElem (List.idxOf_lt_length_of_mem hname), List.getElem_idxOf]

/-- What a third interner, whose names `i` goes on from, has interned is interned by `k` as its image. -/
theorem intern_into (hsub : i.names ⊆ k.names) {name : String}
    (hle : (j.intern name).2.names <+: i.names) :
    k.intern name = (i.into k hsub (j.intern name).1, k) := by
  have hmem : name ∈ (j.intern name).2.names := mem_names_intern j name
  have hidx : (j.intern name).2.names.idxOf name = i.names.idxOf name := by
    obtain ⟨rest, hrest⟩ := hle
    rw [← hrest, List.idxOf_append_of_mem hmem]
  rw [intern_of_mem (hsub (hle.subset hmem)), intern_symbol, hidx,
    into_idxOf hsub (hle.subset hmem)]

theorem internAll_into (hsub : i.names ⊆ k.names) {names : List String}
    (hle : (j.internAll names).2.names <+: i.names) :
    k.internAll names = ((j.internAll names).1.map (i.into k hsub), k) := by
  induction names generalizing j with
  | nil => rfl
  | cons name names ih =>
    have hfirst := intern_into hsub ((names_prefix_internAll (j.intern name).2 names).trans hle)
    have hrest := ih (j := (j.intern name).2) hle
    simp only [internAll, hfirst, hrest, List.map_cons]

theorem subset_names_internAll (i : Interner) (names : List String) :
    names ⊆ (i.internAll names).2.names := by
  induction names generalizing i with
  | nil => exact List.nil_subset _
  | cons name names ih =>
    refine List.cons_subset.mpr ⟨?_, ih _⟩
    exact (names_prefix_internAll _ names).subset (mem_names_intern i name)

theorem exists_names_of_both (i j : Interner) :
    ∃ k : Interner, i.names ⊆ k.names ∧ j.names ⊆ k.names :=
  ⟨(i.internAll j.names).2, (names_prefix_internAll i j.names).subset,
    subset_names_internAll i j.names⟩

end Interner

/-! Lowering. An interner that has all names of a file lowers it without a new one. -/

namespace Lowering

variable {α β γ δ : Type} {g : α → β} {g' : γ → δ}

/-- The first computation only adds names, and as long as these stay within the names of `i` the second
one, started at `k`, comes to what `g` makes of the end of the first and leaves `k` as it is. -/
def Carries (i k : Interner) (g : α → β) (x : Lowering α) (x' : Lowering β) : Prop :=
  ∀ j : Interner, j.names <+: (x j).2.names ∧
    ((x j).2.names <+: i.names → x' k = ((x j).1.map g, k))

theorem carries_pure {a : α} {b : β} (hb : b = g a) : Carries i k g (pure a) (pure b) := by
  intro j
  rw [hb]
  exact ⟨List.prefix_refl _, fun _ => rfl⟩

theorem carries_refuse {form : EmptyForm} {file : String} {line : Line} :
    Carries i k g (refuse form file line) (refuse form file line) :=
  fun _ => ⟨List.prefix_refl _, fun _ => rfl⟩

theorem Carries.bind {x : Lowering α} {x' : Lowering β} {f : α → Lowering γ} {f' : β → Lowering δ}
    (hx : Carries i k g x x') (hf : ∀ a, Carries i k g' (f a) (f' (g a))) :
    Carries i k g' (x >>= f) (x' >>= f') := by
  intro j
  obtain ⟨hgrow, hend⟩ := hx j
  rw [bind_apply, bind_apply]
  rcases hxj : x j with ⟨r, j'⟩
  rw [hxj] at hgrow hend
  cases r with
  | error e =>
    refine ⟨hgrow, fun hle => ?_⟩
    rw [hend hle]
    rfl
  | ok a =>
    obtain ⟨hgrow', hend'⟩ := hf a j'
    refine ⟨hgrow.trans hgrow', fun hle => ?_⟩
    rw [hend (hgrow'.trans hle)]
    exact hend' hle

theorem carries_intern (hsub : i.names ⊆ k.names) (text : String) :
    Carries i k (i.into k hsub) (intern text) (intern text) := by
  intro j
  refine ⟨Interner.names_prefix_intern j text, fun hle => ?_⟩
  change (Except.ok (k.intern text).1, (k.intern text).2) = _
  rw [Interner.intern_into hsub hle]
  rfl

theorem carries_mapM {f : γ → Lowering α} {cs : List γ} {g : α → α}
    (hf : ∀ c ∈ cs, Carries i k g (f c) (f c)) :
    Carries i k (List.map g) (cs.mapM f) (cs.mapM f) := by
  induction cs with
  | nil => exact carries_pure rfl
  | cons c cs ih =>
    rw [List.forall_mem_cons] at hf
    rw [List.mapM_cons]
    exact hf.1.bind fun _ => (ih hf.2).bind fun _ => carries_pure rfl

end Lowering

open Lowering

section

variable (hsub : i.names ⊆ k.names) (file : String)

mutual

theorem ExprEntry.carries_lower (outer : Line) : ∀ e : ExprEntry,
    Carries i k (Expr.rename (i.into k hsub)) (e.lower file outer) (e.lower file outer)
  | .node own (.assign x value) => by
    simp only [lower]
    refine (carries_intern hsub x).bind fun _ => ?_
    exact (carries_lower _ value).bind fun _ => carries_pure rfl
  | .node own (.dispatch none m args) => by
    simp only [lower]
    refine (carries_intern hsub _).bind fun _ => (carries_intern hsub m).bind fun _ => ?_
    exact (carries_lowerList _ args).bind fun _ => carries_pure rfl
  | .node own (.dispatch (some receiver) m args) => by
    simp only [lower]
    refine (carries_lower _ receiver).bind fun _ => (carries_intern hsub m).bind fun _ => ?_
    exact (carries_lowerList _ args).bind fun _ => carries_pure rfl
  | .node own (.staticDispatch receiver type m args) => by
    simp only [lower]
    refine (carries_lower _ receiver).bind fun _ => (carries_intern hsub type).bind fun _ => ?_
    refine (carries_intern hsub m).bind fun _ => ?_
    exact (carries_lowerList _ args).bind fun _ => carries_pure rfl
  | .node own (.cond pred yes no) => by
    simp only [lower]
    refine (carries_lower _ pred).bind fun _ => (carries_lower _ yes).bind fun _ => ?_
    exact (carries_lower _ no).bind fun _ => carries_pure rfl
  | .node own (.loop pred body) => by
    simp only [lower]
    exact (carries_lower _ pred).bind fun _ => (carries_lower _ body).bind fun _ => carries_pure rfl
  | .node own (.case _ []) => by
    simp only [lower]
    exact carries_refuse
  | .node own (.case scrutinee (b :: bs)) => by
    simp only [lower]
    refine (carries_lower _ scrutinee).bind fun _ => ?_
    exact (carries_lowerBranches _ (b :: bs)).bind fun _ => carries_pure rfl
  | .node own (.block []) => by
    simp only [lower]
    exact carries_refuse
  | .node own (.block (e :: es)) => by
    simp only [lower]
    exact (carries_lowerList _ (e :: es)).bind fun _ => carries_pure rfl
  | .node own (.letIn x type none body) => by
    simp only [lower]
    refine (carries_intern hsub x).bind fun _ => (carries_intern hsub type).bind fun _ => ?_
    exact (carries_lower _ body).bind fun _ => carries_pure rfl
  | .node own (.letIn x type (some init) body) => by
    simp only [lower]
    refine (carries_intern hsub x).bind fun _ => (carries_intern hsub type).bind fun _ => ?_
    exact (carries_lower _ init).bind fun _ => (carries_lower _ body).bind fun _ => carries_pure rfl
  | .node own (.arith op lhs rhs) => by
    simp only [lower]
    exact (carries_lower _ lhs).bind fun _ => (carries_lower _ rhs).bind fun _ => carries_pure rfl
  | .node own (.compare op lhs rhs) => by
    simp only [lower]
    exact (carries_lower _ lhs).bind fun _ => (carries_lower _ rhs).bind fun _ => carries_pure rfl
  | .node own (.eq lhs rhs) => by
    simp only [lower]
    exact (carries_lower _ lhs).bind fun _ => (carries_lower _ rhs).bind fun _ => carries_pure rfl
  | .node own (.neg operand) => by
    simp only [lower]
    exact (carries_lower _ operand).bind fun _ => carries_pure rfl
  | .node own (.not operand) => by
    simp only [lower]
    exact (carries_lower _ operand).bind fun _ => carries_pure rfl
  | .node own (.isVoid operand) => by
    simp only [lower]
    exact (carries_lower _ operand).bind fun _ => carries_pure rfl
  | .node own (.int value) => carries_pure rfl
  | .node own (.string value) => carries_pure rfl
  | .node own (.bool value) => carries_pure rfl
  | .node own (.new type) => by
    simp only [lower]
    exact (carries_intern hsub type).bind fun _ => carries_pure rfl
  | .node own (.identifier x) => by
    simp only [lower]
    exact (carries_intern hsub x).bind fun _ => carries_pure rfl
  | .node own .absent => carries_pure rfl

theorem ExprEntry.carries_lowerList (outer : Line) : ∀ es : List ExprEntry,
    Carries i k (Expr.renameList (i.into k hsub)) (lowerList file outer es)
      (lowerList file outer es)
  | [] => carries_pure rfl
  | e :: rest => by
    simp only [lowerList]
    exact (carries_lower _ e).bind fun _ => (carries_lowerList _ rest).bind fun _ => carries_pure rfl

theorem ExprEntry.carries_lowerBranches (outer : Line) : ∀ bs : List (BranchEntry ExprEntry),
    Carries i k (Expr.renameBranches (i.into k hsub)) (lowerBranches file outer bs)
      (lowerBranches file outer bs)
  | [] => carries_pure rfl
  | ⟨x, type, body, own⟩ :: rest => by
    simp only [lowerBranches]
    refine (carries_intern hsub x).bind fun _ => (carries_intern hsub type).bind fun _ => ?_
    refine (carries_lower _ body).bind fun _ => ?_
    exact (carries_lowerBranches _ rest).bind fun _ => carries_pure rfl

end

theorem FormalEntry.carries_lower (line : Line) (f : FormalEntry) :
    Carries i k (Formal.rename (i.into k hsub)) (f.lower line) (f.lower line) := by
  rw [lower]
  refine (carries_intern hsub f.name).bind fun _ => ?_
  exact (carries_intern hsub f.type).bind fun _ => carries_pure rfl

theorem FeatureEntry.carries_lower (outer : Line) (f : FeatureEntry) :
    Carries i k (Feature.rename (i.into k hsub)) (f.lower file outer) (f.lower file outer) := by
  cases f with
  | method m formals result body own =>
    rw [lower]
    refine (carries_intern hsub m).bind fun _ => ?_
    refine (carries_mapM fun f _ => f.carries_lower hsub _).bind fun _ => ?_
    refine (carries_intern hsub result).bind fun _ => ?_
    exact (body.carries_lower hsub file _).bind fun _ => carries_pure rfl
  | attr x type init own =>
    rw [lower]
    refine (carries_intern hsub x).bind fun _ => (carries_intern hsub type).bind fun _ => ?_
    cases init with
    | none =>
      have habsent := carries_pure (i := i) (k := k)
        (Expr.rename_absent (i.into k hsub) (own.getD outer)).symm
      exact habsent.bind fun _ => carries_pure rfl
    | some init => exact (init.carries_lower hsub file _).bind fun _ => carries_pure rfl

theorem ClassEntry.carries_lower (c : ClassEntry) :
    Carries i k (ClassDecl.rename (i.into k hsub)) (c.lower file) (c.lower file) := by
  rw [lower]
  refine (carries_mapM fun f _ => f.carries_lower hsub _ _).bind fun _ => ?_
  refine (carries_intern hsub c.name).bind fun _ => ?_
  exact (carries_intern hsub _).bind fun _ => carries_pure rfl

theorem ProgramFile.carries_lower (f : ProgramFile) :
    Carries i k (Program.rename (i.into k hsub)) (f.lower file) (f.lower file) := by
  rw [lower]
  exact (carries_mapM fun c _ => c.carries_lower hsub file).bind fun _ => carries_pure rfl

end

namespace Vocabulary

theorem eq_of_symbols_eq {v w : Vocabulary} (h : v.symbols = w.symbols) : v = w := by
  cases v
  cases w
  cases h
  rfl

theorem symbols_intern (i : Interner) :
    (intern i).1.symbols = (i.internAll (Predefined.all.map Predefined.text)).1 := by
  rw [intern]

theorem intern_snd (i : Interner) :
    (intern i).2 = (i.internAll (Predefined.all.map Predefined.text)).2 := by
  rw [intern]

theorem names_prefix_intern (i : Interner) : i.names <+: (intern i).2.names := by
  rw [intern_snd]
  exact Interner.names_prefix_internAll i _

theorem intern_into (hsub : i.names ⊆ k.names) (hle : (intern j).2.names <+: i.names) :
    intern k = ((intern j).1.rename (i.into k hsub), k) := by
  rw [intern_snd] at hle
  have hall := Interner.internAll_into hsub hle
  refine Prod.ext (eq_of_symbols_eq ?_) ?_
  · rw [symbols_intern, hall, symbols_rename, symbols_intern]
  · rw [intern_snd, hall]

end Vocabulary

/-! Answers. -/

/-- What there is to see of a program file once it has been analysed: why it could not be loaded, that its
check broke off, or its diagnostics and its two listings. -/
inductive Answer
  | refused (e : LoadError)
  | brokenOff
  | judged (diagnostics : List Diagnostic) (plain types : String)

namespace Program

def answer (p : Program) (i : Interner) : Answer :=
  let a := p.analyse i
  match a.verdict with
  | .error _ => .brokenOff
  | .ok v =>
    let diagnostics := v.diagnostics a.interner
    .judged diagnostics (Diagnostic.listing diagnostics) (v.program.typeListing a.interner)

theorem analyse_interner (p : Program) (i : Interner) :
    (p.analyse i).interner = (Vocabulary.intern i).2 := by
  rw [analyse]

theorem answer_rename (hsub : (Vocabulary.intern i).2.names ⊆ k.names) (p : Program) :
    (p.rename ((Vocabulary.intern i).2.into k hsub)).answer k = p.answer i := by
  have hintern := Vocabulary.intern_into hsub (List.prefix_refl _)
  have hnames : (Vocabulary.intern k).1 =
      (Vocabulary.intern i).1.rename ((Vocabulary.intern i).2.into k hsub) := by
    rw [hintern]
  have hres := Interner.resolve_into hsub
  rw [answer, answer]
  simp only [analyse_interner, verdict_rename _ hnames p]
  rw [hintern]
  cases (p.analyse i).verdict with
  | error e => rfl
  | ok v =>
    have hlisting : (v.rename ((Vocabulary.intern i).2.into k hsub)).program.typeListing k =
        v.program.typeListing (Vocabulary.intern i).2 := typeListing_rename hres v.program
    simp only [Except.map, Except.mapError, Verdict.diagnostics_rename hres, hlisting]

end Program

namespace ProgramFile

def answer (f : ProgramFile) (defaultFile : String) (i : Interner) : Answer :=
  match (f.lower defaultFile i).1 with
  | .error e => .refused (.empty e)
  | .ok p => p.answer (f.lower defaultFile i).2

theorem answer_of_subset (f : ProgramFile) (file : String)
    (hsub : (Vocabulary.intern (f.lower file j).2).2.names ⊆ k.names) :
    f.answer file k = f.answer file j := by
  have hlower := (f.carries_lower hsub file j).2 (Vocabulary.names_prefix_intern _)
  rw [answer, answer, hlower]
  cases (f.lower file j).1 with
  | error e => rfl
  | ok p => exact p.answer_rename hsub

/-- The numbers of the symbols do not show: whatever has been interned before, and in whatever order, a
file has the same answer. -/
theorem answer_interner_irrel (f : ProgramFile) (file : String) (i j : Interner) :
    f.answer file i = f.answer file j := by
  -- Both are the answer with an interner that has the names of both runs.
  obtain ⟨k, hi, hj⟩ := Interner.exists_names_of_both (Vocabulary.intern (f.lower file i).2).2
    (Vocabulary.intern (f.lower file j).2).2
  exact (f.answer_of_subset file hi).symm.trans (f.answer_of_subset file hj)

end ProgramFile
end CoolStatics
