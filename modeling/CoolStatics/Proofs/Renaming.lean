import CoolStatics.Analysis
import Mathlib.Data.List.Nodup
import Mathlib.Logic.Embedding.Basic

/-!
Programs under other symbols. A renaming takes symbols to symbols, no two to the same one, and all that
is made of symbols can be renamed by it: tables, expressions, programs, hierarchies, faults. A hierarchy
tells symbols apart but knows nothing else about them, so whatever is asked of it has the renamed answer
in the renamed one, and a renamed program is registered as the renamed hierarchy.
-/
namespace CoolStatics

variable (σ : Symbol ↪ Symbol)

theorem contains_map_rename (l : List Symbol) (s : Symbol) :
    (l.map σ).contains (σ s) = l.contains s := by
  simp

/-! Vocabularies and tables. -/

namespace Vocabulary

def rename (v : Vocabulary) : Vocabulary :=
  ⟨v.symbols.map σ, by rw [List.length_map, v.length_eq], List.Nodup.map σ.injective v.nodup⟩

theorem symbols_rename (v : Vocabulary) : (v.rename σ).symbols = v.symbols.map σ := rfl

@[simp] theorem rename_symbol (v : Vocabulary) (p : Predefined) : v.rename σ p = σ (v p) := by
  simp [symbol, rename]

theorem isPrimitive_rename (v : Vocabulary) (s : Symbol) :
    (v.rename σ).isPrimitive (σ s) = v.isPrimitive s := by
  simp [isPrimitive]

theorem isReserved_rename (v : Vocabulary) (s : Symbol) :
    (v.rename σ).isReserved (σ s) = v.isReserved s := by
  simp [isReserved]

theorem isSealed_rename (v : Vocabulary) (s : Symbol) :
    (v.rename σ).isSealed (σ s) = v.isSealed s := by
  simp [isSealed]

end Vocabulary

namespace Table

variable {α β : Type} (g : α → β)

/-- The table with other keys, and other values at them. -/
def rename (t : Table α) : Table β :=
  ⟨t.entries.map fun e => (σ e.1, g e.2), by
    have hnodup := List.Nodup.map σ.injective t.nodup
    rwa [List.map_map] at hnodup ⊢⟩

@[simp] theorem rename_empty : (∅ : Table α).rename σ g = ∅ := rfl

theorem size_rename (t : Table α) : (t.rename σ g).size = t.size := by
  simp [size, rename]

@[simp] theorem get?_rename (t : Table α) (k : Symbol) :
    (t.rename σ g).get? (σ k) = (t.get? k).map g := by
  suffices h : ∀ es : List (Symbol × α),
      (es.map fun e => (σ e.1, g e.2)).lookup (σ k) = (es.lookup k).map g from h t.entries
  intro es
  induction es with
  | nil => rfl
  | cons e es ih =>
    obtain ⟨a, b⟩ := e
    by_cases hk : k = a
    · simp [hk]
    · simp [lookup_entry, hk, ih]

theorem contains_rename (t : Table α) (k : Symbol) :
    (t.rename σ g).contains (σ k) = t.contains k := by
  simp [contains]

theorem put_rename (k : Symbol) (v : α) (es : List (Symbol × α)) :
    put (σ k) (g v) (es.map fun e => (σ e.1, g e.2)) =
      (put k v es).map fun e => (σ e.1, g e.2) := by
  induction es with
  | nil => rfl
  | cons e es ih =>
    by_cases he : e.1 = k
    · simp [put, he]
    · simp [put, he, ih]

theorem insert_rename (t : Table α) (k : Symbol) (v : α) :
    (t.rename σ g).insert (σ k) (g v) = (t.insert k v).rename σ g := by
  have hput := put_rename σ g k v t.entries
  simp only [insert, rename, hput]

theorem modify_rename (t : Table α) (k : Symbol) {f : α → α} {f' : β → β}
    (hf : ∀ a, f' (g a) = g (f a)) :
    (t.rename σ g).modify (σ k) f' = (t.modify k f).rename σ g := by
  simp only [modify, rename, mk.injEq, List.map_map, List.map_inj_left, Function.comp_apply,
    Prod.mk.injEq, true_and, σ.apply_eq_iff_eq]
  intro e _
  split_ifs
  · exact hf e.2
  · rfl

end Table

/-! Programs. -/

namespace Expr

mutual

def rename : Expr → Expr
  | node line type? form => node line (type?.map σ) <| match form with
    | .assign name value => .assign (σ name) (rename value)
    | .dispatch receiver method args => .dispatch (rename receiver) (σ method) (renameList args)
    | .staticDispatch receiver type method args =>
      .staticDispatch (rename receiver) (σ type) (σ method) (renameList args)
    | .cond pred yes no => .cond (rename pred) (rename yes) (rename no)
    | .loop pred body => .loop (rename pred) (rename body)
    | .case scrutinee branches => .case (rename scrutinee) (renameBranches branches)
    | .block body => .block (renameList body)
    | .letIn name type init body => .letIn (σ name) (σ type) (rename init) (rename body)
    | .arith op lhs rhs => .arith op (rename lhs) (rename rhs)
    | .compare op lhs rhs => .compare op (rename lhs) (rename rhs)
    | .eq lhs rhs => .eq (rename lhs) (rename rhs)
    | .neg operand => .neg (rename operand)
    | .not operand => .not (rename operand)
    | .isVoid operand => .isVoid (rename operand)
    | .int value => .int value
    | .string value => .string value
    | .bool value => .bool value
    | .new type => .new (σ type)
    | .identifier name => .identifier (σ name)
    | .absent => .absent

def renameList : List Expr → List Expr
  | [] => []
  | e :: rest => rename e :: renameList rest

def renameBranches : List (Branch Expr) → List (Branch Expr)
  | [] => []
  | ⟨name, type, body, line⟩ :: rest => ⟨σ name, σ type, rename body, line⟩ :: renameBranches rest

end

theorem renameList_eq (es : List Expr) : renameList σ es = es.map (rename σ) := by
  induction es with
  | nil => rfl
  | cons e es ih => rw [renameList, ih, List.map_cons]

theorem line_rename (e : Expr) : (e.rename σ).line = e.line := by
  obtain ⟨line, type?, f⟩ := e
  cases f <;> rfl

theorem rename_absent (line : Line) : (absent line).rename σ = absent line := by
  simp [absent, plain, rename]

end Expr

def Formal.rename (f : Formal) : Formal := ⟨σ f.name, σ f.type, f.line⟩

def Method.rename (m : Method) : Method :=
  ⟨σ m.name, m.formals.map (Formal.rename σ), σ m.result, m.body.rename σ, m.line⟩

def Attribute.rename (a : Attribute) : Attribute := ⟨σ a.name, σ a.type, a.init.rename σ, a.line⟩

def Feature.rename : Feature → Feature
  | .method m => .method (m.rename σ)
  | .attr a => .attr (a.rename σ)

def ClassDecl.rename (c : ClassDecl) : ClassDecl :=
  ⟨σ c.name, σ c.parent, c.features.map (Feature.rename σ), c.file, c.line⟩

def Program.rename (p : Program) : Program := ⟨p.classes.map (ClassDecl.rename σ)⟩

/-! Faults. -/

def Rejection.rename : Rejection → Rejection
  | reservedName name => .reservedName (σ name)
  | sealedParent name parent => .sealedParent (σ name) (σ parent)
  | redefined name => .redefined (σ name)
  | cyclic name => .cyclic (σ name)

def Departure.rename : Departure → Departure
  | count found inherited => .count found inherited
  | parameter found inherited => .parameter (σ found) (σ inherited)
  | result found inherited => .result (σ found) (σ inherited)

def Cause.rename : Cause → Cause
  | rejected why => .rejected (why.rename σ)
  | methodRedefined owner method => .methodRedefined (σ owner) (σ method)
  | attributeRedefined owner attr => .attributeRedefined (σ owner) (σ attr)
  | selfAttribute => .selfAttribute
  | noMainClass => .noMainClass
  | noMainMethod => .noMainMethod
  | mainHasParameters => .mainHasParameters
  | undefinedParent name parent => .undefinedParent (σ name) (σ parent)
  | attributeInherited attr => .attributeInherited (σ attr)
  | undefinedAttributeType attr type => .undefinedAttributeType (σ attr) (σ type)
  | attributeInit attr declared actual => .attributeInit (σ attr) (σ declared) (σ actual)
  | selfFormal => .selfFormal
  | duplicateFormal name => .duplicateFormal (σ name)
  | invalidFormalType name type => .invalidFormalType (σ name) (σ type)
  | undefinedResult method type => .undefinedResult (σ method) (σ type)
  | overrideDeparts method how => .overrideDeparts (σ method) (how.rename σ)
  | methodResult method declared actual => .methodResult (σ method) (σ declared) (σ actual)
  | assignToSelf => .assignToSelf
  | undeclared name => .undeclared (σ name)
  | assignedValue name declared actual => .assignedValue (σ name) (σ declared) (σ actual)
  | undefinedDispatchClass type => .undefinedDispatchClass (σ type)
  | undefinedMethod method => .undefinedMethod (σ method)
  | argumentCount method expected found => .argumentCount (σ method) expected found
  | argument method param expected actual => .argument (σ method) (σ param) (σ expected) (σ actual)
  | undefinedCallResult method type => .undefinedCallResult (σ method) (σ type)
  | undefinedStaticType type => .undefinedStaticType (σ type)
  | staticReceiver declared actual => .staticReceiver (σ declared) (σ actual)
  | predicate of => .predicate of
  | duplicateBranch type => .duplicateBranch (σ type)
  | undefinedBranchType type => .undefinedBranchType (σ type)
  | selfBranch => .selfBranch
  | undefinedLetType name type => .undefinedLetType (σ name) (σ type)
  | selfLet => .selfLet
  | letInit name declared actual => .letInit (σ name) (σ declared) (σ actual)
  | nonIntArith op lhs rhs => .nonIntArith op (σ lhs) (σ rhs)
  | nonIntCompare op lhs rhs => .nonIntCompare op (σ lhs) (σ rhs)
  | nonIntNegation actual => .nonIntNegation (σ actual)
  | basicComparison lhs rhs => .basicComparison (σ lhs) (σ rhs)
  | nonBoolNot actual => .nonBoolNot (σ actual)
  | undefinedNew type => .undefinedNew (σ type)

def Fault.rename (f : Fault) : Fault := ⟨f.cause.rename σ, f.place⟩

def NoCommonAncestor.rename (e : NoCommonAncestor) : NoCommonAncestor := ⟨σ e.left, σ e.right⟩

/-! Hierarchies. -/

def Signature.rename (s : Signature) : Signature :=
  ⟨σ s.name, s.formals.map (Formal.rename σ), σ s.result, σ s.owner, s.line⟩

def ClassInfo.rename (c : ClassInfo) : ClassInfo :=
  ⟨σ c.parent, c.methods.rename σ (Signature.rename σ), c.attributes.rename σ σ, c.file, c.line⟩

theorem Signature.arity_rename (s : Signature) : (s.rename σ).arity = s.arity := by
  simp [arity, rename]

theorem Signature.types_rename (s : Signature) : (s.rename σ).types = s.types.map σ := by
  simp [types, rename, Formal.rename, Function.comp_def]

namespace Hierarchy

def rename (h : Hierarchy) : Hierarchy :=
  ⟨h.names.rename σ, h.classes.rename σ (ClassInfo.rename σ)⟩

variable (h : Hierarchy) (c current : Symbol)

@[simp] theorem names_rename : (h.rename σ).names = h.names.rename σ := rfl

@[simp] theorem get?_rename : (h.rename σ).get? (σ c) = (h.get? c).map (ClassInfo.rename σ) :=
  Table.get?_rename σ _ _ c

@[simp] theorem has_rename : (h.rename σ).has (σ c) = h.has c := Table.contains_rename σ _ _ c

@[simp] theorem parent?_rename : (h.rename σ).parent? (σ c) = (h.parent? c).map σ := by
  rw [parent?, parent?, get?_rename, Option.map_map, Option.map_map]
  rfl

theorem climb_rename (n : Nat) (seen : List Symbol) :
    (h.rename σ).climb n (seen.map σ) (σ c) = (h.climb n seen c).map σ := by
  induction n generalizing seen c with
  | zero => rfl
  | succ n ih =>
    rw [climb, climb, parent?_rename]
    cases h.parent? c with
    | none => rfl
    | some p =>
      have hend : (σ p = (h.rename σ).names .noClass ∨ σ p ∈ seen.map σ) ↔
          (p = h.names .noClass ∨ p ∈ seen) := by simp
      simp only [Option.map_some, hend]
      split_ifs
      · rfl
      · rw [List.map_cons, ← ih, List.map_cons]

@[simp] theorem chain_rename : (h.rename σ).chain (σ c) = (h.chain c).map σ := by
  have hsize : (h.rename σ).classes.size = h.classes.size := Table.size_rename σ _ _
  rw [chain, hsize]
  exact climb_rename σ h c _ [c]

theorem ancestors_rename : (h.rename σ).ancestors (σ c) = (h.ancestors c).map σ := by
  have hhas : (h.rename σ).has ∘ σ = h.has := funext (has_rename σ h)
  rw [ancestors, ancestors, chain_rename, List.filter_map, hhas]

theorem lineage_rename : (h.rename σ).lineage (σ c) = (h.lineage c).map σ := by
  rw [lineage, lineage, has_rename, ancestors_rename]
  split_ifs <;> rfl

theorem method?_rename (m : Symbol) :
    (h.rename σ).method? (σ c) (σ m) = (h.method? c m).map (Signature.rename σ) := by
  rw [method?, method?, get?_rename]
  cases h.get? c with
  | none => rfl
  | some info => exact Table.get?_rename σ _ _ m

theorem attr?_rename (a : Symbol) :
    (h.rename σ).attr? (σ c) (σ a) = (h.attr? c a).map σ := by
  rw [attr?, attr?, get?_rename]
  cases h.get? c with
  | none => rfl
  | some info => exact Table.get?_rename σ _ _ a

theorem inheritedMethod?_rename (m : Symbol) :
    (h.rename σ).inheritedMethod? (σ c) (σ m) = (h.inheritedMethod? c m).map (Signature.rename σ) := by
  rw [inheritedMethod?, inheritedMethod?, ancestors_rename, List.findSome?_map, List.map_findSome?]
  simp only [Function.comp_def, method?_rename]

theorem inheritedAttr?_rename (a : Symbol) :
    (h.rename σ).inheritedAttr? (σ c) (σ a) = (h.inheritedAttr? c a).map σ := by
  rw [inheritedAttr?, inheritedAttr?, ancestors_rename, List.findSome?_map, List.map_findSome?]
  simp only [Function.comp_def, attr?_rename]

theorem findMethod?_rename (m : Symbol) :
    (h.rename σ).findMethod? (σ c) (σ m) = (h.findMethod? c m).map (Signature.rename σ) := by
  rw [findMethod?, findMethod?, method?_rename, inheritedMethod?_rename, Option.map_or]

theorem findAttr?_rename (a : Symbol) :
    (h.rename σ).findAttr? (σ c) (σ a) = (h.findAttr? c a).map σ := by
  rw [findAttr?, findAttr?, attr?_rename, inheritedAttr?_rename, Option.map_or]

theorem denoted_rename (t : Symbol) :
    (h.rename σ).denoted (σ current) (σ t) = σ (h.denoted current t) := by
  rw [denoted, denoted, names_rename, Vocabulary.rename_symbol, apply_ite σ]
  simp only [σ.apply_eq_iff_eq]

theorem conforms_rename (a d : Symbol) :
    (h.rename σ).conforms (σ current) (σ a) (σ d) = h.conforms current a d := by
  simp [conforms, denoted_rename]

theorem join_rename (a b : Symbol) :
    (h.rename σ).join (σ current) (σ a) (σ b) =
      ((h.join current a b).map σ).mapError (NoCommonAncestor.rename σ) := by
  have hfind : ((h.rename σ).lineage (σ (h.denoted current b))).find?
      ((h.rename σ).lineage (σ (h.denoted current a))).contains =
      ((h.lineage (h.denoted current b)).find? (h.lineage (h.denoted current a)).contains).map σ := by
    rw [lineage_rename, lineage_rename, List.find?_map]
    simp only [Function.comp_def, contains_map_rename]
  simp only [join, names_rename, Vocabulary.rename_symbol, σ.apply_eq_iff_eq, denoted_rename, hfind]
  split_ifs
  · rfl
  · rfl
  · cases (h.lineage (h.denoted current b)).find? (h.lineage (h.denoted current a)).contains <;> rfl

/-! Registration. -/

variable (d : ClassDecl)

theorem addMethod_rename (s : Signature) :
    (h.rename σ).addMethod (σ c) (s.rename σ) = (h.addMethod c s).rename σ := by
  have hmodify : (h.classes.rename σ (ClassInfo.rename σ)).modify (σ c) (fun info =>
      { info with methods := info.methods.insert (s.rename σ).name (s.rename σ) }) =
      (h.classes.modify c fun info =>
        { info with methods := info.methods.insert s.name s }).rename σ (ClassInfo.rename σ) := by
    refine Table.modify_rename σ _ _ _ fun info => ?_
    have hinsert := Table.insert_rename σ (Signature.rename σ) info.methods s.name s
    simp only [ClassInfo.rename, ← hinsert]
    rfl
  rw [addMethod, addMethod, rename, rename, hmodify]

theorem addAttr_rename (a t : Symbol) :
    (h.rename σ).addAttr (σ c) (σ a) (σ t) = (h.addAttr c a t).rename σ := by
  have hmodify : (h.classes.rename σ (ClassInfo.rename σ)).modify (σ c) (fun info =>
      { info with attributes := info.attributes.insert (σ a) (σ t) }) =
      (h.classes.modify c fun info =>
        { info with attributes := info.attributes.insert a t }).rename σ (ClassInfo.rename σ) := by
    refine Table.modify_rename σ _ _ _ fun info => ?_
    simp only [ClassInfo.rename, ← Table.insert_rename]
  rw [addAttr, addAttr, rename, rename, hmodify]

theorem enter_rename : (h.rename σ).enter (d.rename σ) = (h.enter d).rename σ := by
  have hinsert := Table.insert_rename σ (ClassInfo.rename σ) h.classes d.name
    ⟨d.parent, ∅, ∅, d.file, d.line⟩
  rw [enter, enter, rename, rename, ← hinsert]
  rfl

theorem closesCycle_rename (child parent : Symbol) :
    (h.rename σ).closesCycle (σ child) (σ parent) = h.closesCycle child parent := by
  simp [closesCycle]

theorem rejection?_rename :
    (h.rename σ).rejection? (d.rename σ) = (h.rejection? d).map (Rejection.rename σ) := by
  simp only [rejection?, ClassDecl.rename, names_rename, Vocabulary.isReserved_rename,
    Vocabulary.isSealed_rename, has_rename, closesCycle_rename]
  split_ifs <;> rfl

theorem clash?_rename (f : Feature) :
    (h.rename σ).clash? (σ c) (f.rename σ) = (h.clash? c f).map (Cause.rename σ) := by
  cases f with
  | method m =>
    simp only [clash?, Feature.rename, Method.rename, method?_rename, Option.isSome_map]
    split_ifs <;> rfl
  | attr a =>
    simp only [clash?, Feature.rename, Attribute.rename, attr?_rename, Option.isSome_map, names_rename,
      Vocabulary.rename_symbol, σ.apply_eq_iff_eq]
    split_ifs <;> rfl

theorem declareFeature_rename (f : Feature) :
    (h.rename σ).declareFeature (σ c) (f.rename σ) = (h.declareFeature c f).rename σ := by
  cases f with
  | method m => exact addMethod_rename σ h c (m.signature c)
  | attr a => exact addAttr_rename σ h c a.name a.type

theorem declareFeatures_rename (fs : List Feature) :
    (h.rename σ).declareFeatures (d.rename σ) (fs.map (Feature.rename σ)) =
      ((h.declareFeatures d fs).1.rename σ, (h.declareFeatures d fs).2.map (Fault.rename σ)) := by
  induction fs generalizing h with
  | nil => rfl
  | cons f fs ih =>
    have hclash := clash?_rename σ h d.name f
    have hdeclare := declareFeature_rename σ h d.name f
    have hline : (f.rename σ).line = f.line := by cases f <;> rfl
    simp only [List.map_cons, declareFeatures]
    rw [show (d.rename σ).name = σ d.name from rfl, hclash, hdeclare, ih, hline]
    cases h.clash? d.name f <;> rfl

theorem declare_rename :
    (h.rename σ).declare (d.rename σ) =
      ((h.declare d).1.rename σ, (h.declare d).2.map (Fault.rename σ)) :=
  declareFeatures_rename σ h d d.features

theorem basicClasses_rename (names : Vocabulary) :
    BasicClasses.all (names.rename σ) = (BasicClasses.all names).map (ClassDecl.rename σ) := by
  simp [BasicClasses.all, BasicClasses.object, BasicClasses.int, BasicClasses.io, BasicClasses.bool,
    BasicClasses.string, BasicClasses.method, BasicClasses.attr, ClassDecl.rename, Feature.rename,
    Method.rename, Attribute.rename, Formal.rename, Expr.rename_absent]

theorem basic_rename (names : Vocabulary) : basic (names.rename σ) = (basic names).rename σ := by
  suffices hfold : ∀ (cs : List ClassDecl) (h : Hierarchy),
      (cs.map (ClassDecl.rename σ)).foldl (fun h c => ((h.enter c).declare c).1) (h.rename σ) =
        (cs.foldl (fun h c => ((h.enter c).declare c).1) h).rename σ by
    rw [basic, basicClasses_rename]
    exact hfold _ ⟨names, ∅⟩
  intro cs
  induction cs with
  | nil => exact fun _ => rfl
  | cons d cs ih =>
    intro h
    rw [List.map_cons, List.foldl_cons, List.foldl_cons, enter_rename, declare_rename]
    exact ih _

def Registration.rename (r : Registration) : Registration :=
  ⟨r.hierarchy.rename σ, r.faults.map (Fault.rename σ), r.rejected.map σ⟩

theorem registerAll_rename (cs : List ClassDecl) :
    (h.rename σ).registerAll (cs.map (ClassDecl.rename σ)) = (h.registerAll cs).rename σ := by
  induction cs generalizing h with
  | nil => rfl
  | cons d cs ih =>
    rw [List.map_cons, registerAll, registerAll, register, register, rejection?_rename]
    cases h.rejection? d with
    | some why => rfl
    | none =>
      simp only [Option.map_none, enter_rename, declare_rename, ih]
      simp only [Registration.rename, List.map_append]

theorem build_rename (names : Vocabulary) (p : Program) :
    build (names.rename σ) (p.rename σ) = (build names p).rename σ := by
  rw [build, basic_rename]
  exact registerAll_rename σ _ _

theorem mainFault?_rename : (h.rename σ).mainFault? = h.mainFault?.map (Fault.rename σ) := by
  rw [mainFault?, mainFault?, names_rename, Vocabulary.rename_symbol, Vocabulary.rename_symbol,
    get?_rename]
  cases h.get? (h.names .mainClass) with
  | none => rfl
  | some info =>
    have hmain : (info.rename σ).methods.get? (σ (h.names .mainMethod)) =
        (info.methods.get? (h.names .mainMethod)).map (Signature.rename σ) :=
      Table.get?_rename σ _ _ _
    simp only [Option.map_some, hmain]
    cases info.methods.get? (h.names .mainMethod) with
    | none => rfl
    | some main =>
      simp only [Option.map_some, Signature.arity_rename]
      split_ifs <;> rfl

theorem parentFaults_rename : (h.rename σ).parentFaults = h.parentFaults.map (Fault.rename σ) := by
  have hentries : (h.rename σ).classes.entries =
      h.classes.entries.map fun e => (σ e.1, e.2.rename σ) := rfl
  rw [parentFaults, parentFaults, List.map_filterMap, hentries, List.filterMap_map]
  refine List.filterMap_congr fun e _ => ?_
  have hparent : (e.2.rename σ).parent = σ e.2.parent := rfl
  simp only [Function.comp_apply, hparent, names_rename, Vocabulary.rename_symbol, has_rename,
    σ.apply_eq_iff_eq]
  split_ifs <;> rfl

theorem Registration.outlineFaults_rename (r : Registration) :
    (r.rename σ).outlineFaults = r.outlineFaults.map (Fault.rename σ) := by
  simp only [outlineFaults, rename, List.isEmpty_map, mainFault?_rename, parentFaults_rename]
  split_ifs
  · cases r.hierarchy.mainFault? <;> rfl
  · rfl

end Hierarchy
end CoolStatics
