import CoolStatics.Proofs.Equivalence
import CoolStatics.Proofs.Interchange

/-!
Names of bound variables. A variable that a `let`, a branch or a formal binds can be given another name,
together with its free occurrences, as long as the new name does not occur where the variable is bound.
Every node keeps its type then, and as many faults are noted at the same places, whatever attributes
have the old or the new name.
-/
namespace CoolStatics

open Report

/-- The names that a node itself uses for variables, be it to read, to assign or to bind them. -/
def Form.variableNames {ε : Type} : Form ε → List Symbol
  | .assign name _ => [name]
  | .identifier name => [name]
  | .letIn name _ _ _ => [name]
  | .case _ branches => branches.map (·.name)
  | _ => []

namespace Expr

def variableNames (e : Expr) : List Symbol := e.walk.flatMap (·.form.variableNames)

theorem variableNames_eq (e : Expr) :
    e.variableNames = e.form.variableNames ++ e.children.flatMap variableNames := by
  rw [variableNames, walk_eq, List.flatMap_cons, List.flatMap_assoc]
  rfl

mutual

/-- Renames the free variables of an expression. A variable keeps its name wherever it is bound. -/
def renameFree (ρ : Symbol → Symbol) : Expr → Expr
  | node line type? form => node line type? <| match form with
    | .assign name value => .assign (ρ name) (renameFree ρ value)
    | .dispatch receiver method args => .dispatch (renameFree ρ receiver) method (renameFreeList ρ args)
    | .staticDispatch receiver type method args =>
      .staticDispatch (renameFree ρ receiver) type method (renameFreeList ρ args)
    | .cond pred yes no => .cond (renameFree ρ pred) (renameFree ρ yes) (renameFree ρ no)
    | .loop pred body => .loop (renameFree ρ pred) (renameFree ρ body)
    | .case scrutinee branches => .case (renameFree ρ scrutinee) (renameFreeBranches ρ branches)
    | .block body => .block (renameFreeList ρ body)
    | .letIn name type init body =>
      .letIn name type (renameFree ρ init) (renameFree (Function.update ρ name name) body)
    | .arith op lhs rhs => .arith op (renameFree ρ lhs) (renameFree ρ rhs)
    | .compare op lhs rhs => .compare op (renameFree ρ lhs) (renameFree ρ rhs)
    | .eq lhs rhs => .eq (renameFree ρ lhs) (renameFree ρ rhs)
    | .neg operand => .neg (renameFree ρ operand)
    | .not operand => .not (renameFree ρ operand)
    | .isVoid operand => .isVoid (renameFree ρ operand)
    | .int value => .int value
    | .string value => .string value
    | .bool value => .bool value
    | .new type => .new type
    | .identifier name => .identifier (ρ name)
    | .absent => .absent

def renameFreeList (ρ : Symbol → Symbol) : List Expr → List Expr
  | [] => []
  | e :: rest => renameFree ρ e :: renameFreeList ρ rest

def renameFreeBranches (ρ : Symbol → Symbol) : List (Branch Expr) → List (Branch Expr)
  | [] => []
  | ⟨name, type, body, line⟩ :: rest =>
    ⟨name, type, renameFree (Function.update ρ name name) body, line⟩ :: renameFreeBranches ρ rest

end

theorem renameFreeList_eq (ρ : Symbol → Symbol) (es : List Expr) :
    renameFreeList ρ es = es.map (renameFree ρ) := by
  induction es with
  | nil => rfl
  | cons e es ih => rw [renameFreeList, ih, List.map_cons]

theorem renameFreeBranches_eq (ρ : Symbol → Symbol) (bs : List (Branch Expr)) :
    renameFreeBranches ρ bs = bs.map fun b =>
      { b with body := b.body.renameFree (Function.update ρ b.name b.name) } := by
  induction bs with
  | nil => rfl
  | cons b bs ih => rw [renameFreeBranches, ih, List.map_cons]

end Expr

namespace Report

variable {α β : Type}

/-- Reports that come to the same end and note as many faults, each at the same place. -/
def samePlaces : Relator where
  rel S r r' := r'.faults.map (·.place) = r.faults.map (·.place) ∧ SameOutcome S r r'
  refl r := ⟨rfl, sameOutcome.refl r⟩
  pure hab := ⟨rfl, hab⟩
  bindOk {_ _ _ _ _ _ r r' f f'} hr hf := by
    refine ⟨?_, sameOutcome.bindOk hr.2 fun a b ha hab => (hf a b ha hab).2⟩
    obtain ⟨fs, x⟩ := r
    obtain ⟨fs', x'⟩ := r'
    obtain ⟨hfs, hx⟩ := hr
    cases x <;> cases x'
    · exact hfs
    · exact hx.elim
    · exact hx.elim
    · have hrest := (hf _ _ rfl hx).1
      rw [mk_ok_bind, mk_ok_bind, List.map_append, List.map_append, hfs, hrest]

end Report

namespace Context

variable {cx : Context} {ρ : Symbol → Symbol} {y z w : Symbol} {s s' : Scope} {line : Line}

theorem samePlaces_note {cause cause' : Cause} :
    samePlaces.rel (fun _ _ => True) (cx.note line cause) (cx.note line cause') := ⟨rfl, trivial⟩

theorem samePlaces_require {kept : Bool} {cause cause' : Cause} :
    samePlaces.rel (fun _ _ => True) (cx.require kept line cause) (cx.require kept line cause') := by
  cases kept with
  | true => exact samePlaces.pure trivial
  | false => exact samePlaces_note

theorem samePlaces_fallBack {cause cause' : Cause} :
    samePlaces.rel Eq (cx.fallBack line cause) (cx.fallBack line cause') :=
  samePlaces.bind samePlaces_note fun _ _ _ => samePlaces.pure rfl

theorem samePlaces_expect {kept : Bool} {cause cause' : Cause} {t : Symbol} :
    samePlaces.rel Eq (cx.expect kept line cause t) (cx.expect kept line cause' t) := by
  cases kept with
  | true => exact samePlaces.pure rfl
  | false => exact samePlaces_fallBack

/-- Names are renamed to themselves or to `y`, and apart from `y` each has the type in one scope that its
new name has in the other. -/
structure Along (cx : Context) (ρ : Symbol → Symbol) (y : Symbol) (s s' : Scope) : Prop where
  rename : ∀ z, ρ z = z ∨ ρ z = y
  self : ρ (cx.names .self) = cx.names .self
  fresh : y ≠ cx.names .self
  type : ∀ z, z ≠ y → cx.objectType? s' (ρ z) = cx.objectType? s z

namespace Along

theorem extend (al : Along cx ρ y s s') (hw : w ≠ y) (t : Symbol) :
    Along cx (Function.update ρ w w) y (cx.extend s w t) (cx.extend s' w t) := by
  refine ⟨fun z => ?_, ?_, al.fresh, fun z hz => ?_⟩
  · by_cases hzw : z = w
    · exact Or.inl (by rw [hzw, Function.update_self])
    · rw [Function.update_of_ne hzw]
      exact al.rename z
  · by_cases hself : cx.names .self = w
    · rw [hself, Function.update_self]
    · rw [Function.update_of_ne hself, al.self]
  · by_cases hself : w = cx.names .self
    · have hρ : Function.update ρ w w = ρ := by
        rw [Function.update_eq_self_iff, hself, al.self]
      rw [hρ, Context.extend, Context.extend, if_pos hself, if_pos hself]
      exact al.type z hz
    · rw [objectType?_extend hself, objectType?_extend hself]
      by_cases hzw : z = w
      · rw [hzw, Function.update_self, Function.update_self, Function.update_self]
      · -- the new name of another name is neither of the two
        have hne : ρ z ≠ w := by
          rcases al.rename z with h | h
          · rwa [h]
          · rw [h]
            exact Ne.symm hw
        rw [Function.update_of_ne hzw, Function.update_of_ne hzw, Function.update_of_ne hne]
        exact al.type z hz

theorem push (al : Along cx ρ y s s') : Along cx ρ y s.push s'.push :=
  ⟨al.rename, al.self, al.fresh, al.type⟩

theorem eq_self_iff (al : Along cx ρ y s s') (hz : z ≠ y) :
    ρ z = cx.names .self ↔ z = cx.names .self := by
  constructor
  · intro h
    rcases al.rename z with hz' | hz'
    · rwa [hz'] at h
    · rw [hz'] at h
      exact absurd h al.fresh
  · rintro rfl
    exact al.self

theorem sameVariable (al : Along cx ρ y s s') (hz : z ≠ y) :
    SameVariable samePlaces cx cx Eq s s' z (ρ z) := by
  have hself := al.eq_self_iff hz
  constructor
  · intro line
    simp only [identifierType, hself, al.type z hz]
    split_ifs
    · exact samePlaces.refl _
    · split
      · exact samePlaces.refl _
      · exact samePlaces_fallBack
  · rintro line t _ rfl
    simp only [assignType, hself, al.type z hz]
    split_ifs
    · exact samePlaces.refl _
    · split
      · exact samePlaces_fallBack
      · split_ifs
        · exact samePlaces.refl _
        · exact samePlaces.bind samePlaces_note fun _ _ _ => samePlaces.refl _

theorem forall₂_parts (al : Along cx ρ y s s') {f : Form Expr} (hf : f.variable? = none)
    (hy : y ∉ f.variableNames) (line : Line) (type? : Option Symbol) :
    ∃ f', (Expr.node line type? f).renameFree ρ = .node line type? f' ∧ f.Alike f' ∧
      List.Forall₂ (fun c c' : Scope × Expr => c.2 ∈ f.children ∧
        ∃ ρ', c'.2 = c.2.renameFree ρ' ∧ Along cx ρ' y c.1 c'.1) (cx.parts s f) (cx.parts s' f') := by
  have hlist : ∀ es : List Expr, List.Forall₂ (fun _ _ => True) es (es.map (Expr.renameFree ρ)) :=
    fun es => List.forall₂_map_right_iff.mpr (List.forall₂_same.mpr fun _ _ => trivial)
  have hparts : ∀ es : List Expr, List.Forall₂ (fun c c' : Scope × Expr => c.2 ∈ es ∧
      ∃ ρ', c'.2 = c.2.renameFree ρ' ∧ Along cx ρ' y c.1 c'.1) (es.map (s, ·))
      ((es.map (Expr.renameFree ρ)).map (s', ·)) := by
    intro es
    rw [List.map_map, List.forall₂_map_left_iff, List.forall₂_map_right_iff, List.forall₂_same]
    exact fun e he => ⟨he, ρ, rfl, al⟩
  cases f with
  | assign | identifier => cases hf
  | dispatch receiver method args =>
    refine ⟨_, by rw [Expr.renameFree, Expr.renameFreeList_eq], .dispatch trivial (hlist args), ?_⟩
    exact hparts (receiver :: args)
  | staticDispatch receiver type method args =>
    refine ⟨_, by rw [Expr.renameFree, Expr.renameFreeList_eq], .staticDispatch trivial (hlist args), ?_⟩
    exact hparts (receiver :: args)
  | block body =>
    exact ⟨_, by rw [Expr.renameFree, Expr.renameFreeList_eq], .block (hlist body), hparts body⟩
  | case scrutinee branches =>
    refine ⟨_, by rw [Expr.renameFree, Expr.renameFreeBranches_eq], .case trivial ?_, ?_⟩
    · exact List.forall₂_map_right_iff.mpr (List.forall₂_same.mpr fun _ _ => ⟨trivial, rfl⟩)
    · refine .cons ⟨List.mem_cons_self, ρ, rfl, al⟩ ?_
      rw [List.map_map, List.forall₂_map_left_iff, List.forall₂_map_right_iff, List.forall₂_same]
      intro b hb
      have hne : b.name ≠ y := fun h => hy (h ▸ List.mem_map_of_mem hb)
      exact ⟨List.mem_cons_of_mem _ (List.mem_map_of_mem hb), _, rfl, al.extend hne _⟩
  | letIn name type init body =>
    have hne : name ≠ y := fun h => hy (h ▸ List.mem_cons_self)
    refine ⟨_, by rw [Expr.renameFree], .letIn trivial trivial, ?_⟩
    exact .cons ⟨by simp [Form.children], ρ, rfl, al⟩
      (.cons ⟨by simp [Form.children], _, rfl, al.extend hne _⟩ .nil)
  | cond pred yes no =>
    exact ⟨_, by rw [Expr.renameFree], .cond trivial trivial trivial, hparts [pred, yes, no]⟩
  | loop pred body => exact ⟨_, by rw [Expr.renameFree], .loop trivial trivial, hparts [pred, body]⟩
  | arith op lhs rhs => exact ⟨_, by rw [Expr.renameFree], .arith trivial trivial, hparts [lhs, rhs]⟩
  | compare op lhs rhs => exact ⟨_, by rw [Expr.renameFree], .compare trivial trivial, hparts [lhs, rhs]⟩
  | eq lhs rhs => exact ⟨_, by rw [Expr.renameFree], .eq trivial trivial, hparts [lhs, rhs]⟩
  | neg operand => exact ⟨_, by rw [Expr.renameFree], .neg trivial, hparts [operand]⟩
  | not operand => exact ⟨_, by rw [Expr.renameFree], .not trivial, hparts [operand]⟩
  | isVoid operand => exact ⟨_, by rw [Expr.renameFree], .isVoid trivial, hparts [operand]⟩
  | int | string | bool | new | absent => exact ⟨_, by rw [Expr.renameFree], .refl _, .nil⟩

end Along
end Context

namespace Expr

variable {cx : Context} {ρ : Symbol → Symbol} {y : Symbol} {s s' : Scope}

/-- Renamed along two scopes, an expression that does not use `y` is checked in the second as it was in
the first. -/
theorem samePlaces_renameFree (e : Expr) (al : cx.Along ρ y s s') (hy : y ∉ e.variableNames) :
    samePlaces.rel (Paired Eq SameTypes) (e.check cx s) ((e.renameFree ρ).check cx s') := by
  induction e using induct generalizing ρ s s' with
  | step e ih =>
    obtain ⟨line, type?, f⟩ := e
    rw [variableNames_eq, List.mem_append, not_or] at hy
    have hchild : ∀ c ∈ f.children, y ∉ c.variableNames := fun c hc h =>
      hy.2 (List.mem_flatMap.mpr ⟨c, hc, h⟩)
    cases hvar : f.variable? with
    | none =>
      obtain ⟨f', hf', halike, hparts⟩ := al.forall₂_parts hvar hy.1 line type?
      rw [hf']
      refine abreast_node (Context.concord_self samePlaces cx) congruent_sameTypes (fun h => h.1) halike
        (fun x hx => ?_) (fun _ _ => trivial) (fun _ _ => trivial) (hparts.imp ?_) line type? type?
      · rw [hvar] at hx
        cases hx
      · rintro ⟨inner, c⟩ ⟨inner', c'⟩ ⟨hc, ρ', rfl, al'⟩
        exact ih c hc al' (hchild c hc)
    | some z =>
      cases f with
      | assign name value =>
        have hz : name ≠ y := fun h => hy.1 (h ▸ List.mem_cons_self)
        rw [renameFree, check, check]
        refine samePlaces.bind (ih value (by simp [children, form, Form.children]) al
          (hchild value (by simp [Form.children]))) fun r r' hr => ?_
        refine samePlaces.bind ((al.sameVariable hz).assign hr.1) fun t t' ht => ?_
        refine samePlaces.pure ⟨ht, ?_⟩
        rw [ht]
        exact sameTypes_node (.cons hr.2 .nil)
      | identifier name =>
        have hz : name ≠ y := fun h => hy.1 (h ▸ List.mem_cons_self)
        rw [renameFree, check, check]
        refine samePlaces.bind (al.sameVariable hz).identifier fun t t' ht => ?_
        refine samePlaces.pure ⟨ht, ?_⟩
        rw [ht]
        exact sameTypes_node .nil
      | _ => cases hvar

/-- A branch beside one with the same type that its body is checked alike under, whatever the variable
is called. -/
def SameBranch (cx : Context) (s : Scope) (b b' : Branch Expr) : Prop :=
  b'.type = b.type ∧ b'.line = b.line ∧ (b'.name = cx.names .self ↔ b.name = cx.names .self) ∧
    samePlaces.rel (Paired Eq SameTypes) (b.body.check cx (cx.extend s b.name (cx.bound b.type)))
      (b'.body.check cx (cx.extend s b'.name (cx.bound b'.type)))

theorem sameBranch_refl (b : Branch Expr) : SameBranch cx s b b :=
  ⟨rfl, rfl, Iff.rfl, samePlaces.mono (samePlaces.refl _) fun _ _ h => h ▸ ⟨rfl, rfl, rfl⟩⟩

theorem samePlaces_checkBranches {bs bs' : List (Branch Expr)}
    (hbs : List.Forall₂ (SameBranch cx s) bs bs') (before : List Symbol) (t : Symbol) :
    samePlaces.rel (fun r r' => r.1 = r'.1 ∧
        List.Forall₂ SameTypes (r.2.map (·.body)) (r'.2.map (·.body)))
      (checkBranches cx s before t bs) (checkBranches cx s before t bs') := by
  induction hbs generalizing before t with
  | nil => exact samePlaces.pure ⟨rfl, .nil⟩
  | @cons b b' bs bs' hb _ ih =>
    obtain ⟨name, type, body, line⟩ := b
    obtain ⟨name', _, body', _⟩ := b'
    obtain ⟨rfl, rfl, hself, hbody⟩ := hb
    rw [checkBranches, checkBranches, Context.branchScope, Context.branchScope]
    simp only [bind_assoc, pure_bind, ne_eq, hself]
    refine samePlaces.bind (samePlaces.refl _) fun _ _ _ => ?_
    refine samePlaces.bind (samePlaces.refl _) fun _ _ _ => ?_
    refine samePlaces.bind (samePlaces.refl _) fun _ _ _ => ?_
    refine samePlaces.bind hbody fun r r' hr => ?_
    rw [hr.1]
    refine samePlaces.bind (samePlaces.refl _) fun j _ hj => ?_
    rw [← hj]
    exact samePlaces.bind (ih _ j) fun q q' hq => samePlaces.pure ⟨hq.1, .cons hr.2 hq.2⟩

end Expr

/-! Variables where they are bound: one by a `let` or a branch, and the formals of a method, all in one
level. -/

theorem Scope.lookup_eq (s : Scope) (z : Symbol) :
    s.lookup z = (s.probe z).or (s.enclosing.findSome? (·.get? z)) := by
  rw [lookup, levels, List.findSome?_cons, probe]
  cases s.innermost.get? z <;> rfl

def Formal.renameVariable (ρ : Symbol → Symbol) (f : Formal) : Formal := { f with name := ρ f.name }

def Method.renameFormals (ρ : Symbol → Symbol) (m : Method) : Method :=
  { m with formals := m.formals.map (Formal.renameVariable ρ), body := m.body.renameFree ρ }

theorem Formal.map_renameVariable {before after : List Formal} {x y T : Symbol} {line : Line}
    (hothers : ∀ f ∈ before ++ after, f.name ≠ x) :
    (before ++ ⟨x, T, line⟩ :: after).map (renameVariable (Function.update id x y)) =
      before ++ ⟨y, T, line⟩ :: after := by
  have hkeep : ∀ f ∈ before ++ after, renameVariable (Function.update id x y) f = f := by
    intro f hf
    rw [renameVariable, Function.update_of_ne (hothers f hf), id]
  rw [List.forall_mem_append] at hkeep
  rw [List.map_append, List.map_cons, List.map_congr_left hkeep.1, List.map_congr_left hkeep.2,
    List.map_id', List.map_id', renameVariable, Function.update_self]

namespace Context

variable {cx : Context} {x y z w : Symbol} {s s' : Scope}

/-- Scopes in the same levels whose own bindings are the same but for the name `y` in place of `x`. -/
structure Facing (x y : Symbol) (s s' : Scope) : Prop where
  enclosing : s'.enclosing = s.enclosing
  probe : ∀ z, (z = y → z = x) → s'.probe (Function.update id x y z) = s.probe z

theorem update_id_eq_iff (hz : z = y → z = x) (hw : w = y → w = x) :
    Function.update id x y z = Function.update id x y w ↔ z = w := by
  simp only [Function.update_apply, id]
  grind

theorem facing_push (x y : Symbol) (s : Scope) : Facing x y s.push s.push := ⟨rfl, fun _ _ => rfl⟩

namespace Facing

theorem define (hs : Facing x y s s') (hw : w = y → w = x) (t : Symbol) :
    Facing x y (s.define w t) (s'.define (Function.update id x y w) t) := by
  refine ⟨hs.enclosing, fun z hz => ?_⟩
  simp only [Scope.probe_define, update_id_eq_iff hz hw, hs.probe z hz]

theorem along (hs : Facing x y s s') (hx : x ≠ cx.names .self) (hy : y ≠ cx.names .self)
    (hbound : (s.probe x).isSome) : cx.Along (Function.update id x y) y s s' := by
  refine ⟨fun z => ?_, Function.update_of_ne (Ne.symm hx) _ _, hy, fun z hz => ?_⟩
  · by_cases hzx : z = x
    · exact Or.inr (by rw [hzx, Function.update_self])
    · exact Or.inl (Function.update_of_ne hzx _ _)
  · rw [objectType?, objectType?, Scope.objectType?, Scope.objectType?, Scope.lookup_eq,
      Scope.lookup_eq, hs.probe z fun h => absurd h hz, hs.enclosing]
    by_cases hzx : z = x
    · obtain ⟨t, ht⟩ := Option.isSome_iff_exists.mp hbound
      rw [hzx, ht]
      rfl
    · rw [Function.update_of_ne hzx, id]

end Facing

theorem along_extend (hx : x ≠ cx.names .self) (hy : y ≠ cx.names .self) (s : Scope) (t : Symbol) :
    cx.Along (Function.update id x y) y (cx.extend s x t) (cx.extend s y t) := by
  have hs := (facing_push x y s).define (w := x) (fun _ => rfl) t
  rw [Function.update_self] at hs
  rw [extend, extend, if_neg hx, if_neg hy]
  exact hs.along hx hy (by rw [Scope.probe_define, if_pos rfl]; rfl)

theorem samePlaces_bindFormals (hx : x ≠ cx.names .self) (hy : y ≠ cx.names .self)
    {fs : List Formal} (hfs : ∀ f ∈ fs, f.name = y → f.name = x) (hs : Facing x y s s')
    (hbound : (s.probe x).isSome ∨ x ∈ fs.map (·.name)) :
    samePlaces.rel (fun i i' => Facing x y i i' ∧ (i.probe x).isSome) (cx.bindFormals s fs)
      (cx.bindFormals s' (fs.map (Formal.renameVariable (Function.update id x y)))) := by
  induction fs generalizing s s' with
  | nil => exact samePlaces.pure ⟨hs, by simpa using hbound⟩
  | cons f fs ih =>
    rw [List.forall_mem_cons] at hfs
    obtain ⟨hf, hfs⟩ := hfs
    have hself : Function.update id x y f.name = cx.names .self ↔ f.name = cx.names .self := by
      simp only [Function.update_apply, id]
      grind
    rw [List.map_cons, List.mem_cons] at hbound
    rw [List.map_cons, bindFormals, bindFormals, Formal.renameVariable]
    simp only [hself, hs.probe _ hf]
    split_ifs with hname
    · have hne : x ≠ f.name := hname ▸ hx
      refine samePlaces.bind samePlaces_note fun _ _ _ => ih hfs hs ?_
      simpa [hne] using hbound
    · refine samePlaces.bind samePlaces_require fun _ _ _ => ?_
      refine samePlaces.bind samePlaces_expect fun t t' ht => ?_
      rw [← ht]
      refine ih hfs (hs.define hf t) ?_
      rw [Scope.probe_define]
      split_ifs with hxf
      · exact Or.inl rfl
      · simpa [hxf] using hbound

end Context

/-! The three kinds of binders. -/

namespace Report

variable {α : Type}

/-- Reports that note as many faults, each at the same place, and end with the same annotations if they
do not both break off at the same join. -/
def SameTyping (annotations : α → List (Option Symbol)) (r r' : Report α) : Prop :=
  r'.faults.map (·.place) = r.faults.map (·.place) ∧
    r'.outcome.map annotations = r.outcome.map annotations

theorem sameTyping_of_rel {annotations : α → List (Option Symbol)} {S : α → α → Prop}
    {r r' : Report α} (hr : samePlaces.rel S r r')
    (hS : ∀ a b, S a b → annotations b = annotations a) : SameTyping annotations r r' :=
  ⟨hr.1, hr.2.map_eq annotations annotations hS⟩

end Report

namespace Context

variable {cx : Context} {scope : Scope} {x y T : Symbol} {body : Expr}

theorem samePlaces_let (hx : x ≠ cx.names .self) (hy : y ≠ cx.names .self)
    (hfresh : y ∉ body.variableNames) (line : Line) (type? : Option Symbol) (init : Expr) :
    samePlaces.rel (Expr.Paired Eq Expr.SameTypes)
      ((Expr.node line type? (.letIn x T init body)).check cx scope)
      ((Expr.node line type? (.letIn y T init (body.renameFree (Function.update id x y)))).check cx
        scope) := by
  have hbody := body.samePlaces_renameFree (along_extend hx hy scope (cx.bound T)) hfresh
  rw [Expr.check, Expr.check, letType_eq, letType_eq]
  simp only [bind_assoc, pure_bind, ne_eq, hx, hy]
  refine samePlaces.bind samePlaces_require fun _ _ _ => ?_
  refine samePlaces.bind samePlaces_require fun _ _ _ => ?_
  refine samePlaces.bind (samePlaces.refl _) fun i _ hi => ?_
  rw [← hi]
  refine samePlaces.bind samePlaces_require fun _ _ _ => ?_
  refine samePlaces.bind hbody fun b b' hb => samePlaces.pure ⟨hb.1, ?_⟩
  rw [hb.1]
  exact Expr.sameTypes_node (.cons ⟨rfl, rfl⟩ (.cons hb.2 .nil))

theorem samePlaces_case (hx : x ≠ cx.names .self) (hy : y ≠ cx.names .self)
    (hfresh : y ∉ body.variableNames) (line : Line) (type? : Option Symbol) (scrutinee : Expr)
    (before after : List (Branch Expr)) (branchLine : Line) :
    samePlaces.rel (Expr.Paired Eq Expr.SameTypes)
      ((Expr.node line type? (.case scrutinee (before ++ ⟨x, T, body, branchLine⟩ :: after))).check cx
        scope)
      ((Expr.node line type? (.case scrutinee (before ++
        ⟨y, T, body.renameFree (Function.update id x y), branchLine⟩ :: after))).check cx scope) := by
  have hbody := body.samePlaces_renameFree (along_extend hx hy scope (cx.bound T)) hfresh
  have hsame : ∀ bs, List.Forall₂ (Expr.SameBranch cx scope) bs bs := fun bs =>
    List.forall₂_same.mpr fun b _ => Expr.sameBranch_refl b
  have hrenamed : Expr.SameBranch cx scope ⟨x, T, body, branchLine⟩
      ⟨y, T, body.renameFree (Function.update id x y), branchLine⟩ :=
    ⟨rfl, rfl, iff_of_false hy hx, hbody⟩
  have hbranches := List.rel_append (hsame before) (.cons hrenamed (hsame after))
  rw [Expr.check, Expr.check]
  refine samePlaces.bind (samePlaces.refl _) fun s _ hs => ?_
  rw [← hs]
  refine samePlaces.bind (Expr.samePlaces_checkBranches hbranches [] _) fun q q' hq => ?_
  refine samePlaces.pure ⟨hq.1, ?_⟩
  rw [hq.1]
  exact Expr.sameTypes_node (.cons ⟨rfl, rfl⟩ hq.2)

theorem checkOverride_renameFormals (m : Method) (ρ : Symbol → Symbol) :
    cx.checkOverride (m.renameFormals ρ) = cx.checkOverride m := by
  have hdeparture : (m.renameFormals ρ).departure? = m.departure? := by
    have htypes : (m.renameFormals ρ).formals.map (·.type) = m.formals.map (·.type) := by
      simp [Method.renameFormals, Formal.renameVariable, Function.comp_def]
    funext s
    rw [Method.departure?, Method.departure?, htypes, Method.renameFormals, List.length_map]
  rw [checkOverride, checkOverride, hdeparture]
  rfl

theorem samePlaces_method (hx : x ≠ cx.names .self) (hy : y ≠ cx.names .self) {m : Method}
    (hfresh : y ∉ m.body.variableNames) (hfs : ∀ f ∈ m.formals, f.name = y → f.name = x)
    (hbound : x ∈ m.formals.map (·.name)) :
    samePlaces.rel (fun m m' => Expr.SameTypes m.body m'.body) (cx.checkMethod scope m)
      (cx.checkMethod scope (m.renameFormals (Function.update id x y))) := by
  rw [checkMethod_eq, checkMethod_eq, checkOverride_renameFormals]
  refine samePlaces.bind (samePlaces.refl _) fun _ _ _ => ?_
  refine samePlaces.bind (samePlaces.refl _) fun declared _ hdeclared => ?_
  rw [← hdeclared]
  refine samePlaces.bind (samePlaces_bindFormals hx hy hfs (facing_push x y scope) (.inr hbound))
    fun inner inner' hinner => ?_
  refine samePlaces.bind (m.body.samePlaces_renameFree (hinner.1.along hx hy hinner.2).push hfresh)
    fun ⟨b, e⟩ ⟨_, e'⟩ ⟨hb, he⟩ => ?_
  obtain rfl : b = _ := hb
  exact samePlaces.bind (samePlaces.refl _) fun _ _ _ => samePlaces.pure he

end Context

/-- Variables may be renamed where they are bound. A `let`, a branch or a formal that binds `x` may bind
`y` instead, where neither is `self`, if the free occurrences of `x` in the body become `y` and `y` was
not used there, and, for a formal, if no other has either name. The annotations stay the same, and so do
the places of the faults. -/
theorem check_renameBound {cx : Context} {x y T : Symbol} {body : Expr} (hx : x ≠ cx.names .self)
    (hy : y ≠ cx.names .self) (hfresh : y ∉ body.variableNames) (scope : Scope) :
    (∀ line type? init, Report.SameTyping (·.2.annotations)
      ((Expr.node line type? (.letIn x T init body)).check cx scope)
      ((Expr.node line type? (.letIn y T init (body.renameFree (Function.update id x y)))).check cx
        scope)) ∧
    (∀ line type? scrutinee before after branchLine, Report.SameTyping (·.2.annotations)
      ((Expr.node line type? (.case scrutinee (before ++ ⟨x, T, body, branchLine⟩ :: after))).check cx
        scope)
      ((Expr.node line type? (.case scrutinee (before ++
        ⟨y, T, body.renameFree (Function.update id x y), branchLine⟩ :: after))).check cx scope)) ∧
    ∀ (m : Method) (before after : List Formal) (line : Line),
      (∀ f ∈ before ++ after, f.name ≠ x ∧ f.name ≠ y) → Report.SameTyping (·.body.annotations)
        (cx.checkMethod scope { m with formals := before ++ ⟨x, T, line⟩ :: after, body := body })
        (cx.checkMethod scope { m with
          formals := before ++ ⟨y, T, line⟩ :: after
          body := body.renameFree (Function.update id x y) }) := by
  refine ⟨fun line type? init => ?_, fun line type? scrutinee before after branchLine => ?_,
    fun m before after line hothers => ?_⟩
  · exact sameTyping_of_rel (Context.samePlaces_let hx hy hfresh line type? init) fun _ _ h => h.2.2
  · exact sameTyping_of_rel
      (Context.samePlaces_case hx hy hfresh line type? scrutinee before after branchLine)
      fun _ _ h => h.2.2
  · rw [← Formal.map_renameVariable (y := y) fun f hf => (hothers f hf).1]
    have hfs : ∀ f ∈ before ++ ⟨x, T, line⟩ :: after, f.name = y → f.name = x := by
      intro f hf
      simp only [List.mem_append, List.mem_cons] at hf hothers
      grind
    exact sameTyping_of_rel (Context.samePlaces_method (m := { m with
      formals := before ++ ⟨x, T, line⟩ :: after
      body := body }) hx hy hfresh hfs (by simp)) fun _ _ h => h.2

/-- `{ outer <- 3; let inner : Bool in not inner; }`. -/
def Expr.assignThenLet (names : Vocabulary) (outer inner : Symbol) : Expr :=
  plain 2 (.block [plain 2 (.assign outer (plain 2 (.int 3))),
    plain 3 (.letIn inner (names .bool) (absent 3) (plain 3 (.not (plain 3 (.identifier inner)))))])

/-- In `Main`, with an inherited attribute that has the new name: a `let` of a `String`, and a formal.
What the second `let` binds keeps its name. -/
theorem check_renameBound_attribute :
    ∃ cx : Context, cx.objectType? cx.classScope ⟨27⟩ = some (cx.names .int) ∧
      ((Expr.plain 1 (.letIn ⟨28⟩ (cx.names .string) (Expr.absent 1)
        (.assignThenLet cx.names ⟨28⟩ ⟨28⟩))).check cx cx.classScope).faults.length = 1 ∧
      Report.SameTyping (·.2.annotations)
        ((Expr.plain 1 (.letIn ⟨28⟩ (cx.names .string) (Expr.absent 1)
          (.assignThenLet cx.names ⟨28⟩ ⟨28⟩))).check cx cx.classScope)
        ((Expr.plain 1 (.letIn ⟨27⟩ (cx.names .string) (Expr.absent 1)
          (.assignThenLet cx.names ⟨27⟩ ⟨28⟩))).check cx cx.classScope) ∧
      Report.SameTyping (·.body.annotations)
        (cx.checkMethod cx.classScope ⟨⟨29⟩, [⟨⟨30⟩, cx.names .int, 1⟩, ⟨⟨28⟩, cx.names .string, 1⟩],
          cx.names .bool, .assignThenLet cx.names ⟨28⟩ ⟨28⟩, 1⟩)
        (cx.checkMethod cx.classScope ⟨⟨29⟩, [⟨⟨30⟩, cx.names .int, 1⟩, ⟨⟨27⟩, cx.names .string, 1⟩],
          cx.names .bool, .assignThenLet cx.names ⟨27⟩ ⟨28⟩, 1⟩) := by
  let cx : Context := (ClassDecl.mainUnder .initial ⟨26⟩).context
    (Hierarchy.build .initial (.mainAndParent .initial)).hierarchy
  obtain ⟨hlet, -, hmethod⟩ := @check_renameBound cx ⟨28⟩ ⟨27⟩ (cx.names .string)
    (.assignThenLet cx.names ⟨28⟩ ⟨28⟩) (by decide) (by decide) (by decide) cx.classScope
  exact ⟨cx, by decide, by decide, hlet 1 none (Expr.absent 1),
    hmethod ⟨⟨29⟩, [], cx.names .bool, Expr.absent 1, 1⟩ [⟨⟨30⟩, cx.names .int, 1⟩] [] 1 (by decide)⟩

end CoolStatics
