import CoolStatics.Proofs.Inversion

/-!
Parts of an expression. Each part stands in a scope of its own, made on the way down by the variables
that are bound there. Checked to its end, an expression has its parts checked each in that scope,
whatever is wrong around them: a part comes out as it would alone, what it notes alone is one block of
what the whole notes, and the blocks of parts beside each other stand in the order of the walk.
-/
namespace CoolStatics

open Report

/-- The block stands in the list after so many of its members. -/
def BlockAt {α : Type} (block : List α) (start : Nat) (whole : List α) : Prop :=
  ∃ before after, whole = before ++ block ++ after ∧ before.length = start

namespace BlockAt

variable {α : Type} {block whole : List α} {start : Nat}

theorem self (whole : List α) : BlockAt whole 0 whole := ⟨[], [], by simp, rfl⟩

theorem le_length (hb : BlockAt block start whole) : start + block.length ≤ whole.length := by
  obtain ⟨before, after, rfl, rfl⟩ := hb
  simp

theorem append_right (hb : BlockAt block start whole) (more : List α) :
    BlockAt block start (whole ++ more) := by
  obtain ⟨before, after, rfl, rfl⟩ := hb
  exact ⟨before, after ++ more, by simp, rfl⟩

theorem append_left (hb : BlockAt block start whole) (more : List α) :
    BlockAt block (more.length + start) (more ++ whole) := by
  obtain ⟨before, after, rfl, rfl⟩ := hb
  exact ⟨more ++ before, after, by simp, by simp⟩

end BlockAt

namespace Expr

variable {cx : Context} {scope : Scope} {e e₁ : Expr} {t : Symbol} {fs : List Fault}

/-- Every node of the expression, in the order of its walk, beside the scope that it stands in. -/
def walkIn (cx : Context) (scope : Scope) (e : Expr) : List (Scope × Expr) :=
  (scope, e) :: (cx.parts scope e.form).attach.flatMap fun c => walkIn cx c.1.1 c.1.2
termination_by sizeOf e
decreasing_by
  exact sizeOf_lt_of_mem_children (Context.mem_children_of_mem_parts c.2)

theorem walkIn_node (cx : Context) (scope : Scope) (line : Line) (type? : Option Symbol)
    (f : Form Expr) : (node line type? f).walkIn cx scope =
      (scope, node line type? f) :: (cx.parts scope f).flatMap fun c => c.2.walkIn cx c.1 := by
  rw [walkIn, form]
  conv_rhs => rw [← List.attach_map_subtype_val (cx.parts scope f), List.flatMap_map]

theorem map_snd_walkIn (cx : Context) (scope : Scope) (e : Expr) :
    (e.walkIn cx scope).map Prod.snd = e.walk := by
  induction e using induct generalizing scope with
  | step e ih =>
    obtain ⟨line, type?, f⟩ := e
    rw [walkIn_node, walk_eq, List.map_cons, List.map_flatMap, children, form,
      ← cx.map_snd_parts scope f, List.flatMap_map]
    exact congrArg _ (List.flatMap_congr fun c hc => ih c.2 (Context.mem_children_of_mem_parts hc) c.1)

/-- Each of the nodes has come, alone in its scope, to what stands in its place in `outs`. What it has
noted is a block of `fs`, and the nodes that come after all of its own have their blocks after it. -/
structure LaidOut (cx : Context) (nodes : List (Scope × Expr)) (outs : List Expr) (fs : List Fault)
    (start : Nat → Nat) : Prop where
  length : outs.length = nodes.length
  node : ∀ i inner s, nodes[i]? = some (inner, s) →
    ∃ u s₁ gs, (s.check cx inner).Leaves gs (u, s₁) ∧ outs[i]? = some s₁ ∧ BlockAt gs (start i) fs ∧
      ∀ j, i + s.walk.length ≤ j → j < nodes.length → start i + gs.length ≤ start j

namespace LaidOut

variable {nodes nodes' : List (Scope × Expr)} {outs outs' : List Expr} {fs' : List Fault}
  {start start' : Nat → Nat}

theorem nil (fs : List Fault) (start : Nat → Nat) : LaidOut cx [] [] fs start := by
  refine ⟨rfl, fun i inner s hi => ?_⟩
  cases hi

theorem append (hl : LaidOut cx nodes outs fs start) (hl' : LaidOut cx nodes' outs' fs' start') :
    LaidOut cx (nodes ++ nodes') (outs ++ outs') (fs ++ fs')
      fun i => if i < nodes.length then start i else fs.length + start' (i - nodes.length) := by
  refine ⟨by rw [List.length_append, List.length_append, hl.length, hl'.length],
    fun i inner s hi => ?_⟩
  by_cases hlt : i < nodes.length
  · rw [List.getElem?_append_left hlt] at hi
    obtain ⟨u, s₁, gs, hcheck, hout, hblock, hafter⟩ := hl.node i inner s hi
    rw [if_pos hlt]
    refine ⟨u, s₁, gs, hcheck, ?_, hblock.append_right fs', fun j hij _ => ?_⟩
    · rw [List.getElem?_append_left (hl.length ▸ hlt), hout]
    · have hle := hblock.le_length
      split_ifs with hj
      · exact hafter j hij hj
      · omega
  · rw [List.getElem?_append_right (by omega)] at hi
    obtain ⟨u, s₁, gs, hcheck, hout, hblock, hafter⟩ := hl'.node _ inner s hi
    have hlen := hl.length
    rw [if_neg hlt]
    refine ⟨u, s₁, gs, hcheck, ?_, hblock.append_left fs, fun j hij hj => ?_⟩
    · rw [List.getElem?_append_right (by omega), hlen, hout]
    · rw [List.length_append] at hj
      have hj' := hafter (j - nodes.length) (by omega) (by omega)
      rw [if_neg (by omega)]
      omega

theorem gap (hl : LaidOut cx nodes outs fs start) (gs : List Fault) :
    LaidOut cx nodes outs (gs ++ fs) fun i => gs.length + start i := by
  have hnil : LaidOut cx [] [] gs fun _ => 0 := nil gs _
  have happ := hnil.append hl
  simpa using happ

theorem cons (hl : LaidOut cx nodes outs fs start) (hcheck : (e.check cx scope).Leaves fs (t, e₁))
    (hlen : e.walk.length = nodes.length + 1) :
    LaidOut cx ((scope, e) :: nodes) (e₁ :: outs) fs fun i => if i = 0 then 0 else start (i - 1) := by
  refine ⟨congrArg (· + 1) hl.length, fun i inner s hi => ?_⟩
  cases i with
  | zero =>
    obtain ⟨rfl, rfl⟩ := Prod.mk.inj (Option.some.inj hi)
    refine ⟨t, e₁, fs, hcheck, rfl, .self fs, fun j hij hj => ?_⟩
    rw [List.length_cons] at hj
    omega
  | succ i =>
    obtain ⟨u, s₁, gs, hs, hout, hblock, hafter⟩ := hl.node i inner s hi
    refine ⟨u, s₁, gs, hs, hout, hblock, fun j hij hj => ?_⟩
    rw [List.length_cons] at hj
    have hj' := hafter (j - 1) (by omega) (by omega)
    have hj0 : j ≠ 0 := by omega
    simpa [hj0] using hj'

end LaidOut

theorem exists_laidOut_of_spaced {P : Fault → Prop} {blocks : List (List Fault)}
    (hspaced : Spaced P blocks fs) {parts : List (Scope × Expr)} {outs : List (List Fault × Expr)}
    (hblocks : outs.map (·.1) = blocks)
    (houts : List.Forall₂ (fun c o => ∃ start, LaidOut cx (c.2.walkIn cx c.1) o.2.walk o.1 start)
      parts outs) :
    ∃ start, LaidOut cx (parts.flatMap fun c => c.2.walkIn cx c.1) (outs.flatMap (·.2.walk)) fs start := by
  induction hspaced generalizing parts outs with
  | nil =>
    obtain rfl := List.map_eq_nil_iff.mp hblocks
    obtain rfl := List.forall₂_nil_right_iff.mp houts
    exact ⟨fun _ => 0, .nil _ _⟩
  | block _ ih =>
    cases houts with
    | nil => cases hblocks
    | cons ho houts =>
      rw [List.map_cons, List.cons.injEq] at hblocks
      obtain ⟨rfl, hblocks⟩ := hblocks
      obtain ⟨start, hl⟩ := ho
      obtain ⟨start', hl'⟩ := ih hblocks houts
      exact ⟨_, hl.append hl'⟩
  | gap _ _ ih =>
    obtain ⟨start, hl⟩ := ih hblocks houts
    exact ⟨_, hl.gap _⟩

/-- A check that comes to its end lays out what all the nodes note. -/
theorem exists_laidOut (hl : (e.check cx scope).Leaves fs (t, e₁)) :
    ∃ start, LaidOut cx (e.walkIn cx scope) e₁.walk fs start := by
  induction e using induct generalizing scope t e₁ fs with
  | step e ih =>
    obtain ⟨line, type?, f⟩ := e
    obtain ⟨f₁, outs, rfl, -, houts, hchildren, hspaced⟩ := leaves_node hl
    have hparts : List.Forall₂ (fun c o => ∃ start, LaidOut cx (c.2.walkIn cx c.1) o.2.walk o.1 start)
        (cx.parts scope f) outs := by
      refine forall₂_trans houts (List.forall₂_same.mpr fun _ _ => rfl) ?_
      rintro c hc o _ ⟨u, hu⟩ rfl
      exact ih c.2 (Context.mem_children_of_mem_parts hc) hu
    obtain ⟨start, hlaid⟩ := exists_laidOut_of_spaced hspaced rfl hparts
    have hlen : (node line type? f).walk.length =
        ((cx.parts scope f).flatMap fun c => c.2.walkIn cx c.1).length + 1 := by
      rw [← map_snd_walkIn cx scope, List.length_map, walkIn_node, List.length_cons]
    have hwalk : (node line (some t) f₁).walk = node line (some t) f₁ :: outs.flatMap (·.2.walk) := by
      rw [walk_eq, children, form, hchildren, List.flatMap_map]
    rw [walkIn_node, hwalk]
    exact ⟨_, hlaid.cons hl hlen⟩

/-- An expression that is checked to its end has every part checked so in the scope of that part. The
part comes out as it does alone, and what it notes alone is a block of what the whole notes; the block of
a part ends before those of the parts that the walk comes to after it. -/
theorem check_contains_parts (hok : (e.check cx scope).outcome = .ok (t, e₁)) :
    (e.walkIn cx scope).map Prod.snd = e.walk ∧
      ∃ start : Nat → Nat, ∀ i inner s, (e.walkIn cx scope)[i]? = some (inner, s) →
        (∃ u s₁, (s.check cx inner).outcome = .ok (u, s₁) ∧ e₁.walk[i]? = some s₁) ∧
        BlockAt (s.check cx inner).faults (start i) (e.check cx scope).faults ∧
        ∀ j, i + s.walk.length ≤ j → j < e.walk.length →
          start i + (s.check cx inner).faults.length ≤ start j := by
  obtain ⟨start, hlaid⟩ := exists_laidOut (leaves_of_ok hok)
  have hwalk := map_snd_walkIn cx scope e
  refine ⟨hwalk, start, fun i inner s hi => ?_⟩
  obtain ⟨u, s₁, gs, hs, hout, hblock, hafter⟩ := hlaid.node i inner s hi
  rw [hs]
  refine ⟨⟨u, s₁, rfl, hout⟩, hblock, fun j hij hj => hafter j hij ?_⟩
  rwa [← hwalk, List.length_map] at hj

/-- `let self : A <- b in not 3`, where there is no `A` or `b`. -/
def faultyLet (names : Vocabulary) : Expr :=
  plain 2 (.letIn (names .self) ⟨26⟩ (plain 2 (.identifier ⟨27⟩)) (plain 3 (.not (plain 3 (.int 3)))))

/-- A call of `out_int` with two arguments. -/
def faultyCall (names : Vocabulary) : Expr :=
  plain 1 (.dispatch (plain 1 (.identifier (names .self))) (names .outInt)
    [faultyLet names, plain 4 (.identifier ⟨28⟩)])

/-- Inside `IO` the call is refused, and what its arguments note stands before that, in their order. -/
theorem check_contains_parts_faultyCall :
    ∃ cx scope t e₁, ((faultyCall .initial).check cx scope).outcome = .ok (t, e₁) ∧
      ((faultyCall .initial).check cx scope).faults.length = 6 ∧
      ((faultyLet .initial).check cx scope).faults.length = 4 ∧
      ∃ first second,
        BlockAt ((faultyLet .initial).check cx scope).faults first
          ((faultyCall .initial).check cx scope).faults ∧
        BlockAt ((plain 4 (.identifier ⟨28⟩)).check cx scope).faults second
          ((faultyCall .initial).check cx scope).faults ∧ first + 4 ≤ second := by
  let cx : Context := ⟨.basic .initial, Vocabulary.initial .io, "a.cl"⟩
  have hok : ∃ t e₁, ((faultyCall .initial).check cx cx.classScope).outcome = .ok (t, e₁) := ⟨_, _, rfl⟩
  have hfour : ((faultyLet .initial).check cx cx.classScope).faults.length = 4 := by decide
  have hlet : ((faultyCall .initial).walkIn cx cx.classScope)[2]? =
      some (cx.classScope, faultyLet .initial) := by
    simp [faultyCall, faultyLet, plain, Context.parts, Form.children, walkIn_node]
  have hlast : ((faultyCall .initial).walkIn cx cx.classScope)[6]? =
      some (cx.classScope, plain 4 (.identifier ⟨28⟩)) := by
    simp [faultyCall, faultyLet, plain, Context.parts, Form.children, walkIn_node]
  obtain ⟨t, e₁, hok⟩ := hok
  obtain ⟨-, start, hparts⟩ := check_contains_parts hok
  obtain ⟨-, hblock, hafter⟩ := hparts 2 _ _ hlet
  obtain ⟨-, hblock', -⟩ := hparts 6 _ _ hlast
  refine ⟨cx, cx.classScope, t, e₁, hok, by decide, hfour, start 2, start 6, hblock, hblock', ?_⟩
  rw [← hfour]
  exact hafter 6 (by decide) (by decide)

end Expr
end CoolStatics
