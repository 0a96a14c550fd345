import CoolStatics.Proofs.Completion
import CoolStatics.Proofs.Judgment
import CoolStatics.Proofs.Members

/-!
Checking against the rules. In a program in order whose classes are clear of the sentinels, an
expression is checked without a fault exactly if the rules give it a type, and the type is the same.
-/
namespace CoolStatics

namespace Hierarchy

variable {h : Hierarchy} {current s t u j : Symbol} {ts : List Symbol}

/-- The variables of an environment have types that may be declared. -/
def KnownEnv (h : Hierarchy) (Γ : Env) : Prop := ∀ x t, Γ x = some t → h.Known t

theorem KnownEnv.update {Γ : Env} (hΓ : h.KnownEnv Γ) (ht : h.Known t) (x : Symbol) :
    h.KnownEnv (Function.update Γ x (some t)) := by
  intro y u hy
  by_cases hxy : y = x
  · rw [hxy, Function.update_self] at hy
    rwa [← Option.some.inj hy]
  · rw [Function.update_of_ne hxy] at hy
    exact hΓ y u hy

theorem isLub_singleton_iff (od : h.Ordered) (hc : h.has current = true) :
    h.IsLub current [s] u ↔ s = u := by
  have hs : h.IsLub current [s] s := ⟨by simp [sub_refl], fun v hv => hv s (by simp)⟩
  constructor
  · exact od.isLub_unique hc hs
  · rintro rfl
    exact hs

theorem isLub_cons_iff (od : h.Ordered) (hc : h.has current = true)
    (hj : h.IsLub current [s, t] j) :
    h.IsLub current (j :: ts) u ↔ h.IsLub current (s :: t :: ts) u := by
  by_cases hne : j = h.names .noType
  · have hs := od.eq_noType_of_sub hc (hne ▸ hj.upper s (by simp))
    have ht := od.eq_noType_of_sub hc (hne ▸ hj.upper t (by simp))
    rw [hne, hs, ht, isLub_noType_cons_iff, isLub_noType_cons_iff, isLub_noType_cons_iff]
  · exact isLub_cons_iff_of_ne hj hne

end Hierarchy

theorem Report.Ends.of_gives {α : Type} {r : Report α} {P : α → Prop} {a : α} (he : r.Ends P)
    (hg : r.Gives a) : P a := by
  obtain ⟨b, hb, hP⟩ := he
  rw [(gives_iff.mp hg).2] at hb
  rwa [Except.ok.inj hb]

namespace Context

open Report

variable {cx : Context} {scope : Scope} {line : Line}
  {name type method owner receiver result s t u : Symbol} {args declared : List Symbol}

theorem taken_of_known (ht : cx.hierarchy.Known t) : cx.taken t = t := by
  rw [taken, isKnown_iff.mpr ht, Bool.true_or, if_pos rfl]

theorem objectType?_extend (hn : name ≠ cx.names .self) :
    cx.objectType? (cx.extend scope name type) =
      Function.update (cx.objectType? scope) name (some type) := by
  funext x
  by_cases hx : x = name
  · rw [hx, Function.update_self]
    simp [objectType?, Scope.objectType?, extend, hn]
  · rw [Function.update_of_ne hx]
    simp [objectType?, Scope.objectType?, extend, hn, hx]

theorem returns_iff :
    cx.Returns receiver result t ↔
      cx.hierarchy.Known result ∧ cx.hierarchy.returned receiver result = t := by
  rw [Returns, Hierarchy.returned, Hierarchy.Known, names]
  by_cases hs : result = cx.hierarchy.names .selfType
  · simp [hs]
  · simp [hs]

namespace Rooted

theorem conforms_iff_sub (hr : cx.Rooted) (od : cx.hierarchy.Ordered) :
    cx.conforms t s = true ↔ cx.hierarchy.Sub cx.current s t :=
  Hierarchy.conforms_iff od.acyclic (od.ne_noType hr.current)

theorem accepts_iff_sub (hr : cx.Rooted) (od : cx.hierarchy.Ordered) :
    cx.Accepts declared args ↔ List.Forall₂ (cx.hierarchy.Sub cx.current) args declared := by
  simp only [Accepts, hr.conforms_iff_sub od]
  exact ⟨List.Forall₂.flip, List.Forall₂.flip⟩

theorem gives_join_iff (hr : cx.Rooted) (od : cx.hierarchy.Ordered) (hs : cx.IsType s)
    (ht : cx.IsType t) : (cx.join s t).Gives u ↔ cx.hierarchy.IsLub cx.current [s, t] u := by
  rw [gives_join]
  constructor
  · exact Hierarchy.isLub_of_join od.acyclic od.selfType
  · intro hu
    -- the two types have a join, and there is only one least bound
    obtain ⟨j, hj⟩ := Hierarchy.exists_join hr.acyclic hr.object hr.reaches
      (hs.has_denoted hr.current) (ht.has_denoted hr.current)
    have hlub := Hierarchy.isLub_of_join od.acyclic od.selfType hj
    rw [hj, od.isLub_unique hr.current hlub hu]

theorem call_iff (hr : cx.Rooted) (od : cx.hierarchy.Ordered) :
    cx.hierarchy.Call cx.current owner method receiver args t ↔
      cx.hierarchy.has owner = true ∧ ∃ sig, cx.hierarchy.findMethod? owner method = some sig ∧
        cx.Accepts sig.types args ∧ cx.Returns receiver sig.result t := by
  simp only [Hierarchy.findMethod?_eq_some_iff od.acyclic, hr.accepts_iff_sub od, returns_iff]
  exact ⟨fun hc => ⟨hc.1, hc.2⟩, fun hc => ⟨hc.1, hc.2⟩⟩

theorem gives_dispatchType_iff (hr : cx.Rooted) (od : cx.hierarchy.Ordered) :
    (cx.dispatchType line method receiver args).Gives t ↔
      cx.hierarchy.Call cx.current (cx.hierarchy.denoted cx.current receiver) method receiver
        args t := by
  rw [gives_dispatchType, hr.call_iff od]

theorem gives_staticDispatchType_iff (hr : cx.Rooted) (od : cx.hierarchy.Ordered) :
    (cx.staticDispatchType line owner method receiver args).Gives t ↔
      owner ≠ cx.names .selfType ∧ cx.hierarchy.Sub cx.current receiver owner ∧
        cx.hierarchy.Call cx.current owner method receiver args t := by
  rw [gives_staticDispatchType, hr.call_iff od, hr.conforms_iff_sub od]
  tauto

end Rooted
end Context

namespace Expr

open Report Context

variable {cx : Context} {scope : Scope} {Γ : Env} {t u : Symbol}

def Accepted (cx : Context) (scope : Scope) (e : Expr) (t : Symbol) : Prop :=
  ∃ e', (e.check cx scope).Gives (t, e')

/-- Checking and the rules agree on an expression, in every environment of known types. -/
def Agrees (cx : Context) (e : Expr) : Prop :=
  ∀ scope, cx.hierarchy.KnownEnv (cx.objectType? scope) → ∀ t,
    e.Accepted cx scope t ↔ HasType cx.hierarchy cx.current (cx.objectType? scope) e t

theorem Accepted.isType (hr : cx.Rooted) {e : Expr} (ha : e.Accepted cx scope t) : cx.IsType t := by
  obtain ⟨e', he⟩ := ha
  exact (completes hr e scope).of_gives he

theorem Agrees.extend {e : Expr} (he : e.Agrees cx)
    (hΓ : cx.hierarchy.KnownEnv (cx.objectType? scope)) {name type : Symbol}
    (hn : name ≠ cx.names .self) (hk : cx.hierarchy.Known type) :
    e.Accepted cx (cx.extend scope name type) t ↔
      HasType cx.hierarchy cx.current
        (Function.update (cx.objectType? scope) name (some type)) e t := by
  rw [← objectType?_extend hn]
  refine he _ ?_ t
  rw [objectType?_extend hn]
  exact hΓ.update hk name

theorem accepted_checkList_iff {es : List Expr} (hes : ∀ e ∈ es, e.Agrees cx)
    (hΓ : cx.hierarchy.KnownEnv (cx.objectType? scope)) {ts : List Symbol} :
    (∃ rs, (checkList cx scope es).Gives rs ∧ rs.map (·.1) = ts) ↔
      HasTypes cx.hierarchy cx.current (cx.objectType? scope) es ts := by
  induction es generalizing ts with
  | nil =>
    constructor
    · rintro ⟨rs, hrs, rfl⟩
      rw [checkList, gives_pure] at hrs
      rw [← hrs]
      exact .nil
    · rintro ⟨⟩
      exact ⟨[], rfl, rfl⟩
  | cons e es ih =>
    rw [List.forall_mem_cons] at hes
    have hfirst := hes.1 scope hΓ
    simp only [checkList, gives_bind, gives_pure]
    constructor
    · rintro ⟨_, ⟨⟨t, e'⟩, he, others, ho, rfl⟩, rfl⟩
      exact .cons ((hfirst t).mp ⟨e', he⟩) ((ih hes.2).mp ⟨others, ho, rfl⟩)
    · rintro (_ | ⟨he, ho⟩)
      obtain ⟨e', he'⟩ := (hfirst _).mpr he
      obtain ⟨others, ho', rfl⟩ := (ih hes.2).mpr ho
      exact ⟨_, ⟨_, he', others, ho', rfl⟩, rfl⟩

/-- Branches are checked with the types of those before them and with the join of what these
contribute. -/
theorem accepted_checkBranches_iff (hr : cx.Rooted) (od : cx.hierarchy.Ordered)
    {bs : List (Branch Expr)} (hbs : ∀ b ∈ bs, b.body.Agrees cx)
    (hΓ : cx.hierarchy.KnownEnv (cx.objectType? scope)) (before : List Symbol) {soFar : Symbol}
    (hs : cx.IsType soFar) :
    (∃ bs', (checkBranches cx scope before soFar bs).Gives (u, bs')) ↔
      (∀ b ∈ bs, b.type ∉ before) ∧ (bs.map (·.type)).Nodup ∧
        ∃ ts, HasBranches cx.hierarchy cx.current (cx.objectType? scope) bs ts ∧
          cx.hierarchy.IsLub cx.current (soFar :: ts) u := by
  induction bs generalizing before soFar with
  | nil =>
    simp only [checkBranches, gives_pure, Prod.mk.injEq, exists_and_left, exists_eq', and_true]
    constructor
    · rintro rfl
      exact ⟨by simp, by simp, [], .nil, (Hierarchy.isLub_singleton_iff od hr.current).mpr rfl⟩
    · rintro ⟨-, -, ts, ⟨⟩, hu⟩
      exact (Hierarchy.isLub_singleton_iff od hr.current).mp hu
  | cons b bs ih =>
    obtain ⟨name, type, body, line⟩ := b
    rw [List.forall_mem_cons] at hbs
    simp only [checkBranches, gives_bind, gives_pure, gives_branchScope]
    constructor
    · rintro ⟨bs', _, ⟨⟨hb, hk, hn⟩, rfl⟩, ⟨t, body'⟩, ht, j, hj, ⟨_, others⟩, ho, hall⟩
      obtain ⟨rfl, -⟩ := Prod.mk.inj hall
      have hknown := isKnown_iff.mp hk
      have hbody : body.Accepted cx _ t := ⟨body', ht⟩
      have htype := hbody.isType hr
      rw [branchType, if_pos hk] at hj
      have hjtype := (hr.ends_join hs htype).of_gives hj
      obtain ⟨hbefore, hnodup, ts, hts, hu⟩ := (ih hbs.2 _ hjtype).mp ⟨others, ho⟩
      refine ⟨?_, ?_, t :: ts, .cons hn hknown ((hbs.1.extend hΓ hn hknown).mp hbody) hts, ?_⟩
      · rw [List.forall_mem_cons]
        exact ⟨hb, fun b hm => fun hin => hbefore b hm (List.mem_cons_of_mem _ hin)⟩
      · refine List.nodup_cons.mpr ⟨?_, hnodup⟩
        rintro hm
        obtain ⟨b, hm, heq⟩ := List.mem_map.mp hm
        exact hbefore b hm (List.mem_cons.mpr (Or.inl heq))
      · rwa [← Hierarchy.isLub_cons_iff od hr.current ((hr.gives_join_iff od hs htype).mp hj)]
    · rintro ⟨hbefore, hnodup, _, _ | ⟨hn, hknown, ht, hts⟩, hu⟩
      obtain ⟨body', ht'⟩ := (hbs.1.extend hΓ hn hknown).mpr ht
      have hk := isKnown_iff.mpr hknown
      have htype := (completes hr body _).of_gives ht'
      obtain ⟨j, hj, hjtype⟩ := hr.ends_join hs htype
      have hlub := (hr.gives_join_iff od hs htype).mp (gives_iff.mpr ⟨rfl, hj⟩)
      rw [List.map_cons, List.nodup_cons] at hnodup
      rw [List.forall_mem_cons] at hbefore
      have hbefore' : ∀ b ∈ bs, b.type ∉ type :: before := by
        intro b hm hin
        rcases List.mem_cons.mp hin with heq | hin
        · exact hnodup.1 (List.mem_map.mpr ⟨b, hm, heq⟩)
        · exact hbefore.2 b hm hin
      obtain ⟨others, ho⟩ := (ih hbs.2 _ hjtype).mpr ⟨hbefore', hnodup.2, _, hts,
        (Hierarchy.isLub_cons_iff od hr.current hlub).mpr hu⟩
      refine ⟨_, _, ⟨⟨hbefore.1, hk, hn⟩, rfl⟩, _, ht', j, ?_, _, ho, rfl⟩
      rw [branchType, if_pos hk]
      exact gives_iff.mpr ⟨rfl, hj⟩

/-! Forms that are typed from the types of their operands, whatever the rule makes of these. -/

section Operands

variable {line : Line} {e e' : Expr} {es : List Expr}

theorem accepted_unary_iff (he : e.Agrees cx) (hΓ : cx.hierarchy.KnownEnv (cx.objectType? scope))
    (rule : Symbol → Report Symbol) (form : Expr → Form Expr) :
    (∃ x, (do
      let r ← e.check cx scope
      let type ← rule r.1
      pure (typed line type (form r.2)) : Report (Symbol × Expr)).Gives (t, x)) ↔
      ∃ s, HasType cx.hierarchy cx.current (cx.objectType? scope) e s ∧ (rule s).Gives t := by
  simp only [gives_bind, gives_pure, typed, Prod.mk.injEq]
  constructor
  · rintro ⟨_, r, hr, _, hrule, rfl, -⟩
    exact ⟨r.1, (he scope hΓ r.1).mp ⟨r.2, hr⟩, hrule⟩
  · rintro ⟨s, hs, hrule⟩
    obtain ⟨e₁, hr⟩ := (he scope hΓ s).mpr hs
    exact ⟨_, (s, e₁), hr, t, hrule, rfl, rfl⟩

theorem accepted_binary_iff (hl : e.Agrees cx) (hr : e'.Agrees cx)
    (hΓ : cx.hierarchy.KnownEnv (cx.objectType? scope)) (rule : Symbol → Symbol → Report Symbol)
    (form : Expr → Expr → Form Expr) :
    (∃ x, (do
      let l ← e.check cx scope
      let r ← e'.check cx scope
      let type ← rule l.1 r.1
      pure (typed line type (form l.2 r.2)) : Report (Symbol × Expr)).Gives (t, x)) ↔
      ∃ s u, HasType cx.hierarchy cx.current (cx.objectType? scope) e s ∧
        HasType cx.hierarchy cx.current (cx.objectType? scope) e' u ∧ (rule s u).Gives t := by
  simp only [gives_bind, gives_pure, typed, Prod.mk.injEq]
  constructor
  · rintro ⟨_, l, hl', r, hr', _, hrule, rfl, -⟩
    exact ⟨l.1, r.1, (hl scope hΓ l.1).mp ⟨l.2, hl'⟩, (hr scope hΓ r.1).mp ⟨r.2, hr'⟩, hrule⟩
  · rintro ⟨s, u, hs, hu, hrule⟩
    obtain ⟨lhs, hl'⟩ := (hl scope hΓ s).mpr hs
    obtain ⟨rhs, hr'⟩ := (hr scope hΓ u).mpr hu
    exact ⟨_, (s, lhs), hl', (u, rhs), hr', t, hrule, rfl, rfl⟩

theorem accepted_call_iff (hrec : e.Agrees cx) (hargs : ∀ a ∈ es, a.Agrees cx)
    (hΓ : cx.hierarchy.KnownEnv (cx.objectType? scope))
    (rule : Symbol → List Symbol → Report Symbol) (form : Expr → List Expr → Form Expr) :
    (∃ x, (do
      let r ← e.check cx scope
      let rs ← checkList cx scope es
      let type ← rule r.1 (rs.map (·.1))
      pure (typed line type (form r.2 (rs.map (·.2)))) : Report (Symbol × Expr)).Gives (t, x)) ↔
      ∃ s ts, HasType cx.hierarchy cx.current (cx.objectType? scope) e s ∧
        HasTypes cx.hierarchy cx.current (cx.objectType? scope) es ts ∧ (rule s ts).Gives t := by
  simp only [gives_bind, gives_pure, typed, Prod.mk.injEq]
  constructor
  · rintro ⟨_, r, hr, rs, hrs, _, hrule, rfl, -⟩
    exact ⟨r.1, _, (hrec scope hΓ r.1).mp ⟨r.2, hr⟩,
      (accepted_checkList_iff hargs hΓ).mp ⟨rs, hrs, rfl⟩, hrule⟩
  · rintro ⟨s, ts, hs, hts, hrule⟩
    obtain ⟨receiver, hr⟩ := (hrec scope hΓ s).mpr hs
    obtain ⟨rs, hrs, rfl⟩ := (accepted_checkList_iff hargs hΓ).mpr hts
    exact ⟨_, (s, receiver), hr, rs, hrs, t, hrule, rfl, rfl⟩

end Operands

/-! Each form agrees with its rule if its children do. -/

namespace Agrees

variable {line : Line} {type? : Option Symbol} {e e' pred yes no : Expr} {es : List Expr}

theorem assign (hr : cx.Rooted) (od : cx.hierarchy.Ordered) {name : Symbol} (hv : e.Agrees cx) :
    (node line type? (.assign name e)).Agrees cx := by
  intro scope hΓ t
  simp only [Accepted, check]
  rw [accepted_unary_iff hv hΓ (cx.assignType scope line name) (.assign name)]
  simp only [gives_assignType]
  constructor
  · rintro ⟨s, hs, hn, d, hd, hc, rfl⟩
    rw [taken_of_known (hΓ _ _ hd), hr.conforms_iff_sub od] at hc
    exact .assign hn hd hs hc
  · intro ht
    cases ht with
    | assign hn hd hs hc =>
      rw [← hr.conforms_iff_sub od, ← taken_of_known (hΓ _ _ hd)] at hc
      exact ⟨_, hs, hn, _, hd, hc, rfl⟩

theorem dispatch (hr : cx.Rooted) (od : cx.hierarchy.Ordered) {method : Symbol}
    (hrec : e.Agrees cx) (hargs : ∀ a ∈ es, a.Agrees cx) :
    (node line type? (.dispatch e method es)).Agrees cx := by
  intro scope hΓ t
  simp only [Accepted, check]
  rw [accepted_call_iff hrec hargs hΓ (cx.dispatchType line method) (.dispatch · method ·)]
  simp only [hr.gives_dispatchType_iff od]
  constructor
  · rintro ⟨r, ts, hr', hts, hcall⟩
    exact .dispatch hr' hts hcall
  · intro ht
    cases ht with
    | dispatch hr' hts hcall => exact ⟨_, _, hr', hts, hcall⟩

theorem staticDispatch (hr : cx.Rooted) (od : cx.hierarchy.Ordered) {owner method : Symbol}
    (hrec : e.Agrees cx) (hargs : ∀ a ∈ es, a.Agrees cx) :
    (node line type? (.staticDispatch e owner method es)).Agrees cx := by
  intro scope hΓ t
  simp only [Accepted, check]
  rw [accepted_call_iff hrec hargs hΓ (cx.staticDispatchType line owner method)
    (.staticDispatch · owner method ·)]
  simp only [hr.gives_staticDispatchType_iff od]
  constructor
  · rintro ⟨r, ts, hr', hts, ho, hsub, hcall⟩
    exact .staticDispatch hr' hts ho hsub hcall
  · intro ht
    cases ht with
    | staticDispatch hr' hts ho hsub hcall => exact ⟨_, _, hr', hts, ho, hsub, hcall⟩

theorem cond (hr : cx.Rooted) (od : cx.hierarchy.Ordered) (hp : pred.Agrees cx)
    (hy : yes.Agrees cx) (hn : no.Agrees cx) : (node line type? (.cond pred yes no)).Agrees cx := by
  intro scope hΓ t
  simp only [Accepted, check, gives_bind, gives_pure, gives_checkPredicate, typed, Prod.exists,
    Prod.mk.injEq]
  constructor
  · rintro ⟨_, p, pred', hp', _, rfl, s, yes', hs, u, no', hu, _, hj, rfl, rfl⟩
    have hs' : yes.Accepted cx scope s := ⟨yes', hs⟩
    have hu' : no.Accepted cx scope u := ⟨no', hu⟩
    rw [hr.gives_join_iff od (hs'.isType hr) (hu'.isType hr)] at hj
    exact .cond ((hp scope hΓ _).mp ⟨pred', hp'⟩) ((hy scope hΓ s).mp hs') ((hn scope hΓ u).mp hu') hj
  · intro ht
    cases ht with
    | cond hp' hs hu hj =>
      obtain ⟨pred', hp''⟩ := (hp scope hΓ _).mpr hp'
      have hs' := (hy scope hΓ _).mpr hs
      have hu' := (hn scope hΓ _).mpr hu
      rw [← hr.gives_join_iff od (hs'.isType hr) (hu'.isType hr)] at hj
      obtain ⟨yes', hs''⟩ := hs'
      obtain ⟨no', hu''⟩ := hu'
      exact ⟨_, _, _, hp'', (), rfl, _, _, hs'', _, _, hu'', _, hj, rfl, rfl⟩

theorem loop (hp : pred.Agrees cx) (hb : e.Agrees cx) : (node line type? (.loop pred e)).Agrees cx := by
  intro scope hΓ t
  simp only [Accepted, check, gives_bind, gives_pure, gives_checkPredicate, typed, Prod.exists,
    Prod.mk.injEq]
  constructor
  · rintro ⟨_, p, pred', hp', _, rfl, b, body', hb', rfl, rfl⟩
    exact .loop ((hp scope hΓ _).mp ⟨pred', hp'⟩) ((hb scope hΓ b).mp ⟨body', hb'⟩)
  · intro ht
    cases ht with
    | loop hp' hb' =>
      obtain ⟨pred', hp''⟩ := (hp scope hΓ _).mpr hp'
      obtain ⟨body', hb''⟩ := (hb scope hΓ _).mpr hb'
      exact ⟨_, _, _, hp'', (), rfl, _, _, hb'', rfl, rfl⟩

theorem case (hr : cx.Rooted) (od : cx.hierarchy.Ordered) {bs : List (Branch Expr)}
    (hscr : e.Agrees cx) (hbody : ∀ b ∈ bs, b.body.Agrees cx) (hne : bs ≠ []) :
    (node line type? (.case e bs)).Agrees cx := by
  intro scope hΓ t
  have hbs := @accepted_checkBranches_iff cx scope t hr od bs hbody hΓ [] _ isType_noType
  simp only [Accepted, check, gives_bind, gives_pure, typed, Prod.exists, Prod.mk.injEq]
  constructor
  · rintro ⟨_, s, scrutinee', hs, _, branches', hb, rfl, rfl⟩
    obtain ⟨-, hnodup, ts, hts, hu⟩ := hbs.mp ⟨branches', hb⟩
    exact .case ((hscr scope hΓ s).mp ⟨scrutinee', hs⟩) hne hnodup hts
      (Hierarchy.isLub_noType_cons_iff.mp hu)
  · intro ht
    cases ht with
    | case hs _ hnodup hts hu =>
      obtain ⟨scrutinee', hs'⟩ := (hscr scope hΓ _).mpr hs
      obtain ⟨branches', hb⟩ := hbs.mpr
        ⟨by simp, hnodup, _, hts, Hierarchy.isLub_noType_cons_iff.mpr hu⟩
      exact ⟨_, _, _, hs', _, _, hb, rfl, rfl⟩

theorem block (hbody : ∀ b ∈ es, b.Agrees cx) (hne : es ≠ []) :
    (node line type? (.block es)).Agrees cx := by
  intro scope hΓ t
  simp only [Accepted, check, gives_bind, gives_pure, typed, Prod.mk.injEq]
  constructor
  · rintro ⟨_, rs, hrs, hlast, rfl⟩
    have hts := (accepted_checkList_iff hbody hΓ).mp ⟨rs, hrs, rfl⟩
    refine .block hts ?_
    have hrs' : rs ≠ [] := by
      rintro rfl
      cases hts
      exact hne rfl
    rw [List.getLast?_eq_some_getLast hrs', Option.map_some, Option.getD_some] at hlast
    rw [List.getLast?_map, List.getLast?_eq_some_getLast hrs', Option.map_some, hlast]
  · intro ht
    cases ht with
    | block hts hlast =>
      obtain ⟨rs, hrs, rfl⟩ := (accepted_checkList_iff hbody hΓ).mpr hts
      rw [List.getLast?_map] at hlast
      exact ⟨_, rs, hrs, by rw [hlast, Option.getD_some], rfl⟩

theorem letIn (hr : cx.Rooted) (od : cx.hierarchy.Ordered) {name type : Symbol} (hi : e.Agrees cx)
    (hb : e'.Agrees cx) : (node line type? (.letIn name type e e')).Agrees cx := by
  intro scope hΓ t
  simp only [Accepted, check, gives_bind, gives_pure, gives_letType, gives_require, typed,
    Prod.exists, Prod.mk.injEq]
  constructor
  · rintro ⟨_, _, ⟨⟨hk, hn⟩, rfl⟩, s, init', hs, _, hc, b, body', hb', rfl, rfl⟩
    have hknown := isKnown_iff.mp hk
    exact .letIn hn hknown ((hi scope hΓ s).mp ⟨init', hs⟩) ((hr.conforms_iff_sub od).mp hc)
      ((hb.extend hΓ hn hknown).mp ⟨body', hb'⟩)
  · intro ht
    cases ht with
    | letIn hn hknown hs hc hb' =>
      obtain ⟨init', hs'⟩ := (hi scope hΓ _).mpr hs
      obtain ⟨body', hb''⟩ := (hb.extend hΓ hn hknown).mpr hb'
      exact ⟨_, _, ⟨⟨isKnown_iff.mpr hknown, hn⟩, rfl⟩, _, _, hs', (),
        (hr.conforms_iff_sub od).mpr hc, _, _, hb'', rfl, rfl⟩

theorem arith {op : ArithOp} (hl : e.Agrees cx) (hr : e'.Agrees cx) :
    (node line type? (.arith op e e')).Agrees cx := by
  intro scope hΓ t
  simp only [Accepted, check]
  rw [accepted_binary_iff hl hr hΓ (cx.arithType op line) (.arith op)]
  simp only [gives_arithType]
  constructor
  · rintro ⟨_, _, hl', hr', ⟨rfl, rfl⟩, rfl⟩
    exact .arith hl' hr'
  · intro ht
    cases ht with
    | arith hl' hr' => exact ⟨_, _, hl', hr', ⟨rfl, rfl⟩, rfl⟩

theorem compare {op : CompareOp} (hl : e.Agrees cx) (hr : e'.Agrees cx) :
    (node line type? (.compare op e e')).Agrees cx := by
  intro scope hΓ t
  simp only [Accepted, check]
  rw [accepted_binary_iff hl hr hΓ (cx.compareType op line) (.compare op)]
  simp only [gives_compareType]
  constructor
  · rintro ⟨_, _, hl', hr', ⟨rfl, rfl⟩, rfl⟩
    exact .compare hl' hr'
  · intro ht
    cases ht with
    | compare hl' hr' => exact ⟨_, _, hl', hr', ⟨rfl, rfl⟩, rfl⟩

theorem eq (hl : e.Agrees cx) (hr : e'.Agrees cx) : (node line type? (.eq e e')).Agrees cx := by
  intro scope hΓ t
  simp only [Accepted, check]
  rw [accepted_binary_iff hl hr hΓ (cx.eqType line) .eq]
  simp only [gives_eqType]
  constructor
  · rintro ⟨l, r, hl', hr', hlr, rfl⟩
    exact .eq hl' hr' hlr
  · intro ht
    cases ht with
    | eq hl' hr' hlr => exact ⟨_, _, hl', hr', hlr, rfl⟩

theorem neg (ho : e.Agrees cx) : (node line type? (.neg e)).Agrees cx := by
  intro scope hΓ t
  simp only [Accepted, check]
  rw [accepted_unary_iff ho hΓ (cx.negType line) .neg]
  simp only [gives_negType]
  constructor
  · rintro ⟨_, ho', rfl, rfl⟩
    exact .neg ho'
  · intro ht
    cases ht with
    | neg ho' => exact ⟨_, ho', rfl, rfl⟩

theorem not (ho : e.Agrees cx) : (node line type? (.not e)).Agrees cx := by
  intro scope hΓ t
  simp only [Accepted, check]
  rw [accepted_unary_iff ho hΓ (cx.notType line) .not]
  simp only [gives_notType]
  constructor
  · rintro ⟨_, ho', rfl, rfl⟩
    exact .not ho'
  · intro ht
    cases ht with
    | not ho' => exact ⟨_, ho', rfl, rfl⟩

theorem isVoid (ho : e.Agrees cx) : (node line type? (.isVoid e)).Agrees cx := by
  intro scope hΓ t
  simp only [Accepted, check, gives_bind, gives_pure, typed, Prod.exists, Prod.mk.injEq]
  constructor
  · rintro ⟨_, s, operand', ho', rfl, rfl⟩
    exact .isVoid ((ho scope hΓ s).mp ⟨operand', ho'⟩)
  · intro ht
    cases ht with
    | isVoid ho' =>
      obtain ⟨operand', ho''⟩ := (ho scope hΓ _).mpr ho'
      exact ⟨_, _, _, ho'', rfl, rfl⟩

theorem new {type : Symbol} : (node line type? (.new type)).Agrees cx := by
  intro scope hΓ t
  simp only [Accepted, check, gives_bind, gives_pure, gives_newType, typed, Prod.mk.injEq]
  constructor
  · rintro ⟨_, _, ⟨hk, rfl⟩, rfl, rfl⟩
    exact .new (isKnown_iff.mp hk)
  · intro ht
    cases ht with
    | new hk => exact ⟨_, _, ⟨isKnown_iff.mpr hk, rfl⟩, rfl, rfl⟩

theorem identifier {name : Symbol} : (node line type? (.identifier name)).Agrees cx := by
  intro scope hΓ t
  simp only [Accepted, check, gives_bind, gives_pure, gives_identifierType, typed, Prod.mk.injEq]
  constructor
  · rintro ⟨_, _, ⟨rfl, rfl⟩ | ⟨hn, d, hd, rfl⟩, rfl, rfl⟩
    · exact .self
    · rw [taken_of_known (hΓ _ _ hd)]
      exact .identifier hn hd
  · intro ht
    cases ht with
    | self => exact ⟨_, _, Or.inl ⟨rfl, rfl⟩, rfl, rfl⟩
    | identifier hn hd =>
      exact ⟨_, _, Or.inr ⟨hn, _, hd, taken_of_known (hΓ _ _ hd)⟩, rfl, rfl⟩

end Agrees

/-- Checking and the rules agree on every expression without an empty block or case. -/
theorem agrees (hr : cx.Rooted) (od : cx.hierarchy.Ordered) (e : Expr) (he : e.Filled) :
    e.Agrees cx := by
  induction e with
  | assign line type? name value ih => exact .assign hr od (ih (he.child (.head _)))
  | dispatch line type? receiver method args ihr iha =>
    exact .dispatch hr od (ihr (he.child (.head _))) fun e hm => iha e hm (he.child (.tail _ hm))
  | staticDispatch line type? receiver owner method args ihr iha =>
    exact .staticDispatch hr od (ihr (he.child (.head _)))
      fun e hm => iha e hm (he.child (.tail _ hm))
  | cond line type? pred yes no ihp ihy ihn =>
    exact .cond hr od (ihp (he.child (.head _))) (ihy (he.child (.tail _ (.head _))))
      (ihn (he.child (.tail _ (.tail _ (.head _)))))
  | loop line type? pred body ihp ihb =>
    exact .loop (ihp (he.child (.head _))) (ihb (he.child (.tail _ (.head _))))
  | case line type? scrutinee branches ihs ihb =>
    have hne : branches ≠ [] := by simpa [form, Form.isFilled] using (filled_iff.mp he).1
    exact .case hr od (ihs (he.child (.head _)))
      (fun b hm => ihb b hm (he.child (.tail _ (List.mem_map.mpr ⟨b, hm, rfl⟩)))) hne
  | block line type? body ih =>
    have hne : body ≠ [] := by simpa [form, Form.isFilled] using (filled_iff.mp he).1
    exact .block (fun e hm => ih e hm (he.child hm)) hne
  | letIn line type? name type init body ihi ihb =>
    exact .letIn hr od (ihi (he.child (.head _))) (ihb (he.child (.tail _ (.head _))))
  | arith line type? op lhs rhs ihl ihr =>
    exact .arith (ihl (he.child (.head _))) (ihr (he.child (.tail _ (.head _))))
  | compare line type? op lhs rhs ihl ihr =>
    exact .compare (ihl (he.child (.head _))) (ihr (he.child (.tail _ (.head _))))
  | eq line type? lhs rhs ihl ihr =>
    exact .eq (ihl (he.child (.head _))) (ihr (he.child (.tail _ (.head _))))
  | neg line type? operand ih => exact .neg (ih (he.child (.head _)))
  | not line type? operand ih => exact .not (ih (he.child (.head _)))
  | isVoid line type? operand ih => exact .isVoid (ih (he.child (.head _)))
  | new line type? type => exact .new
  | identifier line type? name => exact .identifier
  | int | string | bool | absent =>
    intro scope hΓ t
    simp only [Accepted, check, gives_pure, typed, Prod.mk.injEq, exists_and_left, exists_eq',
      and_true]
    constructor
    · rintro rfl
      constructor
    · rintro ⟨⟩
      rfl

end Expr

namespace Hierarchy

variable {h : Hierarchy} {p : Program}

theorem Enrols.knownEnv (en : h.Enrols p) {c : ClassDecl} (hc : c ∈ p.classes)
    (hattr : ∀ d ∈ p.classes, ∀ a ∈ d.attributes, h.Known a.type) {scope : Scope}
    (hscope : ∀ x t, scope.lookup x = some t → h.Known t) :
    h.KnownEnv (scope.objectType? h c.name) := by
  intro x t hx
  rw [Scope.objectType?, Option.or_eq_some_iff] at hx
  rcases hx with hx | ⟨-, hx⟩
  · exact hscope x t hx
  · obtain ⟨d, hd, a, ha, -, rfl⟩ := en.exists_attribute hc hx
    exact hattr d hd a ha

end Hierarchy

/-- In a program in order whose classes are clear of the sentinels and whose attributes have known
types, an expression is checked without a fault and has a type exactly if the rules say so. -/
theorem Expr.check_gives_iff_hasType {names : Vocabulary} {p : Program} {c : ClassDecl}
    {scope : Scope} {e : Expr} {t : Symbol} (hf : (Hierarchy.build names p).outlineFaults = [])
    (hclear : ∀ d ∈ p.classes, d.parent ≠ names .noClass ∧ d.name ≠ names .noType)
    (hattr : ∀ d ∈ p.classes, ∀ a ∈ d.attributes, (Hierarchy.build names p).hierarchy.Known a.type)
    (hc : c ∈ p.classes)
    (hscope : ∀ x u, scope.lookup x = some u → (Hierarchy.build names p).hierarchy.Known u)
    (he : e.Filled) :
    (∃ e', (e.check (c.context (Hierarchy.build names p).hierarchy) scope).Gives (t, e')) ↔
      HasType (Hierarchy.build names p).hierarchy c.name
        (scope.objectType? (Hierarchy.build names p).hierarchy c.name) e t := by
  obtain ⟨hn, en, cl⟩ := Hierarchy.outline_clean hf
  have hparent : ∀ d ∈ p.classes,
      d.parent ≠ (Hierarchy.build names p).hierarchy.names .noClass := fun d hd => by
    rw [hn]
    exact (hclear d hd).1
  have hname : ∀ d ∈ p.classes, d.name ≠ (Hierarchy.build names p).hierarchy.names .noType :=
    fun d hd => by
      rw [hn]
      exact (hclear d hd).2
  exact agrees (en.rooted cl hparent hc) (en.ordered cl hname) e he scope
    (en.knownEnv hc hattr hscope) t

/-- `Main` and a class with an attribute, which stands after it. -/
def Program.mainAndParent (names : Vocabulary) : Program :=
  ⟨[.mainUnder names ⟨26⟩,
    ⟨⟨26⟩, names .io, [.attr ⟨⟨27⟩, names .int, Expr.absent 6, 6⟩], "main.cl", 5⟩]⟩

/-- In `Main`, `let x : SELF_TYPE <- self in if true then x else new P fi` has the type of the parent
`P`, to which the two branches join. -/
theorem Expr.hasType_join_with_parent :
    HasType (Hierarchy.build .initial (.mainAndParent .initial)).hierarchy (Vocabulary.initial .mainClass)
      (Scope.empty.objectType? (Hierarchy.build .initial (.mainAndParent .initial)).hierarchy
        (Vocabulary.initial .mainClass))
      (plain 1 (.letIn ⟨28⟩ (Vocabulary.initial .selfType)
        (plain 1 (.identifier (Vocabulary.initial .self)))
        (plain 2 (.cond (plain 2 (.bool true)) (plain 2 (.identifier ⟨28⟩))
          (plain 2 (.new ⟨26⟩)))))) ⟨26⟩ :=
  (check_gives_iff_hasType (c := .mainUnder .initial ⟨26⟩) (by decide) (by decide) (by decide)
    List.mem_cons_self (by simp) (by decide)).mp ⟨_, rfl⟩

end CoolStatics
