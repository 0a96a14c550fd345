import CoolStatics.Proofs.Rules

/-!
What corresponds to what. Forms correspond if they have the same names and children that do, one by
one. What it means for two reports to correspond is left open: that the second gives whatever the
first gives, that both come to the same end, that both are the same. All that is asked is that the
steps of a computation respect it.
-/
namespace CoolStatics

/-- Branches alike but for their bodies, which are related. -/
def Branch.Rel {ε : Type} (P : ε → ε → Prop) (b b' : Branch ε) : Prop :=
  P b.body b'.body ∧ b' = { b with body := b'.body }

theorem Branch.Rel.eq_of_body {ε : Type} {P : ε → ε → Prop} {b b' : Branch ε} (hb : Branch.Rel P b b')
    (hbody : b.body = b'.body) : b = b' := by
  rw [hb.2, ← hbody]

theorem Branch.Rel.eq_of_eq {ε : Type} {b b' : Branch ε} (hb : Branch.Rel Eq b b') : b = b' :=
  hb.eq_of_body hb.1

/-- Forms alike but for their children, which are related one by one. -/
inductive Form.Rel {ε : Type} (P : ε → ε → Prop) : Form ε → Form ε → Prop
  | assign {name v v'} : P v v' → Rel P (.assign name v) (.assign name v')
  | dispatch {r r' method args args'} : P r r' → List.Forall₂ P args args' →
      Rel P (.dispatch r method args) (.dispatch r' method args')
  | staticDispatch {r r' type method args args'} : P r r' → List.Forall₂ P args args' →
      Rel P (.staticDispatch r type method args) (.staticDispatch r' type method args')
  | cond {p p' y y' n n'} : P p p' → P y y' → P n n' → Rel P (.cond p y n) (.cond p' y' n')
  | loop {p p' b b'} : P p p' → P b b' → Rel P (.loop p b) (.loop p' b')
  | case {s s' bs bs'} : P s s' → List.Forall₂ (Branch.Rel P) bs bs' →
      Rel P (.case s bs) (.case s' bs')
  | block {es es'} : List.Forall₂ P es es' → Rel P (.block es) (.block es')
  | letIn {name type i i' b b'} : P i i' → P b b' →
      Rel P (.letIn name type i b) (.letIn name type i' b')
  | arith {op l l' r r'} : P l l' → P r r' → Rel P (.arith op l r) (.arith op l' r')
  | compare {op l l' r r'} : P l l' → P r r' → Rel P (.compare op l r) (.compare op l' r')
  | eq {l l' r r'} : P l l' → P r r' → Rel P (.eq l r) (.eq l' r')
  | neg {e e'} : P e e' → Rel P (.neg e) (.neg e')
  | not {e e'} : P e e' → Rel P (.not e) (.not e')
  | isVoid {e e'} : P e e' → Rel P (.isVoid e) (.isVoid e')
  | int {value} : Rel P (.int value) (.int value)
  | string {value} : Rel P (.string value) (.string value)
  | bool {value} : Rel P (.bool value) (.bool value)
  | new {type} : Rel P (.new type) (.new type)
  | identifier {name} : Rel P (.identifier name) (.identifier name)
  | absent : Rel P .absent .absent

namespace Form.Rel

variable {ε : Type} {P Q : ε → ε → Prop} {f f' : Form ε}

theorem kind_eq (hf : Form.Rel P f f') : f.kind = f'.kind := by
  cases hf <;> rfl

theorem children (hf : Form.Rel P f f') : List.Forall₂ P f.children f'.children := by
  cases hf with
  | case hs hbs =>
    refine .cons hs (List.forall₂_map_left_iff.mpr (List.forall₂_map_right_iff.mpr ?_))
    exact hbs.imp fun _ _ hb => hb.1
  | dispatch hr hargs => exact .cons hr hargs
  | staticDispatch hr hargs => exact .cons hr hargs
  | block hes => exact hes
  | _ => simp_all [Form.children]

theorem eq_of_eq (hf : Form.Rel Eq f f') : f = f' := by
  cases hf with
  | case hs hbs =>
    have hbs' := hbs.imp fun _ _ hb => hb.eq_of_eq
    rw [List.forall₂_eq_eq_eq] at hbs'
    rw [hs, hbs']
  | _ => simp_all [List.forall₂_eq_eq_eq]

theorem imp (hPQ : ∀ a b, P a b → Q a b) (hf : Form.Rel P f f') : Form.Rel Q f f' := by
  cases hf with
  | dispatch hr hargs => exact .dispatch (hPQ _ _ hr) (hargs.imp hPQ)
  | staticDispatch hr hargs => exact .staticDispatch (hPQ _ _ hr) (hargs.imp hPQ)
  | cond hp hy hn => exact .cond (hPQ _ _ hp) (hPQ _ _ hy) (hPQ _ _ hn)
  | case hs hbs => exact .case (hPQ _ _ hs) (hbs.imp fun _ _ hb => ⟨hPQ _ _ hb.1, hb.2⟩)
  | block hes => exact .block (hes.imp hPQ)
  | assign h | neg h | not h | isVoid h => constructor; exact hPQ _ _ h
  | loop h h' | letIn h h' | arith h h' | compare h h' | eq h h' =>
    constructor
    · exact hPQ _ _ h
    · exact hPQ _ _ h'
  | int | string | bool | new | identifier | absent => constructor

end Form.Rel

namespace Form

variable {ε : Type} {f f' f'' : Form ε}

/-- Of one kind and with the same names, and with children that may differ. -/
def Alike (f f' : Form ε) : Prop := Form.Rel (fun _ _ => True) f f'

theorem Alike.refl (f : Form ε) : f.Alike f := by
  have hlist : ∀ es : List ε, List.Forall₂ (fun _ _ => True) es es := fun es =>
    List.forall₂_same.mpr fun _ _ => trivial
  cases f with
  | dispatch _ _ args => exact .dispatch trivial (hlist args)
  | staticDispatch _ _ _ args => exact .staticDispatch trivial (hlist args)
  | case _ bs => exact .case trivial (List.forall₂_same.mpr fun _ _ => ⟨trivial, rfl⟩)
  | block es => exact .block (hlist es)
  | _ => constructor <;> trivial

theorem Alike.trans (hf : f.Alike f') (hf' : f'.Alike f'') : f.Alike f'' := by
  have hlist : ∀ {l l' l'' : List ε}, List.Forall₂ (fun _ _ => True) l l' →
      List.Forall₂ (fun _ _ => True) l' l'' → List.Forall₂ (fun _ _ => True) l l'' :=
    fun h h' => List.forall₂_iff_zip.mpr ⟨h.length_eq.trans h'.length_eq, fun _ => trivial⟩
  cases hf with
  | dispatch _ hargs =>
    cases hf' with
    | dispatch _ hargs' => exact .dispatch trivial (hlist hargs hargs')
  | staticDispatch _ hargs =>
    cases hf' with
    | staticDispatch _ hargs' => exact .staticDispatch trivial (hlist hargs hargs')
  | block hes =>
    cases hf' with
    | block hes' => exact .block (hlist hes hes')
  | case _ hbs =>
    cases hf' with
    | case _ hbs' =>
      refine .case trivial (forall₂_trans hbs hbs' fun b _ b' b'' hb hb' => ⟨trivial, ?_⟩)
      rw [hb'.2, hb.2]
  | _ =>
    cases hf'
    constructor <;> trivial

theorem Alike.symm (hf : f.Alike f') : f'.Alike f := by
  have hlist : ∀ {l l' : List ε}, List.Forall₂ (fun _ _ => True) l l' →
      List.Forall₂ (fun _ _ => True) l' l := fun h => h.flip.imp fun _ _ _ => trivial
  cases hf with
  | dispatch _ hargs => exact .dispatch trivial (hlist hargs)
  | staticDispatch _ hargs => exact .staticDispatch trivial (hlist hargs)
  | block hes => exact .block (hlist hes)
  | case _ hbs =>
    refine .case trivial (hbs.flip.imp fun b b' hb => ⟨trivial, ?_⟩)
    rw [hb.2]
  | _ => constructor <;> trivial

theorem Alike.eq_of_children (hf : f.Alike f') (hc : f.children = f'.children) : f = f' := by
  cases hf with
  | @case s s' bs bs' _ hbs =>
    obtain ⟨rfl, hbodies⟩ := List.cons.inj hc
    rw [← List.forall₂_eq_eq_eq, List.forall₂_map_left_iff, List.forall₂_map_right_iff] at hbodies
    have heq : List.Forall₂ Eq bs bs' :=
      hbodies.mp (fun b b' hbody hb => hb.eq_of_body hbody) hbs
    rw [List.forall₂_eq_eq_eq] at heq
    rw [heq]
  | _ => simp_all [Form.children]

/-- The method that a node calls. -/
def callee? : Form ε → Option Symbol
  | dispatch _ method _ => some method
  | staticDispatch _ _ method _ => some method
  | _ => none

/-- The class in which a call looks for its method, and the name of the method, where a receiver is of the
class `owner?`. -/
def target? (owner? : ε → Option Symbol) : Form ε → Option (Symbol × Symbol)
  | dispatch receiver method _ => (owner? receiver).map (·, method)
  | staticDispatch _ owner method _ => some (owner, method)
  | _ => none

theorem target?_dispatch {owner? : ε → Option Symbol} {receiver : ε} {owner method : Symbol}
    {args : List ε} (ho : owner? receiver = some owner) :
    (dispatch receiver method args).target? owner? = some (owner, method) := by
  rw [target?, ho, Option.map_some]

theorem callee?_of_target? {owner? : ε → Option Symbol} {c : Symbol × Symbol}
    (hc : f.target? owner? = some c) : f.callee? = some c.2 := by
  cases f with
  | dispatch receiver method args =>
    obtain ⟨owner, -, rfl⟩ := Option.map_eq_some_iff.mp hc
    rfl
  | staticDispatch receiver owner method args =>
    obtain rfl := Option.some.inj hc
    rfl
  | _ => cases hc

end Form

namespace Report

variable {α β : Type}

/-- A way for reports to correspond, given how their values do, that the steps of computations
respect. What comes after two reports has to correspond only for what the first one comes to. -/
structure Relator where
  rel {α β : Type} (S : α → β → Prop) (r : Report α) (r' : Report β) : Prop
  refl {α : Type} (r : Report α) : rel Eq r r
  pure {α β : Type} {S : α → β → Prop} {a : α} {b : β} (hab : S a b) :
    rel S (Pure.pure a) (Pure.pure b)
  bindOk {α β γ δ : Type} {S : α → β → Prop} {T : γ → δ → Prop} {r : Report α} {r' : Report β}
    {f : α → Report γ} {f' : β → Report δ} (hr : rel S r r')
    (hf : ∀ a b, r.outcome = .ok a → S a b → rel T (f a) (f' b)) : rel T (r >>= f) (r' >>= f')

namespace Relator

variable (L : Relator) {S T : α → β → Prop}

theorem bind {γ δ : Type} {U : γ → δ → Prop} {r : Report α} {r' : Report β} {f : α → Report γ}
    {f' : β → Report δ} (hr : L.rel S r r') (hf : ∀ a b, S a b → L.rel U (f a) (f' b)) :
    L.rel U (r >>= f) (r' >>= f') :=
  L.bindOk hr fun a b _ hab => hf a b hab

theorem mono {r : Report α} {r' : Report β} (hr : L.rel S r r') (hST : ∀ a b, S a b → T a b) :
    L.rel T r r' := by
  have hbind := L.bind hr fun a b hab => L.pure (hST a b hab)
  rwa [bind_pure, bind_pure] at hbind

theorem all {rs : List (Report α)} {rs' : List (Report β)} (hrs : List.Forall₂ (L.rel S) rs rs') :
    L.rel (List.Forall₂ S) (Report.all rs) (Report.all rs') := by
  induction hrs with
  | nil => exact L.pure .nil
  | cons hr _ ih => exact L.bind hr fun _ _ ha => L.bind ih fun _ _ has => L.pure (.cons ha has)

end Relator

/-- Whatever the first report gives, the second one gives something related to it. -/
def Follows (S : α → β → Prop) (r : Report α) (r' : Report β) : Prop :=
  ∀ a, r.Gives a → ∃ b, r'.Gives b ∧ S a b

def following : Relator where
  rel := Follows
  refl _ a ha := ⟨a, ha, rfl⟩
  pure hab _ hx := ⟨_, rfl, gives_pure.mp hx ▸ hab⟩
  bindOk hr hf c hc := by
    obtain ⟨a, ha, hfa⟩ := gives_bind.mp hc
    obtain ⟨b, hb, hab⟩ := hr a ha
    obtain ⟨d, hd, hcd⟩ := hf a b (gives_iff.mp ha).2 hab c hfa
    exact ⟨d, gives_bind.mpr ⟨b, hb, hd⟩, hcd⟩

/-- Both come to an end, with related values, or both break off at the same join. -/
def SameOutcome (S : α → β → Prop) (r : Report α) (r' : Report β) : Prop :=
  match r.outcome, r'.outcome with
  | .ok a, .ok b => S a b
  | .error e, .error e' => e = e'
  | _, _ => False

theorem SameOutcome.map_eq {γ : Type} {S : α → β → Prop} {r : Report α} {r' : Report β}
    (hr : SameOutcome S r r') (g : α → γ) (g' : β → γ) (hg : ∀ a b, S a b → g' b = g a) :
    r'.outcome.map g' = r.outcome.map g := by
  obtain ⟨fs, x⟩ := r
  obtain ⟨fs', x'⟩ := r'
  cases x <;> cases x'
  · exact congrArg Except.error (Eq.symm hr)
  · exact hr.elim
  · exact hr.elim
  · exact congrArg Except.ok (hg _ _ hr)

/-- Reports that come to the same end, whatever they note. -/
def sameOutcome : Relator where
  rel := SameOutcome
  refl r := by
    obtain ⟨fs, x⟩ := r
    cases x <;> rfl
  pure hab := hab
  bindOk {_ _ _ _ _ _ r r' f f'} hr hf := by
    obtain ⟨fs, x⟩ := r
    obtain ⟨fs', x'⟩ := r'
    cases x <;> cases x'
    · exact hr
    · exact hr.elim
    · exact hr.elim
    · exact hf _ _ rfl hr

/-- Reports that note the same and come to the same end. -/
def same : Relator where
  rel S r r' := r'.faults = r.faults ∧ SameOutcome S r r'
  refl r := ⟨rfl, sameOutcome.refl r⟩
  pure hab := ⟨rfl, hab⟩
  bindOk {_ _ _ _ _ _ r r' f f'} hr hf := by
    refine ⟨?_, sameOutcome.bindOk hr.2 fun a b ha hab => (hf a b ha hab).2⟩
    obtain ⟨fs, x⟩ := r
    obtain ⟨fs', x'⟩ := r'
    obtain ⟨hfs, hx⟩ := hr
    cases x <;> cases x'
    · exact hfs
    · exact hx.elim
    · exact hx.elim
    · exact congrArg₂ _ hfs (hf _ _ rfl hx).1

theorem eq_of_same {r r' : Report α} (hr : same.rel Eq r r') : r = r' := by
  obtain ⟨fs, x⟩ := r
  obtain ⟨fs', x'⟩ := r'
  obtain ⟨hfs, hx⟩ := hr
  cases x <;> cases x' <;> simp_all [SameOutcome]

end Report
end CoolStatics
