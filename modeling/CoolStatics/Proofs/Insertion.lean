import CoolStatics.Proofs.Checking
import CoolStatics.Proofs.Lookup
import CoolStatics.Proofs.Members
import CoolStatics.Proofs.Reordering

/-!
One more class. A class that no other one mentions may stand anywhere among the others, also before its
parent: no chain leads through it, so the others keep their ancestors, their members and what they
conform to. The check of a class that does not mention it never asks about it, and comes to the same.
-/
namespace CoolStatics

open Relation Report

/-! The hierarchy with the class and without it. -/

namespace Hierarchy

/-- The second hierarchy has what the first has and perhaps the class `new`, which nothing in the first
inherits. -/
structure Widens (h h' : Hierarchy) (new : Symbol) : Prop where
  names : h'.names = h.names
  acyclic : h.Acyclic
  acyclic' : h'.Acyclic
  get? : ∀ {c}, c ≠ new → h'.get? c = h.get? c
  fresh : h.has new = false
  childless : ∀ c, h.parent? c ≠ some new

namespace Widens

variable {h h' : Hierarchy} {new c d current s t m x : Symbol}

theorem has_eq (w : Widens h h' new) (hc : c ≠ new) : h'.has c = h.has c := by
  rw [has_eq_isSome_get?, has_eq_isSome_get?, w.get? hc]

theorem receives (w : Widens h h' new) : Receives h h' new :=
  ⟨w.names, w.acyclic, w.acyclic', w.get?, w.fresh⟩

theorem edge_iff (w : Widens h h' new) (hc : c ≠ new) : h'.Edge c d ↔ h.Edge c d :=
  w.receives.edge_iff hc

theorem ne_of_edge (w : Widens h h' new) (e : h.Edge c d) : d ≠ new := by
  rintro rfl
  exact w.childless c e.1

theorem ne_of_mem_chain (w : Widens h h' new) (hd : d ∈ h.chain c) : d ≠ new := by
  obtain ⟨b, -, e⟩ := TransGen.tail'_iff.mp ((mem_chain_iff w.acyclic).mp hd)
  exact w.ne_of_edge e

theorem chain_eq (w : Widens h h' new) (hc : c ≠ new) : h'.chain c = h.chain c := by
  have hlast : (h.chain c).getLast? ≠ some new :=
    fun hl => w.ne_of_mem_chain (List.mem_of_getLast? hl) rfl
  rw [w.receives.chain_eq hc, if_neg hlast]

theorem ne_of_has (w : Widens h h' new) (hc : h.has c = true) : c ≠ new :=
  Hierarchy.ne_of_has hc w.fresh

theorem ancestors_eq (w : Widens h h' new) (hc : c ≠ new) : h'.ancestors c = h.ancestors c := by
  rw [ancestors, ancestors, w.chain_eq hc]
  exact List.filter_congr fun d hd => w.has_eq (w.ne_of_mem_chain hd)

theorem lineage_eq (w : Widens h h' new) (hc : c ≠ new) : h'.lineage c = h.lineage c := by
  rw [lineage, lineage, w.ancestors_eq hc, w.has_eq hc]

theorem method?_eq (w : Widens h h' new) (hc : c ≠ new) : h'.method? c m = h.method? c m :=
  w.receives.method?_eq hc m

theorem attr?_eq (w : Widens h h' new) (hc : c ≠ new) : h'.attr? c x = h.attr? c x :=
  w.receives.attr?_eq hc x

theorem findSome?_ancestors (w : Widens h h' new) {α : Type} {f f' : Symbol → Option α}
    (hf : ∀ d, d ≠ new → f' d = f d) (hc : c ≠ new) :
    (h'.ancestors c).findSome? f' = (h.ancestors c).findSome? f := by
  have hne : ∀ d ∈ h.ancestors c, d ≠ new := fun d hd => w.ne_of_has (List.mem_filter.mp hd).2
  rw [w.ancestors_eq hc]
  generalize h.ancestors c = ds at hne
  induction ds with
  | nil => rfl
  | cons d ds ih =>
    rw [List.forall_mem_cons] at hne
    rw [List.findSome?_cons, List.findSome?_cons, hf d hne.1, ih hne.2]

theorem inheritedMethod?_eq (w : Widens h h' new) (hc : c ≠ new) :
    h'.inheritedMethod? c m = h.inheritedMethod? c m :=
  w.findSome?_ancestors (fun _ hd => w.method?_eq hd) hc

theorem inheritedAttr?_eq (w : Widens h h' new) (hc : c ≠ new) :
    h'.inheritedAttr? c x = h.inheritedAttr? c x :=
  w.findSome?_ancestors (fun _ hd => w.attr?_eq hd) hc

theorem findMethod?_eq (w : Widens h h' new) (hc : c ≠ new) :
    h'.findMethod? c m = h.findMethod? c m := by
  rw [findMethod?, findMethod?, w.method?_eq hc, w.inheritedMethod?_eq hc]

theorem findAttr?_eq (w : Widens h h' new) (hc : c ≠ new) : h'.findAttr? c x = h.findAttr? c x := by
  rw [findAttr?, findAttr?, w.attr?_eq hc, w.inheritedAttr?_eq hc]

theorem denoted_ne (hcur : current ≠ new) (ht : t ≠ new) : h.denoted current t ≠ new := by
  rw [denoted]
  split_ifs
  · exact hcur
  · exact ht

theorem denoted_eq (w : Widens h h' new) : h'.denoted current t = h.denoted current t := by
  rw [denoted, denoted, w.names]

theorem conforms_eq (w : Widens h h' new) (hcur : current ≠ new) (ht : t ≠ new) :
    h'.conforms current d t = h.conforms current d t := by
  have hchain : h'.chain (h.denoted current t) = h.chain (h.denoted current t) :=
    w.chain_eq (denoted_ne hcur ht)
  simp only [conforms, w.names, w.denoted_eq, hchain]

theorem join_eq (w : Widens h h' new) (hcur : current ≠ new) (hs : s ≠ new) (ht : t ≠ new) :
    h'.join current s t = h.join current s t := by
  have hlineage : ∀ r, r ≠ new →
      h'.lineage (h.denoted current r) = h.lineage (h.denoted current r) :=
    fun r hr => w.lineage_eq (denoted_ne hcur hr)
  simp only [join, w.names, w.denoted_eq, hlineage s hs, hlineage t ht]

theorem mainFault?_eq (w : Widens h h' new) (hmain : h.mainFault? = none) : h'.mainFault? = none := by
  obtain ⟨sig, hsig, -⟩ := mainFault?_eq_none_iff.mp hmain
  have hhas : h.has (h.names .mainClass) = true := by
    by_contra hno
    rw [method?, get?_of_not_has (by simpa using hno)] at hsig
    cases hsig
  rwa [mainFault?, w.names, w.get? (w.ne_of_has hhas)]

theorem closed (w : Widens h h' new) (cl : h.Closed)
    (hup : ∀ d, h'.parent? new = some d → h.has d = true) : h'.Closed := by
  intro c d e
  have hd : h.has d = true := by
    by_cases hc : c = new
    · rw [hc] at e
      exact hup d e.1
    · exact cl c d ((w.edge_iff hc).mp e)
  rwa [w.has_eq (w.ne_of_has hd)]

/-! Registration goes on in both alike. -/

theorem rejection?_eq (w : Widens h h' new) {c : ClassDecl} (hname : c.name ≠ new)
    (hparent : c.parent ≠ new) : h'.rejection? c = h.rejection? c := by
  rw [rejection?, rejection?, closesCycle, closesCycle, w.names, w.has_eq hname, w.chain_eq hparent]

theorem add (w : Widens h h' new) {c : ClassDecl} (hname : c.name ≠ new) (hparent : c.parent ≠ new)
    (hr : h.rejection? c = none) : Widens (h.add c) (h'.add c) new where
  names := w.names
  acyclic := w.acyclic.add hr
  acyclic' := w.acyclic'.add (by rwa [w.rejection?_eq hname hparent])
  get? hx := by rw [get?_add, get?_add, w.get? hx]
  fresh := by
    rw [← parent?_eq_none_iff, parent?_add, if_neg hname.symm, parent?_eq_none_iff, w.fresh]
  childless x := by
    rw [parent?_add]
    split_ifs
    · exact fun heq => hparent (Option.some.inj heq)
    · exact w.childless x

theorem addAll (w : Widens h h' new) {cs : List ClassDecl} (he : h.Enters cs)
    (hcs : ∀ c ∈ cs, c.name ≠ new ∧ c.parent ≠ new) :
    h'.Enters cs ∧ Widens (h.addAll cs) (h'.addAll cs) new := by
  induction cs generalizing h h' with
  | nil => exact ⟨trivial, w⟩
  | cons c cs ih =>
    rw [List.forall_mem_cons] at hcs
    obtain ⟨⟨hname, hparent⟩, hcs⟩ := hcs
    obtain ⟨he', w'⟩ := ih (w.add hname hparent he.1) he.2 hcs
    exact ⟨⟨by rw [w.rejection?_eq hname hparent, he.1], he'⟩, w'⟩

theorem insert {d : ClassDecl} (w : Widens h h d.name) (hr : h.rejection? d = none) :
    Widens h (h.add d) d.name :=
  { w with
    acyclic' := w.acyclic.add hr
    get? := fun hx => by rw [get?_add, if_neg hx] }

end Widens

theorem widens_basic {names : Vocabulary} {new : Symbol}
    (hnew : ∀ q ∈ [Predefined.object, .io, .int, .bool, .string, .noClass], new ≠ names q) :
    Widens (basic names) (basic names) new := by
  have hne : ∀ c ∈ BasicClasses.all names, c.name ≠ new ∧ c.parent ≠ new := by
    simp only [List.mem_cons, List.not_mem_nil, or_false, forall_eq_or_imp, forall_eq] at hnew
    simp only [BasicClasses.all, BasicClasses.object, BasicClasses.int, BasicClasses.io,
      BasicClasses.bool, BasicClasses.string, List.mem_cons, List.not_mem_nil, or_false,
      forall_eq_or_imp, forall_eq]
    tauto
  refine ⟨rfl, acyclic_basic names, acyclic_basic names, fun _ => rfl, ?_, fun x hx => ?_⟩
  · rw [← parent?_eq_none_iff, parent?, Option.map_eq_none_iff, Option.eq_none_iff_forall_ne_some]
    intro info hg
    obtain ⟨c, hc, hname, -⟩ := get?_basic.mp hg
    exact (hne c hc).1 hname
  · obtain ⟨info, hg, hp⟩ := Option.map_eq_some_iff.mp hx
    obtain ⟨c, hc, -, rfl⟩ := get?_basic.mp hg
    exact (hne c hc).2 (by rw [← ClassDecl.info_parent, hp])

end Hierarchy

/-! Classes that do not mention the new one. -/

def ClassDecl.typeNames (c : ClassDecl) : List Symbol :=
  c.name :: c.parent :: c.features.flatMap Feature.typeNames

def Program.typeNames (p : Program) : List Symbol := p.classes.flatMap ClassDecl.typeNames

/-- A name that is neither mentioned in the program nor predefined as that of a type. -/
structure Program.Spares (p : Program) (names : Vocabulary) (new : Symbol) : Prop where
  unused : new ∉ p.typeNames
  free : ∀ q ∈ [Predefined.object, .io, .int, .bool, .string, .selfType, .noClass, .noType],
    new ≠ names q

def Scope.Avoids (s : Scope) (t : Symbol) : Prop := ∀ x, s.lookup x ≠ some t

namespace Scope.Avoids

variable {s : Scope} {name type t : Symbol}

theorem push (hs : s.Avoids t) : s.push.Avoids t := fun x => by
  rw [lookup_push]
  exact hs x

theorem define (hs : s.Avoids t) (ht : type ≠ t) : (s.define name type).Avoids t := by
  intro x hx
  rw [lookup_define] at hx
  split_ifs at hx
  · exact ht (Option.some.inj hx)
  · exact hs x hx

end Scope.Avoids

namespace Program.Spares

variable {p : Program} {names : Vocabulary} {new t : Symbol} {c : ClassDecl} {f : Feature}

theorem ne_class (sp : p.Spares names new) (hc : c ∈ p.classes) : ∀ t ∈ c.typeNames, t ≠ new := by
  rintro t ht rfl
  exact sp.unused (List.mem_flatMap.mpr ⟨c, hc, ht⟩)

theorem ne_feature (sp : p.Spares names new) (hc : c ∈ p.classes) (hf : f ∈ c.features) :
    ∀ t ∈ f.typeNames, t ≠ new := by
  intro t ht
  refine sp.ne_class hc t (List.mem_cons_of_mem _ (List.mem_cons_of_mem _ ?_))
  exact List.mem_flatMap.mpr ⟨f, hf, ht⟩

end Program.Spares

theorem BasicClasses.result_mem {names : Vocabulary} {c : ClassDecl} (hc : c ∈ all names)
    {m : Method} (hm : m ∈ c.methods) :
    ∃ q ∈ [Predefined.object, .int, .string, .selfType], m.result = names q := by
  simp only [all, List.mem_cons, List.not_mem_nil, or_false] at hc
  rcases hc with rfl | rfl | rfl | rfl | rfl <;>
    simp [ClassDecl.methods, object, int, io, bool, string, method, attr] at hm <;>
    rcases hm with rfl | rfl | rfl | rfl <;> simp

namespace Hierarchy

variable {h h' : Hierarchy} {p : Program} {new : Symbol}

theorem Enrols.result_ne (en : h.Enrols p) (sp : p.Spares h.names new) {owner m : Symbol}
    {sig : Signature} (hsig : h.findMethod? owner m = some sig) : sig.result ≠ new := by
  rw [findMethod?_eq] at hsig
  obtain ⟨n, hn, hm⟩ := List.exists_of_findSome?_eq_some hsig
  obtain ⟨c, hc, rfl⟩ := en.has_iff.mp (has_of_mem_lineage hn)
  obtain ⟨method, hmethod, -, rfl⟩ := (en.method?_iff hc).mp hm
  rcases List.mem_append.mp hc with hb | hu
  · obtain ⟨q, hq, hresult⟩ := BasicClasses.result_mem hb hmethod
    intro heq
    refine sp.free q ?_ (heq.symm.trans hresult)
    simp only [List.mem_cons, List.not_mem_nil, or_false] at hq ⊢
    tauto
  · exact sp.ne_feature hu (ClassDecl.mem_methods.mp hmethod) _ List.mem_cons_self

theorem Enrols.attribute_ne (en : h.Enrols p) (sp : p.Spares h.names new) {c : ClassDecl}
    (hc : c ∈ p.classes) {x t : Symbol} (ht : h.findAttr? c.name x = some t) : t ≠ new := by
  obtain ⟨d, hd, a, ha, -, rfl⟩ := en.exists_attribute hc ht
  exact sp.ne_feature hd (ClassDecl.mem_attributes.mp ha) _ List.mem_cons_self

theorem Widens.agree (w : Widens h h' new) {c : ClassDecl} (hc : c.name ≠ new) :
    Context.Agree (c.context h) (c.context h') (· ≠ new) where
  names := w.names
  current := rfl
  file := rfl
  own := hc
  has := w.has_eq
  conforms := w.conforms_eq hc
  join hs ht := congrArg Report.ofExcept (w.join_eq hc hs ht)

end Hierarchy

/-! Two checks. -/

namespace Report

/-- One report that comes to an end of which `P` holds, unless it breaks off, corresponds to itself. -/
theorem same_of_eq {α : Type} {P : α → Prop} {r r' : Report α} (heq : r' = r) (hr : r.Meets True P) :
    same.rel (fun a a' => a' = a ∧ P a) r r' := by
  subst heq
  refine ⟨rfl, ?_⟩
  obtain ⟨fs, x⟩ := r'
  cases x with
  | error e => rfl
  | ok a => exact ⟨rfl, hr⟩

theorem same_unit {r r' : Report Unit} (heq : r' = r) : same.rel (fun _ _ => True) r r' :=
  heq ▸ same.mono (same.refl _) fun _ _ _ => trivial

end Report

theorem Program.Spares.ne_of_isType {p : Program} {h h' : Hierarchy} {new t : Symbol} {c : ClassDecl}
    (sp : p.Spares h.names new) (w : h.Widens h' new) (ht : (c.context h).IsType t) : t ≠ new := by
  rcases ht with rfl | hk
  · exact (sp.free .noType (by simp)).symm
  · rcases Context.isKnown_iff.mp hk with rfl | hhas
    · exact (sp.free .selfType (by simp)).symm
    · exact w.ne_of_has hhas

namespace Hierarchy

open Context

variable {h h' : Hierarchy} {p : Program} {new : Symbol} {c : ClassDecl}

/-- The check of a class of the program never asks about a type that the program spares. -/
theorem Widens.concord (w : Widens h h' new) (en : h.Enrols p) (sp : p.Spares h.names new)
    (hc : c ∈ p.classes) :
    Concord same (c.context h) (c.context h') (fun a a' => a' = a ∧ (c.context h).IsType a)
      (fun s s' => s' = s ∧ s.Avoids new) (· ≠ new) fun _ _ => True := by
  have ag := w.agree (sp.ne_class hc _ List.mem_cons_self)
  have fu := en.furnished c
  have hne : ∀ {t}, (c.context h).IsType t → t ≠ new := sp.ne_of_isType w
  have hargs : ∀ {args args'}, List.Forall₂ (fun a a' => a' = a ∧ (c.context h).IsType a) args args' →
      args' = args ∧ ∀ a ∈ args, a ≠ new := by
    intro args args' hrel
    induction hrel with
    | nil => exact ⟨rfl, by simp⟩
    | cons ha _ ih => exact ⟨by rw [ha.1, ih.1], List.forall_mem_cons.mpr ⟨hne ha.2, ih.2⟩⟩
  have hvar : ∀ scope x, (c.context h').objectType? scope x = (c.context h).objectType? scope x := by
    intro scope x
    exact congrArg (Option.or _) (w.findAttr?_eq ag.own)
  have hobj : ∀ {scope : Scope} {x}, scope.Avoids new → ∀ t,
      (c.context h').objectType? scope x = some t → t ≠ new := by
    intro scope x hs t ht
    rw [hvar, objectType?, Scope.objectType?, Option.or_eq_some_iff] at ht
    rcases ht with ht | ⟨-, ht⟩
    · rintro rfl
      exact hs x ht
    · exact en.attribute_ne sp hc ht
  have hmethod : ∀ {owner m}, owner ≠ new → h'.findMethod? owner m = h.findMethod? owner m :=
    w.findMethod?_eq
  have hbasic : ∀ q ∈ [Predefined.object, .int, .bool, .string, .noType],
      (c.context h).IsType ((c.context h).names q) := by
    simp [fu.isType_object, fu.isType_int, fu.isType_bool, fu.isType_string, isType_noType]
  constructor
  case names => exact ag.names
  case isKnown => exact ag.isKnown_eq
  case known => exact fun _ hk => ⟨rfl, Or.inr hk⟩
  case basic => exact fun q hq => ⟨rfl, hbasic q hq⟩
  case extend =>
    rintro scope _ name type ⟨rfl, hs⟩ hw
    have hbound : (c.context h').bound type = (c.context h).bound type := by
      rw [bound, bound, ag.isKnown_eq hw, ag.names]
    have hne' : (c.context h).bound type ≠ new := by
      rw [bound]
      split_ifs
      · exact hw
      · exact hne fu.isType_object
    rw [extend, extend, ag.names, hbound]
    split_ifs
    · exact ⟨rfl, hs.push⟩
    · exact ⟨rfl, hs.push.define hne'⟩
  case require => exact same_unit ag.require_eq
  case identifier =>
    rintro scope _ line name ⟨rfl, hs⟩
    exact same_of_eq (ag.identifierType_eq (by rw [hvar]) (hobj hs)) fu.ends_identifierType.meets
  case assign =>
    rintro scope _ line name t _ ⟨rfl, hs⟩ ⟨rfl, ht⟩
    exact same_of_eq (ag.assignType_eq (by rw [hvar]) (hobj hs) (hne ht)) (fu.ends_assignType ht).meets
  case dispatch =>
    rintro line m s _ args args' - ⟨rfl, hs⟩ hrel
    obtain ⟨rfl, hall⟩ := hargs hrel
    exact same_of_eq (ag.dispatchType_eq (hmethod (ag.denoted (hne hs))) (fun _ _ => en.result_ne sp)
      (hne hs) hall) (fu.ends_dispatchType hs).meets
  case staticDispatch =>
    rintro line owner m s _ args args' hown - ⟨rfl, hs⟩ hrel
    obtain ⟨rfl, hall⟩ := hargs hrel
    exact same_of_eq (ag.staticDispatchType_eq (hmethod hown) (fun _ => en.result_ne sp) hown (hne hs)
      hall) (fu.ends_staticDispatchType hs).meets
  case join =>
    rintro s _ t _ ⟨rfl, hs⟩ ⟨rfl, ht⟩
    exact same_of_eq (ag.join (hne hs) (hne ht)) (joins_true _ hs ht)
  case predicate =>
    rintro of line t _ ⟨rfl, ht⟩
    exact same_unit ag.checkPredicate_eq
  case fits =>
    rintro type line t _ cause ⟨rfl, ht⟩
    refine same_unit ?_
    rw [ag.require_eq, ag.conforms (hne ht)]
  case arith =>
    rintro op line s _ t _ ⟨rfl, -⟩ ⟨rfl, -⟩
    exact same_of_eq ag.arithType_eq (fu.ends_expect fun _ => fu.isType_int).meets
  case compare =>
    rintro op line s _ t _ ⟨rfl, -⟩ ⟨rfl, -⟩
    exact same_of_eq ag.compareType_eq (fu.ends_expect fun _ => fu.isType_bool).meets
  case eq =>
    rintro line s _ t _ ⟨rfl, -⟩ ⟨rfl, -⟩
    exact same_of_eq ag.eqType_eq (fu.ends_expect fun _ => fu.isType_bool).meets
  case neg =>
    rintro line t _ ⟨rfl, -⟩
    exact same_of_eq ag.negType_eq (fu.ends_expect fun _ => fu.isType_int).meets
  case not =>
    rintro line t _ ⟨rfl, -⟩
    exact same_of_eq ag.notType_eq (fu.ends_expect fun _ => fu.isType_bool).meets

theorem meets_bindFormals (hobj : h.names .object ≠ new) {fs : List Formal}
    (hfs : ∀ f ∈ fs, f.type ≠ new) {scope : Scope} (hs : scope.Avoids new) :
    ((c.context h).bindFormals scope fs).Meets True (·.Avoids new) := by
  induction fs generalizing scope with
  | nil => exact meets_pure hs
  | cons f fs ih =>
    rw [List.forall_mem_cons] at hfs
    rw [bindFormals]
    split_ifs
    · exact (ends_note _).meets.bind fun _ _ => ih hfs.2 hs
    · refine ends_require.meets.bind fun _ _ => ?_
      rw [expect_eq, bind_assoc]
      refine ends_require.meets.bind fun _ _ => ?_
      rw [pure_bind]
      refine ih hfs.2 (hs.define ?_)
      split_ifs
      · exact hfs.1
      · exact hobj

theorem Widens.check_eq (w : Widens h h' new) (en : h.Enrols p) (sp : p.Spares h.names new)
    (hc : c ∈ p.classes) : c.check h' = c.check h := by
  have cc := w.concord en sp hc
  have ag := w.agree (sp.ne_class hc _ List.mem_cons_self)
  have hobj : h.names .object ≠ new := (sp.free .object (by simp)).symm
  have hscope : (c.context h).classScope.Avoids new := by
    refine .define (fun x => ?_) (sp.free .selfType (by simp)).symm
    rw [Scope.lookup_empty]
    exact nofun
  refine ClassDecl.check_eq cc (fun hr => hr.1.symm) (fun hs => ⟨congrArg Scope.push hs.1, hs.2.push⟩)
    ⟨rfl, hscope⟩ (fun f hf => sp.ne_feature hc hf) fun f hf => ?_
  have hne := sp.ne_feature hc hf
  cases f with
  | method m =>
    have hformals : ∀ f ∈ m.formals, f.type ≠ new := by
      intro f hf
      refine hne f.type (List.mem_cons_of_mem _ (List.mem_append_left _ ?_))
      exact List.mem_map_of_mem hf
    refine .method rfl rfl rfl ?_ ?_
    · exact same_unit (ag.checkOverride_eq (w.inheritedMethod?_eq ag.own))
    · exact same_of_eq (ag.bindFormals_eq _ hformals)
        (meets_bindFormals hobj hformals hscope.push.push)
  | attr a =>
    have hinherited : h'.inheritedAttr? c.name a.name = h.inheritedAttr? c.name a.name :=
      w.inheritedAttr?_eq ag.own
    refine .attr rfl rfl (same_unit ?_) ?_
    · rw [ag.names, ag.require_eq]
      simp only [ClassDecl.context, hinherited]
    · rw [ag.isKnown_eq (hne a.type List.mem_cons_self), ag.expect_eq]
      exact same.refl _

end Hierarchy

/-! Two registrations. -/

/-- A class that the program does not mention and whose declaration has no faults: its name is free, its
parent is one that the program offers, and its features do not clash. -/
structure ClassDecl.Unrelated (names : Vocabulary) (p : Program) (d : ClassDecl) : Prop where
  spared : p.Spares names d.name
  parent : d.parent = names .object ∨ d.parent = names .io ∨ ∃ c ∈ p.classes, c.name = d.parent
  clashes : d.clashes names = []

namespace Hierarchy

variable {names : Vocabulary} {pre post : List ClassDecl} {d : ClassDecl}

theorem addAll_append (h : Hierarchy) (cs more : List ClassDecl) :
    h.addAll (cs ++ more) = (h.addAll cs).addAll more :=
  List.foldl_append

theorem rejection?_unrelated {h : Hierarchy} {p : Program} (w : Widens h h d.name)
    (hd : d.Unrelated h.names p)
    (hunreserved : ∀ c ∈ p.classes, h.names.isReserved c.name = false) :
    h.rejection? d = none := by
  have hfree := hd.spared.free
  simp only [List.mem_cons, List.not_mem_nil, or_false, forall_eq_or_imp, forall_eq] at hfree
  have hparent : d.parent ≠ d.name ∧ h.names.isSealed d.parent = false := by
    rcases hd.parent with heq | heq | ⟨c, hc, heq⟩
    · rw [heq]
      exact ⟨hfree.1.symm, by simp [Vocabulary.isSealed]⟩
    · rw [heq]
      exact ⟨hfree.2.1.symm, by simp [Vocabulary.isSealed]⟩
    · have hres := hunreserved c hc
      rw [← heq]
      refine ⟨hd.spared.ne_class hc _ List.mem_cons_self, ?_⟩
      simp only [Vocabulary.isReserved, Vocabulary.isSealed, Bool.or_eq_false_iff] at hres ⊢
      tauto
  refine rejection?_eq_none_iff.mpr ⟨?_, hparent.2, w.fresh, ?_⟩
  · simp [Vocabulary.isReserved, hfree]
  · refine (closesCycle_eq_false_iff w.acyclic).mpr fun r => ?_
    rcases (reaches_iff w.acyclic).mp r with heq | hmem
    · exact hparent.1 heq.symm
    · exact w.ne_of_mem_chain hmem rfl

theorem Enrols.has_parent {h : Hierarchy} {p : Program} (en : h.Enrols p)
    (hd : d.Unrelated h.names p) : h.has d.parent = true := by
  rcases hd.parent with heq | heq | ⟨c, hc, heq⟩
  · rw [heq]
    exact en.has_basic (c := BasicClasses.object h.names) (by simp [BasicClasses.all])
  · rw [heq]
    exact en.has_basic (c := BasicClasses.io h.names) (by simp [BasicClasses.all])
  · rw [← heq]
    exact en.has_class hc

theorem build_inserted (hclean : (build names ⟨pre ++ post⟩).outlineFaults = [])
    (hd : d.Unrelated names ⟨pre ++ post⟩) :
    (build names ⟨pre ++ d :: post⟩).outlineFaults = [] ∧
      Widens (build names ⟨pre ++ post⟩).hierarchy (build names ⟨pre ++ d :: post⟩).hierarchy
        d.name := by
  obtain ⟨hn, en, cl⟩ := outline_clean hclean
  obtain ⟨hfaults, hmain, -⟩ := Registration.outlineFaults_eq_nil_iff.mp hclean
  have he : (basic names).Enters (pre ++ post) := by
    refine entryFaults_eq_nil_iff.mp ?_
    rw [Registration.entryFaults, ← build, hfaults, List.filter_nil]
  obtain ⟨hpre, hpost⟩ := enters_append.mp he
  have hne : ∀ c ∈ pre ++ post, c.name ≠ d.name ∧ c.parent ≠ d.name := fun c hc =>
    ⟨hd.spared.ne_class hc _ (by simp [ClassDecl.typeNames]),
      hd.spared.ne_class hc _ (by simp [ClassDecl.typeNames])⟩
  rw [List.forall_mem_append] at hne
  -- the classes before the new one, then that, then the others over both
  have w₀ : Widens ((basic names).addAll pre) ((basic names).addAll pre) d.name := by
    refine ((widens_basic fun q hq => hd.spared.free q ?_).addAll hpre hne.1).2
    simp only [List.mem_cons, List.not_mem_nil, or_false] at hq ⊢
    tauto
  have hr : ((basic names).addAll pre).rejection? d = none := by
    refine rejection?_unrelated w₀ (p := ⟨pre ++ post⟩) ?_ ?_
    · rwa [addAll_names, basic_names]
    · rw [addAll_names, basic_names, ← hn]
      exact en.unreserved
  obtain ⟨hpost', w⟩ := (w₀.insert hr).addAll hpost hne.2
  have he' : (basic names).Enters (pre ++ d :: post) := enters_append.mpr ⟨hpre, hr, hpost'⟩
  have hh : (build names ⟨pre ++ post⟩).hierarchy = ((basic names).addAll pre).addAll post := by
    rw [build, he.registerAll_eq, addAll_append]
  have hh' : (build names ⟨pre ++ d :: post⟩).hierarchy =
      (((basic names).addAll pre).add d).addAll post := by
    rw [build, he'.registerAll_eq, addAll_append, addAll_cons]
  rw [← hh, ← hh'] at w
  have hfaults' : (build names ⟨pre ++ d :: post⟩).faults = [] := by
    rw [build, he.registerAll_eq] at hfaults
    rw [build, he'.registerAll_eq]
    simp only [List.flatMap_append, List.flatMap_cons, List.append_eq_nil_iff, basic_names] at hfaults ⊢
    exact ⟨hfaults.1, hd.clashes, hfaults.2⟩
  have en' := enrols_build hfaults'
  refine ⟨Registration.outlineFaults_eq_nil_iff.mpr ⟨hfaults', ?_, ?_⟩, w⟩
  · exact w.mainFault?_eq hmain
  · refine parentFaults_eq_nil_iff.mpr (w.closed cl fun q hq => ?_)
    have hmem : d ∈ Program.roster ⟨pre ++ d :: post⟩ (build names ⟨pre ++ d :: post⟩).hierarchy.names :=
      List.mem_append_right _ (by simp)
    rw [en'.parent?_eq hmem] at hq
    rw [← Option.some.inj hq]
    refine en.has_parent ?_
    rwa [hn]

end Hierarchy

/-! Two analyses. -/

namespace Program

variable {p : Program} {i : Interner} {v : Verdict}

theorem outcome_of_verdict (hclean : (p.analyse i).registration.outlineFaults = [])
    (hv : (p.analyse i).verdict = .ok v) :
    ∀ c ∈ p.classes, (c.check (p.analyse i).hierarchy).outcome =
      .ok (c.annotated (p.analyse i).hierarchy) := by
  intro c hc
  cases hx : (c.check (p.analyse i).hierarchy).outcome with
  | ok c₁ => rw [ClassDecl.annotated, hx]
  | error e =>
    obtain ⟨e', he'⟩ := Report.all_map_of_error hc hx
    rw [analyse_verdict_eq, if_pos hclean, he'] at hv
    cases hv

theorem verdict_of_outcome (hclean : (p.analyse i).registration.outlineFaults = [])
    (hok : ∀ c ∈ p.classes, (c.check (p.analyse i).hierarchy).outcome =
      .ok (c.annotated (p.analyse i).hierarchy)) :
    (p.analyse i).verdict = .ok ⟨⟨p.classes.map (·.annotated (p.analyse i).hierarchy)⟩,
      (p.classes.map (·.check (p.analyse i).hierarchy)).flatMap (·.faults)⟩ := by
  rw [analyse_verdict_eq, if_pos hclean, Report.all_map_of_ok hok, List.flatMap_map]
  rfl

theorem check_inserted {pre post : List ClassDecl} {d : ClassDecl} {p' : Program}
    (hp : p.classes = pre ++ post) (hp' : p'.classes = pre ++ d :: post)
    (hclean : (p.analyse i).registration.outlineFaults = [])
    (hd : d.Unrelated (Vocabulary.intern i).1 p) :
    (p'.analyse i).registration.outlineFaults = [] ∧
      ∀ c ∈ p.classes, c.check (p'.analyse i).hierarchy = c.check (p.analyse i).hierarchy := by
  obtain ⟨_⟩ := p
  obtain ⟨_⟩ := p'
  subst hp hp'
  obtain ⟨hclean', w⟩ := Hierarchy.build_inserted hclean hd
  obtain ⟨hn, en, -⟩ := Hierarchy.outline_clean hclean
  refine ⟨hclean', fun c hc => w.check_eq en ?_ hc⟩
  rw [hn]
  exact hd.spared

/-- Where the classes of a program are checked, they are checked with one more among them that they do
not mention, and each is reported on as before. If that analysis comes to its end, so does the one
without the class. Then every class of the program is left with the same types, and its faults are the
same in the same order. -/
theorem analyse_inserted {p' : Program} {pre post : List ClassDecl} {d : ClassDecl}
    (hp : p.classes = pre ++ post) (hp' : p'.classes = pre ++ d :: post)
    (hclean : (p.analyse i).registration.outlineFaults = [])
    (hd : d.Unrelated (Vocabulary.intern i).1 p) :
    ∃ before r after, before.length = pre.length ∧
      (p.analyse i).conclusion = .checked (before ++ after) ∧
      (p'.analyse i).conclusion = .checked (before ++ r :: after) ∧
      ∀ v', (p'.analyse i).verdict = .ok v' → ∃ v as d' bs, (p.analyse i).verdict = .ok v ∧
        as.length = pre.length ∧ v.program.classes = as ++ bs ∧ v'.program.classes = as ++ d' :: bs ∧
        v.faults = before.flatMap (·.faults) ++ after.flatMap (·.faults) ∧
        v'.faults = before.flatMap (·.faults) ++ (r.faults ++ after.flatMap (·.faults)) := by
  obtain ⟨hclean', hcheck⟩ := check_inserted hp hp' hclean hd
  have hmap : ∀ {β : Type} {g g' : ClassDecl → β}, (∀ c ∈ p.classes, g' c = g c) →
      p.classes.map g = pre.map g ++ post.map g ∧
        p'.classes.map g' = pre.map g ++ g' d :: post.map g := by
    intro β g g' hg
    rw [hp, List.forall_mem_append] at hg
    rw [hp, hp', List.map_append, List.map_append, List.map_cons, List.map_congr_left hg.1,
      List.map_congr_left hg.2]
    exact ⟨rfl, rfl⟩
  obtain ⟨hreports, hreports'⟩ := hmap hcheck
  refine ⟨pre.map (·.check (p.analyse i).hierarchy), d.check (p'.analyse i).hierarchy,
    post.map (·.check (p.analyse i).hierarchy), List.length_map _,
    analyse_checked_iff.mpr ⟨hclean, hreports⟩, analyse_checked_iff.mpr ⟨hclean', hreports'⟩, ?_⟩
  intro v' hv'
  have hok' := outcome_of_verdict hclean' hv'
  have hann : ∀ c ∈ p.classes,
      c.annotated (p'.analyse i).hierarchy = c.annotated (p.analyse i).hierarchy := by
    intro c hc
    rw [ClassDecl.annotated, ClassDecl.annotated, hcheck c hc]
  have hok : ∀ c ∈ p.classes, (c.check (p.analyse i).hierarchy).outcome =
      .ok (c.annotated (p.analyse i).hierarchy) := by
    intro c hc
    rw [← hcheck c hc, ← hann c hc]
    refine hok' c ?_
    rw [hp, List.mem_append] at hc
    rw [hp', List.mem_append, List.mem_cons]
    tauto
  obtain ⟨hclasses, hclasses'⟩ := hmap hann
  rw [verdict_of_outcome hclean' hok', hreports', hclasses'] at hv'
  rw [← Except.ok.inj hv', verdict_of_outcome hclean hok, hreports, hclasses]
  refine ⟨_, _, _, _, rfl, List.length_map _, rfl, rfl, ?_, ?_⟩
  · rw [List.flatMap_append]
  · rw [List.flatMap_append, List.flatMap_cons]

/-- A class under the last of `parentsLast`, with an attribute of an undefined type. -/
def newcomer : ClassDecl :=
  ⟨⟨32⟩, ⟨27⟩, [.attr ⟨⟨33⟩, ⟨34⟩, Expr.absent 1, 1⟩], "b.cl", 1⟩

/-- It may stand before its parent, and adds its own fault to those that the others keep. -/
theorem analyse_inserted_beforeParent :
    ∃ v v' as d' bs, ((⟨parentsLast .initial⟩ : Program).analyse .empty).verdict = .ok v ∧
      ((⟨(parentsLast .initial).insertIdx 1 newcomer⟩ : Program).analyse .empty).verdict = .ok v' ∧
      v.faults.length = 3 ∧ v'.faults.length = 4 ∧ as.length = 1 ∧
      v.program.classes = as ++ bs ∧ v'.program.classes = as ++ d' :: bs := by
  have hverdicts : ∃ v v', ((⟨parentsLast .initial⟩ : Program).analyse .empty).verdict = .ok v ∧
      ((⟨(parentsLast .initial).insertIdx 1 newcomer⟩ : Program).analyse .empty).verdict = .ok v' ∧
      v.faults.length = 3 ∧ v'.faults.length = 4 := ⟨_, _, rfl, rfl, by decide, by decide⟩
  obtain ⟨v, v', hv, hv', hlen, hlen'⟩ := hverdicts
  have hd : newcomer.Unrelated (Vocabulary.intern .empty).1 ⟨parentsLast .initial⟩ :=
    ⟨⟨by decide, by decide⟩, Or.inr (Or.inr ⟨_, List.mem_of_getElem? (i := 2) rfl, rfl⟩), by decide⟩
  have hp : (⟨parentsLast .initial⟩ : Program).classes =
      (parentsLast .initial).take 1 ++ (parentsLast .initial).drop 1 := rfl
  have hp' : (⟨(parentsLast .initial).insertIdx 1 newcomer⟩ : Program).classes =
      (parentsLast .initial).take 1 ++ newcomer :: (parentsLast .initial).drop 1 := rfl
  obtain ⟨_, _, _, -, -, -, hend⟩ := analyse_inserted hp hp' (by decide) hd
  obtain ⟨w, as, d', bs, hw, has, hclasses, hclasses', -, -⟩ := hend v' hv'
  rw [hv] at hw
  rw [← Except.ok.inj hw] at hclasses
  exact ⟨v, v', as, d', bs, hv, hv', hlen, hlen', has, hclasses, hclasses'⟩

end Program
end CoolStatics
