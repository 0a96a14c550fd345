import CoolStatics.Fault
import CoolStatics.Hierarchy.Order

/-!
Computations that note faults as they go and may break off at a join without a common ancestor. The
faults noted before such a break stay in the report.
-/
namespace CoolStatics

structure Report (α : Type) where
  faults : List Fault
  outcome : Except NoCommonAncestor α

namespace Report

variable {α β : Type}

def ok (a : α) : Report α := ⟨[], .ok a⟩

def andThen (r : Report α) (f : α → Report β) : Report β :=
  match r.outcome with
  | .ok a =>
    let s := f a
    ⟨r.faults ++ s.faults, s.outcome⟩
  | .error e => ⟨r.faults, .error e⟩

instance : Monad Report where
  pure := ok
  bind := andThen

def note (f : Fault) : Report Unit := ⟨[f], .ok ()⟩

def noteAll (fs : List Fault) : Report Unit := ⟨fs, .ok ()⟩

def ofExcept (x : Except NoCommonAncestor α) : Report α := ⟨[], x⟩

def completed (r : Report α) : Bool :=
  match r.outcome with
  | .ok _ => true
  | .error _ => false

/-- Reports in a row, up to the first that broke off. -/
def all : List (Report α) → Report (List α)
  | [] => pure []
  | r :: rest => do
    let a ← r
    let others ← all rest
    pure (a :: others)

@[simp] theorem pure_eq (a : α) : (pure a : Report α) = ⟨[], .ok a⟩ := rfl

@[simp] theorem mk_ok_bind (fs : List Fault) (a : α) (f : α → Report β) :
    (⟨fs, .ok a⟩ : Report α) >>= f = ⟨fs ++ (f a).faults, (f a).outcome⟩ := rfl

@[simp] theorem mk_error_bind (fs : List Fault) (e : NoCommonAncestor) (f : α → Report β) :
    (⟨fs, .error e⟩ : Report α) >>= f = ⟨fs, .error e⟩ := rfl

instance : LawfulMonad Report := LawfulMonad.mk' Report
  (fun ⟨fs, r⟩ => by cases r <;> simp [Functor.map, andThen, ok])
  (fun a f => by simp)
  (fun ⟨fs, r⟩ f g => by
    cases r with
    | error e => rfl
    | ok a =>
      simp only [mk_ok_bind]
      rcases f a with ⟨gs, s⟩
      cases s <;> simp)

end Report
end CoolStatics
