import Mathlib.Data.List.Forall2

/-! Computations with checks. A check that fails leaves no result, neither a value nor a failure of
the computation's own. A computation without checks, taken as one with checks, passes: what is made
of passing steps passes again, and so a checked program is compared with the plain one step by
step. -/

namespace Abbrev

/-- A step that has no result when its check fails. -/
def check {ε α : Type} (x : Option α) : ExceptT ε Option α := ExceptT.lift x

/-- An outcome with no check failed on the way to it. -/
def passing {ε α : Type} (x : Except ε α) : ExceptT ε Option α := ExceptT.mk (some x)

/-- A step of a run that has no result when its check fails. -/
def checkRun {σ α : Type} (x : Option α) : StateT σ Option α := StateT.lift x

/-- A run with no check failed on it. -/
def passingRun {σ α : Type} (x : StateM σ α) : StateT σ Option α := fun st => some (x.run st)

variable {ε σ α β γ : Type}

@[simp] theorem check_some (a : α) : (check (some a) : ExceptT ε Option α) = pure a := rfl

theorem check_run_passing {ε' : Type} (x : Except ε α) :
    (check (passing x).run : ExceptT ε' Option (Except ε α)) = pure x := rfl

theorem passing_bind (x : Except ε α) (f : α → Except ε β) :
    passing (x >>= f) = passing x >>= fun a => passing (f a) := by
  cases x <;> rfl

theorem passing_map (x : Except ε α) (f : α → β) : passing (x.map f) = f <$> passing x := by
  cases x <;> rfl

theorem mapM_eq_passing {f : α → ExceptT ε Option γ} {g : β → Except ε γ} {xs : List α}
    {ys : List β} (h : List.Forall₂ (fun x y => f x = passing (g y)) xs ys) :
    xs.mapM f = passing (ys.mapM g) := by
  induction h with
  | nil => rfl
  | cons hxy _ ih =>
    simp only [List.mapM_cons, hxy, ih, passing_bind]
    rfl

@[simp] theorem checkRun_some (a : α) : (checkRun (some a) : StateT σ Option α) = pure a := rfl

theorem checkRun_run_passing {ε : Type} (x : Except ε α) :
    (checkRun (passing x).run : StateT σ Option (Except ε α)) = pure x := rfl

/-- What follows need only pass on the results that a run can have. -/
theorem passingRun_bind {x : StateM σ α} {f : α → StateM σ β} {g : α → StateT σ Option β}
    (h : ∀ st, g (x.run st).1 = passingRun (f (x.run st).1)) :
    passingRun x >>= g = passingRun (x >>= f) := by
  funext st
  exact congrFun (h st) (x.run st).2

theorem mapM_eq_passingRun {f : α → StateT σ Option β} {g : α → StateM σ β}
    (h : ∀ a, f a = passingRun (g a)) (xs : List α) : xs.mapM f = passingRun (xs.mapM g) := by
  induction xs with
  | nil => rfl
  | cons x xs ih =>
    rw [List.mapM_cons, List.mapM_cons, h, ih]
    exact passingRun_bind fun _ => passingRun_bind fun _ => rfl

theorem mapM_eq_some {f : α → Option γ} {g : β → γ} {xs : List α} {ys : List β}
    (h : List.Forall₂ (fun x y => f x = some (g y)) xs ys) : xs.mapM f = some (ys.map g) := by
  induction h with
  | nil => rfl
  | cons hxy _ ih => rw [List.mapM_cons, hxy, ih, List.map_cons]; rfl

end Abbrev
