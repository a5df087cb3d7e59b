import Abbrev.Proofs.Success

/-! With what a computation can fail: with what one of its steps fails with, and nothing else. Of
several steps that would fail the first decides, and those behind it are not taken. -/

namespace Abbrev

variable {ε α β : Type} {P : ε → Prop}

theorem bind_eq_error {x : Except ε α} {f : α → Except ε β} {e : ε} :
    (x >>= f) = .error e ↔ x = .error e ∨ ∃ a, x = .ok a ∧ f a = .error e := by
  cases x <;> simp [bind, Except.bind]

theorem map_eq_error {x : Except ε α} {f : α → β} {e : ε} :
    x.map f = .error e ↔ x = .error e := by
  cases x <;> simp [Except.map]

theorem mapError_eq_error {ε' : Type} {x : Except ε α} {f : ε → ε'} {e : ε'} :
    x.mapError f = .error e ↔ ∃ e', x = .error e' ∧ f e' = e := by
  cases x <;> simp [Except.mapError]

@[simp] theorem throw_eq_error {e e' : ε} : (throw e : Except ε α) = .error e' ↔ e = e' := by
  simp [throw, throwThe, MonadExceptOf.throw]

@[simp] theorem pure_ne_error {a : α} {e : ε} : (pure a : Except ε α) ≠ .error e := by
  simp [pure, Except.pure]

/-- The first step of a repetition that fails, after all those before it have succeeded. -/
theorem foldlM_eq_error {step : β → α → Except ε β} {start : β} {xs : List α} {e : ε} :
    xs.foldlM step start = .error e ↔ ∃ before x after b, xs = before ++ x :: after ∧
      before.foldlM step start = .ok b ∧ step b x = .error e := by
  constructor
  · intro h
    induction xs generalizing start with
    | nil => cases h
    | cons x xs ih =>
      rw [List.foldlM_cons, bind_eq_error] at h
      rcases h with hx | ⟨b, hb, hrest⟩
      · exact ⟨[], x, xs, start, rfl, rfl, hx⟩
      · obtain ⟨before, y, after, c, rfl, hbefore, hy⟩ := ih hrest
        refine ⟨x :: before, y, after, c, rfl, ?_, hy⟩
        rw [List.foldlM_cons, bind_eq_ok]
        exact ⟨b, hb, hbefore⟩
  · rintro ⟨before, x, after, b, rfl, hbefore, hx⟩
    have hrest : (x :: after).foldlM step b = .error e := by
      rw [List.foldlM_cons]
      exact bind_eq_error.2 (.inl hx)
    rw [List.foldlM_append]
    exact bind_eq_error.2 (.inr ⟨b, hbefore, hrest⟩)

/-- The first element for which a step fails, after all those before it have given a result. -/
theorem mapM_eq_error {f : α → Except ε β} {xs : List α} {e : ε} :
    xs.mapM f = .error e ↔ ∃ before x after, xs = before ++ x :: after ∧
      (∀ y ∈ before, ∃ z, f y = .ok z) ∧ f x = .error e := by
  constructor
  · intro h
    induction xs with
    | nil => cases h
    | cons x xs ih =>
      rw [List.mapM_cons, bind_eq_error] at h
      rcases h with hx | ⟨y, hy, hrest⟩
      · exact ⟨[], x, xs, rfl, by simp, hx⟩
      · rcases bind_eq_error.1 hrest with htail | ⟨ys, -, hpure⟩
        · obtain ⟨before, z, after, rfl, hbefore, hz⟩ := ih htail
          exact ⟨x :: before, z, after, rfl, List.forall_mem_cons.2 ⟨⟨y, hy⟩, hbefore⟩, hz⟩
        · exact absurd hpure pure_ne_error
  · rintro ⟨before, x, after, rfl, hbefore, hx⟩
    induction before with
    | nil =>
      rw [List.nil_append, List.mapM_cons]
      exact bind_eq_error.2 (.inl hx)
    | cons y before ih =>
      obtain ⟨⟨z, hz⟩, hrest⟩ := List.forall_mem_cons.1 hbefore
      rw [List.cons_append, List.mapM_cons]
      exact bind_eq_error.2 (.inr ⟨z, hz, bind_eq_error.2 (.inl (ih hrest))⟩)

/-- Whatever the computation fails with has the property. -/
def FailsOnly (P : ε → Prop) (x : Except ε α) : Prop := ∀ e, x = .error e → P e

namespace FailsOnly

theorem ok (a : α) : FailsOnly P (.ok a) := by
  rintro e ⟨⟩

theorem error {e : ε} (h : P e) : FailsOnly P (.error e : Except ε α) := by
  rintro e' ⟨⟩
  exact h

theorem bind {x : Except ε α} {f : α → Except ε β} (hx : FailsOnly P x)
    (hf : ∀ a, FailsOnly P (f a)) : FailsOnly P (x >>= f) := by
  cases x with
  | error e => exact error (hx e rfl)
  | ok a => exact hf a

theorem map {x : Except ε α} (hx : FailsOnly P x) (f : α → β) : FailsOnly P (x.map f) := by
  cases x with
  | error e => exact error (hx e rfl)
  | ok a => exact ok (f a)

theorem mapM {f : α → Except ε β} {xs : List α} (hf : ∀ x ∈ xs, FailsOnly P (f x)) :
    FailsOnly P (xs.mapM f) := by
  induction xs with
  | nil => exact ok []
  | cons x xs ih =>
    have hrest := ih fun y hy => hf y (List.mem_cons_of_mem x hy)
    rw [List.mapM_cons]
    exact (hf x List.mem_cons_self).bind fun y => hrest.bind fun ys => ok (y :: ys)

theorem foldlM {step : β → α → Except ε β} (hstep : ∀ b a, FailsOnly P (step b a)) (b : β)
    (xs : List α) : FailsOnly P (xs.foldlM step b) := by
  induction xs generalizing b with
  | nil => exact ok b
  | cons x xs ih =>
    rw [List.foldlM_cons]
    exact (hstep b x).bind ih

end FailsOnly

end Abbrev
