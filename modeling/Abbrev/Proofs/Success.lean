import Mathlib.Data.List.Forall2

/-! What has happened when a computation that may fail succeeds: each of its steps has succeeded in
turn, each of its checks was passed, and a repetition has kept what every single step keeps. The
results of a step taken for each element of a list are related to the elements one by one. -/

namespace Abbrev

variable {ε α β : Type}

theorem bind_eq_ok {x : Except ε α} {f : α → Except ε β} {b : β} :
    (x >>= f) = .ok b ↔ ∃ a, x = .ok a ∧ f a = .ok b := by
  cases x <;> simp [bind, Except.bind]

theorem map_eq_ok {x : Except ε α} {f : α → β} {b : β} :
    x.map f = .ok b ↔ ∃ a, x = .ok a ∧ f a = b := by
  cases x <;> simp [Except.map]

theorem mapError_eq_ok {ε' : Type} {x : Except ε α} {f : ε → ε'} {a : α} :
    x.mapError f = .ok a ↔ x = .ok a := by
  cases x <;> simp [Except.mapError]

theorem toOption_eq_some {x : Except ε α} {a : α} : x.toOption = some a ↔ x = .ok a := by
  cases x <;> simp [Except.toOption]

theorem toOption_eq_none {x : Except ε α} : x.toOption = none ↔ ∃ e, x = .error e := by
  cases x <;> simp [Except.toOption]

@[simp] theorem pure_eq_ok {a b : α} : (pure a : Except ε α) = .ok b ↔ a = b := by
  simp [pure, Except.pure]

@[simp] theorem throw_ne_ok {e : ε} {b : α} : (throw e : Except ε α) ≠ .ok b := by
  simp [throw, throwThe, MonadExceptOf.throw]

@[simp] theorem throw_bind {e : ε} {f : α → Except ε β} : (throw e >>= f) = throw e := rfl

/-- A check in front of the rest of a computation was passed when the whole succeeds. -/
theorem ite_throw_eq_ok {p : Prop} [Decidable p] {e : ε} {x : Except ε β} {b : β} :
    (if p then throw e else x) = .ok b ↔ ¬ p ∧ x = .ok b := by
  by_cases h : p <;> simp [h]

theorem mapM_eq_ok {f : α → Except ε β} {xs : List α} {ys : List β} :
    xs.mapM f = .ok ys ↔ List.Forall₂ (fun x y => f x = .ok y) xs ys := by
  induction xs generalizing ys with
  | nil =>
    rw [List.mapM_nil, pure_eq_ok, List.forall₂_nil_left_iff]
    exact eq_comm
  | cons x xs ih =>
    rw [List.mapM_cons, bind_eq_ok, List.forall₂_cons_left_iff]
    simp only [bind_eq_ok, pure_eq_ok, ih]
    constructor
    · rintro ⟨y, hy, ys', hys, rfl⟩
      exact ⟨y, ys', hy, hys, rfl⟩
    · rintro ⟨y, ys', hy, hys, rfl⟩
      exact ⟨y, hy, ys', hys, rfl⟩

theorem forall₂_append_left_iff {R : α → β → Prop} {xs xs' : List α} {ys : List β} :
    List.Forall₂ R (xs ++ xs') ys ↔
      ∃ zs zs', List.Forall₂ R xs zs ∧ List.Forall₂ R xs' zs' ∧ ys = zs ++ zs' := by
  induction xs generalizing ys with
  | nil => simp
  | cons x xs ih =>
    simp only [List.cons_append, List.forall₂_cons_left_iff, ih]
    constructor
    · rintro ⟨y, _, hxy, ⟨zs, zs', hzs, hzs', rfl⟩, rfl⟩
      exact ⟨y :: zs, zs', ⟨y, zs, hxy, hzs, rfl⟩, hzs', rfl⟩
    · rintro ⟨_, zs', ⟨y, zs, hxy, hzs, rfl⟩, hzs', rfl⟩
      exact ⟨y, zs ++ zs', hxy, ⟨zs, zs', hzs, hzs', rfl⟩, rfl⟩

/-- What is related to a list of lists in a row is a list of lists in a row. -/
theorem forall₂_flatMap_left_iff {γ : Type} {R : α → β → Prop} {g : γ → List α} {xs : List γ}
    {ys : List β} :
    List.Forall₂ R (xs.flatMap g) ys ↔
      ∃ yss, List.Forall₂ (fun x zs => List.Forall₂ R (g x) zs) xs yss ∧ ys = yss.flatten := by
  induction xs generalizing ys with
  | nil => simp
  | cons x xs ih =>
    simp only [List.flatMap_cons, forall₂_append_left_iff, List.forall₂_cons_left_iff, ih]
    constructor
    · rintro ⟨zs, _, hzs, ⟨yss, hyss, rfl⟩, rfl⟩
      exact ⟨zs :: yss, ⟨zs, yss, hzs, hyss, rfl⟩, rfl⟩
    · rintro ⟨_, ⟨zs, yss, hzs, hyss, rfl⟩, rfl⟩
      exact ⟨zs, yss.flatten, hzs, ⟨yss, hyss, rfl⟩, rfl⟩

theorem exists_of_forall₂ {R : α → β → Prop} {xs : List α} {ys : List β} (h : List.Forall₂ R xs ys)
    {x : α} (hx : x ∈ xs) : ∃ y ∈ ys, R x y := by
  induction h with
  | nil => cases hx
  | @cons a b as bs hab _ ih =>
    rcases List.mem_cons.1 hx with rfl | hx
    · exact ⟨b, List.mem_cons_self, hab⟩
    · obtain ⟨y, hy, hxy⟩ := ih hx
      exact ⟨y, List.mem_cons_of_mem b hy, hxy⟩

theorem exists_forall₂ {R : α → β → Prop} {xs : List α} (h : ∀ x ∈ xs, ∃ y, R x y) :
    ∃ ys, List.Forall₂ R xs ys := by
  induction xs with
  | nil => exact ⟨[], .nil⟩
  | cons x xs ih =>
    obtain ⟨y, hy⟩ := h x List.mem_cons_self
    obtain ⟨ys, hys⟩ := ih fun z hz => h z (List.mem_cons_of_mem x hz)
    exact ⟨y :: ys, .cons hy hys⟩

theorem map_eq_map_of_forall₂ {γ : Type} {f : α → γ} {g : β → γ} {xs : List α} {ys : List β}
    (h : List.Forall₂ (fun x y => g y = f x) xs ys) : ys.map g = xs.map f := by
  induction h with
  | nil => rfl
  | cons hxy _ ih => rw [List.map_cons, List.map_cons, hxy, ih]

/-- The invariant of a repetition speaks of the elements already taken and of what they gave. -/
theorem foldlM_induction {step : β → α → Except ε β} (motive : List α → β → Prop) {start : β}
    (first : motive [] start)
    (next : ∀ seen x b c, motive seen b → step b x = .ok c → motive (seen ++ [x]) c)
    {xs : List α} {last : β} (h : xs.foldlM step start = .ok last) : motive xs last := by
  suffices hall : ∀ (xs seen : List α) (b : β), motive seen b → xs.foldlM step b = .ok last →
      motive (seen ++ xs) last from hall xs [] start first h
  intro xs
  induction xs with
  | nil =>
    intro seen b hb hlast
    rw [List.foldlM_nil, pure_eq_ok] at hlast
    rw [List.append_nil, ← hlast]
    exact hb
  | cons x xs ih =>
    intro seen b hb hlast
    rw [List.foldlM_cons, bind_eq_ok] at hlast
    obtain ⟨c, hc, hrest⟩ := hlast
    rw [List.append_cons]
    exact ih (seen ++ [x]) c (next seen x b c hb hc) hrest

section Pushing

variable {σ : Type} {step : σ → α → Except ε σ} {push : σ → β → σ} {R : α → β → Prop}
  {P : List β → β → Prop} {I : List β → σ → Prop} {start : σ} {xs : List α} {ys : List β}

/-- What holds of a state that one element after the other is put into, each as is required in view
of those before it. -/
theorem foldl_push_induction (first : I [] start)
    (next : ∀ ys s x y, I ys s → R x y → P ys y → I (ys ++ [y]) (push s y))
    (h : List.Forall₂ R xs ys) (hP : ∀ pre y post, ys = pre ++ y :: post → P pre y) :
    I ys (ys.foldl push start) := by
  suffices hall : ∀ (acc : List β) (s : σ), I acc s →
      (∀ pre y post, ys = pre ++ y :: post → P (acc ++ pre) y) → I (acc ++ ys) (ys.foldl push s) from
    hall [] start first hP
  clear hP
  induction h with
  | nil =>
    intro acc s hs _
    rwa [List.append_nil]
  | @cons x y xs ys hxy _ ih =>
    intro acc s hs hP
    have hy : P acc y := by simpa using hP [] y ys rfl
    rw [List.append_cons]
    refine ih (acc ++ [y]) (push s y) (next acc s x y hs hxy hy) fun pre z post hys => ?_
    simpa using hP (y :: pre) z post (hys ▸ rfl)

/-- A repetition that puts in one element at a time: what each element is related to, and what was
required of it in view of those before it. -/
theorem foldlM_push_eq_ok (first : I [] start)
    (next : ∀ ys s x y, I ys s → R x y → P ys y → I (ys ++ [y]) (push s y))
    (hstep : ∀ ys s x s', I ys s → (step s x = .ok s' ↔ ∃ y, R x y ∧ P ys y ∧ s' = push s y))
    {last : σ} :
    xs.foldlM step start = .ok last ↔
      ∃ ys, List.Forall₂ R xs ys ∧ (∀ pre y post, ys = pre ++ y :: post → P pre y) ∧
        last = ys.foldl push start := by
  suffices hall : ∀ (acc : List β) (s : σ), I acc s → (xs.foldlM step s = .ok last ↔
      ∃ ys, List.Forall₂ R xs ys ∧ (∀ pre y post, ys = pre ++ y :: post → P (acc ++ pre) y) ∧
        last = ys.foldl push s) from hall [] start first
  induction xs with
  | nil =>
    intro acc s _
    rw [List.foldlM_nil, pure_eq_ok]
    constructor
    · rintro rfl
      exact ⟨[], .nil, by simp, rfl⟩
    · rintro ⟨ys, hys, -, rfl⟩
      rw [List.forall₂_nil_left_iff.1 hys, List.foldl_nil]
  | cons x xs ih =>
    intro acc s hs
    rw [List.foldlM_cons, bind_eq_ok]
    constructor
    · rintro ⟨s', hs', hrest⟩
      obtain ⟨y, hxy, hy, rfl⟩ := (hstep acc s x s' hs).1 hs'
      obtain ⟨ys, hys, hP, rfl⟩ := (ih (acc ++ [y]) _ (next acc s x y hs hxy hy)).1 hrest
      refine ⟨y :: ys, .cons hxy hys, ?_, rfl⟩
      rintro (_ | ⟨y', pre⟩) z post hsplit
      · obtain ⟨rfl, -⟩ := List.cons_eq_cons.1 hsplit
        rwa [List.append_nil]
      · obtain ⟨rfl, htail⟩ := List.cons_eq_cons.1 hsplit
        simpa using hP pre z post htail
    · rintro ⟨_, hys, hP, rfl⟩
      obtain ⟨y, ys, hxy, hrest, rfl⟩ := List.forall₂_cons_left_iff.1 hys
      have hy : P acc y := by simpa using hP [] y ys rfl
      refine ⟨push s y, (hstep acc s x _ hs).2 ⟨y, hxy, hy, rfl⟩, ?_⟩
      refine (ih (acc ++ [y]) _ (next acc s x y hs hxy hy)).2 ⟨ys, hrest, ?_, rfl⟩
      rintro pre z post rfl
      simpa using hP (y :: pre) z post rfl

end Pushing

theorem pairwise_iff_append_cons {Q : β → β → Prop} {ys : List β} :
    ys.Pairwise Q ↔ ∀ pre y post, ys = pre ++ y :: post → ∀ e ∈ pre, Q e y := by
  constructor
  · rintro h pre y post rfl e he
    exact (List.pairwise_append.1 h).2.2 e he y List.mem_cons_self
  · intro h
    induction ys with
    | nil => exact .nil
    | cons y ys ih =>
      refine List.pairwise_cons.2 ⟨fun z hz => ?_, ih fun pre z post hys e he => ?_⟩
      · obtain ⟨pre, post, rfl⟩ := List.append_of_mem hz
        exact h (y :: pre) z post rfl y List.mem_cons_self
      · exact h (y :: pre) z post (hys ▸ rfl) e (List.mem_cons_of_mem y he)

end Abbrev
