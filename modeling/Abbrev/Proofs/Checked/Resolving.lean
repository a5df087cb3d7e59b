import Abbrev.Proofs.Checked.Rendering
import Abbrev.Proofs.Checked.Tokens
import Abbrev.Proofs.Resolution.Contenders

/-! Resolving with every step checked: the tokens and their keys, the pointers of the tables that
the candidates are bound by and the meanings are shown by, and the choice that is taken out of what
was offered. Over well-formed templates no check fails, whatever the text, the settings and the
chooser, and the outcome is that of resolving. -/

namespace Abbrev

namespace Template

/-- Splits the tokens, then binds by name if any of them is named, else by place. -/
def bind? (t : Template) (tokens : List String) (separator : Char) :
    ExceptT Rejection Option Binding := do
  let args ← check (tokens.mapM Argument.ofToken?)
  if args.any Argument.isNamed then t.layout.bindNamed? args separator
  else t.layout.bindPositional? tokens separator

theorem WellFormed.bind?_eq {t : Template} (h : t.WellFormed) (tokens : List String)
    (separator : Char) : t.bind? tokens separator = passing (t.bind tokens separator) := by
  have hargs : tokens.mapM Argument.ofToken? = some (tokens.map Argument.ofToken) :=
    mapM_eq_some (List.forall₂_same.2 fun token _ => Argument.ofToken?_eq_ofToken token)
  rw [bind?, hargs, check_some, pure_bind, bind]
  split
  · exact h.bindNamed?_eq _
  · exact h.bindPositional?_eq tokens

end Template

/-- Binds one candidate after the other. What a candidate has to report is told when it is the last
one and none before it has bound. -/
def gather? (separator : Char) (tokens : List String) :
    List Match → List (Template × Nat) → ExceptT Fault Option (List Match)
  | bound, [] => pure bound
  | bound, (t, id) :: rest => do
    let outcome ← check (t.bind? tokens separator).run
    match outcome with
    | .ok b => gather? separator tokens (bound ++ [⟨id, t, b⟩]) rest
    | .error r => match r.fault?, bound.isEmpty && rest.isEmpty with
      | some f, true => throw f
      | _, _ => gather? separator tokens bound rest

def meanings? (s : Settings) (text : String) (tokens : List String)
    (candidates : List (Template × Nat)) : ExceptT Fault Option Reading := do
  let bound ← gather? s.separator tokens [] candidates
  match bound with
  | m :: ms => pure (.meanings m ms)
  | [] => throw (.commandNotFound (Text.trim text))

section Meanings

variable {separator : Char} {tokens : List String} {candidates : List (Template × Nat)}
  {t : Template} {b : Binding} {r : Rejection}

theorem survivors_cons_of_ok (h : t.bind tokens separator = .ok b) (id : Nat) :
    survivors separator tokens ((t, id) :: candidates) =
      ⟨id, t, b⟩ :: survivors separator tokens candidates := by
  simp [survivors, h]

theorem survivors_cons_of_error (h : t.bind tokens separator = .error r) (id : Nat) :
    survivors separator tokens ((t, id) :: candidates) =
      survivors separator tokens candidates := by
  simp [survivors, h]

theorem lastReport?_singleton (h : t.bind tokens separator = .error r) (id : Nat) :
    lastReport? separator tokens [(t, id)] = r.fault? := by
  simp [lastReport?, h]

theorem gather?_cons_of_ok {rest : List (Template × Nat)} (ht : t.WellFormed)
    (h : t.bind tokens separator = .ok b) (bound : List Match) (id : Nat) :
    gather? separator tokens bound ((t, id) :: rest) =
      gather? separator tokens (bound ++ [⟨id, t, b⟩]) rest := by
  rw [gather?, ht.bind?_eq, check_run_passing, pure_bind, h]

theorem gather?_cons_of_error {rest : List (Template × Nat)} (ht : t.WellFormed)
    (h : t.bind tokens separator = .error r) {bound : List Match}
    (hnext : (bound.isEmpty && rest.isEmpty) = false) (id : Nat) :
    gather? separator tokens bound ((t, id) :: rest) = gather? separator tokens bound rest := by
  rw [gather?, ht.bind?_eq, check_run_passing, pure_bind, h, hnext]
  dsimp only
  cases r.fault? <;> rfl

theorem gather?_of_bound (hwell : ∀ x ∈ candidates, x.1.WellFormed) {bound : List Match}
    (h : bound ≠ []) :
    gather? separator tokens bound candidates =
      passing (.ok (bound ++ survivors separator tokens candidates)) := by
  induction candidates generalizing bound with
  | nil =>
    rw [survivors, List.filterMap_nil, List.append_nil]
    rfl
  | cons x rest ih =>
    obtain ⟨t, id⟩ := x
    obtain ⟨ht, hrest⟩ := List.forall_mem_cons.1 hwell
    cases hbind : t.bind tokens separator with
    | ok b =>
      rw [gather?_cons_of_ok ht hbind, survivors_cons_of_ok hbind,
        List.append_cons bound _ (survivors separator tokens rest)]
      exact ih hrest (List.append_ne_nil_of_right_ne_nil bound (List.cons_ne_nil _ _))
    | error r =>
      have hnext : (bound.isEmpty && rest.isEmpty) = false := by simp [h]
      rw [gather?_cons_of_error ht hbind hnext, survivors_cons_of_error hbind]
      exact ih hrest h

theorem gather?_nil (hwell : ∀ x ∈ candidates, x.1.WellFormed) :
    gather? separator tokens [] candidates = passing (
      if (survivors separator tokens candidates).isEmpty then
        (lastReport? separator tokens candidates).elim (.ok []) .error
      else .ok (survivors separator tokens candidates)) := by
  induction candidates with
  | nil => rfl
  | cons x rest ih =>
    obtain ⟨t, id⟩ := x
    obtain ⟨ht, hrest⟩ := List.forall_mem_cons.1 hwell
    cases hbind : t.bind tokens separator with
    | ok b =>
      rw [gather?_cons_of_ok ht hbind, survivors_cons_of_ok hbind]
      exact gather?_of_bound hrest (List.cons_ne_nil _ _)
    | error r =>
      rw [survivors_cons_of_error hbind]
      cases rest with
      | nil =>
        rw [gather?, ht.bind?_eq, check_run_passing, pure_bind, hbind, lastReport?_singleton hbind]
        dsimp only
        cases r.fault? <;> rfl
      | cons y rest =>
        rw [gather?_cons_of_error ht hbind rfl, ih hrest, lastReport?, lastReport?,
          List.getLast?_cons_cons]

theorem meanings?_eq (hwell : ∀ x ∈ candidates, x.1.WellFormed) (s : Settings) (text : String) :
    meanings? s text tokens candidates = passing (meanings s text tokens candidates) := by
  rw [meanings?, meanings, gather?_nil hwell]
  cases survivors s.separator tokens candidates with
  | cons m ms => rfl
  | nil => cases lastReport? s.separator tokens candidates <;> rfl

end Meanings

def Catalog.read? (c : Catalog) (s : Settings) (text : String) : ExceptT Fault Option Reading := do
  let lines := (Text.lines text).length
  if 1 < lines then throw (.multipleLines lines)
  let line ← check (Line.ofText? s.sigil text)
  match line.tokens with
  | [] => if line.help then pure (.help c.ids) else throw .emptyCommand
  | first :: _ =>
    let begun := c.candidates first
    if begun.isEmpty then throw (.commandNotFound first)
    if line.help then return .help (begun.map (·.2))
    let fitting := begun.filter fun (t, _) => line.tokens.length ≤ t.parts.length
    if fitting.isEmpty then throw .tooManyArguments
    meanings? s text line.tokens fitting

theorem Catalog.read?_eq {c : Catalog} (hwell : ∀ t ∈ c.templates, t.WellFormed) (s : Settings)
    (text : String) : c.read? s text = passing (c.read s text) := by
  rw [read?, read, Line.ofText?_eq_ofText]
  dsimp only
  split
  · rfl
  · rw [check_some, pure_bind]
    cases (Line.ofText s.sigil text).tokens with
    | nil =>
      dsimp only
      split <;> rfl
    | cons first rest =>
      have hfitting : ∀ x ∈ (c.candidates first).filter fun (t, _) =>
          (first :: rest).length ≤ t.parts.length, x.1.WellFormed := fun x hx => by
        obtain ⟨hget, -⟩ := c.mem_candidates.1 (List.mem_of_mem_filter hx)
        exact hwell _ (List.mem_of_getElem? hget)
      dsimp only
      rw [meanings?_eq hfitting]
      split
      · rfl
      · split
        · rfl
        · split <;> rfl

/-- Takes the element at a place out of a list; the last one takes the place. -/
def swapRemove? {α : Type} (xs : List α) (i : Nat) : Option (α × List α) := do
  let x ← xs[i]?
  let last ← xs.getLast?
  pure (x, (xs.set i last).dropLast)

theorem swapRemove?_eq {α : Type} {xs : List α} {i : Nat} (h : i < xs.length) :
    ∃ rest, swapRemove? xs i = some (xs[i], rest) := by
  have hne : xs ≠ [] := List.ne_nil_of_length_pos (Nat.zero_lt_of_lt h)
  refine ⟨(xs.set i (xs.getLast hne)).dropLast, ?_⟩
  rw [swapRemove?, List.getElem?_eq_getElem h, List.getLast?_eq_some_getLast hne]
  rfl

def choices? (separator : Char) (ms : List Match) : Option (List Choice) :=
  ms.zipIdx.mapM fun x => do
    let label ← x.1.label? separator
    pure ⟨x.2 + 1, label, x.1.id⟩

theorem choices?_eq {ms : List Match} (h : ∀ m ∈ ms, m.template.WellFormed) (separator : Char) :
    choices? separator ms = some (choices separator ms) := by
  rw [choices?, choices]
  refine mapM_eq_some (List.forall₂_same.2 ?_)
  rintro ⟨m, i⟩ hmem
  have hm : m ∈ ms := List.mem_of_getElem? (List.mem_zipIdx_iff_getElem?.1 hmem)
  rw [Match.label?_eq (h m hm)]
  rfl

section Settling

variable {σ : Type}

/-- Picks one of the meanings as `settle` does. A place that was answered is looked at before it is
taken out. -/
def settle? (s : Settings) (chooser : Chooser σ) (first : Match) (others : List Match) :
    StateT σ Option (Except Fault Resolution) :=
  let ms := first :: others
  if others.isEmpty then pure (.ok (.matched first))
  else if s.maxChoices < ms.length then pure (.error (.tooAmbiguous ms.length))
  else do
    let offered ← checkRun (choices? s.separator ms)
    match ← passingRun (chooser offered) with
    | .error f => pure (.error f)
    | .ok none => pure (.ok .cancelled)
    | .ok (some i) =>
      if i < ms.length then do
        let taken ← checkRun (swapRemove? ms i)
        pure (.ok (.matched taken.1))
      else pure (.ok .cancelled)

theorem settle?_eq {first : Match} {others : List Match}
    (h : ∀ m ∈ first :: others, m.template.WellFormed) (s : Settings) (chooser : Chooser σ) :
    settle? s chooser first others = passingRun (settle s chooser first others) := by
  rw [settle?, settle, choices?_eq h, checkRun_some, pure_bind]
  split
  · rfl
  · split
    · rfl
    · refine passingRun_bind fun st => ?_
      rcases ((chooser (choices s.separator (first :: others))).run st).1 with f | _ | i
      · rfl
      · rfl
      · by_cases hi : i < (first :: others).length
        · obtain ⟨rest, hrest⟩ := swapRemove?_eq hi
          dsimp only [Option.bind_some]
          rw [if_pos hi, hrest, List.getElem?_eq_getElem hi]
          rfl
        · dsimp only [Option.bind_some]
          rw [if_neg hi, List.getElem?_eq_none (Nat.not_lt.1 hi)]
          rfl

def Catalog.resolve? (c : Catalog) (s : Settings) (chooser : Chooser σ) (text : String) :
    StateT σ Option (Except Fault Resolution) := do
  match ← checkRun (c.read? s text).run with
  | .error f => pure (.error f)
  | .ok (.help ids) => pure (.ok (.help ids))
  | .ok (.meanings m ms) => settle? s chooser m ms

def Catalog.resolveAll? (c : Catalog) (s : Settings) (chooser : Chooser σ) (text : String) :
    StateT σ Option (List (Except Fault Resolution)) :=
  (Text.lines text).mapM (c.resolve? s chooser)

variable {c : Catalog}

theorem Catalog.resolve?_eq (hwell : ∀ t ∈ c.templates, t.WellFormed) (s : Settings)
    (chooser : Chooser σ) (text : String) :
    c.resolve? s chooser text = passingRun (c.resolve s chooser text) := by
  rw [resolve?, read?_eq hwell, resolve, checkRun_run_passing, pure_bind]
  cases hread : c.read s text with
  | error f => rfl
  | ok reading =>
    cases reading with
    | help ids => rfl
    | meanings m ms =>
      obtain ⟨-, -, hms⟩ := read_eq_meanings.1 hread
      refine settle?_eq (fun n hn => ?_) s chooser
      obtain ⟨hget, -⟩ := (c.mem_contenders s text).1 (hms ▸ hn)
      exact hwell _ (List.mem_of_getElem? hget)

theorem Catalog.resolveAll?_eq (hwell : ∀ t ∈ c.templates, t.WellFormed) (s : Settings)
    (chooser : Chooser σ) (text : String) :
    c.resolveAll? s chooser text = passingRun (c.resolveAll s chooser text) :=
  mapM_eq_passingRun (Catalog.resolve?_eq hwell s chooser) _

end Settling

end Abbrev
