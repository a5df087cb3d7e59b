import Abbrev.Proofs.Resolution.Contenders

/-! An ambiguous line is never resolved silently. The chooser is asked once about all contenders, or
not at all, and what comes of a line is one contender, the chooser's own answer, or a fault that
tells how many contenders there were. A chooser that writes down its questions counts them. -/

namespace Abbrev

/-- Asks as the chooser does and writes each question down. -/
def Chooser.recorded {σ : Type} (chooser : Chooser σ) : Chooser (σ × List (List Choice)) :=
  fun shown st =>
    let answered := (chooser shown).run st.1
    (answered.1, answered.2, st.2 ++ [shown])

/-- What an answer to the question among some meanings comes to. -/
def verdict (ms : List Match) : Except Fault (Option Nat) → Except Fault Resolution
  | .error f => .error f
  | .ok none => .ok .cancelled
  | .ok (some i) => match ms[i]? with
    | some m => .ok (.matched m)
    | none => .ok .cancelled

theorem verdict_eq_matched {ms : List Match} {answer : Except Fault (Option Nat)} {m : Match} :
    verdict ms answer = .ok (.matched m) ↔ ∃ i, answer = .ok (some i) ∧ ms[i]? = some m := by
  rcases answer with f | _ | i
  · simp [verdict]
  · simp [verdict]
  · cases h : ms[i]? <;> simp [verdict, h]

/-- What a text comes to when nobody is asked. -/
def Reading.unasked : Reading → Except Fault Resolution
  | .help ids => .ok (.help ids)
  | .meanings m [] => .ok (.matched m)
  | .meanings m (n :: ms) => .error (.tooAmbiguous (m :: n :: ms).length)

theorem Reading.unasked_eq_matched {reading : Reading} {m : Match} :
    reading.unasked = .ok (.matched m) ↔ reading = .meanings m [] := by
  rcases reading with ids | ⟨n, _ | ⟨k, ms⟩⟩ <;> simp [unasked]

theorem settle_tooMany {s : Settings} {σ : Type} {chooser : Chooser σ} {m n : Match}
    {ms : List Match} (h : s.maxChoices < (m :: n :: ms).length) :
    settle s chooser m (n :: ms) = pure (.error (.tooAmbiguous (m :: n :: ms).length)) := by
  simp only [settle, List.isEmpty_cons, Bool.false_eq_true, if_false, h, if_true]

theorem settle_asks {s : Settings} {σ : Type} {chooser : Chooser σ} {m n : Match} {ms : List Match}
    (h : (m :: n :: ms).length ≤ s.maxChoices) :
    settle s chooser m (n :: ms) =
      verdict (m :: n :: ms) <$> chooser (choices s.separator (m :: n :: ms)) := by
  simp only [settle, List.isEmpty_cons, Bool.false_eq_true, if_false, Nat.not_lt.2 h]
  rw [map_eq_pure_bind]
  refine congrArg _ (funext fun answer => ?_)
  rcases answer with f | _ | i
  · rfl
  · rfl
  · simp only [Option.bind_some, verdict]
    cases (m :: n :: ms)[i]? <;> rfl

theorem map_number_choices (separator : Char) (ms : List Match) :
    (choices separator ms).map (·.number) = List.range' 1 ms.length := by
  have hplaces : (choices separator ms).map (·.number) = (ms.zipIdx.map Prod.snd).map (1 + ·) := by
    rw [choices, List.map_map, List.map_map]
    exact List.map_congr_left fun p _ => Nat.add_comm p.2 1
  rw [hplaces, List.zipIdx_map_snd, List.map_add_range']

theorem map_id_choices (separator : Char) (ms : List Match) :
    (choices separator ms).map (·.id) = ms.map (·.id) := by
  conv_rhs => rw [← List.zipIdx_map_fst 0 ms]
  rw [choices, List.map_map, List.map_map]
  rfl

namespace Catalog

variable {c : Catalog} {s : Settings} {text : String}

/-- Whether the chooser is asked about the meanings of a text. -/
def Asks (c : Catalog) (s : Settings) (text : String) : Prop :=
  (Text.lines text).length ≤ 1 ∧ (Line.ofText s.sigil text).help = false ∧
    2 ≤ (c.contenders s text).length ∧
    (c.contenders s text).length ≤ s.maxChoices

instance : Decidable (c.Asks s text) := inferInstanceAs (Decidable (_ ∧ _))

theorem resolve_of_asks (h : c.Asks s text) {σ : Type} (chooser : Chooser σ) :
    c.resolve s chooser text =
      verdict (c.contenders s text) <$>
        chooser (choices s.separator (c.contenders s text)) := by
  obtain ⟨hsingle, hhelp, htwo, hmost⟩ := h
  match hms : c.contenders s text with
  | [] | [_] => simp [hms] at htwo
  | m :: n :: ms =>
    rw [resolve_of_meanings chooser (read_of_contenders hsingle hhelp hms),
      settle_asks (hms ▸ hmost)]

theorem resolve_of_not_asks (h : ¬ c.Asks s text) {σ : Type} (chooser : Chooser σ) :
    c.resolve s chooser text = pure (c.read s text >>= Reading.unasked) := by
  cases hread : c.read s text with
  | error f => exact resolve_of_error chooser hread
  | ok reading =>
    cases reading with
    | help ids =>
      rw [resolve, hread]
      rfl
    | meanings m ms =>
      rw [resolve_of_meanings chooser hread]
      obtain ⟨hsingle, hhelp, hms⟩ := read_eq_meanings.1 hread
      cases ms with
      | nil => rfl
      | cons n ms =>
        have hmost : s.maxChoices < (m :: n :: ms).length := by
          refine Nat.not_le.1 fun hmost => h ⟨hsingle, hhelp, ?_, hms ▸ hmost⟩
          simp [hms]
        exact settle_tooMany hmost

theorem run_resolve_recorded {σ : Type} (chooser : Chooser σ) (st : σ) (log : List (List Choice)) :
    (c.resolve s chooser.recorded text).run (st, log) =
      (((c.resolve s chooser text).run st).1, ((c.resolve s chooser text).run st).2,
        log ++ if c.Asks s text then
          [choices s.separator (c.contenders s text)] else []) := by
  by_cases hasks : c.Asks s text
  · rw [resolve_of_asks hasks, resolve_of_asks hasks, if_pos hasks]
    rfl
  · rw [resolve_of_not_asks hasks, resolve_of_not_asks hasks, if_neg hasks, List.append_nil]
    rfl

theorem resolve_eq_matched {σ : Type} (chooser : Chooser σ) (st : σ) (m : Match) :
    ((c.resolve s chooser text).run st).1 = .ok (.matched m) ↔
      (Text.lines text).length ≤ 1 ∧ (Line.ofText s.sigil text).help = false ∧
        (c.contenders s text = [m] ∨
          c.Asks s text ∧ ∃ i,
            ((chooser (choices s.separator (c.contenders s text))).run st).1 =
              .ok (some i) ∧
            (c.contenders s text)[i]? = some m) := by
  by_cases hasks : c.Asks s text
  · have hne : c.contenders s text ≠ [m] := by
      intro hms
      simp [Asks, hms] at hasks
    simp only [hasks.1, hasks.2.1, hne, hasks, true_and, false_or]
    rw [resolve_of_asks hasks]
    exact verdict_eq_matched
  · simp only [hasks, false_and, or_false, ← read_eq_meanings]
    rw [resolve_of_not_asks hasks]
    have hbind : (c.read s text >>= Reading.unasked) = .ok (.matched m) ↔
        c.read s text = .ok (.meanings m []) := by
      rw [bind_eq_ok]
      simp only [Reading.unasked_eq_matched, exists_eq_right]
    exact hbind

theorem mem_contenders_of_resolve {σ : Type} {chooser : Chooser σ} {st : σ} {m : Match}
    (h : ((c.resolve s chooser text).run st).1 = .ok (.matched m)) : m ∈ c.contenders s text := by
  obtain ⟨-, -, hms | ⟨-, i, -, hi⟩⟩ := (resolve_eq_matched chooser st m).1 h
  · rw [hms]
    exact List.mem_singleton_self m
  · exact List.mem_of_getElem? hi

theorem run_resolve_of_help (hsingle : (Text.lines text).length ≤ 1)
    (hhelp : (Line.ofText s.sigil text).help = true) {σ : Type} (chooser : Chooser σ) (st : σ) :
    (c.resolve s chooser text).run st =
      ((c.helpOn (Line.ofText s.sigil text).tokens.head?).map .help, st) := by
  have hasks : ¬ c.Asks s text := fun h => by simp [h.2.1] at hhelp
  rw [resolve_of_not_asks hasks, read_of_help hsingle hhelp]
  cases c.helpOn (Line.ofText s.sigil text).tokens.head? <;> rfl

theorem run_resolve_of_tooMany (hsingle : (Text.lines text).length ≤ 1)
    (hhelp : (Line.ofText s.sigil text).help = false) (htwo : 2 ≤ (c.contenders s text).length)
    (hmost : s.maxChoices < (c.contenders s text).length) {σ : Type} (chooser : Chooser σ)
    (st : σ) :
    (c.resolve s chooser text).run st =
      (.error (.tooAmbiguous (c.contenders s text).length), st) := by
  match hms : c.contenders s text with
  | [] | [_] => simp [hms] at htwo
  | m :: n :: ms =>
    rw [resolve_of_meanings chooser (read_of_contenders hsingle hhelp hms),
      settle_tooMany (hms ▸ hmost)]
    rfl

/-- Everything that a text can come to, said through its contenders and the chooser's answer. -/
structure ResolvesOpenly (c : Catalog) (s : Settings) {σ : Type} (chooser : Chooser σ)
    (text : String) (st : σ) : Prop where
  contenders_bind : ∀ m, m ∈ c.contenders s text ↔
    c.get? m.id = some m.template ∧
      (∃ first ∈ (Line.ofText s.sigil text).tokens.head?,
        Text.abbreviates first m.template.firstWord = true) ∧
      (Line.ofText s.sigil text).tokens.length ≤ m.template.parts.length ∧
      m.template.bind (Line.ofText s.sigil text).tokens s.separator = .ok m.binding
  /-- One question about all contenders, or none. -/
  questions : ∀ log, (c.resolve s chooser.recorded text).run (st, log) =
    (((c.resolve s chooser text).run st).1, ((c.resolve s chooser text).run st).2,
      log ++ if c.Asks s text then [choices s.separator (c.contenders s text)] else [])
  numbers : (choices s.separator (c.contenders s text)).map (·.number) =
    List.range' 1 (c.contenders s text).length
  ids : (choices s.separator (c.contenders s text)).map (·.id) =
    (c.contenders s text).map (·.id)
  ids_increase : ((c.contenders s text).map (·.id)).Pairwise (· < ·)
  matched : ∀ m, ((c.resolve s chooser text).run st).1 = .ok (.matched m) ↔
    (Text.lines text).length ≤ 1 ∧ (Line.ofText s.sigil text).help = false ∧
      (c.contenders s text = [m] ∨
        c.Asks s text ∧ ∃ i,
          ((chooser (choices s.separator (c.contenders s text))).run st).1 = .ok (some i) ∧
          (c.contenders s text)[i]? = some m)
  answered : c.Asks s text → (c.resolve s chooser text).run st =
    (verdict (c.contenders s text)
        ((chooser (choices s.separator (c.contenders s text))).run st).1,
      ((chooser (choices s.separator (c.contenders s text))).run st).2)
  tooAmbiguous : (Text.lines text).length ≤ 1 → (Line.ofText s.sigil text).help = false →
    2 ≤ (c.contenders s text).length → s.maxChoices < (c.contenders s text).length →
    (c.resolve s chooser text).run st = (.error (.tooAmbiguous (c.contenders s text).length), st)
  unbound : (Text.lines text).length ≤ 1 → (Line.ofText s.sigil text).help = false →
    c.contenders s text = [] → ∃ f, (c.resolve s chooser text).run st = (.error f, st)
  multipleLines : 1 < (Text.lines text).length →
    (c.resolve s chooser text).run st = (.error (.multipleLines (Text.lines text).length), st)
  /-- Help is about the first token alone. -/
  helped : (Text.lines text).length ≤ 1 → (Line.ofText s.sigil text).help = true →
    (c.resolve s chooser text).run st =
      ((c.helpOn (Line.ofText s.sigil text).tokens.head?).map .help, st)
  helped_ids : ∀ first id, id ∈ (c.candidates first).map (·.2) ↔
    ∃ t, c.get? id = some t ∧ Text.abbreviates first t.firstWord = true
  /-- Without a token it is about all templates. -/
  helped_all : (Text.lines text).length ≤ 1 → (Line.ofText s.sigil text).help = true →
    (Line.ofText s.sigil text).tokens = [] →
    ∃ ids, (c.resolve s chooser text).run st = (.ok (.help ids), st) ∧ c.Lists ids fun _ => True
  /-- With one it is about those whose first word the token begins, if there are any. -/
  helped_begun : (Text.lines text).length ≤ 1 → (Line.ofText s.sigil text).help = true →
    ∀ first ∈ (Line.ofText s.sigil text).tokens.head?,
      (∃ id t, c.get? id = some t ∧ Text.abbreviates first t.firstWord = true) →
      ∃ ids, (c.resolve s chooser text).run st = (.ok (.help ids), st) ∧
        c.Lists ids fun t => Text.abbreviates first t.firstWord = true
  helped_none : (Text.lines text).length ≤ 1 → (Line.ofText s.sigil text).help = true →
    ∀ first ∈ (Line.ofText s.sigil text).tokens.head?,
      (¬ ∃ id t, c.get? id = some t ∧ Text.abbreviates first t.firstWord = true) →
      (c.resolve s chooser text).run st = (.error (.commandNotFound first), st)

/-- A text resolves to a contender only when it is the only one or was picked from all of them; else
the result tells which refusal happened, and a call for help never resolves to a match. -/
theorem resolvesOpenly (c : Catalog) (s : Settings) {σ : Type} (chooser : Chooser σ)
    (text : String) (st : σ) : c.ResolvesOpenly s chooser text st where
  contenders_bind _ := c.mem_contenders s text
  questions := run_resolve_recorded chooser st
  numbers := map_number_choices s.separator _
  ids := map_id_choices s.separator _
  ids_increase := List.pairwise_map.2 (c.pairwise_contenders s text)
  matched := resolve_eq_matched chooser st
  answered h := by
    rw [resolve_of_asks h]
    rfl
  tooAmbiguous hsingle hhelp htwo hmost :=
    run_resolve_of_tooMany hsingle hhelp htwo hmost chooser st
  unbound hsingle hhelp hnone := by
    obtain ⟨f, hf⟩ := read_of_no_contenders hsingle hhelp hnone
    rw [resolve_of_error chooser hf]
    exact ⟨f, rfl⟩
  multipleLines hlines := by
    rw [resolve_of_error chooser (read_of_lines hlines)]
    rfl
  helped hsingle hhelp := run_resolve_of_help hsingle hhelp chooser st
  helped_ids first := (c.lists_candidates first).mem_iff
  helped_all hsingle hhelp htokens := by
    rw [run_resolve_of_help hsingle hhelp, htokens]
    exact ⟨c.ids, rfl, c.lists_ids⟩
  helped_begun hsingle hhelp first hfirst hbegun := by
    rw [run_resolve_of_help hsingle hhelp, Option.mem_def.1 hfirst, helpOn_of_begun hbegun]
    exact ⟨_, rfl, c.lists_candidates first⟩
  helped_none hsingle hhelp first hfirst hnone := by
    rw [run_resolve_of_help hsingle hhelp, Option.mem_def.1 hfirst, helpOn_of_not_begun hnone]
    rfl

end Catalog

end Abbrev
