import Abbrev.Proofs.Shell.Handling

/-! The number that is typed is the meaning that is run. The question about an ambiguous line lists
its contenders from one on, and the next line of the input answers it: the number of a contender
picks that contender, any other text declines, and so does the end of the input. Only a line that is
no text is a fault. -/

namespace Abbrev

namespace Session

/-- The number that an answer writes: decimal digits, behind a plus sign or not, with white space
around them. -/
def Denotes (answer : String) (number : Nat) : Prop :=
  ∃ digits, ((Text.trim answer).toList = digits ∨ (Text.trim answer).toList = '+' :: digits) ∧
    digits ≠ [] ∧ (∀ c ∈ digits, c.isDigit = true) ∧ Number.ofDigits digits = number

/-- The number that is read in an answer. -/
def number? (answer : String) : Option Nat :=
  match (Text.trim answer).toList with
  | '+' :: s => Number.natural? s
  | s => Number.natural? s

theorem denotes_iff {answer : String} {number : Nat} :
    Denotes answer number ↔ number? answer = some number := by
  simp only [Denotes, ← Number.natural?_eq_some_iff, number?]
  constructor
  · rintro ⟨digits, hdigits | hdigits, hnumber⟩
    · rw [hdigits]
      split
      · -- A plus sign is no digit, so digits alone do not begin with one.
        have hplus := (Number.natural?_eq_some_iff.1 hnumber).2.1 '+' List.mem_cons_self
        exact absurd hplus (by decide)
      · exact hnumber
    · rw [hdigits]
      exact hnumber
  · intro h
    split at h
    · rename_i s hs
      exact ⟨s, .inr hs, h⟩
    · exact ⟨_, .inl rfl, h⟩

/-- An answer picks the place before its number, if there is such a place. -/
theorem pick?_eq_some_iff {count i : Nat} {answer : String} :
    pick? count answer = some i ↔ i < count ∧ Denotes answer (i + 1) := by
  rw [denotes_iff]
  unfold pick? number?
  generalize (Text.trim answer).toList = text
  -- Behind a plus sign or not, both read the same digits.
  split <;> simp only <;> split <;> grind

theorem pick?_eq_none_iff {count : Nat} {answer : String} :
    pick? count answer = none ↔ ∀ k, 1 ≤ k → k ≤ count → ¬ Denotes answer k := by
  rw [Option.eq_none_iff_forall_ne_some]
  simp only [ne_eq, pick?_eq_some_iff, not_and]
  constructor
  · intro h k hone hcount
    have hplace := h (k - 1) (by omega)
    rwa [Nat.sub_add_cancel hone] at hplace
  · exact fun h i hi => h (i + 1) (by omega) hi

/-- At the end of the input there is an empty answer, which declines like any other text. -/
theorem lineAnswer_pick?_eq_ok {count : Nat} {input : List UInt8} {place : Option Nat} :
    lineAnswer (pick? count) input = .ok place ↔
      ∃ answer, decode? (firstLine input) = some answer ∧ pick? count answer = place := by
  cases input with
  | nil =>
    have hempty : pick? count "" = none := rfl
    have hend : firstLine [] = [] := rfl
    simp [lineAnswer, hend, decode?_nil, hempty]
  | cons b input =>
    rw [lineAnswer, if_neg (List.cons_ne_nil b input)]
    cases decode? (firstLine (b :: input)) <;> simp

end Session

theorem verdict_eq_cancelled {ms : List Match} {answer : Except Fault (Option Nat)} :
    verdict ms answer = .ok .cancelled ↔
      answer = .ok none ∨ ∃ i, answer = .ok (some i) ∧ ms.length ≤ i := by
  rcases answer with f | _ | i
  · simp [verdict]
  · simp [verdict]
  · cases h : ms[i]? with
    | none => simp [verdict, List.getElem?_eq_none_iff.1 h]
    | some m => simp [verdict, (List.getElem?_eq_some_iff.1 h).1]

theorem length_choices (separator : Char) (ms : List Match) :
    (choices separator ms).length = ms.length := by
  rw [choices, List.length_map, List.length_zipIdx]

/-- The question has one line for each meaning, with its number in front. -/
theorem question_choices (separator : Char) (ms : List Match) :
    Session.question (choices separator ms) =
      s!"Ambiguous command. Please select what you meant 1-{ms.length}:\n" ++
        String.join (ms.mapIdx fun i m => s!"{i + 1}: {m.label separator}\n") ++
        s!"\nType number 1-{ms.length} for choice or 0 for exit: " := by
  have hlines : (choices separator ms).map (fun c => s!"{c.number}: {c.label}\n") =
      ms.mapIdx fun i m => s!"{i + 1}: {m.label separator}\n" := by
    simp only [choices, List.map_map, Function.comp_def, List.mapIdx_eq_zipIdx_map]
  rw [← hlines, ← length_choices separator ms]
  rfl

namespace Catalog

variable {c : Catalog} {s : Settings} {text : String}

theorem run_resolve_numbered (h : c.Asks s text) (st : Session) :
    (c.resolve s (Session.chooser .numbered) text).run st =
      (verdict (c.contenders s text)
          ((Session.lineAnswer (Session.pick? (c.contenders s text).length) st.input).mapError .io),
        st.asked (Session.question (choices s.separator (c.contenders s text)))) := by
  have hanswer := Session.run_chooser_numbered (choices s.separator (c.contenders s text)) st
  rw [length_choices] at hanswer
  rw [resolve_of_asks h, map_eq_pure_bind, run_bind, hanswer]
  rfl

/-- What becomes of a line with several meanings when the user is asked for a number: the line of
input that answers, what it answers, and what that comes to. -/
structure ChosenByNumber (c : Catalog) (s : Settings) (text : String) (st : Session) : Prop where
  /-- The question is about the templates that bind, in the order of registration. -/
  contenders : ∀ m, m ∈ c.contenders s text ↔
    c.get? m.id = some m.template ∧
      (∃ first ∈ (Line.ofText s.sigil text).tokens.head?,
        Text.abbreviates first m.template.firstWord = true) ∧
      (Line.ofText s.sigil text).tokens.length ≤ m.template.parts.length ∧
      m.template.bind (Line.ofText s.sigil text).tokens s.separator = .ok m.binding
  order : (c.contenders s text).Pairwise (·.id < ·.id)
  question : Session.question (choices s.separator (c.contenders s text)) =
    s!"Ambiguous command. Please select what you meant 1-{(c.contenders s text).length}:\n" ++
      String.join ((c.contenders s text).mapIdx fun i m =>
        s!"{i + 1}: {m.label s.separator}\n") ++
      s!"\nType number 1-{(c.contenders s text).length} for choice or 0 for exit: "
  /-- It is asked once, and the next line of the input is read for it. -/
  asked : ((c.resolve s (Session.chooser .numbered) text).run st).2 =
    st.asked (Session.question (choices s.separator (c.contenders s text)))
  matched : ∀ m, ((c.resolve s (Session.chooser .numbered) text).run st).1 = .ok (.matched m) ↔
    ∃ answer i, decode? (Session.firstLine st.input) = some answer ∧
      Session.Denotes answer (i + 1) ∧ (c.contenders s text)[i]? = some m
  cancelled : ((c.resolve s (Session.chooser .numbered) text).run st).1 = .ok .cancelled ↔
    ∃ answer, decode? (Session.firstLine st.input) = some answer ∧
      ∀ k, 1 ≤ k → k ≤ (c.contenders s text).length → ¬ Session.Denotes answer k
  ended : st.input = [] →
    ((c.resolve s (Session.chooser .numbered) text).run st).1 = .ok .cancelled
  failed : ∀ f, ((c.resolve s (Session.chooser .numbered) text).run st).1 = .error f ↔
    decode? (Session.firstLine st.input) = none ∧ f = .io notText

/-- The number that is typed is the contender that is run. -/
theorem chosenByNumber (h : c.Asks s text) (st : Session) : c.ChosenByNumber s text st := by
  have hran := congrArg Prod.fst (run_resolve_numbered h st)
  have hcancelled : ((c.resolve s (Session.chooser .numbered) text).run st).1 = .ok .cancelled ↔
      ∃ answer, decode? (Session.firstLine st.input) = some answer ∧
        Session.pick? (c.contenders s text).length answer = none := by
    rw [hran, verdict_eq_cancelled]
    simp only [mapError_eq_ok, Session.lineAnswer_pick?_eq_ok]
    refine or_iff_left ?_
    -- The console leaves out of bounds what the resolver would.
    rintro ⟨i, ⟨answer, -, hpick⟩, hbound⟩
    exact absurd (Session.lt_of_pick?_eq_some hpick) (Nat.not_lt.2 hbound)
  refine {
    contenders := fun _ => c.mem_contenders s text
    order := c.pairwise_contenders s text
    question := question_choices s.separator _
    asked := by rw [run_resolve_numbered h st]
    matched := fun m => ?_
    cancelled := ?_
    ended := fun hend => ?_
    failed := fun f => ?_ }
  · rw [hran, verdict_eq_matched]
    simp only [mapError_eq_ok, Session.lineAnswer_pick?_eq_ok, Session.pick?_eq_some_iff]
    constructor
    · rintro ⟨i, ⟨answer, hanswer, -, hnumber⟩, hm⟩
      exact ⟨answer, i, hanswer, hnumber, hm⟩
    · rintro ⟨answer, i, hanswer, hnumber, hm⟩
      exact ⟨i, ⟨answer, hanswer, (List.getElem?_eq_some_iff.1 hm).1, hnumber⟩, hm⟩
  · simp only [hcancelled, Session.pick?_eq_none_iff]
  · rw [hcancelled, hend]
    exact ⟨"", Session.decode?_nil, rfl⟩
  · rw [hran, verdict_eq_error, mapError_eq_error]
    simp only [Session.lineAnswer_eq_error]
    constructor
    · rintro ⟨reason, ⟨hline, rfl⟩, rfl⟩
      exact ⟨hline, rfl⟩
    · rintro ⟨hline, rfl⟩
      exact ⟨notText, ⟨hline, rfl⟩, rfl⟩

/-- Two commands that one letter begins. -/
def userAndUsers : Catalog := ⟨[.ofWord "user" "", .ofWord "users" ""]⟩

theorem chosenByNumber_users :
    userAndUsers.Asks {} "u" ∧
      ((userAndUsers.resolve {} (Session.chooser .numbered) "u").run
        { input := [32, 43, 48, 50, 10] }).1 = .ok (.matched ⟨1, .ofWord "users" "", .empty⟩) := by
  have hasks : userAndUsers.Asks {} "u" := by decide
  have hanswer : decode? (Session.firstLine [32, 43, 48, 50, 10]) = some " +02\n" := by decide
  -- A plus sign, a leading zero and the white space do not change what number it is.
  have htwo : Session.Denotes " +02\n" 2 :=
    ⟨['0', '2'], .inr rfl, by decide, List.all_eq_true.1 rfl, rfl⟩
  have hlisted : (userAndUsers.contenders {} "u")[1]? = some ⟨1, .ofWord "users" "", .empty⟩ := rfl
  exact ⟨hasks, ((chosenByNumber hasks _).matched _).2 ⟨_, 1, hanswer, htwo, hlisted⟩⟩

end Catalog

end Abbrev
