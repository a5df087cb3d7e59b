import Abbrev.Resolution
import Abbrev.Proofs.Success

/-! The contenders of a line: the templates that pass both filters and bind, in the order of
registration. Reading a text and settling its meaning are said through them, exit by exit. -/

namespace Abbrev

theorem mem_survivors {separator : Char} {tokens : List String} {candidates : List (Template × Nat)}
    {m : Match} :
    m ∈ survivors separator tokens candidates ↔
      (m.template, m.id) ∈ candidates ∧ m.template.bind tokens separator = .ok m.binding := by
  simp only [survivors, List.mem_filterMap]
  constructor
  · rintro ⟨⟨t, id⟩, hmem, h⟩
    cases hbind : t.bind tokens separator with
    | error r => simp [hbind] at h
    | ok b =>
      simp only [hbind, Option.some.injEq] at h
      subst h
      exact ⟨hmem, hbind⟩
  · rintro ⟨hmem, hbind⟩
    exact ⟨_, hmem, by simp [hbind]⟩

theorem pairwise_survivors {separator : Char} {tokens : List String}
    {candidates : List (Template × Nat)} (h : candidates.Pairwise (·.2 < ·.2)) :
    (survivors separator tokens candidates).Pairwise (·.id < ·.id) := by
  refine h.filterMap _ ?_
  rintro ⟨t, id⟩ ⟨u, jd⟩ hlt m hm n hn
  dsimp only at hlt hm hn
  split at hm
  · split at hn
    · cases hm
      cases hn
      exact hlt
    · cases hn
  · cases hm

namespace Catalog

variable (c : Catalog) (s : Settings) (text : String)

theorem mem_zipIdx {t : Template} {id : Nat} :
    (t, id) ∈ c.templates.zipIdx ↔ c.get? id = some t := by
  rw [List.mem_zipIdx_iff_getElem?, get?]

theorem pairwise_zipIdx : c.templates.zipIdx.Pairwise (·.2 < ·.2) := by
  have h : (c.templates.zipIdx.map Prod.snd).Pairwise (· < ·) := by
    rw [List.zipIdx_map_snd]
    exact List.pairwise_lt_range' 1
  exact List.pairwise_map.1 h

/-- The templates whose first word the first token abbreviates and whose path is not shorter than
the line. -/
def fitting (tokens : List String) : List (Template × Nat) :=
  match tokens with
  | [] => []
  | first :: _ => (c.candidates first).filter fun (t, _) => tokens.length ≤ t.parts.length

/-- The candidates that bind. -/
def contenders : List Match :=
  let tokens := (Line.ofText s.sigil text).tokens
  survivors s.separator tokens (c.fitting tokens)

theorem mem_candidates {first : String} {t : Template} {id : Nat} :
    (t, id) ∈ c.candidates first ↔
      c.get? id = some t ∧ Text.abbreviates first t.firstWord = true := by
  rw [candidates, List.mem_filter, mem_zipIdx]

theorem pairwise_candidates (first : String) : (c.candidates first).Pairwise (·.2 < ·.2) :=
  c.pairwise_zipIdx.filter _

theorem mem_fitting {tokens : List String} {t : Template} {id : Nat} :
    (t, id) ∈ c.fitting tokens ↔
      c.get? id = some t ∧ (∃ first ∈ tokens.head?, Text.abbreviates first t.firstWord = true) ∧
        tokens.length ≤ t.parts.length := by
  cases tokens with
  | nil => simp [fitting]
  | cons first rest => simp [fitting, mem_candidates, and_assoc]

theorem pairwise_fitting (tokens : List String) : (c.fitting tokens).Pairwise (·.2 < ·.2) := by
  cases tokens with
  | nil => exact .nil
  | cons first rest => exact (c.pairwise_candidates first).filter _

theorem mem_contenders {m : Match} :
    m ∈ c.contenders s text ↔
      c.get? m.id = some m.template ∧
        (∃ first ∈ (Line.ofText s.sigil text).tokens.head?,
          Text.abbreviates first m.template.firstWord = true) ∧
        (Line.ofText s.sigil text).tokens.length ≤ m.template.parts.length ∧
        m.template.bind (Line.ofText s.sigil text).tokens s.separator = .ok m.binding := by
  rw [contenders, mem_survivors, mem_fitting, and_assoc, and_assoc]

theorem pairwise_contenders : (c.contenders s text).Pairwise (·.id < ·.id) :=
  pairwise_survivors (c.pairwise_fitting _)

variable {c s text}

theorem contenders_eq_singleton {m : Match} (h : ∀ n, n ∈ c.contenders s text ↔ n = m) :
    c.contenders s text = [m] := by
  have hnodup : (c.contenders s text).Nodup :=
    (c.pairwise_contenders s text).imp fun hlt heq => absurd (heq ▸ hlt) (Nat.lt_irrefl _)
  refine List.perm_singleton.1
    ((List.perm_ext_iff_of_nodup hnodup (List.pairwise_singleton _ m)).2 ?_)
  simpa using h

theorem read_of_lines (h : 1 < (Text.lines text).length) :
    c.read s text = .error (.multipleLines (Text.lines text).length) := by
  simp only [read, h, if_true]
  rfl

/-- What help is about: everything, or the templates whose first word is begun. -/
def helpOn (c : Catalog) : Option String → Except Fault (List Nat)
  | none => .ok c.ids
  | some first =>
    if (c.candidates first).isEmpty then .error (.commandNotFound first)
    else .ok ((c.candidates first).map (·.2))

/-- The identities of the templates of which something holds, in the order of registration. -/
structure Lists (c : Catalog) (ids : List Nat) (P : Template → Prop) : Prop where
  mem_iff : ∀ id, id ∈ ids ↔ ∃ t, c.get? id = some t ∧ P t
  increasing : ids.Pairwise (· < ·)

theorem lists_ids (c : Catalog) : c.Lists c.ids fun _ => True where
  mem_iff id := by
    simp only [and_true, ← Option.isSome_iff_exists]
    simp [ids, size, get?]
  increasing := List.pairwise_lt_range

theorem lists_candidates (c : Catalog) (first : String) :
    c.Lists ((c.candidates first).map (·.2)) fun t =>
      Text.abbreviates first t.firstWord = true where
  mem_iff id := by simp [mem_candidates]
  increasing := List.pairwise_map.2 (c.pairwise_candidates first)

theorem helpOn_of_begun {first : String}
    (h : ∃ id t, c.get? id = some t ∧ Text.abbreviates first t.firstWord = true) :
    c.helpOn (some first) = .ok ((c.candidates first).map (·.2)) := by
  obtain ⟨id, t, ht⟩ := h
  have hne : (c.candidates first).isEmpty = false := by
    simpa using List.ne_nil_of_mem (c.mem_candidates.2 ht)
  simp [helpOn, hne]

theorem helpOn_of_not_begun {first : String}
    (h : ¬ ∃ id t, c.get? id = some t ∧ Text.abbreviates first t.firstWord = true) :
    c.helpOn (some first) = .error (.commandNotFound first) := by
  have hnil : c.candidates first = [] :=
    List.eq_nil_iff_forall_not_mem.2 fun x hx => h ⟨x.2, x.1, c.mem_candidates.1 hx⟩
  simp [helpOn, hnil]

theorem read_of_help (hsingle : (Text.lines text).length ≤ 1)
    (hhelp : (Line.ofText s.sigil text).help = true) :
    c.read s text = (c.helpOn (Line.ofText s.sigil text).tokens.head?).map .help := by
  simp only [read, Nat.not_lt.2 hsingle, if_false, hhelp, if_true]
  cases (Line.ofText s.sigil text).tokens with
  | nil => rfl
  | cons first rest =>
    cases hnone : (c.candidates first).isEmpty <;>
      simp only [List.head?_cons, helpOn, hnone, if_true, Bool.false_eq_true, if_false] <;> rfl

theorem read_of_tokens (hsingle : (Text.lines text).length ≤ 1)
    (hhelp : (Line.ofText s.sigil text).help = false) {first : String} {rest : List String}
    (htokens : (Line.ofText s.sigil text).tokens = first :: rest) :
    c.read s text =
      if (c.candidates first).isEmpty then .error (.commandNotFound first)
      else if (c.fitting (first :: rest)).isEmpty then .error .tooManyArguments
      else meanings s text (first :: rest) (c.fitting (first :: rest)) := by
  simp only [read, Nat.not_lt.2 hsingle, if_false, htokens, hhelp]
  rfl

theorem read_of_no_contenders (hsingle : (Text.lines text).length ≤ 1)
    (hhelp : (Line.ofText s.sigil text).help = false)
    (h : c.contenders s text = []) : ∃ f, c.read s text = .error f := by
  cases htokens : (Line.ofText s.sigil text).tokens with
  | nil =>
    simp only [read, Nat.not_lt.2 hsingle, if_false, htokens, hhelp]
    exact ⟨_, rfl⟩
  | cons first rest =>
    rw [contenders, htokens] at h
    rw [read_of_tokens hsingle hhelp htokens]
    split
    · exact ⟨_, rfl⟩
    · split
      · exact ⟨_, rfl⟩
      · rw [meanings, h]
        exact ⟨_, rfl⟩

theorem read_of_contenders (hsingle : (Text.lines text).length ≤ 1)
    (hhelp : (Line.ofText s.sigil text).help = false) {m : Match} {ms : List Match}
    (h : c.contenders s text = m :: ms) :
    c.read s text = .ok (.meanings m ms) := by
  have hm : m ∈ c.contenders s text := h ▸ List.mem_cons_self
  rw [contenders] at h hm
  cases htokens : (Line.ofText s.sigil text).tokens with
  | nil =>
    rw [htokens] at hm
    cases hm
  | cons first rest =>
    rw [htokens] at h hm
    have hfitting := (mem_survivors.1 hm).1
    have hcandidates : (m.template, m.id) ∈ c.candidates first := (List.mem_filter.1 hfitting).1
    have hne : (c.candidates first).isEmpty = false := by
      simpa using List.ne_nil_of_mem hcandidates
    have hne' : (c.fitting (first :: rest)).isEmpty = false := by
      simpa using List.ne_nil_of_mem hfitting
    rw [read_of_tokens hsingle hhelp htokens]
    simp only [hne, hne', Bool.false_eq_true, if_false, meanings, h]

theorem read_eq_meanings {m : Match} {ms : List Match} :
    c.read s text = .ok (.meanings m ms) ↔
      (Text.lines text).length ≤ 1 ∧ (Line.ofText s.sigil text).help = false ∧
        c.contenders s text = m :: ms := by
  constructor
  · intro h
    by_cases hsingle : (Text.lines text).length ≤ 1
    · cases hhelp : (Line.ofText s.sigil text).help with
      | true =>
        obtain ⟨ids, -, hids⟩ := map_eq_ok.1 (read_of_help hsingle hhelp ▸ h)
        cases hids
      | false =>
        refine ⟨hsingle, rfl, ?_⟩
        cases hms : c.contenders s text with
        | nil =>
          obtain ⟨f, hf⟩ := read_of_no_contenders hsingle hhelp hms
          rw [hf] at h
          cases h
        | cons n ns =>
          rw [read_of_contenders hsingle hhelp hms] at h
          cases h
          rfl
    · rw [read_of_lines (Nat.not_le.1 hsingle)] at h
      cases h
  · rintro ⟨hsingle, hhelp, hms⟩
    exact read_of_contenders hsingle hhelp hms

variable {σ : Type} (chooser : Chooser σ)

theorem resolve_of_error {f : Fault} (h : c.read s text = .error f) :
    c.resolve s chooser text = pure (.error f) := by
  rw [resolve, h]

theorem resolve_of_meanings {m : Match} {ms : List Match}
    (h : c.read s text = .ok (.meanings m ms)) :
    c.resolve s chooser text = settle s chooser m ms := by
  rw [resolve, h]

end Catalog

end Abbrev
