import Abbrev.Proofs.Line.Quoting

/-! The tokens of a line by position. The scanner reads from left to right and takes a backslash
back when a quote follows it; here each character is judged where it stands, from its neighbours and
from the quotes before it. Bare quotes and the backslashes of escaped ones are left out, the rest is
cut at white space outside of spans, and what is cut out are the tokens. -/

namespace Abbrev

namespace Lexer

/-- The character directly before a place. -/
def before? (cs : List Char) : Nat → Option Char
  | 0 => none
  | i + 1 => cs[i]?

/-- A quote is bare, and opens or closes a span, unless a backslash stands directly before it. -/
def toggles (cs : List Char) (x : Char × Nat) : Bool :=
  isQuote x.1 && before? cs x.2 != some '\\'

/-- A backslash escapes a quote directly behind it. -/
def escapes (cs : List Char) (x : Char × Nat) : Bool :=
  x.1 == '\\' && cs[x.2 + 1]?.any isQuote

/-- Whether an odd number of bare quotes stands before a place. -/
def inside (cs : List Char) (i : Nat) : Bool :=
  (cs.zipIdx.take i).countP (toggles cs) % 2 == 1

def cuts (cs : List Char) (x : Char × Nat) : Bool :=
  Text.isBlank x.1 && !inside cs x.2

def keeps (cs : List Char) (x : Char × Nat) : Bool :=
  !toggles cs x && !escapes cs x

/-- The texts of the non-empty pieces between cuts. -/
def pieces (cs : List Char) (xs : List (Char × Nat)) : List (List Char) :=
  ((xs.splitOnP (cuts cs)).filter (!·.isEmpty)).map (·.map Prod.fst)

/-- The characters that are kept of a text that begins at a place of the line. -/
def kept (cs : List Char) (i : Nat) (s : List Char) : List (Char × Nat) :=
  (s.zipIdx i).filter (keeps cs)

/-- The tokens that the characters of a line spell where they stand. -/
def spelled (cs : List Char) : List (List Char) := pieces cs (kept cs 0 cs)

theorem ne_of_isQuote {c : Char} (h : isQuote c = true) : c ≠ '\\' ∧ Text.isBlank c = false := by
  rw [isQuote, Bool.or_eq_true, beq_iff_eq, beq_iff_eq] at h
  rcases h with rfl | rfl <;> decide

theorem pieces_of_uncut {cs : List Char} {xs : List (Char × Nat)}
    (h : ∀ x ∈ xs, cuts cs x = false) : pieces cs xs = flush (xs.map Prod.fst).reverse := by
  rw [pieces, List.splitOnP_eq_singleton h]
  cases xs <;> simp [flush]

theorem pieces_append_cons {cs : List Char} {x : Char × Nat} (h : cuts cs x = true)
    (xs ys : List (Char × Nat)) :
    pieces cs (xs ++ x :: ys) = pieces cs xs ++ pieces cs ys := by
  simp only [pieces, List.splitOnP_append_cons _ _ h, List.filter_append, List.map_append]

/-- Cutting takes away the cuts and nothing else. -/
theorem flatten_pieces (cs : List Char) (xs : List (Char × Nat)) :
    (pieces cs xs).flatten = (xs.filter (!cuts cs ·)).map Prod.fst := by
  have hsplit : (xs.splitOnP (cuts cs)).flatten = xs.filter (!cuts cs ·) := by
    induction xs with
    | nil => rfl
    | cons x xs ih =>
      obtain ⟨first, rest, hs⟩ := List.exists_cons_of_ne_nil (List.splitOnP_ne_nil (cuts cs) xs)
      rw [hs, List.flatten_cons] at ih
      rw [List.splitOnP_cons_eq_if_modifyHead, hs]
      cases hx : cuts cs x <;> simp [hx, ih]
  rw [pieces, ← List.map_flatten, List.flatten_filter_not_isEmpty, hsplit]

section At

variable {cs pre s : List Char} {c : Char}

theorem before?_length (h : cs = pre ++ s) : before? cs pre.length = pre.getLast? := by
  subst h
  rcases List.eq_nil_or_concat pre with rfl | ⟨front, c, rfl⟩
  · rfl
  · simp [before?]

theorem toggles_at (h : cs = pre ++ s) (c : Char) :
    toggles cs (c, pre.length) = (isQuote c && pre.getLast? != some '\\') := by
  rw [toggles, before?_length h]

theorem escapes_at (h : cs = pre ++ c :: s) :
    escapes cs (c, pre.length) = (c == '\\' && s.head?.any isQuote) := by
  have hnext : cs[pre.length + 1]? = s.head? := by
    rw [h, List.getElem?_append_right (Nat.le_succ _), List.head?_eq_getElem?]
    simp
  rw [escapes, hnext]

/-- A span opens or closes behind a bare quote and nowhere else. -/
theorem inside_succ (h : cs = pre ++ c :: s) :
    inside cs (pre.length + 1) = (inside cs pre.length ^^ toggles cs (c, pre.length)) := by
  have htake : cs.zipIdx.take (pre.length + 1) =
      cs.zipIdx.take pre.length ++ [(c, pre.length)] := by
    rw [List.take_add_one]
    simp [h]
  rw [inside, inside, htake, List.countP_append, List.countP_singleton]
  cases toggles cs (c, pre.length) <;> grind

theorem kept_cons (cs : List Char) (i : Nat) (c : Char) (s : List Char) :
    kept cs i (c :: s) =
      if keeps cs (c, i) then (c, i) :: kept cs (i + 1) s else kept cs (i + 1) s := by
  rw [kept, List.zipIdx_cons, List.filter_cons, kept]

/-- A bare quote is left out. -/
theorem kept_bare (h : cs = pre ++ c :: s) (hquote : isQuote c = true)
    (hlast : pre.getLast? ≠ some '\\') :
    kept cs pre.length (c :: s) = kept cs (pre.length + 1) s ∧
      inside cs (pre.length + 1) = !inside cs pre.length := by
  have htoggle : toggles cs (c, pre.length) = true := by
    rw [toggles_at h, hquote, bne_iff_ne.2 hlast, Bool.true_and]
  rw [kept_cons, inside_succ h, keeps, htoggle]
  exact ⟨rfl, Bool.xor_true _⟩

/-- Any other character is kept that is no quote itself and escapes none. -/
theorem kept_plain (h : cs = pre ++ c :: s) (hquote : isQuote c = false)
    (hescape : escapes cs (c, pre.length) = false) :
    kept cs pre.length (c :: s) = (c, pre.length) :: kept cs (pre.length + 1) s ∧
      inside cs (pre.length + 1) = inside cs pre.length := by
  have htoggle : toggles cs (c, pre.length) = false := by rw [toggles_at h, hquote, Bool.false_and]
  rw [kept_cons, inside_succ h, keeps, htoggle, hescape]
  exact ⟨rfl, Bool.xor_false _⟩

/-- Of an escaped quote with its backslash the quote is kept. -/
theorem kept_escaped {q : Char} (h : cs = pre ++ '\\' :: q :: s) (hquote : isQuote q = true) :
    kept cs pre.length ('\\' :: q :: s) = (q, pre.length + 1) :: kept cs (pre.length + 2) s ∧
      inside cs (pre.length + 2) = inside cs pre.length := by
  have hnext : cs = (pre ++ ['\\']) ++ q :: s := by rw [h, List.append_cons]
  have hlength : (pre ++ ['\\']).length = pre.length + 1 := List.length_append
  have hbackslash : toggles cs ('\\', pre.length) = false := by
    rw [toggles_at h, show isQuote '\\' = false by decide, Bool.false_and]
  have hescape : escapes cs ('\\', pre.length) = true := by
    rw [escapes_at h]
    exact hquote
  have hliteral : toggles cs (q, pre.length + 1) = false := by
    rw [← hlength, toggles_at hnext, List.getLast?_concat, bne_self_eq_false, Bool.and_false]
  have hslash : escapes cs (q, pre.length + 1) = false := by
    rw [escapes, beq_eq_false_iff_ne.2 (ne_of_isQuote hquote).1, Bool.false_and]
  have hinside := inside_succ hnext
  rw [hlength, hliteral, inside_succ h, hbackslash, Bool.xor_false, Bool.xor_false] at hinside
  refine ⟨?_, hinside⟩
  rw [kept_cons, kept_cons, keeps, keeps, hbackslash, hescape, hliteral, hslash]
  rfl

/-- With the characters of `cur` collected and `last` read last, the scanner goes on from a place to
the pieces of these characters and of what is kept of the rest. -/
def ScansOn (cs : List Char) (i : Nat) (last : Option Char) (cur : List (Char × Nat))
    (s : List Char) : Prop :=
  scan (cur.map Prod.fst).reverse (inside cs i) last s = pieces cs (cur ++ kept cs i s)

variable {cur : List (Char × Nat)}

theorem scansOn_nil (hcur : ∀ x ∈ cur, cuts cs x = false) (i : Nat) (last : Option Char) :
    ScansOn cs i last cur [] := by
  rw [ScansOn, scan, kept, List.zipIdx_nil, List.filter_nil, List.append_nil, pieces_of_uncut hcur]

theorem scansOn_bare (h : cs = pre ++ c :: s) (hquote : isQuote c = true)
    (hlast : pre.getLast? ≠ some '\\') (hrest : ScansOn cs (pre.length + 1) (some c) cur s) :
    ScansOn cs pre.length pre.getLast? cur (c :: s) := by
  obtain ⟨hkept, hinside⟩ := kept_bare h hquote hlast
  rw [ScansOn, hinside] at hrest
  rw [ScansOn, scan_bareQuote hquote hlast, hkept]
  exact hrest

/-- A backslash is read together with the quote that it escapes, so that none is pending when the
next character is looked at. -/
theorem scansOn_escaped {q : Char} (h : cs = pre ++ '\\' :: q :: s) (hquote : isQuote q = true)
    (hrest : ScansOn cs (pre.length + 2) (some q) (cur ++ [(q, pre.length + 1)]) s) :
    ScansOn cs pre.length pre.getLast? cur ('\\' :: q :: s) := by
  obtain ⟨hkept, hinside⟩ := kept_escaped h hquote
  rw [ScansOn, hinside, List.map_append, List.reverse_append] at hrest
  rw [ScansOn, scan_escaped hquote, hkept, List.append_cons]
  exact hrest

theorem scan_plain (hquote : isQuote c = false) (collected : List Char) (i : Nat)
    (last : Option Char) :
    scan collected (inside cs i) last (c :: s) =
      if cuts cs (c, i) then flush collected ++ scan [] (inside cs i) (some c) s
      else scan (c :: collected) (inside cs i) (some c) s := by
  rw [scan, hquote, if_neg Bool.false_ne_true, cuts]
  cases Text.isBlank c <;> cases inside cs i <;> rfl

theorem scansOn_kept (h : cs = pre ++ c :: s) (hquote : isQuote c = false)
    (hescape : escapes cs (c, pre.length) = false) (hcut : cuts cs (c, pre.length) = false)
    (hrest : ScansOn cs (pre.length + 1) (some c) (cur ++ [(c, pre.length)]) s) :
    ScansOn cs pre.length pre.getLast? cur (c :: s) := by
  obtain ⟨hkept, hinside⟩ := kept_plain h hquote hescape
  rw [ScansOn, hinside, List.map_append, List.reverse_append] at hrest
  rw [ScansOn, scan_plain hquote, hcut, if_neg Bool.false_ne_true, hkept, List.append_cons]
  exact hrest

theorem scansOn_cut (h : cs = pre ++ c :: s) (hquote : isQuote c = false)
    (hescape : escapes cs (c, pre.length) = false) (hcut : cuts cs (c, pre.length) = true)
    (hcur : ∀ x ∈ cur, cuts cs x = false) (hrest : ScansOn cs (pre.length + 1) (some c) [] s) :
    ScansOn cs pre.length pre.getLast? cur (c :: s) := by
  obtain ⟨hkept, hinside⟩ := kept_plain h hquote hescape
  rw [ScansOn, hinside, List.nil_append] at hrest
  rw [ScansOn, scan_plain hquote, if_pos hcut, hkept, pieces_append_cons hcut, pieces_of_uncut hcur,
    ← hrest]
  rfl

end At

/-- The scanner keeps to the places behind every `pre`, unless it has stopped between a backslash
and the quote behind it. -/
theorem scansOn_append (cs : List Char) : ∀ (s pre : List Char) (cur : List (Char × Nat)),
    cs = pre ++ s → (∀ x ∈ cur, cuts cs x = false) →
    (pre.getLast? = some '\\' → s.head?.any isQuote = false) →
    ScansOn cs pre.length pre.getLast? cur s
  | [], _, _, _, hcur, _ => scansOn_nil hcur _ _
  | c :: s, pre, cur, h, hcur, hlast => by
    have hnext : cs = (pre ++ [c]) ++ s := by rw [h, List.append_cons]
    have hone := scansOn_append cs s (pre ++ [c])
    rw [List.length_append, List.getLast?_concat] at hone
    have huncut (x : Char × Nat) (hx : cuts cs x = false) :
        ∀ y ∈ cur ++ [x], cuts cs y = false :=
      List.forall_mem_append.2 ⟨hcur, List.forall_mem_singleton.2 hx⟩
    cases hquote : isQuote c with
    | true =>
      have hbare : pre.getLast? ≠ some '\\' := fun hslash => by simpa [hquote] using hlast hslash
      exact scansOn_bare h hquote hbare <| hone cur hnext hcur fun hslash =>
        absurd (Option.some.inj hslash) (ne_of_isQuote hquote).1
    | false =>
      cases hescape : escapes cs (c, pre.length) with
      | true =>
        rw [escapes_at h, Bool.and_eq_true, beq_iff_eq] at hescape
        obtain ⟨rfl, hhead⟩ := hescape
        obtain ⟨q, hs, hq⟩ := (Option.any_eq_true _ _).1 hhead
        obtain ⟨s, rfl⟩ := List.head?_eq_some_iff.1 hs
        have hpair : cs = (pre ++ ['\\', q]) ++ s := by simp [h]
        have hread : (pre ++ ['\\', q]).getLast? = some q := by simp
        have htwo := scansOn_append cs s (pre ++ ['\\', q]) (cur ++ [(q, pre.length + 1)]) hpair
        rw [List.length_append, hread] at htwo
        have hx : cuts cs (q, pre.length + 1) = false := by
          rw [cuts, (ne_of_isQuote hq).2, Bool.false_and]
        exact scansOn_escaped h hq <| htwo (huncut _ hx) fun hslash =>
          absurd (Option.some.inj hslash) (ne_of_isQuote hq).1
      | false =>
        have hpending : some c = some '\\' → s.head?.any isQuote = false := by
          rintro ⟨⟩
          rw [escapes_at h] at hescape
          exact hescape
        cases hcut : cuts cs (c, pre.length) with
        | true =>
          exact scansOn_cut h hquote hescape hcut hcur (hone [] hnext (by simp) hpending)
        | false =>
          exact scansOn_kept h hquote hescape hcut (hone _ hnext (huncut _ hcut) hpending)

theorem tokens_eq_spelled (cs : List Char) : tokens cs = spelled cs :=
  scansOn_append cs cs [] [] rfl (by simp) (by simp)

end Lexer

namespace Line

/-- A line has the tokens that its characters spell where they stand, less those that begin with the
sigil, and asks for help by a flag among these. Left out are the bare quotes, the backslashes of
escaped ones and the white space outside of spans; all else is in the tokens, in its order. -/
theorem ofText_by_place (sigil : Char) (text : String) :
    Lexer.tokens text.toList = Lexer.spelled text.toList ∧
      (Lexer.tokens text.toList).flatten =
        (text.toList.zipIdx.filter fun x =>
          Lexer.keeps text.toList x && !Lexer.cuts text.toList x).map Prod.fst ∧
      (ofText sigil text).tokens =
        ((Lexer.spelled text.toList).filter (·.head? != some sigil)).map String.ofList ∧
      ((ofText sigil text).help = true ↔ ∃ flag, sigil :: flag ∈ Lexer.spelled text.toList ∧
        (flag = ['?'] ∨ flag <+: "help".toList)) := by
  have htokens := Lexer.tokens_eq_spelled text.toList
  have hflag (token : List Char) : isFlag sigil token = true ↔ ∃ flag, token = sigil :: flag := by
    rw [isFlag, beq_iff_eq, List.head?_eq_some_iff]
  refine ⟨htokens, ?_, ?_, ?_⟩
  · rw [htokens, Lexer.spelled, Lexer.flatten_pieces, Lexer.kept, List.filter_filter]
    exact congrArg _ (List.filter_congr fun x _ => Bool.and_comm _ _)
  · rw [ofText, htokens, List.partition_eq_filter_filter]
    rfl
  · rw [ofText, htokens, List.partition_eq_filter_filter, List.any_eq_true]
    simp only [List.mem_filter, hflag, asksHelp, Bool.or_eq_true, beq_iff_eq,
      List.isPrefixOf_iff_prefix]
    constructor
    · rintro ⟨_, ⟨hmem, flag, rfl⟩, hasks⟩
      exact ⟨flag, hmem, hasks⟩
    · rintro ⟨flag, hmem, hasks⟩
      exact ⟨_, ⟨hmem, flag, rfl⟩, hasks⟩

/-- A backslash that escapes nothing stays, a quote behind a quote is bare, and either quote closes
a span. -/
example : Lexer.spelled "a\\\"b \"c\\ 'd \\'' e".toList =
    [['a', '"', 'b'], ['c', '\\', ' ', 'd'], ['\'', ' ', 'e']] := by decide

end Line

end Abbrev
