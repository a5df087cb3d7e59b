import Abbrev.Line

/-! White space around a line. The scanner comes out of a text with a token begun, in a span or not,
and reads on from there; a span is open behind an odd number of bare quotes. White space in front of
a line is passed over, and so is white space behind it unless a span is open: then it belongs to the
token that is begun. -/

namespace Abbrev.Lexer

/-- How many quotes open or close a span: those that no backslash stands directly before. -/
def bareQuotes (before : Option Char) (s : List Char) : Nat :=
  ((before :: s.map some).zip s).countP fun (last, c) => isQuote c && last != some '\\'

theorem bareQuotes_cons (before : Option Char) (c : Char) (s : List Char) :
    bareQuotes before (c :: s) =
      bareQuotes (some c) s + if isQuote c && before != some '\\' then 1 else 0 := by
  rw [bareQuotes, List.zip_cons_cons, List.countP_cons, List.map_cons]
  rfl

/-- Whether a span is open behind a text that begins in a span or out of it. -/
def opens (quoted : Bool) (before : Option Char) (s : List Char) : Bool :=
  quoted ^^ bareQuotes before s % 2 == 1

/-- Whether a text ends in a span that nothing closes. -/
def endsOpen (s : List Char) : Bool := opens false none s

@[simp] theorem opens_nil (quoted : Bool) (before : Option Char) :
    opens quoted before [] = quoted := by
  simp [opens, bareQuotes]

theorem opens_cons (quoted : Bool) (before : Option Char) (c : Char) (s : List Char) :
    opens quoted before (c :: s) =
      opens (quoted ^^ (isQuote c && before != some '\\')) (some c) s := by
  rw [opens, opens, bareQuotes_cons]
  cases isQuote c && before != some '\\' <;> grind

theorem getLast?_cons_or (c : Char) (s : List Char) (last : Option Char) :
    (c :: s).getLast?.or last = s.getLast?.or (some c) := by
  rw [List.getLast?_cons]
  cases s.getLast? <;> rfl

/-- Behind any text the scanner has given out some tokens and goes on with the last one begun. -/
theorem exists_scan_append (s collected : List Char) (quoted : Bool) (last : Option Char) :
    ∃ front begun, ∀ rest, scan collected quoted last (s ++ rest) =
      front ++ scan begun (opens quoted last s) (s.getLast?.or last) rest := by
  -- The witnesses must not depend on the rest, so one character is scanned for all rests at once.
  induction s generalizing collected quoted last with
  | nil => exact ⟨[], collected, fun rest => by simp⟩
  | cons c s ih =>
    simp only [opens_cons, getLast?_cons_or, List.cons_append, scan]
    by_cases hquote : isQuote c = true
    · by_cases hlast : last = some '\\'
      · obtain ⟨front, begun, h⟩ := ih (c :: collected.tail) quoted (some c)
        exact ⟨front, begun, by simpa [hquote, hlast] using h⟩
      · obtain ⟨front, begun, h⟩ := ih collected (!quoted) (some c)
        have hbare : (last != some '\\') = true := bne_iff_ne.2 hlast
        exact ⟨front, begun, by simpa [hquote, hlast, hbare] using h⟩
    · by_cases hblank : (quoted || !Text.isBlank c) = true
      · obtain ⟨front, begun, h⟩ := ih (c :: collected) quoted (some c)
        exact ⟨front, begun, by simpa [hquote, hblank] using h⟩
      · obtain ⟨front, begun, h⟩ := ih [] quoted (some c)
        refine ⟨flush collected ++ front, begun, fun rest => ?_⟩
        simp [hquote, hblank, h]

theorem isQuote_of_isBlank {c : Char} (h : Text.isBlank c = true) : isQuote c = false := by
  rw [isQuote, Bool.or_eq_false_iff, beq_eq_false_iff_ne, beq_eq_false_iff_ne]
  constructor <;> rintro rfl <;> exact absurd h (by decide)

theorem scan_blank {c : Char} (h : Text.isBlank c = true) (collected s : List Char)
    (last : Option Char) :
    scan collected false last (c :: s) = flush collected ++ scan [] false (some c) s := by
  simp [scan, isQuote_of_isBlank h, h]

theorem scan_blank_quoted {c : Char} (h : Text.isBlank c = true) (collected s : List Char)
    (last : Option Char) :
    scan collected true last (c :: s) = scan (c :: collected) true (some c) s := by
  simp [scan, isQuote_of_isBlank h]

theorem scan_blanks {blanks : List Char} (h : ∀ c ∈ blanks, Text.isBlank c = true)
    (collected : List Char) (last : Option Char) :
    scan collected false last blanks = flush collected := by
  induction blanks generalizing collected last with
  | nil => rfl
  | cons c blanks ih =>
    obtain ⟨hc, hblanks⟩ := List.forall_mem_cons.1 h
    rw [scan_blank hc, ih hblanks]
    exact List.append_nil _

theorem scan_blanks_quoted {blanks : List Char} (h : ∀ c ∈ blanks, Text.isBlank c = true)
    (collected : List Char) (last : Option Char) :
    scan collected true last blanks = flush (blanks.reverse ++ collected) := by
  induction blanks generalizing collected last with
  | nil => rfl
  | cons c blanks ih =>
    obtain ⟨hc, hblanks⟩ := List.forall_mem_cons.1 h
    rw [scan_blank_quoted hc, ih hblanks, List.reverse_cons, List.append_assoc,
      List.singleton_append]

/-- The character read last matters only when it is a backslash. -/
theorem scan_congr_last (s collected : List Char) (quoted : Bool) {last last' : Option Char}
    (h : last ≠ some '\\') (h' : last' ≠ some '\\') :
    scan collected quoted last s = scan collected quoted last' s := by
  cases s with
  | nil => rfl
  | cons c s => simp only [scan, h, h', if_false]

theorem scan_blanks_append {blanks : List Char} (h : ∀ c ∈ blanks, Text.isBlank c = true)
    (s : List Char) {last : Option Char} (hlast : last ≠ some '\\') :
    scan [] false last (blanks ++ s) = scan [] false none s := by
  induction blanks generalizing last with
  | nil => exact scan_congr_last s [] false hlast (by simp)
  | cons c blanks ih =>
    obtain ⟨hc, hblanks⟩ := List.forall_mem_cons.1 h
    have hne : some c ≠ some '\\' := by
      rintro ⟨⟩
      exact absurd hc (by decide)
    rw [List.cons_append, scan_blank hc, ih hblanks hne]
    rfl

theorem tokens_blanks_append {blanks : List Char} (h : ∀ c ∈ blanks, Text.isBlank c = true)
    (s : List Char) : tokens (blanks ++ s) = tokens s :=
  scan_blanks_append h s (by simp)

theorem tokens_append_blanks {s blanks : List Char} (h : ∀ c ∈ blanks, Text.isBlank c = true)
    (hs : endsOpen s = false) : tokens (s ++ blanks) = tokens s := by
  obtain ⟨front, begun, hscan⟩ := exists_scan_append s [] false none
  have hline := hscan []
  rw [List.append_nil] at hline
  rw [tokens, tokens, hscan, hline, ← endsOpen, hs, scan_blanks h]
  rfl

/-- A span that is still open takes the white space behind a text into its token. -/
theorem exists_tokens_append_blanks {s blanks : List Char}
    (h : ∀ c ∈ blanks, Text.isBlank c = true) (hne : blanks ≠ []) (hs : endsOpen s = true) :
    ∃ front begun, tokens s = front ++ (if begun.isEmpty then [] else [begun]) ∧
      tokens (s ++ blanks) = front ++ [begun ++ blanks] := by
  obtain ⟨front, begun, hscan⟩ := exists_scan_append s [] false none
  have hline := hscan []
  rw [List.append_nil] at hline
  refine ⟨front, begun.reverse, ?_, ?_⟩
  · rw [tokens, hline, scan, flush, List.isEmpty_reverse]
  · rw [tokens, hscan, ← endsOpen, hs, scan_blanks_quoted h, flush]
    simp [hne]

end Abbrev.Lexer
