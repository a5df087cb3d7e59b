import Abbrev.Proofs.Binding.FullNames

/-! Tokens read with every step checked. A checked step has no result where it takes back another
character than the backslash before a quote, or cuts a token where no character ends or before any
has been read. None of this ever happens: the checked readers give what the readers give, for every
text. -/

namespace Abbrev

namespace Lexer

/-- Reads on as `scan`, with the place of each character beside it. A backslash read last is to be
the character collected last, from the place just before the quote. -/
def scan? (collected : List (Char × Nat)) (quoted : Bool) (last : Option Char) :
    List (Char × Nat) → Option (List (List Char))
  | [] => some (flush (collected.map Prod.fst))
  | (c, i) :: s =>
    if isQuote c then
      if last = some '\\' then do
        let popped ← collected.head?
        if popped.1 = '\\' ∧ popped.2 + 1 = i then
          scan? ((c, i) :: collected.tail) quoted (some c) s
        else none
      else scan? collected (!quoted) (some c) s
    else if quoted || !Text.isBlank c then scan? ((c, i) :: collected) quoted (some c) s
    else do
      let tokens ← scan? [] quoted (some c) s
      pure (flush (collected.map Prod.fst) ++ tokens)

def tokens? (s : List Char) : Option (List (List Char)) := scan? [] false none s.zipIdx

/-- A backslash read last was collected last, at the place before. -/
def Pending (collected : List (Char × Nat)) (last : Option Char) (i : Nat) : Prop :=
  last = some '\\' → ∃ x rest, collected = x :: rest ∧ x.1 = '\\' ∧ x.2 + 1 = i

theorem pending_of_ne {c : Char} (h : c ≠ '\\') (collected : List (Char × Nat)) (i : Nat) :
    Pending collected (some c) i := fun hlast => absurd (Option.some.inj hlast) h

theorem pending_cons (c : Char) (i : Nat) (collected : List (Char × Nat)) :
    Pending ((c, i) :: collected) (some c) (i + 1) :=
  fun hlast => ⟨(c, i), collected, rfl, Option.some.inj hlast, rfl⟩

theorem scan?_eq_scan (s : List Char) {collected : List (Char × Nat)} {quoted : Bool}
    {last : Option Char} {i : Nat} (h : Pending collected last i) :
    scan? collected quoted last (s.zipIdx i) =
      some (scan (collected.map Prod.fst) quoted last s) := by
  induction s generalizing collected quoted last i with
  | nil => rfl
  | cons c s ih =>
    rw [List.zipIdx_cons, scan?, scan]
    split
    · rename_i hquote
      have hc : c ≠ '\\' := by
        rintro rfl
        exact absurd hquote (by decide)
      split
      · rename_i hlast
        obtain ⟨x, rest, rfl, hx, hi⟩ := h hlast
        rw [List.head?_cons, Option.bind_eq_bind, Option.bind_some, if_pos ⟨hx, hi⟩]
        exact ih (pending_of_ne hc ((c, i) :: rest) (i + 1))
      · exact ih (pending_of_ne hc collected (i + 1))
    · split
      · exact ih (pending_cons c i collected)
      · rename_i hblank
        have hc : c ≠ '\\' := by
          rintro rfl
          exact hblank (by cases quoted <;> decide)
        rw [ih (pending_of_ne hc [] (i + 1))]
        rfl

theorem tokens?_eq_tokens (s : List Char) : tokens? s = some (tokens s) :=
  scan?_eq_scan s fun hlast => by cases hlast

end Lexer

namespace Line

def ofText? (sigil : Char) (text : String) : Option Line := do
  let all ← Lexer.tokens? text.toList
  let (flags, tokens) := all.partition (isFlag sigil)
  pure ⟨tokens.map String.ofList, flags.any fun flag => asksHelp flag.tail⟩

theorem ofText?_eq_ofText (sigil : Char) (text : String) :
    ofText? sigil text = some (ofText sigil text) := by
  rw [ofText?, Lexer.tokens?_eq_tokens]
  rfl

end Line

namespace Argument

/-- The text before a byte offset at which a character begins or the text ends. -/
def upTo? (s : String) (offset : Nat) : Option String :=
  (s.pos? ⟨offset⟩).map fun p => (s.sliceTo p).copy

/-- The text from a byte offset on at which a character begins or the text ends. -/
def from? (s : String) (offset : Nat) : Option String :=
  (s.pos? ⟨offset⟩).map fun p => (s.sliceFrom p).copy

theorem exists_pos_splits (t u : String) :
    ∃ p, (t ++ u).pos? ⟨t.utf8ByteSize⟩ = some p ∧ p.Splits t u := by
  have hvalid : String.Pos.Raw.IsValid (t ++ u) ⟨t.utf8ByteSize⟩ :=
    String.Pos.Raw.isValid_iff_exists_append.2 ⟨t, u, rfl, rfl⟩
  have hslice : (⟨t.utf8ByteSize⟩ : String.Pos.Raw).isValidForSlice (t ++ u).toSlice = true :=
    String.Pos.Raw.isValidForSlice_eq_true_iff.2
      (String.Pos.Raw.isValidForSlice_toSlice_iff.2 hvalid)
  refine ⟨(t ++ u).pos _ hvalid, ?_, rfl, rfl⟩
  rw [String.pos?, String.Slice.pos?, dif_pos hslice]
  rfl

theorem upTo?_append (t u : String) : upTo? (t ++ u) t.utf8ByteSize = some t := by
  obtain ⟨p, hp, hsplits⟩ := exists_pos_splits t u
  rw [upTo?, hp, Option.map_some, (p.splits.eq hsplits).1]

theorem from?_append (t u : String) : from? (t ++ u) t.utf8ByteSize = some u := by
  obtain ⟨p, hp, hsplits⟩ := exists_pos_splits t u
  rw [from?, hp, Option.map_some, (p.splits.eq hsplits).2]

/-- The texts on both sides of an equals sign, which is one byte long. -/
theorem sides_of_equals (key value : String) :
    upTo? (key ++ "=" ++ value) key.utf8ByteSize = some key ∧
      from? (key ++ "=" ++ value) (key.utf8ByteSize + 1) = some value := by
  have hsize : (key ++ "=").utf8ByteSize = key.utf8ByteSize + 1 := String.utf8ByteSize_append
  constructor
  · rw [String.append_assoc]
    exact upTo?_append key ("=" ++ value)
  · rw [← hsize]
    exact from?_append (key ++ "=") value

/-- Cuts at the byte offset of the first equals sign; the key before it is not to be empty. -/
def ofToken? (token : String) : Option Argument :=
  match token.find? '=' with
  | some p =>
    if 0 < p.offset.byteIdx then do
      let key ← upTo? token p.offset.byteIdx
      let value ← from? token (p.offset.byteIdx + 1)
      if key = "" then none else pure (named key value)
    else some (positional token)
  | none => some (positional token)

theorem mem_of_find?_eq_none {token : String} (h : token.find? '=' = none) :
    '=' ∉ token.toList := by
  intro hmem
  obtain ⟨key, value, htoken, hfirst⟩ := List.eq_append_cons_of_mem hmem
  obtain ⟨p, -, hsplits⟩ := exists_pos_splits (String.ofList key) ("=" ++ String.ofList value)
  have hsame : token = String.ofList key ++ ("=" ++ String.ofList value) := by
    rw [← String.toList_inj, htoken]
    simp
  subst hsame
  rw [String.find?_char_eq_some_iff_splits.2 ⟨_, _, hsplits, by simpa using hfirst⟩] at h
  cases h

theorem ofToken?_of_find? {token : String} {p : token.Pos} (h : token.find? '=' = some p) :
    ofToken? token = some (ofToken token) := by
  obtain ⟨key, value, hsplits, hfirst⟩ := String.find?_char_eq_some_iff_splits.1 h
  have htoken : token = key ++ "=" ++ value := by
    rw [hsplits.eq_append, String.append_assoc]
    rfl
  have hoffset : p.offset.byteIdx = key.utf8ByteSize :=
    congrArg String.Pos.Raw.byteIdx hsplits.offset_eq_rawEndPos
  unfold ofToken?
  rw [h]
  dsimp only
  rw [hoffset]
  subst htoken
  obtain ⟨hkey, hvalue⟩ := sides_of_equals key value
  by_cases hempty : key = ""
  · rw [ofToken_eq_positional (isNamed_ofToken_eq_false_iff.2 fun _ => by simp [hempty])]
    simp [hempty]
  · have hpos : 0 < key.utf8ByteSize :=
      Nat.pos_of_ne_zero (mt String.utf8ByteSize_eq_zero_iff.1 hempty)
    rw [if_pos hpos, hkey, hvalue, ofToken_named hempty hfirst]
    exact if_neg hempty

theorem ofToken?_eq_ofToken (token : String) : ofToken? token = some (ofToken token) := by
  cases hfind : token.find? '=' with
  | some p => exact ofToken?_of_find? hfind
  | none =>
    have hpositional : (ofToken token).isNamed = false :=
      isNamed_ofToken_eq_false_iff.2 fun hmem => absurd hmem (mem_of_find?_eq_none hfind)
    rw [ofToken?, hfind, ofToken_eq_positional hpositional]

end Argument

end Abbrev
