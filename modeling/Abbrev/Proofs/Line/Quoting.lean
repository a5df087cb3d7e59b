import Abbrev.Line
import Mathlib.Data.List.DropRight

/-! Writing tokens so that a line gives them back: quotes stand behind a backslash, and a token with
white space has a span that ends with its last white space. Behind each written token the scanner
has collected exactly that token, outside of any span, so a line of written tokens is read token by
token. Every token that a line can have is written in this way. -/

namespace Abbrev

namespace Lexer

/-- Each quote behind a backslash, and all else as it is. -/
def escape (t : List Char) : List Char :=
  t.flatMap fun c => if isQuote c then ['\\', c] else [c]

theorem escape_cons (c : Char) (t : List Char) :
    escape (c :: t) = (if isQuote c then ['\\', c] else [c]) ++ escape t := rfl

/-- A token as it is typed: what reaches to its last white space stands in a span. -/
def quote (t : List Char) : List Char :=
  if t.any Text.isBlank then
    '"' :: escape (t.rdropWhile (!Text.isBlank ·)) ++
      '"' :: escape (t.rtakeWhile (!Text.isBlank ·))
  else escape t

/-- An escaped quote is collected, and its backslash is not. -/
theorem scan_escaped {q : Char} (h : isQuote q = true) (collected s : List Char) (quoted : Bool)
    (last : Option Char) :
    scan collected quoted last ('\\' :: q :: s) = scan (q :: collected) quoted (some q) s := by
  have hslash : isQuote '\\' = false ∧ Text.isBlank '\\' = false := by decide
  simp [scan, hslash, h]

/-- Escaped characters are collected as they are, in a span or out of it. Nothing is asked of the
character read before them, since none of them is written as a bare quote. -/
theorem scan_escape (t rest collected : List Char) (quoted : Bool) (last : Option Char)
    (h : ∀ c ∈ t, (quoted || !Text.isBlank c) = true) :
    scan collected quoted last (escape t ++ rest) =
      scan (t.reverse ++ collected) quoted (t.getLast?.or last) rest := by
  induction t generalizing collected last with
  | nil => rfl
  | cons c t ih =>
    have hc : (quoted || !Text.isBlank c) = true := h c List.mem_cons_self
    have ht := ih (c :: collected) (some c) fun d hd => h d (List.mem_cons_of_mem c hd)
    have hlast : (c :: t).getLast?.or last = t.getLast?.or (some c) := by
      rw [List.getLast?_cons]
      cases t.getLast? <;> rfl
    have hrev : (c :: t).reverse ++ collected = t.reverse ++ c :: collected := by simp
    rw [escape_cons, hlast, hrev, ← ht]
    by_cases hq : isQuote c = true
    · rw [if_pos hq]
      exact scan_escaped hq collected _ quoted last
    · simp [scan, hq, hc]

/-- A bare quote opens or closes a span, and is not collected. -/
theorem scan_bareQuote {q : Char} (hq : isQuote q = true) {last : Option Char}
    (hlast : last ≠ some '\\') (collected s : List Char) (quoted : Bool) :
    scan collected quoted last (q :: s) = scan collected (!quoted) (some q) s := by
  rw [scan, if_pos hq, if_neg hlast]

/-- The span of a token ends behind white space, so the quote that closes it is not escaped. -/
theorem getLast?_rdropWhile_ne (t : List Char) (h : t.any Text.isBlank = true)
    (first : Option Char) :
    (t.rdropWhile (!Text.isBlank ·)).getLast?.or first ≠ some '\\' := by
  have hne : t.rdropWhile (!Text.isBlank ·) ≠ [] := by
    rw [ne_eq, List.rdropWhile_eq_nil_iff]
    simpa using h
  have hblank := List.rdropWhile_last_not (!Text.isBlank ·) t hne
  rw [List.getLast?_eq_getLast_of_ne_nil hne, Option.some_or, ne_eq, Option.some_inj]
  intro heq
  rw [heq] at hblank
  exact hblank (by decide)

/-- A written token is collected whole, and the span in it is closed again. -/
theorem scan_quote (t rest : List Char) {last : Option Char} (h : last ≠ some '\\') :
    ∃ last', scan [] false last (quote t ++ rest) = scan t.reverse false last' rest := by
  by_cases hb : t.any Text.isBlank = true
  · have hquote : isQuote '"' = true := by decide
    have hspan := getLast?_rdropWhile_ne t hb (some '"')
    have htail : ∀ c ∈ t.rtakeWhile (!Text.isBlank ·), (false || !Text.isBlank c) = true :=
      fun c hc => by simpa using List.mem_rtakeWhile_imp hc
    have hrev : (t.rtakeWhile (!Text.isBlank ·)).reverse ++
        (t.rdropWhile (!Text.isBlank ·)).reverse = t.reverse := by
      rw [← List.reverse_append, List.rdropWhile_append_rtakeWhile]
    refine ⟨(t.rtakeWhile (!Text.isBlank ·)).getLast?.or (some '"'), ?_⟩
    simp only [quote, hb, if_true, List.cons_append, List.append_assoc]
    rw [scan_bareQuote hquote h, Bool.not_false, scan_escape _ _ _ _ _ (by simp), List.append_nil,
      scan_bareQuote hquote hspan, Bool.not_true, scan_escape _ _ _ _ _ htail, hrev]
  · refine ⟨t.getLast?.or last, ?_⟩
    have hplain : ∀ c ∈ t, (false || !Text.isBlank c) = true := by simpa using hb
    simp only [quote, hb, Bool.false_eq_true, if_false]
    rw [scan_escape _ _ _ _ _ hplain, List.append_nil]

theorem flush_reverse {t : List Char} (h : t ≠ []) : flush t.reverse = [t] := by
  simp [flush, h]

theorem scan_intercalate_quote (ts : List (List Char)) (h : ∀ t ∈ ts, t ≠ []) {last : Option Char}
    (hlast : last ≠ some '\\') :
    scan [] false last ([' '].intercalate (ts.map quote)) = ts := by
  induction ts generalizing last with
  | nil => rfl
  | cons t ts ih =>
    have hflush := flush_reverse (h t List.mem_cons_self)
    have hts : ∀ u ∈ ts, u ≠ [] := fun u hu => h u (List.mem_cons_of_mem t hu)
    cases ts with
    | nil =>
      obtain ⟨last', hscan⟩ := scan_quote t [] hlast
      rw [List.map_singleton, List.intercalate_singleton, ← List.append_nil (quote t), hscan, scan,
        hflush]
    | cons u us =>
      obtain ⟨last', hscan⟩ :=
        scan_quote t (' ' :: [' '].intercalate ((u :: us).map quote)) hlast
      -- No span is open behind a written token, so the space after it ends the token.
      have hspace : isQuote ' ' = false ∧ Text.isBlank ' ' = true := by decide
      rw [List.map_cons, List.map_cons, List.intercalate_cons_cons, List.append_assoc,
        ← List.map_cons, List.singleton_append, hscan, scan]
      simp only [hspace, hflush, Bool.false_eq_true, if_false, Bool.not_true, Bool.or_false]
      rw [ih hts (by decide), List.singleton_append]

theorem ne_nil_of_mem_flush {collected t : List Char} (h : t ∈ flush collected) : t ≠ [] := by
  unfold flush at h
  split at h
  · cases h
  · rename_i hne
    rw [List.mem_singleton] at h
    simpa [h] using hne

theorem ne_nil_of_mem_scan (s : List Char) {collected t : List Char} {quoted : Bool}
    {last : Option Char} (h : t ∈ scan collected quoted last s) : t ≠ [] := by
  induction s generalizing collected quoted last with
  | nil => exact ne_nil_of_mem_flush h
  | cons c s ih =>
    rw [scan] at h
    split at h
    · split at h
      · exact ih h
      · exact ih h
    · split at h
      · exact ih h
      · rcases List.mem_append.1 h with h | h
        · exact ne_nil_of_mem_flush h
        · exact ih h

end Lexer

namespace Line

/-- Tokens as they are typed, with single spaces between them. -/
def encode (ts : List String) : String :=
  String.intercalate " " (ts.map fun t => String.ofList (Lexer.quote t.toList))

/-- What a token of a line can be: any text but an empty one or a flag. -/
def IsToken (sigil : Char) (t : String) : Prop :=
  t ≠ "" ∧ t.toList.head? ≠ some sigil

theorem tokens_encode (ts : List String) (h : ∀ t ∈ ts, t ≠ "") :
    Lexer.tokens (encode ts).toList = ts.map String.toList := by
  have htexts :
      (encode ts).toList = [' '].intercalate ((ts.map String.toList).map Lexer.quote) := by
    simp [encode, String.toList_intercalate, Function.comp_def]
  rw [Lexer.tokens, htexts]
  exact Lexer.scan_intercalate_quote _ (by simpa using h) (by decide)

theorem isFlag_eq_false_iff {sigil : Char} {t : List Char} :
    isFlag sigil t = false ↔ t.head? ≠ some sigil := by
  simp [isFlag]

theorem isToken_of_mem_tokens {sigil : Char} {text t : String}
    (h : t ∈ (ofText sigil text).tokens) : IsToken sigil t := by
  simp only [ofText, List.partition_eq_filter_filter, List.mem_map, List.mem_filter] at h
  obtain ⟨u, ⟨hu, hflag⟩, rfl⟩ := h
  have hne : u ≠ [] := Lexer.ne_nil_of_mem_scan _ hu
  refine ⟨by simpa using hne, ?_⟩
  rw [String.toList_ofList, ← isFlag_eq_false_iff]
  simpa using hflag

theorem ofText_encode {sigil : Char} {ts : List String} (h : ∀ t ∈ ts, IsToken sigil t) :
    ofText sigil (encode ts) = ⟨ts, false⟩ := by
  have htokens := tokens_encode ts fun t ht => (h t ht).1
  have hflags : ∀ u ∈ ts.map String.toList, isFlag sigil u = false := by
    intro u hu
    obtain ⟨t, ht, rfl⟩ := List.mem_map.1 hu
    exact isFlag_eq_false_iff.2 (h t ht).2
  have hnone : (ts.map String.toList).filter (isFlag sigil) = [] := by
    simpa [List.filter_eq_nil_iff] using hflags
  have hall : (ts.map String.toList).filter (!isFlag sigil ·) = ts.map String.toList := by
    simpa [List.filter_eq_self] using hflags
  simp only [ofText, htokens, List.partition_eq_filter_filter, hnone]
  rw [show (not ∘ isFlag sigil) = (!isFlag sigil ·) from rfl, hall]
  simp

/-- Reading undoes writing for exactly the lists of tokens that a line can have: a line has no other
tokens than those that can be written, and its tokens written again are the same line, flags aside.
-/
theorem ofText_encode_iff (sigil : Char) :
    (∀ ts : List String, ofText sigil (encode ts) = ⟨ts, false⟩ ↔ ∀ t ∈ ts, IsToken sigil t) ∧
      (∀ text : String, ∀ t ∈ (ofText sigil text).tokens, IsToken sigil t) ∧
      ∀ text : String,
        ofText sigil (encode (ofText sigil text).tokens) = ⟨(ofText sigil text).tokens, false⟩ := by
  refine ⟨fun ts => ⟨fun h t ht => ?_, ofText_encode⟩, fun _ _ => isToken_of_mem_tokens,
    fun text => ofText_encode fun _ => isToken_of_mem_tokens⟩
  have hmem : t ∈ (ofText sigil (encode ts)).tokens := by
    rw [h]
    exact ht
  exact isToken_of_mem_tokens hmem

/-- Backslashes in front of quotes and at the end, quotes beside white space, and flags' letters
that are no flags. -/
theorem ofText_encode_awkward :
    ofText '/' (encode ["a\\\"", " '\\", "x/ y?", "\\"]) =
      ⟨["a\\\"", " '\\", "x/ y?", "\\"], false⟩ :=
  ((ofText_encode_iff '/').1 _).2 (by simp [IsToken])

end Line

end Abbrev
