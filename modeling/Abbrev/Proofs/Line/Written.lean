import Abbrev.Proofs.Line.Quoting
import Abbrev.Text.Fields

/-! Lines written from tokens of any kind. Reading such a line loses its flags and nothing else,
writing brings in no character but spaces, quotes and backslashes, and a token without white space
and quotes is written as it stands. -/

namespace Abbrev

namespace Lexer

theorem mem_of_mem_escape {c : Char} {t : List Char} (h : c ∈ escape t) : c = '\\' ∨ c ∈ t := by
  obtain ⟨d, hd, hc⟩ := List.mem_flatMap.1 h
  split at hc
  · rcases List.mem_pair.1 hc with rfl | rfl
    · exact .inl rfl
    · exact .inr hd
  · rw [List.mem_singleton] at hc
    exact .inr (hc ▸ hd)

theorem mem_of_mem_quote {c : Char} {t : List Char} (h : c ∈ quote t) :
    c = '"' ∨ c = '\\' ∨ c ∈ t := by
  unfold quote at h
  split at h
  · simp only [List.cons_append, List.mem_cons, List.mem_append] at h
    rcases h with rfl | h | rfl | h
    · exact .inl rfl
    · exact .inr ((mem_of_mem_escape h).imp_right fun hc => (List.rdropWhile_prefix _ _).subset hc)
    · exact .inl rfl
    · exact .inr ((mem_of_mem_escape h).imp_right fun hc => (List.rtakeWhile_suffix _ _).subset hc)
  · exact .inr (mem_of_mem_escape h)

theorem quote_eq_self {t : List Char} (h : ∀ c ∈ t, Text.isBlank c = false ∧ isQuote c = false) :
    quote t = t := by
  have hblank : t.any Text.isBlank = false := by simpa using fun c hc => (h c hc).1
  have hescape : escape t = t := by
    have hsame : escape t = t.flatMap fun c => [c] :=
      List.flatMap_congr fun c hc => by rw [(h c hc).2]; rfl
    rw [hsame, List.flatMap_singleton']
  rw [quote, hblank, hescape]
  rfl

end Lexer

namespace Line

/-- A line of tokens without line breaks is a single line. -/
theorem length_lines_encode_le_one {ts : List String}
    (h : ∀ t ∈ ts, ∀ c ∈ t.toList, Text.isLineBreak c = false) :
    (Text.lines (encode ts)).length ≤ 1 := by
  refine Text.length_lines_le_one fun c hc => ?_
  rw [encode, String.toList_intercalate] at hc
  rcases Text.mem_of_mem_intercalate hc with hspace | ⟨xs, hxs, hc⟩
  · rw [List.mem_singleton.1 hspace]
    decide
  · simp only [List.map_map, List.mem_map] at hxs
    obtain ⟨t, ht, rfl⟩ := hxs
    rcases Lexer.mem_of_mem_quote (by simpa using hc) with rfl | rfl | hc
    · decide
    · decide
    · exact h t ht c hc

theorem tokens_ofText_encode {ts : List String} (h : ∀ t ∈ ts, t ≠ "") (sigil : Char) :
    (ofText sigil (encode ts)).tokens = ts.filter fun t => t.toList.head? != some sigil := by
  have hkept : (not ∘ isFlag sigil) ∘ String.toList =
      fun t : String => t.toList.head? != some sigil := rfl
  have hback : String.ofList ∘ String.toList = id := funext fun t => String.ofList_toList
  simp only [ofText, tokens_encode ts h, List.partition_eq_filter_filter, List.filter_map,
    List.map_map, hkept, hback, List.map_id]

theorem encode_pair {u v : String}
    (hu : ∀ c ∈ u.toList, Text.isBlank c = false ∧ Lexer.isQuote c = false)
    (hv : ∀ c ∈ v.toList, Text.isBlank c = false ∧ Lexer.isQuote c = false) :
    encode [u, v] = u ++ " " ++ v := by
  rw [← String.toList_inj, encode, String.toList_intercalate]
  simp [Lexer.quote_eq_self hu, Lexer.quote_eq_self hv, List.intercalate_cons_cons]

end Line

end Abbrev
