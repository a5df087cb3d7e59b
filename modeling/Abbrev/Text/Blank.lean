/-! White space in the sense of the Unicode property `White_Space`, and a text without it at
either end. -/

namespace Abbrev.Text

/-- The characters with the Unicode property `White_Space`. -/
def isBlank (c : Char) : Bool :=
  let n := c.toNat
  (9 ≤ n && n ≤ 13) || n == 0x20 || n == 0x85 || n == 0xA0 || n == 0x1680 ||
    (0x2000 ≤ n && n ≤ 0x200A) || n == 0x2028 || n == 0x2029 || n == 0x202F || n == 0x205F ||
    n == 0x3000

/-- Drops the characters that satisfy `p` from the end. -/
def dropEnd (p : Char → Bool) (s : List Char) : List Char :=
  (s.reverse.dropWhile p).reverse

theorem dropEnd_append_of_pos {p : Char → Bool} {after : List Char} (h : ∀ c ∈ after, p c = true)
    (s : List Char) : dropEnd p (s ++ after) = dropEnd p s := by
  rw [dropEnd, List.reverse_append,
    List.dropWhile_append_of_pos fun c hc => h c (List.mem_reverse.1 hc), dropEnd]

def trim (s : String) : String :=
  String.ofList (dropEnd isBlank (s.toList.dropWhile isBlank))

theorem trim_eq_of_surrounded {text line : String} {before after : List Char}
    (h : text.toList = before ++ line.toList ++ after)
    (hbefore : ∀ c ∈ before, isBlank c = true) (hafter : ∀ c ∈ after, isBlank c = true) :
    trim text = trim line := by
  rw [trim, trim, h, List.append_assoc, List.dropWhile_append_of_pos hbefore,
    List.dropWhile_append]
  split
  · rename_i hline
    have hblank : (after ++ []).dropWhile isBlank = [] := List.dropWhile_append_of_pos hafter
    rw [List.append_nil] at hblank
    rw [hblank, List.isEmpty_iff.1 hline]
  · rw [dropEnd_append_of_pos hafter]

end Abbrev.Text
