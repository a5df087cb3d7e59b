import Abbrev.Fault

/-! What a user may change about the input language: the character that marks flags, the separator
between the elements of an array, and how many meanings of a line are offered as a choice. -/

namespace Abbrev

structure Settings where
  sigil : Char := '/'
  separator : Char := ','
  maxChoices : Nat := 9
deriving DecidableEq, Repr

namespace Settings

/-- Choices are single digits. -/
def mostChoices : Nat := 9

/-- Characters that already mean something in a line. -/
def isReserved (c : Char) : Bool :=
  Text.isBlank c || c == '"' || c == '\'' || c == '\\' || c == '='

theorem isReserved_eq_false_of_isDigit {c : Char} (h : c.isDigit = true) :
    isReserved c = false := by
  have hrange := Number.toNat_of_isDigit h
  have hblank : Text.isBlank c = false := by
    refine Bool.eq_false_iff.2 fun hblank => ?_
    simp only [Text.isBlank, Bool.or_eq_true, Bool.and_eq_true, decide_eq_true_eq, beq_iff_eq]
      at hblank
    omega
  have hother : ∀ d : Char, d.isDigit = false → (c == d) = false := by
    intro d hd
    refine beq_eq_false_iff_ne.2 fun heq => ?_
    rw [heq, hd] at h
    cases h
  rw [isReserved, hblank, hother '"' (by decide), hother '\'' (by decide), hother '\\' (by decide),
    hother '=' (by decide)]
  rfl

def hex (n : Nat) : String := String.ofList (Nat.toDigits 16 n)

/-- A reserved character in quotes; all but the printable are written by escapes. -/
def quoteChar (c : Char) : String :=
  let body := match c with
    | '\t' => "\\t"
    | '\n' => "\\n"
    | '\r' => "\\r"
    | '\'' => "\\'"
    | '\\' => "\\\\"
    | c =>
      if 0x20 ≤ c.toNat && c.toNat < 0x7F then String.singleton c
      else "\\u\x7b" ++ hex c.toNat ++ "\x7d"
  "'" ++ body ++ "'"

def checkChar (what : String) (c : Char) : Except Fault Unit :=
  if isReserved c then
    .error <| .settings <|
      what ++ " cannot be " ++ quoteChar c ++ ": it is already part of the input syntax"
  else .ok ()

/-- Accepts the settings under which flags, arrays and ordinary input can be told apart. -/
def validate (s : Settings) : Except Fault Settings := do
  checkChar "option_char" s.sigil
  checkChar "array_separator" s.separator
  if s.sigil = s.separator then
    throw (.settings "option_char and array_separator must differ")
  if s.maxChoices < 1 ∨ mostChoices < s.maxChoices then
    throw (.settings s!"max_choices must be between 1 and {mostChoices}, got {s.maxChoices}")
  pure s

end Settings

end Abbrev
