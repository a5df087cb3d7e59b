import Abbrev.Number.Binary
import Abbrev.Number.Decimal

/-! Reading a binary floating-point number from decimal text, correctly rounded. -/

namespace Abbrev.Number

/-- The number of the format nearest to `digits * 10 ^ scale`. A number of `size + 1` binary digits
has more than `3 * size / 10` decimal ones and at most `size / 3 + 1`, which tells at once what lies
beyond the 400th power of ten, either way: it is past every format's largest or smallest number. -/
def Format.ofDecimal (f : Format) (negative : Bool) (digits : Nat) (scale : Int) : Binary :=
  let size : Int := digits.log2
  if digits = 0 then .finite negative 0 f.minExponent
  else if 400 < scale + 3 * size / 10 then .infinite negative
  else if scale + size / 3 + 1 < -400 then .finite negative 0 f.minExponent
  else
    let (up, down) := powerRatio 10 scale
    f.round negative (digits * up) down

/-- Digits with at most one point among them, at least one digit, and what follows. -/
def takeMantissa (s : List Char) : Option (Nat × Nat × List Char) :=
  let (whole, rest) := s.span Char.isDigit
  let (places, rest) := match rest with
    | '.' :: r => r.span Char.isDigit
    | r => ([], r)
  if whole.isEmpty && places.isEmpty then none
  else some (ofDigits (whole ++ places), places.length, rest)

/-- An exponent to the end of the text; none at all is zero. -/
def exponent? : List Char → Option Int
  | [] => some 0
  | c :: s => if c == 'e' || c == 'E' then integer? s else none

/-- A decimal with an optional sign, point and exponent, or one of the words `inf`, `infinity` and
`nan` in any case. -/
def Binary.read? (f : Format) (s : List Char) : Option Binary :=
  let (sign, body) := takeSign s
  let negative := sign == some true
  let word := String.ofList (body.map Char.toLower)
  if word == "inf" || word == "infinity" then some (.infinite negative)
  else if word == "nan" then some .nan
  else do
    let (digits, places, rest) ← takeMantissa body
    let e ← exponent? rest
    some (f.ofDecimal negative digits (e - places))

end Abbrev.Number
