import Abbrev.Number.Decimal
import Abbrev.Number.Shortest

/-! How the digits of a decimal are laid out: positional, with an exponent, or with a fixed number
of places. -/

namespace Abbrev.Number

/-- Digits with a point, and no exponent. -/
def Scaled.positional (s : Scaled) : List Char :=
  let ds := decimal s.digits
  if 0 ≤ s.scale then
    ds ++ List.replicate s.scale.toNat '0'
  else
    let places := (-s.scale).toNat
    let padded := List.replicate (places + 1 - ds.length) '0' ++ ds
    padded.take (padded.length - places) ++ '.' :: padded.drop (padded.length - places)

/-- The power of ten of the leading digit. -/
def Scaled.exponent (s : Scaled) : Int :=
  s.scale + (decimal s.digits).length - 1

/-- One digit, the others behind a point, and a signed exponent. -/
def Scaled.scientific (s : Scaled) : List Char :=
  let e := s.exponent
  let mantissa := match decimal s.digits with
    | d :: r@(_ :: _) => d :: '.' :: r
    | ds => ds
  mantissa ++ 'e' :: (if e < 0 then '-' else '+') :: decimal e.natAbs

def signed (negative : Bool) (s : List Char) : List Char :=
  if negative then '-' :: s else s

/-- The plain text of a number: the shortest digits, always positional; of two nearest decimals the
greater. -/
def Binary.plain (f : Format) : Binary → List Char
  | nan => "NaN".toList
  | infinite negative => signed negative "inf".toList
  | finite negative m e => signed negative (shortest f .up m e).positional

/-- The numbers written positionally where an exponent is allowed: those whose leading digit stands
at a power of ten in this range. -/
structure PositionalRange where
  least : Int
  most : Int

def Format.positionalRange (f : Format) : PositionalRange :=
  if f = .single then ⟨-6, 12⟩ else ⟨-5, 15⟩

/-- The text of a number in data: whole numbers keep a point, those far from one take an exponent,
and of two nearest decimals the even one is written. `none` for what is not finite. -/
def Binary.data? (f : Format) : Binary → Option (List Char)
  | finite negative m e =>
    let s := shortest f .even m e
    let range := f.positionalRange
    some <| signed negative <|
      if m = 0 || (range.least ≤ s.exponent && s.exponent ≤ range.most) then
        if 0 ≤ s.scale then s.positional ++ ".0".toList else s.positional
      else s.scientific
  | _ => none

/-- The text with exactly `places` decimal places; a half goes to the even neighbour. -/
def Binary.fixed (places : Nat) : Binary → List Char
  | nan => "NaN".toList
  | infinite negative => signed negative "inf".toList
  | finite negative m e =>
    let (up, down) := powerRatio 2 e
    signed negative (Scaled.positional ⟨roundHalfEven (m * up * Nat.pow 10 places) down, -places⟩)

end Abbrev.Number
