import Abbrev.Number.Numeral
import Abbrev.Toml.Quoted
import Abbrev.Toml.Value

/-! The values of TOML that are written without quotes or brackets: numbers, truth values, dates and
times. The whole of a text has to be the value. -/

namespace Abbrev.Toml.Word

/-- Digits that single underscores may separate; the result is without them. -/
def grouped (isDigit : Char → Bool) : List Char → Option (List Char)
  | [] => none
  | [c] => if isDigit c then some [c] else none
  | c :: '_' :: s => if isDigit c then (grouped isDigit s).map (c :: ·) else none
  | c :: s => if isDigit c then (grouped isDigit s).map (c :: ·) else none

/-- A decimal number without leading zeros. -/
def whole (s : List Char) : Option (List Char) :=
  match s with
  | '0' :: _ :: _ => none
  | _ => grouped Char.isDigit s

def based (base : Nat) (s : List Char) : Option Nat := do
  let isDigit (c : Char) : Bool := match Quoted.hexValue? c with
    | some v => v < base
    | none => false
  let ds ← grouped isDigit s
  pure (ds.foldl (fun n c => base * n + (Quoted.hexValue? c).getD 0) 0)

/-- Integers have 64 bits. -/
def integer? (s : List Char) : Option Int := do
  let n : Int ← match s with
    | '0' :: 'x' :: t => (based 16 t).map Int.ofNat
    | '0' :: 'o' :: t => (based 8 t).map Int.ofNat
    | '0' :: 'b' :: t => (based 2 t).map Int.ofNat
    | _ =>
      let (sign, t) := Number.takeSign s
      let n : Option Int := (whole t).map (Number.ofDigits ·)
      if sign = some true then n.map (- ·) else n
  if -(Nat.pow 2 63) ≤ n ∧ n < Nat.pow 2 63 then some n else none

/-- A decimal with a point or an exponent or both. One beyond the largest number is refused; one
below the smallest is infinite. -/
def decimal? (s : List Char) : Option Number.Binary := do
  let (sign, t) := Number.takeSign s
  let isE (c : Char) : Bool := c == 'e' || c == 'E'
  let (mantissa, power) := t.span (!isE ·)
  let (front, back) := mantissa.span (· != '.')
  let digits ← whole front
  let places ← match back with
    | [] => some []
    | _ :: ds => grouped Char.isDigit ds
  let scale ← match power with
    | [] => some 0
    | _ :: e =>
      let (negative, ds) := Number.takeSign e
      (grouped Char.isDigit ds).map fun ds =>
        let n : Int := Number.ofDigits ds
        if negative = some true then -n else n
  if back.isEmpty && power.isEmpty then none
  else
    let x := Number.Format.double.ofDecimal (sign = some true)
      (Number.ofDigits (digits ++ places)) (scale - places.length)
    if x = .infinite false then none else some x

def special? (s : List Char) : Option Number.Binary :=
  let (sign, t) := Number.takeSign s
  if t = "inf".toList then some (.infinite (sign = some true))
  else if t = "nan".toList then some .nan
  else none

def read? (s : List Char) : Option Value :=
  if s = "true".toList then some (.boolean true)
  else if s = "false".toList then some (.boolean false)
  else
    (Datetime.read? s).map .datetime <|> (special? s).map .float <|>
      (decimal? s).map .float <|> (integer? s).map .integer

end Abbrev.Toml.Word
