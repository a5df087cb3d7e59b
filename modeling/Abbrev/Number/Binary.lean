/-! Binary floating-point numbers as exact data: a finite number is a sign, a natural mantissa and a
power of two, so that every operation is arithmetic on natural numbers followed by one rounding.
A format only says how many bits the mantissa has and how far the exponent reaches. -/

namespace Abbrev.Number

structure Format where
  precision : Nat
  minExponent : Int
  maxExponent : Int
deriving DecidableEq, Repr

/-- Mantissas of 24 bits. -/
def Format.single : Format := ⟨24, -149, 104⟩

/-- Mantissas of 53 bits. -/
def Format.double : Format := ⟨53, -1074, 971⟩

inductive Binary where
  | nan
  | infinite (negative : Bool)
  | finite (negative : Bool) (mantissa : Nat) (exponent : Int)
deriving DecidableEq, Repr

/-- A ratio of natural numbers equal to `base ^ e`. -/
def powerRatio (base : Nat) (e : Int) : Nat × Nat :=
  if 0 ≤ e then (Nat.pow base e.toNat, 1) else (1, Nat.pow base (-e).toNat)

/-- The natural number nearest to `num / den`, the even one of two. -/
def roundHalfEven (num den : Nat) : Nat :=
  let q := num / den
  let r := num % den
  if 2 * r < den || (2 * r == den && q % 2 == 0) then q else q + 1

/-- The number of the format nearest to `num / den`, the one with an even mantissa of two; infinite
past the largest. The first guess at the exponent is one too small or right. -/
def Format.round (f : Format) (negative : Bool) (num den : Nat) : Binary :=
  if num = 0 then .finite negative 0 f.minExponent
  else
    let guess := max ((num.log2 : Int) - den.log2 - f.precision) f.minExponent
    let ratio (e : Int) : Nat × Nat :=
      let (up, down) := powerRatio 2 e
      (num * down, den * up)
    let (n, d) := ratio guess
    let e := if n / d < Nat.pow 2 f.precision then guess else guess + 1
    let (n, d) := ratio e
    let m := roundHalfEven n d
    let (m, e) := if m < Nat.pow 2 f.precision then (m, e) else (Nat.pow 2 (f.precision - 1), e + 1)
    if f.maxExponent < e then .infinite negative else .finite negative m e

/-- The number of the format nearest to `m * 2 ^ e`. -/
def Format.roundScaled (f : Format) (negative : Bool) (m : Nat) (e : Int) : Binary :=
  let (up, down) := powerRatio 2 e
  f.round negative (m * up) down

namespace Binary

/-- Numeric equality: no NaN equals anything, and the two zeros are equal. -/
def same : Binary → Binary → Bool
  | nan, _ | _, nan => false
  | finite s m e, finite t n d => (m == 0 && n == 0) || (s == t && m == n && e == d)
  | infinite s, infinite t => s == t
  | _, _ => false

def ofInt (f : Format) (n : Int) : Binary :=
  f.roundScaled (n < 0) n.natAbs 0

/-- The nearest number of another format. -/
def convert (f : Format) : Binary → Binary
  | finite s m e => f.roundScaled s m e
  | x => x

def mul (f : Format) : Binary → Binary → Binary
  | nan, _ | _, nan => nan
  | infinite s, infinite t => infinite (s != t)
  | infinite s, finite t m _ | finite t m _, infinite s => if m = 0 then nan else infinite (s != t)
  | finite s m e, finite t n d => f.roundScaled (s != t) (m * n) (e + d)

/-- A sum that is exactly zero is negative only when both terms are. -/
def add (f : Format) : Binary → Binary → Binary
  | nan, _ | _, nan => nan
  | infinite s, infinite t => if s = t then infinite s else nan
  | infinite s, finite .. | finite .., infinite s => infinite s
  | finite s m e, finite t n d =>
    let low := min e d
    let scaled (negative : Bool) (m : Nat) (e : Int) : Int :=
      let a : Int := m * Nat.pow 2 (e - low).toNat
      if negative then -a else a
    let sum := scaled s m e + scaled t n d
    f.roundScaled (if sum = 0 then s && t else sum < 0) sum.natAbs low

end Binary

end Abbrev.Number
