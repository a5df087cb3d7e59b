import Abbrev.Number.Binary

/-! The shortest decimal that a binary format reads back as a given number. On each decimal grid,
coarsest first, the two neighbours of the number are tried against the interval of reals that round
to it; the first grid with a hit wins, and of two hits the nearer. -/

namespace Abbrev.Number

/-- Which of two equally near decimals is written. -/
inductive Tie where
  | up
  | even
deriving DecidableEq, Repr

/-- The decimal `digits * 10 ^ scale`. -/
structure Scaled where
  digits : Nat
  scale : Int
deriving DecidableEq, Repr

def climb (num den : Nat) : Nat → Int → Int
  | 0, k => k
  | n + 1, k =>
    let (up, down) := powerRatio 10 (k + 1)
    if den * up ≤ num * down then climb num den n (k + 1) else k

/-- The exponent of the largest power of ten that is at most `num / den`. -/
def decimalExponent (num den : Nat) : Int :=
  climb num den 3 (((num.log2 : Int) - den.log2) * 1233 / 4096 - 1)

/-- Removes the trailing zeros of the digits. -/
def Scaled.strip (s : Scaled) : Scaled :=
  if h : s.digits ≠ 0 ∧ s.digits % 10 = 0 then
    have : s.digits / 10 < s.digits := by omega
    Scaled.strip ⟨s.digits / 10, s.scale + 1⟩
  else s
termination_by s.digits

/-- Quarter steps of the last place make the interval's ends whole: `4 * m` is the number, and half
a step lies on either side, a quarter below when the mantissa is the least of its binade. -/
structure Neighbourhood where
  low : Nat
  middle : Nat
  high : Nat
  closed : Bool

def neighbourhood (f : Format) (m : Nat) (e : Int) : Neighbourhood where
  low := if m = Nat.pow 2 (f.precision - 1) ∧ f.minExponent < e then 4 * m - 1 else 4 * m - 2
  middle := 4 * m
  high := 4 * m + 2
  closed := m % 2 == 0

/-- Tries the grid `10 ^ scale` and, while none of it is hit, up to `n` finer ones. -/
def Neighbourhood.search (i : Neighbourhood) (tie : Tie) (unit : Nat × Nat) :
    Nat → Int → Scaled
  | 0, scale => ⟨0, scale⟩
  | n + 1, scale =>
    let (up, down) := powerRatio 10 scale
    let step := up * unit.2
    let place (quarters : Nat) : Nat := quarters * unit.1 * down
    let admits (c : Nat) : Bool :=
      if i.closed then place i.low ≤ c * step && c * step ≤ place i.high
      else place i.low < c * step && c * step < place i.high
    let c := place i.middle / step
    let under := place i.middle - c * step
    let above := (c + 1) * step - place i.middle
    let upper := above < under || (above == under && (tie == .up || c % 2 == 1))
    match admits c, admits (c + 1) with
    | true, true => ⟨if upper then c + 1 else c, scale⟩
    | true, false => ⟨c, scale⟩
    | false, true => ⟨c + 1, scale⟩
    | false, false => i.search tie unit n (scale - 1)

/-- Seventeen digits tell apart the numbers of every format here. -/
def shortest (f : Format) (tie : Tie) (m : Nat) (e : Int) : Scaled :=
  if m = 0 then ⟨0, 0⟩
  else
    let unit := powerRatio 2 (e - 2)
    let i := neighbourhood f m e
    (i.search tie unit 17 (decimalExponent (i.middle * unit.1) unit.2)).strip

end Abbrev.Number
