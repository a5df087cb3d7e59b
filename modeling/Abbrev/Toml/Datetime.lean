import Abbrev.Number.Decimal

/-! Dates and times of TOML: a date, a time of day, or both, and then perhaps an offset. Reading
checks every part against the calendar and the clock. -/

namespace Abbrev.Toml

structure Date where
  year : Nat
  month : Nat
  day : Nat
deriving DecidableEq, Repr

structure Time where
  hour : Nat
  minute : Nat
  second : Nat
  nanosecond : Nat
deriving DecidableEq, Repr

inductive Offset where
  | utc
  | minutes (n : Int)
deriving DecidableEq, Repr

inductive Datetime where
  | date (d : Date)
  | time (t : Time)
  | both (d : Date) (t : Time) (o : Option Offset)
deriving DecidableEq, Repr

/-- A number with leading zeros up to a width. -/
def padded (width n : Nat) : List Char :=
  let ds := Number.decimal n
  List.replicate (width - ds.length) '0' ++ ds

def Date.text (d : Date) : List Char :=
  padded 4 d.year ++ '-' :: padded 2 d.month ++ '-' :: padded 2 d.day

/-- Fractions of a second are written without trailing zeros, and not at all when there is none. -/
def Time.text (t : Time) : List Char :=
  let fraction := ((padded 9 t.nanosecond).reverse.dropWhile (· == '0')).reverse
  padded 2 t.hour ++ ':' :: padded 2 t.minute ++ ':' :: padded 2 t.second ++
    if fraction.isEmpty then [] else '.' :: fraction

def Offset.text : Offset → List Char
  | utc => ['Z']
  | minutes n =>
    (if n < 0 then '-' else '+') :: padded 2 (n.natAbs / 60) ++ ':' :: padded 2 (n.natAbs % 60)

def Datetime.text : Datetime → List Char
  | date d => d.text
  | time t => t.text
  | both d t o => d.text ++ 'T' :: t.text ++ (o.map Offset.text).getD []

def daysIn (year month : Nat) : Nat :=
  if month = 2 then
    if year % 4 = 0 ∧ (year % 100 ≠ 0 ∨ year % 400 = 0) then 29 else 28
  else if month = 4 ∨ month = 6 ∨ month = 9 ∨ month = 11 then 30
  else 31

/-- Exactly `n` digits, and what follows them. -/
def takeDigits (n : Nat) (s : List Char) : Option (Nat × List Char) :=
  let ds := s.take n
  if ds.length = n then (Number.natural? ds).map (·, s.drop n) else none

def Date.take (s : List Char) : Option (Date × List Char) := do
  let (year, '-' :: s) ← takeDigits 4 s | none
  let (month, '-' :: s) ← takeDigits 2 s | none
  let (day, s) ← takeDigits 2 s
  if 1 ≤ month ∧ month ≤ 12 ∧ 1 ≤ day ∧ day ≤ daysIn year month then
    some (⟨year, month, day⟩, s)
  else none

/-- A fraction of a second in nanoseconds; finer digits are cut off. -/
def takeFraction : List Char → Option (Nat × List Char)
  | '.' :: s =>
    let (ds, s) := s.span Char.isDigit
    if ds.isEmpty then none
    else some (Number.ofDigits ((ds ++ List.replicate 9 '0').take 9), s)
  | s => some (0, s)

/-- A minute may have a leap second. -/
def Time.take (s : List Char) : Option (Time × List Char) := do
  let (hour, ':' :: s) ← takeDigits 2 s | none
  let (minute, ':' :: s) ← takeDigits 2 s | none
  let (second, s) ← takeDigits 2 s
  let (nanosecond, s) ← takeFraction s
  if hour ≤ 23 ∧ minute ≤ 59 ∧ second ≤ 60 then some (⟨hour, minute, second, nanosecond⟩, s)
  else none

/-- An offset to the end of the text, if there is one. -/
def Offset.read? : List Char → Option (Option Offset)
  | [] => some none
  | ['Z'] | ['z'] => some (some .utc)
  | sign :: s => do
    let (h, ':' :: s) ← takeDigits 2 s | none
    let (m, []) ← takeDigits 2 s | none
    if h ≤ 23 ∧ m ≤ 59 then
      let n : Int := h * 60 + m
      if sign = '+' then some (some (.minutes n))
      else if sign = '-' then some (some (.minutes (-n)))
      else none
    else none

def Datetime.read? (s : List Char) : Option Datetime :=
  match Date.take s with
  | some (d, []) => some (.date d)
  | some (d, mark :: s) => do
    if mark = 'T' ∨ mark = 't' ∨ mark = ' ' then
      let (t, s) ← Time.take s
      let o ← Offset.read? s
      some (.both d t o)
    else none
  | none => do
    let (t, []) ← Time.take s | none
    some (.time t)

end Abbrev.Toml
