import Abbrev.Number.Layout
import Abbrev.Toml.Datetime

/-! TOML values, and their text on one line. Tables are written in the order of their keys. -/

namespace Abbrev.Toml

inductive Value where
  | string (s : String)
  | integer (n : Int)
  | float (x : Number.Binary)
  | boolean (b : Bool)
  | datetime (d : Datetime)
  | array (items : List Value)
  | table (entries : List (String × Value))

namespace Inline

def hexDigit (n : Nat) : Char :=
  if n < 10 then Char.ofNat ('0'.toNat + n) else Char.ofNat ('A'.toNat + (n - 10))

def isControl (c : Char) : Bool := c.toNat < 0x20 || c.toNat == 0x7F

/-- A character between double quotes; line feeds stay when the quotes span lines. -/
def escape (multiline : Bool) (c : Char) : List Char :=
  match c with
  | '\x08' => ['\\', 'b']
  | '\t' => ['\\', 't']
  | '\n' => if multiline then ['\n'] else ['\\', 'n']
  | '\x0c' => ['\\', 'f']
  | '\r' => ['\\', 'r']
  | '"' => ['\\', '"']
  | '\\' => ['\\', '\\']
  | c =>
    if isControl c then
      ['\\', 'u', '0', '0', hexDigit (c.toNat / 16), hexDigit (c.toNat % 16)]
    else [c]

/-- A text between triple double quotes, where two quotes in a row may stand for themselves. -/
def escapeLines (quotes : Nat) : List Char → List Char
  | [] => []
  | '"' :: s =>
    if quotes < 2 then '"' :: escapeLines (quotes + 1) s
    else escape true '"' ++ escapeLines 0 s
  | c :: s => escape true c ++ escapeLines 0 s

/-- The length of the longest run of a character. -/
def longestRun (c : Char) (s : List Char) : Nat :=
  (s.splitOnP (· != c)).foldl (fun n run => max n run.length) 0

inductive Quoting where
  | basic
  | literal
  | basicLines
  | literalLines
deriving DecidableEq, Repr

/-- The first way to quote a text that needs no escapes. Single quotes hold anything but themselves,
triple quotes also hold line feeds and two of their own kind in a row; control characters always
have to be escaped, and then only line feeds call for triple quotes. -/
def quoting (s : List Char) : Quoting :=
  let broken := s.contains '\n'
  let plain := s.all fun c => c == '\t' || c == '\n' || !isControl c
  let slashed := s.contains '\\'
  if plain && !slashed && !s.contains '"' && !broken then .basic
  else if plain && !s.contains '\'' && !broken then .literal
  else if plain && !slashed && longestRun '"' s ≤ 2 then .basicLines
  else if plain && longestRun '\'' s ≤ 2 then .literalLines
  else if broken then .basicLines
  else .basic

/-- Triple quotes open on a line of their own when there are several. -/
def quote (s : List Char) : List Char :=
  let opening := if s.contains '\n' then ['\n'] else []
  let between (mark body : List Char) : List Char := mark ++ body ++ mark
  match quoting s with
  | .basic => between ['"'] (s.flatMap (escape false))
  | .literal => between ['\''] s
  | .basicLines => between ['"', '"', '"'] (opening ++ escapeLines 0 s)
  | .literalLines => between ['\'', '\'', '\''] (opening ++ s)

def isBareKeyChar (c : Char) : Bool := c.isAlphanum || c == '_' || c == '-'

/-- A key without quotes where possible, between single quotes where double quotes would need
escapes. -/
def key (s : List Char) : List Char :=
  if !s.isEmpty && s.all isBareKeyChar then s
  else if (s.contains '"' || s.contains '\\') &&
      s.all fun c => c != '\'' && (c == '\t' || !isControl c) then
    '\'' :: s ++ ['\'']
  else '"' :: s.flatMap (escape false) ++ ['"']

def float (x : Number.Binary) : List Char :=
  match x with
  | .nan => "nan".toList
  | .infinite _ => x.plain .double
  | .finite .. =>
    let s := x.plain .double
    if s.contains '.' then s else s ++ ".0".toList

/-- One entry of a table, ready to be written. -/
structure Field where
  key : String
  text : String

def Field.before (a b : Field) : Bool := decide (a.key ≤ b.key)

def Field.written (f : Field) : String :=
  String.ofList (Inline.key f.key.toList) ++ " = " ++ f.text

end Inline

namespace Value

mutual

def inline : Value → String
  | string s => String.ofList (Inline.quote s.toList)
  | integer n => String.ofList (Number.integer n)
  | float x => String.ofList (Inline.float x)
  | boolean b => if b then "true" else "false"
  | datetime d => String.ofList d.text
  | array items => "[" ++ String.intercalate ", " (inlines items) ++ "]"
  | table [] => "\x7b\x7d"
  | table entries =>
    let fields := (inlineFields entries).mergeSort Inline.Field.before
    "\x7b " ++ String.intercalate ", " (fields.map Inline.Field.written) ++ " \x7d"

def inlines : List Value → List String
  | [] => []
  | v :: vs => v.inline :: inlines vs

def inlineFields : List (String × Value) → List Inline.Field
  | [] => []
  | (key, v) :: entries => ⟨key, v.inline⟩ :: inlineFields entries

end

end Value

end Abbrev.Toml
