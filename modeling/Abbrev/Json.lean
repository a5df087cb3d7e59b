import Abbrev.Value

/-! Values as one line of JSON: no spaces, and the short escapes where the format has them. -/

namespace Abbrev

inductive Json where
  | null
  | bool (b : Bool)
  | number (text : String)
  | string (s : String)
  | array (items : List Json)
  | object (fields : List (String × Json))

namespace Json

def hexDigit (n : Nat) : Char :=
  if n < 10 then Char.ofNat ('0'.toNat + n) else Char.ofNat ('a'.toNat + (n - 10))

def escape (c : Char) : List Char :=
  match c with
  | '"' => ['\\', '"']
  | '\\' => ['\\', '\\']
  | '\n' => ['\\', 'n']
  | '\r' => ['\\', 'r']
  | '\t' => ['\\', 't']
  | '\x08' => ['\\', 'b']
  | '\x0c' => ['\\', 'f']
  | c =>
    if c.toNat < 0x20 then ['\\', 'u', '0', '0', hexDigit (c.toNat / 16), hexDigit (c.toNat % 16)]
    else [c]

def quote (s : String) : String :=
  String.ofList ('"' :: s.toList.flatMap escape ++ ['"'])

mutual

def text : Json → String
  | null => "null"
  | bool b => if b then "true" else "false"
  | number s => s
  | string s => quote s
  | array items => "[" ++ String.intercalate "," (texts items) ++ "]"
  | object fields => "\x7b" ++ String.intercalate "," (fieldTexts fields) ++ "\x7d"

def texts : List Json → List String
  | [] => []
  | j :: js => j.text :: texts js

def fieldTexts : List (String × Json) → List String
  | [] => []
  | (name, j) :: fields => (quote name ++ ":" ++ j.text) :: fieldTexts fields

end

end Json

/-- A floating-point number that is not finite has no number in JSON. -/
def Number.Binary.json (f : Number.Format) (x : Number.Binary) : Json :=
  match x.data? f with
  | some s => .number (String.ofList s)
  | none => .null

namespace Scalar

def json : Scalar → Json
  | bool b => .bool b
  | char c => .string (String.singleton c)
  | string s => .string s
  | int _ n => .number (String.ofList (Number.integer n.val))
  | float k x => x.json k.format

/-- The same number at double precision. -/
def widen : Scalar → Scalar
  | float _ x => float .f64 (x.convert .double)
  | x => x

end Scalar

namespace Value

mutual

def json : Value → Json
  | scalar x => x.json
  | array items => .array (jsons items)

def jsons : List Value → List Json
  | [] => []
  | v :: vs => v.json :: jsons vs

end

mutual

def widen : Value → Value
  | scalar x => .scalar x.widen
  | array items => .array (widenAll items)

def widenAll : List Value → List Value
  | [] => []
  | v :: vs => v.widen :: widenAll vs

end

end Value

end Abbrev
