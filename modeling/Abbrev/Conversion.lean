import Abbrev.Fault
import Abbrev.Number.Numeral
import Abbrev.Text.Abbreviation
import Abbrev.Text.Fields

/-! From the text that a user types to a value of a declared type. An array's elements are the
non-empty pieces between separators, and the first that does not convert is the one reported. -/

namespace Abbrev

/-- Reads `1`, `0`, or a non-empty beginning of `true` or `false`. -/
def readBool? (text : String) : Option Bool :=
  if text.isEmpty then none
  else if text == "1" || Text.abbreviates text "true" then some true
  else if text == "0" || Text.abbreviates text "false" then some false
  else none

/-- A type without a sign takes no minus, not even before zero. -/
def IntKind.read? (k : IntKind) (text : List Char) : Option k.Range :=
  match k.isSigned, text with
  | false, '-' :: _ => none
  | _, s => (Number.integer? s).bind k.inRange?

def Kind.read? (text : String) : Kind → Option Scalar
  | .bool => (readBool? text).map .bool
  | .char => match text.toList with
    | [c] => some (.char c)
    | _ => none
  | .string => some (.string text)
  | .int k => (k.read? text.toList).map (.int k)
  | .float k => (Number.Binary.read? k.format text.toList).map (.float k)

def Kind.convert (k : Kind) (text : String) : Except Fault Value :=
  match k.read? text with
  | some x => .ok (.scalar x)
  | none => .error (.conversion text k.name)

def ParamType.convert (separator : Char) (t : ParamType) (text : String) : Except Fault Value :=
  match t with
  | .one k => k.convert text
  | .many k => do
    let items ← (Text.fields (· == separator) text.toList).mapM (k.convert <| String.ofList ·)
    pure (.array items)

/-- A type read from its name; the name is kept as written when it is none. -/
def ParamType.ofName (text : String) : Except Fault ParamType :=
  match ParamType.ofName? text with
  | some t => .ok t
  | none => .error (.unsupportedType text)

end Abbrev
