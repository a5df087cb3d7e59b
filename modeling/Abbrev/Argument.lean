/-! A token is an argument given by place, or by name when it has an equals sign behind its first
character. -/

namespace Abbrev

inductive Argument where
  | positional (token : String)
  | named (key value : String)
deriving DecidableEq, Repr

namespace Argument

/-- Splits at the first equals sign; one at the very beginning does not name anything. -/
def ofToken (token : String) : Argument :=
  match token.toList.span (· != '=') with
  | (key@(_ :: _), _ :: value) => named (String.ofList key) (String.ofList value)
  | _ => positional token

def isNamed : Argument → Bool
  | named .. => true
  | positional _ => false

def positional? : Argument → Option String
  | positional token => some token
  | named .. => none

def named? : Argument → Option (String × String)
  | named key value => some (key, value)
  | positional _ => none

end Argument

end Abbrev
