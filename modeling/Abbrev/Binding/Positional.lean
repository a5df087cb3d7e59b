import Abbrev.Binding
import Abbrev.Binding.Rejection
import Abbrev.Conversion
import Abbrev.Template

/-! Binding by place: each token fills the part at its place. When every parameter has a default,
the words of the path alone, abbreviated as usual, bind all the defaults. -/

namespace Abbrev

namespace Template

/-- Fills the parts in order; the first that does not fit rejects the template. -/
def fill (separator : Char) : List Part → List String → Except Rejection (List (String × Value))
  | .word w :: parts, token :: tokens =>
    if Text.abbreviates token w then fill separator parts tokens else .error (.silent .word)
  | .slot s :: parts, token :: tokens =>
    match s.param.type.convert separator token with
    | .error _ => .error (.report (.incorrectArgumentType s.name s.param.type))
    | .ok v => do
      let rest ← fill separator parts tokens
      pure ((s.param.name, v) :: rest)
  | _, _ => .ok []

def defaults (t : Template) : List (String × Value) :=
  t.slots.filterMap fun s => s.default.map (s.param.name, ·)

def bindPositional (t : Template) (tokens : List String) (separator : Char) :
    Except Rejection Binding :=
  if t.parts.length = tokens.length then
    (fill separator t.parts tokens).map Binding.ofList
  else if t.allDefaults && t.parts.length - t.defaultCount == tokens.length then
    if Text.abbreviateAll tokens t.words then .ok (Binding.ofList t.defaults)
    else .error (.silent .word)
  else .error (.silent .argumentCount)

end Template

end Abbrev
