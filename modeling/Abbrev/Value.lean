import Abbrev.Kind
import Abbrev.Number.Layout

/-! Argument values: scalars of the declared kinds, and arrays. A value's text joins the elements of
an array with a separator, at every depth. -/

namespace Abbrev

inductive Scalar where
  | bool (b : Bool)
  | char (c : Char)
  | string (s : String)
  | int (k : IntKind) (n : k.Range)
  | float (k : FloatKind) (x : Number.Binary)
deriving DecidableEq, Inhabited

namespace Scalar

def kind : Scalar → Kind
  | bool _ => .bool
  | char _ => .char
  | string _ => .string
  | int k _ => .int k
  | float k _ => .float k

def text : Scalar → String
  | bool b => if b then "true" else "false"
  | char c => String.singleton c
  | string s => s
  | int _ n => String.ofList (Number.integer n.val)
  | float k x => String.ofList (x.plain k.format)

/-- Equality, except that floating-point numbers are compared as numbers. -/
def same : Scalar → Scalar → Bool
  | float k x, float l y => k == l && x.same y
  | x, y => x == y

end Scalar

inductive Value where
  | scalar (x : Scalar)
  | array (items : List Value)
deriving Inhabited

namespace Value

mutual

def text (separator : Char) : Value → String
  | scalar x => x.text
  | array items => String.intercalate (String.singleton separator) (texts separator items)

def texts (separator : Char) : List Value → List String
  | [] => []
  | v :: vs => v.text separator :: texts separator vs

end

theorem texts_eq_map (separator : Char) (vs : List Value) :
    texts separator vs = vs.map (text separator) := by
  induction vs with
  | nil => rfl
  | cons v vs ih => simp [texts, ih]

/-- The text under the separator of displayed values. -/
def display (v : Value) : String := v.text ','

mutual

/-- Equality, except that floating-point numbers are compared as numbers. -/
def same : Value → Value → Bool
  | scalar x, scalar y => x.same y
  | array xs, array ys => allSame xs ys
  | _, _ => false

def allSame : List Value → List Value → Bool
  | [], [] => true
  | x :: xs, y :: ys => x.same y && allSame xs ys
  | _, _ => false

end

end Value

/-- What a handler may ask of a value: anything, a scalar of one kind, or an array whose elements
all have a shape. -/
inductive Shape where
  | any
  | one (kind : Kind)
  | list (element : Shape)
deriving DecidableEq, Repr

namespace Shape

def name : Shape → String
  | any => "value"
  | one k => k.name
  | list s => s.name ++ "[]"

def admits : Shape → Value → Bool
  | any, _ => true
  | one k, .scalar x => x.kind == k
  | list s, .array vs => vs.all s.admits
  | _, _ => false

end Shape

/-- The shape of the values of a type. -/
def ParamType.shape : ParamType → Shape
  | one k => .one k
  | many k => .list (.one k)

def Value.HasType (v : Value) (t : ParamType) : Prop := t.shape.admits v = true

end Abbrev
