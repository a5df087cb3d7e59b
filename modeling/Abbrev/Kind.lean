import Abbrev.Number.Binary
import Abbrev.Text.Blank

/-! The types a parameter may have: a kind of scalar, or an array of one. Each kind has one
canonical name, used in every message, and some further names under which it may be declared. -/

namespace Abbrev

inductive IntKind where
  | i8 | i16 | i32 | i64 | u8 | u16 | u32 | u64
deriving DecidableEq, Repr

namespace IntKind

def name : IntKind → String
  | i8 => "i8" | i16 => "i16" | i32 => "i32" | i64 => "i64"
  | u8 => "u8" | u16 => "u16" | u32 => "u32" | u64 => "u64"

def bits : IntKind → Nat
  | i8 | u8 => 8
  | i16 | u16 => 16
  | i32 | u32 => 32
  | i64 | u64 => 64

def isSigned : IntKind → Bool
  | i8 | i16 | i32 | i64 => true
  | u8 | u16 | u32 | u64 => false

def least (k : IntKind) : Int :=
  if k.isSigned then -(Nat.pow 2 (k.bits - 1)) else 0

def most (k : IntKind) : Int :=
  if k.isSigned then Nat.pow 2 (k.bits - 1) - 1 else Nat.pow 2 k.bits - 1

/-- The integers of the kind. -/
abbrev Range (k : IntKind) := { n : Int // k.least ≤ n ∧ n ≤ k.most }

def inRange? (k : IntKind) (n : Int) : Option k.Range :=
  if h : k.least ≤ n ∧ n ≤ k.most then some ⟨n, h⟩ else none

@[simp] theorem inRange?_val (k : IntKind) (n : k.Range) : k.inRange? n.val = some n := by
  simp [inRange?, n.property]

end IntKind

inductive FloatKind where
  | f32 | f64
deriving DecidableEq, Repr

namespace FloatKind

def name : FloatKind → String
  | f32 => "f32" | f64 => "f64"

def format : FloatKind → Number.Format
  | f32 => .single
  | f64 => .double

end FloatKind

inductive Kind where
  | bool
  | char
  | string
  | int (k : IntKind)
  | float (k : FloatKind)
deriving DecidableEq, Repr

namespace Kind

def name : Kind → String
  | bool => "bool"
  | char => "char"
  | string => "string"
  | int k => k.name
  | float k => k.name

def ofName? : String → Option Kind
  | "bool" | "boolean" => some bool
  | "char" => some char
  | "string" | "str" | "text" => some string
  | "i8" | "sbyte" => some (int .i8)
  | "i16" | "short" => some (int .i16)
  | "i32" | "int" => some (int .i32)
  | "i64" | "long" => some (int .i64)
  | "u8" | "byte" => some (int .u8)
  | "u16" | "ushort" => some (int .u16)
  | "u32" | "uint" => some (int .u32)
  | "u64" | "ulong" => some (int .u64)
  | "f32" | "float" | "single" => some (float .f32)
  | "f64" | "double" => some (float .f64)
  | _ => none

@[simp] theorem ofName?_name (k : Kind) : ofName? k.name = some k := by
  cases k with
  | int k => cases k <;> rfl
  | float k => cases k <;> rfl
  | _ => rfl

end Kind

inductive ParamType where
  | one (kind : Kind)
  | many (kind : Kind)
deriving DecidableEq, Repr

namespace ParamType

def string : ParamType := one .string

/-- The kind of the value, or of each element. -/
def element : ParamType → Kind
  | one k | many k => k

def isArray : ParamType → Bool
  | one _ => false
  | many _ => true

def name : ParamType → String
  | one k => k.name
  | many k => k.name ++ "[]"

/-- Reads a type name without regard to letter case and surrounding white space. Brackets behind the
name of a kind make an array; one pair only, since one text is cut only once. -/
def ofName? (text : String) : Option ParamType :=
  let name := (Text.trim text).toList.map Char.toLower
  match name.reverse with
  | ']' :: '[' :: element => (Kind.ofName? (String.ofList element.reverse)).map many
  | _ => (Kind.ofName? (String.ofList name)).map one

end ParamType

end Abbrev
