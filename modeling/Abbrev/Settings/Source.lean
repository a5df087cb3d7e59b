import Abbrev.File
import Abbrev.Settings
import Abbrev.Toml.Document

/-! Settings from a file. Keys that mean nothing here are passed over; what is not said keeps its
default. -/

namespace Abbrev.Settings

/-- The value of a key if it has one, else the default; `none` when the value is of no use. -/
def field {α : Type} (entries : List (String × Toml.Value)) (key : String)
    (read : Toml.Value → Option α) (default : α) : Option α :=
  match entries.lookup key with
  | some v => read v
  | none => some default

def char? : Toml.Value → Option Char
  | .string s => match s.toList with
    | [c] => some c
    | _ => none
  | _ => none

def count? : Toml.Value → Option Nat
  | .integer (.ofNat n) => some n
  | _ => none

def ofToml? : Toml.Value → Option Settings
  | .table entries => do
    let sigil ← field entries "option_char" char? '/'
    let separator ← field entries "array_separator" char? ','
    let maxChoices ← field entries "max_choices" count? mostChoices
    some ⟨sigil, separator, maxChoices⟩
  | _ => none

def parse (text : String) : Except Fault Settings :=
  match (Toml.read? text).bind ofToml? with
  | some s => s.validate
  | none => .error (.settings "Failed to parse config: not a table of settings")

/-- The settings in a file that was found under a path. -/
def load (path : String) (file : File) : Except Fault Settings :=
  match file.text with
  | .ok text => parse text
  | .error reason => .error (.settings s!"Failed to read config {path}: {reason}")

/-- The settings in a file that need not exist. -/
def loadIfPresent (path : String) (file : File) : Except Fault Settings :=
  if file.isAbsent then .ok {} else load path file

end Abbrev.Settings
