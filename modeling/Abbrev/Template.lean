import Abbrev.Value
import Abbrev.Text.Fields

/-! A command's template: a path of words, which the user may abbreviate, and slots, which take
arguments. Each slot fills one parameter under the name that the user may type for it, and may have
a default. A template is kept in tables that point to each other by place: the path to options, an
option to its parameter, and names to what they name. -/

namespace Abbrev

structure Param where
  name : String
  type : ParamType
deriving DecidableEq, Repr

structure Slot where
  param : Param
  name : String
  default : Option Value
  help : String

inductive Part where
  | word (text : String)
  | slot (s : Slot)

namespace Part

def word? : Part → Option String
  | word w => some w
  | slot _ => none

def slot? : Part → Option Slot
  | word _ => none
  | slot s => some s

end Part

/-- A part of the path as it is kept: a word, or the place of an option's row. -/
inductive Cell where
  | word (text : String)
  | slot (row : Nat)

namespace Cell

def word? : Cell → Option String
  | word w => some w
  | slot _ => none

def slot? : Cell → Option Nat
  | word _ => none
  | slot i => some i

end Cell

/-- An option as it is kept, with the place of its parameter. -/
structure Row where
  param : Nat
  name : String
  default : Option Value
  help : String

/-- Places by name. Of several places for one name the first in the list, which is put in last, is
kept. -/
abbrev Places := List (String × Nat)

/-- What the words of a path fill: the path itself, the options in the order in which it places
them, and their places by name. -/
structure Tables where
  cells : List Cell
  rows : List Row
  rowPlaces : Places

/-- All tables of a template, with the number of its words and of its defaults. Parameters stand in
the order in which the handler takes them. -/
structure Layout extends Tables where
  params : List Param
  paramPlaces : Places
  wordCount : Nat
  defaultCount : Nat

namespace Layout

/-- The parameter that a row points to. -/
def paramOf? (l : Layout) (r : Row) : Option Param := l.params[r.param]?

def slot? (l : Layout) (r : Row) : Option Slot :=
  (l.paramOf? r).map fun p => ⟨p, r.name, r.default, r.help⟩

def part? (l : Layout) : Cell → Option Part
  | .word w => some (.word w)
  | .slot i => (l.rows[i]?.bind l.slot?).map .slot

end Layout

structure Template where
  path : String
  help : String
  layout : Layout

namespace Template

def params (t : Template) : List Param := t.layout.params

/-- The parts in the order of the path. -/
def parts (t : Template) : List Part := t.layout.cells.filterMap t.layout.part?

def words (t : Template) : List String := t.parts.filterMap Part.word?

/-- The slots in the order in which the path has them. -/
def slots (t : Template) : List Slot := t.layout.rows.filterMap t.layout.slot?

def firstWord (t : Template) : String := t.words.headD ""

def wordCount (t : Template) : Nat := t.layout.wordCount

def defaultCount (t : Template) : Nat := t.layout.defaultCount

/-- Whether every parameter can be filled without an argument. -/
def allDefaults (t : Template) : Bool := t.defaultCount == t.params.length

/-- The parameter with a name. The place that the tables have for the name leads to the same one. -/
def param? (t : Template) (name : String) : Option Param := t.params.find? (·.name == name)

def paramIndex? (t : Template) (name : String) : Option Nat := t.layout.paramPlaces.lookup name

def slot? (t : Template) (name : String) : Option Slot := do
  let i ← t.layout.rowPlaces.lookup name
  let r ← t.layout.rows[i]?
  t.layout.slot? r

end Template

end Abbrev
