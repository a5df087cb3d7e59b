import Abbrev.Catalog
import Abbrev.Report

/-! What a user is told about a command: its path and purpose, and a row for each option with its
name, its type and whether it may be left out. -/

namespace Abbrev

/-- A text filled up with spaces; one that is longer is kept whole. -/
def padded (width : Nat) (s : String) : String := s.pushn ' ' (width - s.length)

namespace Report

/-- Options stand in columns of this many characters. -/
def column : Nat := 10

def requirement (r : Report) (s : Slot) : String :=
  match s.default with
  | none => r.paint .yellow "required"
  | some v => "not required. Default value: " ++ v.text r.separator

/-- The remark under a heading, if there is one. -/
def indented (indent help : String) : List String :=
  if help.isEmpty then [] else [indent ++ help]

def slotLines (r : Report) (s : Slot) : List String :=
  let name := r.paint .green (padded column s.name)
  let type := r.paint .cyan (padded column s.param.type.name)
  ("    " ++ name ++ type ++ r.requirement s) :: indented "      " s.help ++ [""]

def helpLines (r : Report) (t : Template) : List String :=
  let head := r.paint .bold t.path :: indented "  " t.help ++ [""]
  if t.slots.isEmpty then head else head ++ t.slots.flatMap r.slotLines ++ [""]

/-- The descriptions of the templates in the order in which they are asked for. -/
def help (r : Report) (c : Catalog) (ids : List Nat) : String :=
  unlines ((ids.filterMap c.get?).flatMap r.helpLines)

end Report

end Abbrev
