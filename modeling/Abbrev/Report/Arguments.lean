import Abbrev.Arguments
import Abbrev.Json
import Abbrev.Report

/-! A command as it was understood: its path, and each parameter with its value. As data a command
is one line, with the parameters in the order of their names and every number at double precision.
-/

namespace Abbrev

namespace Arguments

def lines (r : Report) (a : Arguments) : List String :=
  r.paint .bold a.path ::
    a.entries.map fun (name, v) => "  " ++ r.paint .green name ++ ": " ++ v.text r.separator

def json (a : Arguments) : Json :=
  let sorted := (Binding.ofList a.entries).entries
  .object [("command", .string a.path),
    ("args", .object (sorted.map fun (name, v) => (name, v.widen.json)))]

def report (r : Report) (a : Arguments) : String :=
  match r.format with
  | .text => unlines (a.lines r)
  | .json => unlines [a.json.text]

end Arguments

end Abbrev
