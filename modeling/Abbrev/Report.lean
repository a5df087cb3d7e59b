/-! How results are written: as text for a reader or as data, with or without colours, and with
which separator between the elements of an array. -/

namespace Abbrev

/-- Plain text, or one JSON object per command. -/
inductive Format where
  | text
  | json
deriving DecidableEq, Repr

inductive Style where
  | bold | green | cyan | yellow | alarm
deriving DecidableEq, Repr

namespace Style

/-- What switches a terminal to the style. -/
def start (s : Style) : List Char :=
  let codes := match s with
    | bold => "1"
    | green => "32"
    | cyan => "36"
    | yellow => "33"
    | alarm => "1;31"
  "\x1b[".toList ++ codes.toList ++ ['m']

/-- What switches a terminal back. -/
def stop : List Char := "\x1b[0m".toList

/-- Starts a style anew behind each point inside a text at which it would stop. -/
def renew (start : List Char) : List Char → List Char
  | '\x1b' :: '[' :: '0' :: 'm' :: s => stop ++ start ++ renew start s
  | c :: s => c :: renew start s
  | [] => []

def paint (s : Style) (text : String) : String :=
  String.ofList (s.start ++ renew s.start text.toList ++ stop)

end Style

structure Report where
  format : Format := .text
  separator : Char := ','
  color : Bool := false

namespace Report

def paint (r : Report) (s : Style) (text : String) : String :=
  if r.color then s.paint text else text

end Report

/-- Lines with a line feed behind each. -/
def unlines (lines : List String) : String := String.join (lines.map (· ++ "\n"))

end Abbrev
