import Abbrev.Conversion
import Abbrev.Template

/-! Declaring a template: a path with placeholders in braces, the parameters, and what is known
about the options. Building reads the path once and fills the template's tables on the way. It
checks the declaration and says what is wrong with it first. -/

namespace Abbrev

structure OptionSpec where
  param : String
  name : Option String := none
  default : Option String := none
  help : Option String := none
deriving DecidableEq, Repr

structure Declaration where
  path : String
  help : String := ""
  params : List Param := []
  options : List OptionSpec := []
  separator : Char := ','

/-- An option's declaration once its parameter is known and its default converted. -/
structure Detail where
  param : Param
  given : Option String
  default : Option Value
  help : String

namespace Detail

def name (d : Detail) : String := d.given.getD d.param.name

/-- What holds of a parameter about which nothing was declared. -/
def plain (p : Param) : Detail := ⟨p, none, none, ""⟩

/-- The row of a parameter that stands at a place. -/
def row (d : Detail) (place : Nat) : Row := ⟨place, d.name, d.default, d.help⟩

end Detail

namespace Tables

def empty : Tables := ⟨[], [], []⟩

def addWord (t : Tables) (w : String) : Tables := { t with cells := t.cells ++ [.word w] }

/-- Places an option behind those that are there. -/
def addRow (t : Tables) (r : Row) : Tables where
  cells := t.cells ++ [.slot t.rows.length]
  rows := t.rows ++ [r]
  rowPlaces := (r.name, t.rows.length) :: t.rowPlaces

/-- The tables once the path has been read. -/
def layout (t : Tables) (params : List Param) (paramPlaces : Places) : Layout where
  toTables := t
  params := params
  paramPlaces := paramPlaces
  wordCount := t.cells.countP (·.word?.isSome)
  defaultCount := t.rows.countP (·.default.isSome)

end Tables

/-- What is known before the path is read: a parameter's detail at the parameter's place, if an
option is declared for it, and the places of parameters by the names given to their options. -/
structure Notes where
  details : List (Option Detail)
  aliases : Places

/-- What has come of the words read: the tables, which parameters are placed, and the details that
no placeholder has taken yet. -/
structure Laying where
  tables : Tables
  placed : List Bool
  left : List (Option Detail)

namespace Declaration

/-- The path's words with single spaces between them. -/
def normalPath (d : Declaration) : String := String.intercalate " " (Text.words d.path)

/-- Puts the parameter at a place under its name. -/
def addParam (d : Declaration) (places : Places) (p : Param × Nat) : Except Fault Places :=
  if (places.lookup p.1.name).isSome then
    .error (.duplicateName .parameter p.1.name d.normalPath)
  else .ok ((p.1.name, p.2) :: places)

def paramPlaces (d : Declaration) : Except Fault Places :=
  d.params.zipIdx.foldlM d.addParam []

/-- The place that a name has, with the parameter there. -/
def located? (d : Declaration) (place : Option Nat) : Option (Nat × Param) := do
  let i ← place
  let p ← d.params[i]?
  pure (i, p)

def convertDefault (d : Declaration) (o : OptionSpec) (p : Param) : Except Fault (Option Value) :=
  match o.default with
  | none => .ok none
  | some text => match p.type.convert d.separator text with
    | .ok v => .ok (some v)
    | .error _ => .error (.invalidDefault (o.name.getD o.param) text p.type)

/-- Adds the detail that one option's declaration gives. -/
def addDetail (d : Declaration) (places : Places) (notes : Notes) (o : OptionSpec) :
    Except Fault Notes :=
  match d.located? (places.lookup o.param) with
  | none => .error (.unknownParameter d.normalPath o.param)
  | some (i, p) =>
    if notes.details[i]?.join.isSome then
      .error (.duplicateName .option o.param d.normalPath)
    else do
      let default ← d.convertDefault o p
      pure ⟨notes.details.set i (some ⟨p, o.name, default, o.help.getD ""⟩),
        (o.name.map (·, i)).toList ++ notes.aliases⟩

def notes (d : Declaration) (places : Places) : Except Fault Notes :=
  d.options.foldlM (d.addDetail places) ⟨d.params.map fun _ => none, []⟩

/-- The key between the braces of a placeholder, or what is wrong with it. -/
def placeholder (d : Declaration) (rest : List Char) : Except Fault String :=
  match rest.reverse with
  | '}' :: key =>
    if key.isEmpty then .error (.malformedPath d.path "empty placeholder '\x7b\x7d'")
    else .ok (String.ofList key.reverse)
  | _ => .error (.malformedPath d.path "closing brace '\x7d' not found")

/-- Places the parameter that a key names: by the name given to its option, or else by its own. Its
detail is taken away. -/
def place (d : Declaration) (places aliases : Places) (l : Laying) (key : String) :
    Except Fault Laying :=
  match d.located? ((aliases.lookup key).or (places.lookup key)) with
  | none => .error (.unknownParameter d.normalPath key)
  | some (i, p) =>
    if l.placed[i]?.getD false then .error (.duplicateName .placeholder key d.normalPath)
    else
      let row := (l.left[i]?.join.getD (.plain p)).row i
      if (l.tables.rowPlaces.lookup row.name).isSome then
        .error (.duplicateName .option row.name d.normalPath)
      else .ok ⟨l.tables.addRow row, l.placed.set i true, l.left.set i none⟩

/-- The cell that one word of the path adds to those before it. -/
def addCell (d : Declaration) (places aliases : Places) (l : Laying) (word : String) :
    Except Fault Laying :=
  match word.toList with
  | '\x7b' :: rest =>
    if l.tables.cells.isEmpty then
      .error (.malformedPath d.path "path must start with a command word")
    else do
      let key ← d.placeholder rest
      d.place places aliases l key
  | _ => .ok { l with tables := l.tables.addWord word }

def lay (d : Declaration) (places : Places) (notes : Notes) : Except Fault Laying :=
  (Text.words d.path).foldlM (d.addCell places notes.aliases)
    ⟨.empty, d.params.map fun _ => false, notes.details⟩

def build (d : Declaration) : Except Fault Template := do
  if (Text.words d.path).isEmpty then throw (.malformedPath d.path "path is empty")
  let places ← d.paramPlaces
  let notes ← d.notes places
  let l ← d.lay places notes
  match (d.params.zip l.placed).find? (!·.2) with
  | some (p, _) => throw (.unboundParameter d.normalPath p.name)
  | none => pure ⟨d.normalPath, d.help, l.tables.layout d.params places⟩

end Declaration

end Abbrev
