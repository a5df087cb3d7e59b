import Abbrev.File
import Abbrev.Template.Declaration
import Abbrev.Toml.DatetimeTable
import Abbrev.Toml.Document

/-! Commands declared in a TOML manifest. An entry is a table of the keys it may have, or an array
of their values in order. Every entry is built like any other declaration. -/

namespace Abbrev

structure ParamEntry where
  name : String
  type : String
deriving DecidableEq, Repr

structure OptionEntry where
  param : String
  name : Option String
  default : Option Toml.Value
  help : Option String

structure CommandEntry where
  path : String
  help : Option String
  params : List ParamEntry
  options : List OptionEntry

structure Manifest where
  commands : List CommandEntry

namespace Manifest

/-- The values of an entry's keys, each where its name stands. -/
def record? (keys : List String) : Toml.Value → Option (List (Option Toml.Value))
  | .table entries =>
    if entries.all fun e => keys.contains e.1 then some (keys.map fun k => entries.lookup k)
    else none
  | .array items => some ((List.range keys.length).map fun i => items[i]?)
  | _ => none

def text? : Toml.Value → Option String
  | .string s => some s
  | _ => none

def optional? {α : Type} (read : Toml.Value → Option α) : Option Toml.Value → Option (Option α)
  | none => some none
  | some v => (read v).map some

/-- A list of entries; none is an empty list. -/
def list? {α : Type} (read : Toml.Value → Option α) : Option Toml.Value → Option (List α)
  | none => some []
  | some (.array items) => items.mapM read
  | some _ => none

def param? (v : Toml.Value) : Option ParamEntry := do
  let [some name, type] ← record? ["name", "type"] v | none
  let type ← optional? text? type
  some ⟨← text? name, type.getD ParamType.string.name⟩

def option? (v : Toml.Value) : Option OptionEntry := do
  let [some param, name, default, help] ← record? ["param", "name", "default", "help"] v | none
  let default ← optional? Toml.Value.withDatetimes? default
  some ⟨← text? param, ← optional? text? name, default, ← optional? text? help⟩

def command? (v : Toml.Value) : Option CommandEntry := do
  let [some path, help, params, options] ← record? ["path", "help", "param", "option"] v | none
  some ⟨← text? path, ← optional? text? help, ← list? param? params, ← list? option? options⟩

def ofToml? (v : Toml.Value) : Option Manifest := do
  let [commands] ← record? ["command"] v | none
  some ⟨← list? command? commands⟩

def parse (text : String) : Except Fault Manifest :=
  match (Toml.read? text).bind ofToml? with
  | some m => .ok m
  | none => .error (.malformedData "not a manifest")

def load (file : File) : Except Fault Manifest :=
  match file.text with
  | .ok text => parse text
  | .error reason => .error (.io reason)

theorem load_toUTF8 (text : String) : load (.bytes text.toUTF8.data.toList) = parse text := by
  simp only [load, File.text, decode?_toUTF8]

end Manifest

namespace OptionEntry

def scalarText? : Toml.Value → Option String
  | .string s => some s
  | .integer n => some (String.ofList (Number.integer n))
  | .float x => some (String.ofList (x.plain .double))
  | .boolean b => some (if b then "true" else "false")
  | .datetime _ | .array _ | .table _ => none

/-- A default as a user would type it: the elements of an array stand between separators. -/
def defaultText? (separator : Char) : Toml.Value → Option String
  | .array items =>
    (items.mapM scalarText?).map (String.intercalate (String.singleton separator))
  | v => scalarText? v

/-- How a default that cannot be typed is shown. A date or time on its own is shown as a table. -/
def shown : Toml.Value → String
  | .datetime d => d.toTable.inline
  | v => v.inline

end OptionEntry

namespace CommandEntry

/-- The declared type of the first parameter of a name, if it is one; text otherwise. -/
def typeOf (e : CommandEntry) (name : String) : ParamType :=
  match e.params.find? (·.name == name) with
  | some p => (ParamType.ofName? p.type).getD .string
  | none => .string

def optionSpec (e : CommandEntry) (separator : Char) (o : OptionEntry) :
    Except Fault OptionSpec := do
  let default ← match o.default with
    | none => .ok none
    | some v => match OptionEntry.defaultText? separator v with
      | some text => .ok (some text)
      | none =>
        let name := o.name.getD o.param
        .error (.invalidDefault name (OptionEntry.shown v) (e.typeOf o.param))
  pure ⟨o.param, o.name, default, o.help⟩

def declaration (e : CommandEntry) (separator : Char) : Except Fault Declaration := do
  let params ← e.params.mapM fun p => return (⟨p.name, ← ParamType.ofName p.type⟩ : Param)
  let options ← e.options.mapM (e.optionSpec separator)
  pure ⟨e.path, e.help.getD "", params, options, separator⟩

def template (e : CommandEntry) (separator : Char) : Except Fault Template := do
  (← e.declaration separator).build

end CommandEntry

/-- All templates of a manifest, or the first fault. -/
def Manifest.templates (m : Manifest) (separator : Char) : Except Fault (List Template) :=
  m.commands.mapM (·.template separator)

end Abbrev
