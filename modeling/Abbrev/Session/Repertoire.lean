import Abbrev.Manifest
import Abbrev.Report.Arguments
import Abbrev.Session

/-! The commands of a session, in the order in which they are offered: those that steer the session,
two samples with typed arguments, and those of a manifest, which show what they are given. -/

namespace Abbrev.Session

/-- Writes one line of result, as text or as data. -/
def reply (r : Report) (text : String) (data : Json) : StateM Session Unit :=
  write .result <| unlines [match r.format with
    | .text => text
    | .json => data.text]

def enterPrompt : Handler Session := fun _ => do
  ask .prompt
  pure (.ok .proceed)

def leave : Handler Session := fun _ => pure (.ok .exit)

def describeAll : Handler Session := fun _ => do
  ask .help
  pure (.ok .proceed)

def steering : List (Declaration × Handler Session) := [
  (⟨"prompt", "To enter commands from console", [], [], ','⟩, enterPrompt),
  (⟨"exit", "To exit from console", [], [], ','⟩, leave),
  (⟨"help", "Describe every command", [], [], ','⟩, describeAll)]

/-- Replies with what a command makes of its arguments. -/
def answering (r : Report) (answer : Arguments → Except Fault (String × Json)) :
    Handler Session := fun args =>
  match answer args with
  | .error f => pure (.error (.ofFault f))
  | .ok (text, data) => do
    reply r text data
    pure (.ok .proceed)

def findUser (args : Arguments) : Except Fault (String × Json) := do
  let name ← args.get (.one .string) "user_name"
  let age ← args.get (.one (.int .i32)) "age"
  pure (s!"User {name.display}, age {age.display}",
    .object [("age", age.json), ("name", name.json)])

def scalars : Value → List Scalar
  | .scalar x => [x]
  | .array items => items.filterMap fun
    | .scalar x => some x
    | .array _ => none

/-- A count and a price, when the two scalars are that. -/
def priced? : Scalar × Scalar → Option (Int × Number.Binary)
  | (.int _ n, .float _ x) => some (n.val, x)
  | _ => none

/-- The sum of the prices, each taken as often as it is counted. It starts from the zero that
changes no sum, which is the negative one. -/
def total (items : List (Int × Number.Binary)) : Number.Binary :=
  let terms := items.map fun (n, x) => Number.Binary.mul .double (.ofInt .double n) x
  terms.foldl (Number.Binary.add .double) (.finite true 0 Number.Format.double.minExponent)

def countProducts (args : Arguments) : Except Fault (String × Json) := do
  let counts ← args.get (.list (.one (.int .i32))) "counts"
  let prices ← args.get (.list (.one (.float .f64))) "prices"
  let ns := scalars counts
  let xs := scalars prices
  let sum := String.ofList ((total ((ns.zip xs).filterMap priced?)).fixed 2)
  let text := if ns.length = xs.length then s!"{ns.length} products, total {sum}"
    else s!"{ns.length} counts but {xs.length} prices"
  pure (text, .object [("counts", counts.json), ("prices", prices.json)])

def userFind (separator : Char) : Declaration :=
  ⟨"user find \x7bname\x7d \x7bage\x7d", "Command to search for a user by name and age",
    [⟨"user_name", .string⟩, ⟨"age", .one (.int .i32)⟩],
    [⟨"user_name", some "name", none, some "User name. Case sensitive."⟩,
      ⟨"age", none, some "24", some "User age. The maximum value is 90 years."⟩], separator⟩

def productCounts (separator : Char) : Declaration :=
  ⟨"product counts \x7bcounts\x7d \x7bprices\x7d", "Pair product counts with their prices",
    [⟨"counts", .many (.int .i32)⟩, ⟨"prices", .many (.float .f64)⟩], [], separator⟩

def samples (r : Report) : List (Declaration × Handler Session) := [
  (userFind r.separator, answering r findUser),
  (productCounts r.separator, answering r countProducts)]

/-- Shows the arguments and does nothing else. -/
def echo (r : Report) : Handler Session := fun args => do
  write .result (args.report r)
  pure (.ok .proceed)

def own (r : Report) : Except Fault (Commands Session) :=
  (steering ++ samples r).foldlM (fun c (d, h) => do c.register (← d.build) h) .empty

/-- All commands; those of the manifest are built before any of them is registered. -/
def repertoire (r : Report) (m : Option Manifest) : Except Fault (Commands Session) := do
  let commands ← own r
  let declared ← match m with
    | none => pure []
    | some m => m.templates r.separator
  declared.foldlM (fun c t => c.register t (echo r)) commands

end Abbrev.Session
