import Abbrev.Toml.Value

/-! A document while it is being put together. A table remembers how it came about, since that
decides whether a later line may still add to it. -/

namespace Abbrev.Toml

/-- A table is given by a header or in braces, or comes about on the way to another table, or on the
way of a dotted key. -/
inductive Origin where
  | given
  | passed
  | dotted
deriving DecidableEq, Repr

inductive Tree where
  | value (v : Value)
  | table (origin : Origin) (entries : List (String × Tree))
  | tables (earlier : List Tree) (last : Tree)

namespace Tree

def put (key : String) (t : Tree) : List (String × Tree) → List (String × Tree)
  | [] => [(key, t)]
  | e :: es => if e.1 = key then (key, t) :: es else e :: put key t es

def root : Tree := table .given []

/-- Changes the table at the end of a path, which is made of the given origin where it is missing.
Values have no tables inside; of an array of tables the last one is meant. Dotted keys do not enter
a table that was given. -/
def update (made : Origin) (change : Tree → Option Tree) : List String → Tree → Option Tree
  | [], t => change t
  | key :: path, table origin entries => do
    let child ← match entries.lookup key with
      | none => update made change path (table made [])
      | some (value _) => none
      | some (table o es) =>
        if made = .dotted ∧ o = .given then none else update made change path (table o es)
      | some (tables earlier last) => (update made change path last).map (tables earlier)
    some (table origin (put key child entries))
  | _, _ => none

/-- Adds a new key to a table; one inside another that a dotted key leads to must be its own. -/
def addValue (direct : Bool) (key : String) (v : Value) : Tree → Option Tree
  | table origin entries =>
    if (direct || origin = .dotted) && (entries.lookup key).isNone then
      some (table origin (put key (value v) entries))
    else none
  | _ => none

/-- Adds the value of a dotted key. -/
def assign (path : List String) (v : Value) (t : Tree) : Option Tree :=
  match path.reverse with
  | [] => none
  | key :: way => update .dotted (addValue way.isEmpty key v) way.reverse t

/-- Opens a table that has no header yet. Its place among the others is that of its header. -/
def openTable (key : String) : Tree → Option Tree
  | table origin entries => match entries.lookup key with
    | none => some (table origin (put key (table .given []) entries))
    | some (table .passed es) =>
      some (table origin (entries.filter (·.1 != key) ++ [(key, table .given es)]))
    | _ => none
  | _ => none

/-- Opens the next table of an array. -/
def openNext (key : String) : Tree → Option Tree
  | table origin entries =>
    let fresh := table .given []
    match entries.lookup key with
    | none => some (table origin (put key (tables [] fresh) entries))
    | some (tables earlier last) =>
      some (table origin (put key (tables (earlier ++ [last]) fresh) entries))
    | _ => none
  | _ => none

mutual

def toValue : Tree → Value
  | value v => v
  | table _ entries => .table (toEntries entries)
  | tables earlier last => .array (toValues earlier ++ [last.toValue])

def toValues : List Tree → List Value
  | [] => []
  | t :: ts => t.toValue :: toValues ts

def toEntries : List (String × Tree) → List (String × Value)
  | [] => []
  | (key, t) :: es => (key, t.toValue) :: toEntries es

end

end Tree

end Abbrev.Toml
