import Abbrev.Fault
import Abbrev.Template

/-! The templates that lines are resolved against, in the order of their registration. A template is
identified by its place; no two have the same path. -/

namespace Abbrev

structure Catalog where
  templates : List Template

namespace Catalog

def empty : Catalog := ⟨[]⟩

def size (c : Catalog) : Nat := c.templates.length

def paths (c : Catalog) : List String := c.templates.map (·.path)

/-- The identities of all templates. -/
def ids (c : Catalog) : List Nat := List.range c.size

def get? (c : Catalog) (id : Nat) : Option Template := c.templates[id]?

/-- The identity of a new template with its path, or the fault that the path is taken. -/
def freshId (c : Catalog) (path : String) : Except Fault Nat :=
  if c.paths.contains path then .error (.duplicateName .command path path) else .ok c.size

/-- Registers a template at the end. -/
def add (c : Catalog) (t : Template) : Except Fault Catalog := do
  let _ ← c.freshId t.path
  pure ⟨c.templates ++ [t]⟩

def ofTemplates (ts : List Template) : Except Fault Catalog :=
  ts.foldlM add empty

end Catalog

end Abbrev
