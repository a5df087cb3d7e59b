import Abbrev.Value

/-! Everything that can go wrong, by cause. A cause has one message, belongs to one stage of the
work, and the process that ends on it reports one category. -/

namespace Abbrev

/-- What a name that must be unique is the name of. -/
inductive Named where
  | parameter | option | placeholder | command
deriving DecidableEq, Repr

def Named.name : Named → String
  | parameter => "parameter"
  | option => "option"
  | placeholder => "placeholder"
  | command => "command"

inductive Fault where
  | malformedPath (path reason : String)
  | unknownParameter (path name : String)
  | unboundParameter (path name : String)
  | unsupportedType (text : String)
  | invalidDefault (option value : String) (expected : ParamType)
  | duplicateName (role : Named) (name path : String)
  | emptyCommand
  | multipleLines (count : Nat)
  | commandNotFound (text : String)
  | tooManyArguments
  | incorrectArgumentType (option : String) (expected : ParamType)
  | ambiguousOptionName (key : String)
  | duplicateOption (name : String)
  | requiredOptionMissing (name : String)
  | ambiguousCommand (labels : List String)
  | tooAmbiguous (count : Nat)
  | conversion (text expected : String)
  | mismatch (value : Value) (wanted : Shape)
  | incompleteBinding (path missing : String)
  | noHandler (path : String)
  | settings (reason : String)
  | io (reason : String)
  | malformedData (reason : String)

/-- The stage of the work to which a fault belongs. -/
inductive Stage where
  | template | resolve | conversion | dispatch | settings | io | data
deriving DecidableEq, Repr

def Stage.name : Stage → String
  | template => "template"
  | resolve => "resolve"
  | conversion => "conversion"
  | dispatch => "dispatch"
  | settings => "config"
  | io => "io"
  | data => "serialization"

namespace Fault

def message : Fault → String
  | malformedPath path reason => s!"Malformed command path '{path}': {reason}"
  | unknownParameter path name => s!"Unknown parameter '{name}' referenced in '{path}'"
  | unboundParameter path name => s!"Parameter '{name}' does not appear in path '{path}'"
  | unsupportedType text => s!"Unsupported parameter type '{text}'"
  | invalidDefault option value expected =>
    s!"Invalid default '{value}' for option '{option}': expected {expected.name}"
  | duplicateName role name path => s!"Duplicate {role.name} '{name}' in '{path}'"
  | emptyCommand => "Command is empty"
  | multipleLines count => s!"Expected one command line, got {count}"
  | commandNotFound text => s!"Command not found: '{text}'"
  | tooManyArguments => "Entered too many arguments"
  | incorrectArgumentType option expected =>
    s!"Incorrect argument '{option}': type must be {expected.name}"
  | ambiguousOptionName key => s!"Ambiguous option name: '{key}'"
  | duplicateOption name => s!"Option '{name}' is set more than once"
  | requiredOptionMissing name => s!"Required option '{name}' not set"
  | ambiguousCommand labels =>
    s!"Ambiguous command, {labels.length} templates match: " ++ String.intercalate " | " labels
  | tooAmbiguous count =>
    s!"Ambiguous command, {count} templates match. " ++
      "If you have shortened commands, please add more characters"
  | conversion text expected => s!"Cannot convert '{text}' to {expected}"
  | mismatch value wanted => s!"Cannot convert '{value.display}' to {wanted.name}"
  | incompleteBinding path missing =>
    s!"Incomplete binding for '{path}': no value for '{missing}'"
  | noHandler path => s!"No handler registered for '{path}'"
  | settings reason => s!"Configuration error: {reason}"
  | io reason => s!"IO error: {reason}"
  | malformedData reason => s!"Serialization error: {reason}"

def stage : Fault → Stage
  | malformedPath .. | unknownParameter .. | unboundParameter .. | unsupportedType _
  | invalidDefault .. | duplicateName .. => .template
  | emptyCommand | multipleLines _ | commandNotFound _ | tooManyArguments
  | incorrectArgumentType .. | ambiguousOptionName _ | duplicateOption _
  | requiredOptionMissing _ | ambiguousCommand _ | tooAmbiguous _ => .resolve
  | conversion .. | mismatch .. => .conversion
  | incompleteBinding .. | noHandler _ => .dispatch
  | settings _ => .settings
  | io _ => .io
  | malformedData _ => .data

/-- Whether the next line can still be read: the fault lies in what was typed. -/
def isRecoverable (f : Fault) : Bool :=
  match f.stage with
  | .resolve | .conversion | .dispatch => true
  | _ => false

/-- Whether several commands or options could be meant. -/
def isAmbiguity : Fault → Bool
  | ambiguousCommand _ | tooAmbiguous _ | ambiguousOptionName _ => true
  | _ => false

end Fault

/-- How a process tells its caller what kind of failure was the last. -/
inductive Category where
  | internal | usage | notFound | ambiguous | settings
deriving DecidableEq, Repr

namespace Category

def exitCode : Category → Nat
  | internal => 1
  | usage => 2
  | notFound => 3
  | ambiguous => 4
  | settings => 5

def description : Category → String
  | internal => "internal error"
  | usage => "usage error"
  | notFound => "not found"
  | ambiguous => "ambiguous"
  | settings => "configuration error"

def ofFault (f : Fault) : Category :=
  if f.isAmbiguity then .ambiguous
  else match f with
    | .commandNotFound _ => .notFound
    | .io _ | .incompleteBinding .. | .noHandler _ => .internal
    | _ => match f.stage with
      | .resolve | .conversion => .usage
      | _ => .settings

end Category

/-- A failure on its way out of the program: a cause, the remarks added to it on the way, the last
one first, and the category it was given, if any. -/
structure Failure where
  remarks : List String
  cause : Fault ⊕ String
  category : Option Category := none

namespace Failure

def ofFault (f : Fault) : Failure := ⟨[], .inl f, none⟩

def ofText (s : String) : Failure := ⟨[], .inr s, none⟩

def remark (s : String) (f : Failure) : Failure := { f with remarks := s :: f.remarks }

def categorize (c : Category) (f : Failure) : Failure := { f with category := some c }

/-- The texts from the last remark to the innermost cause. A fault of input or output has the reason
that the system gave as a cause of its own. -/
def chain (f : Failure) : List String :=
  f.remarks ++ match f.cause with
    | .inl (.io reason) => [(Fault.io reason).message, reason]
    | .inl g => [g.message]
    | .inr s => [s]

/-- The outermost text. -/
def shown (f : Failure) : String := f.chain.headD ""

/-- The whole chain on one line. -/
def message (f : Failure) : String := String.intercalate ": " f.chain

def fault? (f : Failure) : Option Fault := f.cause.getLeft?

def exitCode (f : Failure) : Nat :=
  match f.category, f.fault? with
  | some c, _ => c.exitCode
  | none, some g => (Category.ofFault g).exitCode
  | none, none => Category.internal.exitCode

end Failure

end Abbrev
