import Abbrev.Session

/-! Asking the user: for a command behind a prompt, or for one of several meanings by its number.
Both read the same input, one line for each question. -/

namespace Abbrev

/-- Whether the user is asked which of several meanings is wanted. -/
inductive Asking where
  | numbered
  | never
deriving DecidableEq, Repr

namespace Session

/-- The next line typed at the prompt, without its line ending. -/
def readCommand : StateM Session (Except String (Option String)) := do
  write .question ">"
  match ← readLine with
  | .error reason => pure (.error reason)
  | .ok none => do
    write .question "\n"
    pure (.ok none)
  | .ok (some line) =>
    pure (.ok (some (String.ofList (Text.dropEnd Text.isLineBreak line.toList))))

def question (choices : List Choice) : String :=
  let most := choices.length
  s!"Ambiguous command. Please select what you meant 1-{most}:\n" ++
    String.join (choices.map fun c => s!"{c.number}: {c.label}\n") ++
    s!"\nType number 1-{most} for choice or 0 for exit: "

/-- The place in a list of the given length that an answer numbers from one; digits may follow a
plus sign. -/
def pick? (count : Nat) (answer : String) : Option Nat :=
  let number := match (Text.trim answer).toList with
    | '+' :: s => Number.natural? s
    | s => Number.natural? s
  match number with
  | some (n + 1) => if n < count then some n else none
  | _ => none

theorem lt_of_pick?_eq_some {count i : Nat} {answer : String} (h : pick? count answer = some i) :
    i < count := by
  simp only [pick?] at h
  split at h
  · split at h
    · rename_i n _ hn
      exact Option.some.inj h ▸ hn
    · simp at h
  · simp at h

/-- Asks by number; any other answer declines, and so does the end of the input. -/
def askNumber (choices : List Choice) : StateM Session (Except String (Option Nat)) := do
  write .question (question choices)
  match ← readLine with
  | .error reason => pure (.error reason)
  | .ok none => do
    write .question "\n"
    pure (.ok none)
  | .ok (some answer) => pure (.ok (pick? choices.length answer))

def chooser : Asking → Chooser Session
  | .never => Chooser.refuse
  | .numbered => fun choices => do return (← askNumber choices).mapError .io

end Session

end Abbrev
