import Abbrev.Commands
import Abbrev.File

/-! A session with a user: the input that is still to be read, and a transcript of all that
happened. What was written, what was read and what became of each line are views of it. -/

namespace Abbrev

/-- Where a text was written: results and questions go to one place, diagnostics to another. -/
inductive Channel where
  | result
  | question
  | diagnostic
deriving DecidableEq, Repr

inductive Event where
  | wrote (channel : Channel) (text : String)
  | read (line : List UInt8)
  | handled (outcome : Outcome)
  | opened
  | closed

/-- The oldest event comes first. -/
abbrev Transcript := List Event

namespace Transcript

def textOn? (p : Channel → Bool) : Event → Option String
  | .wrote c s => if p c then some s else none
  | _ => none

/-- What was written to the chosen channels. -/
def text (p : Channel → Bool) (t : Transcript) : String := String.join (t.filterMap (textOn? p))

def bytesRead : Transcript → List UInt8
  | [] => []
  | .read line :: t => line ++ bytesRead t
  | _ :: t => bytesRead t

/-- What happened before the input was first found at its end. -/
def beforeEnd (t : Transcript) : Transcript :=
  t.takeWhile fun
    | .read [] => false
    | _ => true

def outcomes : Transcript → List Outcome
  | [] => []
  | .handled o :: t => o :: outcomes t
  | _ :: t => outcomes t

end Transcript

/-- What a handler wants done once it has returned. -/
inductive Request where
  | prompt
  | help
deriving DecidableEq, Repr

structure Session where
  input : List UInt8
  transcript : Transcript := []
  request : Option Request := none
  lastFailure : Option Category := none

namespace Session

def record (e : Event) (s : Session) : Session := { s with transcript := s.transcript ++ [e] }

def write (c : Channel) (text : String) : StateM Session Unit := modify (record (.wrote c text))

def ask (r : Request) : StateM Session Unit := modify fun s => { s with request := some r }

/-- The pending request, which is then pending no more. -/
def takeRequest : StateM Session (Option Request) :=
  modifyGet fun s => (s.request, { s with request := none })

def lineFeed : UInt8 := 10

/-- The first line of the input, with its line feed if it has one. -/
def firstLine (input : List UInt8) : List UInt8 :=
  input.takeWhile (· != lineFeed) ++ (input.dropWhile (· != lineFeed)).take 1

def afterLine (input : List UInt8) : List UInt8 := (input.dropWhile (· != lineFeed)).drop 1

theorem firstLine_append_afterLine (input : List UInt8) :
    firstLine input ++ afterLine input = input := by
  rw [firstLine, afterLine, List.append_assoc, List.take_append_drop,
    List.takeWhile_append_dropWhile]

theorem firstLine_eq_nil_iff {input : List UInt8} : firstLine input = [] ↔ input = [] := by
  cases input with
  | nil => simp [firstLine]
  | cons b s => by_cases h : b = lineFeed <;> simp [firstLine, h]

/-- Reads one line, whatever its bytes; there is none at the end of the input. -/
def readLine : StateM Session (Except String (Option String)) :=
  modifyGet fun s =>
    let line := firstLine s.input
    let answer := match line, decode? line with
      | [], _ => .ok none
      | _, some text => .ok (some text)
      | _, none => .error notText
    (answer, record (.read line) { s with input := afterLine s.input })

end Session

end Abbrev
