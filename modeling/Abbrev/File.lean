/-! What reading a file or a line of input can give, and the reasons that the system states. -/

namespace Abbrev

/-- Text from bytes, if they are UTF-8. -/
def decode? (bytes : List UInt8) : Option String := String.fromUTF8? ⟨bytes.toArray⟩

theorem decode?_toUTF8 (s : String) : decode? s.toUTF8.data.toList = some s := by
  rw [decode?, Array.toArray_toList, String.fromUTF8?]
  exact dif_pos s.isValidUTF8

def notText : String := "stream did not contain valid UTF-8"

/-- What is found under a path: content, something that cannot be read, or nothing. -/
inductive File where
  | bytes (content : List UInt8)
  | unreadable (reason : String)
  | absent (reason : String)

namespace File

def missing : File := absent "No such file or directory (os error 2)"

def directory : File := unreadable "Is a directory (os error 21)"

def isAbsent : File → Bool
  | absent _ => true
  | _ => false

/-- The whole content as text, or why there is none. -/
def text : File → Except String String
  | bytes content => match decode? content with
    | some s => .ok s
    | none => .error notText
  | unreadable reason | absent reason => .error reason

end File

end Abbrev
