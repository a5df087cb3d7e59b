/-! The four kinds of quoted text in TOML. Each reader starts behind the opening quotes and returns
the text with what follows the closing quotes. -/

namespace Abbrev.Toml.Quoted

abbrev Result := Option (List Char × List Char)

def prepend (c : Char) : Result → Result
  | some (s, rest) => some (c :: s, rest)
  | none => none

/-- Characters that may stand for themselves: all but the control characters, of which the tab is
allowed. -/
def isPlain (c : Char) : Bool := c == '\t' || (0x20 ≤ c.toNat && c.toNat != 0x7F)

def hexValue? (c : Char) : Option Nat :=
  if c.isDigit then some (c.toNat - '0'.toNat)
  else if 'a' ≤ c ∧ c ≤ 'f' then some (c.toNat - 'a'.toNat + 10)
  else if 'A' ≤ c ∧ c ≤ 'F' then some (c.toNat - 'A'.toNat + 10)
  else none

/-- The character whose code point the digits write. -/
def unicode? (digits : List Char) : Option Char := do
  let values ← digits.mapM hexValue?
  let n := values.foldl (fun n v => 16 * n + v) 0
  if n.isValidChar then some (Char.ofNat n) else none

def escape? : Char → Option Char
  | 'b' => some '\x08'
  | 't' => some '\t'
  | 'n' => some '\n'
  | 'f' => some '\x0c'
  | 'r' => some '\r'
  | '"' => some '"'
  | '\\' => some '\\'
  | _ => none

/-- Between double quotes, on one line. -/
def basic : List Char → Result
  | [] => none
  | '"' :: s => some ([], s)
  | '\\' :: 'u' :: a :: b :: c :: d :: s => do prepend (← unicode? [a, b, c, d]) (basic s)
  | '\\' :: 'U' :: a :: b :: c :: d :: e :: f :: g :: h :: s => do
    prepend (← unicode? [a, b, c, d, e, f, g, h]) (basic s)
  | '\\' :: c :: s => do prepend (← escape? c) (basic s)
  | c :: s => if isPlain c then prepend c (basic s) else none

/-- Between single quotes, on one line, without escapes. -/
def literal : List Char → Result
  | [] => none
  | '\'' :: s => some ([], s)
  | c :: s => if isPlain c then prepend c (literal s) else none

/-- A line feed, or a carriage return with one. -/
def skipNewline? : List Char → Option (List Char)
  | '\n' :: s | '\r' :: '\n' :: s => some s
  | _ => none

def skipFirstNewline (s : List Char) : List Char := (skipNewline? s).getD s

def isTabOrSpace (c : Char) : Bool := c == ' ' || c == '\t'

/-- Whether the line ends here but for blanks. -/
def atLineEnd (s : List Char) : Bool := (skipNewline? (s.dropWhile isTabOrSpace)).isSome

/-- Between triple double quotes. A backslash at the end of a line drops the line break and the
blanks behind it; up to two quotes may stand directly before the closing ones. -/
def basicLines (skipping : Bool) : List Char → Result
  | [] => none
  | '\r' :: '\n' :: s =>
    if skipping then basicLines true s else prepend '\n' (basicLines false s)
  | '\n' :: s => if skipping then basicLines true s else prepend '\n' (basicLines false s)
  | '"' :: '"' :: '"' :: '"' :: '"' :: s => some (['"', '"'], s)
  | '"' :: '"' :: '"' :: '"' :: s => some (['"'], s)
  | '"' :: '"' :: '"' :: s => some ([], s)
  | '\\' :: 'u' :: a :: b :: c :: d :: s => do
    prepend (← unicode? [a, b, c, d]) (basicLines false s)
  | '\\' :: 'U' :: a :: b :: c :: d :: e :: f :: g :: h :: s => do
    prepend (← unicode? [a, b, c, d, e, f, g, h]) (basicLines false s)
  | '\\' :: c :: s =>
    if atLineEnd (c :: s) then basicLines true (c :: s)
    else do prepend (← escape? c) (basicLines false s)
  | c :: s =>
    if skipping && isTabOrSpace c then basicLines true s
    else if isPlain c then prepend c (basicLines false s)
    else none

/-- Between triple single quotes. -/
def literalLines : List Char → Result
  | [] => none
  | '\r' :: '\n' :: s => prepend '\n' (literalLines s)
  | '\n' :: s => prepend '\n' (literalLines s)
  | '\'' :: '\'' :: '\'' :: '\'' :: '\'' :: s => some (['\'', '\''], s)
  | '\'' :: '\'' :: '\'' :: '\'' :: s => some (['\''], s)
  | '\'' :: '\'' :: '\'' :: s => some ([], s)
  | c :: s => if isPlain c then prepend c (literalLines s) else none

/-- A quoted text of any kind, from its opening quotes on. -/
def any : List Char → Result
  | '"' :: '"' :: '"' :: s => basicLines false (skipFirstNewline s)
  | '\'' :: '\'' :: '\'' :: s => literalLines (skipFirstNewline s)
  | '"' :: s => basic s
  | '\'' :: s => literal s
  | _ => none

end Abbrev.Toml.Quoted
