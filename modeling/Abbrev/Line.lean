import Abbrev.Text.Blank

/-! One line of input as tokens. White space separates tokens except inside a quoted span; either
quote character opens and closes a span, and a span joins the text around it. A quote behind a
backslash is an ordinary character and the backslash is dropped. Tokens that start with the sigil
are flags: they are taken out, and those that ask for help are remembered. -/

namespace Abbrev

namespace Lexer

def isQuote (c : Char) : Bool := c == '"' || c == '\''

/-- The token whose characters were collected, last one first. -/
def flush (collected : List Char) : List (List Char) :=
  if collected.isEmpty then [] else [collected.reverse]

/-- Reads on with the token collected so far, inside a span or not, and with the character read
last. A backslash read last is the last one collected, so a quote behind it takes its place. -/
def scan (collected : List Char) (quoted : Bool) (last : Option Char) :
    List Char → List (List Char)
  | [] => flush collected
  | c :: s =>
    if isQuote c then
      if last = some '\\' then scan (c :: collected.tail) quoted (some c) s
      else scan collected (!quoted) (some c) s
    else if quoted || !Text.isBlank c then scan (c :: collected) quoted (some c) s
    else flush collected ++ scan [] quoted (some c) s

def tokens (s : List Char) : List (List Char) := scan [] false none s

end Lexer

structure Line where
  tokens : List String
  help : Bool
deriving DecidableEq, Repr

namespace Line

/-- A flag asks for help by `?` or by any beginning of the word. -/
def asksHelp (flag : List Char) : Bool :=
  flag == ['?'] || flag.isPrefixOf "help".toList

def isFlag (sigil : Char) (token : List Char) : Bool := token.head? == some sigil

def ofText (sigil : Char) (text : String) : Line :=
  let (flags, tokens) := (Lexer.tokens text.toList).partition (isFlag sigil)
  ⟨tokens.map String.ofList, flags.any fun flag => asksHelp flag.tail⟩

end Line

end Abbrev
