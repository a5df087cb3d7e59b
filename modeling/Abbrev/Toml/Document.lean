import Abbrev.Toml.Quoted
import Abbrev.Toml.Tree
import Abbrev.Toml.Word

/-! Reading a TOML document: the text of keys and values, the lines, and the tree they build. -/

namespace Abbrev.Toml

/-- The deepest nesting of brackets, and the longest dotted key, that is read. -/
def nesting : Nat := 79

namespace Document

def skipBlanks (s : List Char) : List Char := s.dropWhile Quoted.isTabOrSpace

/-- Skips blanks, line breaks and comments. -/
def skipTrivia (inComment : Bool) : List Char → Option (List Char)
  | [] => some []
  | '\r' :: '\n' :: s | '\n' :: s => skipTrivia false s
  | c :: s =>
    if inComment then if Quoted.isPlain c then skipTrivia true s else none
    else if Quoted.isTabOrSpace c then skipTrivia false s
    else if c = '#' then skipTrivia true s
    else some (c :: s)

/-- Skips to the next line; only a comment may still stand in this one. -/
def endLine (s : List Char) : Option (List Char) :=
  match skipBlanks s with
  | [] => some []
  | '#' :: s => match s.dropWhile Quoted.isPlain with
    | [] => some []
    | s => Quoted.skipNewline? s
  | s => Quoted.skipNewline? s

def simpleKey (s : List Char) : Option (String × List Char) :=
  match s with
  | '"' :: s => (Quoted.basic s).map fun (k, s) => (String.ofList k, s)
  | '\'' :: s => (Quoted.literal s).map fun (k, s) => (String.ofList k, s)
  | s =>
    let (k, s) := s.span Inline.isBareKeyChar
    if k.isEmpty then none else some (String.ofList k, s)

/-- A key of at most `n` parts, with the blanks around it. -/
def dottedKey : Nat → List Char → Option (List String × List Char)
  | 0, _ => none
  | n + 1, s => do
    let (k, s) ← simpleKey (skipBlanks s)
    match skipBlanks s with
    | '.' :: s => do
      let (ks, s) ← dottedKey n s
      some (k :: ks, s)
    | s => some ([k], s)

def isWordChar (c : Char) : Bool :=
  c.isAlphanum || c == '+' || c == '-' || c == '.' || c == '_' || c == ':'

/-- A value without quotes or brackets. One blank may stand between a date and a time. -/
def word (s : List Char) : Option (Value × List Char) :=
  let (w, rest) := s.span isWordChar
  match (Date.take w), rest with
  | some (_, []), ' ' :: c :: t =>
    if c.isDigit then
      let (time, rest) := (c :: t).span isWordChar
      (Word.read? (w ++ ' ' :: time)).map (·, rest)
    else (Word.read? w).map (·, rest)
  | _, _ => (Word.read? w).map (·, rest)

def expect (c : Char) : List Char → Option (List Char)
  | d :: s => if c = d then some s else none
  | [] => none

mutual

/-- A value inside at most `depth` more brackets. The fuel bounds the steps of reading; each takes a
character, or two steps in turn do. -/
def value (depth : Nat) : Nat → List Char → Option (Value × List Char)
  | 0, _ => none
  | fuel + 1, s => match s, depth with
    | '"' :: _, _ | '\'' :: _, _ =>
      (Quoted.any s).map fun (t, s) => (.string (String.ofList t), s)
    | '[' :: s, depth + 1 => (items depth fuel s).map fun (vs, s) => (.array vs, s)
    | '\x7b' :: s, depth + 1 => do
      let (t, s) ← match skipBlanks s with
        | '\x7d' :: s => some (Tree.root, s)
        | s => pairs depth fuel Tree.root s
      some (t.toValue, s)
    | '[' :: _, 0 | '\x7b' :: _, 0 => none
    | s, _ => word s

/-- The rest of an array. -/
def items (depth : Nat) : Nat → List Char → Option (List Value × List Char)
  | 0, _ => none
  | fuel + 1, s => do
    match ← skipTrivia false s with
    | ']' :: s => some ([], s)
    | s => do
      let (v, s) ← value depth fuel s
      match ← skipTrivia false s with
      | ',' :: s => do
        let (vs, s) ← items depth fuel s
        some (v :: vs, s)
      | ']' :: s => some ([v], s)
      | _ => none

/-- The rest of a table in braces, from a key on, added to what it holds. -/
def pairs (depth : Nat) : Nat → Tree → List Char → Option (Tree × List Char)
  | 0, _, _ => none
  | fuel + 1, t, s => do
    let (key, s) ← dottedKey nesting s
    let s ← expect '=' s
    let (v, s) ← value depth fuel (skipBlanks s)
    let t ← t.assign key v
    match skipBlanks s with
    | ',' :: s => pairs depth fuel t s
    | '\x7d' :: s => some (t, s)
    | _ => none

end

inductive Header where
  | table (path : List String)
  | next (path : List String)

/-- A header from behind its first bracket. -/
def header (s : List Char) : Option (Header × List Char) :=
  match s with
  | '[' :: s => do
    let (path, s) ← dottedKey nesting s
    some (.next path, ← expect ']' (← expect ']' s))
  | s => do
    let (path, s) ← dottedKey nesting s
    some (.table path, ← expect ']' s)

/-- Opens what a header names, and gives its path. -/
def openHeader (h : Header) (t : Tree) : Option (List String × Tree) :=
  let (path, enter) := match h with
    | .table path => (path, Tree.openTable)
    | .next path => (path, Tree.openNext)
  match path.reverse with
  | [] => none
  | key :: way => (t.update .passed (enter key) way.reverse).map (path, ·)

/-- Reads the lines of a document. Keys belong to the table whose path is given. -/
def readLines : Nat → List String → Tree → List Char → Option Tree
  | 0, _, _, _ => none
  | fuel + 1, path, t, s => do
    match ← skipTrivia false s with
    | [] => some t
    | '[' :: s =>
      let (h, s) ← header s
      let s ← endLine s
      let (path, t) ← openHeader h t
      readLines fuel path t s
    | s =>
      let (key, s) ← dottedKey nesting s
      let s ← expect '=' s
      let (v, s) ← value nesting (2 * s.length + 1) (skipBlanks s)
      let s ← endLine s
      let t ← t.update .passed (Tree.assign key v) path
      readLines fuel path t s

end Document

/-- The table that a document writes; a byte order mark in front does not count. -/
def read? (text : String) : Option Value :=
  let s := match text.toList with
    | '\uFEFF' :: s => s
    | s => s
  (Document.readLines (s.length + 1) [] Tree.root s).map Tree.toValue

end Abbrev.Toml
