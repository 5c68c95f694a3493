import SolcDispatch.Assoc
import SolcDispatch.Text.Blank

/-! Files of environment variables: a name, an equals sign and a value on each line,
with quotes and comments. -/

namespace SolcDispatch.EnvFile

def isBreak (c : Char) : Bool := c == '\n' || c == '\r'

/-- A blank within a line. -/
def isInnerBlank (c : Char) : Bool := Text.isBlank c && !isBreak c

def skipInner (cs : List Char) : List Char := cs.dropWhile isInnerBlank

def skipLine (cs : List Char) : List Char :=
  match cs.dropWhile (!isBreak ·) with
  | '\r' :: '\n' :: rest => rest
  | _ :: rest => rest
  | [] => []

/-- The text up to its closing quote and the text after it. A quote behind a backslash
closes only if no other quote does; `fallback` is the last such place. -/
def quotedText? (quote : Char) (read : List Char) (fallback : Option (List Char × List Char)) :
    List Char → Option (List Char × List Char)
  | [] => fallback
  | '\\' :: c :: rest =>
    if c == quote then
      quotedText? quote (c :: '\\' :: read) (some (('\\' :: read).reverse, rest)) rest
    else quotedText? quote ('\\' :: read) fallback (c :: rest)
  | c :: rest =>
    if c == quote then some (read.reverse, rest) else quotedText? quote (c :: read) fallback rest

/-- The character for a letter behind a backslash within double quotes. -/
def doubleEscape? : Char → Option Char
  | '\\' => some '\\'
  | '\'' => some '\''
  | '"' => some '"'
  | 'a' => some '\x07'
  | 'b' => some '\x08'
  | 'f' => some '\x0C'
  | 'n' => some '\n'
  | 'r' => some '\r'
  | 't' => some '\t'
  | 'v' => some '\x0B'
  | _ => none

/-- Within single quotes only a backslash and a single quote are escaped. -/
def singleEscape? : Char → Option Char
  | '\\' => some '\\'
  | '\'' => some '\''
  | _ => none

def unescape (escape? : Char → Option Char) : List Char → List Char
  | [] => []
  | '\\' :: c :: rest =>
    match escape? c with
    | some character => character :: unescape escape? rest
    | none => '\\' :: unescape escape? (c :: rest)
  | c :: rest => c :: unescape escape? rest

/-- A value without quotes: up to a comment that follows a blank. -/
def cutComment (read : List Char) : List Char → List Char
  | [] => read.reverse
  | c :: rest =>
    if Text.isBlank c && (rest.dropWhile Text.isBlank).head? == some '#' then read.reverse
    else cutComment (c :: read) rest

def value? (cs : List Char) : Option (List Char × List Char) :=
  match cs with
  | '\'' :: rest =>
    (quotedText? '\'' [] none rest).map fun (text, left) => (unescape singleEscape? text, left)
  | '"' :: rest =>
    (quotedText? '"' [] none rest).map fun (text, left) => (unescape doubleEscape? text, left)
  | cs =>
    let line := cs.takeWhile (!isBreak ·)
    some (Text.dropLastWhile Text.isBlank (cutComment [] line), cs.dropWhile (!isBreak ·))

def name? (cs : List Char) : Option (List Char × List Char) :=
  match cs with
  | '\'' :: rest =>
    match rest.takeWhile (· != '\''), rest.dropWhile (· != '\'') with
    | [], _ => none
    | _, [] => none
    | name, _ :: left => some (name, left)
  | cs =>
    let isNameChar := fun c => !(c == '=' || c == '#' || Text.isBlank c)
    match cs.takeWhile isNameChar with
    | [] => none
    | name => some (name, cs.dropWhile isNameChar)

/-- The text after the word that marks a variable for export. -/
def skipExport (cs : List Char) : List Char :=
  if "export".toList.isPrefixOf cs && (cs[6]?).any isInnerBlank then skipInner (cs.drop 6) else cs

/-- The text after a comment, if nothing else is left on the line. -/
def lineEnd? (cs : List Char) : Option (List Char) :=
  match skipInner cs with
  | [] => some []
  | '#' :: rest => some (skipLine rest)
  | c :: rest => if isBreak c then some (skipLine (c :: rest)) else none

/-- One assignment from the front of a text, and the text after its line. -/
def assignment? (cs : List Char) : Option ((String × String) × List Char) := do
  let (name, cs) ← name? (skipExport cs)
  match skipInner cs with
  | '=' :: rest =>
    let (value, cs) ← value? (skipInner rest)
    let cs ← lineEnd? cs
    return ((String.ofList name, String.ofList value), cs)
  | _ => none

/-- The assignments of a text. The fuel bounds the number of lines. -/
def assignments (fuel : Nat) (cs : List Char) : List (String × String) :=
  match fuel, cs.dropWhile Text.isBlank with
  | 0, _ => []
  | _, [] => []
  | fuel + 1, cs =>
    match assignment? cs with
    | some (assignment, rest) => assignment :: assignments fuel rest
    | none => assignments fuel (skipLine cs)

def read (text : String) : List (String × String) := assignments (text.length + 1) text.toList

end SolcDispatch.EnvFile
