import SolcDispatch.Json.Parser
import SolcDispatch.Script.Syntax

/-! Tokens of scripts. Each keeps whether a line break stands before it. -/

namespace SolcDispatch.Script

inductive Symbol
  | word (name : String)
  | number (value : Binary64)
  | text (value : Wide)
  | sign (text : String)
  deriving DecidableEq

structure Token where
  afterBreak : Bool
  symbol : Symbol

/-- Signs, each before those that it begins with. -/
def signs : List (List Char) :=
  ["===", "!==", "...", "=>", "==", "!=", "<=", ">=", "&&", "||", "??", "+", "-", "*", "/", "%",
    "=", "<", ">", "!", "?", ":", ";", ",", ".", "(", ")", "[", "]", "\x7b", "\x7d"].map String.toList

def isWordStart (c : Char) : Bool := c.isAlpha || c == '_' || c == '$'
def isWordChar (c : Char) : Bool := c.isAlphanum || c == '_' || c == '$'

def isLineBreak (c : Char) : Bool := c == '\n' || c == '\r' || c == '\u2028' || c == '\u2029'

/-- Skip blanks and comments; a line break among them is noted. -/
def skipSpace (fuel : Nat) (broken : Bool) (cs : List Char) : Bool × List Char :=
  match fuel with
  | 0 => (broken, cs)
  | fuel + 1 =>
    match cs with
    | '/' :: '/' :: rest => skipSpace fuel broken (rest.dropWhile (!isLineBreak ·))
    | '/' :: '*' :: rest => skipComment fuel broken rest
    | c :: rest =>
      if isLineBreak c then skipSpace fuel true rest
      else if c == ' ' || c == '\t' || c == '\x0B' || c == '\x0C' || c == '\u00A0' || c == '\uFEFF' then
        skipSpace fuel broken rest
      else (broken, cs)
    | [] => (broken, [])
where
  /-- Skip the rest of a comment that may go over several lines. -/
  skipComment (fuel : Nat) (broken : Bool) (cs : List Char) : Bool × List Char :=
    match fuel with
    | 0 => (broken, cs)
    | fuel + 1 =>
      match cs with
      | '*' :: '/' :: rest => skipSpace fuel broken rest
      | c :: rest => skipComment fuel (broken || isLineBreak c) rest
      | [] => (broken, [])

/-- The code points of a text up to its closing quote, last first. -/
def textBody (quote : Char) (read : List Nat) : List Char → Option (List Nat × List Char)
  | [] => none
  | '\\' :: 'u' :: a :: b :: c :: d :: rest =>
    match Json.hexQuad? a b c d with
    | some unit => textBody quote (unit :: read) rest
    | none => none
  | '\\' :: 'x' :: a :: b :: rest =>
    match Json.hexQuad? '0' '0' a b with
    | some unit => textBody quote (unit :: read) rest
    | none => none
  | '\\' :: '\n' :: rest => textBody quote read rest
  | '\\' :: c :: rest =>
    let character := match c with
      | '0' => '\x00'
      | 'v' => '\x0B'
      | c => if c == '"' then c else (Json.escaped? c).getD c
    textBody quote (character.toNat :: read) rest
  | c :: rest =>
    if c == quote then some (read, rest)
    else if c == '\n' then none
    else textBody quote (c.toNat :: read) rest

def symbol? (cs : List Char) : Option (Symbol × List Char) :=
  match cs with
  | [] => none
  | c :: rest =>
    if c == '"' || c == '\'' then
      (textBody c [] rest).map fun (read, left) => (.text (Wide.ofCodes read.reverse), left)
    else if isWordStart c then
      some (.word (String.ofList (cs.takeWhile isWordChar)), cs.dropWhile isWordChar)
    else if c.isDigit then
      match (Json.unsignedNumber none false cs cs : Json.Reading Json) with
      | .ok (.int n, left) => some (.number (.ofInt n), left)
      | .ok (.float x, left) => some (.number x, left)
      | _ => none
    else (signs.find? (·.isPrefixOf cs)).map fun sign =>
      (.sign (String.ofList sign), cs.drop sign.length)

/-- All tokens of a text, if it is made of tokens. -/
def tokens? (fuel : Nat) (read : List Token) (cs : List Char) : Option (List Token) :=
  match fuel with
  | 0 => none
  | fuel + 1 =>
    match skipSpace (2 * fuel + 2) false cs with
    | (_, []) => some read.reverse
    | (afterBreak, left) =>
      match symbol? left with
      | some (symbol, rest) => tokens? fuel (⟨afterBreak, symbol⟩ :: read) rest
      | none => none

end SolcDispatch.Script
