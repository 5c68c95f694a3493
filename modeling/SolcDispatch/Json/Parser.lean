import SolcDispatch.Json.Basic
import SolcDispatch.Json.ParseError
import SolcDispatch.Text.WideUnits

/-! Reading JSON. Every step takes the text that is left and returns the text left
after it; a fault carries the text left at the place of the fault, from which its
line and column follow. -/

namespace SolcDispatch.Json

/-- A fault while reading, with the text left where it lies. -/
inductive Fault
  | refused (complaint : Complaint) (rest : List Char)
  | longInteger (digits : Nat)

abbrev Reading (α : Type) := Except Fault (α × List Char)

def isSpace (c : Char) : Bool := c == ' ' || c == '\t' || c == '\n' || c == '\r'

def skipSpace (cs : List Char) : List Char := cs.dropWhile isSpace

def hexValue? (c : Char) : Option Nat :=
  if '0' ≤ c && c ≤ '9' then some (c.toNat - 0x30)
  else if 'a' ≤ c && c ≤ 'f' then some (c.toNat - 0x57)
  else if 'A' ≤ c && c ≤ 'F' then some (c.toNat - 0x37)
  else none

def hexQuad? (a b c d : Char) : Option Nat := do
  let a ← hexValue? a
  let b ← hexValue? b
  let c ← hexValue? c
  let d ← hexValue? d
  return ((a * 16 + b) * 16 + c) * 16 + d

/-- The character that a backslash and a letter stand for. -/
def escaped? : Char → Option Char
  | '"' => some '"'
  | '\\' => some '\\'
  | '/' => some '/'
  | 'b' => some '\x08'
  | 'f' => some '\x0C'
  | 'n' => some '\n'
  | 'r' => some '\r'
  | 't' => some '\t'
  | _ => none

/-- The code points of a string up to its closing quote, where a character may be escaped in
two halves. `opening` is the text from the opening quote on and `read` what is read so far, last
first. -/
def stringBody (opening : List Char) (read : List Nat) : List Char → Reading (List Nat)
  | [] => .error (.refused .unterminatedString opening)
  | '"' :: rest => .ok (read.reverse, rest)
  | '\\' :: 'u' :: a :: b :: c :: d :: e :: rest =>
    match hexQuad? a b c d with
    | none => .error (.refused .badCodeEscape ('u' :: a :: b :: c :: d :: e :: rest))
    | some unit => stringBody opening (unit :: read) (e :: rest)
  | '\\' :: 'u' :: rest => .error (.refused .badCodeEscape ('u' :: rest))
  | ['\\'] => .error (.refused .unterminatedString opening)
  | '\\' :: c :: rest =>
    match escaped? c with
    | none => .error (.refused .unknownEscape ('\\' :: c :: rest))
    | some character => stringBody opening (character.toNat :: read) rest
  | c :: rest =>
    if c.toNat < 0x20 then .error (.refused .controlCharacter (c :: rest))
    else stringBody opening (c.toNat :: read) rest

def isDigit (c : Char) : Bool := '0' ≤ c && c ≤ '9'

/-- The digits at the front of a text, if there are any. -/
def digits? (cs : List Char) : Option (List Char × List Char) :=
  match cs.takeWhile isDigit with
  | [] => none
  | ds => some (ds, cs.dropWhile isDigit)

/-- The whole part of a number: a zero alone, or digits that do not begin with one. -/
def wholePart? : List Char → Option (List Char × List Char)
  | '0' :: rest => some (['0'], rest)
  | cs => digits? cs

/-- The digits of a fractional part, none if there is no such part. -/
def fractionPart (cs : List Char) : List Char × List Char :=
  match cs with
  | '.' :: rest => (digits? rest).getD ([], cs)
  | _ => ([], cs)

def natOfDigits (ds : List Char) : Nat := ds.foldl (fun n c => 10 * n + (c.toNat - 0x30)) 0

/-- The value of an exponent part, if there is one. -/
def exponentPart? (cs : List Char) : Option (Int × List Char) :=
  match cs with
  | e :: rest =>
    if e == 'e' || e == 'E' then
      match rest with
      | '-' :: more => (digits? more).map fun (ds, left) => (-(natOfDigits ds : Int), left)
      | '+' :: more => (digits? more).map fun (ds, left) => ((natOfDigits ds : Int), left)
      | more => (digits? more).map fun (ds, left) => ((natOfDigits ds : Int), left)
    else none
  | [] => none

variable {τ : Type}

/-- Read a number without its sign; `start` is the text from its first character on. There may be
a limit to the digits of a whole number. -/
def unsignedNumber (limit : Option Nat) (negative : Bool) (start cs : List Char) :
    Reading (Json τ) :=
  match wholePart? cs with
  | none => .error (.refused .expectingValue start)
  | some (whole, afterWhole) =>
    let (fraction, afterFraction) := fractionPart afterWhole
    match fraction, exponentPart? afterFraction with
    | [], none =>
      if limit.any (· < whole.length) then .error (.longInteger whole.length)
      else
        let n : Int := natOfDigits whole
        .ok (.int (if negative then -n else n), afterFraction)
    | _, exponent? =>
      let (exponent, rest) := exponent?.getD (0, afterFraction)
      let digits := natOfDigits (whole ++ fraction)
      .ok (.float (.ofDecimal negative digits (exponent - fraction.length)), rest)

/-- What a reader takes besides texts, arrays and objects: words that stand for values, and
numbers, of which the whole ones may have only so many digits. -/
structure Dialect (τ : Type := String) where
  words : List (List Char × Json τ)
  limit : Option Nat

/-- The words of JSON alone, and numbers of any length. -/
def strict : Dialect τ where
  words := [("null".toList, .null), ("true".toList, .bool true), ("false".toList, .bool false)]
  limit := none

/-- The words of JSON and the names of the numbers that are not finite. -/
def lenient : Dialect τ where
  words := strict.words ++ [("NaN".toList, .float .nan),
    ("Infinity".toList, .float (.infinity false)), ("-Infinity".toList, .float (.infinity true))]
  limit := some maxDigits

def Dialect.word? (dialect : Dialect τ) (cs : List Char) : Option (Json τ × List Char) :=
  (dialect.words.find? fun w => w.1.isPrefixOf cs).map fun w => (w.2, cs.drop w.1.length)

def scalar (dialect : Dialect τ) (cs : List Char) : Reading (Json τ) :=
  match dialect.word? cs with
  | some read => .ok read
  | none =>
    match cs with
    | '-' :: rest => unsignedNumber dialect.limit true cs rest
    | _ => unsignedNumber dialect.limit false cs cs

section Values

variable [DecidableEq τ] [TextLike τ]

mutual

/-- Read a value that begins at the front of the text. The fuel bounds the number of
values, items and members that are entered. -/
def value (dialect : Dialect τ) (fuel : Nat) (cs : List Char) : Reading (Json τ) :=
  match fuel with
  | 0 => .error (.refused .expectingValue cs)
  | fuel + 1 =>
    match cs with
    | '"' :: rest => (stringBody cs [] rest).map fun (s, left) => (.str (TextLike.ofCodes s), left)
    | '{' :: rest =>
      match skipSpace rest with
      | '}' :: left => .ok (.obj [], left)
      | left => (members dialect fuel [] left).map fun (ms, left) => (.obj (Assoc.ofPairs ms), left)
    | '[' :: rest =>
      match skipSpace rest with
      | ']' :: left => .ok (.arr [], left)
      | left => (items dialect fuel [] left).map fun (vs, left) => (.arr vs, left)
    | _ => scalar dialect cs
termination_by structural fuel

/-- Read the items of an array up to its closing bracket. -/
def items (dialect : Dialect τ) (fuel : Nat) (read : List (Json τ)) (cs : List Char) :
    Reading (List (Json τ)) :=
  match fuel with
  | 0 => .error (.refused .expectingValue cs)
  | fuel + 1 =>
    match value dialect fuel cs with
    | .error fault => .error fault
    | .ok (item, rest) =>
      match skipSpace rest with
      | ']' :: left => .ok ((item :: read).reverse, left)
      | ',' :: left => items dialect fuel (item :: read) (skipSpace left)
      | left => .error (.refused .expectingComma left)
termination_by structural fuel

/-- Read the members of an object up to its closing brace. -/
def members (dialect : Dialect τ) (fuel : Nat) (read : Members τ) (cs : List Char) :
    Reading (Members τ) :=
  match fuel with
  | 0 => .error (.refused .expectingName cs)
  | fuel + 1 =>
    match cs with
    | '"' :: rest =>
      match stringBody cs [] rest with
      | .error fault => .error fault
      | .ok (name, rest) =>
        match skipSpace rest with
        | ':' :: rest =>
          match value dialect fuel (skipSpace rest) with
          | .error fault => .error fault
          | .ok (v, rest) =>
            let read := (TextLike.ofCodes name, v) :: read
            match skipSpace rest with
            | '}' :: left => .ok (read.reverse, left)
            | ',' :: left => members dialect fuel read (skipSpace left)
            | left => .error (.refused .expectingComma left)
        | left => .error (.refused .expectingColon left)
    | _ => .error (.refused .expectingName cs)
termination_by structural fuel

end

end Values

/-- Line and column, both from one, after the given text. -/
def position (before : List Char) : Nat × Nat :=
  before.foldl (fun (line, column) c => if c == '\n' then (line + 1, 1) else (line, column + 1))
    (1, 1)

def Fault.toError (text : List Char) : Fault → ParseError
  | .refused complaint rest =>
    let offset := text.length - rest.length
    let (line, column) := position (text.take offset)
    .malformed complaint line column offset
  | .longInteger digits => .longInteger digits

section Texts

variable [DecidableEq τ] [TextLike τ]

/-- Read a text that holds one value with spaces around it. -/
def parseWith (dialect : Dialect τ) (text : List Char) : Except ParseError (Json τ) :=
  match value dialect (2 * text.length + 2) (skipSpace text) with
  | .error fault => .error (fault.toError text)
  | .ok (v, rest) =>
    match skipSpace rest with
    | [] => .ok v
    | left => .error ((Fault.refused .extraData left).toError text)

end Texts

/-- Read a text into a value whose own texts are of the given kind. -/
def parseChars (text : List Char) (τ : Type := String) [DecidableEq τ] [TextLike τ] :
    Except ParseError (Json τ) :=
  parseWith lenient text

/-- Read a text; a byte order mark in front of it is an error. -/
def parse (text : String) (τ : Type := String) [DecidableEq τ] [TextLike τ] :
    Except ParseError (Json τ) :=
  match text.toList with
  | '\uFEFF' :: _ => .error (.malformed .byteOrderMark 1 1 0)
  | cs => parseChars cs τ

/-- The text of bytes in which halves of surrogate pairs may stand. -/
def decodeNarrow? (bytes : Text.Bytes) : Option String :=
  Text.decodeUtf8? (Text.replaceHalves bytes)

/-- The byte order marks, each with what reads the bytes after it. A mark that begins with
another stands before it. -/
def orderMarks : List (Text.Bytes × (Text.Bytes → Option String)) :=
  [([0x00, 0x00, 0xFE, 0xFF], Text.decodeUtf32? .big),
    ([0xFF, 0xFE, 0x00, 0x00], Text.decodeUtf32? .little),
    ([0xFE, 0xFF], Text.decodeUtf16? .big),
    ([0xFF, 0xFE], Text.decodeUtf16? .little),
    ([0xEF, 0xBB, 0xBF], decodeNarrow?)]

/-- The text of bytes without a mark: the zeros among the first of them give the encoding. -/
def decodeUnmarked? (bytes : Text.Bytes) : Option String :=
  match bytes with
  | a :: b :: c :: d :: _ =>
    if a == 0 then if b == 0 then Text.decodeUtf32? .big bytes else Text.decodeUtf16? .big bytes
    else if b == 0 then
      if c == 0 && d == 0 then Text.decodeUtf32? .little bytes else Text.decodeUtf16? .little bytes
    else decodeNarrow? bytes
  | [a, b] =>
    if a == 0 then Text.decodeUtf16? .big bytes
    else if b == 0 then Text.decodeUtf16? .little bytes
    else decodeNarrow? bytes
  | _ => decodeNarrow? bytes

/-- The text of bytes whose encoding is known from what they begin with. -/
def decodeBytes? (bytes : Text.Bytes) : Option String :=
  match orderMarks.find? fun mark => mark.1.isPrefixOf bytes with
  | some (mark, read) => read (bytes.drop mark.length)
  | none => decodeUnmarked? bytes

/-- Read bytes; there is no answer if they are no text in their encoding. -/
def parseBytes? (bytes : Text.Bytes) (τ : Type := String) [DecidableEq τ] [TextLike τ] :
    Option (Except ParseError (Json τ)) :=
  (decodeBytes? bytes).map fun text => parseChars text.toList τ

end SolcDispatch.Json
