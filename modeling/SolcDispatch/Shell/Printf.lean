import SolcDispatch.Text.Utf8

/-! Formatted output of shell scripts: escapes, and directives that each take one
argument. A character of a script is one byte. -/

namespace SolcDispatch.Shell

def isOctal (c : Char) : Bool := '0' ≤ c && c ≤ '7'

def octalValue (cs : List Char) : Nat := cs.foldl (fun n c => 8 * n + (c.toNat - 48)) 0

/-- The character that a letter after a backslash stands for. -/
def escapedLetter? : Char → Option Char
  | 'n' => some '\n'
  | 't' => some '\t'
  | 'r' => some '\r'
  | 'a' => some '\x07'
  | 'b' => some '\x08'
  | 'f' => some '\x0C'
  | 'v' => some '\x0B'
  | '\\' => some '\\'
  | _ => none

/-- The escape at the front of a text after its backslash; up to three octal digits
write a byte. -/
def escape? (cs : List Char) : Option (Char × List Char) :=
  match (cs.take 3).takeWhile isOctal with
  | [] => match cs with
    | c :: rest => (escapedLetter? c).map fun e => (e, rest)
    | [] => none
  | digits => some (Char.ofNat (octalValue digits % 256), cs.drop digits.length)

/-- The whole number that an argument writes; blanks in front of it are skipped. -/
def argumentInt (cs : List Char) : Int :=
  match cs.dropWhile fun c => c == ' ' || c == '\t' with
  | '-' :: rest => -((String.ofList (rest.takeWhile Char.isDigit)).toNat?.getD 0 : Int)
  | rest => ((String.ofList (rest.takeWhile Char.isDigit)).toNat?.getD 0 : Int)

def intText (n : Int) : List Char :=
  if n < 0 then '-' :: Nat.toDigits 10 n.natAbs else Nat.toDigits 10 n.natAbs

def directive? (letter : Char) (argument : List Char) : Option (List Char) :=
  match letter with
  | 's' | 'b' => some argument
  | 'c' => some (argument.take 1)
  | 'd' | 'i' | 'u' => some (intText (argumentInt argument))
  | 'x' => some (Nat.toDigits 16 (argumentInt argument).natAbs)
  | 'o' => some (Nat.toDigits 8 (argumentInt argument).natAbs)
  | _ => none

/-- One pass over a format: what is printed, last first, and the arguments left. -/
def formatOnce (fuel : Nat) (printed : List Char) (arguments : List (List Char))
    (cs : List Char) : List Char × List (List Char) :=
  match fuel with
  | 0 => (printed, arguments)
  | fuel + 1 =>
    match cs with
    | [] => (printed, arguments)
    | '\\' :: rest => match escape? rest with
      | some (c, left) => formatOnce fuel (c :: printed) arguments left
      | none => formatOnce fuel ('\\' :: printed) arguments rest
    | '%' :: '%' :: rest => formatOnce fuel ('%' :: printed) arguments rest
    | '%' :: letter :: rest => match directive? letter (arguments.headD []) with
      | some text => formatOnce fuel (text.reverse ++ printed) arguments.tail rest
      | none => formatOnce fuel (letter :: '%' :: printed) arguments rest
    | c :: rest => formatOnce fuel (c :: printed) arguments rest

/-- The format is gone through again as long as it takes up arguments. -/
def formatAll (rounds : Nat) (printed : List Char) (arguments : List (List Char))
    (format : List Char) : List Char :=
  match rounds with
  | 0 => printed.reverse
  | rounds + 1 =>
    let (printed, left) := formatOnce (format.length + 1) printed arguments format
    if left.isEmpty || left.length == arguments.length then printed.reverse
    else formatAll rounds printed left format

def formatted (format : List Char) (arguments : List (List Char)) : List Char :=
  formatAll (arguments.length + 1) [] arguments format

def unescaped : List Char → List Char
  | '\\' :: c :: rest => match escapedLetter? c with
    | some e => e :: unescaped rest
    | none => '\\' :: c :: unescaped rest
  | c :: rest => c :: unescaped rest
  | [] => []

/-- Arguments as they are echoed, with a blank between them. -/
def echoed (arguments : List (List Char)) : List Char := unescaped ([' '].intercalate arguments)

end SolcDispatch.Shell
