import SolcDispatch.Json.ParseError
import SolcDispatch.Settings.Numeral
import SolcDispatch.Text.DecimalDigit
import SolcDispatch.Text.Quoted

/-! Reading the words of a command line. Options may be shortened as long as they stay
clear; two hyphens end them; versions stand together in one place. -/

namespace SolcDispatch.CommandLine

/-- What is asked for: versions, and how many of the newest releases. -/
structure Wishes where
  versions : List String
  latest : Int
  deriving DecidableEq, Repr

inductive UsageError
  | ambiguous (option : String)
  | superfluous (argument : String)
  | missingNumber
  | badNumber (text : String)
  | unrecognized (words : List String)
  deriving DecidableEq, Repr

def helpOption : String := "--help"
def latestOption : String := "--latest"

def UsageError.message : UsageError → String
  | .ambiguous option => s!"ambiguous option: {option} could match {helpOption}, {latestOption}"
  | .superfluous argument =>
    s!"argument -h/{helpOption}: ignored explicit argument {Text.quoted argument}"
  | .missingNumber => s!"argument {latestOption}: expected one argument"
  | .badNumber text => s!"argument {latestOption}: invalid int value: {Text.quoted text}"
  | .unrecognized words => "unrecognized arguments: " ++ " ".intercalate words

/-- A word of the command line. An option may have an argument of its own after an
equals sign. -/
inductive Word
  | plain (text : String)
  | separator
  | help (argument : Option String)
  | latest (argument : Option String)
  | unknown (text : String)
  deriving DecidableEq, Repr

/-- Whether a word is a negative number, which is no option. A line feed may end it. -/
def isNegativeNumber (cs : List Char) : Bool :=
  match cs with
  | '-' :: rest =>
    let rest := if rest.getLast? == some '\n' then rest.dropLast else rest
    let whole := rest.takeWhile Text.isDecimalDigit
    match rest.dropWhile Text.isDecimalDigit with
    | [] => !whole.isEmpty
    | '.' :: fraction => !fraction.isEmpty && fraction.all Text.isDecimalDigit
    | _ => false
  | _ => false

def strangeWord (cs : List Char) : Word :=
  if isNegativeNumber cs || cs.contains ' ' then .plain (String.ofList cs)
  else .unknown (String.ofList cs)

/-- An option with two hyphens: its name before an equals sign may be the beginning of
an option's name. -/
def longWord (cs : List Char) : Except UsageError Word :=
  let name := cs.takeWhile (· != '=')
  let argument := match cs.dropWhile (· != '=') with
    | [] => none
    | _ :: rest => some (String.ofList rest)
  match name.isPrefixOf helpOption.toList, name.isPrefixOf latestOption.toList with
  | true, true => .error (.ambiguous (String.ofList cs))
  | true, false => .ok (.help argument)
  | false, true => .ok (.latest argument)
  | false, false => .ok (strangeWord cs)

/-- The short option for help. What follows it at once is ignored, unless it is marked
as an argument or begins with a hyphen. -/
def shortHelp : List Char → Word
  | '=' :: rest => .help (some (String.ofList rest))
  | '-' :: rest => .help (some (String.ofList ('-' :: rest)))
  | _ => .help none

def word (text : String) : Except UsageError Word :=
  match text.toList with
  | ['-'] => .ok (.plain text)
  | '-' :: '-' :: rest => longWord ('-' :: '-' :: rest)
  | '-' :: 'h' :: rest => .ok (shortHelp rest)
  | '-' :: rest => .ok (strangeWord ('-' :: rest))
  | _ => .ok (.plain text)

/-- The words of a command line; nothing after two hyphens is an option. -/
def words : List String → Except UsageError (List Word)
  | [] => .ok []
  | text :: rest =>
    if text = "--" then .ok (.separator :: rest.map .plain)
    else do
      let first ← word text
      return first :: (← words rest)

/-- A whole number: digits of any script after an optional sign, with single underscores
between them and white space around. -/
def number? (text : String) : Option Int := do
  let (negative, cs) := Numeral.splitSign (Numeral.trimWhite text.toList)
  let digits ← Numeral.joinDigits? cs
  if digits.isEmpty || !digits.all Text.isDecimalDigit || Json.maxDigits < digits.length then none
  else
    let n : Int := Text.digitsValue digits
    some (if negative then -n else n)

def number (text : String) : Except UsageError Int :=
  match number? text with
  | some n => .ok n
  | none => .error (.badNumber text)

/-- What the words so far ask for: the versions, once they have been met, and words that
nothing is made of. -/
structure Reading where
  versions : Option (List String) := none
  latest : Int := 0
  unrecognized : List String := []

/-- Take in the plain words that stand together, last first. -/
def Reading.takePlain (r : Reading) (together : List String) : Reading :=
  if together.isEmpty then r
  else match r.versions with
    | none => { r with versions := some (together.reverse.erase "--") }
    | some _ => { r with unrecognized := r.unrecognized ++ together.reverse }

inductive Command
  | help
  | warm (wishes : Wishes)
  deriving DecidableEq, Repr

def Reading.finish (r : Reading) : Except UsageError Command :=
  if r.unrecognized.isEmpty then .ok (.warm ⟨r.versions.getD [], r.latest⟩)
  else .error (.unrecognized r.unrecognized)

/-- Read words after plain ones that stand together, last first. -/
def readWords (together : List String) (r : Reading) : List Word → Except UsageError Command
  | [] => (r.takePlain together).finish
  | .plain text :: rest => readWords (text :: together) r rest
  | .separator :: rest => readWords ("--" :: together) r rest
  | .unknown text :: rest =>
    let r := r.takePlain together
    readWords [] { r with unrecognized := r.unrecognized ++ [text] } rest
  | .help none :: _ => .ok .help
  | .help (some argument) :: _ => .error (.superfluous argument)
  | .latest (some text) :: rest =>
    match number text with
    | .ok latest => readWords [] { r.takePlain together with latest } rest
    | .error error => .error error
  | .latest none :: .plain text :: rest =>
    match number text with
    | .ok latest => readWords [] { r.takePlain together with latest } rest
    | .error error => .error error
  | .latest none :: _ => .error .missingNumber

def read (arguments : List String) : Except UsageError Command :=
  (words arguments) >>= readWords [] {}

end SolcDispatch.CommandLine
