import SolcDispatch.Number.Binary64
import SolcDispatch.Text.Blank

/-! Numbers written in settings. -/

namespace SolcDispatch.Numeral

/-- White space around a number; the information separators do not count. -/
def isWhite (c : Char) : Bool := Text.isBlank c && !(0x1C ≤ c.toNat && c.toNat ≤ 0x1F)

def trimWhite (cs : List Char) : List Char := Text.dropLastWhile isWhite (cs.dropWhile isWhite)

/-- The sign of a number, and what follows it. -/
def splitSign : List Char → Bool × List Char
  | '-' :: rest => (true, rest)
  | '+' :: rest => (false, rest)
  | cs => (false, cs)

def hasDoubleMark : List Char → Bool
  | '_' :: '_' :: _ => true
  | _ :: rest => hasDoubleMark rest
  | [] => false

/-- Digits without the single underscores between them. -/
def joinDigits? (cs : List Char) : Option (List Char) :=
  if cs.head? == some '_' || cs.getLast? == some '_' || hasDoubleMark cs then none
  else some (cs.filter (· != '_'))

def digitsOnly? (cs : List Char) : Option (List Char) :=
  if cs.isEmpty || !cs.all Char.isDigit then none else some cs

def natOf (digits : List Char) : Nat :=
  digits.foldl (fun n c => 10 * n + (c.toNat - 0x30)) 0

/-- A whole number: a sign, digits with single underscores between them, and a
fractional part of zeros are allowed. -/
def int? (text : String) : Option Int := do
  let (negative, cs) := splitSign (trimWhite text.toList)
  let whole := cs.takeWhile (· != '.')
  let fraction := cs.dropWhile (· != '.')
  if !(fraction.drop 1).all (· == '0') then none
  let digits ← joinDigits? whole >>= digitsOnly?
  let n : Int := natOf digits
  return if negative then -n else n

def lower (cs : List Char) : List Char := cs.map Char.toLower

/-- The exponent after its mark: digits with an optional sign. -/
def exponent? (cs : List Char) : Option Int :=
  match cs with
  | [] => some 0
  | _ :: rest => do
    let (negative, cs) := splitSign rest
    let digits ← digitsOnly? cs
    let n : Int := natOf digits
    return if negative then -n else n

/-- A decimal without a sign: digits before or after the point, and an exponent. -/
def decimal? (negative : Bool) (cs : List Char) : Option Binary64 := do
  let isMark := fun c => c == 'e' || c == 'E'
  let mantissa := cs.takeWhile (!isMark ·)
  let exponent ← exponent? (cs.dropWhile (!isMark ·))
  let whole := mantissa.takeWhile (· != '.')
  let fraction := (mantissa.dropWhile (· != '.')).drop 1
  let digits ← digitsOnly? (whole ++ fraction)
  return .ofDecimal negative (natOf digits) (exponent - fraction.length)

/-- A number or one of the names of infinity and of no number. -/
def plainFloat? (cs : List Char) : Option Binary64 :=
  let (negative, cs) := splitSign cs
  let word := String.ofList (lower cs)
  if word = "inf" || word = "infinity" then some (.infinity negative)
  else if word = "nan" then some .nan
  else decimal? negative cs

/-- A floating-point number; single underscores between characters are allowed. -/
def float? (text : String) : Option Binary64 :=
  (plainFloat? (trimWhite text.toList)).or <|
    if text.toList.contains '_' then joinDigits? text.toList >>= plainFloat? else none

end SolcDispatch.Numeral
