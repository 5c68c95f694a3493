import SolcDispatch.Text.Printable
import SolcDispatch.Text.TextLike

/-! Quoted texts in messages. Single quotes enclose a text unless it holds a
single quote and no double quote; a character without a printed form stands as
its code in hexadecimal. -/

namespace SolcDispatch.Text

/-- The digit of a value below sixteen, in lower case. -/
def hexDigit (n : Nat) : Char :=
  if n < 10 then Char.ofNat (0x30 + n) else Char.ofNat (0x57 + n)

/-- The lowest `width` hexadecimal digits of a number. -/
def hexDigits : (width : Nat) → (n : Nat) → List Char
  | 0, _ => []
  | width + 1, n => hexDigits width (n / 16) ++ [hexDigit (n % 16)]

def quotedChar (quote c : Char) : List Char :=
  if c == quote || c == '\\' then ['\\', c]
  else if c == '\n' then ['\\', 'n']
  else if c == '\r' then ['\\', 'r']
  else if c == '\t' then ['\\', 't']
  else if isPrintable c then [c]
  else if c.toNat < 0x100 then '\\' :: 'x' :: hexDigits 2 c.toNat
  else if c.toNat < 0x10000 then '\\' :: 'u' :: hexDigits 4 c.toNat
  else '\\' :: 'U' :: hexDigits 8 c.toNat

def quoteMark (cs : List Char) : Char :=
  if cs.contains '\'' && !cs.contains '"' then '"' else '\''

/-- What stands for a code point; half a surrogate pair has no printed form. -/
def quotedCode (quote : Char) (n : Nat) : List Char :=
  if isHalf n then '\\' :: 'u' :: hexDigits 4 n else quotedChar quote (Char.ofNat n)

def quoted {τ : Type} [TextLike τ] (s : τ) : String :=
  let codes := TextLike.codes s
  let quote := quoteMark (codes.map unitChar)
  String.ofList (quote :: codes.flatMap (quotedCode quote) ++ [quote])

end SolcDispatch.Text
