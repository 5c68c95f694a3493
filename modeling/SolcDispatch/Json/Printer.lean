import SolcDispatch.Json.Basic
import SolcDispatch.Number.Decimal
import SolcDispatch.Text.Quoted

/-! Writing JSON on one line. A style says what stands between items and after
names, whether every character beyond the printable ASCII ones is escaped, and how
numbers with a fractional part are written. -/

namespace SolcDispatch.Json

def printInt (n : Int) : List Char :=
  if n < 0 then '-' :: Nat.toDigits 10 n.natAbs else Nat.toDigits 10 n.natAbs

/-- The text of a number; the three that are not finite have names of their own. -/
def printFloat : Binary64 → List Char
  | .nan => "NaN".toList
  | .infinity negative => Binary64.signed negative "Infinity".toList
  | x => x.toText.toList

structure Style where
  itemSeparator : String
  nameSeparator : String
  asciiOnly : Bool
  float : Binary64 → List Char := printFloat

/-- A space after each comma and colon; ASCII only. -/
def spaced : Style := { itemSeparator := ", ", nameSeparator := ": ", asciiOnly := true }

/-- No spaces; ASCII only. -/
def compact : Style := { itemSeparator := ",", nameSeparator := ":", asciiOnly := true }

/-- No spaces; characters beyond ASCII stand for themselves. -/
def compactUnicode : Style := { itemSeparator := ",", nameSeparator := ":", asciiOnly := false }

/-- The text of a number as scripts write it; null stands for one that is not finite. -/
def scriptFloat (x : Binary64) : List Char :=
  if x.isFinite then x.toScriptText.toList else "null".toList

/-- As scripts write it. -/
def script : Style := { compactUnicode with float := scriptFloat }

def codeEscape (n : Nat) : List Char := '\\' :: 'u' :: Text.hexDigits 4 n

/-- The escape of a code point, in two halves if it has more than four digits. -/
def characterEscape (n : Nat) : List Char :=
  if n < 0x10000 then codeEscape n
  else
    let rest := n - 0x10000
    codeEscape (0xD800 + rest / 0x400) ++ codeEscape (0xDC00 + rest % 0x400)

def printChar (asciiOnly : Bool) (c : Char) : List Char :=
  if c == '"' then ['\\', '"']
  else if c == '\\' then ['\\', '\\']
  else if c == '\n' then ['\\', 'n']
  else if c == '\r' then ['\\', 'r']
  else if c == '\t' then ['\\', 't']
  else if c == '\x08' then ['\\', 'b']
  else if c == '\x0C' then ['\\', 'f']
  else if c.toNat < 0x20 then codeEscape c.toNat
  else if asciiOnly && 0x7F ≤ c.toNat then characterEscape c.toNat
  else [c]

/-- Half a surrogate pair is escaped whether only ASCII is written or not. -/
def printCode (asciiOnly : Bool) (n : Nat) : List Char :=
  if Text.isHalf n then codeEscape n else printChar asciiOnly (Char.ofNat n)

variable {τ : Type}

section Texts

variable [TextLike τ]

def printString (asciiOnly : Bool) (s : τ) : List Char :=
  '"' :: ((TextLike.codes s).flatMap (printCode asciiOnly) ++ ['"'])

mutual

def printChars (style : Style) (value : Json τ) : List Char :=
  match value with
  | .null => "null".toList
  | .bool b => (if b then "true" else "false").toList
  | .int n => printInt n
  | .float x => style.float x
  | .str s => printString style.asciiOnly s
  | .arr items => '[' :: (printItems style true items ++ [']'])
  | .obj members => '{' :: (printMembers style true members ++ ['}'])

def printItems (style : Style) (first : Bool) (items : List (Json τ)) : List Char :=
  match items with
  | [] => []
  | item :: rest =>
    (if first then [] else style.itemSeparator.toList) ++
      printChars style item ++ printItems style false rest

def printMembers (style : Style) (first : Bool) (members : List (τ × Json τ)) : List Char :=
  match members with
  | [] => []
  | (name, value) :: rest =>
    (if first then [] else style.itemSeparator.toList) ++
      printString style.asciiOnly name ++ style.nameSeparator.toList ++
      printChars style value ++ printMembers style false rest

end

def print (style : Style) (value : Json τ) : String := String.ofList (printChars style value)

def text (value : Json τ) : String := print spaced value

end Texts

mutual

def allFinite : Json τ → Bool
  | .float x => x.isFinite
  | .arr items => allFiniteItems items
  | .obj members => allFiniteMembers members
  | _ => true

def allFiniteItems : List (Json τ) → Bool
  | [] => true
  | item :: rest => allFinite item && allFiniteItems rest

def allFiniteMembers : List (τ × Json τ) → Bool
  | [] => true
  | (_, value) :: rest => allFinite value && allFiniteMembers rest

end

section Quotes

variable [TextLike τ]

mutual

def literalChars (value : Json τ) : List Char :=
  match value with
  | .null => "None".toList
  | .bool b => (if b then "True" else "False").toList
  | .int n => printInt n
  | .float x => x.toText.toList
  | .str s => (Text.quoted s).toList
  | .arr items => '[' :: (literalItems true items ++ [']'])
  | .obj members => '{' :: (literalMembers true members ++ ['}'])

def literalItems (first : Bool) (items : List (Json τ)) : List Char :=
  match items with
  | [] => []
  | item :: rest =>
    (if first then [] else [',', ' ']) ++ literalChars item ++ literalItems false rest

def literalMembers (first : Bool) (members : List (τ × Json τ)) : List Char :=
  match members with
  | [] => []
  | (name, value) :: rest =>
    (if first then [] else [',', ' ']) ++
      (Text.quoted name).toList ++ [':', ' '] ++ literalChars value ++ literalMembers false rest

end

def literal (value : Json τ) : String := String.ofList (literalChars value)

/-- A value as it stands in running text: a string is itself, all else is quoted. -/
def plain : Json τ → String
  | .str s => TextLike.toString s
  | value => literal value

end Quotes

end SolcDispatch.Json
