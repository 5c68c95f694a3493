/-! Texts as bytes. Reading takes one byte at a time and knows how many bytes the
character at hand still needs and which values its next byte may have. A byte
that does not fit ends the character at hand as a fault and is then read anew, so
each longest part of a broken character is one fault. -/

namespace SolcDispatch.Text

abbrev Bytes := List UInt8

def utf8 (s : String) : Bytes := s.toList.flatMap String.utf8EncodeChar

/-- A reader in the middle of a byte sequence: what is read so far, last first with
`none` for a fault, and the character at hand, which is absent if `needed = 0`. -/
structure Utf8Reader where
  read : List (Option Char) := []
  needed : Nat := 0
  low : Nat := 0x80
  high : Nat := 0xBF
  code : Nat := 0

namespace Utf8Reader

def start (read : List (Option Char)) (b : Nat) : Utf8Reader :=
  if b < 0x80 then { read := some (Char.ofNat b) :: read }
  else if 0xC2 ≤ b && b ≤ 0xDF then { read, needed := 1, code := b - 0xC0 }
  else if b == 0xE0 then { read, needed := 2, low := 0xA0, code := 0 }
  else if b == 0xED then { read, needed := 2, high := 0x9F, code := 0xD }
  else if 0xE1 ≤ b && b ≤ 0xEF then { read, needed := 2, code := b - 0xE0 }
  else if b == 0xF0 then { read, needed := 3, low := 0x90, code := 0 }
  else if b == 0xF4 then { read, needed := 3, high := 0x8F, code := 4 }
  else if 0xF1 ≤ b && b ≤ 0xF3 then { read, needed := 3, code := b - 0xF0 }
  else { read := none :: read }

def step (r : Utf8Reader) (byte : UInt8) : Utf8Reader :=
  let b := byte.toNat
  match r.needed with
  | 0 => start r.read b
  | needed + 1 =>
    if r.low ≤ b && b ≤ r.high then
      let code := r.code * 64 + (b - 0x80)
      if needed == 0 then { read := some (Char.ofNat code) :: r.read }
      else { read := r.read, needed, code }
    else start (none :: r.read) b

/-- Everything read, in order, with a fault for a character that is cut off. -/
def finish (r : Utf8Reader) : List (Option Char) :=
  (if r.needed == 0 then r.read else none :: r.read).reverse

end Utf8Reader

def readUtf8 (bytes : Bytes) : List (Option Char) :=
  (bytes.foldl Utf8Reader.step {}).finish

/-- Read bytes as text; a fault becomes the replacement character. -/
def decodeUtf8 (bytes : Bytes) : String :=
  String.ofList ((readUtf8 bytes).map (·.getD '\uFFFD'))

/-- Read bytes as text, if they hold no fault. -/
def decodeUtf8? (bytes : Bytes) : Option String :=
  let read := readUtf8 bytes
  if read.all Option.isSome then some (String.ofList (read.filterMap id)) else none

/-- Bytes in which half of a surrogate pair, written like any other character, has become the
replacement character. -/
def replaceHalves : Bytes → Bytes
  | byte :: second :: third :: rest =>
    if byte == 0xED && 0xA0 ≤ second && second ≤ 0xBF && 0x80 ≤ third && third ≤ 0xBF then
      0xEF :: 0xBF :: 0xBD :: replaceHalves rest
    else byte :: replaceHalves (second :: third :: rest)
  | bytes => bytes

/-- Read every byte as the character of its number. -/
def decodeLatin1 (bytes : Bytes) : String :=
  String.ofList (bytes.map fun b => Char.ofNat b.toNat)

end SolcDispatch.Text
