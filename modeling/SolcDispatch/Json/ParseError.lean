/-! Why a text is not JSON, and where reading it stopped. -/

namespace SolcDispatch.Json

inductive Complaint
  | expectingValue
  | extraData
  | expectingName
  | expectingColon
  | expectingComma
  | unterminatedString
  | controlCharacter
  | unknownEscape
  | badCodeEscape
  | byteOrderMark
  deriving DecidableEq, Repr

def Complaint.text : Complaint → String
  | .expectingValue => "Expecting value"
  | .extraData => "Extra data"
  | .expectingName => "Expecting property name enclosed in double quotes"
  | .expectingColon => "Expecting ':' delimiter"
  | .expectingComma => "Expecting ',' delimiter"
  | .unterminatedString => "Unterminated string starting at"
  | .controlCharacter => "Invalid control character at"
  | .unknownEscape => "Invalid \\escape"
  | .badCodeEscape => "Invalid \\uXXXX escape"
  | .byteOrderMark => "Unexpected UTF-8 BOM (decode using utf-8-sig)"

/-- A complaint about a place in the text, or a whole number of too many digits. -/
inductive ParseError
  | malformed (complaint : Complaint) (line column offset : Nat)
  | longInteger (digits : Nat)
  deriving DecidableEq, Repr

def maxDigits : Nat := 4300

def longIntegerMessage (digits : Nat) : String :=
  s!"Exceeds the limit ({maxDigits} digits) for integer string conversion: value has {digits} digits; use sys.set_int_max_str_digits() to increase the limit"

def ParseError.message : ParseError → String
  | .malformed complaint line column offset =>
    s!"{complaint.text}: line {line} column {column} (char {offset})"
  | .longInteger digits => longIntegerMessage digits

end SolcDispatch.Json
