import SolcDispatch.Text.TextLike
import SolcDispatch.Text.Utf8

/-! Texts as bytes in units of two or four. Half a surrogate pair that stands
alone reads as the replacement character. -/

namespace SolcDispatch.Text

inductive ByteOrder
  | big
  | little
  deriving DecidableEq

/-- The number that two bytes write in the given order. -/
def ByteOrder.pair (order : ByteOrder) (a b : UInt8) : Nat :=
  match order with
  | .big => a.toNat * 256 + b.toNat
  | .little => b.toNat * 256 + a.toNat

def ByteOrder.quad (order : ByteOrder) (a b c d : UInt8) : Nat :=
  match order with
  | .big => order.pair a b * 65536 + order.pair c d
  | .little => order.pair c d * 65536 + order.pair a b

/-- The units of two bytes, if no byte is left over. -/
def units16? (order : ByteOrder) (units : List Nat) : Bytes → Option (List Nat)
  | [] => some units.reverse
  | a :: b :: rest => units16? order (order.pair a b :: units) rest
  | _ => none

def decodeUtf16? (order : ByteOrder) (bytes : Bytes) : Option String :=
  (units16? order [] bytes).map TextLike.ofCodes

/-- The characters of four bytes each, if no byte is left over and every number
is a code point. -/
def chars32? (order : ByteOrder) (read : List Char) : Bytes → Option (List Char)
  | [] => some read.reverse
  | a :: b :: c :: d :: rest =>
    let n := order.quad a b c d
    if n < 0x110000 then chars32? order (unitChar n :: read) rest else none
  | _ => none

def decodeUtf32? (order : ByteOrder) (bytes : Bytes) : Option String :=
  (chars32? order [] bytes).map String.ofList

end SolcDispatch.Text
