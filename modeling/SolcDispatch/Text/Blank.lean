/-! Blank characters, which end and separate words, and the texts left when
blanks are cut off the two ends. -/

namespace SolcDispatch.Text

/-- A blank is white space of any script, or one of the four information
separators. -/
def isBlank (c : Char) : Bool :=
  let n := c.toNat
  (0x09 ≤ n && n ≤ 0x0D) || (0x1C ≤ n && n ≤ 0x20) || n == 0x85 || n == 0xA0 || n == 0x1680 ||
    (0x2000 ≤ n && n ≤ 0x200A) || n == 0x2028 || n == 0x2029 || n == 0x202F || n == 0x205F ||
    n == 0x3000

/-- The list without its longest last part whose members satisfy `p`. -/
def dropLastWhile (p : Char → Bool) (cs : List Char) : List Char :=
  (cs.reverse.dropWhile p).reverse

def trim (cs : List Char) : List Char :=
  dropLastWhile isBlank (cs.dropWhile isBlank)

def stripSlashes (s : String) : String := String.ofList (dropLastWhile (· == '/') s.toList)

def isAllBlank (s : String) : Bool := s.toList.all isBlank

end SolcDispatch.Text
