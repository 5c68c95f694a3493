import SolcDispatch.Number.Binary64

/-! Decimal texts of floating-point numbers: the fewest digits that read back, and
a fixed number of digits. A layout says where the positional form ends. -/

namespace SolcDispatch.Binary64

/-- The decimal number `digits * 10 ^ exponent`. -/
structure Decimal where
  digits : Nat
  exponent : Int
  deriving DecidableEq

/-- The exponent of the first decimal digit of a positive fraction that is not
below `10 ^ -330`. -/
def leadingExponent (num den : Nat) : Int :=
  (decimalLength (Nat.pow 10 330 * num / den) : Int) - 331

/-- A positive fraction on the grid of multiples of `10 ^ exponent`, as a quotient. -/
def onGrid (num den : Nat) (exponent : Int) : Nat × Nat :=
  if exponent < 0 then (num * Nat.pow 10 (-exponent).toNat, den)
  else (num, den * Nat.pow 10 exponent.toNat)

/-- The decimals with `count` digits next to a positive fraction, the nearer first;
of two equally near ones, the even one. -/
def neighbours (num den count : Nat) : List Decimal :=
  let e := leadingExponent num den + 1 - count
  let (n, d) := onGrid num den e
  let near := roundHalfEven n d
  let floor := n / d
  let far := if near = floor then floor + 1 else floor
  [⟨near, e⟩, ⟨far, e⟩]

/-- The decimal with the fewest digits, from `count` digits on and trying `tries`
lengths, that reads back as the number whose magnitude is the fraction. -/
def shortestFrom (mantissa : Nat) (exponent : Int) (num den : Nat) : (tries count : Nat) → Decimal
  | 0, count => (neighbours num den count).headD ⟨0, 0⟩
  | tries + 1, count =>
    match (neighbours num den count).find?
        fun c => ofDecimal false c.digits c.exponent == .finite false mantissa exponent with
    | some found => found
    | none => shortestFrom mantissa exponent num den tries (count + 1)

/-- The shortest decimal that reads back as `mantissa * 2 ^ exponent`. -/
def shortest (mantissa : Nat) (exponent : Int) : Decimal :=
  if mantissa = 0 then ⟨0, 0⟩
  else
    let (num, den) := ratio mantissa exponent
    shortestFrom mantissa exponent num den 16 1

/-- The decimal with at most `count` digits nearest to `mantissa * 2 ^ exponent`. -/
def nearestWith (count mantissa : Nat) (exponent : Int) : Decimal :=
  if mantissa = 0 then ⟨0, 0⟩
  else
    let (num, den) := ratio mantissa exponent
    (neighbours num den count).headD ⟨0, 0⟩

/-- How a decimal is laid out: the exponents between which it is positional, whether a
whole number keeps a digit after its point, and the least digits of an exponent. -/
structure Layout where
  firstPositional : Int
  firstScientific : Int
  keepPoint : Bool
  exponentDigits : Nat

/-- The digits of a decimal without the zeros at their end, and the exponent of the
first digit. -/
def significand (d : Decimal) : List Char × Int :=
  let ds := Nat.toDigits 10 d.digits
  let kept := (ds.reverse.dropWhile (· == '0')).reverse
  if kept.isEmpty then (['0'], 0) else (kept, (ds.length : Int) - 1 + d.exponent)

/-- The exponent part: a sign and the digits, with zeros in front if they are few. -/
def exponentText (least : Nat) (e : Int) : List Char :=
  let ds := Nat.toDigits 10 e.natAbs
  'e' :: (if e < 0 then '-' else '+') :: (List.replicate (least - ds.length) '0' ++ ds)

def Layout.positional (layout : Layout) (ds : List Char) (e : Int) : List Char :=
  if e < 0 then '0' :: '.' :: (List.replicate (-e - 1).toNat '0' ++ ds)
  else
    let whole := e.toNat + 1
    if ds.length ≤ whole then
      ds ++ List.replicate (whole - ds.length) '0' ++ (if layout.keepPoint then ['.', '0'] else [])
    else ds.take whole ++ '.' :: ds.drop whole

def Layout.scientific (layout : Layout) (ds : List Char) (e : Int) : List Char :=
  match ds with
  | [d] => d :: exponentText layout.exponentDigits e
  | d :: rest => d :: '.' :: (rest ++ exponentText layout.exponentDigits e)
  | [] => []

def Layout.render (layout : Layout) (d : Decimal) : List Char :=
  let (ds, e) := significand d
  if layout.firstPositional ≤ e && e < layout.firstScientific then layout.positional ds e
  else layout.scientific ds e

def signed (negative : Bool) (cs : List Char) : List Char := if negative then '-' :: cs else cs

/-- The shortest text that reads back; a whole number keeps one digit after its
point, and positional form ends at `10 ^ 16`. -/
def shortestLayout : Layout := ⟨-4, 16, true, 2⟩

/-- The shortest text that reads back, as scripts write it: positional form goes from
`10 ^ -6` to `10 ^ 21`. -/
def scriptLayout : Layout := ⟨-6, 21, false, 1⟩

/-- At most six digits; positional form ends at `10 ^ 6`. -/
def briefLayout : Layout := ⟨-4, 6, false, 2⟩

/-- The text of a number with the given digits, layout and names of the two numbers
that are not finite. -/
def textWith (decimal : Nat → Int → Decimal) (layout : Layout) (infinityName nanName : String) :
    Binary64 → String
  | .finite negative mantissa exponent =>
    String.ofList (signed negative (layout.render (decimal mantissa exponent)))
  | .infinity negative => String.ofList (signed negative infinityName.toList)
  | .nan => nanName

def toText : Binary64 → String := textWith shortest shortestLayout "inf" "nan"

/-- The text of a number as scripts write it; zero has no sign. -/
def toScriptText (x : Binary64) : String :=
  if x.isZero then "0" else textWith shortest scriptLayout "Infinity" "NaN" x

/-- The text of a number in at most six significant digits. -/
def toBriefText : Binary64 → String := textWith (nearestWith 6) briefLayout "inf" "nan"

end SolcDispatch.Binary64
