import SolcDispatch.Json.Parser
import SolcDispatch.Text.Quoted
import SolcDispatch.Text.Utf8

/-! Addresses of pages: the part that names the host, the path on it and a query. -/

namespace SolcDispatch.Address

/-- The text before and after the first place where another one stands. -/
def splitAt? (mark : List Char) (before : List Char) : List Char → Option (List Char × List Char)
  | [] => if mark.isEmpty then some (before.reverse, []) else none
  | c :: rest =>
    if mark.isPrefixOf (c :: rest) then some (before.reverse, (c :: rest).drop mark.length)
    else splitAt? mark (c :: before) rest

def isPathEnd (c : Char) : Bool := c == '?' || c == '#'
def isHostEnd (c : Char) : Bool := c == '/' || isPathEnd c

/-- Scheme and host of an address, and all that follows. -/
def splitHost (url : List Char) : List Char × List Char :=
  match splitAt? "://".toList [] url with
  | some (scheme, rest) =>
    (scheme ++ "://".toList ++ rest.takeWhile (!isHostEnd ·), rest.dropWhile (!isHostEnd ·))
  | none => ([], url)

def segments (part : List Char) : List Char → List (List Char)
  | [] => [part.reverse]
  | c :: rest => if c == '/' then part.reverse :: segments [] rest else segments (c :: part) rest

/-- Take out segments of one dot, and of two dots with the segment before them. -/
def withoutDots (kept : List (List Char)) : List (List Char) → List (List Char)
  | [] => kept.reverse
  | [segment] =>
    if segment == ['.'] then ([] :: kept).reverse
    else if segment == ['.', '.'] then ([] :: kept.tail).reverse
    else (segment :: kept).reverse
  | segment :: rest =>
    if segment == ['.'] then withoutDots kept rest
    else if segment == ['.', '.'] then withoutDots kept.tail rest
    else withoutDots (segment :: kept) rest

/-- A path that begins with a slash, without dot segments. -/
def normalPath (path : List Char) : List Char :=
  '/' :: ['/'].intercalate (withoutDots [] (segments [] (path.drop 1)))

/-- Bytes that stand as a percent sign and two hexadecimal digits. -/
def decodePercent (read : Text.Bytes) : List Char → Text.Bytes
  | [] => read.reverse
  | '%' :: a :: b :: rest =>
    match Json.hexValue? a, Json.hexValue? b with
    | some high, some low => decodePercent (UInt8.ofNat (16 * high + low) :: read) rest
    | _, _ => decodePercent (0x25 :: read) (a :: b :: rest)
  | c :: rest => decodePercent ((String.utf8EncodeChar c).reverse ++ read) rest

def path (url : String) : String :=
  let rest := (splitHost url.toList).2.takeWhile (!isPathEnd ·)
  Text.decodeUtf8 (decodePercent [] (normalPath rest))

def isAbsolute (reference : List Char) : Bool :=
  match splitAt? "://".toList [] reference with
  | some (scheme, _) => !scheme.isEmpty && scheme.all Char.isAlphanum
  | none => false

/-- The address that a reference on a page leads to. -/
def resolve (url reference : String) : String :=
  let (host, rest) := splitHost url.toList
  let target := reference.toList
  if isAbsolute target then reference
  else match target with
    | '/' :: '/' :: _ => String.ofList (host.takeWhile (· != ':') ++ ':' :: target)
    | '/' :: _ => String.ofList (host ++ target)
    | [] => url
    | _ =>
      let here := rest.takeWhile (!isPathEnd ·)
      let directory := (here.reverse.dropWhile (· != '/')).reverse
      String.ofList (host ++ (if directory.isEmpty then ['/'] else directory) ++ target)

/-- A byte as a percent sign and two hexadecimal digits. -/
def encodeByte (b : UInt8) : List Char := '%' :: (Text.hexDigits 2 b.toNat).map Char.toUpper

/-- Whether a character of a query stands for itself. -/
def isQueryChar (c : Char) : Bool := c.isAlphanum || "_.-~:/#?=@[]!$&'()*+,;".toList.contains c

/-- A query in which all other characters stand as their bytes. -/
def encodeQuery : List Char → List Char
  | [] => []
  | c :: rest =>
    let isEncoded := c == '%' && rest.length ≥ 2 &&
      (rest.take 2).all fun d => (Json.hexValue? d).isSome
    if isEncoded || isQueryChar c then c :: encodeQuery rest
    else (String.utf8EncodeChar c).flatMap encodeByte ++ encodeQuery rest

/-- The path and the query that a reference leads to, whether it names a host or not. -/
def target (reference : String) : String × String :=
  let cs := reference.toList.takeWhile (· != '#')
  let rest := match cs with
    | '/' :: '/' :: rest => rest.dropWhile (!isHostEnd ·)
    | cs => (splitHost cs).2
  let path := rest.takeWhile (· != '?')
  let path := if isAbsolute cs then path else '/' :: path.dropWhile (· == '/')
  (Text.decodeUtf8 (decodePercent [] (normalPath path)),
    String.ofList (encodeQuery ((rest.dropWhile (· != '?')).drop 1)))

end SolcDispatch.Address
