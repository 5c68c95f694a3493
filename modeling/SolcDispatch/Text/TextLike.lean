/-! Kinds of text by their code points. Texts of characters hold no halves of surrogate
pairs; wide texts may hold halves that stand alone, as texts of scripts do. -/

namespace SolcDispatch

namespace Text

def isHighSurrogate (n : Nat) : Bool := 0xD800 ≤ n && n ≤ 0xDBFF
def isLowSurrogate (n : Nat) : Bool := 0xDC00 ≤ n && n ≤ 0xDFFF
def isHalf (n : Nat) : Bool := isHighSurrogate n || isLowSurrogate n

/-- The code point that two halves of a surrogate pair make. -/
def surrogatePair (high low : Nat) : Nat := 0x10000 + (high - 0xD800) * 0x400 + (low - 0xDC00)

/-- The character of a code point; half a surrogate pair gives the replacement character. -/
def unitChar (n : Nat) : Char := if isHalf n then '\uFFFD' else Char.ofNat n

/-- Make one of every two neighbours that are the halves of a pair. -/
def joinHalves (read : List Nat) : List Nat → List Nat
  | [] => read.reverse
  | high :: low :: rest =>
    if isHighSurrogate high && isLowSurrogate low then
      joinHalves (surrogatePair high low :: read) rest
    else joinHalves (high :: read) (low :: rest)
  | [unit] => (unit :: read).reverse

/-- Whether numbers are the code points of a text: no two neighbours are the halves of a
pair. -/
def isJoined : List Nat → Bool
  | [] => true
  | code :: rest => code < 0x110000 && !(isHighSurrogate code && rest.head?.any isLowSurrogate) &&
      isJoined rest

end Text

/-- Kinds of text: a text has code points, and of any numbers a text can be made. -/
class TextLike (τ : Type) where
  codes : τ → List Nat
  ofCodes : List Nat → τ
  ofString : String → τ

instance : TextLike String where
  codes s := s.toList.map Char.toNat
  ofCodes codes := String.ofList ((Text.joinHalves [] codes).map Text.unitChar)
  ofString s := s

/-- Texts in which halves of surrogate pairs may stand alone. -/
structure Wide where
  codes : List Nat
  isJoined : Text.isJoined codes
  deriving DecidableEq

namespace Wide

theorem isJoined_characters (cs : List Char) : Text.isJoined (cs.map Char.toNat) := by
  have hvalid (c : Char) : c.toNat < 0x110000 ∧ Text.isHighSurrogate c.toNat = false := by
    have h := c.valid
    simp only [UInt32.isValidChar, Nat.isValidChar] at h
    simp only [Text.isHighSurrogate, Bool.and_eq_false_iff, decide_eq_false_iff_not]
    change c.val.toNat < 0x110000 ∧ (¬ 0xD800 ≤ c.val.toNat ∨ ¬ c.val.toNat ≤ 0xDBFF)
    omega
  induction cs with
  | nil => rfl
  | cons c cs ih =>
    obtain ⟨hlt, hhigh⟩ := hvalid c
    simp only [List.map_cons, Text.isJoined, hlt, hhigh, ih, decide_true, Bool.false_and,
      Bool.not_false, Bool.and_self]

def ofCharacters (cs : List Char) : Wide := ⟨cs.map Char.toNat, isJoined_characters cs⟩

/-- The text of code points and halves; numbers that are neither are replaced. -/
def ofCodes (codes : List Nat) : Wide :=
  let joined := Text.joinHalves [] codes
  if h : Text.isJoined joined then ⟨joined, h⟩ else ofCharacters (joined.map Text.unitChar)

end Wide

instance : TextLike Wide where
  codes := Wide.codes
  ofCodes := Wide.ofCodes
  ofString s := Wide.ofCharacters s.toList

/-- A text of characters; halves that stand alone are replaced. -/
def TextLike.toString {τ : Type} [TextLike τ] (t : τ) : String :=
  String.ofList ((codes t).map Text.unitChar)

end SolcDispatch
