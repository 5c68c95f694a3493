import SolcDispatch.Assoc
import SolcDispatch.Number.Binary64
import SolcDispatch.Text.TextLike

/-! JSON values. Whole numbers have any size and differ from numbers with a
fractional part or an exponent; the members of an object keep their order. -/

namespace SolcDispatch

inductive Json (τ : Type := String)
  | null
  | bool (value : Bool)
  | int (value : Int)
  | float (value : Binary64)
  | str (value : τ)
  | arr (items : List (Json τ))
  | obj (members : List (τ × Json τ))
  deriving Inhabited, Repr

namespace Json

abbrev Members (τ : Type := String) := List (τ × Json τ)

variable {τ : Type}

/-- The value of a member of an object; any other value has no members. -/
def get? [DecidableEq τ] : Json τ → τ → Option (Json τ)
  | .obj members, name => Assoc.get? members name
  | _, _ => none

/-- The value of a member, where a missing one counts as null. -/
def getD [DecidableEq τ] (value : Json τ) (name : τ) : Json τ := (value.get? name).getD .null

/-- Whether a value counts as true: all but null, false, the zeros and whatever is
empty. -/
def truthy [TextLike τ] : Json τ → Bool
  | .null => false
  | .bool b => b
  | .int n => n != 0
  | .float x => !x.isZero
  | .str s => !(TextLike.codes s).isEmpty
  | .arr items => !items.isEmpty
  | .obj members => !members.isEmpty

def isNull : Json τ → Bool
  | .null => true
  | _ => false

def isObject : Json τ → Bool
  | .obj _ => true
  | _ => false

def isArray : Json τ → Bool
  | .arr _ => true
  | _ => false

def ofNat (n : Nat) : Json τ := .int n

/-- A value, or null where there is none. -/
def ofOption {α : Type} (encode : α → Json τ) : Option α → Json τ
  | some a => encode a
  | none => .null

/-- Whether a value is the given number; the truth values are one and zero. -/
def isNumber (value : Json τ) (n : Nat) : Bool :=
  match value with
  | .bool b => (if b then 1 else 0) == n
  | .int i => i == n
  | .float x => x.toInt? == some (n : Int)
  | _ => false

end Json

end SolcDispatch
