import SolcDispatch.Json.Parser
import SolcDispatch.Json.Printer
import SolcDispatch.Script.Syntax

/-! Values of scripts, their texts, and their exchange with JSON. -/

namespace SolcDispatch.Script

inductive Value
  | undefined
  | null
  | bool (value : Bool)
  | number (value : Binary64)
  | text (value : Wide)
  | array (items : List Value)
  | object (members : List (Wide × Value))
  | error (kind : String) (message : Wide)
  | closure (own : String) (isArrow : Bool) (parameters : List String) (body : List Statement)
      (scope : List (String × Value))
  | builtin (name : String)
  | boundCall (function : Value)

namespace Value

def isTrue : Value → Bool
  | .undefined | .null => false
  | .bool b => b
  | .number x => !x.isZero && x != .nan
  | .text s => s != ""
  | _ => true

def isFunction : Value → Bool
  | .closure .. | .builtin _ | .boundCall _ => true
  | _ => false

mutual

def toText : Value → Wide
  | .undefined => "undefined"
  | .null => "null"
  | .bool b => if b then "true" else "false"
  | .number x => x.toScriptText
  | .text s => s
  | .array items => Wide.join "," (itemTexts items)
  | .object _ => "[object Object]"
  | .error kind message => if message = "" then kind else kind ++ ": " ++ message
  | .closure .. | .builtin _ | .boundCall _ => "function"

def itemTexts : List Value → List Wide
  | [] => []
  | .undefined :: rest => "" :: itemTexts rest
  | .null :: rest => "" :: itemTexts rest
  | item :: rest => toText item :: itemTexts rest

end

/-- The name of an array's place, if a member's name is one. -/
def index? (name : Wide) : Option Nat :=
  let n := Nat.ofDigitChars 10 (name.codes.map Text.unitChar) 0
  if toString n = name && n < 4294967295 then some n else none

/-- Members in the order in which scripts list them: places first, by number. -/
def inOrder {α : Type} (members : List (Wide × α)) : List (Wide × α) :=
  let places := members.filterMap fun m => (index? m.1).map fun n => (n, m)
  (places.mergeSort fun a b => a.1 ≤ b.1).map Prod.snd ++
    members.filter fun m => (index? m.1).isNone

mutual

def ofJson : Json Wide → Value
  | .null => .null
  | .bool b => .bool b
  | .int n => .number (.ofInt n)
  | .float x => .number x
  | .str s => .text s
  | .arr items => .array (ofItems items)
  | .obj members => .object (inOrder (ofMembers members))

def ofItems : List (Json Wide) → List Value
  | [] => []
  | item :: rest => ofJson item :: ofItems rest

def ofMembers : Json.Members Wide → List (Wide × Value)
  | [] => []
  | (name, value) :: rest => (name, ofJson value) :: ofMembers rest

end

mutual

/-- A value as JSON; functions and what is undefined have none. -/
def toJson? : Value → Option (Json Wide)
  | .undefined | .closure .. | .builtin _ | .boundCall _ => none
  | .null => some .null
  | .bool b => some (.bool b)
  | .number x => some (.float x)
  | .text s => some (.str s)
  | .array items => some (.arr (toItems items))
  | .object members => some (.obj (toMembers members))
  | .error .. => some (.obj [])

def toItems : List Value → List (Json Wide)
  | [] => []
  | item :: rest => (toJson? item).getD .null :: toItems rest

def toMembers : List (Wide × Value) → Json.Members Wide
  | [] => []
  | (name, value) :: rest =>
    match toJson? value with
    | some json => (name, json) :: toMembers rest
    | none => toMembers rest

end

mutual

/-- The text of a value that holds no functions, where it has one: an object's own member
takes the place of what would make its text. -/
def plainText? : Value → Option Wide
  | .object members =>
    if Assoc.hasKey members "toString" then none else some "[object Object]"
  | .array items => (plainTexts? items).map (Wide.join ",")
  | value => some value.toText

def plainTexts? : List Value → Option (List Wide)
  | [] => some []
  | .undefined :: rest | .null :: rest => (plainTexts? rest).map ("" :: ·)
  | item :: rest => do return (← plainText? item) :: (← plainTexts? rest)

end

end Value

/-- The characters of a text that is to be read as JSON: half a surrogate pair is spelt by its
escape, but where it would itself be escaped, which JSON knows nothing of. -/
def spelt (escaped : Bool) : List Nat → List Char
  | [] => []
  | n :: rest =>
    if Text.isHalf n && !escaped then Json.codeEscape n ++ spelt false rest
    else Text.unitChar n :: spelt (Text.unitChar n == '\\' && !escaped) rest

/-- The value of a text that is JSON to a script, which has no names for numbers that
are not finite and takes numbers of any length. -/
def readJson? (text : Wide) : Option Value :=
  match Json.parseWith Json.strict (spelt false text.codes) with
  | .ok json => some (Value.ofJson json)
  | .error _ => none

end SolcDispatch.Script
