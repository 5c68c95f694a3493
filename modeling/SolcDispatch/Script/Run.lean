import SolcDispatch.Script.Reader
import SolcDispatch.Script.Value

/-! Running scripts. Values do not change once they are made; the module's exports are
the only place that is written to. -/

namespace SolcDispatch.Script

/-- What a script has printed for diagnosis, and what its module exports. -/
structure State where
  printed : List Char := []
  exports : Value := .object []

abbrev Run := ExceptT Value (StateM State)

abbrev Scope := List (String × Value)

inductive Completion
  | next (scope : Scope)
  | returned (value : Value)

def typeError (message : Wide) : Value := .error "TypeError" message

def globals : Scope :=
  [("undefined", .undefined),
    ("console", .object (["log", "info", "error", "warn", "debug"].map fun (n : String) =>
      (n, .builtin "print"))),
    ("JSON", .object [("stringify", .builtin "stringify"), ("parse", .builtin "parse")]),
    ("Array", .builtin "Array"), ("Object", .builtin "Object"), ("String", .builtin "String"),
    ("Boolean", .builtin "Boolean"), ("Error", .builtin "Error"),
    ("TypeError", .builtin "TypeError"), ("RangeError", .builtin "RangeError")]

def same : Value → Value → Bool
  | .undefined, .undefined | .null, .null => true
  | .bool a, .bool b => a == b
  | .number a, .number b => a != .nan && (a == b || (a.isZero && b.isZero))
  | .text a, .text b => a == b
  | _, _ => false

def typeName : Value → String
  | .undefined => "undefined"
  | .bool _ => "boolean"
  | .number _ => "number"
  | .text _ => "string"
  | .closure .. | .builtin _ | .boundCall _ => "function"
  | _ => "object"

def isNothing : Value → Bool
  | .undefined | .null => true
  | _ => false

def sum (a b : Value) : Value :=
  match a, b with
  | .number x, .number y =>
    match x.toInt?, y.toInt? with
    | some m, some n => .number (.ofInt (m + n))
    | _, _ => .number .nan
  | a, b => .text (a.toText ++ b.toText)

def operate (operator : String) (a b : Value) : Value :=
  let both := fun (test : Int → Int → Bool) =>
    match a, b with
    | .number x, .number y => match x.toInt?, y.toInt? with
      | some m, some n => .bool (test m n)
      | _, _ => .bool false
    | _, _ => .bool false
  match operator with
  | "===" => .bool (same a b)
  | "!==" => .bool !(same a b)
  | "==" => .bool (same a b || (isNothing a && isNothing b))
  | "!=" => .bool !(same a b || (isNothing a && isNothing b))
  | "+" => sum a b
  | "<" => both (· < ·)
  | ">" => both (· > ·)
  | "<=" => both (· ≤ ·)
  | ">=" => both (· ≥ ·)
  | _ => .number .nan

def memberOf (value : Value) (name : Wide) : Value :=
  match value with
  | .object members => (Assoc.get? members name).getD .undefined
  | .array items =>
    if name = "length" then .number (.ofInt items.length)
    else if name = "slice" then .builtin "slice"
    else if name = "join" then .builtin "join"
    else (Value.index? name).elim .undefined fun n => (items[n]?).getD .undefined
  | .text s =>
    if name = "length" then .number (.ofInt s.unitCount) else .undefined
  | .error kind message =>
    if name = "message" then .text message
    else if name = "name" then .text kind
    else if name = "stack" then .text (Value.error kind message).toText
    else .undefined
  | .builtin "Array" => if name = "prototype" then .array [] else .undefined
  | .closure .. | .builtin _ => if name = "call" then .boundCall value else .undefined
  | _ => .undefined

/-- Whether a value has a member, where the question can be asked. -/
def hasMember? (value : Value) (name : Wide) : Option Bool :=
  match value with
  | .object members => some (Assoc.hasKey members name)
  | .array items => some ((Value.index? name).any (· < items.length))
  | .error .. => some (["message", "name", "stack"].any (name = ↑·))
  | .closure .. | .builtin _ | .boundCall _ => some (["call", "name", "length"].any (name = ↑·))
  | _ => none

def applyBuiltin (name : String) (self : Value) (arguments : List Value) : Run Value := do
  let first := arguments.headD .undefined
  match name with
  | "print" =>
    let line := Wide.join " " (arguments.map Value.toText)
    modify fun s => { s with printed := s.printed ++ (TextLike.toString line).toList ++ ['\n'] }
    return .undefined
  | "stringify" =>
    return (first.toJson?).elim .undefined fun json => .text (Json.print Json.script json)
  | "parse" =>
    match readJson? first.toText with
    | some value => return value
    | none => throw (.error "SyntaxError" "Unexpected token in JSON")
  | "slice" =>
    match self, first with
    | .array items, .number x => return .array (items.drop ((x.toInt?.getD 0).toNat))
    | .array items, _ => return .array items
    | _, _ => return .array []
  | "join" =>
    match self with
    | .array items =>
      let separator : Wide := if isNothing first then "," else first.toText
      return .text (separator.join (Value.itemTexts items))
    | _ => return .text ""
  | "String" => return .text (if arguments.isEmpty then "" else first.toText)
  | "Boolean" => return .bool first.isTrue
  | "Object" => return if isNothing first then .object [] else first
  | "Array" => return .array arguments
  | kind => return .error kind (if isNothing first then "" else first.toText)

/-- The source form of a callee as it is named in a complaint. -/
def nameOf : Expression → Wide
  | .name n => n
  | .member target (.literal (.text n)) => nameOf target ++ "." ++ n
  | _ => "(intermediate value)"

def unreadable (value : Value) (name : Wide) : Value :=
  typeError ("Cannot read properties of " ++ value.toText ++ " (reading '" ++ name ++ "')")

def unsearchable (name value : Value) : Value :=
  typeError ("Cannot use 'in' operator to search for '" ++ name.toText ++ "' in " ++ value.toText)

def tooDeep : Value := .error "RangeError" "Maximum call stack size exceeded"

mutual

def evaluate (fuel : Nat) (scope : Scope) (e : Expression) : Run Value :=
  match fuel with
  | 0 => throw tooDeep
  | fuel + 1 =>
    match e with
    | .literal .null => return .null
    | .literal (.bool b) => return .bool b
    | .literal (.number x) => return .number x
    | .literal (.text s) => return .text s
    | .name n =>
      match Assoc.get? scope n with
      | some value => return value
      | none =>
        if n = "module" then return .object [("exports", (← get).exports)]
        else if n = "exports" then return (← get).exports
        else throw (.error "ReferenceError" s!"{n} is not defined")
    | .object members => do
      return .object (Value.inOrder (Assoc.ofPairs (← evaluateMembers fuel scope members)))
    | .array items => return .array (← evaluateAll fuel scope items)
    | .function own parameters body => return .closure own false parameters body scope
    | .arrow parameters body => return .closure "" true parameters body scope
    | .member target key => do
      let value ← evaluate fuel scope target
      let name := (← evaluate fuel scope key).toText
      if isNothing value then
        throw (unreadable value name)
      return memberOf value name
    | .call (.member target key) arguments => do
      let self ← evaluate fuel scope target
      let name := (← evaluate fuel scope key).toText
      if isNothing self then
        throw (unreadable self name)
      let arguments ← evaluateAll fuel scope arguments
      let function := memberOf self name
      if !function.isFunction then
        throw (typeError (nameOf (.member target key) ++ " is not a function"))
      apply fuel function self arguments
    | .call callee arguments => do
      let function ← evaluate fuel scope callee
      let arguments ← evaluateAll fuel scope arguments
      if !function.isFunction then throw (typeError (nameOf callee ++ " is not a function"))
      apply fuel function .undefined arguments
    | .construct callee arguments => do
      let function ← evaluate fuel scope callee
      let arguments ← evaluateAll fuel scope arguments
      if !function.isFunction then throw (typeError (nameOf callee ++ " is not a constructor"))
      apply fuel function (.object []) arguments
    | .unary "typeof" operand => do return .text (typeName (← evaluate fuel scope operand))
    | .unary "!" operand => do return .bool !(← evaluate fuel scope operand).isTrue
    | .unary "-" operand => do
      match ← evaluate fuel scope operand with
      | .number (.finite negative m x) => return .number (.finite (!negative) m x)
      | .number (.infinity negative) => return .number (.infinity (!negative))
      | _ => return .number .nan
    | .unary _ operand => do
      let _ ← evaluate fuel scope operand
      return .undefined
    | .binary operator left right => do
      let a ← evaluate fuel scope left
      match operator with
      | "&&" => if a.isTrue then evaluate fuel scope right else return a
      | "||" => if a.isTrue then return a else evaluate fuel scope right
      | "??" => if isNothing a then evaluate fuel scope right else return a
      | "in" =>
        let b ← evaluate fuel scope right
        match hasMember? b a.toText with
        | some found => return .bool found
        | none => throw (unsearchable a b)
      | operator => return operate operator a (← evaluate fuel scope right)
    | .conditional condition yes no => do
      if (← evaluate fuel scope condition).isTrue then evaluate fuel scope yes
      else evaluate fuel scope no
    | .assign target value => do
      let value ← evaluate fuel scope value
      match target with
      | .member (.name "module") (.literal (.text "exports")) =>
        modify fun s => { s with exports := value }
        return value
      | .member (.name "exports") (.literal (.text name))
      | .member (.member (.name "module") (.literal (.text "exports"))) (.literal (.text name)) =>
        modify fun s => match s.exports with
          | .object members => { s with exports := .object (Value.inOrder (Assoc.put members name value)) }
          | _ => s
        return value
      | _ => throw (typeError "Assignment to constant variable.")
termination_by structural fuel

def evaluateAll (fuel : Nat) (scope : Scope) (es : List Expression) : Run (List Value) :=
  match fuel with
  | 0 => throw tooDeep
  | fuel + 1 =>
    match es with
    | [] => return []
    | e :: rest => do
      let value ← evaluate fuel scope e
      return value :: (← evaluateAll fuel scope rest)
termination_by structural fuel

def evaluateMembers (fuel : Nat) (scope : Scope) (members : List (Wide × Expression)) :
    Run (List (Wide × Value)) :=
  match fuel with
  | 0 => throw tooDeep
  | fuel + 1 =>
    match members with
    | [] => return []
    | (name, e) :: rest => do
      let value ← evaluate fuel scope e
      return (name, value) :: (← evaluateMembers fuel scope rest)
termination_by structural fuel

def apply (fuel : Nat) (function self : Value) (arguments : List Value) : Run Value :=
  match fuel with
  | 0 => throw tooDeep
  | fuel + 1 =>
    match function with
    | .builtin name => applyBuiltin name self arguments
    | .boundCall inner => apply fuel inner (arguments.headD .undefined) arguments.tail
    | .closure own isArrow parameters body scope => do
      let given := parameters.zipIdx.map fun (name, n) => (name, (arguments[n]?).getD .undefined)
      let implicit := if isArrow then [] else [("arguments", .array arguments), ("this", self)]
      let named := if own = "" then [] else [(own, function)]
      match ← runAll fuel (given ++ implicit ++ named ++ scope) body with
      | .returned value => return value
      | .next _ => return .undefined
    | _ => throw (typeError "value is not a function")
termination_by structural fuel

def runStatement (fuel : Nat) (scope : Scope) (statement : Statement) : Run Completion :=
  match fuel with
  | 0 => throw tooDeep
  | fuel + 1 =>
    match statement with
    | .expression e => do
      let _ ← evaluate fuel scope e
      return .next scope
    | .result e => return .returned (← evaluate fuel scope e)
    | .throw e => do throw (← evaluate fuel scope e)
    | .choice condition yes no => do
      let body := if (← evaluate fuel scope condition).isTrue then yes else no
      match ← runAll fuel scope body with
      | .returned value => return .returned value
      | .next _ => return .next scope
    | .declare name value => do return .next ((name, ← evaluate fuel scope value) :: scope)
    | .block body => do
      match ← runAll fuel scope body with
      | .returned value => return .returned value
      | .next _ => return .next scope
termination_by structural fuel

def runAll (fuel : Nat) (scope : Scope) (body : List Statement) : Run Completion :=
  match fuel with
  | 0 => throw tooDeep
  | fuel + 1 =>
    match body with
    | [] => return .next scope
    | statement :: rest => do
      match ← runStatement fuel scope statement with
      | .returned value => return .returned value
      | .next scope => runAll fuel scope rest
termination_by structural fuel

end

def maxDepth : Nat := 100000

def noPrimitive : Value := typeError "Cannot convert object to primitive value"

def isPrimitive : Value → Bool
  | .undefined | .null | .bool _ | .number _ | .text _ => true
  | _ => false

/-- The text that an object's own function makes of it, if it has one and it makes some. -/
def ownText? (members : List (Wide × Value)) (name : Wide) : Run (Option Wide) := do
  let function := (Assoc.get? members name).getD .undefined
  if !function.isFunction then return none
  let made ← apply maxDepth function (.object members) []
  return if isPrimitive made then some made.toText else none

/-- The text of an object. One that has a member in the place of what makes its text is left
to its own functions. -/
def objectText (members : List (Wide × Value)) : Run Wide := do
  if !Assoc.hasKey members "toString" then return "[object Object]"
  match ← ownText? members "toString" with
  | some text => return text
  | none =>
    match ← ownText? members "valueOf" with
    | some text => return text
    | none => throw noPrimitive

mutual

def textOf : Value → Run Wide
  | .object members => objectText members
  | .array items => do return Wide.join "," (← textsOf items)
  | value => return value.toText

def textsOf : List Value → Run (List Wide)
  | [] => return []
  | .undefined :: rest | .null :: rest => do return "" :: (← textsOf rest)
  | item :: rest => do return (← textOf item) :: (← textsOf rest)

end

/-- What is told of a thrown value: the text of its member of the given name, or its own text
if that member says nothing. -/
def told (member : Wide) (thrown : Value) : Run Wide :=
  let said := memberOf thrown member
  textOf (if said.isTrue then said else thrown)

/-- Run a script as a module: its exports, or what it throws. -/
def load (source : String) : Run Value := do
  match read? source with
  | none => throw (.error "SyntaxError" "Invalid or unexpected token")
  | some statements =>
    let _ ← runAll maxDepth globals statements
    return (← get).exports

def applyFunction (function : Value) (arguments : List Value) : Run Value :=
  apply maxDepth function .undefined arguments

end SolcDispatch.Script
