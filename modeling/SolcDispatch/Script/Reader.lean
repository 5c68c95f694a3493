import SolcDispatch.Number.Decimal
import SolcDispatch.Script.Token

/-! Reading scripts. A step takes the tokens that are left; the fuel bounds the
steps. -/

namespace SolcDispatch.Script

/-- What is read, and the tokens left; nothing if the script is not well formed. -/
abbrev Reading (α : Type) := Option (α × List Token)

def isSign (sign : String) : List Token → Bool
  | ⟨_, .sign s⟩ :: _ => s == sign
  | _ => false

def isWord (word : String) : List Token → Bool
  | ⟨_, .word w⟩ :: _ => w == word
  | _ => false

/-- The tokens after a sign that has to stand here. -/
def expect (sign : String) (ts : List Token) : Option (List Token) :=
  if isSign sign ts then some ts.tail else none

def keywords : List String :=
  ["function", "return", "throw", "if", "else", "var", "let", "const", "new", "typeof", "null",
    "true", "false", "in", "while", "for", "do", "try", "catch", "switch", "case", "class", "void"]

/-- How tightly an operator between two operands binds. -/
def precedence? : List Token → Option (Nat × String)
  | ⟨_, .sign s⟩ :: _ =>
    match s with
    | "||" | "??" => some (1, s)
    | "&&" => some (2, s)
    | "===" | "!==" | "==" | "!=" => some (3, s)
    | "<" | ">" | "<=" | ">=" => some (4, s)
    | "+" | "-" => some (5, s)
    | "*" | "/" | "%" => some (6, s)
    | _ => none
  | ⟨_, .word "in"⟩ :: _ => some (4, "in")
  | _ => none

/-- The names between parentheses, separated by commas. -/
def parameters? (fuel : Nat) (names : List String) (ts : List Token) : Reading (List String) :=
  match fuel with
  | 0 => none
  | fuel + 1 =>
    match ts with
    | ⟨_, .sign ")"⟩ :: rest => some (names.reverse, rest)
    | ⟨_, .word name⟩ :: ⟨_, .sign ","⟩ :: rest => parameters? fuel (name :: names) rest
    | ⟨_, .word name⟩ :: ⟨_, .sign ")"⟩ :: rest => some ((name :: names).reverse, rest)
    | _ => none

/-- The parameters of an arrow function that begins here, and the tokens after the
arrow. -/
def arrowHead? : List Token → Reading (List String)
  | ⟨_, .word name⟩ :: ⟨_, .sign "=>"⟩ :: rest =>
    if keywords.contains name then none else some ([name], rest)
  | ⟨_, .sign "("⟩ :: rest =>
    match parameters? (rest.length + 1) [] rest with
    | some (names, ⟨_, .sign "=>"⟩ :: rest) => some (names, rest)
    | _ => none
  | _ => none

/-- The name of a member before its colon, parenthesis or comma. -/
def memberName? : List Token → Reading Wide
  | ⟨_, .word name⟩ :: rest => some (name, rest)
  | ⟨_, .text name⟩ :: rest => some (name, rest)
  | ⟨_, .number x⟩ :: rest => some (x.toScriptText, rest)
  | _ => none

/-- Take the semicolon at the end of a statement, or the line break or brace in its
place. -/
def readEnd (statement : Statement) (ts : List Token) : Reading Statement :=
  match ts with
  | [] => some (statement, [])
  | ⟨_, .sign ";"⟩ :: rest => some (statement, rest)
  | ⟨_, .sign "\x7d"⟩ :: _ => some (statement, ts)
  | t :: _ => if t.afterBreak then some (statement, ts) else none

mutual

def readExpression (fuel : Nat) (ts : List Token) : Reading Expression :=
  match fuel with
  | 0 => none
  | fuel + 1 =>
    match arrowHead? ts with
    | some (names, rest) =>
      if isSign "\x7b" rest then
        match readBlock fuel [] rest.tail with
        | some (body, rest) => some (.arrow names body, rest)
        | none => none
      else match readExpression fuel rest with
        | some (e, rest) => some (.arrow names [.result e], rest)
        | none => none
    | none =>
      match readUnary fuel ts with
      | none => none
      | some (first, rest) =>
        match readBinary fuel 0 first rest with
        | none => none
        | some (e, rest) =>
          if isSign "?" rest then
            match readExpression fuel rest.tail with
            | some (yes, rest) =>
              match expect ":" rest with
              | some rest => match readExpression fuel rest with
                | some (no, rest) => some (.conditional e yes no, rest)
                | none => none
              | none => none
            | none => none
          else if isSign "=" rest then
            match readExpression fuel rest.tail with
            | some (value, rest) => some (.assign e value, rest)
            | none => none
          else some (e, rest)
termination_by structural fuel

/-- Operators that bind more tightly than the given bound, and their operands. -/
def readBinary (fuel bound : Nat) (left : Expression) (ts : List Token) : Reading Expression :=
  match fuel with
  | 0 => none
  | fuel + 1 =>
    match precedence? ts with
    | some (power, operator) =>
      if power ≤ bound then some (left, ts)
      else match readUnary fuel ts.tail with
        | none => none
        | some (next, rest) =>
          match readBinary fuel power next rest with
          | none => none
          | some (right, rest) => readBinary fuel bound (.binary operator left right) rest
    | none => some (left, ts)
termination_by structural fuel

def readUnary (fuel : Nat) (ts : List Token) : Reading Expression :=
  match fuel with
  | 0 => none
  | fuel + 1 =>
    match ts with
    | ⟨_, .sign "!"⟩ :: rest =>
      match readUnary fuel rest with
      | some (e, rest) => some (.unary "!" e, rest)
      | none => none
    | ⟨_, .sign "-"⟩ :: rest =>
      match readUnary fuel rest with
      | some (e, rest) => some (.unary "-" e, rest)
      | none => none
    | ⟨_, .word "typeof"⟩ :: rest =>
      match readUnary fuel rest with
      | some (e, rest) => some (.unary "typeof" e, rest)
      | none => none
    | ⟨_, .word "void"⟩ :: rest =>
      match readUnary fuel rest with
      | some (e, rest) => some (.unary "void" e, rest)
      | none => none
    | ⟨_, .word "new"⟩ :: rest =>
      match readPrimary fuel rest with
      | none => none
      | some (callee, rest) =>
        if isSign "(" rest then
          match readItems fuel ")" [] rest.tail with
          | some (arguments, rest) => readSuffixes fuel (.construct callee arguments) rest
          | none => none
        else readSuffixes fuel (.construct callee []) rest
    | _ =>
      match readPrimary fuel ts with
      | some (e, rest) => readSuffixes fuel e rest
      | none => none
termination_by structural fuel

def readSuffixes (fuel : Nat) (e : Expression) (ts : List Token) : Reading Expression :=
  match fuel with
  | 0 => none
  | fuel + 1 =>
    match ts with
    | ⟨_, .sign "."⟩ :: ⟨_, .word name⟩ :: rest =>
      readSuffixes fuel (.member e (.literal (.text name))) rest
    | ⟨_, .sign "["⟩ :: rest =>
      match readExpression fuel rest with
      | none => none
      | some (key, rest) => match expect "]" rest with
        | some rest => readSuffixes fuel (.member e key) rest
        | none => none
    | ⟨_, .sign "("⟩ :: rest =>
      match readItems fuel ")" [] rest with
      | some (arguments, rest) => readSuffixes fuel (.call e arguments) rest
      | none => none
    | _ => some (e, ts)
termination_by structural fuel

/-- Expressions separated by commas, up to the closing sign. -/
def readItems (fuel : Nat) (closing : String) (items : List Expression) (ts : List Token) :
    Reading (List Expression) :=
  match fuel with
  | 0 => none
  | fuel + 1 =>
    if isSign closing ts then some (items.reverse, ts.tail)
    else match readExpression fuel ts with
      | none => none
      | some (e, rest) =>
        if isSign "," rest then readItems fuel closing (e :: items) rest.tail
        else if isSign closing rest then some ((e :: items).reverse, rest.tail)
        else none
termination_by structural fuel

/-- Members of an object, up to the closing brace. -/
def readMembers (fuel : Nat) (members : List (Wide × Expression)) (ts : List Token) :
    Reading (List (Wide × Expression)) :=
  match fuel with
  | 0 => none
  | fuel + 1 =>
    if isSign "\x7d" ts then some (members.reverse, ts.tail)
    else match memberName? ts with
      | none => none
      | some (name, rest) =>
        let member? : Reading Expression :=
          if isSign ":" rest then readExpression fuel rest.tail
          else if isSign "(" rest then readFunction fuel "" rest
          else match ts with
            | ⟨_, .word word⟩ :: _ => some (.name word, rest)
            | _ => none
        match member? with
        | none => none
        | some (e, rest) =>
          if isSign "," rest then readMembers fuel ((name, e) :: members) rest.tail
          else if isSign "\x7d" rest then some (((name, e) :: members).reverse, rest.tail)
          else none
termination_by structural fuel

def readFunction (fuel : Nat) (name : String) (ts : List Token) : Reading Expression :=
  match fuel with
  | 0 => none
  | fuel + 1 =>
    match expect "(" ts with
    | none => none
    | some rest => match parameters? (rest.length + 1) [] rest with
      | none => none
      | some (names, rest) => match expect "\x7b" rest with
        | none => none
        | some rest => match readBlock fuel [] rest with
          | some (body, rest) => some (.function name names body, rest)
          | none => none
termination_by structural fuel

def readPrimary (fuel : Nat) (ts : List Token) : Reading Expression :=
  match fuel with
  | 0 => none
  | fuel + 1 =>
    match ts with
    | ⟨_, .number x⟩ :: rest => some (.literal (.number x), rest)
    | ⟨_, .text s⟩ :: rest => some (.literal (.text s), rest)
    | ⟨_, .word "null"⟩ :: rest => some (.literal .null, rest)
    | ⟨_, .word "true"⟩ :: rest => some (.literal (.bool true), rest)
    | ⟨_, .word "false"⟩ :: rest => some (.literal (.bool false), rest)
    | ⟨_, .word "function"⟩ :: ⟨b, .word name⟩ :: rest =>
      if isSign "(" rest then readFunction fuel name rest
      else readFunction fuel "" (⟨b, .word name⟩ :: rest)
    | ⟨_, .word "function"⟩ :: rest => readFunction fuel "" rest
    | ⟨_, .word name⟩ :: rest => if keywords.contains name then none else some (.name name, rest)
    | ⟨_, .sign "("⟩ :: rest =>
      match readExpression fuel rest with
      | none => none
      | some (e, rest) => match expect ")" rest with
        | some rest => some (e, rest)
        | none => none
    | ⟨_, .sign "["⟩ :: rest =>
      match readItems fuel "]" [] rest with
      | some (items, rest) => some (.array items, rest)
      | none => none
    | ⟨_, .sign "\x7b"⟩ :: rest =>
      match readMembers fuel [] rest with
      | some (members, rest) => some (.object members, rest)
      | none => none
    | _ => none
termination_by structural fuel

/-- The statements of a block, up to its closing brace. -/
def readBlock (fuel : Nat) (body : List Statement) (ts : List Token) : Reading (List Statement) :=
  match fuel with
  | 0 => none
  | fuel + 1 =>
    if isSign "\x7d" ts then some (body.reverse, ts.tail)
    else match readStatement fuel ts with
      | some (statement, rest) => readBlock fuel (statement :: body) rest
      | none => none
termination_by structural fuel

def readBranch (fuel : Nat) (ts : List Token) : Reading (List Statement) :=
  match fuel with
  | 0 => none
  | fuel + 1 =>
    match readStatement fuel ts with
    | some (statement, rest) => some ([statement], rest)
    | none => none
termination_by structural fuel

def readStatement (fuel : Nat) (ts : List Token) : Reading Statement :=
  match fuel with
  | 0 => none
  | fuel + 1 =>
    match ts with
    | ⟨_, .sign ";"⟩ :: rest => some (.block [], rest)
    | ⟨_, .sign "\x7b"⟩ :: rest =>
      match readBlock fuel [] rest with
      | some (body, rest) => some (.block body, rest)
      | none => none
    | ⟨_, .word "return"⟩ :: rest =>
      if rest.isEmpty || isSign ";" rest || isSign "\x7d" rest || rest.head?.any Token.afterBreak then
        readEnd (.result .undefined) rest
      else match readExpression fuel rest with
        | some (e, rest) => readEnd (.result e) rest
        | none => none
    | ⟨_, .word "throw"⟩ :: rest =>
      match readExpression fuel rest with
      | some (e, rest) => readEnd (.throw e) rest
      | none => none
    | ⟨_, .word "if"⟩ :: ⟨_, .sign "("⟩ :: rest =>
      match readExpression fuel rest with
      | none => none
      | some (condition, rest) => match expect ")" rest with
        | none => none
        | some rest => match readBranch fuel rest with
          | none => none
          | some (yes, rest) =>
            if isWord "else" rest then
              match readBranch fuel rest.tail with
              | some (no, rest) => some (.choice condition yes no, rest)
              | none => none
            else some (.choice condition yes [], rest)
    | ⟨_, .word "function"⟩ :: ⟨_, .word name⟩ :: rest =>
      match readFunction fuel name rest with
      | some (e, rest) => some (.declare name e, rest)
      | none => none
    | ⟨_, .word "var"⟩ :: ⟨_, .word name⟩ :: rest => readDeclaration fuel name rest
    | ⟨_, .word "let"⟩ :: ⟨_, .word name⟩ :: rest => readDeclaration fuel name rest
    | ⟨_, .word "const"⟩ :: ⟨_, .word name⟩ :: rest => readDeclaration fuel name rest
    | _ =>
      match readExpression fuel ts with
      | some (e, rest) => readEnd (.expression e) rest
      | none => none
termination_by structural fuel

def readDeclaration (fuel : Nat) (name : String) (ts : List Token) : Reading Statement :=
  match fuel with
  | 0 => none
  | fuel + 1 =>
    if isSign "=" ts then
      match readExpression fuel ts.tail with
      | some (e, rest) => readEnd (.declare name e) rest
      | none => none
    else readEnd (.declare name .undefined) ts
termination_by structural fuel

end

def readAll (fuel : Nat) (read : List Statement) (ts : List Token) : Option (List Statement) :=
  match fuel with
  | 0 => none
  | fuel + 1 =>
    match ts with
    | [] => some read.reverse
    | _ => match readStatement fuel ts with
      | some (statement, rest) => readAll fuel (statement :: read) rest
      | none => none

/-- The statements of a script, if it is well formed. -/
def read? (source : String) : Option (List Statement) :=
  match tokens? (source.length + 1) [] source.toList with
  | some ts => readAll (16 * ts.length + 16) [] ts
  | none => none

end SolcDispatch.Script
