/-! Whole numbers in shell scripts: sums, products and comparisons. -/

namespace SolcDispatch.Shell

/-- The operators between two numbers, each before those that it begins with, and how
tightly they bind. -/
def numberOperators : List (String × Nat) :=
  [("==", 1), ("!=", 1), ("<=", 2), (">=", 2), ("<", 2), (">", 2), ("+", 3), ("-", 3), ("*", 4),
    ("/", 4), ("%", 4)]

def numberOperator? (cs : List Char) : Option (String × Nat × List Char) :=
  (numberOperators.find? fun o => o.1.toList.isPrefixOf cs).map fun o =>
    (o.1, o.2, cs.drop o.1.length)

def operateNumbers (operator : String) (a b : Int) : Int :=
  let truth := fun (p : Bool) => if p then 1 else 0
  match operator with
  | "==" => truth (a == b)
  | "!=" => truth (a != b)
  | "<=" => truth (a ≤ b)
  | ">=" => truth (b ≤ a)
  | "<" => truth (a < b)
  | ">" => truth (b < a)
  | "+" => a + b
  | "-" => a - b
  | "*" => a * b
  | "/" => a.tdiv b
  | _ => a.tmod b

def skipWhite (cs : List Char) : List Char := cs.dropWhile fun c => c == ' ' || c == '\t' || c == '\n'

def isNumberName (c : Char) : Bool := c.isAlphanum || c == '_'

mutual

/-- Read an operand: a number, a name, a negated operand or an expression in
parentheses. -/
def readOperand (value : List Char → Int) (fuel : Nat) (cs : List Char) : Option (Int × List Char) :=
  match fuel with
  | 0 => none
  | fuel + 1 =>
    match skipWhite cs with
    | '-' :: rest => (readOperand value fuel rest).map fun (n, left) => (-n, left)
    | '(' :: rest =>
      match readOperators value fuel 0 rest with
      | some (n, left) => match skipWhite left with
        | ')' :: left => some (n, left)
        | _ => none
      | none => none
    | '$' :: rest => readOperand value fuel rest
    | cs =>
      match cs.takeWhile isNumberName with
      | [] => none
      | name => some (value name, cs.dropWhile isNumberName)
termination_by structural fuel

/-- Read an operand and all operators after it that bind more tightly than the bound. -/
def readOperators (value : List Char → Int) (fuel bound : Nat) (cs : List Char) :
    Option (Int × List Char) :=
  match fuel with
  | 0 => none
  | fuel + 1 => (readOperand value fuel cs).bind fun (n, left) => readMore value fuel bound n left
termination_by structural fuel

def readMore (value : List Char → Int) (fuel bound : Nat) (n : Int) (cs : List Char) :
    Option (Int × List Char) :=
  match fuel with
  | 0 => none
  | fuel + 1 =>
    match numberOperator? (skipWhite cs) with
    | some (operator, power, rest) =>
      if power ≤ bound then some (n, cs)
      else match readOperators value fuel power rest with
        | some (m, left) => readMore value fuel bound (operateNumbers operator n m) left
        | none => none
    | none => some (n, cs)
termination_by structural fuel

end

/-- The value of an expression; one that is not well formed is zero. -/
def numberOf (value : List Char → Int) (expression : List Char) : Int :=
  ((readOperators value (4 * expression.length + 4) 0 expression).map Prod.fst).getD 0

end SolcDispatch.Shell
