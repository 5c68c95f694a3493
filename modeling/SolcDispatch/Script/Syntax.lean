import SolcDispatch.Number.Binary64
import SolcDispatch.Text.Wide

/-! The part of JavaScript in which builds are wrapped: functions, literals, calls and
the statements that functions are made of. -/

namespace SolcDispatch.Script

inductive Literal
  | null
  | bool (value : Bool)
  | number (value : Binary64)
  | text (value : Wide)

mutual

inductive Expression
  | literal (value : Literal)
  | name (name : String)
  | object (members : List (Wide × Expression))
  | array (items : List Expression)
  | function (name : String) (parameters : List String) (body : List Statement)
  | arrow (parameters : List String) (body : List Statement)
  | member (target key : Expression)
  | call (callee : Expression) (arguments : List Expression)
  | construct (callee : Expression) (arguments : List Expression)
  | unary (operator : String) (operand : Expression)
  | binary (operator : String) (left right : Expression)
  | conditional (condition yes no : Expression)
  | assign (target value : Expression)

inductive Statement
  | expression (e : Expression)
  | result (e : Expression)
  | throw (e : Expression)
  | choice (condition : Expression) (yes no : List Statement)
  | declare (name : String) (value : Expression)
  | block (body : List Statement)

end

/-- A name that is never bound, which stands for no value. -/
def Expression.undefined : Expression := .name "undefined"

end SolcDispatch.Script
