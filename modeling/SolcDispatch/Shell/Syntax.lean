/-! Shell scripts: words with parameters and substituted output, and commands with
redirections, pipes, lists, loops and choices. -/

namespace SolcDispatch.Shell

inductive Direction
  | source
  | target
  | extension
  | descriptor
  deriving DecidableEq, Repr

mutual

/-- A part of a word. What is not quoted is split at blanks when it is put in. -/
inductive Part
  | text (s : List Char)
  | parameter (quoted : Bool) (name : List Char)
  | output (quoted : Bool) (body : List Command)
  | number (expression : List Char)

inductive Command
  | simple (line : Nat) (assignments : List (List Char × List Part)) (words : List (List Part))
      (redirections : List (Nat × Direction × List Part))
  | redirected (body : Command) (redirections : List (Nat × Direction × List Part))
  | pipe (first second : Command)
  | andThen (first second : Command)
  | orElse (first second : Command)
  | negation (body : Command)
  | loop (whileTrue : Bool) (condition body : List Command)
  | forEach (name : List Char) (words : List (List Part)) (body : List Command)
  | choice (condition yes no : List Command)
  | selection (subject : List Part) (cases : List (List (List Part) × List Command))
  | group (body : List Command)
  | subshell (body : List Command)

end

/-- The part as it stands in a word that is not split. -/
def Part.whole : Part → Part
  | .parameter _ name => .parameter true name
  | .output _ body => .output true body
  | part => part

abbrev Word := List Part
abbrev Redirection := Nat × Direction × Word

end SolcDispatch.Shell
