import SolcDispatch.Shell.Syntax

/-! Reading shell scripts. A step takes the text that is left; the fuel bounds the
steps and is no less than the length of the text. -/

namespace SolcDispatch.Shell

/-- What is read, and the text left; nothing if the script is not well formed. -/
abbrev Reading (α : Type) := Option (α × List Char)

def isNameStart (c : Char) : Bool := c.isAlpha || c == '_'
def isNameChar (c : Char) : Bool := c.isAlphanum || c == '_'

def endsWord (c : Char) : Bool := " \t\n;|&<>()".toList.contains c

/-- Skip blanks, continued lines and a comment. -/
def skipBlanks : List Char → List Char
  | '\\' :: '\n' :: rest => skipBlanks rest
  | c :: rest =>
    if c == ' ' || c == '\t' then skipBlanks rest
    else if c == '#' then rest.dropWhile (· != '\n')
    else c :: rest
  | [] => []

def skipBreaks (fuel : Nat) (cs : List Char) : List Char :=
  match fuel with
  | 0 => cs
  | fuel + 1 =>
    match skipBlanks cs with
    | ';' :: ';' :: rest => ';' :: ';' :: rest
    | '\n' :: rest => skipBreaks fuel rest
    | ';' :: rest => skipBreaks fuel rest
    | left => left

/-- The characters that a backslash keeps its meaning before between double quotes. -/
def isEscapable (c : Char) : Bool := "$`\"\\".toList.contains c

/-- A name, a digit or a sign after the dollar sign. -/
def parameterName? : List Char → Option (List Char × List Char)
  | '{' :: rest =>
    let name := rest.takeWhile (· != '}')
    if name.isEmpty then none else some (name, (rest.dropWhile (· != '}')).drop 1)
  | c :: rest =>
    if isNameStart c then some (c :: rest.takeWhile isNameChar, rest.dropWhile isNameChar)
    else if c.isDigit || "$*@#?!".toList.contains c then some ([c], rest)
    else none
  | [] => none

/-- The file descriptor that a redirection names before its sign, if it names one. -/
def splitDescriptor : List Char → Option Nat × List Char
  | d :: '<' :: rest => if d.isDigit then (some (d.toNat - 48), '<' :: rest) else (none, d :: '<' :: rest)
  | d :: '>' :: rest => if d.isDigit then (some (d.toNat - 48), '>' :: rest) else (none, d :: '>' :: rest)
  | cs => (none, cs)

def reserved : List (List Char) :=
  ["while", "until", "for", "do", "done", "if", "then", "elif", "else", "fi", "case", "esac",
    "\x7b", "\x7d", "!"].map String.toList

/-- The word of plain characters at the front of a text. -/
def plainWord (cs : List Char) : List Char := cs.takeWhile (!endsWord ·)

/-- Whether the given reserved word stands at the front of a text. -/
def startsWith (word : String) (cs : List Char) : Bool := plainWord cs == word.toList

def after (word : String) (cs : List Char) : List Char := cs.drop word.length

/-- The number of the line on which a rest of the text begins. -/
def lineOf (total rest : List Char) : Nat := 1 + (total.take (total.length - rest.length)).count '\n'

/-- The text up to the two parentheses that close it. -/
def numberText (depth : Nat) (read : List Char) : List Char → Reading (List Char)
  | [] => none
  | '(' :: rest => numberText (depth + 1) ('(' :: read) rest
  | ')' :: rest =>
    match depth, rest with
    | depth + 1, _ => numberText depth (')' :: read) rest
    | 0, ')' :: left => some (read.reverse, left)
    | 0, _ => none
  | c :: rest => numberText depth (c :: read) rest

mutual

def readDollar (total : List Char) (quoted : Bool) (fuel : Nat) (cs : List Char) : Reading Part :=
  match fuel with
  | 0 => none
  | fuel + 1 =>
    match cs with
    | '(' :: '(' :: rest =>
      match numberText 0 [] rest with
      | some (expression, left) => some (.number expression, left)
      | none => none
    | '(' :: rest =>
      match readList total fuel [] rest with
      | some (body, ')' :: left) => some (.output quoted body, left)
      | _ => none
    | _ => match parameterName? cs with
      | some (name, left) => some (.parameter quoted name, left)
      | none => some (.text ['$'], cs)
termination_by structural fuel

/-- The parts of a word between double quotes, up to the closing one. -/
def readQuoted (total : List Char) (fuel : Nat) (parts : List Part) (cs : List Char) :
    Reading (List Part) :=
  match fuel with
  | 0 => none
  | fuel + 1 =>
    match cs with
    | '"' :: rest => some (parts, rest)
    | '\\' :: '\n' :: rest => readQuoted total fuel parts rest
    | '\\' :: c :: rest =>
      if isEscapable c then readQuoted total fuel (.text [c] :: parts) rest
      else readQuoted total fuel (.text ['\\', c] :: parts) rest
    | '$' :: rest =>
      match readDollar total true fuel rest with
      | some (part, left) => readQuoted total fuel (part :: parts) left
      | none => none
    | c :: rest => readQuoted total fuel (.text [c] :: parts) rest
    | [] => none
termination_by structural fuel

/-- The parts of a word, last first, up to its end. -/
def readParts (total : List Char) (fuel : Nat) (parts : List Part) (cs : List Char) :
    Reading (List Part) :=
  match fuel with
  | 0 => none
  | fuel + 1 =>
    match cs with
    | [] => some (parts, [])
    | '\'' :: rest =>
      let quoted := rest.takeWhile (· != '\'')
      match rest.dropWhile (· != '\'') with
      | _ :: left => readParts total fuel (.text quoted :: parts) left
      | [] => none
    | '"' :: rest =>
      match readQuoted total fuel (.text [] :: parts) rest with
      | some (parts, left) => readParts total fuel parts left
      | none => none
    | '\\' :: '\n' :: rest => readParts total fuel parts rest
    | '\\' :: c :: rest => readParts total fuel (.text [c] :: parts) rest
    | '$' :: rest =>
      match readDollar total false fuel rest with
      | some (part, left) => readParts total fuel (part :: parts) left
      | none => none
    | c :: rest =>
      if endsWord c then some (parts, cs) else readParts total fuel (.text [c] :: parts) rest
termination_by structural fuel

/-- A redirection, if one stands here. -/
def readRedirection (total : List Char) (fuel : Nat) (cs : List Char) :
    Option (Reading Redirection) :=
  match fuel with
  | 0 => none
  | fuel + 1 =>
    let (descriptor, rest) := splitDescriptor cs
    let target := fun (default : Nat) (direction : Direction) (rest : List Char) =>
      match readParts total fuel [] (skipBlanks rest) with
      | some (parts, left) => some ((descriptor.getD default, direction, parts.reverse), left)
      | none => none
    match rest with
    | '>' :: '>' :: rest => some (target 1 .extension rest)
    | '>' :: '&' :: rest => some (target 1 .descriptor rest)
    | '>' :: rest => some (target 1 .target rest)
    | '<' :: rest => some (target 0 .source rest)
    | _ => none
termination_by structural fuel

/-- Assignments, words and redirections of a simple command up to its end. -/
def readSimple (total : List Char) (fuel : Nat) (line : Nat)
    (assignments : List (List Char × Word)) (words : List Word)
    (redirections : List Redirection) (cs : List Char) : Reading Command :=
  match fuel with
  | 0 => none
  | fuel + 1 =>
    let cs := skipBlanks cs
    match readRedirection total fuel cs with
    | some (some (redirection, left)) =>
      readSimple total fuel line assignments words (redirection :: redirections) left
    | some none => none
    | none =>
      match cs with
      | [] => some (.simple line assignments.reverse words.reverse redirections.reverse, [])
      | c :: _ =>
        if endsWord c then
          if assignments.isEmpty && words.isEmpty && redirections.isEmpty then none
          else some (.simple line assignments.reverse words.reverse redirections.reverse, cs)
        else
          let name := cs.takeWhile isNameChar
          match words, cs.dropWhile isNameChar with
          | [], '=' :: value =>
            if name.head?.any isNameStart then
              match readParts total fuel [] value with
              | some (parts, left) =>
                readSimple total fuel line ((name, parts.reverse) :: assignments) words
                  redirections left
              | none => none
            else match readParts total fuel [] cs with
              | some (parts, left) =>
                readSimple total fuel line assignments (parts.reverse :: words) redirections left
              | none => none
          | _, _ =>
            match readParts total fuel [] cs with
            | some (parts, left) =>
              readSimple total fuel line assignments (parts.reverse :: words) redirections left
            | none => none
termination_by structural fuel

/-- The rest of a choice after its first condition's keyword. -/
def readChoice (total : List Char) (fuel : Nat) (cs : List Char) : Reading Command :=
  match fuel with
  | 0 => none
  | fuel + 1 =>
    match readList total fuel [] cs with
    | some (condition, rest) =>
      if !startsWith "then" rest then none
      else match readList total fuel [] (after "then" rest) with
        | some (yes, rest) =>
          if startsWith "elif" rest then
            match readChoice total fuel (after "elif" rest) with
            | some (no, rest) => some (.choice condition yes [no], rest)
            | none => none
          else if startsWith "else" rest then
            match readList total fuel [] (after "else" rest) with
            | some (no, rest) =>
              if startsWith "fi" rest then some (.choice condition yes no, after "fi" rest) else none
            | none => none
          else if startsWith "fi" rest then some (.choice condition yes [], after "fi" rest)
          else none
        | none => none
    | none => none
termination_by structural fuel

def readLoop (total : List Char) (whileTrue : Bool) (fuel : Nat) (cs : List Char) :
    Reading Command :=
  match fuel with
  | 0 => none
  | fuel + 1 =>
    match readList total fuel [] cs with
    | some (condition, rest) =>
      if !startsWith "do" rest then none
      else match readList total fuel [] (after "do" rest) with
        | some (body, rest) =>
          if startsWith "done" rest then some (.loop whileTrue condition body, after "done" rest)
          else none
        | none => none
    | none => none
termination_by structural fuel

/-- Words up to the end of a command, last first. -/
def readWords (total : List Char) (fuel : Nat) (words : List Word) (cs : List Char) :
    Reading (List Word) :=
  match fuel with
  | 0 => none
  | fuel + 1 =>
    match skipBlanks cs with
    | [] => some (words, [])
    | c :: rest =>
      if endsWord c then some (words, c :: rest)
      else match readParts total fuel [] (c :: rest) with
        | some (parts, left) => readWords total fuel (parts.reverse :: words) left
        | none => none
termination_by structural fuel

/-- A loop over words, after its keyword. -/
def readForEach (total : List Char) (fuel : Nat) (cs : List Char) : Reading Command :=
  match fuel with
  | 0 => none
  | fuel + 1 =>
    let cs := skipBlanks cs
    let name := cs.takeWhile isNameChar
    let rest := skipBreaks fuel (cs.dropWhile isNameChar)
    if name.isEmpty || !startsWith "in" rest then none
    else match readWords total fuel [] (after "in" rest) with
      | none => none
      | some (words, rest) =>
        let rest := skipBreaks fuel rest
        if !startsWith "do" rest then none
        else match readList total fuel [] (after "do" rest) with
          | some (body, rest) =>
            if startsWith "done" rest then
              some (.forEach name words.reverse body, after "done" rest)
            else none
          | none => none
termination_by structural fuel

/-- The patterns of a case, last first, up to the closing parenthesis. -/
def readPatterns (total : List Char) (fuel : Nat) (patterns : List Word) (cs : List Char) :
    Reading (List Word) :=
  match fuel with
  | 0 => none
  | fuel + 1 =>
    match readParts total fuel [] (skipBlanks cs) with
    | none => none
    | some (parts, rest) =>
      match skipBlanks rest with
      | '|' :: rest => readPatterns total fuel (parts.reverse :: patterns) rest
      | ')' :: rest => some (parts.reverse :: patterns, rest)
      | _ => none
termination_by structural fuel

def readCases (total : List Char) (fuel : Nat) (cases : List (List Word × List Command))
    (cs : List Char) : Reading (List (List Word × List Command)) :=
  match fuel with
  | 0 => none
  | fuel + 1 =>
    let cs := skipBreaks fuel cs
    if startsWith "esac" cs then some (cases.reverse, after "esac" cs)
    else match readPatterns total fuel [] cs with
      | none => none
      | some (patterns, rest) =>
        match readList total fuel [] rest with
        | some (body, ';' :: ';' :: rest) => readCases total fuel ((patterns, body) :: cases) rest
        | some (body, rest) =>
          if startsWith "esac" rest then
            some (((patterns, body) :: cases).reverse, after "esac" rest)
          else none
        | none => none
termination_by structural fuel

/-- A selection, after its keyword. -/
def readSelection (total : List Char) (fuel : Nat) (cs : List Char) : Reading Command :=
  match fuel with
  | 0 => none
  | fuel + 1 =>
    match readParts total fuel [] (skipBlanks cs) with
    | none => none
    | some (parts, rest) =>
      let rest := skipBreaks fuel rest
      if !startsWith "in" rest then none
      else match readCases total fuel [] (after "in" rest) with
        | some (cases, rest) => some (.selection parts.reverse cases, rest)
        | none => none
termination_by structural fuel

/-- A command that is made of others, if one stands here. -/
def readCompound (total : List Char) (fuel : Nat) (cs : List Char) : Option (Reading Command) :=
  match fuel with
  | 0 => none
  | fuel + 1 =>
    let closed := fun (body : Reading (List Command)) (close : List Char → Option (List Char))
        (wrap : List Command → Command) =>
      match body with
      | some (body, rest) => (close rest).map fun rest => (wrap body, rest)
      | none => none
    if startsWith "while" cs then some (readLoop total true fuel (after "while" cs))
    else if startsWith "until" cs then some (readLoop total false fuel (after "until" cs))
    else if startsWith "for" cs then some (readForEach total fuel (after "for" cs))
    else if startsWith "if" cs then some (readChoice total fuel (after "if" cs))
    else if startsWith "case" cs then some (readSelection total fuel (after "case" cs))
    else if startsWith "\x7b" cs then
      some (closed (readList total fuel [] (after "\x7b" cs))
        (fun rest => if startsWith "\x7d" rest then some (after "\x7d" rest) else none) .group)
    else match cs with
      | '(' :: rest =>
        some (closed (readList total fuel [] rest)
          (fun rest => if rest.head? == some ')' then some rest.tail else none) .subshell)
      | _ => none
termination_by structural fuel

/-- The redirections after a command that is made of others. -/
def readRedirections (total : List Char) (fuel : Nat) (redirections : List Redirection)
    (cs : List Char) : Reading (List Redirection) :=
  match fuel with
  | 0 => none
  | fuel + 1 =>
    match readRedirection total fuel (skipBlanks cs) with
    | some (some (redirection, left)) => readRedirections total fuel (redirection :: redirections) left
    | some none => none
    | none => some (redirections.reverse, cs)
termination_by structural fuel

def readOne (total : List Char) (fuel : Nat) (cs : List Char) : Reading Command :=
  match fuel with
  | 0 => none
  | fuel + 1 =>
    match readCompound total fuel cs with
    | some none => none
    | some (some (body, rest)) =>
      match readRedirections total fuel [] rest with
      | some ([], _) => some (body, rest)
      | some (redirections, rest) => some (.redirected body redirections, rest)
      | none => none
    | none =>
      if reserved.contains (plainWord cs) then none
      else readSimple total fuel (lineOf total cs) [] [] [] cs
termination_by structural fuel

def readPiped (total : List Char) (fuel : Nat) (first : Command) (cs : List Char) :
    Reading Command :=
  match fuel with
  | 0 => none
  | fuel + 1 =>
    match skipBlanks cs with
    | '|' :: '|' :: rest => some (first, '|' :: '|' :: rest)
    | '|' :: rest =>
      match readOne total fuel (skipBreaks fuel rest) with
      | some (second, rest) => readPiped total fuel (.pipe first second) rest
      | none => none
    | left => some (first, left)
termination_by structural fuel

/-- One command or several joined by pipes, of which the outcome may be negated. -/
def readPipeline (total : List Char) (fuel : Nat) (cs : List Char) : Reading Command :=
  match fuel with
  | 0 => none
  | fuel + 1 =>
    if startsWith "!" cs then
      match readPipeline total fuel (skipBlanks (after "!" cs)) with
      | some (body, rest) => some (.negation body, rest)
      | none => none
    else match readOne total fuel cs with
      | some (first, rest) => readPiped total fuel first rest
      | none => none
termination_by structural fuel

def readJoined (total : List Char) (fuel : Nat) (first : Command) (cs : List Char) :
    Reading Command :=
  match fuel with
  | 0 => none
  | fuel + 1 =>
    match skipBlanks cs with
    | '&' :: '&' :: rest =>
      match readPipeline total fuel (skipBreaks fuel rest) with
      | some (second, rest) => readJoined total fuel (.andThen first second) rest
      | none => none
    | '|' :: '|' :: rest =>
      match readPipeline total fuel (skipBreaks fuel rest) with
      | some (second, rest) => readJoined total fuel (.orElse first second) rest
      | none => none
    | left => some (first, left)
termination_by structural fuel

/-- Commands up to the end of the text, a closing parenthesis or a reserved word that
opens none. -/
def readList (total : List Char) (fuel : Nat) (commands : List Command) (cs : List Char) :
    Reading (List Command) :=
  match fuel with
  | 0 => none
  | fuel + 1 =>
    match skipBreaks (fuel + 1) cs with
    | [] => some (commands.reverse, [])
    | ')' :: left => some (commands.reverse, ')' :: left)
    | ';' :: left => some (commands.reverse, ';' :: left)
    | left =>
      if ["do", "done", "then", "elif", "else", "fi", "esac", "\x7d"].any (startsWith · left) then
        some (commands.reverse, left)
      else match readPipeline total fuel left with
        | some (first, rest) =>
          match readJoined total fuel first rest with
          | some (command, rest) => readList total fuel (command :: commands) rest
          | none => none
        | none => none
termination_by structural fuel

end

/-- The commands of a script up to its end, or up to the line where it is not well
formed. -/
def readScript (total : List Char) (fuel : Nat) (commands : List Command) (cs : List Char) :
    List Command × Option Nat :=
  match fuel with
  | 0 => (commands.reverse, some (lineOf total cs))
  | fuel + 1 =>
    match skipBreaks (fuel + 1) cs with
    | [] => (commands.reverse, none)
    | left =>
      match readPipeline total fuel left with
      | none => (commands.reverse, some (lineOf total left))
      | some (first, rest) =>
        match readJoined total fuel first rest with
        | none => (commands.reverse, some (lineOf total rest))
        | some (command, rest) => readScript total fuel (command :: commands) rest

def read (script : List Char) : List Command × Option Nat :=
  readScript script (16 * script.length + 16) [] script

end SolcDispatch.Shell
