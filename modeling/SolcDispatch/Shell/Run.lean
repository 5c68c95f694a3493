import SolcDispatch.Assoc
import SolcDispatch.Program.Basic
import SolcDispatch.Shell.Arithmetic
import SolcDispatch.Shell.Printf
import SolcDispatch.Shell.Reader

/-! Running shell scripts on the input got so far. A script that asks for input which
is not there yet waits; a sleep of ten seconds or more counts as endless, a shorter
one as nothing. -/

namespace SolcDispatch.Shell

/-- Characters of a script, one for each byte. -/
abbrev Chars := List Char

def charsOf (bytes : Text.Bytes) : Chars := bytes.map fun b => Char.ofNat b.toNat
def bytesOf (cs : Chars) : Text.Bytes := cs.map fun c => UInt8.ofNat c.toNat

inductive Sink
  | stdout
  | stderr
  | nothing
  | file (path : String)

/-- A running script. A command reads from `source`, or from the script's own input if
there is none. -/
structure State where
  input : Chars
  inputEnded : Bool
  source : Option Chars := none
  out : Sink := .stdout
  err : Sink := .stderr
  stdout : Chars := []
  stderr : Chars := []
  files : List (String × Chars) := []
  assigned : List (String × Chars) := []
  name : Chars
  arguments : List Chars
  status : Nat := 0

inductive Flow
  | next
  | leaveLoop
  | nextRound
  | stop (standing : Standing)

namespace State

def printTo (s : State) (cs : Chars) : Sink → State
  | .stdout => { s with stdout := s.stdout ++ cs }
  | .stderr => { s with stderr := s.stderr ++ cs }
  | .nothing => s
  | .file path => { s with files := Assoc.put s.files path ((Assoc.get? s.files path).getD [] ++ cs) }

def print (s : State) (cs : Chars) : State := s.printTo cs s.out

/-- What can be read, and whether more may come. -/
def readable (s : State) : Chars × Bool :=
  match s.source with
  | some content => (content, false)
  | none => (s.input, !s.inputEnded)

def leave (s : State) (text : Chars) : State :=
  match s.source with
  | some _ => { s with source := some text }
  | none => { s with input := text }

def setStatus (s : State) (status : Nat) : State := { s with status }

def parameter (s : State) (name : Chars) : Chars :=
  match name with
  | ['0'] => s.name
  | ['*'] | ['@'] => [' '].intercalate s.arguments
  | ['#'] => Nat.toDigits 10 s.arguments.length
  | ['?'] => Nat.toDigits 10 s.status
  | ['$'] => ['1']
  | [d] => if d.isDigit then (s.arguments[d.toNat - 49]?).getD []
    else (Assoc.get? s.assigned (String.ofList [d])).getD []
  | name => (Assoc.get? s.assigned (String.ofList name)).getD []

def assign (s : State) (name : Chars) (value : Chars) : State :=
  { s with assigned := Assoc.put s.assigned (String.ofList name) value }

/-- The value of a number, or of a name for one, within an expression. -/
def number (s : State) (name : Chars) : Int :=
  if name.all Char.isDigit then argumentInt name else argumentInt (s.parameter name)

/-- Back to the streams from before some redirections. -/
def restore (s before : State) (redirections : List Redirection) : State :=
  let ownSource := redirections.any fun r => r.2.1 = .source
  { s with
    out := before.out, err := before.err
    source := if ownSource then before.source else s.source }

/-- The state after commands that ran apart from the script: what they assigned is gone. -/
def rejoin (s before : State) : State :=
  { s with
    assigned := before.assigned, arguments := before.arguments
    source := if before.source.isSome then s.source else none
    out := before.out, err := before.err }

end State

def isBlank (c : Char) : Bool := c == ' ' || c == '\t' || c == '\n'

def splitBlanks (piece : Chars) : Chars → List Chars
  | [] => if piece.isEmpty then [] else [piece.reverse]
  | c :: rest =>
    if isBlank c then (if piece.isEmpty then [] else [piece.reverse]) ++ splitBlanks [] rest
    else splitBlanks (c :: piece) rest

/-- Words while they are put together: the finished ones, last first, and the one at
hand, which may be there without a character. -/
structure Fields where
  finished : List Chars := []
  current : Option Chars := none

namespace Fields

def add (f : Fields) (cs : Chars) : Fields := { f with current := some (f.current.getD [] ++ cs) }

def close (f : Fields) : Fields := ⟨f.current.toList ++ f.finished, none⟩

def addSplit (f : Fields) (cs : Chars) : Fields :=
  match splitBlanks [] cs with
  | [] => if cs.isEmpty then f else f.close
  | first :: rest =>
    let f := if cs.head?.any isBlank then f.close else f
    let f := rest.foldl (fun f piece => f.close.add piece) (f.add first)
    if cs.getLast?.any isBlank then f.close else f

def toList (f : Fields) : List Chars := f.close.finished.reverse

end Fields

def signal? (name : Chars) : Option Nat :=
  let named := [("HUP", 1), ("INT", 2), ("QUIT", 3), ("ILL", 4), ("ABRT", 6), ("FPE", 8),
    ("KILL", 9), ("SEGV", 11), ("PIPE", 13), ("ALRM", 14), ("TERM", 15)]
  match (String.ofList name).toNat? with
  | some n => some n
  | none => Assoc.get? named (String.ofList name)

def seconds (cs : Chars) : Nat := (String.ofList (cs.takeWhile Char.isDigit)).toNat?.getD 0

/-- The line at the front of the input, and whether the input holds its end. -/
def splitLine (cs : Chars) : Chars × Bool × Chars :=
  match cs.dropWhile (· != '\n') with
  | _ :: rest => (cs.takeWhile (· != '\n'), true, rest)
  | [] => (cs, false, [])

def trimBlanks (cs : Chars) : Chars :=
  ((cs.dropWhile isBlank).reverse.dropWhile isBlank).reverse

/-- Whether a text fits a pattern, in which a star stands for any characters and a
question mark for one. -/
def fits : Chars → Chars → Bool
  | [], text => text.isEmpty
  | '*' :: pattern, text => (List.range (text.length + 1)).any fun n => fits pattern (text.drop n)
  | '?' :: pattern, text => !text.isEmpty && fits pattern text.tail
  | c :: pattern, text => text.head? == some c && fits pattern text.tail

def test (exists? : Chars → Bool) : List Chars → Bool
  | ['!'] :: rest => !test exists? rest
  | [['-', 'z'], a] => a.isEmpty
  | [['-', 'f'], a] | [['-', 'e'], a] => exists? a
  | [['-', 'n'], a] => !a.isEmpty
  | [a, ['='], b] => a == b
  | [a, ['!', '='], b] => a != b
  | [a, op, b] =>
    let (m, n) := (argumentInt a, argumentInt b)
    match String.ofList op with
    | "-eq" => m == n
    | "-ne" => m != n
    | "-lt" => m < n
    | "-le" => m ≤ n
    | "-gt" => n < m
    | "-ge" => n ≤ m
    | _ => false
  | [a] => !a.isEmpty
  | _ => false

def State.exists? (s : State) (path : Chars) : Bool :=
  path == s.name || (Assoc.get? s.files (String.ofList path)).isSome

/-- Split the text for several names, of which the last takes all that is left. -/
def State.assignFields (s : State) (text : Chars) : List Chars → State
  | [] => s
  | [name] => s.assign name (trimBlanks text)
  | name :: names =>
    let text := text.dropWhile isBlank
    (s.assign name (text.takeWhile (!isBlank ·))).assignFields (text.dropWhile (!isBlank ·)) names

def runProgram (line : Nat) (verbatim : Bool) (words : List Chars) (s : State) : Flow × State :=
  let go := fun (s : State) (status : Nat) => (Flow.next, s.setStatus status)
  match words with
  | [] => go s s.status
  | program :: arguments =>
    match String.ofList program, arguments with
    | ":", _ | "true", _ | "set", _ | "trap", _ | "export", _ | "wait", _ => go s 0
    | "false", _ => go s 1
    | "break", _ => (.leaveLoop, s.setStatus 0)
    | "continue", _ => (.nextRound, s.setStatus 0)
    | "shift", _ => go { s with arguments := s.arguments.drop 1 } 0
    | "unset", names =>
      let unset := names.map String.ofList
      go { s with assigned := s.assigned.filter fun a => !unset.contains a.1 } 0
    | "printf", format :: arguments => go (s.print (formatted format arguments)) 0
    | "echo", ['-', 'n'] :: arguments => go (s.print (echoed arguments)) 0
    | "echo", arguments => go (s.print (echoed arguments ++ ['\n'])) 0
    | "cat", _ =>
      let (content, more) := s.readable
      let s := (s.leave []).print content
      if more then (.stop .waiting, s) else go s 0
    | "wc", _ =>
      let (content, more) := s.readable
      if more then (.stop .waiting, s)
      else go ((s.leave []).print (Nat.toDigits 10 content.length ++ ['\n'])) 0
    | "read", arguments =>
      let names := arguments.filter fun a => a.head? != some '-'
      let names := if names.isEmpty then ["REPLY".toList] else names
      let (content, more) := s.readable
      let (text, complete, left) := splitLine content
      if !complete && more then (.stop .waiting, s)
      else
        let s := s.leave left
        let s := match verbatim, names with
          | true, name :: _ => s.assign name text
          | _, names => s.assignFields text names
        go s (if complete then 0 else 1)
    | "exit", arguments =>
      let status := match arguments with
        | code :: _ => (argumentInt code).toNat % 256
        | [] => s.status
      (.stop (.exited status), s)
    | "kill", arguments =>
      let signal := match arguments with
        | ['-', 's'] :: name :: _ => signal? name
        | ('-' :: name) :: _ => signal? name
        | _ => some 15
      match signal with
      | some 0 => go s 0
      | some n => (.stop (.exited (-n)), s)
      | none => go s 1
    | "sleep", duration :: _ => if 10 ≤ seconds duration then (.stop .endless, s) else go s 0
    | "test", arguments => go s (if test s.exists? arguments then 0 else 1)
    | "[", arguments => go s (if test s.exists? arguments.dropLast then 0 else 1)
    | name, _ =>
      let complaint := s.name ++ s!": {line}: {name}: not found\n".toList
      go (s.printTo complaint s.err) 127

/-- The outcome of commands that ran apart from the script: their exit is not the
script's, but what ends or stops the script from outside does. -/
def apart (before : State) : Flow × State → Flow × State
  | (.stop (.exited status), s) =>
    let s := s.rejoin before
    if status < 0 then (.stop (.exited status), s) else (.next, s.setStatus status.toNat)
  | (.stop standing, s) => (.stop standing, s.rejoin before)
  | (_, s) => (.next, s.rejoin before)

mutual

/-- The words that a word becomes, after those before it. -/
def expand (fuel : Nat) (parts : List Part) (fields : Fields) (s : State) :
    Except Standing Fields × State :=
  match fuel with
  | 0 => (.error .endless, s)
  | fuel + 1 =>
    match parts with
    | [] => (.ok fields, s)
    | .text cs :: rest => expand fuel rest (fields.add cs) s
    | .parameter quoted name :: rest =>
      let value := s.parameter name
      expand fuel rest (if quoted then fields.add value else fields.addSplit value) s
    | .number expression :: rest =>
      expand fuel rest (fields.add (toString (numberOf s.number expression)).toList) s
    | .output quoted body :: rest =>
      let (flow, inner) :=
        apart s (runAll fuel body { s with stdout := [], out := .stdout })
      let value := (inner.stdout.reverse.dropWhile (· == '\n')).reverse
      let s := { inner with stdout := s.stdout }
      match flow with
      | .stop standing => (.error standing, s)
      | _ => expand fuel rest (if quoted then fields.add value else fields.addSplit value) s
termination_by structural fuel

def expandAll (fuel : Nat) (words : List Word) (done : List Chars) (s : State) :
    Except Standing (List Chars) × State :=
  match fuel with
  | 0 => (.error .endless, s)
  | fuel + 1 =>
    match words with
    | [] => (.ok done, s)
    | word :: rest =>
      match expand fuel word {} s with
      | (.error standing, s) => (.error standing, s)
      | (.ok fields, s) => expandAll fuel rest (done ++ fields.toList) s
termination_by structural fuel

def expandWhole (fuel : Nat) (word : Word) (s : State) : Except Standing Chars × State :=
  match fuel with
  | 0 => (.error .endless, s)
  | fuel + 1 =>
    match expand fuel (word.map Part.whole) {} s with
    | (.error standing, s) => (.error standing, s)
    | (.ok fields, s) => (.ok fields.toList.flatten, s)
termination_by structural fuel

def assignAll (fuel : Nat) (assignments : List (List Char × Word)) (s : State) :
    Except Standing Unit × State :=
  match fuel with
  | 0 => (.error .endless, s)
  | fuel + 1 =>
    match assignments with
    | [] => (.ok (), s)
    | (name, value) :: rest =>
      match expandWhole fuel value s with
      | (.error standing, s) => (.error standing, s)
      | (.ok value, s) => assignAll fuel rest (s.assign name value)
termination_by structural fuel

def redirect (fuel : Nat) (redirections : List Redirection) (s : State) :
    Except Standing Unit × State :=
  match fuel with
  | 0 => (.error .endless, s)
  | fuel + 1 =>
    match redirections with
    | [] => (.ok (), s)
    | (descriptor, direction, word) :: rest =>
      match expandWhole fuel word s with
      | (.error standing, s) => (.error standing, s)
      | (.ok path, s) =>
        let path := String.ofList path
        let toSink := fun (s : State) (sink : Sink) =>
          if descriptor = 2 then { s with err := sink } else { s with out := sink }
        let isNothing := path = "/dev/null"
        redirect fuel rest <| match direction with
          | .source => { s with source := (Assoc.get? s.files path).or (some []) }
          | .target =>
            if isNothing then toSink s .nothing
            else toSink { s with files := Assoc.put s.files path [] } (.file path)
          | .extension =>
            if isNothing then toSink s .nothing
            else toSink (s.printTo [] (.file path)) (.file path)
          | .descriptor => toSink s (if path = "2" then s.err else s.out)
termination_by structural fuel

/-- The body of the first case of which a pattern fits. -/
def select (fuel : Nat) (subject : Chars) (patterns : List Word) (body : List Command)
    (others : List (List Word × List Command)) (s : State) :
    Except Standing (List Command) × State :=
  match fuel with
  | 0 => (.error .endless, s)
  | fuel + 1 =>
    match patterns, others with
    | [], [] => (.ok [], s)
    | [], (patterns, body) :: others => select fuel subject patterns body others s
    | pattern :: patterns, others =>
      match expandWhole fuel pattern s with
      | (.error standing, s) => (.error standing, s)
      | (.ok pattern, s) =>
        if fits pattern subject then (.ok body, s)
        else select fuel subject patterns body others s
termination_by structural fuel

def run (fuel : Nat) (command : Command) (s : State) : Flow × State :=
  match fuel with
  | 0 => (.stop .endless, s)
  | fuel + 1 =>
    match command with
    | .simple line assignments words redirections =>
      match expandAll fuel words [] s with
      | (.error standing, s) => (.stop standing, s)
      | (.ok words, before) =>
        match redirect fuel redirections before with
        | (.error standing, s) => (.stop standing, s.restore before redirections)
        | (.ok _, s) =>
          if words.isEmpty then
            match assignAll fuel assignments (s.setStatus 0) with
            | (.error standing, s) => (.stop standing, s.restore before redirections)
            | (.ok _, s) => (.next, s.restore before redirections)
          else if words.head? == some "exec".toList then
            if words.length == 1 then (.next, s.setStatus 0)
            else match runProgram line false words.tail s with
              | (.stop standing, s) => (.stop standing, s)
              | (_, s) => (.stop (.exited s.status), s)
          else
            let verbatim := assignments.any fun a => a.1 == "IFS".toList
            let (flow, s) := runProgram line verbatim words s
            (flow, s.restore before redirections)
    | .redirected body redirections =>
      match redirect fuel redirections s with
      | (.error standing, after) => (.stop standing, after.restore s redirections)
      | (.ok _, after) =>
        let (flow, after) := run fuel body after
        (flow, after.restore s redirections)
    | .pipe first second =>
      match apart s (run fuel first { s with stdout := [], out := .stdout }) with
      | (.stop standing, after) => (.stop standing, { after with stdout := s.stdout })
      | (_, after) =>
        let piped := { after with stdout := s.stdout, source := some after.stdout }
        let (flow, done) := apart s (run fuel second piped)
        (flow, { done with source := after.source })
    | .andThen first second =>
      match run fuel first s with
      | (.next, s) => if s.status = 0 then run fuel second s else (.next, s)
      | stopped => stopped
    | .orElse first second =>
      match run fuel first s with
      | (.next, s) => if s.status = 0 then (.next, s) else run fuel second s
      | stopped => stopped
    | .negation body =>
      match run fuel body s with
      | (.next, s) => (.next, s.setStatus (if s.status = 0 then 1 else 0))
      | stopped => stopped
    | .group body => runAll fuel body s
    | .subshell body => apart s (runAll fuel body s)
    | .choice condition yes no =>
      match runAll fuel condition s with
      | (.next, s) => runAll fuel (if s.status = 0 then yes else no) (s.setStatus 0)
      | stopped => stopped
    | .selection subject cases =>
      match expandWhole fuel subject s with
      | (.error standing, s) => (.stop standing, s)
      | (.ok subject, s) =>
        match select fuel subject [] [] cases s with
        | (.error standing, s) => (.stop standing, s)
        | (.ok body, s) => runAll fuel body (s.setStatus 0)
    | .loop whileTrue condition body =>
      match runAll fuel condition s with
      | (.next, s) =>
        if (s.status = 0) = whileTrue then
          match runAll fuel body s with
          | (.leaveLoop, s) => (.next, s)
          | (.stop standing, s) => (.stop standing, s)
          | (_, s) => run fuel (.loop whileTrue condition body) s
        else (.next, s.setStatus 0)
      | (.leaveLoop, s) => (.next, s)
      | stopped => stopped
    | .forEach name words body =>
      match expandAll fuel words [] s with
      | (.error standing, s) => (.stop standing, s)
      | (.ok words, s) => runEach fuel name words body (s.setStatus 0)
termination_by structural fuel

def runEach (fuel : Nat) (name : Chars) (words : List Chars) (body : List Command) (s : State) :
    Flow × State :=
  match fuel with
  | 0 => (.stop .endless, s)
  | fuel + 1 =>
    match words with
    | [] => (.next, s)
    | word :: rest =>
      match runAll fuel body (s.assign name word) with
      | (.leaveLoop, s) => (.next, s)
      | (.stop standing, s) => (.stop standing, s)
      | (_, s) => runEach fuel name rest body s
termination_by structural fuel

def runAll (fuel : Nat) (commands : List Command) (s : State) : Flow × State :=
  match fuel with
  | 0 => (.stop .endless, s)
  | fuel + 1 =>
    match commands with
    | [] => (.next, s)
    | command :: rest =>
      match run fuel command s with
      | (.next, s) => runAll fuel rest s
      | stopped => stopped
termination_by structural fuel

end

def execution (s : State) (standing : Standing) : Execution where
  stdout := bytesOf s.stdout
  stderr := bytesOf s.stderr
  files := s.files.map fun f => (f.1, bytesOf f.2)
  standing

/-- A script as a program, under its path and with its arguments. -/
def program (script : Text.Bytes) (path : String) (arguments : List String) : Program :=
  fun input ended =>
    let text := charsOf script
    let (commands, fault) := read text
    let name := charsOf (Text.utf8 path)
    let start : State :=
      { input := charsOf input, inputEnded := ended, name
        arguments := arguments.map fun a => charsOf (Text.utf8 a) }
    match runAll (16 * (text.length + 4) * (input.length + 4)) commands start, fault with
    | (.stop standing, s), _ => execution s standing
    | (_, s), none => execution s (.exited s.status)
    | (_, s), some line =>
      execution (s.printTo (name ++ s!": {line}: Syntax error\n".toList) .stderr) (.exited 2)

end SolcDispatch.Shell
