/-! A directive of scripted builds that interpreters refuse or warn about. It is cut
out wherever it stands. -/

namespace SolcDispatch.Artifact

def directive : List Char := "\"use asm\";".toList

/-- A text without the directive, after what is kept already, last first; `skip`
characters still belong to the directive found last. -/
def cutDirective (kept : List Char) (skip : Nat) : List Char → List Char
  | [] => kept.reverse
  | c :: rest =>
    match skip with
    | skip + 1 => cutDirective kept skip rest
    | 0 =>
      if directive.isPrefixOf (c :: rest) then cutDirective kept (directive.length - 1) rest
      else cutDirective (c :: kept) 0 rest

def keptSource (source : String) : String := String.ofList (cutDirective [] 0 source.toList)

end SolcDispatch.Artifact
