import SolcDispatch.Host.Process
import SolcDispatch.Host.Program
import SolcDispatch.Proofs.Json.Lines

/-! Texts sent as lines. A reader of lines that knows more line ends than the line feed still
gets the same texts, as long as they hold printable ASCII characters only. -/

namespace SolcDispatch

open Json (isShown)

/-- The bytes of texts, each on a line of its own. -/
def lineBytes (texts : List String) : Text.Bytes :=
  texts.flatMap fun text => Text.utf8 text ++ [0x0A]

theorem lineBytes_cons (text : String) (rest : List String) :
    lineBytes (text :: rest) = Text.utf8 text ++ [0x0A] ++ lineBytes rest := rfl

theorem lineBytes_eq (texts : List String) : lineBytes texts =
    Text.utf8 (String.ofList (texts.flatMap fun text => text.toList ++ ['\n'])) := by
  rw [Text.utf8_ofList]
  induction texts with
  | nil => rfl
  | cons text rest ih =>
    rw [lineBytes_cons, ih, List.flatMap_cons, List.flatMap_append, List.flatMap_append]
    rfl

namespace Host

theorem splitLines_shown {c : Char} (h : isShown true c) (lines : List (List Char))
    (part rest : List Char) :
    splitLines lines part (c :: rest) = splitLines lines (c :: part) rest := by
  simp only [isShown, Bool.not_true, Bool.false_or, Bool.and_eq_true, decide_eq_true_eq] at h
  have hne {d : Char} (hd : d.toNat < 0x20 ∨ 0x7F ≤ d.toNat) : c ≠ d := by
    rintro rfl
    omega
  rw [splitLines.eq_3 _ _ _ _ fun _ he _ => absurd he (hne (by decide))]
  simp only [beq_iff_eq, Bool.or_eq_true, hne (d := '\n') (by decide), hne (d := '\r') (by decide),
    hne (d := '\u2028') (by decide), hne (d := '\u2029') (by decide), or_self, if_false]

theorem splitLines_line {line : List Char} (h : ∀ c ∈ line, isShown true c)
    (lines : List (List Char)) (part rest : List Char) :
    splitLines lines part (line ++ '\n' :: rest) =
      splitLines ((part.reverse ++ line) :: lines) [] rest := by
  induction line generalizing part with
  | nil => simp [splitLines]
  | cons c line ih =>
    obtain ⟨hc, hline⟩ := List.forall_mem_cons.mp h
    rw [List.cons_append, splitLines_shown hc, ih hline, List.reverse_cons, List.append_assoc,
      List.singleton_append]

theorem splitLines_lines {texts : List String}
    (h : ∀ text ∈ texts, ∀ c ∈ text.toList, isShown true c) (lines : List (List Char)) :
    splitLines lines [] (texts.flatMap fun text => text.toList ++ ['\n']) =
      (lines.reverse ++ texts.map String.toList, []) := by
  induction texts generalizing lines with
  | nil => simp [splitLines]
  | cons text rest ih =>
    obtain ⟨htext, hrest⟩ := List.forall_mem_cons.mp h
    rw [List.flatMap_cons, List.append_assoc, List.singleton_append, splitLines_line htext,
      ih hrest]
    simp

theorem linesOf_lineBytes {texts : List String}
    (h : ∀ text ∈ texts, ∀ c ∈ text.toList, isShown true c) (ended : Bool) :
    linesOf (lineBytes texts) ended = texts := by
  rw [linesOf, lineBytes_eq, Text.decodeUtf8_utf8, String.toList_ofList, splitLines_lines h]
  simp [Function.comp_def]

end Host

namespace Process

variable {p : Process} {line rest : Text.Bytes}

theorem takeWhile_append_of_notMem (h : 0x0A ∉ line) (rest : Text.Bytes) :
    (line ++ rest).takeWhile (· != 0x0A) = line ++ rest.takeWhile (· != 0x0A) := by
  refine List.takeWhile_append_of_pos fun byte hbyte => ?_
  rw [bne_iff_ne]
  rintro rfl
  exact h hbyte

theorem takeWhile_line (h : 0x0A ∉ line) (rest : Text.Bytes) :
    (line ++ 0x0A :: rest).takeWhile (· != 0x0A) = line := by
  rw [takeWhile_append_of_notMem h]
  exact List.append_nil line

theorem readLine_of_unread (h : p.unread = line ++ 0x0A :: rest) (hline : 0x0A ∉ line)
    (hshort : line.length ≤ maxLine) : p.readLine =
      (.line (line ++ [0x0A]), { p with bytesRead := p.bytesRead + (line.length + 1) }) := by
  have hlength : line.length < (line ++ 0x0A :: rest).length := by
    rw [List.length_append, List.length_cons]
    omega
  have htake : (line ++ 0x0A :: rest).take (line.length + 1) = line ++ [0x0A] := by
    rw [List.take_append]
    simp
  simp only [readLine, h, takeWhile_line hline, if_neg (Nat.not_lt.mpr hshort), if_pos hlength,
    htake]

/-- A line that is too long is never read, however much of it arrives at once. -/
theorem readLine_of_long (h : p.unread = line ++ rest) (hline : 0x0A ∉ line)
    (hlong : maxLine < line.length) :
    ∃ whole bytesRead, p.readLine = (.overrun whole, { p with bytesRead }) := by
  have hupTo : maxLine < (p.unread.takeWhile (· != 0x0A)).length := by
    rw [h, takeWhile_append_of_notMem hline, List.length_append]
    omega
  simp only [readLine, if_pos hupTo]
  exact ⟨_, _, rfl⟩

end Process

end SolcDispatch
