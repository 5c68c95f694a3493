import Mathlib.Data.List.DropRight
import SolcDispatch.Text.Blank
import SolcDispatch.Text.Lines

/-! What is read in the lines of a text by a reader that finds nothing in an empty line and
pays no heed to blanks at the two ends of a line. Such a reader finds the same whatever marks
end the lines, and whatever blanks stand around the text. -/

namespace SolcDispatch.Text

theorem isBlank_of_isLineEnd {c : Char} (h : isLineEnd c) : isBlank c := by
  simp only [isLineEnd, isBlank, Bool.or_eq_true, Bool.and_eq_true, decide_eq_true_eq,
    beq_iff_eq] at h ⊢
  omega

theorem trim_cons {c : Char} (h : isBlank c) (cs : List Char) : trim (c :: cs) = trim cs := by
  rw [trim, List.dropWhile_cons_of_pos h, ← trim]

theorem dropLastWhile_eq (p : Char → Bool) (cs : List Char) :
    dropLastWhile p cs = cs.rdropWhile p := rfl

theorem getLast?_dropLastWhile_ne (c : Char) (cs : List Char) :
    (dropLastWhile (· == c) cs).getLast? ≠ some c := by
  rw [dropLastWhile_eq]
  intro hlast
  have hne : cs.rdropWhile (· == c) ≠ [] := by
    intro he
    rw [he] at hlast
    cases hlast
  refine List.rdropWhile_last_not (· == c) cs hne ?_
  rw [List.getLast?_eq_some_getLast hne, Option.some.injEq] at hlast
  exact beq_iff_eq.mpr hlast

theorem trim_concat {c : Char} (h : isBlank c) (cs : List Char) : trim (cs ++ [c]) = trim cs := by
  by_cases hall : ∀ d ∈ cs, isBlank d
  · have hboth : ∀ d ∈ cs ++ [c], isBlank d := by
      simpa [or_imp, forall_and] using ⟨hall, h⟩
    rw [trim, trim, List.dropWhile_eq_nil_iff.mpr hboth, List.dropWhile_eq_nil_iff.mpr hall]
  · have hne : (cs.dropWhile isBlank).isEmpty = false := by
      rw [List.isEmpty_eq_false_iff, ne_eq, List.dropWhile_eq_nil_iff]
      exact hall
    rw [trim, List.dropWhile_append, hne, if_neg (by decide), dropLastWhile_eq,
      List.rdropWhile_concat_pos _ _ _ h, ← dropLastWhile_eq, ← trim]

theorem trim_of_ends {cs : List Char} (hfirst : ∀ c ∈ cs.head?, isBlank c = false)
    (hlast : ∀ c ∈ cs.getLast?, isBlank c = false) : trim cs = cs := by
  have hfront : cs.dropWhile isBlank = cs := by
    cases cs with
    | nil => rfl
    | cons c cs => rw [List.dropWhile_cons_of_neg (by simp [hfirst c rfl])]
  rw [trim, hfront, dropLastWhile_eq, List.rdropWhile_eq_self_iff]
  intro hne
  simp [hlast _ (List.getLast?_eq_some_getLast hne)]

/-- What a reader finds in the lines of a text. -/
def foundIn {β : Type} (read : List Char → Option β) (cs : List Char) : List β :=
  (linesFrom [] cs).filterMap read

structure IsNameReader {β : Type} (read : List Char → Option β) : Prop where
  empty : read [] = none
  blanks : ∀ line other, trim line = trim other → read line = read other

variable {β : Type} {read : List Char → Option β} {cs ds : List Char} {c : Char}

theorem IsNameReader.cons (h : IsNameReader read) (hc : isBlank c) (line : List Char) :
    read (c :: line) = read line := h.blanks _ _ (trim_cons hc line)

theorem IsNameReader.concat (h : IsNameReader read) (hc : isBlank c) (line : List Char) :
    read (line ++ [c]) = read line := h.blanks _ _ (trim_concat hc line)

/-- Where a carriage return and a line feed end one line, cutting at each of them gives an
empty line more, and the last line may be empty; nothing is found there. -/
theorem filterMap_linesFrom (h : IsNameReader read) (line cs : List Char) :
    (linesFrom line cs).filterMap read =
      (cs.splitOnPPrepend isLineEnd line).filterMap read := by
  fun_induction linesFrom line cs with
  | case1 line hline =>
    rw [List.isEmpty_iff.mp hline]
    simp [h.empty]
  | case2 line hline => rfl
  | case3 line rest ih =>
    have hreturn : isLineEnd '\r' := by decide
    have hfeed : isLineEnd '\n' := by decide
    rw [List.splitOnPPrepend_cons_pos hreturn, ← List.splitOnPPrepend_nil_right,
      List.splitOnPPrepend_cons_pos hfeed, ← List.splitOnPPrepend_nil_right, List.filterMap_cons,
      List.filterMap_cons, List.filterMap_cons, List.reverse_nil, h.empty, ih]
  | case4 line c rest _ hc ih =>
    rw [List.splitOnPPrepend_cons_pos hc, ← List.splitOnPPrepend_nil_right, List.filterMap_cons,
      List.filterMap_cons, ih]
  | case5 line c rest _ hc ih =>
    rw [List.splitOnPPrepend_cons_neg (by simpa using hc), ih]

theorem foundIn_eq (h : IsNameReader read) (cs : List Char) :
    foundIn read cs = (cs.splitOnP isLineEnd).filterMap read := filterMap_linesFrom h [] cs

theorem foundIn_nil (read : List Char → Option β) : foundIn read [] = [] := rfl

theorem foundIn_line (h : IsNameReader read) (hcs : ∀ c ∈ cs, isLineEnd c = false) :
    foundIn read cs = (read cs).toList := by
  rw [foundIn_eq h, List.splitOnP_eq_singleton hcs, List.filterMap_cons, List.filterMap_nil]
  cases read cs <;> rfl

theorem foundIn_append_cons (h : IsNameReader read) (hc : isLineEnd c) (cs ds : List Char) :
    foundIn read (cs ++ c :: ds) = foundIn read cs ++ foundIn read ds := by
  rw [foundIn_eq h, foundIn_eq h, foundIn_eq h, List.splitOnP_append_cons cs ds hc,
    List.filterMap_append]

theorem foundIn_cons (h : IsNameReader read) (hc : isBlank c) (cs : List Char) :
    foundIn read (c :: cs) = foundIn read cs := by
  by_cases hend : isLineEnd c
  · exact foundIn_append_cons h hend [] cs
  · rw [foundIn_eq h, foundIn_eq h, List.splitOnP_cons_eq_if_modifyHead, if_neg hend]
    cases cs.splitOnP isLineEnd with
    | nil => rfl
    | cons line lines =>
      rw [List.modifyHead_cons, List.filterMap_cons, List.filterMap_cons, h.cons hc]

theorem filterMap_splitOnPPrepend_concat (h : IsNameReader read) (hc : isBlank c)
    (hend : isLineEnd c = false) (cs line : List Char) :
    ((cs ++ [c]).splitOnPPrepend isLineEnd line).filterMap read =
      (cs.splitOnPPrepend isLineEnd line).filterMap read := by
  induction cs generalizing line with
  | nil =>
    rw [List.nil_append, List.splitOnPPrepend_cons_neg hend, List.splitOnPPrepend_nil,
      List.splitOnPPrepend_nil, List.filterMap_cons, List.filterMap_cons, List.reverse_cons,
      h.concat hc]
  | cons d cs ih =>
    rw [List.cons_append]
    by_cases hd : isLineEnd d
    · rw [List.splitOnPPrepend_cons_pos hd, List.splitOnPPrepend_cons_pos hd,
        ← List.splitOnPPrepend_nil_right, ← List.splitOnPPrepend_nil_right, List.filterMap_cons,
        List.filterMap_cons, ih]
    · rw [List.splitOnPPrepend_cons_neg (by simpa using hd),
        List.splitOnPPrepend_cons_neg (by simpa using hd), ih]

theorem foundIn_concat (h : IsNameReader read) (hc : isBlank c) (cs : List Char) :
    foundIn read (cs ++ [c]) = foundIn read cs := by
  by_cases hend : isLineEnd c
  · rw [foundIn_append_cons h hend, foundIn_nil, List.append_nil]
  · rw [foundIn_eq h, foundIn_eq h]
    exact filterMap_splitOnPPrepend_concat h hc (by simpa using hend) cs []

theorem foundIn_blanks_append (h : IsNameReader read) {blanks : List Char}
    (hblanks : ∀ c ∈ blanks, isBlank c) (cs : List Char) :
    foundIn read (blanks ++ cs) = foundIn read cs := by
  induction blanks with
  | nil => rfl
  | cons c blanks ih =>
    rw [List.cons_append, foundIn_cons h (hblanks c List.mem_cons_self)]
    exact ih fun d hd => hblanks d (List.mem_cons_of_mem _ hd)

theorem foundIn_append_blanks (h : IsNameReader read) {blanks : List Char}
    (hblanks : ∀ c ∈ blanks, isBlank c) (cs : List Char) :
    foundIn read (cs ++ blanks) = foundIn read cs := by
  induction blanks using List.reverseRecOn with
  | nil => rw [List.append_nil]
  | append_singleton blanks c ih =>
    rw [← List.append_assoc, foundIn_concat h (hblanks c (by simp))]
    exact ih fun d hd => hblanks d (List.mem_append_left _ hd)

theorem filterMap_lines (read : List Char → Option β) (s : String) :
    (lines s).filterMap (fun line => read line.toList) = foundIn read s.toList := by
  rw [lines, List.filterMap_map, foundIn]
  congr 1
  funext line
  rw [Function.comp_apply, String.toList_ofList]

end SolcDispatch.Text
