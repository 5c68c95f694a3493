import Mathlib.Data.Nat.Digits.Defs
import SolcDispatch.Failure
import SolcDispatch.Proofs.Text.Lines
import SolcDispatch.Proofs.Version.Canonical

/-! The texts that are read as versions: three numbers after an optional `v`, then the two
suffixes, between blanks. A text has at most one such reading, and any other is refused. -/

namespace SolcDispatch

namespace Text

variable {cs core : List Char}

/-- A text without the blanks at its two ends. -/
structure IsTrimmed (core cs : List Char) : Prop where
  around : ∃ before after, cs = before ++ (core ++ after) ∧
    (∀ c ∈ before, isBlank c) ∧ ∀ c ∈ after, isBlank c
  first : ∀ c ∈ core.head?, isBlank c = false
  last : ∀ c ∈ core.getLast?, isBlank c = false

theorem isTrimmed_trim (cs : List Char) : IsTrimmed (trim cs) cs := by
  have hfront := List.takeWhile_append_dropWhile (p := isBlank) (l := cs)
  have hback := List.rdropWhile_append_rtakeWhile (p := isBlank) (l := cs.dropWhile isBlank)
  constructor
  case around =>
    refine ⟨cs.takeWhile isBlank, (cs.dropWhile isBlank).rtakeWhile isBlank, ?_, ?_, ?_⟩
    · rw [trim, dropLastWhile_eq, hback, hfront]
    · exact fun c hc => List.mem_takeWhile_imp hc
    · exact fun c hc => List.mem_rtakeWhile_imp hc
  case first =>
    intro c hc
    -- What is cut off at the end leaves the first character as it was.
    have hhead : (cs.dropWhile isBlank).head? = some c := by
      have hkept : ((cs.dropWhile isBlank).rdropWhile isBlank).head? = some c := hc
      rw [← hback, List.head?_append, hkept, Option.some_or]
    have hnot := List.head?_dropWhile_not isBlank cs
    rw [hhead] at hnot
    exact hnot
  case last =>
    intro c hc
    have hne : (cs.dropWhile isBlank).rdropWhile isBlank ≠ [] := by
      intro hnil
      rw [trim, dropLastWhile_eq, hnil] at hc
      cases hc
    have hnot := List.rdropWhile_last_not isBlank (cs.dropWhile isBlank) hne
    rw [trim, dropLastWhile_eq, List.getLast?_eq_some_getLast hne] at hc
    rw [← Option.some.inj hc]
    simpa using hnot

theorem trim_blanks_append {before : List Char} (h : ∀ c ∈ before, isBlank c) (cs : List Char) :
    trim (before ++ cs) = trim cs := by
  induction before with
  | nil => rfl
  | cons c before ih =>
    obtain ⟨hc, hrest⟩ := List.forall_mem_cons.mp h
    rw [List.cons_append, trim_cons hc, ih hrest]

theorem trim_append_blanks {after : List Char} (h : ∀ c ∈ after, isBlank c) (cs : List Char) :
    trim (cs ++ after) = trim cs := by
  induction after generalizing cs with
  | nil => rw [List.append_nil]
  | cons c after ih =>
    obtain ⟨hc, hrest⟩ := List.forall_mem_cons.mp h
    rw [← List.concat_append, ih hrest, List.concat_eq_append, trim_concat hc]

theorem isTrimmed_iff : IsTrimmed core cs ↔ core = trim cs := by
  constructor
  · rintro ⟨⟨before, after, rfl, hbefore, hafter⟩, hfirst, hlast⟩
    rw [trim_blanks_append hbefore, trim_append_blanks hafter, trim_of_ends hfirst hlast]
  · rintro rfl
    exact isTrimmed_trim cs

/-- The number whose decimal places are the digits of a run. -/
def decimal (run : List Char) : Nat :=
  Nat.ofDigits 10 (run.reverse.map fun c => (digitValue? c).getD 0)

theorem digitsValue_eq_decimal (run : List Char) : digitsValue run = decimal run := by
  induction run using List.reverseRecOn with
  | nil => rfl
  | append_singleton run c ih =>
    have hstep : digitsValue (run ++ [c]) = 10 * digitsValue run + (digitValue? c).getD 0 :=
      List.foldl_concat ..
    rw [hstep, ih, decimal, decimal, List.reverse_append, List.reverse_singleton,
      List.singleton_append, List.map_cons, Nat.ofDigits_cons, Nat.add_comm]

end Text

namespace CompilerVersion

variable {cs mark other rest run : List Char} {parts second : Parts}

/-- The characters are an identifier with the given parts after `v`, or without it. -/
structure Spells (cs mark : List Char) (parts : Parts) : Prop where
  marked : mark = [] ∨ mark = ['v']
  major : IsNumeral parts.major
  minor : IsNumeral parts.minor
  patch : IsNumeral parts.patch
  prerelease : SuffixReads parts.prerelease
  build : SuffixReads parts.build
  text : cs = spelledChars mark parts.major parts.minor parts.patch parts.prerelease parts.build

def Parts.runs (parts : Parts) : List (List Char) := [parts.major, parts.minor, parts.patch]

/-- The version with the numbers that the runs write in decimal. -/
def Parts.version (parts : Parts) : CompilerVersion where
  major := Text.decimal parts.major
  minor := Text.decimal parts.minor
  patch := Text.decimal parts.patch
  prerelease := parts.prerelease
  build := parts.build

theorem eq_of_digitRun? (h : digitRun? cs = some (run, rest)) : IsNumeral run ∧ cs = run ++ rest := by
  have hsplit := List.takeWhile_append_dropWhile (p := Text.isDecimalDigit) (l := cs)
  unfold digitRun? at h
  split at h
  · cases h
  · rename_i hne
    cases h
    exact ⟨⟨hne, fun c hc => List.mem_takeWhile_imp hc⟩, hsplit.symm⟩

theorem eq_of_expect? {c : Char} (h : expect? c cs = some rest) : cs = c :: rest := by
  cases cs with
  | nil => cases h
  | cons d more =>
    by_cases hd : c = d
    · rw [expect?, if_pos hd] at h
      rw [hd, Option.some.inj h]
    · rw [expect?, if_neg hd] at h
      cases h

theorem eq_of_suffix? {c : Char} {suffix : Option String} (h : suffix? c cs = some (suffix, rest)) :
    cs = suffixChars c suffix ++ rest := by
  unfold suffix? at h
  split at h
  · cases h
    rfl
  · rename_i d more
    have hsplit := List.takeWhile_append_dropWhile (p := isSuffixChar) (l := more)
    by_cases hd : d = c
    · rw [if_pos hd] at h
      split at h
      · cases h
      · cases h
        rw [suffixChars, String.toList_ofList, List.cons_append, hsplit, hd]
    · rw [if_neg hd] at h
      cases h
      rfl

theorem spells_of_parts? (h : parts? cs = some parts) : ∃ mark, Spells cs mark parts := by
  have hsuffixes := parts?_reads h
  have hmark : ∃ mark, (mark = [] ∨ mark = ['v']) ∧ cs = mark ++ (expect? 'v' cs).getD cs := by
    cases hv : expect? 'v' cs with
    | none => exact ⟨[], .inl rfl, rfl⟩
    | some rest => exact ⟨['v'], .inr rfl, eq_of_expect? hv⟩
  obtain ⟨mark, hmark, hcs⟩ := hmark
  simp only [parts?, bind, Option.bind_eq_some_iff] at h
  obtain ⟨⟨major, first⟩, hmajor, second, hdot, ⟨minor, third⟩, hminor, fourth, hdot',
    ⟨patch, fifth⟩, hpatch, ⟨pre, sixth⟩, hpre, ⟨build, rest⟩, hbuild, hend⟩ := h
  split at hend
  · rename_i hempty
    cases hend
    obtain ⟨hmajor, hcore⟩ := eq_of_digitRun? hmajor
    obtain ⟨hminor, hsecond⟩ : IsNumeral minor ∧ second = minor ++ third := eq_of_digitRun? hminor
    obtain ⟨hpatch, hfourth⟩ : IsNumeral patch ∧ fourth = patch ++ fifth := eq_of_digitRun? hpatch
    have hfirst : first = '.' :: second := eq_of_expect? hdot
    have hthird : third = '.' :: fourth := eq_of_expect? hdot'
    have hfifth : fifth = suffixChars '-' pre ++ sixth := eq_of_suffix? hpre
    have hsixth : sixth = suffixChars '+' build ++ rest := eq_of_suffix? hbuild
    have hrest : rest = [] := List.isEmpty_iff.mp hempty
    refine ⟨mark, hmark, hmajor, hminor, hpatch, hsuffixes.1, hsuffixes.2, ?_⟩
    rw [hcs, hcore, hfirst, hsecond, hthird, hfourth, hfifth, hsixth, hrest, spelledChars]
  · cases hend

theorem Spells.parts?_eq (h : Spells cs mark parts) : parts? cs = some parts := by
  rw [h.text]
  exact parts?_spelledChars h.marked h.major h.minor h.patch h.prerelease h.build

theorem Spells.expect?_isSome (h : Spells cs mark parts) :
    (expect? 'v' cs).isSome = !mark.isEmpty := by
  rw [h.text]
  rcases h.marked with rfl | rfl
  · rw [spelledChars, List.nil_append, h.major.expect?_eq_none]
    rfl
  · rfl

theorem Spells.unique (h : Spells cs mark parts) (ho : Spells cs other second) :
    mark = other ∧ parts = second := by
  have hparts : parts = second := Option.some.inj (h.parts?_eq.symm.trans ho.parts?_eq)
  have hmarks : mark.isEmpty = other.isEmpty := by
    rw [← Bool.not_inj_iff, ← h.expect?_isSome, ho.expect?_isSome]
  refine ⟨?_, hparts⟩
  rcases h.marked with rfl | rfl <;> rcases ho.marked with rfl | rfl <;> simp_all

variable {text : String}

theorem number_of_short (h : ¬ Json.maxDigits < run.length) :
    number run = .ok (Text.decimal run) := by
  rw [number, if_neg h, Text.digitsValue_eq_decimal]

theorem number_of_long (h : Json.maxDigits < run.length) :
    number run = .error (.longNumber run.length) := by
  rw [number, if_pos h]

/-- The first number of an identifier that has too many digits to be read. -/
def Parts.longRun? (parts : Parts) : Option (List Char) :=
  parts.runs.find? fun run => Json.maxDigits < run.length

theorem Parts.longRun?_eq_none_iff :
    parts.longRun? = none ↔ ∀ run ∈ parts.runs, run.length ≤ Json.maxDigits := by
  simp only [longRun?, List.find?_eq_none, decide_eq_true_eq, Nat.not_lt]

theorem parse_of_parts? (h : parts? (Text.trim text.toList) = some parts) :
    parse text = match parts.longRun? with
      | some run => .error (.longNumber run.length)
      | none => .ok parts.version := by
  rw [parse, h]
  by_cases hmajor : Json.maxDigits < parts.major.length
  · simp only [Parts.longRun?, Parts.runs, List.find?, hmajor, decide_true, number_of_long hmajor]
    rfl
  · by_cases hminor : Json.maxDigits < parts.minor.length
    · simp only [Parts.longRun?, Parts.runs, List.find?, hmajor, hminor, decide_true, decide_false,
        number_of_short hmajor, number_of_long hminor]
      rfl
    · by_cases hpatch : Json.maxDigits < parts.patch.length
      · simp only [Parts.longRun?, Parts.runs, List.find?, hmajor, hminor, hpatch, decide_true,
          decide_false, number_of_short hmajor, number_of_short hminor, number_of_long hpatch]
        rfl
      · simp only [Parts.longRun?, Parts.runs, List.find?, hmajor, hminor, hpatch, decide_false,
          number_of_short hmajor, number_of_short hminor, number_of_short hpatch]
        rfl

theorem parse_of_not_spells (h : ¬ ∃ mark parts, Spells (Text.trim text.toList) mark parts) :
    parse text = .error (.notAVersion text) := by
  cases hparts : parts? (Text.trim text.toList) with
  | none => rw [parse, hparts]
  | some parts =>
    obtain ⟨mark, hspells⟩ := spells_of_parts? hparts
    exact absurd ⟨mark, parts, hspells⟩ h

theorem parse_eq_ok_iff {v : CompilerVersion} :
    parse text = .ok v ↔ ∃ mark parts, Spells (Text.trim text.toList) mark parts ∧
      (∀ run ∈ parts.runs, run.length ≤ Json.maxDigits) ∧ parts.version = v := by
  constructor
  · intro h
    by_cases hspells : ∃ mark parts, Spells (Text.trim text.toList) mark parts
    · obtain ⟨mark, parts, hspells⟩ := hspells
      rw [parse_of_parts? hspells.parts?_eq] at h
      cases hlong : parts.longRun? with
      | some run =>
        rw [hlong] at h
        cases h
      | none =>
        rw [hlong] at h
        exact ⟨mark, parts, hspells, Parts.longRun?_eq_none_iff.mp hlong, Except.ok.inj h⟩
    · rw [parse_of_not_spells hspells] at h
      cases h
  · rintro ⟨mark, parts, hspells, hshort, rfl⟩
    rw [parse_of_parts? hspells.parts?_eq, Parts.longRun?_eq_none_iff.mpr hshort]

theorem parse_eq_error_iff {error : VersionError} :
    parse text = .error error ↔
      (¬ ∃ mark parts, Spells (Text.trim text.toList) mark parts) ∧ error = .notAVersion text ∨
      ∃ mark parts run, Spells (Text.trim text.toList) mark parts ∧
        parts.longRun? = some run ∧ error = .longNumber run.length := by
  constructor
  · intro h
    by_cases hspells : ∃ mark parts, Spells (Text.trim text.toList) mark parts
    · obtain ⟨mark, parts, hspells⟩ := hspells
      rw [parse_of_parts? hspells.parts?_eq] at h
      cases hlong : parts.longRun? with
      | some run =>
        rw [hlong] at h
        exact .inr ⟨mark, parts, run, hspells, hlong, (Except.error.inj h).symm⟩
      | none =>
        rw [hlong] at h
        cases h
    · rw [parse_of_not_spells hspells] at h
      exact .inl ⟨hspells, (Except.error.inj h).symm⟩
  · rintro (⟨hspells, rfl⟩ | ⟨mark, parts, run, hspells, hlong, rfl⟩)
    · exact parse_of_not_spells hspells
    · rw [parse_of_parts? hspells.parts?_eq, hlong]

/-- A text is read as a version exactly if it is an identifier between blanks whose numbers are
not too long; there is one way to take it apart, and what is wrong with any other is told. -/
theorem parse_accepts_identifiers (text : String) :
    (∀ core, Text.IsTrimmed core text.toList ↔ core = Text.trim text.toList) ∧
    (∀ v, parse text = .ok v ↔ ∃ mark parts, Spells (Text.trim text.toList) mark parts ∧
      (∀ run ∈ parts.runs, run.length ≤ Json.maxDigits) ∧ parts.version = v) ∧
    (∀ mark parts other second, Spells (Text.trim text.toList) mark parts →
      Spells (Text.trim text.toList) other second → mark = other ∧ parts = second) ∧
    (∀ error, parse text = .error error ↔
      (¬ ∃ mark parts, Spells (Text.trim text.toList) mark parts) ∧ error = .notAVersion text ∨
      ∃ mark parts run, Spells (Text.trim text.toList) mark parts ∧
        parts.longRun? = some run ∧ error = .longNumber run.length) ∧
    ∀ error, parse text = .error error →
      parse? text = none ∧ (Failure.badVersion error).failureClass = .value := by
  refine ⟨fun _ => Text.isTrimmed_iff, fun _ => parse_eq_ok_iff, fun _ _ _ _ h ho => h.unique ho,
    fun _ => parse_eq_error_iff, fun error h => ⟨?_, rfl⟩⟩
  rw [parse?, h]
  rfl

end CompilerVersion

end SolcDispatch
