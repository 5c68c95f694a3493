import SolcDispatch.Proofs.Artifact.Names

/-! Spellings of one version. Reading, the catalog and the names of builds see only which
version a text spells. -/

namespace SolcDispatch

namespace CompilerVersion

/-- The canonical spelling of a text that is a version; any other text stays as it is. -/
def spelling (text : String) : String := (canonical? text).getD text

variable {a b : String} {v : CompilerVersion}

theorem spelling_of_parse (h : parse a = .ok v) : spelling a = v.canonical := by
  rw [spelling, canonical?, parse?_eq_some_iff.mpr h]
  rfl

theorem spelling_of_parse_error {error : VersionError} (h : parse a = .error error) :
    spelling a = a := by
  rw [spelling, canonical?, parse?, h]
  rfl

theorem spelling_congr (ha : parse a = .ok v) (hb : parse b = .ok v) :
    spelling a = spelling b := by
  rw [spelling_of_parse ha, spelling_of_parse hb]

@[simp] theorem parse_spelling (text : String) : parse (spelling text) = parse text := by
  cases h : parse text with
  | ok v =>
    rw [spelling_of_parse h]
    exact parse?_eq_some_iff.mp (wellFormed_of_parse h).parse?_canonical
  | error error => rw [spelling_of_parse_error h, h]

@[simp] theorem canonical?_spelling (text : String) :
    canonical? (spelling text) = canonical? text := by
  rw [canonical?, parse?, parse_spelling, ← parse?, ← canonical?]

end CompilerVersion

open CompilerVersion (spelling)

variable {a b : String}

@[simp] theorem Snapshot.classify_spelling (known : Snapshot) (version : String) :
    known.classify (spelling version) = known.classify version := by
  simp only [classify, CompilerVersion.canonical?_spelling]

@[simp] theorem Snapshot.exists?_spelling (known : Snapshot) (version : String) :
    known.exists? (spelling version) = known.exists? version := by
  simp only [exists?, CompilerVersion.canonical?_spelling]

@[simp] theorem Artifact.name_spelling (platform : String) (kind : BuildKind) (version : String) :
    name platform kind (spelling version) = name platform kind version := by
  rw [name, CompilerVersion.parse_spelling, ← name]

theorem Snapshot.classify_congr (known : Snapshot) (h : spelling a = spelling b) :
    known.classify a = known.classify b := by
  rw [← classify_spelling, h, classify_spelling]

theorem Snapshot.exists?_congr (known : Snapshot) (h : spelling a = spelling b) :
    known.exists? a = known.exists? b := by
  rw [← exists?_spelling, h, exists?_spelling]

theorem Artifact.name_congr (platform : String) (kind : BuildKind) (h : spelling a = spelling b) :
    name platform kind a = name platform kind b := by
  rw [← name_spelling, h, name_spelling]

end SolcDispatch
