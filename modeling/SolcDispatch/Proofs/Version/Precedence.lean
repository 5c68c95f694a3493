import SolcDispatch.Proofs.Catalog.Listing
import SolcDispatch.Proofs.Version.Identifiers
import SolcDispatch.Proofs.Version.Order

/-! Where the order of versions is the precedence of semantic versioning, and where comparing
prereleases as whole texts leads it astray. -/

namespace SolcDispatch.CompilerVersion

open Prerelease

variable {a b : CompilerVersion}

structure SameCore (a b : CompilerVersion) : Prop where
  major : a.major = b.major
  minor : a.minor = b.minor
  patch : a.patch = b.patch

def CoreBefore (a b : CompilerVersion) : Prop :=
  a.major < b.major ∨ a.major = b.major ∧
    (a.minor < b.minor ∨ a.minor = b.minor ∧ a.patch < b.patch)

/-- The numbers decide, then a prerelease comes before its release, and two prereleases are in
the given order. Builds do not count. -/
inductive Before (order : String → String → Prop) (a b : CompilerVersion) : Prop
  | core (h : CoreBefore a b)
  | release {p : String} (hcore : SameCore a b) (ha : a.prerelease = some p)
      (hb : b.prerelease = none)
  | prerelease {p q : String} (hcore : SameCore a b) (ha : a.prerelease = some p)
      (hb : b.prerelease = some q) (h : order p q)

/-- The precedence of semantic versioning, where prereleases go by their identifiers. -/
def Precedes : CompilerVersion → CompilerVersion → Prop :=
  Before fun p q => Precede (identifiers p) (identifiers q)

/-- Prereleases of the same numbers with deceptive identifiers. -/
structure Misled (a b : CompilerVersion) : Prop where
  core : SameCore a b
  prereleases : ∃ p q, a.prerelease = some p ∧ b.prerelease = some q ∧
    Deceptive (identifiers p) (identifiers q)

section Before

variable {order other : String → String → Prop}

theorem CoreBefore.not_sameCore (h : CoreBefore a b) : ¬ SameCore a b := by
  rintro ⟨hmajor, hminor, hpatch⟩
  unfold CoreBefore at h
  omega

theorem SameCore.symm (h : SameCore a b) : SameCore b a :=
  ⟨h.major.symm, h.minor.symm, h.patch.symm⟩

theorem CoreBefore.asymm (h : CoreBefore a b) : ¬ CoreBefore b a := by
  unfold CoreBefore at h ⊢
  omega

theorem before_iff_of_sameCore {p q : String} (hcore : SameCore a b)
    (ha : a.prerelease = some p) (hb : b.prerelease = some q) : Before order a b ↔ order p q := by
  refine ⟨fun h => ?_, .prerelease hcore ha hb⟩
  cases h with
  | core h => exact absurd hcore h.not_sameCore
  | release _ _ hb' => simp [hb] at hb'
  | prerelease _ ha' hb' h =>
    rw [ha] at ha'
    rw [hb] at hb'
    cases ha'
    cases hb'
    exact h

theorem Before.asymm (horder : ∀ p q, order p q → ¬ order q p) (h : Before order a b) :
    ¬ Before order b a := by
  intro h'
  cases h with
  | core h =>
    cases h' with
    | core h' => exact h.asymm h'
    | release hcore _ _ => exact h.not_sameCore hcore.symm
    | prerelease hcore _ _ _ => exact h.not_sameCore hcore.symm
  | release hcore ha hb =>
    cases h' with
    | core h' => exact h'.not_sameCore hcore.symm
    | release _ hb' _ => simp [hb] at hb'
    | prerelease _ hb' _ _ => simp [hb] at hb'
  | prerelease hcore ha hb h =>
    exact horder _ _ h ((before_iff_of_sameCore hcore.symm hb ha).mp h')

/-- Two orders of prereleases come apart at prereleases of the same numbers alone. -/
theorem before_and_not_before_iff : Before order a b ∧ ¬ Before other a b ↔
    SameCore a b ∧ ∃ p q, a.prerelease = some p ∧ b.prerelease = some q ∧
      order p q ∧ ¬ other p q := by
  constructor
  · rintro ⟨h, hnot⟩
    cases h with
    | core h => exact absurd (.core h) hnot
    | release hcore ha hb => exact absurd (.release hcore ha hb) hnot
    | prerelease hcore ha hb h =>
      exact ⟨hcore, _, _, ha, hb, h, fun h' => hnot (.prerelease hcore ha hb h')⟩
  · rintro ⟨hcore, p, q, ha, hb, h⟩
    rwa [before_iff_of_sameCore hcore ha hb, before_iff_of_sameCore hcore ha hb]

end Before

theorem order_eq_lt_iff : order a b = .lt ↔ CoreBefore a b ∨ SameCore a b ∧
    ((a.prerelease.isNone = false ∧ b.prerelease.isNone = true) ∨
      a.prerelease.isNone = b.prerelease.isNone ∧
        a.prerelease.getD "" < b.prerelease.getD "") := by
  simp only [order, Ordering.then_eq_lt, compare_lt_iff_lt, compare_eq_iff_eq, Bool.lt_iff]
  constructor
  · rintro (h | ⟨hmajor, h | ⟨hminor, h | ⟨hpatch, h⟩⟩⟩)
    · exact .inl (.inl h)
    · exact .inl (.inr ⟨hmajor, .inl h⟩)
    · exact .inl (.inr ⟨hmajor, .inr ⟨hminor, h⟩⟩)
    · exact .inr ⟨⟨hmajor, hminor, hpatch⟩, h⟩
  · rintro ((h | ⟨hmajor, h | ⟨hminor, h⟩⟩) | ⟨⟨hmajor, hminor, hpatch⟩, h⟩)
    · exact .inl h
    · exact .inr ⟨hmajor, .inl h⟩
    · exact .inr ⟨hmajor, .inr ⟨hminor, .inl h⟩⟩
    · exact .inr ⟨hmajor, .inr ⟨hminor, .inr ⟨hpatch, h⟩⟩⟩

theorem isBefore_iff : a.isBefore b = true ↔ Before (· < ·) a b := by
  rw [isBefore, beq_iff_eq, order_eq_lt_iff]
  constructor
  · rintro (h | ⟨hcore, h⟩)
    · exact .core h
    · cases ha : a.prerelease with
      | none => cases hb : b.prerelease <;> simp [ha, hb] at h
      | some p =>
        cases hb : b.prerelease with
        | none => exact .release hcore ha hb
        | some q => exact .prerelease hcore ha hb (by simpa [ha, hb] using h)
  · intro h
    cases h with
    | core h => exact .inl h
    | release hcore ha hb => exact .inr ⟨hcore, .inl (by simp [ha, hb])⟩
    | prerelease hcore ha hb h => exact .inr ⟨hcore, .inr (by simpa [ha, hb] using h)⟩

theorem misled_iff (ha : a.WellFormed) (hb : b.WellFormed) :
    Misled a b ↔ a.isBefore b = true ∧ ¬ Precedes a b := by
  rw [isBefore_iff, Precedes, before_and_not_before_iff]
  constructor
  · rintro ⟨hcore, p, q, hp, hq, h⟩
    exact ⟨hcore, p, q, hp, hq, (deceptive_identifiers_iff (ha.prerelease p hp).2
      (hb.prerelease q hq).2).mp h⟩
  · rintro ⟨hcore, p, q, hp, hq, h⟩
    exact ⟨hcore, p, q, hp, hq, (deceptive_identifiers_iff (ha.prerelease p hp).2
      (hb.prerelease q hq).2).mpr h⟩

theorem Precedes.asymm (h : Precedes a b) : ¬ Precedes b a :=
  Before.asymm (fun _ _ => Precede.asymm) h

theorem isBefore_of_precedes (ha : a.WellFormed) (hb : b.WellFormed) (h : Precedes a b)
    (hnot : ¬ Misled b a) : a.isBefore b = true := by
  by_contra hbefore
  rw [isBefore_iff] at hbefore
  obtain ⟨hcore, p, q, hp, hq, hprecede, hle⟩ := before_and_not_before_iff.mp ⟨h, hbefore⟩
  rcases lt_trichotomy p q with hlt | rfl | hgt
  · exact hle hlt
  · exact not_precede_self _ hprecede
  · refine hnot ⟨hcore.symm, q, p, hq, hp, ?_⟩
    exact (deceptive_identifiers_iff (hb.prerelease q hq).2 (ha.prerelease p hp).2).mpr
      ⟨hgt, hprecede.asymm⟩

/-- The order of two versions is their precedence, whichever is asked for first. -/
def Agrees (a b : CompilerVersion) : Prop :=
  (a.isBefore b = true ↔ Precedes a b) ∧ (b.isBefore a = true ↔ Precedes b a)

theorem agrees_iff (ha : a.WellFormed) (hb : b.WellFormed) :
    Agrees a b ↔ ¬ Misled a b ∧ ¬ Misled b a := by
  constructor
  · rintro ⟨hab, hba⟩
    rw [misled_iff ha hb, misled_iff hb ha, hab, hba]
    simp
  · rintro ⟨hab, hba⟩
    have hto {c d : CompilerVersion} (hc : c.WellFormed) (hd : d.WellFormed)
        (hnot : ¬ Misled c d) (h : c.isBefore d = true) : Precedes c d := by
      by_contra hprecedes
      exact hnot ((misled_iff hc hd).mpr ⟨h, hprecedes⟩)
    exact ⟨⟨hto ha hb hab, fun h => isBefore_of_precedes ha hb h hba⟩,
      hto hb ha hba, fun h => isBefore_of_precedes hb ha h hab⟩

section Nightlies

def nightly (year month day : Nat) : String := s!"nightly.{year}.{month}.{day}"

theorem isNumeric_toDigits (n : Nat) : IsNumeric (Nat.toDigits 10 n) :=
  ⟨Nat.toDigits_ne_nil, fun _ hc => Nat.isDigit_of_mem_toDigits (by decide) (by decide) hc⟩

theorem decimal_toDigits (n : Nat) : Text.decimal (Nat.toDigits 10 n) = n := by
  rw [← Text.digitsValue_eq_decimal, Text.digitsValue_toDigits]

theorem identifiers_nightly (year month day : Nat) : identifiers (nightly year month day) =
    "nightly".toList :: [year, month, day].map (Nat.toDigits 10) := by
  have hdot (n : Nat) : '.' ∉ Nat.toDigits 10 n :=
    fun hmem => absurd ((isNumeric_toDigits n).digits _ hmem) (by decide)
  have hrepr (n : Nat) : (toString n).toList = Nat.toDigits 10 n := Nat.toList_repr
  have htext : (nightly year month day).toList = ['.'].intercalate
      ("nightly".toList :: [year, month, day].map (Nat.toDigits 10)) := by
    simp only [nightly, String.toList_append, hrepr, List.map_cons, List.map_nil,
      List.intercalate_cons_cons, List.intercalate_singleton, List.append_assoc]
    rfl
  rw [identifiers, htext, List.splitOn_intercalate]
  · simp [hdot]
  · exact List.cons_ne_nil _ _

theorem below_toDigits_iff {m n : Nat} :
    Below (Nat.toDigits 10 m) (Nat.toDigits 10 n) ↔ m < n := by
  constructor
  · rintro (⟨-, -, h⟩ | ⟨-, hn⟩ | ⟨hm, -, -⟩)
    · rwa [decimal_toDigits, decimal_toDigits] at h
    · exact absurd (isNumeric_toDigits n) hn
    · exact absurd (isNumeric_toDigits m) hm
  · intro h
    rw [← decimal_toDigits m, ← decimal_toDigits n] at h
    exact .numbers (isNumeric_toDigits m) (isNumeric_toDigits n) h

theorem toDigits_inj {m n : Nat} : Nat.toDigits 10 m = Nat.toDigits 10 n ↔ m = n := by
  refine ⟨fun h => ?_, congrArg _⟩
  rw [← decimal_toDigits m, h, decimal_toDigits]

theorem sameRank_toDigits_iff {m n : Nat} :
    SameRank (Nat.toDigits 10 m) (Nat.toDigits 10 n) ↔ m = n := by
  constructor
  · rintro (h | ⟨-, -, h⟩)
    · exact toDigits_inj.mp h
    · rwa [decimal_toDigits, decimal_toDigits] at h
  · rintro rfl
    exact .same rfl

/-- Identifiers that are numbers precede one another as the numbers do. -/
theorem precede_numerals_iff {ms ns : List Nat} :
    Precede (ms.map (Nat.toDigits 10)) (ns.map (Nat.toDigits 10)) ↔ ms < ns := by
  induction ms generalizing ns with
  | nil =>
    cases ns with
    | nil => exact ⟨fun h => absurd h (not_precede_self _), fun h => absurd h (List.lt_irrefl _)⟩
    | cons n ns => exact ⟨fun _ => List.nil_lt_cons _ _, fun _ => .fewer⟩
  | cons m ms ih =>
    cases ns with
    | nil =>
      refine ⟨fun h => ?_, fun h => absurd h (List.not_lt_nil _)⟩
      cases h
    | cons n ns =>
      rw [List.map_cons, List.map_cons, precede_cons_iff, List.cons_lt_cons_iff,
        below_toDigits_iff, sameRank_toDigits_iff, ih]

theorem deceptive_toDigits_iff {m n : Nat} {xs ys : List (List Char)} (hne : m ≠ n) :
    Deceptive (Nat.toDigits 10 m :: xs) (Nat.toDigits 10 n :: ys) ↔
      n < m ∧ Nat.toDigits 10 m < Nat.toDigits 10 n := by
  constructor
  · intro h
    generalize hx : Nat.toDigits 10 m = x at h ⊢
    generalize hy : Nat.toDigits 10 n = y at h ⊢
    cases h with
    | numbers _ _ htext hvalue =>
      rw [← hx, ← hy, decimal_toDigits, decimal_toDigits] at hvalue
      exact ⟨hvalue, htext⟩
    | zeros _ _ _ hvalue _ =>
      rw [← hx, ← hy, decimal_toDigits, decimal_toDigits] at hvalue
      exact absurd hvalue hne
    | kinds hx' _ _ => exact absurd (hx ▸ isNumeric_toDigits m) hx'
    | hyphen _ h => exact absurd h (hx ▸ isNumeric_toDigits m).not_hyphenated
    | same _ => exact absurd (toDigits_inj.mp (hx.trans hy.symm)) hne
  · rintro ⟨hlt, htext⟩
    rw [← decimal_toDigits m, ← decimal_toDigits n] at hlt
    exact .numbers (isNumeric_toDigits m) (isNumeric_toDigits n) htext hlt

/-- Of as many numbers, the first that differ deceive if the greater one is the smaller text. -/
theorem deceptive_numerals_iff {ms ns : List Nat} (hlength : ms.length = ns.length) :
    Deceptive (ms.map (Nat.toDigits 10)) (ns.map (Nat.toDigits 10)) ↔
      List.Lex (fun m n => n < m ∧ Nat.toDigits 10 m < Nat.toDigits 10 n) ms ns := by
  induction ms generalizing ns with
  | nil =>
    obtain rfl := List.length_eq_zero_iff.mp hlength.symm
    refine ⟨fun h => ?_, fun h => absurd h List.not_lex_nil⟩
    cases h
  | cons m ms ih =>
    cases ns with
    | nil => cases hlength
    | cons n ns =>
      rw [List.map_cons, List.map_cons, List.cons_lex_cons_iff]
      by_cases hne : m = n
      · subst hne
        rw [deceptive_cons_self_iff, ih (Nat.succ.inj hlength)]
        simp
      · rw [deceptive_toDigits_iff hne]
        simp [hne]

variable {year month day year' month' day' : Nat}

theorem precedes_nightly_iff (hcore : SameCore a b)
    (ha : a.prerelease = some (nightly year month day))
    (hb : b.prerelease = some (nightly year' month' day')) :
    Precedes a b ↔ [year, month, day] < [year', month', day'] := by
  rw [Precedes, before_iff_of_sameCore hcore ha hb, identifiers_nightly, identifiers_nightly,
    precede_cons_self_iff, precede_numerals_iff]

theorem misled_nightly_iff (hcore : SameCore a b)
    (ha : a.prerelease = some (nightly year month day))
    (hb : b.prerelease = some (nightly year' month' day')) :
    Misled a b ↔ List.Lex (fun m n => n < m ∧ Nat.toDigits 10 m < Nat.toDigits 10 n)
      [year, month, day] [year', month', day'] := by
  have hlength : [year, month, day].length = [year', month', day'].length := rfl
  rw [← deceptive_numerals_iff hlength, ← deceptive_cons_self_iff, ← identifiers_nightly,
    ← identifiers_nightly]
  constructor
  · rintro ⟨-, p, q, hp, hq, h⟩
    rw [ha] at hp
    rw [hb] at hq
    cases hp
    cases hq
    exact h
  · exact fun h => ⟨hcore, _, _, ha, hb, h⟩

end Nightlies

/-- The versions in a list of native builds that the floor lets through, where it is not
misled. -/
theorem mem_native_iff_not_precedes {platform canonical : String} {lines : List String}
    (hb : b.WellFormed) (h : ∀ line ∈ lines, ∀ v,
      Index.Names (Artifact.nativeStart platform) "" line v → ¬ Misled v b ∧ ¬ Misled b v) :
    canonical ∈ Index.native platform b lines ↔ ∃ line ∈ lines, ∃ v,
      Index.Names (Artifact.nativeStart platform) "" line v ∧ ¬ Precedes v b ∧
        v.canonical = canonical := by
  have hkept {line : String} (hline : line ∈ lines) {v : CompilerVersion}
      (hv : Index.Names (Artifact.nativeStart platform) "" line v) :
      v.isBefore b = false ↔ ¬ Precedes v b := by
    rw [← ((agrees_iff hv.wellFormed hb).mpr (h line hline v hv)).1, Bool.not_eq_true]
  rw [Index.mem_native_iff]
  constructor
  · rintro ⟨line, hline, v, hv, hbefore, hcanonical⟩
    exact ⟨line, hline, v, hv, (hkept hline hv).mp hbefore, hcanonical⟩
  · rintro ⟨line, hline, v, hv, hprecedes, hcanonical⟩
    exact ⟨line, hline, v, hv, (hkept hline hv).mpr hprecedes, hcanonical⟩

theorem pairwise_sortDescending_not_precedes {versions : List CompilerVersion}
    (hread : ∀ v ∈ versions, v.WellFormed) (h : ∀ v ∈ versions, ∀ w ∈ versions, ¬ Misled v w) :
    (sortDescending versions).Pairwise fun v w => ¬ Precedes v w := by
  refine (pairwise_sortDescending versions).imp_of_mem fun {v w} hv hw hle => ?_
  have hv := (sortDescending_perm versions).subset hv
  have hw := (sortDescending_perm versions).subset hw
  rw [← ((agrees_iff (hread v hv) (hread w hw)).mpr ⟨h v hv w hw, h w hw v hv⟩).1]
  rw [isAtLeast, bne_iff_ne] at hle
  rwa [isBefore, beq_iff_eq]

/-- The order of two versions that are read from texts is the precedence of semantic versioning,
in both directions, exactly if neither is misled by the other; each that is misled comes before
a version that it does not precede. Where no version is misled, the floor of native builds and
the sorting of releases go by precedence. Nightlies precede one another by date, and are misled
where of the first of their numbers that differ the greater one is the smaller text. -/
theorem order_agrees_iff_not_misled {s t : String} (ha : parse? s = some a)
    (hb : parse? t = some b) :
    (Agrees a b ↔ ¬ Misled a b ∧ ¬ Misled b a) ∧
    (Misled a b ↔ a.isBefore b = true ∧ ¬ Precedes a b) ∧
    (∀ {platform : String} {lines : List String}, (∀ line ∈ lines, ∀ v,
        Index.Names (Artifact.nativeStart platform) "" line v → ¬ Misled v b ∧ ¬ Misled b v) →
      ∀ canonical, canonical ∈ Index.native platform b lines ↔ ∃ line ∈ lines, ∃ v,
        Index.Names (Artifact.nativeStart platform) "" line v ∧ ¬ Precedes v b ∧
          v.canonical = canonical) ∧
    (∀ {versions : List CompilerVersion}, (∀ v ∈ versions, ∃ text, parse? text = some v) →
      (∀ v ∈ versions, ∀ w ∈ versions, ¬ Misled v w) →
      (sortDescending versions).Pairwise fun v w => ¬ Precedes v w) ∧
    ∀ {year month day year' month' day' : Nat}, SameCore a b →
      a.prerelease = some (nightly year month day) →
      b.prerelease = some (nightly year' month' day') →
      (Precedes a b ↔ [year, month, day] < [year', month', day']) ∧
      (Misled a b ↔ List.Lex (fun m n => n < m ∧ Nat.toDigits 10 m < Nat.toDigits 10 n)
        [year, month, day] [year', month', day']) := by
  have ha := wellFormed_of_parse? ha
  have hb := wellFormed_of_parse? hb
  refine ⟨agrees_iff ha hb, misled_iff ha hb, fun hlines canonical => ?_,
    fun hread hnone => ?_, fun hcore hp hq => ?_⟩
  · exact mem_native_iff_not_precedes hb hlines
  · refine pairwise_sortDescending_not_precedes (fun v hv => ?_) hnone
    obtain ⟨text, htext⟩ := hread v hv
    exact wellFormed_of_parse? htext
  · exact ⟨precedes_nightly_iff hcore hp hq, misled_nightly_iff hcore hp hq⟩

theorem order_agrees_in_late_november :
    ∃ a b, parse? "0.5.14-nightly.2019.11.30" = some a ∧
      parse? "0.5.14-nightly.2019.12.1" = some b ∧ Agrees a b ∧ Precedes a b := by
  have ha : parse? "0.5.14-nightly.2019.11.30" =
      some ⟨0, 5, 14, some (nightly 2019 11 30), none⟩ := rfl
  have hb : parse? "0.5.14-nightly.2019.12.1" =
      some ⟨0, 5, 14, some (nightly 2019 12 1), none⟩ := rfl
  obtain ⟨hagrees, -, -, -, hab⟩ := order_agrees_iff_not_misled ha hb
  obtain ⟨-, -, -, -, hba⟩ := order_agrees_iff_not_misled hb ha
  obtain ⟨hprecedes, hmisled⟩ := hab ⟨rfl, rfl, rfl⟩ rfl rfl
  obtain ⟨-, hmisled'⟩ := hba ⟨rfl, rfl, rfl⟩ rfl rfl
  refine ⟨_, _, ha, hb, hagrees.mpr ⟨?_, ?_⟩, hprecedes.mpr (by decide)⟩
  · rw [hmisled]
    simp [List.cons_lex_cons_iff]
  · rw [hmisled']
    have htext : ¬ Nat.toDigits 10 12 < Nat.toDigits 10 11 := by decide
    simp [List.cons_lex_cons_iff, htext]

/-- The first of October comes before the ninth of September: of the months, the greater one is
the smaller text. -/
theorem october_before_september :
    ∃ a b, parse? "0.4.1-nightly.2016.9.9" = some a ∧ parse? "0.4.1-nightly.2016.10.1" = some b ∧
      Precedes a b ∧ a.isBefore b = false ∧ b.isBefore a = true := by
  have ha : parse? "0.4.1-nightly.2016.9.9" =
      some ⟨0, 4, 1, some (nightly 2016 9 9), none⟩ := rfl
  have hb : parse? "0.4.1-nightly.2016.10.1" =
      some ⟨0, 4, 1, some (nightly 2016 10 1), none⟩ := rfl
  have hcore : SameCore ⟨0, 4, 1, some (nightly 2016 9 9), none⟩
      ⟨0, 4, 1, some (nightly 2016 10 1), none⟩ := ⟨rfl, rfl, rfl⟩
  refine ⟨_, _, ha, hb, (precedes_nightly_iff hcore rfl rfl).mpr ?_, rfl, rfl⟩
  decide

end SolcDispatch.CompilerVersion
