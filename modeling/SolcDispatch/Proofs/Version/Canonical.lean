import SolcDispatch.Proofs.Decimal

/-! The canonical spelling of a version reads back as the version, so versions with the
same spelling are the same. -/

namespace SolcDispatch.CompilerVersion

/-- A suffix that a text can spell: absent, or not empty and of suffix characters. -/
def SuffixReads (suffix : Option String) : Prop :=
  ∀ text ∈ suffix, text ≠ "" ∧ ∀ c ∈ text.toList, isSuffixChar c

/-- What reading a text can give. -/
structure WellFormed (v : CompilerVersion) : Prop where
  major : ∃ n : Nat, v.major = n ∧ n < 10 ^ Json.maxDigits
  minor : ∃ n : Nat, v.minor = n ∧ n < 10 ^ Json.maxDigits
  patch : ∃ n : Nat, v.patch = n ∧ n < 10 ^ Json.maxDigits
  prerelease : SuffixReads v.prerelease
  build : SuffixReads v.build

theorem number_wellFormed {run : List Char} {n : Int} (h : number run = .ok n) :
    ∃ k : Nat, n = k ∧ k < 10 ^ Json.maxDigits := by
  unfold number at h
  split at h
  · cases h
  · rename_i hlen
    cases h
    exact ⟨Text.digitsValue run, rfl, Nat.lt_of_lt_of_le (Text.digitsValue_lt run)
      (Nat.pow_le_pow_right (by decide) (by omega))⟩

theorem suffix?_reads {mark : Char} {cs rest : List Char} {suffix : Option String}
    (h : suffix? mark cs = some (suffix, rest)) : SuffixReads suffix := by
  intro text ht
  unfold suffix? at h
  split at h
  · cases h
    cases ht
  · rename_i c more
    split at h
    · split at h
      · cases h
      · rename_i hne
        cases h
        obtain rfl := Option.some.inj ht
        refine ⟨fun he => hne (by simpa using congrArg String.toList he), fun c hc => ?_⟩
        rw [String.toList_ofList] at hc
        exact List.all_eq_true.mp List.all_takeWhile c hc
    · cases h
      cases ht

theorem parts?_reads {cs : List Char} {parts : Parts} (h : parts? cs = some parts) :
    SuffixReads parts.prerelease ∧ SuffixReads parts.build := by
  simp only [parts?, bind, Option.bind_eq_some_iff] at h
  obtain ⟨_, _, _, _, _, _, _, _, _, _, ⟨pre, _⟩, hpre, ⟨build, _⟩, hbuild, h⟩ := h
  split at h
  · cases h
    exact ⟨suffix?_reads hpre, suffix?_reads hbuild⟩
  · cases h

theorem wellFormed_of_parse? {text : String} {v : CompilerVersion} (h : parse? text = some v) :
    v.WellFormed := by
  unfold parse? parse at h
  cases hp : parts? (Text.trim text.toList) with
  | none => simp [hp, Except.toOption] at h
  | some parts =>
    cases hmajor : number parts.major with
    | error _ => simp [hp, hmajor, bind, Except.bind, Except.toOption] at h
    | ok major =>
      cases hminor : number parts.minor with
      | error _ => simp [hp, hmajor, hminor, bind, Except.bind, Except.toOption] at h
      | ok minor =>
        cases hpatch : number parts.patch with
        | error _ => simp [hp, hmajor, hminor, hpatch, bind, Except.bind, Except.toOption] at h
        | ok patch =>
          simp only [hp, hmajor, hminor, hpatch, bind, Except.bind, pure, Except.pure,
            Except.toOption, Option.some.injEq] at h
          subst h
          have hs := parts?_reads hp
          exact ⟨number_wellFormed hmajor, number_wellFormed hminor, number_wellFormed hpatch,
            hs.1, hs.2⟩

theorem digitRun?_append {run rest : List Char} (hne : run ≠ [])
    (hrun : ∀ c ∈ run, Text.isDecimalDigit c)
    (hrest : ∀ c ∈ rest.head?, Text.isDecimalDigit c = false) :
    digitRun? (run ++ rest) = some (run, rest) := by
  rw [digitRun?, Text.takeWhile_run hrun hrest, Text.dropWhile_run hrun hrest]
  cases run with
  | nil => exact absurd rfl hne
  | cons c run => rfl

theorem number_toDigits {n : Nat} (h : n < 10 ^ Json.maxDigits) :
    number (Nat.toDigits 10 n) = .ok n := by
  have hlen : ¬ Json.maxDigits < (Nat.toDigits 10 n).length :=
    Nat.not_lt.mpr ((Nat.length_toDigits_le_iff (by decide) (by decide)).mpr h)
  rw [number, if_neg hlen, Text.digitsValue_toDigits]

def suffixChars (mark : Char) : Option String → List Char
  | some text => mark :: text.toList
  | none => []

theorem toList_suffixText {mark : Char} {suffix : Option String} (h : SuffixReads suffix) :
    (suffixText (String.singleton mark) suffix).toList = suffixChars mark suffix := by
  cases suffix with
  | none => rfl
  | some text =>
    have hne := (h text rfl).1
    simp [suffixText, suffixChars, hne]

theorem suffix?_suffixChars {mark : Char} {suffix : Option String} {rest : List Char}
    (h : SuffixReads suffix) (hmark : ∀ c ∈ rest.head?, c ≠ mark)
    (hrest : ∀ c ∈ rest.head?, isSuffixChar c = false) :
    suffix? mark (suffixChars mark suffix ++ rest) = some (suffix, rest) := by
  cases suffix with
  | none =>
    cases rest with
    | nil => rfl
    | cons c rest => simp [suffixChars, suffix?, hmark c rfl]
  | some text =>
    obtain ⟨hne, hchars⟩ := h text rfl
    have htake := Text.takeWhile_run hchars hrest
    have hdrop := Text.dropWhile_run hchars hrest
    have hcons : text.toList ≠ [] := fun he => hne (String.toList_eq_nil_iff.mp he)
    simp only [suffixChars, List.cons_append, suffix?, if_true, htake, hdrop]
    cases ht : text.toList with
    | nil => exact absurd ht hcons
    | cons c more => simp [← ht]

/-- An identifier of the given parts, after `v` or without it. -/
def spelledChars (mark major minor patch : List Char) (prerelease build : Option String) :
    List Char :=
  mark ++ (major ++ '.' :: (minor ++ '.' :: (patch ++ (suffixChars '-' prerelease ++
    (suffixChars '+' build ++ [])))))

def canonicalChars (major minor patch : Nat) (prerelease build : Option String) : List Char :=
  'v' :: (Nat.toDigits 10 major ++ '.' :: (Nat.toDigits 10 minor ++ '.' ::
    (Nat.toDigits 10 patch ++ (suffixChars '-' prerelease ++ (suffixChars '+' build ++ [])))))

structure IsNumeral (run : List Char) : Prop where
  ne_nil : run ≠ []
  digits : ∀ c ∈ run, Text.isDecimalDigit c

theorem isNumeral_toDigits (n : Nat) : IsNumeral (Nat.toDigits 10 n) :=
  ⟨Nat.toDigits_ne_nil, fun _ hc => Text.isDecimalDigit_of_isDigit
    (Nat.isDigit_of_mem_toDigits (by decide) (by decide) hc)⟩

/-- A number does not begin with the mark of an identifier. -/
theorem IsNumeral.expect?_eq_none {run : List Char} (h : IsNumeral run) (rest : List Char) :
    expect? 'v' (run ++ rest) = none := by
  cases hrun : run with
  | nil => exact absurd hrun h.ne_nil
  | cons c run =>
    have hc : 'v' ≠ c := by
      rintro rfl
      exact absurd (h.digits 'v' (by simp [hrun])) (by decide)
    rw [List.cons_append, expect?, if_neg hc]

theorem parts?_spelledChars {mark major minor patch : List Char} {prerelease build : Option String}
    (hmark : mark = [] ∨ mark = ['v']) (hmajor : IsNumeral major) (hminor : IsNumeral minor)
    (hpatch : IsNumeral patch) (hpre : SuffixReads prerelease) (hbuild : SuffixReads build) :
    parts? (spelledChars mark major minor patch prerelease build) =
      some ⟨major, minor, patch, prerelease, build⟩ := by
  have hdot : ∀ cs : List Char, ∀ c ∈ ('.' :: cs).head?, Text.isDecimalDigit c = false := by
    intro cs c hc
    obtain rfl : '.' = c := Option.some.inj hc
    decide
  have hplus : ∀ c ∈ (suffixChars '+' build ++ []).head?, c = '+' := by
    cases build <;> simp [suffixChars]
  have hafter : ∀ c ∈ (suffixChars '-' prerelease ++ (suffixChars '+' build ++ [])).head?,
      Text.isDecimalDigit c = false := by
    intro c hc
    cases prerelease with
    | none =>
      rw [hplus c hc]
      decide
    | some text =>
      obtain rfl : '-' = c := Option.some.inj hc
      decide
  have hsecond : suffix? '+' (suffixChars '+' build ++ []) = some (build, []) :=
    suffix?_suffixChars hbuild (by simp) (by simp)
  have hfirst : suffix? '-' (suffixChars '-' prerelease ++ (suffixChars '+' build ++ [])) =
      some (prerelease, suffixChars '+' build ++ []) :=
    suffix?_suffixChars hpre (fun c hc => by rw [hplus c hc]; decide)
      (fun c hc => by rw [hplus c hc]; decide)
  have hstart : (expect? 'v' (spelledChars mark major minor patch prerelease build)).getD
      (spelledChars mark major minor patch prerelease build) =
        spelledChars [] major minor patch prerelease build := by
    rcases hmark with rfl | rfl
    · rw [spelledChars, List.nil_append, hmajor.expect?_eq_none, Option.getD_none]
    · rfl
  rw [parts?, hstart]
  simp only [spelledChars, List.nil_append, expect?, if_true, bind, Option.bind,
    digitRun?_append hmajor.ne_nil hmajor.digits (hdot _),
    digitRun?_append hminor.ne_nil hminor.digits (hdot _),
    digitRun?_append hpatch.ne_nil hpatch.digits hafter, hfirst, hsecond]
  rfl

theorem parts?_canonicalChars {major minor patch : Nat} {prerelease build : Option String}
    (hpre : SuffixReads prerelease) (hbuild : SuffixReads build) :
    parts? (canonicalChars major minor patch prerelease build) =
      some ⟨Nat.toDigits 10 major, Nat.toDigits 10 minor, Nat.toDigits 10 patch,
        prerelease, build⟩ :=
  parts?_spelledChars (.inr rfl) (isNumeral_toDigits major)
    (isNumeral_toDigits minor) (isNumeral_toDigits patch) hpre hbuild

theorem toList_canonical {v : CompilerVersion} {major minor patch : Nat} (hmajor : v.major = major)
    (hminor : v.minor = minor) (hpatch : v.patch = patch) (hpre : SuffixReads v.prerelease)
    (hbuild : SuffixReads v.build) :
    v.canonical.toList = canonicalChars major minor patch v.prerelease v.build := by
  have hint (n : Nat) : (toString (n : Int)).toList = Nat.toDigits 10 n := Nat.toList_repr
  have hdash : (suffixText (String.singleton '-') v.prerelease).toList = _ := toList_suffixText hpre
  have hplus : (suffixText (String.singleton '+') v.build).toList = _ := toList_suffixText hbuild
  simp only [canonical, hmajor, hminor, hpatch, String.toList_append, hint, canonicalChars]
  simp only [show ("-" : String) = String.singleton '-' from rfl,
    show ("+" : String) = String.singleton '+' from rfl, hdash, hplus]
  simp only [List.append_assoc, List.append_nil]
  rfl

/-- A hyphen, a dot, a digit or a letter. -/
theorem toNat_of_isSuffixChar {c : Char} (h : isSuffixChar c) :
    c.toNat = 45 ∨ c.toNat = 46 ∨ (48 ≤ c.toNat ∧ c.toNat ≤ 57) ∨
      (65 ≤ c.toNat ∧ c.toNat ≤ 90) ∨ (97 ≤ c.toNat ∧ c.toNat ≤ 122) := by
  have halpha : c.isAlpha = (c.isUpper || c.isLower) := rfl
  have hupper : c.isUpper = decide (c.val ≥ 65 ∧ c.val ≤ 90) := rfl
  have hlower : c.isLower = (decide (c.val ≥ 97) && decide (c.val ≤ 122)) := rfl
  simp only [isSuffixChar, Char.isAlphanum, halpha, hupper, hlower, Char.isDigit,
    Bool.or_eq_true, Bool.and_eq_true, decide_eq_true_eq, beq_iff_eq, ge_iff_le,
    UInt32.le_iff_toNat_le] at h
  rcases h with (((h | h) | h) | rfl) | rfl
  · exact .inr (.inr (.inr (.inl h)))
  · exact .inr (.inr (.inr (.inr h)))
  · exact .inr (.inr (.inl h))
  · exact .inr (.inl rfl)
  · exact .inl rfl

theorem isBlank_of_isSuffixChar {c : Char} (h : isSuffixChar c) : Text.isBlank c = false := by
  have hcode := toNat_of_isSuffixChar h
  simp only [Text.isBlank, Bool.or_eq_false_iff, Bool.and_eq_false_iff, decide_eq_false_iff_not,
    beq_eq_false_iff_ne]
  omega

theorem mem_suffixChars {mark c : Char} {suffix : Option String} (h : SuffixReads suffix)
    (hc : c ∈ suffixChars mark suffix) : c = mark ∨ isSuffixChar c := by
  cases suffix with
  | none => simp [suffixChars] at hc
  | some text => exact (List.mem_cons.mp hc).imp id ((h text rfl).2 c)

theorem mem_canonicalChars {major minor patch : Nat} {prerelease build : Option String}
    (hpre : SuffixReads prerelease) (hbuild : SuffixReads build) {c : Char}
    (hc : c ∈ canonicalChars major minor patch prerelease build) : c = '+' ∨ isSuffixChar c := by
  have hdigit (n : Nat) (h : c ∈ Nat.toDigits 10 n) : isSuffixChar c := by
    have hd := Nat.isDigit_of_mem_toDigits (by decide) (by decide) h
    simp [isSuffixChar, Char.isAlphanum, hd]
  simp only [canonicalChars, List.mem_cons, List.mem_append, List.not_mem_nil, or_false] at hc
  rcases hc with rfl | hc | rfl | hc | rfl | hc | hc | hc
  · exact .inr (by decide)
  · exact .inr (hdigit _ hc)
  · exact .inr (by decide)
  · exact .inr (hdigit _ hc)
  · exact .inr (by decide)
  · exact .inr (hdigit _ hc)
  · rcases mem_suffixChars hpre hc with rfl | hc
    · exact .inr (by decide)
    · exact .inr hc
  · exact mem_suffixChars hbuild hc

theorem WellFormed.parse?_canonical {v : CompilerVersion} (h : v.WellFormed) :
    parse? v.canonical = some v := by
  obtain ⟨⟨major, hmajor, hmajorlt⟩, ⟨minor, hminor, hminorlt⟩, ⟨patch, hpatch, hpatchlt⟩,
    hpre, hbuild⟩ := h
  have htrim : Text.trim v.canonical.toList =
      canonicalChars major minor patch v.prerelease v.build := by
    rw [toList_canonical hmajor hminor hpatch hpre hbuild]
    refine Text.trim_eq_self fun c hc => ?_
    rcases mem_canonicalChars hpre hbuild hc with rfl | hc
    · decide
    · exact isBlank_of_isSuffixChar hc
  simp only [parse?, parse, htrim, parts?_canonicalChars hpre hbuild, number_toDigits hmajorlt,
    number_toDigits hminorlt, number_toDigits hpatchlt, bind, Except.bind, pure, Except.pure,
    Except.toOption, ← hmajor, ← hminor, ← hpatch]

theorem WellFormed.mem_canonical {v : CompilerVersion} (h : v.WellFormed) {c : Char}
    (hc : c ∈ v.canonical.toList) : c = '+' ∨ isSuffixChar c := by
  obtain ⟨⟨_, hmajor, _⟩, ⟨_, hminor, _⟩, ⟨_, hpatch, _⟩, hpre, hbuild⟩ := h
  rw [toList_canonical hmajor hminor hpatch hpre hbuild] at hc
  exact mem_canonicalChars hpre hbuild hc

theorem WellFormed.two_le_length_canonical {v : CompilerVersion} (h : v.WellFormed) :
    2 ≤ v.canonical.toList.length := by
  obtain ⟨⟨_, hmajor, _⟩, ⟨_, hminor, _⟩, ⟨_, hpatch, _⟩, hpre, hbuild⟩ := h
  rw [toList_canonical hmajor hminor hpatch hpre hbuild]
  simp only [canonicalChars, List.length_cons, List.length_append]
  omega

theorem canonical_injective {v w : CompilerVersion} (hv : v.WellFormed) (hw : w.WellFormed)
    (h : v.canonical = w.canonical) : v = w := by
  have hh := hv.parse?_canonical
  rw [h, hw.parse?_canonical] at hh
  exact (Option.some.inj hh).symm

end SolcDispatch.CompilerVersion
