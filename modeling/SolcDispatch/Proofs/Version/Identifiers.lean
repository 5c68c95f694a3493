import Mathlib.Data.String.Basic
import SolcDispatch.Proofs.Version.Grammar

/-! Prereleases by their identifiers, which dots part, and where the order of their whole texts
goes another way than the order of the identifiers one by one. -/

namespace SolcDispatch.Prerelease

open CompilerVersion (isSuffixChar)

def identifiers (prerelease : String) : List (List Char) := prerelease.toList.splitOn '.'

structure IsNumeric (x : List Char) : Prop where
  ne_nil : x ≠ []
  digits : ∀ c ∈ x, c.isDigit

/-- Numbers stand below one another by value and below texts, texts by their characters. -/
inductive Below (x y : List Char) : Prop
  | numbers (hx : IsNumeric x) (hy : IsNumeric y) (h : Text.decimal x < Text.decimal y)
  | kinds (hx : IsNumeric x) (hy : ¬ IsNumeric y)
  | texts (hx : ¬ IsNumeric x) (hy : ¬ IsNumeric y) (h : x < y)

/-- Zeros before a number do not count. -/
inductive SameRank (x y : List Char) : Prop
  | same (h : x = y)
  | numbers (hx : IsNumeric x) (hy : IsNumeric y) (h : Text.decimal x = Text.decimal y)

/-- The first identifiers that do not rank the same decide; where there are none, fewer come
before more. -/
inductive Precede : List (List Char) → List (List Char) → Prop
  | fewer {y : List Char} {ys : List (List Char)} : Precede [] (y :: ys)
  | first {x y : List Char} {xs ys : List (List Char)} (h : Below x y) :
      Precede (x :: xs) (y :: ys)
  | rest {x y : List Char} {xs ys : List (List Char)} (h : SameRank x y) (hrest : Precede xs ys) :
      Precede (x :: xs) (y :: ys)

/-- The text of the first identifiers comes before that of the second ones, though they do not
precede them: a greater number is the smaller text, zeros stand before a number, what is no
number is a smaller text than a number, or there is a hyphen where the other identifier ends,
and the dot that follows there is greater. -/
inductive Deceptive : List (List Char) → List (List Char) → Prop
  | numbers {x y : List Char} {xs ys : List (List Char)} (hx : IsNumeric x) (hy : IsNumeric y)
      (htext : x < y) (hvalue : Text.decimal y < Text.decimal x) : Deceptive (x :: xs) (y :: ys)
  | zeros {x y : List Char} {xs ys : List (List Char)} (hx : IsNumeric x) (hy : IsNumeric y)
      (htext : x < y) (hvalue : Text.decimal x = Text.decimal y) (hrest : ¬ Precede xs ys) :
      Deceptive (x :: xs) (y :: ys)
  | kinds {x y : List Char} {xs ys : List (List Char)} (hx : ¬ IsNumeric x) (hy : IsNumeric y)
      (htext : x < y) : Deceptive (x :: xs) (y :: ys)
  | hyphen {x y : List Char} {xs ys : List (List Char)} (hys : ys ≠ []) (h : y ++ ['-'] <+: x) :
      Deceptive (x :: xs) (y :: ys)
  | same {x : List Char} {xs ys : List (List Char)} (h : Deceptive xs ys) :
      Deceptive (x :: xs) (x :: ys)

variable {x y : List Char} {xs ys : List (List Char)}

section Order

theorem SameRank.symm (h : SameRank x y) : SameRank y x := by
  rcases h with rfl | ⟨hx, hy, h⟩
  · exact .same rfl
  · exact .numbers hy hx h.symm

theorem Below.asymm (h : Below x y) : ¬ Below y x := by
  cases h with
  | numbers hx hy h =>
    rintro (⟨-, -, h'⟩ | ⟨-, hx'⟩ | ⟨hy', -, -⟩)
    · exact Nat.lt_asymm h h'
    · exact hx' hx
    · exact hy' hy
  | kinds hx hy =>
    rintro (⟨hy', -, -⟩ | ⟨hy', -⟩ | ⟨-, hx', -⟩)
    · exact hy hy'
    · exact hy hy'
    · exact hx' hx
  | texts hx hy h =>
    rintro (⟨hy', -, -⟩ | ⟨hy', -⟩ | ⟨-, -, h'⟩)
    · exact hy hy'
    · exact hy hy'
    · exact List.lt_asymm h h'

theorem Below.not_sameRank (h : Below x y) : ¬ SameRank x y := by
  rintro (rfl | ⟨hx, hy, heq⟩)
  · exact h.asymm h
  · rcases h with ⟨-, -, h⟩ | ⟨-, hy'⟩ | ⟨hx', -, -⟩
    · exact Nat.ne_of_lt h heq
    · exact hy' hy
    · exact hx' hx

theorem Precede.asymm (h : Precede xs ys) : ¬ Precede ys xs := by
  induction h with
  | fewer =>
    intro h'
    cases h'
  | first h =>
    intro h'
    cases h' with
    | first h' => exact h.asymm h'
    | rest h' _ => exact h.not_sameRank h'.symm
  | rest h _ ih =>
    intro h'
    cases h' with
    | first h' => exact h'.not_sameRank h.symm
    | rest _ h' => exact ih h'

theorem not_precede_self (xs : List (List Char)) : ¬ Precede xs xs := fun h => h.asymm h

theorem precede_cons_iff :
    Precede (x :: xs) (y :: ys) ↔ Below x y ∨ SameRank x y ∧ Precede xs ys := by
  constructor
  · intro h
    cases h with
    | first h => exact .inl h
    | rest h hrest => exact .inr ⟨h, hrest⟩
  · rintro (h | ⟨h, hrest⟩)
    · exact .first h
    · exact .rest h hrest

theorem precede_cons_self_iff : Precede (x :: xs) (x :: ys) ↔ Precede xs ys := by
  rw [precede_cons_iff]
  constructor
  · rintro (h | ⟨-, h⟩)
    · exact absurd h h.asymm
    · exact h
  · exact fun h => .inr ⟨.same rfl, h⟩

end Order

section Texts

/-- The characters between two dots of a suffix. -/
def IsIdentifier (x : List Char) : Prop := ∀ c ∈ x, isSuffixChar c ∧ c ≠ '.'

/-- Identifiers with a dot before each. -/
def marked (xs : List (List Char)) : List Char := xs.flatMap fun x => '.' :: x

/-- A hyphen is smaller than a dot, and the other characters of identifiers are greater. -/
theorem eq_hyphen_or_dot_lt {c : Char} (hsuffix : isSuffixChar c) (hdot : c ≠ '.') :
    c = '-' ∨ '.' < c := by
  have hcode := CompilerVersion.toNat_of_isSuffixChar hsuffix
  have hne : c.toNat ≠ 46 := fun heq => hdot (Char.toNat_inj.mp heq)
  by_cases hhyphen : c.toNat = 45
  · exact .inl (Char.toNat_inj.mp hhyphen)
  · right
    have hlt : 46 < c.toNat := by omega
    exact hlt

theorem marked_lt_cons_iff {c : Char} {more : List Char} (hsuffix : isSuffixChar c)
    (hdot : c ≠ '.') : marked xs < c :: more ↔ ¬ (xs ≠ [] ∧ c = '-') := by
  cases xs with
  | nil => simp [marked]
  | cons x xs =>
    have hmarked : marked (x :: xs) = '.' :: (x ++ marked xs) := rfl
    rw [hmarked, List.cons_lt_cons_iff]
    rcases eq_hyphen_or_dot_lt hsuffix hdot with rfl | hlt
    · simp
    · have hne : c ≠ '-' := by
        rintro rfl
        exact absurd hlt (by decide)
      simp [hlt, hne]

theorem cons_lt_marked_iff {c : Char} {more : List Char} (hsuffix : isSuffixChar c)
    (hdot : c ≠ '.') : c :: more < marked ys ↔ ys ≠ [] ∧ c = '-' := by
  cases ys with
  | nil => simp [marked]
  | cons y ys =>
    have hmarked : marked (y :: ys) = '.' :: (y ++ marked ys) := rfl
    rw [hmarked, List.cons_lt_cons_iff]
    rcases eq_hyphen_or_dot_lt hsuffix hdot with rfl | hlt
    · simp
    · have hne : c ≠ '-' := by
        rintro rfl
        exact absurd hlt (by decide)
      simp [hlt.not_gt, hne, hdot]

theorem hyphen_prefix_cons_iff {c : Char} {x : List Char} : ['-'] <+: c :: x ↔ c = '-' := by
  rw [List.cons_prefix_cons]
  exact ⟨fun h => h.1.symm, fun h => ⟨h.symm, List.nil_prefix⟩⟩

theorem append_lt_append_iff (hx : IsIdentifier x) (hy : IsIdentifier y) (hne : x ≠ y) :
    x ++ marked xs < y ++ marked ys ↔
      (x < y ∧ ¬ (xs ≠ [] ∧ x ++ ['-'] <+: y)) ∨ (ys ≠ [] ∧ y ++ ['-'] <+: x) := by
  -- By induction on what both begin with; where one of them ends, the next character of the
  -- other stands against a dot, or against the end of the text.
  induction x generalizing y with
  | nil =>
    cases y with
    | nil => exact absurd rfl hne
    | cons d y =>
      obtain ⟨hd, hdot⟩ := hy d List.mem_cons_self
      rw [List.nil_append, List.cons_append, marked_lt_cons_iff hd hdot, List.nil_append,
        hyphen_prefix_cons_iff]
      simp
  | cons c x ih =>
    cases y with
    | nil =>
      obtain ⟨hc, hdot⟩ := hx c List.mem_cons_self
      rw [List.nil_append, List.cons_append, cons_lt_marked_iff hc hdot, List.nil_append,
        hyphen_prefix_cons_iff]
      simp
    | cons d y =>
      rw [List.cons_append, List.cons_append, List.cons_lt_cons_iff, List.cons_append,
        List.cons_append, List.cons_prefix_cons, List.cons_prefix_cons, List.cons_lt_cons_iff]
      rcases lt_trichotomy c d with hlt | rfl | hgt
      · simp [hlt, hlt.ne, hlt.ne']
      · have hxy : x ≠ y := fun heq => hne (by rw [heq])
        have hih := ih (fun e he => hx e (List.mem_cons_of_mem _ he))
          (fun e he => hy e (List.mem_cons_of_mem _ he)) hxy
        simpa using hih
      · simp [hgt.not_gt, hgt.ne, hgt.ne']

theorem append_left_lt_iff {u v : List Char} : x ++ u < x ++ v ↔ u < v := by
  induction x with
  | nil => rfl
  | cons c x ih => rw [List.cons_append, List.cons_append, List.cons_lt_cons_iff, ih]; simp

theorem lt_of_hyphenated (h : y ++ ['-'] <+: x) : y < x := by
  obtain ⟨more, rfl⟩ := h
  have hlt : y ++ [] < y ++ '-' :: more := append_left_lt_iff.mpr (List.nil_lt_cons _ _)
  simpa using hlt

theorem IsNumeric.not_hyphenated (hy : IsNumeric y) : ¬ x ++ ['-'] <+: y := by
  intro h
  have hmem : '-' ∈ y := h.subset (by simp)
  exact absurd (hy.digits _ hmem) (by decide)

theorem Below.not_precede (h : Below y x) : ¬ Precede (x :: xs) (y :: ys) := by
  rw [precede_cons_iff]
  rintro (h' | ⟨h', -⟩)
  · exact h.asymm h'
  · exact h.not_sameRank h'.symm

theorem below_of_hyphenated (h : y ++ ['-'] <+: x) : Below y x := by
  have hx : ¬ IsNumeric x := fun hx => hx.not_hyphenated h
  by_cases hy : IsNumeric y
  · exact .kinds hy hx
  · exact .texts hy hx (lt_of_hyphenated h)

theorem deceptive_cons_iff_of_ne (hx : IsIdentifier x) (hy : IsIdentifier y) (hne : x ≠ y) :
    Deceptive (x :: xs) (y :: ys) ↔
      x ++ marked xs < y ++ marked ys ∧ ¬ Precede (x :: xs) (y :: ys) := by
  rw [append_lt_append_iff hx hy hne]
  constructor
  · intro h
    cases h with
    | numbers hx hy htext hvalue =>
      exact ⟨.inl ⟨htext, fun h => hy.not_hyphenated h.2⟩,
        (Below.numbers hy hx hvalue).not_precede⟩
    | zeros hx hy htext hvalue hrest =>
      refine ⟨.inl ⟨htext, fun h => hy.not_hyphenated h.2⟩, ?_⟩
      rw [precede_cons_iff]
      rintro (h | ⟨-, h⟩)
      · exact h.not_sameRank (.numbers hx hy hvalue)
      · exact hrest h
    | kinds hx hy htext =>
      exact ⟨.inl ⟨htext, fun h => hy.not_hyphenated h.2⟩, (Below.kinds hy hx).not_precede⟩
    | hyphen hys h => exact ⟨.inr ⟨hys, h⟩, (below_of_hyphenated h).not_precede⟩
    | same h => exact absurd rfl hne
  · rintro ⟨⟨htext, -⟩ | ⟨hys, h⟩, hnot⟩
    · rw [precede_cons_iff, not_or] at hnot
      by_cases hx : IsNumeric x
      · by_cases hy : IsNumeric y
        · rcases Nat.lt_trichotomy (Text.decimal x) (Text.decimal y) with hlt | heq | hgt
          · exact absurd (.numbers hx hy hlt) hnot.1
          · exact .zeros hx hy htext heq fun h => hnot.2 ⟨.numbers hx hy heq, h⟩
          · exact .numbers hx hy htext hgt
        · exact absurd (.kinds hx hy) hnot.1
      · by_cases hy : IsNumeric y
        · exact .kinds hx hy htext
        · exact absurd (.texts hx hy htext) hnot.1
    · exact .hyphen hys h

theorem deceptive_cons_self_iff : Deceptive (x :: xs) (x :: ys) ↔ Deceptive xs ys := by
  constructor
  · intro h
    cases h with
    | numbers _ _ htext _ => exact absurd htext (List.lt_irrefl x)
    | zeros _ _ htext _ _ => exact absurd htext (List.lt_irrefl x)
    | kinds _ _ htext => exact absurd htext (List.lt_irrefl x)
    | hyphen _ h => exact absurd (lt_of_hyphenated h) (List.lt_irrefl x)
    | same h => exact h
  · exact .same

theorem marked_cons_lt_iff : marked (x :: xs) < marked (y :: ys) ↔
    x ++ marked xs < y ++ marked ys := by
  have hcons (x : List Char) (xs : List (List Char)) :
      marked (x :: xs) = '.' :: (x ++ marked xs) := rfl
  rw [hcons, hcons, List.cons_lt_cons_iff]
  simp

/-- Where the whole texts are in the other order is told by the first identifiers that differ. -/
theorem deceptive_iff (hxs : ∀ x ∈ xs, IsIdentifier x) (hys : ∀ y ∈ ys, IsIdentifier y) :
    Deceptive xs ys ↔ marked xs < marked ys ∧ ¬ Precede xs ys := by
  induction xs generalizing ys with
  | nil =>
    constructor
    · intro h
      cases h
    · rintro ⟨h, hnot⟩
      cases ys with
      | nil => exact absurd h (List.lt_irrefl _)
      | cons y ys => exact absurd .fewer hnot
  | cons x xs ih =>
    cases ys with
    | nil =>
      constructor
      · intro h
        cases h
      · rintro ⟨h, -⟩
        exact absurd h (List.not_lt_nil _)
    | cons y ys =>
      obtain ⟨hx, hxs⟩ := List.forall_mem_cons.mp hxs
      obtain ⟨hy, hys⟩ := List.forall_mem_cons.mp hys
      rw [marked_cons_lt_iff]
      by_cases hne : x = y
      · rw [← hne, deceptive_cons_self_iff, precede_cons_self_iff, append_left_lt_iff,
          ih hxs hys]
      · exact deceptive_cons_iff_of_ne hx hy hne

theorem marked_eq_cons_intercalate (hne : xs ≠ []) : marked xs = '.' :: ['.'].intercalate xs := by
  induction xs with
  | nil => exact absurd rfl hne
  | cons x xs ih =>
    cases xs with
    | nil => simp [marked]
    | cons next xs =>
      have hcons : marked (x :: next :: xs) = '.' :: (x ++ marked (next :: xs)) := rfl
      rw [hcons, ih (List.cons_ne_nil _ _), List.intercalate_cons_cons, List.append_assoc,
        List.singleton_append]

theorem marked_identifiers (p : String) : marked (identifiers p) = '.' :: p.toList := by
  have hne : identifiers p ≠ [] := List.splitOn_ne_nil _ _
  rw [marked_eq_cons_intercalate hne, identifiers, List.intercalate_splitOn]

theorem isIdentifier_of_mem_splitOn {cs : List Char} (hcs : ∀ c ∈ cs, isSuffixChar c) :
    ∀ x ∈ cs.splitOn '.', IsIdentifier x := by
  induction cs with
  | nil => simp [IsIdentifier]
  | cons c cs ih =>
    obtain ⟨hc, hcs⟩ := List.forall_mem_cons.mp hcs
    have ih := ih hcs
    rw [List.splitOn_cons_eq_if_modifyHead]
    split
    · exact List.forall_mem_cons.mpr ⟨by simp [IsIdentifier], ih⟩
    · rename_i hdot
      obtain ⟨first, rest, hsplit⟩ := List.exists_cons_of_ne_nil (List.splitOn_ne_nil '.' cs)
      rw [hsplit, List.forall_mem_cons] at ih
      rw [hsplit, List.modifyHead_cons, List.forall_mem_cons]
      exact ⟨List.forall_mem_cons.mpr ⟨⟨hc, by simpa using hdot⟩, ih.1⟩, ih.2⟩

theorem lt_iff_marked_lt {p q : String} :
    p < q ↔ marked (identifiers p) < marked (identifiers q) := by
  rw [marked_identifiers, marked_identifiers, String.lt_iff_toList_lt, List.cons_lt_cons_iff]
  simp

/-- One prerelease is the smaller text without preceding the other exactly if they are
deceptive. -/
theorem deceptive_identifiers_iff {p q : String} (hp : ∀ c ∈ p.toList, isSuffixChar c)
    (hq : ∀ c ∈ q.toList, isSuffixChar c) :
    Deceptive (identifiers p) (identifiers q) ↔
      p < q ∧ ¬ Precede (identifiers p) (identifiers q) := by
  rw [lt_iff_marked_lt]
  exact deceptive_iff (isIdentifier_of_mem_splitOn hp) (isIdentifier_of_mem_splitOn hq)

end Texts

end SolcDispatch.Prerelease
