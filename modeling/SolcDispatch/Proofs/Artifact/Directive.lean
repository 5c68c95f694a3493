import Mathlib.Data.List.Infix
import SolcDispatch.Artifact.Directive

/-! What cutting the directive out of a text leaves. Occurrences of the directive never overlap,
so the characters cut are those that stand in one; but what is left on both sides of an occurrence
may come to spell another, which stays. -/

namespace SolcDispatch.Artifact

def withoutDirective (text : List Char) : List Char := cutDirective [] 0 text

/-- The directive between its first character and its last. -/
def directiveCore : List Char := "use asm\"".toList

/-- What is left of a text when some occurrences of the directive are deleted. -/
inductive Deleted : List Char → List Char → Prop
  | nil : Deleted [] []
  | keep {text left : List Char} (c : Char) : Deleted text left → Deleted (c :: text) (c :: left)
  | delete {text left : List Char} : Deleted text left → Deleted (directive ++ text) left

/-- The directive with whole directives written between its characters. -/
def Interrupted (part : List Char) : Prop :=
  ∃ inner, part = '"' :: inner ++ [';'] ∧ Deleted inner directiveCore ∧ inner ≠ directiveCore

variable {text left x y : List Char} {c : Char}

theorem length_directive : directive.length = 10 := by decide

theorem directive_append (text : List Char) :
    directive ++ text = '"' :: (directiveCore ++ ';' :: text) := by
  have hdirective : directive = '"' :: (directiveCore ++ [';']) := by decide
  rw [hdirective, List.cons_append, List.append_assoc, List.singleton_append]

theorem cutDirective_eq (kept : List Char) (skip : Nat) (text : List Char) :
    cutDirective kept skip text = kept.reverse ++ withoutDirective (text.drop skip) := by
  induction text generalizing kept skip with
  | nil => simp [withoutDirective, cutDirective]
  | cons c text ih =>
    cases skip with
    | succ skip => rw [cutDirective, ih, List.drop_succ_cons]
    | zero =>
      rw [List.drop_zero, withoutDirective, cutDirective, cutDirective]
      by_cases hstart : directive.isPrefixOf (c :: text) = true
      · rw [if_pos hstart, if_pos hstart, ih, ih [], List.reverse_nil, List.nil_append]
      · rw [if_neg hstart, if_neg hstart, ih, ih [c], List.reverse_cons, List.append_assoc]
        rfl

theorem withoutDirective_nil : withoutDirective [] = [] := rfl

theorem withoutDirective_append (text : List Char) :
    withoutDirective (directive ++ text) = withoutDirective text := by
  have hstart : directive.isPrefixOf (directive ++ text) = true :=
    List.isPrefixOf_iff_prefix.mpr (List.prefix_append _ _)
  have hdrop : (directiveCore ++ ';' :: text).drop (directive.length - 1) = text := rfl
  rw [directive_append] at hstart ⊢
  rw [withoutDirective, cutDirective, if_pos hstart, cutDirective_eq, hdrop]
  rfl

theorem withoutDirective_cons (h : ¬ directive <+: c :: text) :
    withoutDirective (c :: text) = c :: withoutDirective text := by
  rw [withoutDirective, cutDirective, if_neg (mt List.isPrefixOf_iff_prefix.mp h), cutDirective_eq]
  rfl

/-- A text is empty, or begins with the directive, or with a character that is kept. -/
@[elab_as_elim]
theorem cut_induction {motive : List Char → Prop} (nil : motive [])
    (cut : ∀ text, motive text → motive (directive ++ text))
    (keep : ∀ c text, ¬ directive <+: c :: text → motive text → motive (c :: text))
    (text : List Char) : motive text := by
  induction hn : text.length using Nat.strong_induction_on generalizing text with
  | _ n ih =>
    cases text with
    | nil => exact nil
    | cons c rest =>
      by_cases hstart : directive <+: c :: rest
      · obtain ⟨after, hafter⟩ := hstart
        have hlength := congrArg List.length hafter
        rw [List.length_append, hn] at hlength
        rw [length_directive] at hlength
        rw [← hafter]
        exact cut after (ih after.length (by omega) after rfl)
      · exact keep c rest hstart (ih rest.length (by simp [← hn]) rest rfl)

theorem deleted_withoutDirective (text : List Char) : Deleted text (withoutDirective text) := by
  induction text using cut_induction with
  | nil => exact .nil
  | cut text ih =>
    rw [withoutDirective_append]
    exact .delete ih
  | keep c text hstart ih =>
    rw [withoutDirective_cons hstart]
    exact .keep c ih

theorem withoutDirective_of_absent (h : ¬ directive <:+: text) :
    withoutDirective text = text := by
  induction text using cut_induction with
  | nil => rfl
  | cut text ih => exact absurd (List.infix_append [] directive text) h
  | keep c text hstart ih =>
    have hrest : ¬ directive <:+: text := fun hin => h (List.infix_cons hin)
    rw [withoutDirective_cons hstart, ih hrest]

theorem length_withoutDirective_le (text : List Char) :
    (withoutDirective text).length ≤ text.length := by
  induction text using cut_induction with
  | nil => rfl
  | cut text ih =>
    rw [withoutDirective_append, List.length_append]
    omega
  | keep c text hstart ih =>
    rw [withoutDirective_cons hstart, List.length_cons, List.length_cons]
    omega

/-- A text begins with the directive where its first part does, or the directive runs from
the first part into the second. -/
theorem prefix_append_cases (h : directive <+: x ++ y) :
    directive <+: x ∨ ∃ after, after ≠ [] ∧ directive = x ++ after ∧ after <+: y := by
  by_cases hx : directive <+: x
  · exact .inl hx
  · obtain h' | ⟨after, hafter⟩ := List.prefix_or_prefix_of_prefix h (List.prefix_append x y)
    · exact absurd h' hx
    · refine .inr ⟨after, ?_, hafter.symm, ?_⟩
      · rintro rfl
        rw [List.append_nil] at hafter
        exact hx (hafter ▸ List.prefix_refl x)
      · rw [← hafter] at h
        exact (List.prefix_append_right_inj x).mp h

/-- The directive does not overlap with another. -/
theorem directive_unbordered {before after : List Char} (h : directive = before ++ after)
    (hb : before ≠ []) (ha : after ≠ []) (y : List Char) : ¬ after <+: directive ++ y := by
  intro hafter
  have hborder : ∀ n < 10, 0 < n → ¬ directive.drop n <+: directive := by decide
  have hlength : before.length + after.length = 10 := by
    rw [← List.length_append, ← h, length_directive]
  have hbpos := List.length_pos_iff.mpr hb
  have hapos := List.length_pos_iff.mpr ha
  have hdrop : directive.drop before.length = after := by rw [h, List.drop_left]
  refine hborder before.length (by omega) hbpos ?_
  rw [hdrop]
  refine List.prefix_of_prefix_length_le hafter (List.prefix_append _ _) ?_
  rw [h, List.length_append]
  omega

theorem withoutDirective_around (x y : List Char) :
    withoutDirective (x ++ (directive ++ y)) = withoutDirective x ++ withoutDirective y := by
  induction x using cut_induction with
  | nil => exact withoutDirective_append y
  | cut x ih => rw [List.append_assoc, withoutDirective_append, ih, withoutDirective_append]
  | keep c x hstart ih =>
    have hboth : ¬ directive <+: c :: x ++ (directive ++ y) := by
      intro h
      obtain h | ⟨after, ha, hsplit, hafter⟩ := prefix_append_cases h
      · exact hstart h
      · exact directive_unbordered hsplit (List.cons_ne_nil c x) ha y hafter
    rw [List.cons_append] at hboth ⊢
    rw [withoutDirective_cons hboth, ih, withoutDirective_cons hstart, List.cons_append]

/-- Whether the character between two texts stands in a directive. -/
def Within (x : List Char) (c : Char) (y : List Char) : Prop :=
  ∃ before after, directive = before ++ c :: after ∧ before <:+ x ∧ after <+: y

theorem withoutDirective_split (h : ¬ Within x c y) :
    withoutDirective (x ++ c :: y) = withoutDirective x ++ c :: withoutDirective y := by
  induction x using cut_induction with
  | nil =>
    refine withoutDirective_cons fun hstart => ?_
    obtain hnil | ⟨after, -, hafter, hin⟩ := prefix_append_cases (x := [c]) hstart
    · exact absurd hnil.length_le (Nat.not_le.mpr (by decide : 1 < directive.length))
    · exact h ⟨[], after, hafter, List.nil_suffix, hin⟩
  | cut x ih =>
    rw [List.append_assoc, withoutDirective_append, withoutDirective_append, ih]
    rintro ⟨before, after, hsplit, hbefore, hafter⟩
    exact h ⟨before, after, hsplit, hbefore.trans (List.suffix_append _ _), hafter⟩
  | keep d x hstart ih =>
    have hboth : ¬ directive <+: d :: x ++ c :: y := by
      intro hin
      obtain hin | ⟨after, ha, hsplit, hafter⟩ := prefix_append_cases hin
      · exact hstart hin
      · cases after with
        | nil => exact ha rfl
        | cons e after =>
          obtain ⟨rfl, hrest⟩ := List.cons_prefix_cons.mp hafter
          exact h ⟨d :: x, after, hsplit, List.suffix_rfl, hrest⟩
    rw [List.cons_append] at hboth ⊢
    rw [withoutDirective_cons hboth, withoutDirective_cons hstart, List.cons_append, ih]
    rintro ⟨before, after, hsplit, hbefore, hafter⟩
    exact h ⟨before, after, hsplit, hbefore.trans (List.suffix_cons d x), hafter⟩

/-- Each character kept comes from a place that divides the text as it divides what is kept. -/
theorem exists_split_of_withoutDirective (h : withoutDirective text = x ++ c :: y) :
    ∃ before after, text = before ++ c :: after ∧ withoutDirective before = x ∧
      withoutDirective after = y := by
  induction text using cut_induction generalizing x with
  | nil => simp [withoutDirective_nil] at h
  | cut text ih =>
    rw [withoutDirective_append] at h
    obtain ⟨before, after, rfl, hbefore, hafter⟩ := ih h
    exact ⟨directive ++ before, after, (List.append_assoc ..).symm,
      by rw [withoutDirective_append, hbefore], hafter⟩
  | keep d text hstart ih =>
    rw [withoutDirective_cons hstart] at h
    cases x with
    | nil =>
      obtain ⟨rfl, rfl⟩ := List.cons.inj h
      exact ⟨[], text, rfl, rfl, rfl⟩
    | cons e x =>
      obtain ⟨rfl, hrest⟩ := List.cons.inj h
      obtain ⟨before, after, rfl, hbefore, hafter⟩ := ih hrest
      have hbegin : ¬ directive <+: d :: before := by
        intro hin
        exact hstart (hin.trans (List.prefix_append (d :: before) (c :: after)))
      exact ⟨d :: before, after, rfl, by rw [withoutDirective_cons hbegin, hbefore], hafter⟩

theorem place_of_split {before after : List Char} (h : directive = before ++ c :: after) :
    before.length < 10 ∧ directive.drop before.length = c :: after := by
  have hlength := congrArg List.length h
  rw [length_directive, List.length_append, List.length_cons] at hlength
  exact ⟨by omega, by rw [h, List.drop_left]⟩

theorem split_semicolon {before after : List Char} (h : directive = before ++ ';' :: after) :
    before = '"' :: directiveCore := by
  have hplace : ∀ n < 10, (directive.drop n).head? = some ';' → n = 9 := by decide
  obtain ⟨hlength, hdrop⟩ := place_of_split h
  have hnine : before.length = 9 := hplace _ hlength (by rw [hdrop, List.head?_cons])
  calc before = directive.take before.length := by rw [h, List.take_left]
    _ = '"' :: directiveCore := by rw [hnine]; decide

theorem split_quote {before after : List Char} (h : directive = before ++ '"' :: after) :
    after = directiveCore ++ [';'] ∨ after = [';'] := by
  have hplace : ∀ n < 10, (directive.drop n).head? = some '"' → n = 0 ∨ n = 8 := by decide
  obtain ⟨hlength, hdrop⟩ := place_of_split h
  obtain hzero | height := hplace _ hlength (by rw [hdrop, List.head?_cons])
  · rw [hzero] at hdrop
    exact .inl (List.cons.inj hdrop).2.symm
  · rw [height] at hdrop
    exact .inr (List.cons.inj hdrop).2.symm

theorem withoutDirective_core (text : List Char) :
    withoutDirective (directiveCore ++ ';' :: text) =
      directiveCore ++ ';' :: withoutDirective text := by
  have hcut : withoutDirective directiveCore = directiveCore := by decide
  rw [withoutDirective_split, hcut]
  rintro ⟨before, after, hsplit, hbefore, -⟩
  rw [split_semicolon hsplit] at hbefore
  exact absurd hbefore.length_le (by decide)

theorem not_within_semicolon {inner after : List Char}
    (h : withoutDirective inner = directiveCore) : ¬ Within inner ';' after := by
  rintro ⟨before, rest, hsplit, hbefore, -⟩
  rw [split_semicolon hsplit] at hbefore
  obtain ⟨start, rfl⟩ := hbefore
  have hquote : ¬ Within start '"' directiveCore := by
    rintro ⟨before', rest', hsplit', -, hrest⟩
    rcases split_quote hsplit' with rfl | rfl
    · exact absurd hrest.length_le (by decide)
    · exact absurd hrest (by decide)
  rw [withoutDirective_split hquote] at h
  have hcore : withoutDirective directiveCore = directiveCore := by decide
  have hlength := congrArg List.length h
  rw [hcore, List.length_append, List.length_cons] at hlength
  omega

theorem not_within_quote {inner before after : List Char}
    (h : withoutDirective inner = directiveCore) (hne : inner ≠ directiveCore) :
    ¬ Within before '"' (inner ++ ';' :: after) := by
  rintro ⟨before', rest, hsplit, -, hrest⟩
  rcases split_quote hsplit with rfl | rfl
  · obtain ⟨more, rfl⟩ | hshort :=
      List.prefix_or_prefix_of_prefix hrest (List.prefix_append inner _)
    · rw [List.append_assoc, List.singleton_append, withoutDirective_core] at h
      have hlength := congrArg List.length h
      rw [List.length_append, List.length_cons] at hlength
      omega
    · have hnone : ¬ directive <:+: inner := by
        intro hin
        have hle := hin.length_le.trans hshort.length_le
        exact absurd hle (by decide)
      exact hne ((withoutDirective_of_absent hnone).symm.trans h)
  · cases inner with
    | nil => exact absurd h (by decide)
    | cons c inner =>
      rw [List.cons_append] at hrest
      obtain ⟨rfl, -⟩ := List.cons_prefix_cons.mp hrest
      have hstart : ¬ directive <+: ';' :: inner := by
        intro hin
        obtain ⟨after, hafter⟩ := hin
        rw [directive_append] at hafter
        exact absurd (List.cons.inj hafter).1 (by decide)
      rw [withoutDirective_cons hstart] at h
      exact absurd (List.cons.inj h).1 (by decide)

/-- Whatever deletions leave no directive leave what cutting from left to right leaves. -/
theorem withoutDirective_eq_of_deleted (h : Deleted text left) (hleft : ¬ directive <:+: left) :
    withoutDirective text = left := by
  induction h with
  | nil => rfl
  | delete hdeleted ih => rw [withoutDirective_append, ih hleft]
  | keep c hdeleted ih =>
    rename_i text left
    have hrest : withoutDirective text = left := ih fun hin => hleft (List.infix_cons hin)
    by_cases hstart : directive <+: c :: text
    · obtain ⟨after, hafter⟩ := hstart
      rw [directive_append] at hafter
      obtain ⟨rfl, rfl⟩ := List.cons.inj hafter
      rw [withoutDirective_core] at hrest
      refine absurd ⟨[], withoutDirective after, ?_⟩ hleft
      rw [List.nil_append, directive_append, hrest]
    · rw [withoutDirective_cons hstart, hrest]

theorem withoutDirective_of_interrupting {inner : List Char} (h : Deleted inner directiveCore) :
    withoutDirective inner = directiveCore := by
  refine withoutDirective_eq_of_deleted h fun hin => ?_
  exact absurd hin.length_le (by decide)

/-- The directive is left where directives stood between its characters, and nowhere else. -/
theorem infix_withoutDirective_iff :
    directive <:+: withoutDirective text ↔ ∃ part, part <:+: text ∧ Interrupted part := by
  constructor
  · rintro ⟨x, y, h⟩
    have hkept : withoutDirective text = x ++ '"' :: (directiveCore ++ ';' :: y) := by
      rw [← h, List.append_assoc, directive_append]
    obtain ⟨before, rest, htext, hbefore, hrest⟩ := exists_split_of_withoutDirective hkept
    obtain ⟨inner, after, rfl, hinner, hafter⟩ := exists_split_of_withoutDirective hrest
    have hdeleted : Deleted inner directiveCore := hinner ▸ deleted_withoutDirective inner
    refine ⟨'"' :: inner ++ [';'], ⟨before, after, ?_⟩, inner, rfl, hdeleted, ?_⟩
    · rw [htext, List.append_assoc, List.cons_append, List.cons_append, List.append_assoc,
        List.singleton_append]
    · rintro rfl
      have hwhole : text = before ++ (directive ++ after) := by rw [htext, directive_append]
      have hshort : x ++ directive ++ y = x ++ y := by
        rw [h, hwhole, withoutDirective_around, hbefore, hafter]
      have hlength := congrArg List.length hshort
      simp only [List.length_append, length_directive] at hlength
      omega
  · rintro ⟨part, ⟨before, after, rfl⟩, inner, rfl, hdeleted, hne⟩
    have hinner := withoutDirective_of_interrupting hdeleted
    have hquote : ¬ Within before '"' (inner ++ ';' :: after) := not_within_quote hinner hne
    have hsemicolon : ¬ Within inner ';' after := not_within_semicolon hinner
    rw [List.append_assoc, List.cons_append, List.cons_append, List.append_assoc,
      List.singleton_append, withoutDirective_split hquote, withoutDirective_split hsemicolon,
      hinner]
    refine ⟨withoutDirective before, withoutDirective after, ?_⟩
    rw [List.append_assoc, directive_append]

/-- Cutting again changes nothing exactly when nothing is left to cut. -/
theorem withoutDirective_eq_self_iff :
    withoutDirective text = text ↔ ¬ directive <:+: text := by
  refine ⟨fun h => ?_, withoutDirective_of_absent⟩
  rintro ⟨x, y, rfl⟩
  rw [List.append_assoc, withoutDirective_around] at h
  have hx := length_withoutDirective_le x
  have hy := length_withoutDirective_le y
  have hlength := congrArg List.length h
  simp only [List.length_append, length_directive] at hlength
  omega

/-- What a text that is kept has to do with the text it is kept of. -/
structure IsKeptOf (source kept : String) : Prop where
  deleted : Deleted source.toList kept.toList
  unchanged : ¬ directive <:+: source.toList → kept = source
  left_iff : directive <:+: kept.toList ↔ ∃ part, part <:+: source.toList ∧ Interrupted part
  stable_iff : keptSource kept = kept ↔ ¬ directive <:+: kept.toList

theorem toList_keptSource (source : String) :
    (keptSource source).toList = withoutDirective source.toList := by
  rw [keptSource, String.toList_ofList, withoutDirective]

theorem isKeptOf_keptSource (source : String) : IsKeptOf source (keptSource source) where
  deleted := toList_keptSource source ▸ deleted_withoutDirective source.toList
  unchanged h := by
    rw [← String.toList_inj, toList_keptSource, withoutDirective_of_absent h]
  left_iff := by rw [toList_keptSource, infix_withoutDirective_iff]
  stable_iff := by rw [← String.toList_inj, toList_keptSource, withoutDirective_eq_self_iff]

end SolcDispatch.Artifact
