import SolcDispatch.Legacy.Diagnostic
import SolcDispatch.Proofs.Text.Lines
import SolcDispatch.Proofs.Version.Canonical

/-! Locations in diagnostics. A line may be read as a location in several ways, and the one
with the longest path counts: a location quoted in the text of a message takes the place of
the message's own, and a colon in that text makes all before it part of the kind. -/

namespace SolcDispatch.Legacy

variable {line path other longer kind digits rest cs : List Char}

/-- A run of decimal digits of any script. -/
structure IsNumber (digits : List Char) : Prop where
  ne_nil : digits ≠ []
  isDecimalDigit : ∀ c ∈ digits, Text.isDecimalDigit c

/-- The line reads as a path, a line, a column and a kind, with a colon after each of them
and none in the rest. -/
def Locates (line path kind : List Char) : Prop :=
  ∃ row column rest, IsNumber row ∧ IsNumber column ∧ ':' ∉ rest ∧
    line = path ++ ':' :: (row ++ ':' :: (column ++ ':' :: (kind ++ ':' :: rest)))

structure IsLastLocation (line path kind : List Char) : Prop where
  locates : Locates line path kind
  longest : ∀ longer other, Locates line longer other → longer.length ≤ path.length

theorem IsNumber.colon_notMem (h : IsNumber digits) : ':' ∉ digits := fun hc =>
  absurd (h.isDecimalDigit _ hc) (by decide)

theorem not_isNumber_space (digits : List Char) : ¬ IsNumber (' ' :: digits) := fun h =>
  absurd (h.isDecimalDigit _ List.mem_cons_self) (by decide)

theorem dropWhile_ne_colon (h : ':' ∉ cs) (rest : List Char) :
    (cs ++ ':' :: rest).dropWhile (· != ':') = ':' :: rest := by
  apply Text.dropWhile_run
  · intro c hc
    have hne : c ≠ ':' := fun heq => h (heq ▸ hc)
    simp [hne]
  · simp

theorem beforeLastColon?_append (h : ':' ∉ rest) :
    beforeLastColon? (cs ++ ':' :: rest) = some cs := by
  have hreverse : (cs ++ ':' :: rest).reverse = rest.reverse ++ ':' :: cs.reverse := by simp
  have hrest : ':' ∉ rest.reverse := by simpa using h
  rw [beforeLastColon?, hreverse, dropWhile_ne_colon hrest]
  simp

theorem exists_lastColon (h : ':' ∈ cs) :
    ∃ before rest, ':' ∉ rest ∧ cs = before ++ ':' :: rest := by
  obtain ⟨rest, before, hsplit, hrest⟩ := List.eq_append_cons_of_mem (List.mem_reverse.mpr h)
  refine ⟨before.reverse, rest.reverse, by simpa using hrest, ?_⟩
  simpa using congrArg List.reverse hsplit

theorem beforeLastColon?_of_notMem (h : ':' ∉ cs) : beforeLastColon? cs = none := by
  have hall : cs.reverse.dropWhile (· != ':') = [] := by
    rw [List.dropWhile_eq_nil_iff]
    intro c hc
    have hne : c ≠ ':' := fun heq => h (heq ▸ List.mem_reverse.mp hc)
    simp [hne]
  rw [beforeLastColon?, hall]

theorem beforeLastColon?_eq_some_iff :
    beforeLastColon? cs = some kind ↔ ∃ rest, ':' ∉ rest ∧ cs = kind ++ ':' :: rest := by
  constructor
  · intro h
    by_cases hc : ':' ∈ cs
    · obtain ⟨before, rest, hrest, rfl⟩ := exists_lastColon hc
      rw [beforeLastColon?_append hrest] at h
      cases h
      exact ⟨rest, hrest, rfl⟩
    · rw [beforeLastColon?_of_notMem hc] at h
      cases h
  · rintro ⟨rest, hrest, rfl⟩
    exact beforeLastColon?_append hrest

theorem afterNumber?_append (h : IsNumber digits) (rest : List Char) :
    afterNumber? (digits ++ ':' :: rest) = some rest := by
  have hcolon : ∀ c ∈ (':' :: rest).head?, Text.isDecimalDigit c = false := by
    intro c hc
    cases hc
    decide
  rw [afterNumber?, CompilerVersion.digitRun?_append h.ne_nil h.isDecimalDigit hcolon]
  rfl

theorem afterNumber?_eq_some_iff :
    afterNumber? cs = some rest ↔ ∃ digits, IsNumber digits ∧ cs = digits ++ ':' :: rest := by
  constructor
  · intro h
    unfold afterNumber? CompilerVersion.digitRun? at h
    cases hrun : cs.takeWhile Text.isDecimalDigit with
    | nil => simp [hrun] at h
    | cons d run =>
      rw [hrun] at h
      cases hdrop : cs.dropWhile Text.isDecimalDigit with
      | nil => simp [hdrop] at h
      | cons c after =>
        by_cases hc : c = ':'
        · subst hc
          simp only [hdrop, Option.map_some, Option.some.injEq] at h
          subst h
          refine ⟨d :: run, ⟨List.cons_ne_nil _ _, ?_⟩, ?_⟩
          · intro e he
            rw [← hrun] at he
            exact List.mem_takeWhile_imp he
          · rw [← hrun, ← hdrop, List.takeWhile_append_dropWhile]
        · simp [hdrop, hc] at h
  · rintro ⟨digits, hdigits, rfl⟩
    exact afterNumber?_append hdigits rest

theorem kindAfterPath?_eq_some_iff :
    kindAfterPath? cs = some kind ↔ Locates (':' :: cs) [] kind := by
  simp only [kindAfterPath?, Option.bind_eq_bind, Option.bind_eq_some_iff,
    afterNumber?_eq_some_iff, beforeLastColon?_eq_some_iff]
  constructor
  · rintro ⟨_, ⟨row, hrow, rfl⟩, _, ⟨column, hcolumn, rfl⟩, rest, hrest, rfl⟩
    exact ⟨row, column, rest, hrow, hcolumn, hrest, rfl⟩
  · rintro ⟨row, column, rest, hrow, hcolumn, hrest, hcs⟩
    exact ⟨_, ⟨row, hrow, (List.cons.inj hcs).2⟩, _, ⟨column, hcolumn, rfl⟩, rest, hrest, rfl⟩

theorem not_locates_nil : ¬ Locates [] path kind := by
  rintro ⟨row, column, rest, -, -, -, h⟩
  simp at h

theorem locates_cons_iff {c : Char} :
    Locates (c :: cs) path kind ↔
      (path = [] ∧ c = ':' ∧ kindAfterPath? cs = some kind) ∨
        ∃ before, path = c :: before ∧ Locates cs before kind := by
  constructor
  · rintro ⟨row, column, rest, hrow, hcolumn, hrest, h⟩
    cases path with
    | nil =>
      obtain ⟨rfl, hcs⟩ := List.cons.inj h
      refine .inl ⟨rfl, rfl, kindAfterPath?_eq_some_iff.mpr ?_⟩
      exact ⟨row, column, rest, hrow, hcolumn, hrest, by rw [hcs]; rfl⟩
    | cons d before =>
      obtain ⟨rfl, hcs⟩ := List.cons.inj h
      exact .inr ⟨before, rfl, row, column, rest, hrow, hcolumn, hrest, hcs⟩
  · rintro (⟨rfl, rfl, h⟩ | ⟨before, rfl, row, column, rest, hrow, hcolumn, hrest, rfl⟩)
    · exact kindAfterPath?_eq_some_iff.mp h
    · exact ⟨row, column, rest, hrow, hcolumn, hrest, rfl⟩

theorem Locates.kind_unique (h : Locates line path kind) (h' : Locates line path other) :
    kind = other := by
  induction line generalizing path with
  | nil => exact absurd h not_locates_nil
  | cons c cs ih =>
    obtain ⟨rfl, -, hkind⟩ | ⟨before, rfl, hkind⟩ := locates_cons_iff.mp h
    · obtain ⟨-, -, hother⟩ | ⟨_, hpath, -⟩ := locates_cons_iff.mp h'
      · exact Option.some.inj (hkind.symm.trans hother)
      · cases hpath
    · obtain ⟨hpath, -, -⟩ | ⟨_, hpath, hother⟩ := locates_cons_iff.mp h'
      · cases hpath
      · cases hpath
        exact ih hkind hother

theorem Locates.isPrefix (h : Locates line path kind) : path <+: line := by
  obtain ⟨row, column, rest, -, -, -, rfl⟩ := h
  exact List.prefix_append _ _

theorem IsLastLocation.kind_unique (h : IsLastLocation line path kind)
    (h' : IsLastLocation line longer other) : kind = other := by
  have hlength : path.length = longer.length :=
    Nat.le_antisymm (h'.longest _ _ h.locates) (h.longest _ _ h'.locates)
  have hpath : path = longer :=
    (List.prefix_of_prefix_length_le h.locates.isPrefix h'.locates.isPrefix
      (Nat.le_of_eq hlength)).eq_of_length hlength
  exact h.locates.kind_unique (hpath ▸ h'.locates)

theorem locatedKindFrom_eq_or (best : Option (List Char)) (line : List Char) :
    locatedKindFrom best line = (locatedKindFrom none line).or best := by
  induction line generalizing best with
  | nil => rfl
  | cons c cs ih =>
    by_cases hc : c == ':'
    · simp only [locatedKindFrom, if_pos hc]
      rw [ih, ih ((kindAfterPath? cs).or none), Option.or_none, Option.or_assoc]
    · simp only [locatedKindFrom, if_neg hc]
      exact ih best

theorem locatedKindFrom_append (best : Option (List Char)) (h : ':' ∉ cs) (line : List Char) :
    locatedKindFrom best (cs ++ line) = locatedKindFrom best line := by
  induction cs with
  | nil => rfl
  | cons c cs ih =>
    obtain ⟨hc, hcs⟩ := not_or.mp (List.mem_cons.not.mp h)
    have hne : ¬ (c == ':') = true := by simpa using Ne.symm hc
    rw [List.cons_append, locatedKindFrom, if_neg hne, ih hcs]

theorem locatedKindFrom_colon (best : Option (List Char)) (h : ':' ∉ cs) (rest : List Char) :
    locatedKindFrom best (cs ++ ':' :: rest) =
      locatedKindFrom ((kindAfterPath? rest).or best) rest := by
  rw [locatedKindFrom_append best h, locatedKindFrom, if_pos (beq_self_eq_true ':')]

/-- Going on to the right finds the location with the longest path. -/
theorem locatedKindFrom_spec (line : List Char) :
    match locatedKindFrom none line with
    | some kind => ∃ path, IsLastLocation line path kind
    | none => ∀ path kind, ¬ Locates line path kind := by
  induction line with
  | nil => exact fun _ _ => not_locates_nil
  | cons c cs ih =>
    have hstep : locatedKindFrom none (c :: cs) =
        (locatedKindFrom none cs).or (if c = ':' then kindAfterPath? cs else none) := by
      by_cases hc : c = ':'
      · simp only [locatedKindFrom, hc, beq_self_eq_true, if_true]
        rw [locatedKindFrom_eq_or, Option.or_none]
      · simp [locatedKindFrom, hc]
    rw [hstep]
    cases hlater : locatedKindFrom none cs with
    | some kind =>
      rw [hlater] at ih
      obtain ⟨path, hlast⟩ := ih
      refine ⟨c :: path, locates_cons_iff.mpr (.inr ⟨path, rfl, hlast.locates⟩), ?_⟩
      intro longer other h
      obtain ⟨rfl, -, -⟩ | ⟨before, rfl, hbefore⟩ := locates_cons_iff.mp h
      · exact Nat.zero_le _
      · exact Nat.succ_le_succ (hlast.longest _ _ hbefore)
    | none =>
      rw [hlater] at ih
      -- Only the location that begins at this colon is left.
      have hhere : ∀ path kind, Locates (c :: cs) path kind →
          path = [] ∧ (if c = ':' then kindAfterPath? cs else none) = some kind := by
        intro path kind h
        obtain ⟨hpath, hc, hkind⟩ | ⟨before, -, hbefore⟩ := locates_cons_iff.mp h
        · exact ⟨hpath, by rw [if_pos hc, hkind]⟩
        · exact absurd hbefore (ih _ _)
      cases hfirst : (if c = ':' then kindAfterPath? cs else none) with
      | none =>
        intro path kind h
        rw [(hhere path kind h).2] at hfirst
        cases hfirst
      | some kind =>
        by_cases hc : c = ':'
        · rw [if_pos hc] at hfirst
          refine ⟨[], locates_cons_iff.mpr (.inl ⟨rfl, hc, hfirst⟩), ?_⟩
          intro longer other h
          rw [(hhere longer other h).1]
        · simp [hc] at hfirst

theorem locatedKindFrom_eq_some_iff :
    locatedKindFrom none line = some kind ↔ ∃ path, IsLastLocation line path kind := by
  have hspec := locatedKindFrom_spec line
  cases h : locatedKindFrom none line with
  | none =>
    rw [h] at hspec
    simp only [reduceCtorEq, false_iff, not_exists]
    exact fun path hlast => hspec path kind hlast.locates
  | some found =>
    rw [h] at hspec
    obtain ⟨path, hlast⟩ := hspec
    constructor
    · rintro ⟨⟩
      exact ⟨path, hlast⟩
    · rintro ⟨_, hother⟩
      rw [hlast.kind_unique hother]

end SolcDispatch.Legacy
