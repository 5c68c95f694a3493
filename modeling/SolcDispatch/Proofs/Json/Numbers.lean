import SolcDispatch.Json.Parser
import SolcDispatch.Json.Printer
import SolcDispatch.Proofs.Decimal
import SolcDispatch.Proofs.Number.Shortest

/-! Printed numbers read back: whole ones by their digits, the others by the value of the
decimal that writes them. -/

namespace SolcDispatch.Json

def endings : List Char := [',', ']', '}', ' ', '\t', '\n', '\r']

/-- What may stand after a printed value. -/
def Ends (rest : List Char) : Prop := ∀ c ∈ rest.head?, c ∈ endings

theorem Ends.ne {rest : List Char} (h : Ends rest) {p : Char → Bool}
    (hp : endings.any p = false) : ∀ c ∈ rest.head?, p c = false := by
  intro c hc
  simpa using List.any_eq_false.mp hp c (h c hc)

theorem isDigit_iff {c : Char} : isDigit c = c.isDigit := by
  simp only [isDigit, Char.isDigit, ge_iff_le]
  rfl

theorem isDigit_of_mem_toDigits {n : Nat} {c : Char} (h : c ∈ Nat.toDigits 10 n) : isDigit c := by
  rw [isDigit_iff]
  exact Nat.isDigit_of_mem_toDigits (by decide) (by decide) h

theorem natOfDigits_eq (ds : List Char) : natOfDigits ds = Nat.ofDigitChars 10 ds 0 := rfl

theorem natOfDigits_toDigits (n : Nat) : natOfDigits (Nat.toDigits 10 n) = n := by
  rw [natOfDigits_eq, Nat.ofDigitChars_ten_toDigits]

theorem natOfDigits_append (ds more : List Char) :
    natOfDigits (ds ++ more) = natOfDigits ds * 10 ^ more.length + natOfDigits more := by
  rw [natOfDigits_eq, Nat.ofDigitChars_append, Nat.ofDigitChars_eq_ofDigitChars_zero, Nat.mul_comm]
  rfl

theorem natOfDigits_zeros (n : Nat) : natOfDigits (List.replicate n '0') = 0 := by
  rw [natOfDigits_eq, Nat.ofDigitChars_replicate_zero, Nat.mul_zero]

theorem natOfDigits_zeros_append (n : Nat) (ds : List Char) :
    natOfDigits (List.replicate n '0' ++ ds) = natOfDigits ds := by
  rw [natOfDigits_append, natOfDigits_zeros, Nat.zero_mul, Nat.zero_add]

/-- Digits that a number can begin with: a zero alone, or no zero in front. -/
structure IsWhole (ds : List Char) : Prop where
  ne_nil : ds ≠ []
  digits : ∀ c ∈ ds, isDigit c
  front : ds = ['0'] ∨ ds.head? ≠ some '0'

variable {τ : Type} {ds fraction rest start : List Char} {negative : Bool}

theorem digits?_run (hne : ds ≠ []) (hds : ∀ c ∈ ds, isDigit c)
    (hrest : ∀ c ∈ rest.head?, isDigit c = false) : digits? (ds ++ rest) = some (ds, rest) := by
  rw [digits?, Text.takeWhile_run hds hrest, Text.dropWhile_run hds hrest]
  cases ds with
  | nil => exact absurd rfl hne
  | cons c ds => rfl

theorem IsWhole.wholePart?_append (h : IsWhole ds) (hrest : ∀ c ∈ rest.head?, isDigit c = false) :
    wholePart? (ds ++ rest) = some (ds, rest) := by
  rcases h.front with rfl | hfront
  · rfl
  · obtain ⟨c, more, rfl⟩ := List.exists_cons_of_ne_nil h.ne_nil
    have hc : c ≠ '0' := fun he => hfront (by rw [he, List.head?_cons])
    have hrun := digits?_run h.ne_nil h.digits hrest
    rw [List.cons_append] at hrun ⊢
    unfold wholePart?
    split
    · rename_i heq
      exact absurd (List.cons.inj heq).1 hc
    · exact hrun

theorem head?_toDigits_ne {n : Nat} (h : 0 < n) : (Nat.toDigits 10 n).head? ≠ some '0' := by
  induction n using Nat.strongRecOn with
  | ind n ih =>
    by_cases hlt : n < 10
    · rw [Nat.toDigits_of_lt_base hlt]
      have hall : ∀ k < 10, 0 < k → [k.digitChar].head? ≠ some '0' := by decide
      exact hall n hlt h
    · have hne : Nat.toDigits 10 (n / 10) ≠ [] := Nat.toDigits_ne_nil
      rw [Nat.toDigits_of_base_le (by decide) (by omega), List.head?_append_of_ne_nil _ hne]
      exact ih (n / 10) (by omega) (by omega)

theorem isWhole_toDigits (n : Nat) : IsWhole (Nat.toDigits 10 n) := by
  refine ⟨Nat.toDigits_ne_nil, fun c hc => isDigit_of_mem_toDigits hc, ?_⟩
  rcases Nat.eq_zero_or_pos n with rfl | h
  · exact .inl (Nat.toDigits_zero 10)
  · exact .inr (head?_toDigits_ne h)

theorem fractionPart_of_ne (h : ∀ c ∈ rest.head?, c ≠ '.') : fractionPart rest = ([], rest) := by
  unfold fractionPart
  split
  · exact absurd rfl (h '.' rfl)
  · rfl

theorem exponentPart?_of_ends (h : Ends rest) : exponentPart? rest = none := by
  cases rest with
  | nil => rfl
  | cons c rest =>
    have hc := h.ne (p := fun c => c == 'e' || c == 'E') (by decide) c rfl
    simp only [exponentPart?, hc, Bool.false_eq_true, if_false]

theorem unsignedNumber_toDigits {n : Nat} (hn : n < 10 ^ maxDigits) (hrest : Ends rest) :
    unsignedNumber (some maxDigits) negative start (Nat.toDigits 10 n ++ rest) =
      .ok ((.int (if negative then -(n : Int) else n) : Json τ), rest) := by
  have hwhole := (isWhole_toDigits n).wholePart?_append (hrest.ne (p := isDigit) (by decide))
  have hlen : ¬ (some maxDigits).any (· < (Nat.toDigits 10 n).length) = true := by
    rw [Option.any_some, decide_eq_true_eq, Nat.not_lt]
    exact (Nat.length_toDigits_le_iff (by decide) (by decide)).mpr hn
  have hpoint : ∀ c ∈ rest.head?, c ≠ '.' := by
    intro c hc
    simpa using hrest.ne (p := fun c => c == '.') (by decide) c hc
  simp only [unsignedNumber, hwhole, fractionPart_of_ne hpoint, exponentPart?_of_ends hrest,
    if_neg hlen, natOfDigits_toDigits]

theorem fractionPart_run (hne : fraction ≠ []) (hds : ∀ c ∈ fraction, isDigit c)
    (hrest : ∀ c ∈ rest.head?, isDigit c = false) :
    fractionPart ('.' :: (fraction ++ rest)) = (fraction, rest) := by
  simp only [fractionPart, digits?_run hne hds hrest, Option.getD_some]

theorem exponentPart?_exponentText (least : Nat) (e : Int) (hrest : Ends rest) :
    exponentPart? (Binary64.exponentText least e ++ rest) = some (e, rest) := by
  let ds := List.replicate (least - (Nat.toDigits 10 e.natAbs).length) '0' ++
    Nat.toDigits 10 e.natAbs
  have hne : ds ≠ [] := by simp [ds, Nat.toDigits_ne_nil]
  have hds : ∀ c ∈ ds, isDigit c := by
    intro c hc
    rcases List.mem_append.mp hc with hc | hc
    · rw [List.eq_of_mem_replicate hc]
      decide
    · exact isDigit_of_mem_toDigits hc
  have hrun := digits?_run hne hds (hrest.ne (p := isDigit) (by decide))
  have hvalue : natOfDigits ds = e.natAbs := by
    rw [natOfDigits_zeros_append, natOfDigits_toDigits]
  by_cases he : e < 0
  · have htext : Binary64.exponentText least e ++ rest = 'e' :: '-' :: (ds ++ rest) := by
      simp only [Binary64.exponentText, he, if_true, List.cons_append, ds]
    rw [htext]
    change (digits? (ds ++ rest)).map (fun read => (-(natOfDigits read.1 : Int), read.2)) = _
    rw [hrun, Option.map_some]
    simp only [hvalue, Option.some.injEq, Prod.mk.injEq, and_true]
    omega
  · have htext : Binary64.exponentText least e ++ rest = 'e' :: '+' :: (ds ++ rest) := by
      simp only [Binary64.exponentText, he, if_false, List.cons_append, ds]
    rw [htext]
    change (digits? (ds ++ rest)).map (fun read => ((natOfDigits read.1 : Int), read.2)) = _
    rw [hrun, Option.map_some]
    simp only [hvalue, Option.some.injEq, Prod.mk.injEq, and_true]
    omega

theorem unsignedNumber_fraction (hwhole : IsWhole ds) (hne : fraction ≠ [])
    (hds : ∀ c ∈ fraction, isDigit c) (hrest : Ends rest) :
    (unsignedNumber (some maxDigits) negative start (ds ++ '.' :: (fraction ++ rest)) :
        Reading (Json τ)) =
      .ok (.float (.ofDecimal negative (natOfDigits (ds ++ fraction)) (-fraction.length)),
        rest) := by
  have hfront : wholePart? (ds ++ '.' :: (fraction ++ rest)) =
      some (ds, '.' :: (fraction ++ rest)) :=
    hwhole.wholePart?_append (by simp [isDigit])
  have hpoint := fractionPart_run hne hds (hrest.ne (p := isDigit) (by decide))
  obtain ⟨c, more, rfl⟩ := List.exists_cons_of_ne_nil hne
  simp only [unsignedNumber, hfront, hpoint, exponentPart?_of_ends hrest, Option.getD_none,
    Int.zero_sub]

theorem unsignedNumber_exponent {least : Nat} {e : Int} {point : List Char}
    (hwhole : IsWhole ds) (hds : ∀ c ∈ fraction, isDigit c)
    (hpoint : fraction = [] ∧ point = [] ∨ fraction ≠ [] ∧ point = '.' :: fraction)
    (hrest : Ends rest) :
    (unsignedNumber (some maxDigits) negative start
        (ds ++ (point ++ (Binary64.exponentText least e ++ rest))) : Reading (Json τ)) =
      .ok (.float (.ofDecimal negative (natOfDigits (ds ++ fraction)) (e - fraction.length)),
        rest) := by
  have hexponent := exponentPart?_exponentText least e hrest
  generalize htext : Binary64.exponentText least e ++ rest = text at hexponent ⊢
  have hmark : ∀ c ∈ text.head?, c = 'e' := by
    rw [← htext]
    exact fun c hc => (Option.some.inj hc).symm
  have hdigit : ∀ c ∈ text.head?, isDigit c = false := by
    intro c hc
    rw [hmark c hc]
    decide
  rcases hpoint with ⟨rfl, rfl⟩ | ⟨hne, rfl⟩
  · have hplain : fractionPart text = ([], text) := by
      refine fractionPart_of_ne fun c hc => ?_
      rw [hmark c hc]
      decide
    simp only [unsignedNumber, List.nil_append, hwhole.wholePart?_append hdigit, hplain, hexponent,
      Option.getD_some]
  · have hfront : wholePart? (ds ++ '.' :: (fraction ++ text)) =
        some (ds, '.' :: (fraction ++ text)) := hwhole.wholePart?_append (by simp [isDigit])
    simp only [unsignedNumber, List.cons_append, hfront, fractionPart_run hne hds hdigit, hexponent,
      Option.getD_some]

/-- The significand of a decimal writes the decimal's value. -/
structure Writes (d : Binary64.Decimal) (ds : List Char) (e : Int) : Prop where
  ne_nil : ds ≠ []
  digits : ∀ c ∈ ds, isDigit c
  front : ds = ['0'] ∧ e = 0 ∨ ds.head? ≠ some '0'
  value : (natOfDigits ds : ℚ) * 10 ^ (e + 1 - ds.length) = d.digits * 10 ^ d.exponent

theorem writes_significand (d : Binary64.Decimal) :
    Writes d (Binary64.significand d).1 (Binary64.significand d).2 := by
  obtain ⟨n, hn⟩ := Text.exists_padding '0' (Nat.toDigits 10 d.digits)
  rw [Text.dropLastWhile] at hn
  unfold Binary64.significand
  dsimp only
  generalize hkept : ((Nat.toDigits 10 d.digits).reverse.dropWhile (· == '0')).reverse = kept
    at hn ⊢
  have hvalue := natOfDigits_toDigits d.digits
  rw [hn, natOfDigits_append, natOfDigits_zeros, List.length_replicate, Nat.add_zero] at hvalue
  by_cases hempty : kept = []
  · subst hempty
    have hzero : d.digits = 0 := by
      rw [← hvalue]
      exact Nat.zero_mul _
    exact ⟨by simp, by simp [isDigit], .inl ⟨rfl, rfl⟩, by simp [hzero, natOfDigits]⟩
  · have hfalse : kept.isEmpty = false := by simpa using hempty
    have hpos : 0 < d.digits := by
      refine Nat.pos_of_ne_zero fun hzero => hempty ?_
      rw [← hkept, hzero, Nat.toDigits_zero]
      rfl
    simp only [hfalse, Bool.false_eq_true, if_false]
    refine ⟨hempty, fun c hc => ?_, .inr ?_, ?_⟩
    · refine isDigit_of_mem_toDigits (n := d.digits) ?_
      rw [hn]
      exact List.mem_append_left _ hc
    · have hhead := head?_toDigits_ne hpos
      rwa [hn, List.head?_append_of_ne_nil _ hempty] at hhead
    · have hexp : ((Nat.toDigits 10 d.digits).length : Int) - 1 + d.exponent + 1 - kept.length =
          n + d.exponent := by
        rw [hn, List.length_append, List.length_replicate]
        push_cast
        omega
      rw [hexp, zpow_add₀ (by norm_num), ← mul_assoc, zpow_natCast]
      exact_mod_cast congrArg (fun k : Nat => (k : ℚ) * 10 ^ d.exponent) hvalue

/-- A text that is read as a decimal of the same value. -/
def ReadsAs (d : Binary64.Decimal) (text : List Char) : Prop :=
  ∀ (τ : Type) (negative : Bool) (start rest : List Char), Ends rest → ∃ digits exponent,
    (unsignedNumber (some maxDigits) negative start (text ++ rest) : Reading (Json τ)) =
      .ok (.float (.ofDecimal negative digits exponent), rest) ∧
    (digits : ℚ) * 10 ^ exponent = d.digits * 10 ^ d.exponent

variable {d : Binary64.Decimal} {e : Int}

theorem Writes.readsAs_scientific (h : Writes d ds e) :
    ReadsAs d (Binary64.shortestLayout.scientific ds e) := by
  intro τ negative start rest hrest
  obtain ⟨c, more, rfl⟩ := List.exists_cons_of_ne_nil h.ne_nil
  have hwhole : IsWhole [c] := by
    refine ⟨List.cons_ne_nil _ _, fun x hx => h.digits x (by simp_all), ?_⟩
    by_cases hc : c = '0'
    · exact .inl (by rw [hc])
    · exact .inr (by simpa using hc)
  have hmore : ∀ x ∈ more, isDigit x := fun x hx => h.digits x (List.mem_cons_of_mem _ hx)
  have hvalue := h.value
  rw [List.length_cons, show e + 1 - ((more.length + 1 : Nat) : Int) = e - more.length by omega]
    at hvalue
  refine ⟨natOfDigits ([c] ++ more), e - more.length, ?_, hvalue⟩
  have hread {point : List Char}
      (hpoint : more = [] ∧ point = [] ∨ more ≠ [] ∧ point = '.' :: more) :
      (unsignedNumber (some maxDigits) negative start
          ([c] ++ (point ++
            (Binary64.exponentText Binary64.shortestLayout.exponentDigits e ++ rest))) :
          Reading (Json τ)) =
        .ok (.float (.ofDecimal negative (natOfDigits ([c] ++ more)) (e - more.length)), rest) :=
    unsignedNumber_exponent hwhole hmore hpoint hrest
  cases more with
  | nil => exact hread (.inl ⟨rfl, rfl⟩)
  | cons x more =>
    have htext := hread (.inr ⟨List.cons_ne_nil _ _, rfl⟩)
    simpa [Binary64.Layout.scientific] using htext

theorem Writes.readsAs_small (h : Writes d ds e) (he : e < 0) :
    ReadsAs d ('0' :: '.' :: (List.replicate (-e - 1).toNat '0' ++ ds)) := by
  intro τ negative start rest hrest
  generalize hn : (-e - 1).toNat = n
  have hdigits : ∀ c ∈ List.replicate n '0' ++ ds, isDigit c := by
    intro c hc
    rcases List.mem_append.mp hc with hc | hc
    · rw [List.eq_of_mem_replicate hc]
      decide
    · exact h.digits c hc
  have hzero : IsWhole ['0'] := ⟨by decide, List.forall_mem_singleton.mpr rfl, .inl rfl⟩
  have hread : (unsignedNumber (some maxDigits) negative start
      (['0'] ++ '.' :: (List.replicate n '0' ++ ds ++ rest)) : Reading (Json τ)) = _ :=
    unsignedNumber_fraction hzero (by simp [h.ne_nil]) hdigits hrest
  refine ⟨_, _, by simpa using hread, ?_⟩
  have hnum : natOfDigits (['0'] ++ (List.replicate n '0' ++ ds)) = natOfDigits ds := by
    rw [← List.append_assoc,
      show ['0'] ++ List.replicate n '0' = List.replicate (n + 1) '0' from rfl, natOfDigits_zeros_append]
  have hexp : -((List.replicate n '0' ++ ds).length : Int) = e + 1 - ds.length := by
    rw [List.length_append, List.length_replicate]
    push_cast
    omega
  rw [← h.value, ← hexp, ← hnum]
  simp

theorem Writes.readsAs_whole (h : Writes d ds e) {n : Nat} (hn : (n : Int) = e + 1 - ds.length) :
    ReadsAs d (ds ++ List.replicate n '0' ++ ['.', '0']) := by
  intro τ negative start rest hrest
  have hwhole : IsWhole (ds ++ List.replicate n '0') := by
    refine ⟨by simp [h.ne_nil], fun c hc => ?_, ?_⟩
    · rcases List.mem_append.mp hc with hc | hc
      · exact h.digits c hc
      · rw [List.eq_of_mem_replicate hc]
        decide
    · rcases h.front with ⟨rfl, rfl⟩ | hfront
      · have hzero : n = 0 := by simpa using hn
        exact .inl (by rw [hzero]; rfl)
      · exact .inr (by rwa [List.head?_append_of_ne_nil _ h.ne_nil])
  have hread : (unsignedNumber (some maxDigits) negative start
      (ds ++ List.replicate n '0' ++ '.' :: (['0'] ++ rest)) : Reading (Json τ)) = _ :=
    unsignedNumber_fraction hwhole (by decide) (List.forall_mem_singleton.mpr rfl) hrest
  refine ⟨_, _, by simpa using hread, ?_⟩
  have hnum : natOfDigits (ds ++ (List.replicate n '0' ++ ['0'])) =
      natOfDigits ds * 10 ^ (n + 1) := by
    rw [natOfDigits_append, show List.replicate n '0' ++ ['0'] = List.replicate (n + 1) '0' by
      rw [List.replicate_succ'], natOfDigits_zeros, List.length_replicate, Nat.add_zero]
  rw [← h.value, ← hn, zpow_natCast, hnum, zpow_neg_one]
  push_cast
  field_simp
  ring

theorem Writes.readsAs_split (h : Writes d ds e) {n : Nat} (hn : (n : Int) = e + 1) (hpos : 0 < n)
    (hlt : n < ds.length) : ReadsAs d (ds.take n ++ '.' :: ds.drop n) := by
  intro τ negative start rest hrest
  have hwhole : IsWhole (ds.take n) := by
    refine ⟨List.ne_nil_of_length_pos (by rw [List.length_take]; omega),
      fun c hc => h.digits c (List.mem_of_mem_take hc), ?_⟩
    rcases h.front with ⟨rfl, _⟩ | hfront
    · rw [List.length_singleton] at hlt
      omega
    · exact .inr (by rwa [List.head?_take, if_neg (by omega)])
  have hread : (unsignedNumber (some maxDigits) negative start
      (ds.take n ++ '.' :: (ds.drop n ++ rest)) : Reading (Json τ)) = _ :=
    unsignedNumber_fraction hwhole (by simpa using hlt)
      (fun c hc => h.digits c (List.mem_of_mem_drop hc)) hrest
  refine ⟨_, _, by simpa using hread, ?_⟩
  have hexp : -((ds.length - n : Nat) : Int) = e + 1 - ds.length := by omega
  rw [← h.value, hexp]

theorem Writes.readsAs_positional (h : Writes d ds e) :
    ReadsAs d (Binary64.shortestLayout.positional ds e) := by
  unfold Binary64.Layout.positional
  by_cases he : e < 0
  · rw [if_pos he]
    exact h.readsAs_small he
  · rw [if_neg he]
    dsimp only
    by_cases hlen : ds.length ≤ e.toNat + 1
    · rw [if_pos hlen]
      exact h.readsAs_whole (by omega)
    · rw [if_neg hlen]
      exact h.readsAs_split (by omega) (by omega) (by omega)

theorem readsAs_render (d : Binary64.Decimal) : ReadsAs d (Binary64.shortestLayout.render d) := by
  have h := writes_significand d
  unfold Binary64.Layout.render
  generalize Binary64.significand d = significand at h ⊢
  obtain ⟨ds, e⟩ := significand
  dsimp only
  split
  · exact h.readsAs_positional
  · exact h.readsAs_scientific

theorem head?_render (d : Binary64.Decimal) :
    ∃ c more, Binary64.shortestLayout.render d = c :: more ∧ isDigit c := by
  have h := writes_significand d
  unfold Binary64.Layout.render
  generalize Binary64.significand d = significand at h ⊢
  obtain ⟨ds, e⟩ := significand
  obtain ⟨c, more, rfl⟩ := List.exists_cons_of_ne_nil h.ne_nil
  have hc := h.digits c List.mem_cons_self
  dsimp only
  split
  · unfold Binary64.Layout.positional
    split
    · exact ⟨'0', _, rfl, by decide⟩
    · dsimp only
      split
      · exact ⟨c, _, rfl, hc⟩
      · exact ⟨c, _, by rw [List.take_succ_cons, List.cons_append], hc⟩
  · unfold Binary64.Layout.scientific
    split
    · rename_i x heq
      obtain ⟨rfl, _⟩ := List.cons.inj heq
      exact ⟨c, _, rfl, hc⟩
    · rename_i x tail _ heq
      obtain ⟨rfl, _⟩ := List.cons.inj heq
      exact ⟨c, _, rfl, hc⟩
    · rename_i heq
      cases heq

theorem unsignedNumber_render {m : Nat} (hc : Binary64.IsCanonical m e) (hrest : Ends rest) :
    (unsignedNumber (some maxDigits) negative start
        (Binary64.shortestLayout.render (Binary64.shortest m e) ++ rest) : Reading (Json τ)) =
      .ok (.float (.finite negative m e), rest) := by
  obtain ⟨digits, exponent, hread, hvalue⟩ :=
    readsAs_render (Binary64.shortest m e) τ negative start rest hrest
  rw [hread, Binary64.ofDecimal_congr negative hvalue, Binary64.ofDecimal_shortest negative hc]

end SolcDispatch.Json
