import Mathlib.Algebra.Ring.Nat
import SolcDispatch.Text.Blank
import SolcDispatch.Text.DecimalDigit
import SolcDispatch.Version.Basic

/-! Decimal digits, blanks and the characters of suffixes: which classes exclude one
another, and the number that the digits of a number write. -/

namespace SolcDispatch.Text

theorem digitValue?_of_isDigit {c : Char} (h : c.isDigit) :
    digitValue? c = some (c.toNat - 0x30) := by
  have hlow : c.toNat < 0x80 := by
    simp only [Char.isDigit, Bool.and_eq_true, decide_eq_true_eq, ge_iff_le,
      UInt32.le_iff_toNat_le] at h
    exact Nat.lt_of_le_of_lt h.2 (by decide)
  simp [digitValue?, hlow, h]

theorem isDecimalDigit_of_isDigit {c : Char} (h : c.isDigit) : isDecimalDigit c := by
  simp [isDecimalDigit, digitValue?_of_isDigit h]

theorem digitValue?_lt {c : Char} : (digitValue? c).getD 0 < 10 := by
  by_cases hlow : c.toNat < 0x80
  · by_cases hd : c.isDigit
    · rw [digitValue?_of_isDigit hd]
      simp only [Char.isDigit, Bool.and_eq_true, decide_eq_true_eq, ge_iff_le,
        UInt32.le_iff_toNat_le] at hd
      have := hd.2
      simp only [Option.getD_some, Char.toNat]
      have h57 : '9'.val.toNat = 57 := by decide
      omega
    · simp [digitValue?, hlow, hd]
  · rw [digitValue?, if_neg hlow]
    cases hz : digitZeros.find? fun z => decide (z ≤ c.toNat) && decide (c.toNat < z + 10) with
    | none => simp
    | some z =>
      have := List.find?_some hz
      simp only [Bool.and_eq_true, decide_eq_true_eq] at this
      simp only [Option.map_some, Option.getD_some]
      omega

theorem digitsValue_eq_ofDigitChars {ds : List Char} (h : ∀ c ∈ ds, c.isDigit) :
    digitsValue ds = Nat.ofDigitChars 10 ds 0 := by
  suffices hfold : ∀ n, ds.foldl (fun n c => 10 * n + (digitValue? c).getD 0) n =
      Nat.ofDigitChars 10 ds n from hfold 0
  induction ds with
  | nil => simp
  | cons c ds ih =>
    intro n
    have hc := digitValue?_of_isDigit (h c List.mem_cons_self)
    rw [List.foldl_cons, ih (fun d hd => h d (List.mem_cons_of_mem _ hd)), Nat.ofDigitChars_cons,
      hc]
    rfl

theorem digitsValue_toDigits (n : Nat) : digitsValue (Nat.toDigits 10 n) = n := by
  have hd : ∀ c ∈ Nat.toDigits 10 n, c.isDigit := fun c hc =>
    Nat.isDigit_of_mem_toDigits (by decide) (by decide) hc
  rw [digitsValue_eq_ofDigitChars hd, Nat.ofDigitChars_ten_toDigits]

theorem digitsValue_lt (ds : List Char) : digitsValue ds < 10 ^ ds.length := by
  suffices hfold : ∀ n, ds.foldl (fun n c => 10 * n + (digitValue? c).getD 0) n <
      (n + 1) * 10 ^ ds.length by simpa [digitsValue] using hfold 0
  induction ds with
  | nil => simp
  | cons c ds ih =>
    intro n
    have hc := digitValue?_lt (c := c)
    rw [List.foldl_cons, List.length_cons, Nat.pow_succ]
    calc ds.foldl (fun n c => 10 * n + (digitValue? c).getD 0) (10 * n + (digitValue? c).getD 0)
        < (10 * n + (digitValue? c).getD 0 + 1) * 10 ^ ds.length := ih _
      _ ≤ (10 * (n + 1)) * 10 ^ ds.length := Nat.mul_le_mul_right _ (by omega)
      _ = (n + 1) * (10 ^ ds.length * 10) := by
        rw [Nat.mul_comm 10 (n + 1), Nat.mul_assoc, Nat.mul_comm 10]

theorem trim_eq_self {cs : List Char} (h : ∀ c ∈ cs, isBlank c = false) : trim cs = cs := by
  have hfront {ds : List Char} (hds : ∀ c ∈ ds, isBlank c = false) : ds.dropWhile isBlank = ds := by
    cases ds with
    | nil => rfl
    | cons c rest => simp [hds c List.mem_cons_self]
  rw [trim, dropLastWhile, hfront h, hfront (fun c hc => h c (List.mem_reverse.mp hc)),
    List.reverse_reverse]

theorem exists_padding (c : Char) (cs : List Char) :
    ∃ n, cs = dropLastWhile (· == c) cs ++ List.replicate n c := by
  refine ⟨(cs.reverse.takeWhile (· == c)).length, ?_⟩
  have hsplit := congrArg List.reverse
    (List.takeWhile_append_dropWhile (p := (· == c)) (l := cs.reverse))
  have hpadding : cs.reverse.takeWhile (· == c) =
      List.replicate (cs.reverse.takeWhile (· == c)).length c :=
    List.eq_replicate_iff.mpr
      ⟨rfl, fun d hd => by simpa using List.all_eq_true.mp List.all_takeWhile d hd⟩
  rw [List.reverse_append, List.reverse_reverse] at hsplit
  rw [dropLastWhile, ← List.reverse_replicate, ← hpadding, hsplit]

theorem takeWhile_run {α : Type} {p : α → Bool} {run rest : List α} (hrun : ∀ c ∈ run, p c)
    (hrest : ∀ c ∈ rest.head?, p c = false) : (run ++ rest).takeWhile p = run := by
  rw [List.takeWhile_append_of_pos hrun]
  cases rest with
  | nil => simp
  | cons c rest => simp [hrest c rfl]

theorem dropWhile_run {p : Char → Bool} {run rest : List Char} (hrun : ∀ c ∈ run, p c)
    (hrest : ∀ c ∈ rest.head?, p c = false) : (run ++ rest).dropWhile p = rest := by
  rw [List.dropWhile_append_of_pos hrun]
  cases rest with
  | nil => rfl
  | cons c rest => simp [hrest c rfl]

end SolcDispatch.Text
