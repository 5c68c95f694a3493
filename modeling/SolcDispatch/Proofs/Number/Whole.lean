import SolcDispatch.Proofs.Number.Shortest

/-! Whole numbers among floating-point numbers. The number nearest to a whole number is whole
itself, though above `2 ^ 53` it may be another one. -/

namespace SolcDispatch.Binary64

variable {num den : Nat}

def sign (negative : Bool) : ℚ := if negative then -1 else 1

/-- The number that a finite floating-point number is. -/
def value? : Binary64 → Option ℚ
  | .finite negative mantissa exponent => some (sign negative * (mantissa * 2 ^ exponent))
  | _ => none

theorem sign_mul_natCast (negative : Bool) (k : Nat) :
    sign negative * k = ((if negative then -(k : Int) else k : Int) : ℚ) := by
  cases negative <;> simp [sign]

theorem natAbs_of_sign_mul_eq {negative : Bool} {q : ℚ} {n : Int} (hq : 0 ≤ q)
    (h : sign negative * q = n) : q = n.natAbs := by
  have habs : |sign negative * q| = q := by
    cases negative <;> simp [sign, abs_of_nonneg hq]
  rw [← habs, h, Nat.cast_natAbs, Int.cast_abs]

theorem toInt?_eq_some_iff {x : Binary64} {n : Int} :
    x.toInt? = some n ↔ x.value? = some (n : ℚ) := by
  cases x with
  | finite negative m e =>
    have hden := ratio_den_pos m e
    have hratio := ratio_eq m e
    rw [toInt?, value?, ← hratio]
    generalize ratio m e = fraction at hden
    obtain ⟨a, d⟩ := fraction
    dsimp only at hden ⊢
    have hd : (d : ℚ) ≠ 0 := by positivity
    by_cases hwhole : a % d = 0
    · obtain ⟨k, rfl⟩ := Nat.dvd_of_mod_eq_zero hwhole
      rw [if_pos hwhole, Nat.mul_div_cancel_left k hden, Nat.cast_mul, mul_div_cancel_left₀ _ hd,
        sign_mul_natCast, Option.some.injEq, Option.some.injEq, Int.cast_inj]
    · rw [if_neg hwhole]
      refine iff_of_false (by simp) fun h => hwhole ?_
      have habs := natAbs_of_sign_mul_eq (by positivity) (Option.some.inj h)
      rw [div_eq_iff hd] at habs
      have ha : a = n.natAbs * d := by exact_mod_cast habs
      rw [ha, Nat.mul_mod_left]
  | _ => constructor <;> intro h <;> cases h

theorem value?_ofRatio {negative : Bool} (hn : 0 < num)
    (h : (ofRatio negative num den).isFinite) :
    (ofRatio negative num den).value? =
      some (sign negative * (rounded num den * 2 ^ exponentOf num den)) := by
  rw [ofRatio_eq negative hn] at h ⊢
  by_cases hfull : rounded num den = fullMantissa
  · rw [if_pos hfull] at h ⊢
    have hcarry : (halfMantissa : ℚ) * 2 ^ (exponentOf num den + 1) =
        (fullMantissa : Nat) * 2 ^ exponentOf num den := by
      rw [zpow_add_one₀ (by norm_num), halfMantissa, fullMantissa, Nat.pow_eq]
      push_cast
      ring
    split at h
    · cases h
    · rename_i hmax
      rw [if_neg hmax, value?, hfull, hcarry]
  · rw [if_neg hfull] at h ⊢
    split at h
    · cases h
    · rename_i hmax
      rw [if_neg hmax, value?]

theorem exists_rounded_mul_eq (num : Nat) :
    ∃ k : Nat, (rounded num 1 : ℚ) * 2 ^ exponentOf num 1 = k := by
  unfold rounded
  generalize exponentOf num 1 = e
  by_cases he : e < 0
  · refine ⟨num, ?_⟩
    have hexact : roundHalfEven (num * 2 ^ (-e).toNat) 1 = num * 2 ^ (-e).toNat := by
      simp [roundHalfEven, Nat.mod_one]
    have hpow : (2 : ℚ) ^ (-e).toNat * 2 ^ e = 1 := by
      rw [← zpow_natCast, ← zpow_add₀ (by norm_num), show ((-e).toNat : Int) + e = 0 by omega,
        zpow_zero]
    simp only [scaled, he, if_true, Nat.pow_eq, hexact]
    push_cast
    rw [mul_assoc, hpow, mul_one]
  · refine ⟨roundHalfEven (scaled num 1 e).1 (scaled num 1 e).2 * 2 ^ e.toNat, ?_⟩
    have hpow : (2 : ℚ) ^ e = 2 ^ e.toNat := by
      rw [← zpow_natCast]
      congr 1
      omega
    rw [hpow]
    push_cast
    rfl

theorem exists_value?_ofInt {n : Int} (h : (ofInt n).isFinite) :
    ∃ k : Int, (ofInt n).value? = some (k : ℚ) := by
  by_cases hn : n = 0
  · subst hn
    exact ⟨0, by simp [ofInt, ofRatio, zero, value?]⟩
  · obtain ⟨k, hk⟩ := exists_rounded_mul_eq n.natAbs
    rw [ofInt] at h ⊢
    refine ⟨if n < 0 then -(k : Int) else k, ?_⟩
    rw [value?_ofRatio (Int.natAbs_pos.mpr hn) h, hk, sign_mul_natCast]
    simp

theorem roundHalfEven_of_odd {n d q : Nat} (hodd : q % 2 = 1) (hlow : (2 * q + 1) * d ≤ 2 * n)
    (hhigh : n < (q + 1) * d) : roundHalfEven n d = q + 1 := by
  have hq : n / d = q := Nat.div_eq_of_lt_le (by nlinarith) hhigh
  have hmod := Nat.div_add_mod n d
  have htwice : d ≤ 2 * (n % d) := by
    rw [hq] at hmod
    nlinarith
  simp only [roundHalfEven, hq, hodd, if_neg (Nat.not_lt.mpr htwice), ite_self]

theorem rounded_eq_fullMantissa_iff (hn : 0 < num) (hd : 0 < den) :
    rounded num den = fullMantissa ↔
      (2 : ℚ) ^ 53 - 1 / 2 ≤ num / den / 2 ^ exponentOf num den := by
  constructor
  · intro hfull
    have hnear := abs_le.mp (abs_rounded_sub_le num hd)
    rw [hfull, fullMantissa, Nat.pow_eq] at hnear
    push_cast at hnear
    linarith
  · intro hlow
    have hhigh := (fits_exponentOf hn hd).lt
    have hpos : 0 < (scaled num den (exponentOf num den)).2 := scaled_den_pos hd
    rw [← scaled_eq] at hlow hhigh
    unfold rounded
    generalize scaled num den (exponentOf num den) = fraction at hlow hhigh hpos
    obtain ⟨n, d⟩ := fraction
    dsimp only at hlow hhigh hpos ⊢
    rw [le_div_iff₀ (by positivity)] at hlow
    rw [div_lt_iff₀ (by positivity)] at hhigh
    -- The fraction is not below the middle between the last two mantissas, and the last but one
    -- of them is odd.
    have hlow' : (2 * (2 ^ 53 - 1) + 1) * d ≤ 2 * n := by
      have hq : ((2 * (2 ^ 53 - 1) + 1 : Nat) : ℚ) * d ≤ 2 * n := by
        push_cast
        linarith
      exact_mod_cast hq
    have hhigh' : n < (2 ^ 53 - 1 + 1) * d := by exact_mod_cast hhigh
    exact roundHalfEven_of_odd (by decide) hlow' hhigh'

/-- The number nearest to a fraction is infinite from half a step above the greatest one on. -/
theorem isFinite_ofRatio_iff (negative : Bool) (hn : 0 < num) (hd : 0 < den) :
    (ofRatio negative num den).isFinite ↔ (num : ℚ) / den < (2 ^ 54 - 1) * 2 ^ (970 : Int) := by
  have hfits := fits_exponentOf hn hd
  have hfull := rounded_eq_fullMantissa_iff hn hd
  have hfinite : (ofRatio negative num den).isFinite ↔
      if rounded num den = fullMantissa then exponentOf num den + 1 ≤ maxExponent
      else exponentOf num den ≤ maxExponent := by
    rw [ofRatio_eq negative hn]
    split <;> split <;> simp [isFinite, *] <;> omega
  rw [hfinite]
  generalize exponentOf num den = e at hfits hfull
  generalize (num : ℚ) / den = x at hfits hfull ⊢
  have hpos : (0 : ℚ) < 2 ^ e := by positivity
  have hlast : (0 : ℚ) < 2 ^ (970 : Int) := by positivity
  have hnext : (2 : ℚ) ^ (971 : Int) = 2 ^ (970 : Int) * 2 := zpow_add_one₀ (by norm_num) 970
  have hlt := (div_lt_iff₀ hpos).mp hfits.lt
  obtain hbelow | rfl | habove := Int.lt_trichotomy e 971
  · have hpow : (2 : ℚ) ^ e ≤ 2 ^ (970 : Int) := zpow_le_zpow_right₀ (by norm_num) (by omega)
    generalize (2 : ℚ) ^ (970 : Int) = last at hpow hlast ⊢
    refine iff_of_true ?_ (by linarith)
    split <;> (rw [maxExponent]; omega)
  · have hmiddle : (2 : ℚ) ^ 53 - 1 / 2 ≤ x / 2 ^ (971 : Int) ↔
        (2 ^ 54 - 1) * 2 ^ (970 : Int) ≤ x := by
      rw [le_div_iff₀ hpos, hnext]
      constructor <;> intro h <;> linarith
    rw [← Rat.not_le, ← hmiddle, ← hfull]
    split
    · rename_i h
      exact iff_of_false (by decide) (not_not.mpr h)
    · rename_i h
      exact iff_of_true (by decide) h
  · have hnormal : 2 ^ 52 ≤ x / 2 ^ e := hfits.normal.resolve_left (by rw [minExponent]; omega)
    have hpow : (2 : ℚ) ^ (971 : Int) * 2 ≤ 2 ^ e := by
      rw [← zpow_add_one₀ (by norm_num)]
      exact zpow_le_zpow_right₀ (by norm_num) (by omega)
    rw [le_div_iff₀ hpos] at hnormal
    rw [hnext] at hpow
    generalize (2 : ℚ) ^ (970 : Int) = last at hpow hlast ⊢
    refine iff_of_false ?_ (by linarith)
    split <;> (rw [maxExponent]; omega)

theorem isFinite_ofInt_iff {n : Int} : (ofInt n).isFinite ↔ n.natAbs < (2 ^ 54 - 1) * 2 ^ 970 := by
  by_cases hn : n = 0
  · subst hn
    exact iff_of_true rfl (by positivity)
  · have hcast : (2 ^ 54 - 1) * (2 : ℚ) ^ (970 : Int) = ((2 ^ 54 - 1) * 2 ^ 970 : Nat) := by
      rw [Nat.cast_mul, Nat.cast_pow, ← zpow_natCast]
      norm_num
    rw [ofInt, isFinite_ofRatio_iff _ (Int.natAbs_pos.mpr hn) Nat.one_pos, Nat.cast_one, div_one,
      hcast, Nat.cast_lt]

end SolcDispatch.Binary64
