import SolcDispatch.Number.Decimal
import SolcDispatch.Proofs.Number.Rounding

/-! The shortest decimal of a number reads back as the number. Seventeen digits are always
enough, so the search for fewer ones comes to an end with a decimal that does. -/

namespace SolcDispatch.Binary64

variable {num den n m : Nat} {e f : Int}

theorem decimalLength_pos (n : Nat) : 0 < decimalLength n :=
  List.length_pos_iff.mpr Nat.toDigits_ne_nil

theorem pow_decimalLength_le (hn : 0 < n) : (10 : ℚ) ^ ((decimalLength n : Int) - 1) ≤ n := by
  have hle : 10 ^ (decimalLength n - 1) ≤ n := by
    rcases Nat.eq_or_lt_of_le (decimalLength_pos n) with h | h
    · rw [← h]
      exact hn
    · by_contra hlt
      have hlen := (Nat.length_toDigits_le_iff (by decide) (Nat.sub_pos_of_lt h)).mpr
        (Nat.lt_of_not_le hlt)
      unfold decimalLength at hlen h
      omega
  have hq : (10 : ℚ) ^ (decimalLength n - 1) ≤ n := by exact_mod_cast hle
  rw [← zpow_natCast, Nat.cast_sub (decimalLength_pos n)] at hq
  exact hq

theorem lt_pow_decimalLength (n : Nat) : (n : ℚ) < 10 ^ (decimalLength n : Int) := by
  have hlt : n < 10 ^ decimalLength n :=
    (Nat.length_toDigits_le_iff (by decide) (decimalLength_pos n)).mp (Nat.le_refl _)
  rw [zpow_natCast]
  exact_mod_cast hlt

theorem zpow_unique {x : ℚ} (he : 10 ^ (e - 1) ≤ x) (he' : x < 10 ^ e) (hf : 10 ^ (f - 1) ≤ x)
    (hf' : x < 10 ^ f) : e = f := by
  have hef := (zpow_lt_zpow_iff_right₀ (by norm_num : (1 : ℚ) < 10)).mp (he.trans_lt hf')
  have hfe := (zpow_lt_zpow_iff_right₀ (by norm_num : (1 : ℚ) < 10)).mp (hf.trans_lt he')
  omega

/-- The value `digits * 10 ^ exponent` lies between two powers of ten. -/
theorem decimal_bounds {digits : Nat} (hd : 0 < digits) (exponent : Int) :
    (10 : ℚ) ^ ((decimalLength digits : Int) + exponent - 1) ≤ digits * 10 ^ exponent ∧
      (digits : ℚ) * 10 ^ exponent < 10 ^ ((decimalLength digits : Int) + exponent) := by
  have hpos : (0 : ℚ) < 10 ^ exponent := by positivity
  rw [show (decimalLength digits : Int) + exponent - 1 = decimalLength digits - 1 + exponent by
      omega,
    zpow_add₀ (by norm_num), zpow_add₀ (by norm_num)]
  exact ⟨by gcongr; exact pow_decimalLength_le hd, by gcongr; exact lt_pow_decimalLength digits⟩

def decimalRatio (digits : Nat) (exponent : Int) : Nat × Nat :=
  if exponent < 0 then (digits, Nat.pow 10 (-exponent).toNat)
  else (digits * Nat.pow 10 exponent.toNat, 1)

theorem decimalRatio_den_pos (digits : Nat) (exponent : Int) :
    0 < (decimalRatio digits exponent).2 := by
  unfold decimalRatio
  split
  · exact Nat.pow_pos (by decide)
  · exact Nat.one_pos

theorem decimalRatio_eq (digits : Nat) (exponent : Int) :
    ((decimalRatio digits exponent).1 : ℚ) / (decimalRatio digits exponent).2 =
      digits * 10 ^ exponent := by
  unfold decimalRatio
  split
  · have he : (10 : ℚ) ^ exponent = ((10 : ℚ) ^ (-exponent).toNat)⁻¹ := by
      rw [← zpow_natCast, ← zpow_neg]
      congr 1
      omega
    simp only [Nat.pow_eq, Nat.cast_pow, Nat.cast_ofNat, he, div_eq_mul_inv]
  · have he : (10 : ℚ) ^ exponent = (10 : ℚ) ^ exponent.toNat := by
      rw [← zpow_natCast]
      congr 1
      omega
    simp only [Nat.pow_eq, Nat.cast_mul, Nat.cast_pow, Nat.cast_ofNat, he, Nat.cast_one, div_one]

theorem ofDecimal_eq (negative : Bool) (digits : Nat) (exponent : Int) :
    ofDecimal negative digits exponent =
      if digits = 0 then zero negative
      else if 400 < (decimalLength digits : Int) + exponent then .infinity negative
      else if (decimalLength digits : Int) + exponent < -400 then zero negative
      else ofRatio negative (decimalRatio digits exponent).1 (decimalRatio digits exponent).2 := by
  unfold ofDecimal decimalRatio
  dsimp only
  by_cases hneg : exponent < 0
  · simp only [hneg, if_true]
  · simp only [hneg, if_false]

theorem ofDecimal_congr {digits digits' : Nat} {exponent exponent' : Int} (negative : Bool)
    (h : (digits : ℚ) * 10 ^ exponent = digits' * 10 ^ exponent') :
    ofDecimal negative digits exponent = ofDecimal negative digits' exponent' := by
  have hpos : (0 : ℚ) < 10 ^ exponent := by positivity
  have hpos' : (0 : ℚ) < 10 ^ exponent' := by positivity
  have hzero : digits = 0 ↔ digits' = 0 := by
    constructor
    · rintro rfl
      rw [Nat.cast_zero, zero_mul, eq_comm, mul_eq_zero] at h
      exact_mod_cast h.resolve_right hpos'.ne'
    · rintro rfl
      rw [Nat.cast_zero, zero_mul, mul_eq_zero] at h
      exact_mod_cast h.resolve_right hpos.ne'
  rw [ofDecimal_eq, ofDecimal_eq]
  by_cases hd : digits = 0
  · rw [if_pos hd, if_pos (hzero.mp hd)]
  · have hd' : digits' ≠ 0 := fun hh => hd (hzero.mpr hh)
    obtain ⟨hle, hlt⟩ := decimal_bounds (Nat.pos_of_ne_zero hd) exponent
    obtain ⟨hle', hlt'⟩ := decimal_bounds (Nat.pos_of_ne_zero hd') exponent'
    rw [← h] at hle' hlt'
    have hratio := ofRatio_congr negative (decimalRatio_den_pos digits exponent)
      (decimalRatio_den_pos digits' exponent')
      (by rw [decimalRatio_eq, decimalRatio_eq, h])
    rw [if_neg hd, if_neg hd', zpow_unique hle hlt hle' hlt', hratio]

theorem ratio_den_pos (m : Nat) (e : Int) : 0 < (ratio m e).2 := scaled_den_pos Nat.one_pos

theorem ratio_eq (m : Nat) (e : Int) : ((ratio m e).1 : ℚ) / (ratio m e).2 = m * 2 ^ e := by
  rw [ratio, scaled_eq, Nat.cast_one, div_one, zpow_neg, div_inv_eq_mul]

/-- The place of the first digit is seen after so many digits are moved before the point
that some number is left of it. -/
theorem shifted_bounds {places : Nat} (hd : 0 < den)
    (hlow : (10 : ℚ) ^ (-places : Int) ≤ num / den) :
    (10 : ℚ) ^ ((decimalLength (Nat.pow 10 places * num / den) : Int) - (places + 1)) ≤ num / den ∧
      (num : ℚ) / den <
        10 ^ ((decimalLength (Nat.pow 10 places * num / den) : Int) - (places + 1) + 1) := by
  have hpos : (0 : ℚ) < den := by positivity
  rw [zpow_neg, zpow_natCast, ← one_div] at hlow
  rw [Nat.pow_eq]
  have hk : 0 < 10 ^ places * num / den := by
    refine Nat.div_pos ?_ hd
    rw [div_le_div_iff₀ (by positivity) hpos, one_mul, mul_comm (num : ℚ)] at hlow
    exact_mod_cast hlow
  have hfloor : ((10 ^ places * num / den : Nat) : ℚ) ≤ num / den * 10 ^ places := by
    rw [div_mul_eq_mul_div, le_div_iff₀ hpos, mul_comm (num : ℚ)]
    exact_mod_cast Nat.div_mul_le_self (10 ^ places * num) den
  have hceil : (num : ℚ) / den * 10 ^ places < ((10 ^ places * num / den + 1 : Nat) : ℚ) := by
    have hlt := Nat.lt_mul_div_succ (10 ^ places * num) hd
    rw [Nat.mul_comm den] at hlt
    rw [div_mul_eq_mul_div, div_lt_iff₀ hpos, mul_comm (num : ℚ)]
    exact_mod_cast hlt
  generalize 10 ^ places * num / den = k at hk hfloor hceil ⊢
  have hlen := pow_decimalLength_le hk
  have hlen' : ((k + 1 : Nat) : ℚ) ≤ 10 ^ decimalLength k := by
    have hlt := lt_pow_decimalLength k
    rw [zpow_natCast] at hlt
    have hnat : k < 10 ^ decimalLength k := by exact_mod_cast hlt
    exact_mod_cast hnat
  have hplaces : (0 : ℚ) < 10 ^ (places : Int) := by positivity
  rw [← zpow_natCast] at hfloor hceil hlen'
  constructor
  · rw [show (decimalLength k : Int) - (places + 1) = decimalLength k - 1 - places by omega,
      zpow_sub₀ (by norm_num), div_le_iff₀ hplaces]
    exact hlen.trans hfloor
  · rw [show (decimalLength k : Int) - (places + 1) + 1 = decimalLength k - places by omega,
      zpow_sub₀ (by norm_num), lt_div_iff₀ hplaces]
    exact hceil.trans_le hlen'

theorem leadingExponent_bounds (hd : 0 < den) (hlow : (10 : ℚ) ^ (-330 : Int) ≤ num / den) :
    (10 : ℚ) ^ leadingExponent num den ≤ num / den ∧
      (num : ℚ) / den < 10 ^ (leadingExponent num den + 1) := by
  obtain ⟨places, hp⟩ : ∃ places : Nat, places = 330 := ⟨330, rfl⟩
  have hone : (331 : Int) = places + 1 := by omega
  have hneg : (-330 : Int) = -places := by omega
  rw [hneg] at hlow
  rw [leadingExponent, ← hp, hone]
  exact shifted_bounds hd hlow

theorem onGrid_den_pos (hd : 0 < den) : 0 < (onGrid num den e).2 := by
  unfold onGrid
  split
  · exact hd
  · exact Nat.mul_pos hd (Nat.pow_pos (by decide))

theorem onGrid_eq (num den : Nat) (e : Int) :
    ((onGrid num den e).1 : ℚ) / (onGrid num den e).2 = num / den / 10 ^ e := by
  unfold onGrid
  split
  · have he : (10 : ℚ) ^ e = ((10 : ℚ) ^ (-e).toNat)⁻¹ := by
      rw [← zpow_natCast, ← zpow_neg]
      congr 1
      omega
    simp only [Nat.pow_eq, Nat.cast_mul, Nat.cast_pow, Nat.cast_ofNat, he, div_inv_eq_mul]
    ring
  · have he : (10 : ℚ) ^ e = (10 : ℚ) ^ e.toNat := by
      rw [← zpow_natCast]
      congr 1
      omega
    simp only [Nat.pow_eq, Nat.cast_mul, Nat.cast_pow, Nat.cast_ofNat, he, div_div]

theorem two_zpow_le_ten_zpow {a b : Nat} (h : 2 ^ a ≤ 10 ^ b) :
    (2 : ℚ) ^ (a : Int) ≤ 10 ^ (b : Int) := by
  rw [zpow_natCast, zpow_natCast]
  exact_mod_cast h

theorem value_lt (hc : IsCanonical m e) : (m : ℚ) * 2 ^ e < 10 ^ (309 : Int) := by
  have hm : (m : ℚ) < 2 ^ (53 : Int) := by exact_mod_cast hc.mantissa_lt
  have he : (2 : ℚ) ^ e ≤ 2 ^ maxExponent := zpow_le_zpow_right₀ (by norm_num) hc.le_maxExponent
  have hsum : (53 : Int) + maxExponent = ((1024 : Nat) : Int) := by decide
  have hpos : (0 : ℚ) < 2 ^ maxExponent := zpow_pos (by norm_num) _
  calc (m : ℚ) * 2 ^ e ≤ m * 2 ^ maxExponent := mul_le_mul_of_nonneg_left he (Nat.cast_nonneg m)
    _ < 2 ^ (53 : Int) * 2 ^ maxExponent := mul_lt_mul_of_pos_right hm hpos
    _ = 2 ^ ((1024 : Nat) : Int) := by rw [← zpow_add₀ (by norm_num), hsum]
    _ ≤ 10 ^ ((309 : Nat) : Int) := two_zpow_le_ten_zpow (by decide +kernel)

theorem le_value (hc : IsCanonical m e) (hm : 0 < m) : (10 : ℚ) ^ (-324 : Int) ≤ m * 2 ^ e := by
  have hm : (1 : ℚ) ≤ m := by exact_mod_cast hm
  have he : (2 : ℚ) ^ minExponent ≤ 2 ^ e := zpow_le_zpow_right₀ (by norm_num) hc.minExponent_le
  have hpow : (2 : ℚ) ^ ((1074 : Nat) : Int) ≤ 10 ^ ((324 : Nat) : Int) :=
    two_zpow_le_ten_zpow (by decide +kernel)
  calc (10 : ℚ) ^ (-((324 : Nat) : Int)) = (10 ^ ((324 : Nat) : Int))⁻¹ := zpow_neg _ _
    _ ≤ (2 ^ ((1074 : Nat) : Int))⁻¹ := by gcongr
    _ = 2 ^ minExponent := (zpow_neg _ _).symm
    _ ≤ 2 ^ e := he
    _ ≤ m * 2 ^ e := le_mul_of_one_le_left (by positivity) hm

theorem neighbours_head {count : Nat} {near : Decimal} (hd : 0 < den)
    (h : (neighbours num den count).head? = some near) :
    near.exponent = leadingExponent num den + 1 - count ∧
      |(near.digits : ℚ) - num / den / 10 ^ near.exponent| ≤ 1 / 2 := by
  unfold neighbours at h
  dsimp only at h
  rw [List.head?_cons, Option.some.injEq] at h
  subst h
  refine ⟨rfl, ?_⟩
  rw [← onGrid_eq]
  exact abs_roundHalfEven_sub_le (onGrid_den_pos hd)

/-- A decimal of seventeen digits next to a number reads back as the number. -/
theorem ofDecimal_seventeen (hc : IsCanonical m e) (hm : 0 < m) {near : Decimal}
    (h : (neighbours (ratio m e).1 (ratio m e).2 17).head? = some near) :
    ofDecimal false near.digits near.exponent = .finite false m e := by
  have hlow := le_value hc hm
  have hhigh := value_lt hc
  obtain ⟨hexp, hnear⟩ := neighbours_head (ratio_den_pos m e) h
  have hlead := leadingExponent_bounds (ratio_den_pos m e)
    (by rw [ratio_eq]; exact (zpow_le_zpow_right₀ (by norm_num) (by decide)).trans hlow)
  rw [ratio_eq] at hnear hlead
  generalize leadingExponent (ratio m e).1 (ratio m e).2 = first at hexp hlead
  obtain ⟨digits, exponent⟩ := near
  dsimp only at hexp hnear ⊢
  have hgrid : (0 : ℚ) < 10 ^ exponent := by positivity
  have hscale : (0 : ℚ) < 2 ^ e := by positivity
  have hfirst_lt := (zpow_lt_zpow_iff_right₀ (by norm_num : (1 : ℚ) < 10)).mp
    (hlead.1.trans_lt hhigh)
  have hlt_first := (zpow_lt_zpow_iff_right₀ (by norm_num : (1 : ℚ) < 10)).mp
    (hlow.trans_lt hlead.2)
  have hfirst : (10 : ℚ) ^ first = 10 ^ 16 * 10 ^ exponent := by
    rw [← zpow_natCast, ← zpow_add₀ (by norm_num)]
    congr 1
    push_cast
    omega
  have hnext : (10 : ℚ) ^ (first + 1) = 10 ^ 17 * 10 ^ exponent := by
    rw [← zpow_natCast, ← zpow_add₀ (by norm_num)]
    congr 1
    push_cast
    omega
  rw [hfirst, hnext, ← le_div_iff₀ hgrid, ← div_lt_iff₀ hgrid] at hlead
  obtain ⟨hlead, hlead'⟩ := hlead
  have hdist := abs_le.mp hnear
  have hdigits : 0 < digits := by
    have hq : (0 : ℚ) < digits := by linarith
    exact_mod_cast hq
  have hlen : decimalLength digits ≤ 18 := by
    have hq : (digits : ℚ) < 10 ^ 18 := by linarith
    exact (Nat.length_toDigits_le_iff (by decide) (by decide)).mpr (by exact_mod_cast hq)
  have hlen' := decimalLength_pos digits
  have hfew : (decimalLength digits : Int) + exponent ≤ 400 := by omega
  have hmany : -400 ≤ (decimalLength digits : Int) + exponent := by omega
  have hstep : (10 : ℚ) ^ exponent / 2 ^ e ≤ m / 10 ^ 16 := by
    rw [le_div_iff₀ hgrid] at hlead
    rw [div_le_div_iff₀ hscale (by positivity)]
    linarith
  have hscaled : |(digits : ℚ) * 10 ^ exponent / 2 ^ e - m| ≤ m / 10 ^ 16 / 2 := by
    have heq : (digits : ℚ) * 10 ^ exponent / 2 ^ e - m =
        (digits - m * 2 ^ e / 10 ^ exponent) * (10 ^ exponent / 2 ^ e) := by
      field_simp
    rw [heq, abs_mul, abs_of_pos (div_pos hgrid hscale)]
    calc |(digits : ℚ) - m * 2 ^ e / 10 ^ exponent| * (10 ^ exponent / 2 ^ e)
        ≤ 1 / 2 * (m / 10 ^ 16) := by gcongr
      _ = m / 10 ^ 16 / 2 := by ring
  have hnum : 0 < (decimalRatio digits exponent).1 := by
    refine Nat.pos_of_ne_zero fun hzero => ?_
    have hvalue := decimalRatio_eq digits exponent
    rw [hzero, Nat.cast_zero, zero_div, eq_comm, mul_eq_zero] at hvalue
    rcases hvalue with hh | hh
    · exact hdigits.ne' (by exact_mod_cast hh)
    · exact hgrid.ne' hh
  rw [ofDecimal_eq, if_neg hdigits.ne', if_neg (Int.not_lt.mpr hfew), if_neg (Int.not_lt.mpr hmany)]
  refine ofRatio_eq_finite false hc hnum (decimalRatio_den_pos digits exponent) ?_ fun hedge => ?_
  · rw [decimalRatio_eq]
    have hm53 : (m : ℚ) < 2 ^ 53 := by exact_mod_cast hc.mantissa_lt
    refine hscaled.trans_lt ?_
    linarith
  · rw [decimalRatio_eq]
    have hm52 : (m : ℚ) = 2 ^ 52 := by exact_mod_cast hedge
    refine hscaled.trans_lt ?_
    rw [hm52]
    norm_num

theorem neighbours_ne_nil (num den count : Nat) : neighbours num den count ≠ [] := by
  unfold neighbours
  exact List.cons_ne_nil _ _

/-- The search ends with a decimal that reads back, at the latest with the one of seventeen
digits. -/
theorem ofDecimal_shortestFrom (hc : IsCanonical m e) (hm : 0 < m) {tries count : Nat}
    (hcount : tries + count = 17) :
    ofDecimal false (shortestFrom m e (ratio m e).1 (ratio m e).2 tries count).digits
      (shortestFrom m e (ratio m e).1 (ratio m e).2 tries count).exponent = .finite false m e := by
  induction tries generalizing count with
  | zero =>
    rw [Nat.zero_add] at hcount
    subst hcount
    unfold shortestFrom
    cases hn : neighbours (ratio m e).1 (ratio m e).2 17 with
    | nil => exact absurd hn (neighbours_ne_nil _ _ _)
    | cons near far =>
      rw [List.headD_cons]
      exact ofDecimal_seventeen hc hm (by rw [hn, List.head?_cons])
  | succ tries ih =>
    unfold shortestFrom
    split
    · rename_i found hfound
      have hreads := List.find?_some hfound
      exact beq_iff_eq.mp hreads
    · exact ih (by omega)

def signedAs (negative : Bool) : Binary64 → Binary64
  | .finite _ mantissa exponent => .finite negative mantissa exponent
  | .infinity _ => .infinity negative
  | .nan => .nan

theorem ofRatio_signedAs (negative : Bool) (num den : Nat) :
    ofRatio negative num den = (ofRatio false num den).signedAs negative := by
  unfold ofRatio
  by_cases hn : num = 0
  · rw [if_pos hn, if_pos hn]
    rfl
  · rw [if_neg hn, if_neg hn]
    dsimp only
    split <;> split <;> rfl

theorem ofDecimal_signedAs (negative : Bool) (digits : Nat) (exponent : Int) :
    ofDecimal negative digits exponent = (ofDecimal false digits exponent).signedAs negative := by
  rw [ofDecimal_eq, ofDecimal_eq, ofRatio_signedAs]
  split
  · rfl
  · split
    · rfl
    · split <;> rfl

theorem ofDecimal_shortest (negative : Bool) (hc : IsCanonical m e) :
    ofDecimal negative (shortest m e).digits (shortest m e).exponent = .finite negative m e := by
  by_cases hm : m = 0
  · have he : e = minExponent := by
      refine hc.normal.resolve_left ?_
      rw [hm]
      decide
    rw [shortest, if_pos hm, ofDecimal, if_pos rfl, hm, he]
    rfl
  · rw [shortest, if_neg hm, ofDecimal_signedAs]
    dsimp only
    rw [ofDecimal_shortestFrom hc (Nat.pos_of_ne_zero hm) rfl]
    rfl

theorem wellFormed_ofDecimal (negative : Bool) (digits : Nat) (exponent : Int) :
    (ofDecimal negative digits exponent).WellFormed := by
  have hzero : (zero negative).WellFormed := ⟨by decide, by decide, by decide, .inr rfl⟩
  rw [ofDecimal_eq]
  split
  · exact hzero
  · split
    · trivial
    · split
      · exact hzero
      · exact wellFormed_ofRatio negative _ (decimalRatio_den_pos digits exponent)

end SolcDispatch.Binary64
