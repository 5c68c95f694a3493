import Mathlib.Algebra.Order.Field.Power
import Mathlib.Data.Rat.Cast.Order
import Mathlib.Tactic.FieldSimp
import Mathlib.Tactic.Linarith
import Mathlib.Tactic.NormNum
import Mathlib.Tactic.Positivity
import Mathlib.Tactic.Ring
import SolcDispatch.Number.Binary64

/-! Which floating-point number is nearest to a fraction. The fraction counts, not the
numerator and the denominator that write it. -/

namespace SolcDispatch.Binary64

/-- The mantissas and exponents that numbers have: a mantissa of fewer than 53 digits
goes with the least exponent only. -/
structure IsCanonical (mantissa : Nat) (exponent : Int) : Prop where
  mantissa_lt : mantissa < 2 ^ 53
  minExponent_le : minExponent ≤ exponent
  le_maxExponent : exponent ≤ maxExponent
  normal : 2 ^ 52 ≤ mantissa ∨ exponent = minExponent

def WellFormed : Binary64 → Prop
  | .finite _ mantissa exponent => IsCanonical mantissa exponent
  | _ => True

variable {num den n d : Nat} {e : Int}

theorem scaled_den_pos (hd : 0 < den) : 0 < (scaled num den e).2 := by
  unfold scaled
  split
  · exact hd
  · exact Nat.mul_pos hd (Nat.pow_pos (by decide))

theorem scaled_eq (num den : Nat) (e : Int) :
    ((scaled num den e).1 : ℚ) / (scaled num den e).2 = num / den / 2 ^ e := by
  unfold scaled
  split
  · rename_i hneg
    have he : (2 : ℚ) ^ e = ((2 : ℚ) ^ (-e).toNat)⁻¹ := by
      rw [← zpow_natCast, ← zpow_neg]
      congr 1
      omega
    simp only [Nat.pow_eq, Nat.cast_mul, Nat.cast_pow, Nat.cast_ofNat, he, div_inv_eq_mul]
    ring
  · rename_i hpos
    have he : (2 : ℚ) ^ e = (2 : ℚ) ^ e.toNat := by
      rw [← zpow_natCast]
      congr 1
      omega
    simp only [Nat.pow_eq, Nat.cast_mul, Nat.cast_pow, Nat.cast_ofNat, he, div_div]

theorem cast_div_eq (hd : 0 < d) : (n : ℚ) / d = (n / d : Nat) + ((n % d : Nat) : ℚ) / d := by
  have hpos : (d : ℚ) ≠ 0 := by positivity
  have hh : (n : ℚ) = d * (n / d : Nat) + (n % d : Nat) := by
    exact_mod_cast (Nat.div_add_mod n d).symm
  field_simp
  linarith

theorem abs_roundHalfEven_sub_le (hd : 0 < d) : |(roundHalfEven n d : ℚ) - n / d| ≤ 1 / 2 := by
  have hpos : (0 : ℚ) < d := by positivity
  have hmod : ((n % d : Nat) : ℚ) < d := by exact_mod_cast Nat.mod_lt n hd
  have hge : (0 : ℚ) ≤ (n % d : Nat) / d := by positivity
  have hlt : ((n % d : Nat) : ℚ) / d < 1 := (div_lt_one hpos).mpr hmod
  rw [cast_div_eq hd]
  unfold roundHalfEven
  dsimp only
  split
  · rename_i htwice
    have hh : ((n % d : Nat) : ℚ) / d < 1 / 2 := by
      rw [div_lt_iff₀ hpos]
      have hc : (2 : ℚ) * (n % d : Nat) < d := by exact_mod_cast htwice
      linarith
    rw [abs_le]
    constructor <;> linarith
  · split
    · rename_i htwice
      have hh : 1 / 2 < ((n % d : Nat) : ℚ) / d := by
        rw [lt_div_iff₀ hpos]
        have hc : (d : ℚ) < 2 * (n % d : Nat) := by exact_mod_cast htwice
        linarith
      rw [abs_le]
      push_cast
      constructor <;> linarith
    · have htwice : 2 * (n % d) = d := by omega
      have hh : ((n % d : Nat) : ℚ) / d = 1 / 2 := by
        rw [div_eq_iff hpos.ne']
        have hc : (2 : ℚ) * (n % d : Nat) = d := by exact_mod_cast htwice
        linarith
      have hq : n / d % 2 = 0 ∨ n / d % 2 = 1 := by omega
      rw [abs_le, hh]
      rcases hq with hq | hq <;> rw [hq] <;> push_cast <;> constructor <;> linarith

theorem roundHalfEven_eq_of_lt {r : Nat} (hd : 0 < d) (h : |(n : ℚ) / d - r| < 1 / 2) :
    roundHalfEven n d = r := by
  have hround := abs_roundHalfEven_sub_le (n := n) hd
  rw [abs_le] at hround
  rw [abs_lt] at h
  have hlow : (roundHalfEven n d : ℚ) < r + 1 := by linarith
  have hhigh : (r : ℚ) < roundHalfEven n d + 1 := by linarith
  have hlow : roundHalfEven n d < r + 1 := by exact_mod_cast hlow
  have hhigh : r < roundHalfEven n d + 1 := by exact_mod_cast hhigh
  omega

theorem roundHalfEven_mul_right {c : Nat} (hc : 0 < c) :
    roundHalfEven (n * c) (d * c) = roundHalfEven n d := by
  have hlt {a b : Nat} : a * c < b * c ↔ a < b := Nat.mul_lt_mul_right hc
  simp only [roundHalfEven, Nat.mul_div_mul_right _ _ hc, Nat.mul_mod_mul_right, ← Nat.mul_assoc,
    hlt]

theorem roundHalfEven_congr {n' d' : Nat} (hd : 0 < d) (hd' : 0 < d')
    (h : (n : ℚ) / d = n' / d') : roundHalfEven n d = roundHalfEven n' d' := by
  have hcross : n * d' = n' * d := by
    rw [div_eq_div_iff (by positivity) (by positivity)] at h
    exact_mod_cast h
  rw [← roundHalfEven_mul_right hd', hcross, Nat.mul_comm d d', roundHalfEven_mul_right hd]

/-- An exponent at which a fraction is written with at most 53 binary digits before the
point, and with 53 unless the exponent is the least. -/
structure Fits (x : ℚ) (e : Int) : Prop where
  minExponent_le : minExponent ≤ e
  lt : x / 2 ^ e < 2 ^ 53
  normal : e = minExponent ∨ 2 ^ 52 ≤ x / 2 ^ e

theorem Fits.le {x : ℚ} {f : Int} (he : Fits x e) (hf : Fits x f) : f ≤ e := by
  by_contra hlt
  have hnormal : 2 ^ 52 ≤ x / 2 ^ f := by
    rcases hf.normal with rfl | h
    · exact absurd he.minExponent_le (by omega)
    · exact h
  have hpow : (2 : ℚ) ^ (e + 1) ≤ 2 ^ f := zpow_le_zpow_right₀ (by norm_num) (by omega)
  have hx : 2 ^ 52 * 2 ^ (e + 1) ≤ x := by
    have hh := (le_div_iff₀ (by positivity)).mp hnormal
    have hm : (2 : ℚ) ^ 52 * 2 ^ (e + 1) ≤ 2 ^ 52 * 2 ^ f := by gcongr
    linarith
  have hlow := (div_lt_iff₀ (by positivity)).mp he.lt
  rw [zpow_add_one₀ (by norm_num)] at hx
  have hpos : (0 : ℚ) < 2 ^ e := by positivity
  linarith

theorem Fits.unique {x : ℚ} {f : Int} (he : Fits x e) (hf : Fits x f) : e = f :=
  Int.le_antisymm (hf.le he) (he.le hf)

theorem div_zpow_succ (x : ℚ) (e : Int) : x / 2 ^ (e + 1) = x / 2 ^ e / 2 := by
  rw [zpow_add_one₀ (by norm_num), div_div]

theorem quotient_bounds (hn : 0 < num) (hd : 0 < den) :
    2 ^ 52 * (2 : ℚ) ^ ((num.log2 : Int) - den.log2 - 53) ≤ num / den ∧
      (num : ℚ) / den < 2 ^ 54 * (2 : ℚ) ^ ((num.log2 : Int) - den.log2 - 53) := by
  have hpos : (0 : ℚ) < den := by positivity
  have hnum : (2 : ℚ) ^ num.log2 ≤ num := by exact_mod_cast Nat.log2_self_le hn.ne'
  have hnum' : (num : ℚ) < 2 ^ (num.log2 + 1) := by exact_mod_cast Nat.lt_log2_self
  have hden : (2 : ℚ) ^ den.log2 ≤ den := by exact_mod_cast Nat.log2_self_le hd.ne'
  have hden' : (den : ℚ) < 2 ^ (den.log2 + 1) := by exact_mod_cast Nat.lt_log2_self
  rw [← zpow_natCast] at hnum hnum' hden hden'
  have hlow : (2 : ℚ) ^ 52 * (2 : ℚ) ^ ((num.log2 : Int) - den.log2 - 53) =
      2 ^ ((num.log2 : Int) - den.log2 - 1) := by
    rw [← zpow_natCast, ← zpow_add₀ (by norm_num)]
    congr 1
    push_cast
    omega
  have hhigh : (2 : ℚ) ^ 54 * (2 : ℚ) ^ ((num.log2 : Int) - den.log2 - 53) =
      2 ^ ((num.log2 : Int) - den.log2 + 1) := by
    rw [← zpow_natCast, ← zpow_add₀ (by norm_num)]
    congr 1
    push_cast
    omega
  rw [hlow, hhigh, le_div_iff₀ hpos, div_lt_iff₀ hpos]
  constructor
  · calc (2 : ℚ) ^ ((num.log2 : Int) - den.log2 - 1) * den
        ≤ 2 ^ ((num.log2 : Int) - den.log2 - 1) * 2 ^ ((den.log2 + 1 : Nat) : Int) := by gcongr
      _ = 2 ^ (num.log2 : Int) := by
        rw [← zpow_add₀ (by norm_num)]
        congr 1
        push_cast
        omega
      _ ≤ num := hnum
  · calc (num : ℚ) < 2 ^ ((num.log2 + 1 : Nat) : Int) := hnum'
      _ = 2 ^ ((num.log2 : Int) - den.log2 + 1) * 2 ^ (den.log2 : Int) := by
        rw [← zpow_add₀ (by norm_num)]
        congr 1
        push_cast
        omega
      _ ≤ 2 ^ ((num.log2 : Int) - den.log2 + 1) * den := by gcongr

theorem fullMantissa_le_div_iff (hd : 0 < d) : fullMantissa ≤ n / d ↔ (2 : ℚ) ^ 53 ≤ n / d := by
  rw [Nat.le_div_iff_mul_le hd, le_div_iff₀ (by positivity)]
  unfold fullMantissa
  rw [Nat.pow_eq]
  exact_mod_cast Iff.rfl

theorem fits_max {x : ℚ} (hx : 0 < x) (hlt : x / 2 ^ e < 2 ^ 53) (hle : 2 ^ 52 ≤ x / 2 ^ e) :
    Fits x (max minExponent e) := by
  rcases Int.le_total minExponent e with he | he
  · rw [Int.max_eq_right he]
    exact ⟨he, hlt, .inr hle⟩
  · rw [Int.max_eq_left he]
    refine ⟨Int.le_refl _, Rat.not_le.mp fun hh => ?_, .inl rfl⟩
    have hpow : (2 : ℚ) ^ e ≤ 2 ^ minExponent := zpow_le_zpow_right₀ (by norm_num) he
    have hmono : x / 2 ^ minExponent ≤ x / 2 ^ e := by gcongr
    linarith

theorem fits_exponentOf (hn : 0 < num) (hd : 0 < den) :
    Fits (num / den) (exponentOf num den) := by
  have hx : (0 : ℚ) < num / den := by positivity
  obtain ⟨hlow, hhigh⟩ := quotient_bounds hn hd
  rw [← le_div_iff₀ (by positivity)] at hlow
  rw [← div_lt_iff₀ (by positivity)] at hhigh
  unfold exponentOf
  dsimp only
  generalize (num.log2 : Int) - den.log2 - 53 = e at hlow hhigh ⊢
  simp only [fullMantissa_le_div_iff (scaled_den_pos hd), scaled_eq]
  split
  · rename_i hfull
    refine fits_max hx ?_ ?_ <;> rw [div_zpow_succ] <;> linarith
  · rename_i hfull
    exact fits_max hx (Rat.not_le.mp hfull) hlow

theorem exponentOf_eq (hn : 0 < num) (hd : 0 < den) (h : Fits (num / den) e) :
    exponentOf num den = e := (fits_exponentOf hn hd).unique h

/-- The mantissa nearest to a fraction at its exponent, which may have one digit too many. -/
def rounded (num den : Nat) : Nat :=
  roundHalfEven (scaled num den (exponentOf num den)).1 (scaled num den (exponentOf num den)).2

theorem ofRatio_eq (negative : Bool) (hn : 0 < num) : ofRatio negative num den =
    if rounded num den = fullMantissa then
      if maxExponent < exponentOf num den + 1 then .infinity negative
      else .finite negative halfMantissa (exponentOf num den + 1)
    else if maxExponent < exponentOf num den then .infinity negative
    else .finite negative (rounded num den) (exponentOf num den) := by
  rw [ofRatio, if_neg hn.ne']
  by_cases hfull : rounded num den = fullMantissa
  · rw [if_pos hfull]
    unfold rounded at hfull
    simp only [hfull, if_true]
  · rw [if_neg hfull]
    unfold rounded at hfull ⊢
    simp only [hfull, if_false]

theorem ofRatio_congr {num' den' : Nat} (negative : Bool) (hd : 0 < den) (hd' : 0 < den')
    (h : (num : ℚ) / den = num' / den') :
    ofRatio negative num den = ofRatio negative num' den' := by
  have hpos : (0 : ℚ) < den := by positivity
  have hpos' : (0 : ℚ) < den' := by positivity
  by_cases hn : num = 0
  · have hn' : num' = 0 := by
      subst hn
      rw [Nat.cast_zero, zero_div, eq_comm, div_eq_zero_iff] at h
      rcases h with h | h
      · exact_mod_cast h
      · exact absurd h hpos'.ne'
    rw [ofRatio, ofRatio, if_pos hn, if_pos hn']
  · have hn' : num' ≠ 0 := by
      rintro rfl
      rw [Nat.cast_zero, zero_div, div_eq_zero_iff] at h
      rcases h with h | h
      · exact hn (by exact_mod_cast h)
      · exact absurd h hpos.ne'
    have hfits := fits_exponentOf (Nat.pos_of_ne_zero hn') hd'
    rw [← h] at hfits
    have hexp := exponentOf_eq (Nat.pos_of_ne_zero hn) hd hfits
    have hround : rounded num den = rounded num' den' := by
      rw [rounded, rounded, hexp]
      refine roundHalfEven_congr (scaled_den_pos hd) (scaled_den_pos hd') ?_
      rw [scaled_eq, scaled_eq, h]
    rw [ofRatio_eq negative (Nat.pos_of_ne_zero hn), ofRatio_eq negative (Nat.pos_of_ne_zero hn'),
      hexp, hround]

theorem ofRatio_of_fits {m : Nat} (negative : Bool) (hn : 0 < num) (hd : 0 < den)
    (hfits : Fits (num / den) e) (hm : |(num : ℚ) / den / 2 ^ e - m| < 1 / 2) :
    ofRatio negative num den =
      if m = fullMantissa then
        if maxExponent < e + 1 then .infinity negative else .finite negative halfMantissa (e + 1)
      else if maxExponent < e then .infinity negative else .finite negative m e := by
  obtain rfl := exponentOf_eq hn hd hfits
  have hround : rounded num den = m := by
    refine roundHalfEven_eq_of_lt (scaled_den_pos hd) ?_
    rwa [scaled_eq]
  rw [ofRatio_eq negative hn, hround]

/-- A fraction near enough to a number gives that number. Below a power of two numbers are
twice as dense, so there it has to be twice as near. -/
theorem ofRatio_eq_finite {m : Nat} (negative : Bool) (hc : IsCanonical m e) (hn : 0 < num)
    (hd : 0 < den) (hnear : |(num : ℚ) / den / 2 ^ e - m| < 1 / 2)
    (hedge : m = 2 ^ 52 → |(num : ℚ) / den / 2 ^ e - m| < 1 / 4) :
    ofRatio negative num den = .finite negative m e := by
  have hlt : (m : ℚ) ≤ 2 ^ 53 - 1 := by
    have hh : m + 1 ≤ 2 ^ 53 := hc.mantissa_lt
    have hq : (m : ℚ) + 1 ≤ 2 ^ 53 := by exact_mod_cast hh
    linarith
  have hnear' := abs_lt.mp hnear
  by_cases hfits : e = minExponent ∨ 2 ^ 52 ≤ (num : ℚ) / den / 2 ^ e
  · rw [ofRatio_of_fits negative hn hd ⟨hc.minExponent_le, by linarith, hfits⟩ hnear]
    have hfull : m ≠ fullMantissa := Nat.ne_of_lt hc.mantissa_lt
    have hmax : ¬ maxExponent < e := Int.not_lt.mpr hc.le_maxExponent
    rw [if_neg hfull, if_neg hmax]
  · rw [not_or, Rat.not_le] at hfits
    obtain ⟨hmin, hbelow⟩ := hfits
    have hm : m = 2 ^ 52 := by
      have hle : 2 ^ 52 ≤ m := hc.normal.resolve_right hmin
      have hq : (m : ℚ) < 2 ^ 52 + 1 := by linarith
      have hh : m < 2 ^ 52 + 1 := by exact_mod_cast hq
      omega
    have hedge := abs_lt.mp (hedge hm)
    have htwice : (num : ℚ) / den / 2 ^ (e - 1) = 2 * ((num : ℚ) / den / 2 ^ e) := by
      have hh := div_zpow_succ ((num : ℚ) / den) (e - 1)
      rw [Int.sub_add_cancel] at hh
      linarith
    have hmq : (m : ℚ) = 2 ^ 52 := by exact_mod_cast hm
    have hfits : Fits ((num : ℚ) / den) (e - 1) := by
      have hle := hc.minExponent_le
      refine ⟨by omega, ?_, .inr ?_⟩ <;> rw [htwice] <;> linarith
    have hnear : |(num : ℚ) / den / 2 ^ (e - 1) - (fullMantissa : Nat)| < 1 / 2 := by
      rw [htwice, abs_lt, fullMantissa, Nat.pow_eq]
      push_cast
      constructor <;> linarith
    rw [ofRatio_of_fits negative hn hd hfits hnear, if_pos rfl, Int.sub_add_cancel,
      if_neg (Int.not_lt.mpr hc.le_maxExponent), hm]
    rfl

theorem abs_rounded_sub_le (num : Nat) (hd : 0 < den) :
    |(rounded num den : ℚ) - num / den / 2 ^ exponentOf num den| ≤ 1 / 2 := by
  rw [← scaled_eq]
  exact abs_roundHalfEven_sub_le (scaled_den_pos hd)

theorem wellFormed_ofRatio (negative : Bool) (num : Nat) (hd : 0 < den) :
    (ofRatio negative num den).WellFormed := by
  by_cases hn : num = 0
  · rw [ofRatio, if_pos hn]
    exact ⟨by decide, by decide, by decide, .inr rfl⟩
  · have hfits := fits_exponentOf (Nat.pos_of_ne_zero hn) hd
    have hnear := abs_le.mp (abs_rounded_sub_le num hd)
    rw [ofRatio_eq negative (Nat.pos_of_ne_zero hn)]
    generalize rounded num den = m at hnear ⊢
    generalize exponentOf num den = e at hfits hnear ⊢
    have hle : m ≤ 2 ^ 53 := by
      have hlt := hfits.lt
      have hq : (m : ℚ) < 2 ^ 53 + 1 := by linarith
      have hh : m < 2 ^ 53 + 1 := by exact_mod_cast hq
      omega
    have hge : e = minExponent ∨ 2 ^ 52 ≤ m := by
      refine hfits.normal.imp id fun hx => ?_
      have hq : (2 : ℚ) ^ 52 < m + 1 := by linarith
      have hh : 2 ^ 52 < m + 1 := by exact_mod_cast hq
      omega
    have hmin := hfits.minExponent_le
    by_cases hfull : m = fullMantissa
    · simp only [hfull, if_true]
      split
      · trivial
      · rename_i hmax
        exact ⟨by decide, by omega, by omega, .inl (by decide)⟩
    · simp only [hfull, if_false]
      split
      · trivial
      · rename_i hmax
        exact ⟨Nat.lt_of_le_of_ne hle hfull, hmin, by omega, hge.symm⟩

end SolcDispatch.Binary64
