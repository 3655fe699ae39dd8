import Mathlib.Algebra.Order.Field.Power
import Mathlib.Data.Nat.Log
import Mathlib.Data.Rat.Cast.Order
import Mathlib.Tactic.FieldSimp
import Mathlib.Tactic.Linarith
import Mathlib.Tactic.Positivity
import Mathlib.Tactic.Ring
import Workload.Decimal.Double

/-!
# Rounding to double precision

A quotient of natural numbers is rounded by scaling it to a mantissa of 53 bits (`exponentFor_spec`) and
taking the natural number nearest to that (`ofRatio?_spec`).  So a quotient that double precision has comes
out as it is (`ofRatio?_exact`), and one that it does not have is off by a factor of two at most and on the
same side of every power of two (`value_le_of_ofRatio?`, `le_value_of_ofRatio?`).
-/

namespace Workload

/-! ## Whole numbers -/

/-- A quotient is rounded to a natural number that is no further from it than half of one. -/
theorem abs_roundDiv_sub_le (num : Nat) {den : Nat} (hden : 0 < den) :
    |(roundDiv num den : ℚ) - num / den| ≤ 1 / 2 := by
  have hd : (0 : ℚ) < den := by exact_mod_cast hden
  have hquot : (num : ℚ) / den = (num / den : Nat) + (num % den : Nat) / den := by
    field_simp
    exact_mod_cast (Nat.div_add_mod' num den).symm.trans (by ring)
  have hrest : ((num % den : Nat) : ℚ) / den < 1 := by
    rw [div_lt_one hd]
    exact_mod_cast Nat.mod_lt num hden
  have hrest0 : (0 : ℚ) ≤ ((num % den : Nat) : ℚ) / den := by positivity
  have hdown : 2 * (num % den) ≤ den → ((num % den : Nat) : ℚ) / den ≤ 1 / 2 := fun h => by
    rw [div_le_div_iff₀ hd (by norm_num)]
    exact_mod_cast (by omega : num % den * 2 ≤ 1 * den)
  have hup : den ≤ 2 * (num % den) → 1 / 2 ≤ ((num % den : Nat) : ℚ) / den := fun h => by
    rw [div_le_div_iff₀ (by norm_num) hd]
    exact_mod_cast (by omega : 1 * den ≤ num % den * 2)
  rw [hquot, abs_le]
  unfold roundDiv
  simp only []
  split_ifs with hlt hgt heven <;> push_cast
  · have := hdown (by omega)
    constructor <;> linarith
  · have := hup (by omega)
    constructor <;> linarith
  · have := hdown (by omega)
    constructor <;> linarith
  · have := hup (by omega)
    constructor <;> linarith

section Nearest

variable {m n : Nat} {q : ℚ}

/-- What is nearest to a natural number is that number. -/
theorem eq_of_abs_sub_le (h : |(m : ℚ) - n| ≤ 1 / 2) : m = n := by
  rw [abs_le] at h
  have hle : (m : ℚ) < n + 1 := by linarith
  have hge : (n : ℚ) < m + 1 := by linarith
  have hle' : m < n + 1 := by exact_mod_cast hle
  have hge' : n < m + 1 := by exact_mod_cast hge
  omega

/-- What is nearest to a number is above all natural numbers that are not above that. -/
theorem le_of_abs_sub_le (h : |(m : ℚ) - q| ≤ 1 / 2) (hn : (n : ℚ) ≤ q) : n ≤ m := by
  have := (abs_le.1 h).1
  have hlt : (n : ℚ) < m + 1 := by linarith
  exact Nat.le_of_lt_succ (by exact_mod_cast hlt)

theorem le_two_mul_of_abs_sub_le (h : |(m : ℚ) - q| ≤ 1 / 2) (hq : 0 ≤ q) : (m : ℚ) ≤ 2 * q := by
  have hle := (abs_le.1 h).2
  rcases Nat.eq_zero_or_pos m with rfl | hm
  · simpa using hq
  · have hone : (1 : ℚ) ≤ m := by exact_mod_cast hm
    linarith

end Nearest

namespace Double

/-- The number that a mantissa and an exponent stand for. -/
def value (x : Double) : ℚ := x.mant * 2 ^ x.exp

theorem value_nonneg (x : Double) : 0 ≤ x.value := by
  unfold value
  positivity

theorem ratio_pos (x : Double) : 0 < x.ratio.2 := by
  unfold ratio
  split
  · exact Nat.one_pos
  · exact Nat.pow_pos (by decide)

theorem ratio_value (x : Double) : (x.ratio.1 : ℚ) / x.ratio.2 = x.value := by
  unfold ratio value
  split
  · rename_i e he
    rw [he]
    simp
  · rename_i e he
    rw [he, zpow_negSucc]
    simp [div_eq_mul_inv]

/-! ## Mantissas -/

theorem cast_two_pow (k : Nat) : ((Nat.pow 2 k : Nat) : ℚ) = 2 ^ k := by simp

/-- The test that a quotient is below `2 ^ 52 * 2 ^ e` is made on natural numbers. -/
theorem lt_scaled_iff (num : Nat) {den : Nat} (hden : 0 < den) (e : Int) :
    ((match e with
      | .ofNat k => decide (num < den * Nat.pow 2 k * Nat.pow 2 52)
      | .negSucc k => decide (num * Nat.pow 2 (k + 1) < den * Nat.pow 2 52)) = true) ↔
    (num : ℚ) / den < 2 ^ 52 * 2 ^ e := by
  have hd : (0 : ℚ) < den := by exact_mod_cast hden
  cases e with
  | ofNat k =>
    have hcast : (2 : ℚ) ^ 52 * 2 ^ k * den = (den * Nat.pow 2 k * Nat.pow 2 52 : Nat) := by
      rw [Nat.cast_mul, Nat.cast_mul, cast_two_pow, cast_two_pow]
      ring
    rw [div_lt_iff₀ hd, Int.ofNat_eq_natCast, zpow_natCast, hcast, Nat.cast_lt, decide_eq_true_iff]
  | negSucc k =>
    have hpow : (0 : ℚ) < 2 ^ (k + 1) := by positivity
    have hleft : (num : ℚ) * 2 ^ (k + 1) = (num * Nat.pow 2 (k + 1) : Nat) := by
      rw [Nat.cast_mul, cast_two_pow]
    have hright : (2 : ℚ) ^ 52 * den = (den * Nat.pow 2 52 : Nat) := by
      rw [Nat.cast_mul, cast_two_pow]
      ring
    rw [div_lt_iff₀ hd, zpow_negSucc, mul_right_comm, ← div_eq_mul_inv, lt_div_iff₀ hpow, hleft, hright,
      Nat.cast_lt, decide_eq_true_iff]

/-- The quotient is scaled so that it has 53 bits, or by the least exponent. -/
theorem exponentFor_spec {num den : Nat} (hnum : 0 < num) (hden : 0 < den) :
    ∃ e : Int, exponentFor num den = max e (-1074) ∧
      (2 : ℚ) ^ 52 * 2 ^ e ≤ num / den ∧ (num : ℚ) / den < 2 ^ 53 * 2 ^ e := by
  have hd : (0 : ℚ) < den := by exact_mod_cast hden
  have hnlo : (2 : ℚ) ^ num.log2 ≤ num := by exact_mod_cast Nat.log2_self_le hnum.ne'
  have hnhi : (num : ℚ) < 2 ^ (num.log2 + 1) := by exact_mod_cast Nat.lt_log2_self
  have hdlo : (2 : ℚ) ^ den.log2 ≤ den := by exact_mod_cast Nat.log2_self_le hden.ne'
  have hdhi : (den : ℚ) < 2 ^ (den.log2 + 1) := by exact_mod_cast Nat.lt_log2_self
  set guess : Int := (num.log2 : Int) - (den.log2 : Int) - 52 with hguess
  -- The two logarithms leave the quotient between `2 ^ 51 * 2 ^ guess` and `2 ^ 53 * 2 ^ guess`.
  have hlo : (2 : ℚ) ^ 52 * 2 ^ (guess - 1) ≤ num / den := by
    rw [le_div_iff₀ hd]
    calc (2 : ℚ) ^ 52 * 2 ^ (guess - 1) * den ≤ 2 ^ 52 * 2 ^ (guess - 1) * 2 ^ (den.log2 + 1) := by
          gcongr
      _ = 2 ^ num.log2 := by
          simp only [← zpow_natCast, ← zpow_add₀ (two_ne_zero (α := ℚ))]
          congr 1
          push_cast
          omega
      _ ≤ num := hnlo
  have hhi : (num : ℚ) / den < 2 ^ 53 * 2 ^ guess := by
    rw [div_lt_iff₀ hd]
    calc (num : ℚ) < 2 ^ (num.log2 + 1) := hnhi
      _ = 2 ^ 53 * 2 ^ guess * 2 ^ den.log2 := by
          simp only [← zpow_natCast, ← zpow_add₀ (two_ne_zero (α := ℚ))]
          congr 1
          push_cast
          omega
      _ ≤ 2 ^ 53 * 2 ^ guess * den := by gcongr
  have hsmall := lt_scaled_iff num hden guess
  unfold exponentFor
  simp only [← hguess]
  split_ifs with h
  · have hlt := hsmall.1 h
    refine ⟨guess - 1, rfl, hlo, ?_⟩
    rwa [show (2 : ℚ) ^ 53 * 2 ^ (guess - 1) = 2 ^ 52 * 2 ^ guess by
      rw [zpow_sub_one₀ two_ne_zero]
      ring]
  · exact ⟨guess, rfl, not_lt.1 fun hlt => h (hsmall.2 hlt), hhi⟩

/-- The mantissa to which a quotient is rounded at an exponent. -/
def mantissa (num den : Nat) (e : Int) : Nat :=
  match e with
  | .ofNat k => roundDiv num (den * Nat.pow 2 k)
  | .negSucc k => roundDiv (num * Nat.pow 2 (k + 1)) den

theorem abs_mantissa_sub_le (num : Nat) {den : Nat} (hden : 0 < den) (e : Int) :
    |(mantissa num den e : ℚ) - num / den / 2 ^ e| ≤ 1 / 2 := by
  cases e with
  | ofNat k =>
    have hpos : 0 < den * Nat.pow 2 k := Nat.mul_pos hden (Nat.pow_pos (by decide))
    have hround := abs_roundDiv_sub_le num hpos
    rwa [Nat.cast_mul, cast_two_pow, ← div_div, ← zpow_natCast] at hround
  | negSucc k =>
    have hround := abs_roundDiv_sub_le (num * Nat.pow 2 (k + 1)) hden
    rwa [Nat.cast_mul, cast_two_pow, mul_div_right_comm, ← div_inv_eq_mul, ← zpow_negSucc] at hround

theorem ofRatio?_eq {num : Nat} (hnum : 0 < num) (den : Nat) :
    ofRatio? num den =
      let e := exponentFor num den
      let m := mantissa num den e
      if 971 < e || (e = 971 && Nat.pow 2 53 ≤ m) then none
      else if m = Nat.pow 2 53 then some ⟨Nat.pow 2 52, e + 1⟩
      else some ⟨m, e⟩ := by
  unfold ofRatio?
  rw [if_neg hnum.ne']
  rfl

/-- A quotient is rounded at its own exponent; it is too large when the exponent or the mantissa leaves the
range. -/
theorem ofRatio?_spec {num den : Nat} (hnum : 0 < num) {e : Int} (he : exponentFor num den = e) :
    (ofRatio? num den = none ↔ 971 < e ∨ e = 971 ∧ 2 ^ 53 ≤ mantissa num den e) ∧
      ∀ x, ofRatio? num den = some x → x.value = mantissa num den e * 2 ^ e := by
  rw [ofRatio?_eq hnum, he]
  simp only []
  generalize mantissa num den e = m
  split_ifs with hlarge hcarry
  · refine ⟨?_, fun x h => nomatch h⟩
    simpa using hlarge
  · refine ⟨?_, ?_⟩
    · simpa using hlarge
    · rintro x ⟨⟩
      -- The mantissa of 54 bits is the least of them, and one bit fewer at the next exponent.
      rw [hcarry, value, zpow_add_one₀ two_ne_zero]
      simp only [Nat.pow_eq]
      push_cast
      ring
  · refine ⟨?_, ?_⟩
    · simpa using hlarge
    · rintro x ⟨⟩
      rfl

/-- A quotient of one or more has a mantissa of 53 bits. -/
theorem exponentFor_of_one_le {num den : Nat} (hden : 0 < den) (h : 1 ≤ (num : ℚ) / den) :
    (2 : ℚ) ^ 52 * 2 ^ exponentFor num den ≤ num / den ∧
      (num : ℚ) / den < 2 ^ 53 * 2 ^ exponentFor num den := by
  have hnum : 0 < num := Nat.pos_of_ne_zero fun h0 => by simp [h0] at h; linarith
  obtain ⟨e, he, hlo, hhi⟩ := exponentFor_spec hnum hden
  have hlt : (2 : ℚ) ^ (-53 : Int) < 2 ^ e := by
    have : (1 : ℚ) < 2 ^ 53 * 2 ^ e := h.trans_lt hhi
    rwa [zpow_neg, inv_lt_iff_one_lt_mul₀' (by positivity)]
  have hmin : (-53 : Int) < e := (zpow_lt_zpow_iff_right₀ one_lt_two).1 hlt
  rw [he, max_eq_left (by omega)]
  exact ⟨hlo, hhi⟩

section Bounds

variable {num den : Nat} {x : Double}

theorem value_le_of_ofRatio? (hden : 0 < den) (h : ofRatio? num den = some x) :
    x.value ≤ 2 * (num / den) := by
  rcases Nat.eq_zero_or_pos num with rfl | hnum
  · rw [ofRatio?, if_pos rfl] at h
    cases h
    simp [value, zero]
  · have hpow : (0 : ℚ) < 2 ^ exponentFor num den := by positivity
    have hround := abs_mantissa_sub_le num hden (exponentFor num den)
    rw [(ofRatio?_spec hnum rfl).2 x h, ← le_div_iff₀ hpow, mul_div_assoc]
    exact le_two_mul_of_abs_sub_le hround (by positivity)

theorem le_value_of_ofRatio? (hden : 0 < den) (h : ofRatio? num den = some x)
    (hone : 1 ≤ (num : ℚ) / den) : (num : ℚ) / den ≤ 2 * x.value := by
  have hnum : 0 < num := Nat.pos_of_ne_zero fun h0 => by simp [h0] at hone; linarith
  have hpow : (0 : ℚ) < 2 ^ exponentFor num den := by positivity
  have hlow := (abs_le.1 (abs_mantissa_sub_le num hden (exponentFor num den))).1
  have hbits := (exponentFor_of_one_le hden hone).1
  rw [← le_div_iff₀ hpow] at hbits
  rw [(ofRatio?_spec hnum rfl).2 x h, ← mul_assoc, ← div_le_iff₀ hpow]
  linarith

/-- Rounding does not go below a power of two. -/
theorem two_pow_le_value_of_ofRatio? (hden : 0 < den) (h : ofRatio? num den = some x) {j : Nat}
    (hj : (2 : ℚ) ^ j ≤ num / den) : (2 : ℚ) ^ j ≤ x.value := by
  have hone : 1 ≤ (num : ℚ) / den := (one_le_pow₀ one_le_two).trans hj
  have hnum : 0 < num := Nat.pos_of_ne_zero fun h0 => by simp [h0] at hone; linarith
  have hround := abs_mantissa_sub_le num hden (exponentFor num den)
  have hbits := (exponentFor_of_one_le hden hone).1
  rw [(ofRatio?_spec hnum rfl).2 x h]
  generalize exponentFor num den = e at hround hbits ⊢
  have hpow : (0 : ℚ) < 2 ^ e := by positivity
  rcases le_or_gt e j with hle | hgt
  · obtain ⟨d, hd⟩ := Int.le.dest hle
    have hsplit : (2 : ℚ) ^ j = 2 ^ d * 2 ^ e := by
      rw [← zpow_natCast, ← zpow_natCast, ← zpow_add₀ two_ne_zero, ← hd, add_comm]
    have hmant : 2 ^ d ≤ mantissa num den e := le_of_abs_sub_le hround (by
      push_cast
      rwa [le_div_iff₀ hpow, ← hsplit])
    rw [hsplit]
    gcongr
    exact_mod_cast hmant
  · have hmant : 2 ^ 52 ≤ mantissa num den e := le_of_abs_sub_le hround (by
      push_cast
      rwa [le_div_iff₀ hpow])
    calc (2 : ℚ) ^ j = 2 ^ (j : Int) := (zpow_natCast 2 j).symm
      _ ≤ 2 ^ e := zpow_le_zpow_right₀ one_le_two hgt.le
      _ ≤ mantissa num den e * 2 ^ e := le_mul_of_one_le_left hpow.le
          (by exact_mod_cast (Nat.one_le_two_pow.trans hmant))

/-- Below the powers of two in range, nothing is too large. -/
theorem exists_ofRatio? (hden : 0 < den) {k : Nat} (hk : k ≤ 1023) (h : (num : ℚ) / den < 2 ^ k) :
    ∃ x, ofRatio? num den = some x := by
  rcases Nat.eq_zero_or_pos num with rfl | hnum
  · exact ⟨zero, if_pos rfl⟩
  · obtain ⟨e, he, hlo, -⟩ := exponentFor_spec hnum hden
    have hlt : (2 : ℚ) ^ ((52 : Nat) + e : Int) < 2 ^ (k : Int) := by
      rw [zpow_add₀ two_ne_zero, zpow_natCast, zpow_natCast]
      exact hlo.trans_lt h
    have hexp := (zpow_lt_zpow_iff_right₀ (one_lt_two (α := ℚ))).1 hlt
    refine Option.ne_none_iff_exists'.1 fun hnone => ?_
    rcases (ofRatio?_spec hnum he).1.1 hnone with hlarge | ⟨hlarge, -⟩ <;> omega

/-- A natural number of at most 53 bits is rounded to itself. -/
theorem ofRatio?_exact (hden : 0 < den) {n : Nat} (hn : n < 2 ^ 53) (hquot : (num : ℚ) / den = n) :
    ∃ x, ofRatio? num den = some x ∧ x.value = n := by
  have hd : (0 : ℚ) < den := by exact_mod_cast hden
  have hbound : (n : ℚ) < 2 ^ 53 := by exact_mod_cast hn
  obtain ⟨x, hx⟩ := exists_ofRatio? hden (k := 53) (by omega) (hquot ▸ hbound)
  refine ⟨x, hx, ?_⟩
  rcases Nat.eq_zero_or_pos n with rfl | hpos
  · have hle := value_le_of_ofRatio? hden hx
    rw [hquot] at hle
    have := x.value_nonneg
    push_cast at hle ⊢
    linarith
  · have hnum : 0 < num := Nat.pos_of_ne_zero fun h0 => by
      rw [h0, Nat.cast_zero, zero_div] at hquot
      exact hpos.ne (by exact_mod_cast hquot)
    have hone : 1 ≤ (num : ℚ) / den := by rw [hquot]; exact_mod_cast hpos
    have hround := abs_mantissa_sub_le num hden (exponentFor num den)
    have hbits := (exponentFor_of_one_le hden hone).1
    rw [(ofRatio?_spec hnum rfl).2 x hx]
    rw [hquot] at hround hbits
    generalize exponentFor num den = e at hround hbits ⊢
    -- The exponent is not positive, so at it the number is whole.
    have hneg : e < 1 := by
      have : (2 : ℚ) ^ e < 2 ^ (1 : Int) := by
        rw [zpow_one]
        nlinarith
      exact (zpow_lt_zpow_iff_right₀ one_lt_two).1 this
    obtain ⟨d, rfl⟩ : ∃ d : Nat, e = -d := ⟨e.natAbs, by omega⟩
    rw [zpow_neg, zpow_natCast, div_inv_eq_mul] at hround
    have hmant : mantissa num den (-d) = n * 2 ^ d := eq_of_abs_sub_le (by push_cast; exact hround)
    rw [hmant, zpow_neg, zpow_natCast]
    push_cast
    field_simp

end Bounds

/-! ## Decimals -/

/-- A decimal is rounded as a quotient, except where it is plainly too large or plainly rounded to zero. -/
theorem ofDecimal?_cases (digits places : Nat) :
    (ofDecimal? digits (-(places : Int)) = none ∧ ∀ k ≤ 1023, (2 : ℚ) ^ k ≤ digits / 10 ^ places) ∨
    (ofDecimal? digits (-(places : Int)) = some zero ∧ (digits : ℚ) / 10 ^ places < 1) ∨
    ∃ num den : Nat, 0 < den ∧ (num : ℚ) / den = digits / 10 ^ places ∧
      ofDecimal? digits (-(places : Int)) = ofRatio? num den := by
  have hten : (0 : ℚ) < 10 ^ places := by positivity
  unfold ofDecimal?
  rcases Nat.eq_zero_or_pos digits with rfl | hpos
  · exact .inr (.inl ⟨if_pos rfl, by simp⟩)
  rw [if_neg hpos.ne']
  simp only []
  split_ifs with hlarge hsmall
  · refine .inl ⟨rfl, fun k hk => ?_⟩
    have hbits : k + 4 * places ≤ digits.log2 := by omega
    rw [le_div_iff₀ hten]
    have hnat : 2 ^ k * 10 ^ places ≤ digits :=
      calc 2 ^ k * 10 ^ places ≤ 2 ^ k * 16 ^ places :=
            Nat.mul_le_mul_left _ (Nat.pow_le_pow_left (by decide) _)
        _ = 2 ^ (k + 4 * places) := by rw [Nat.pow_add, Nat.pow_mul 2 4 places]
        _ ≤ 2 ^ digits.log2 := Nat.pow_le_pow_right (by decide) hbits
        _ ≤ digits := Nat.log2_self_le hpos.ne'
    exact_mod_cast hnat
  · refine .inr (.inl ⟨rfl, ?_⟩)
    have hbits : digits.log2 + 1 ≤ 3 * places := by omega
    rw [div_lt_one hten]
    have hnat : digits < 10 ^ places :=
      calc digits < 2 ^ (digits.log2 + 1) := Nat.lt_log2_self
        _ ≤ 2 ^ (3 * places) := Nat.pow_le_pow_right (by decide) hbits
        _ = 8 ^ places := Nat.pow_mul 2 3 places
        _ ≤ 10 ^ places := Nat.pow_le_pow_left (by decide) _
    exact_mod_cast hnat
  · cases places with
    | zero => exact .inr (.inr ⟨digits * Nat.pow 10 0, 1, Nat.one_pos, by simp, rfl⟩)
    | succ p =>
      exact .inr (.inr ⟨digits, Nat.pow 10 (p + 1), Nat.pow_pos (by decide), by simp [Nat.pow_eq], rfl⟩)

section Decimals

variable {digits places : Nat} {x : Double}

theorem value_le_of_ofDecimal? (h : ofDecimal? digits (-(places : Int)) = some x) :
    x.value ≤ 2 * (digits / 10 ^ places) := by
  obtain ⟨hnone, -⟩ | ⟨hzero, -⟩ | ⟨num, den, hden, hquot, heq⟩ := ofDecimal?_cases digits places
  · rw [hnone] at h
    cases h
  · rw [hzero] at h
    cases h
    simp only [value, zero, Nat.cast_zero, zero_mul]
    positivity
  · rw [← hquot]
    exact value_le_of_ofRatio? hden (heq ▸ h)

theorem le_value_of_ofDecimal? (h : ofDecimal? digits (-(places : Int)) = some x)
    (hone : 1 ≤ (digits : ℚ) / 10 ^ places) : (digits : ℚ) / 10 ^ places ≤ 2 * x.value := by
  obtain ⟨hnone, -⟩ | ⟨-, hlt⟩ | ⟨num, den, hden, hquot, heq⟩ := ofDecimal?_cases digits places
  · rw [hnone] at h
    cases h
  · exact absurd hone hlt.not_ge
  · rw [← hquot] at hone ⊢
    exact le_value_of_ofRatio? hden (heq ▸ h) hone

theorem exists_ofDecimal? {k : Nat} (hk : k ≤ 1023) (h : (digits : ℚ) / 10 ^ places < 2 ^ k) :
    ∃ x, ofDecimal? digits (-(places : Int)) = some x := by
  obtain ⟨-, hle⟩ | ⟨hzero, -⟩ | ⟨num, den, hden, hquot, heq⟩ := ofDecimal?_cases digits places
  · exact absurd h (hle k hk).not_gt
  · exact ⟨zero, hzero⟩
  · rw [heq]
    exact exists_ofRatio? hden hk (hquot ▸ h)

theorem ofDecimal?_exact (h : digits < 2 ^ 53) : ∃ x, ofDecimal? digits 0 = some x ∧ x.value = digits := by
  obtain ⟨-, hle⟩ | ⟨hzero, hlt⟩ | ⟨num, den, hden, hquot, heq⟩ := ofDecimal?_cases digits 0
  · have hle := hle 53 (by omega)
    rw [pow_zero, div_one] at hle
    exact absurd h (not_lt.2 (by exact_mod_cast hle))
  · rw [pow_zero, div_one] at hlt
    have hdigits : digits = 0 := by
      have : digits < 1 := by exact_mod_cast hlt
      omega
    exact ⟨zero, hzero, by simp [hdigits, value, zero]⟩
  · rw [pow_zero, div_one] at hquot
    obtain ⟨x, hx, hval⟩ := ofRatio?_exact hden h hquot
    exact ⟨x, heq.trans hx, hval⟩

end Decimals

end Double

end Workload
