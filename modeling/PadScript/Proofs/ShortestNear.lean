import Mathlib.Algebra.Order.Floor.Semifield
import PadScript.Proofs.ShortestRead

/-!
# Shortest decimals are near

The decimal that is chosen for a finite magnitude lies within one step of its last place, and nine
digits are always enough.
-/
namespace PadScript

namespace Text

theorem exists_length_decimal {n : Nat} (hn : 0 < n) :
    ∃ l, (decimal n).length = l + 1 ∧ 10 ^ l ≤ n ∧ n < 10 ^ (l + 1) := by
  have hlength : 0 < (decimal n).length := Nat.length_toDigits_pos
  obtain ⟨l, hl⟩ := Nat.exists_eq_succ_of_ne_zero hlength.ne'
  refine ⟨l, hl, ?_, (Nat.length_toDigits_le_iff (by decide) (by omega)).mp hl.le⟩
  rcases Nat.eq_zero_or_pos l with rfl | hpos
  · exact hn
  · by_contra hless
    have hle : (decimal n).length ≤ l :=
      (Nat.length_toDigits_le_iff (by decide) hpos).mpr (not_le.mp hless)
    omega

end Text

namespace Decimal

theorem floorLog10_spec {num den : Nat} (hnum : 0 < num) (hden : 0 < den) :
    (10 : ℚ) ^ floorLog10 num den ≤ num / den ∧
      (num : ℚ) / den < 10 ^ (floorLog10 num den + 1) := by
  have hden' : (0 : ℚ) < den := by exact_mod_cast hden
  unfold floorLog10
  split
  · next hle =>
    obtain ⟨l, hl, hlow, hhigh⟩ := Text.exists_length_decimal (Nat.div_pos hle hden)
    have hexponent : ((l + 1 : Nat) : Int) - 1 = l := by omega
    rw [hl, hexponent, zpow_natCast, ← Nat.cast_succ, zpow_natCast, le_div_iff₀ hden',
      div_lt_iff₀ hden']
    constructor
    · exact_mod_cast (Nat.le_div_iff_mul_le hden).mp hlow
    · exact_mod_cast (Nat.div_lt_iff_lt_mul hden).mp hhigh
  · next hlt =>
    have hquotient : 0 < (den - 1) / num := Nat.div_pos (by omega) hnum
    obtain ⟨l, hl, hlow, hhigh⟩ := Text.exists_length_decimal hquotient
    have hexponent : -((l + 1 : Nat) : Int) + 1 = -l := by omega
    have hlow' := (Nat.le_div_iff_mul_le hnum).mp hlow
    have hhigh' := (Nat.div_lt_iff_lt_mul hnum).mp hhigh
    rw [hl, hexponent, zpow_neg, zpow_neg, zpow_natCast, zpow_natCast, le_div_iff₀ hden',
      div_lt_iff₀ hden', inv_mul_le_iff₀ (by positivity), lt_inv_mul_iff₀ (by positivity)]
    constructor
    · exact_mod_cast (by omega : den ≤ 10 ^ (l + 1) * num)
    · exact_mod_cast (by omega : 10 ^ l * num < den)

end Decimal

namespace Single

/-- The exponent of the last of so many digits. -/
def lastPlace (code digits : Nat) : Int :=
  Decimal.floorLog10 (Binary.single.ratio code).1 (Binary.single.ratio code).2 - (digits - 1 : Nat)

def inPlaces (code : Nat) (place : Int) : Nat × Nat :=
  if 0 ≤ place then
    ((Binary.single.ratio code).1, (Binary.single.ratio code).2 * Nat.pow 10 place.toNat)
  else ((Binary.single.ratio code).1 * Nat.pow 10 (-place).toNat, (Binary.single.ratio code).2)

def lower (code digits : Nat) : Decimal :=
  let places := inPlaces code (lastPlace code digits)
  ⟨places.1 / places.2, lastPlace code digits⟩

def upper (code digits : Nat) : Decimal :=
  if (lower code digits).coefficient + 1 = Nat.pow 10 digits then
    ⟨1, lastPlace code digits + digits⟩
  else ⟨(lower code digits).coefficient + 1, lastPlace code digits⟩

def firstRead (code : Nat) (first second : Decimal) : Option Decimal :=
  if read first = code then some first else if read second = code then some second else none

theorem nearest?_eq (tie : Tie) (code digits : Nat) :
    nearest? tie code digits = firstRead code (lower code digits) (upper code digits) ∨
      nearest? tie code digits = firstRead code (upper code digits) (lower code digits) := by
  obtain ⟨prefer, hprefer⟩ : ∃ prefer : Bool, nearest? tie code digits =
      firstRead code (if prefer then (upper code digits, lower code digits)
        else (lower code digits, upper code digits)).1
      (if prefer then (upper code digits, lower code digits)
        else (lower code digits, upper code digits)).2 := ⟨_, rfl⟩
  cases prefer with
  | true => exact .inr hprefer
  | false => exact .inl hprefer

theorem inPlaces_value (code : Nat) (place : Int) : 0 < (inPlaces code place).2 ∧
    ((inPlaces code place).1 : ℚ) / (inPlaces code place).2 =
      Binary.single.value code / 10 ^ place := by
  have hden := Binary.single.ratio_den_pos code
  rw [← Binary.single.ratio_value]
  unfold inPlaces
  split
  · next h =>
    obtain ⟨n, hn⟩ := Int.eq_ofNat_of_zero_le h
    refine ⟨Nat.mul_pos hden (Nat.pow_pos (by decide)), ?_⟩
    simp [hn, div_div]
  · next h =>
    obtain ⟨n, hn⟩ := Int.eq_ofNat_of_zero_le (show 0 ≤ -place by omega)
    obtain rfl : place = -n := by omega
    refine ⟨hden, ?_⟩
    simp [mul_div_right_comm]

theorem lower_spec (code digits : Nat) :
    (lower code digits).value ≤ Binary.single.value code ∧
      Binary.single.value code < (lower code digits).value + 10 ^ lastPlace code digits := by
  obtain ⟨-, hvalue⟩ := inPlaces_value code (lastPlace code digits)
  have hten : (0 : ℚ) < 10 ^ lastPlace code digits := by positivity
  have hcoefficient : (lower code digits).coefficient =
      ⌊Binary.single.value code / 10 ^ lastPlace code digits⌋₊ := by
    rw [← hvalue, Nat.floor_div_eq_div]
    rfl
  have hexponent : (lower code digits).exponent = lastPlace code digits := rfl
  have hpos : 0 ≤ Binary.single.value code / 10 ^ lastPlace code digits := by
    rw [← hvalue]
    positivity
  unfold Decimal.value
  rw [hcoefficient, hexponent, ← add_one_mul, ← le_div_iff₀ hten, ← div_lt_iff₀ hten]
  exact ⟨Nat.floor_le hpos, Nat.lt_floor_add_one _⟩

theorem value_upper (code digits : Nat) :
    (upper code digits).value = (lower code digits).value + 10 ^ lastPlace code digits := by
  have hlower : (lower code digits).value =
      (lower code digits).coefficient * 10 ^ lastPlace code digits := rfl
  rw [hlower, ← add_one_mul]
  unfold upper
  split
  · next hfull =>
    have hpower : ((lower code digits).coefficient : ℚ) + 1 = 10 ^ (digits : Int) := by
      rw [zpow_natCast]
      exact_mod_cast hfull
    rw [hpower, Decimal.value, zpow_add₀ (by norm_num)]
    push_cast
    ring
  · simp [Decimal.value]

theorem firstPlace_spec {code : Nat} (hcode : 0 < code) {digits : Nat} (hdigits : 0 < digits) :
    (10 : ℚ) ^ (lastPlace code digits + (digits - 1 : Nat)) ≤ Binary.single.value code ∧
      Binary.single.value code < 10 ^ (lastPlace code digits + digits) := by
  have hvalue : 0 < Binary.single.value code := by
    rw [← Binary.single.value_zero]
    exact Binary.single.value_strictMono hcode
  have hnum : 0 < (Binary.single.ratio code).1 := by
    by_contra hzero
    rw [← Binary.single.ratio_value, Nat.eq_zero_of_not_pos hzero, Nat.cast_zero,
      zero_div] at hvalue
    exact lt_irrefl _ hvalue
  obtain ⟨hlow, hhigh⟩ := Decimal.floorLog10_spec hnum (Binary.single.ratio_den_pos code)
  rw [Binary.single.ratio_value] at hlow hhigh
  have hplaces : lastPlace code digits + digits =
      Decimal.floorLog10 (Binary.single.ratio code).1 (Binary.single.ratio code).2 + 1 := by
    unfold lastPlace
    omega
  exact ⟨by rwa [lastPlace, sub_add_cancel], by rwa [hplaces]⟩

/-- The decimal has at most so many digits, lies within a unit of its last place, and that is not
far from the first digit. -/
structure Near (code digits : Nat) (d : Decimal) : Prop where
  distance : |d.value - Binary.single.value code| ≤ 10 ^ d.exponent
  coefficient : d.coefficient ≤ 10 ^ digits
  low : lastPlace code digits ≤ d.exponent
  high : d.exponent ≤ lastPlace code digits + digits

theorem coefficient_lower_lt {code digits : Nat} (hcode : 0 < code) (hdigits : 0 < digits) :
    (lower code digits).coefficient < 10 ^ digits := by
  have hten : (0 : ℚ) < 10 ^ lastPlace code digits := by positivity
  have hless : ((lower code digits).coefficient : ℚ) * 10 ^ lastPlace code digits <
      10 ^ digits * 10 ^ lastPlace code digits := by
    calc ((lower code digits).coefficient : ℚ) * 10 ^ lastPlace code digits
        ≤ Binary.single.value code := (lower_spec code digits).1
      _ < 10 ^ (lastPlace code digits + digits) := (firstPlace_spec hcode hdigits).2
      _ = 10 ^ digits * 10 ^ lastPlace code digits := by
        rw [zpow_add₀ (by norm_num), zpow_natCast, mul_comm]
  exact_mod_cast lt_of_mul_lt_mul_right hless hten.le

theorem near_lower {code digits : Nat} (hcode : 0 < code) (hdigits : 0 < digits) :
    Near code digits (lower code digits) where
  distance := by
    obtain ⟨hlow, hhigh⟩ := lower_spec code digits
    have hexponent : (lower code digits).exponent = lastPlace code digits := rfl
    rw [abs_le, hexponent]
    constructor <;> linarith
  coefficient := (coefficient_lower_lt hcode hdigits).le
  low := le_rfl
  high := Int.le_add_of_nonneg_right (Int.natCast_nonneg _)

theorem near_upper {code digits : Nat} (hcode : 0 < code) (hdigits : 0 < digits) :
    Near code digits (upper code digits) := by
  have hcoefficient := coefficient_lower_lt hcode hdigits
  have hplace : lastPlace code digits ≤ (upper code digits).exponent ∧
      (upper code digits).exponent ≤ lastPlace code digits + digits := by
    unfold upper
    split
    · exact ⟨Int.le_add_of_nonneg_right (Int.natCast_nonneg _), le_rfl⟩
    · exact ⟨le_rfl, Int.le_add_of_nonneg_right (Int.natCast_nonneg _)⟩
  refine ⟨?_, ?_, hplace.1, hplace.2⟩
  · obtain ⟨hlow, hhigh⟩ := lower_spec code digits
    have hunit : (10 : ℚ) ^ lastPlace code digits ≤ 10 ^ (upper code digits).exponent :=
      zpow_le_zpow_right₀ (by norm_num) hplace.1
    rw [value_upper, abs_le]
    constructor <;> linarith
  · unfold upper
    split
    · exact Nat.one_le_pow _ _ (by decide)
    · exact hcoefficient

theorem near_of_nearest? {tie : Tie} {code digits : Nat} {d : Decimal} (hcode : 0 < code)
    (hdigits : 0 < digits) (h : nearest? tie code digits = some d) : Near code digits d := by
  have hlower := near_lower hcode hdigits
  have hupper := near_upper hcode hdigits
  rcases nearest?_eq tie code digits with hfirst | hfirst
  all_goals
    rw [hfirst, firstRead] at h
    split at h
    · cases h
      assumption
    · split at h <;> cases h
      assumption

theorem value_bounds {code : Nat} (hcode : 0 < code) (hfinite : code < Binary.single.infinity) :
    (10 : ℚ) ^ (-45 : Int) ≤ Binary.single.value code ∧
      Binary.single.value code < 10 ^ (39 : Int) := by
  obtain ⟨hm, -, hq⟩ := scale_bounds hfinite
  constructor
  · have hlowest : Binary.single.lowest = -149 := by decide
    have hone : (1 : ℚ) ≤ code := by exact_mod_cast hcode
    calc (10 : ℚ) ^ (-45 : Int) ≤ 1 * 2 ^ (-149 : Int) := by norm_num
      _ ≤ code * 2 ^ Binary.single.lowest := by rw [hlowest]; gcongr
      _ ≤ Binary.single.value code := Binary.single.mul_le_value code
  · have hfraction : ((Binary.single.scale code).1 : ℚ) ≤ 2 ^ 24 := by exact_mod_cast hm.le
    calc Binary.single.value code ≤ 2 ^ 24 * 2 ^ (104 : Int) :=
        mul_le_mul hfraction (zpow_le_zpow_right₀ one_le_two hq) (by positivity) (by positivity)
      _ < 10 ^ (39 : Int) := by norm_num

theorem lastPlace_bounds {code : Nat} (hcode : 0 < code) (hfinite : code < Binary.single.infinity)
    {digits : Nat} (hdigits : 0 < digits) :
    -45 ≤ lastPlace code digits + (digits - 1 : Nat) ∧
      lastPlace code digits + (digits - 1 : Nat) ≤ 38 := by
  obtain ⟨hsmall, hlarge⟩ := value_bounds hcode hfinite
  obtain ⟨hlow, hhigh⟩ := firstPlace_spec hcode hdigits
  have hbelow := (zpow_lt_zpow_iff_right₀ (show (1 : ℚ) < 10 by norm_num)).mp
    (hsmall.trans_lt hhigh)
  have habove := (zpow_lt_zpow_iff_right₀ (show (1 : ℚ) < 10 by norm_num)).mp (hlow.trans_lt hlarge)
  omega

/-- Nine digits tell all magnitudes apart: a unit of the ninth is less than half the distance to the
code below. -/
theorem read_lower_nine {code : Nat} (hcode : 0 < code)
    (hfinite : code < Binary.single.infinity) : read (lower code 9) = code := by
  obtain ⟨hlow, hhigh⟩ := lower_spec code 9
  have hnine : 0 < 9 := by decide
  obtain ⟨hfirst, -⟩ := firstPlace_spec hcode hnine
  obtain ⟨hsmall, hlarge⟩ := lastPlace_bounds hcode hfinite hnine
  have hexponent : (lower code 9).exponent = lastPlace code 9 := rfl
  obtain ⟨num, den, hden, hvalue, hread⟩ :=
    exists_read (d := lower code 9) (by rw [hexponent]; omega) (by rw [hexponent]; omega)
  rw [hread]
  refine Binary.Format.round_of_near hden hfinite ?_ fun b hb => ?_
  · rw [hvalue]
    exact hlow.trans_lt (Binary.single.value_lt_midpoint code)
  · subst hb
    have hfraction : (((Binary.single.scale b).1 + 1 : Nat) : ℚ) ≤ 2 ^ 24 := by
      exact_mod_cast Binary.single.fraction_lt b
    obtain ⟨unit, hunit⟩ : ∃ unit : ℚ, 2 ^ (Binary.single.scale b).2 = unit := ⟨_, rfl⟩
    have hpos : 0 < unit := hunit ▸ by positivity
    have hnext : Binary.single.value (b + 1) = ((Binary.single.scale b).1 + 1 : Nat) * unit := by
      rw [Binary.Format.value_succ, Binary.Format.value, hunit]
      push_cast
      ring
    have hbits : ((Binary.single.scale b).1 + 1 : Nat) * unit ≤ 2 ^ 24 * unit := by gcongr
    have hplace : (10 : ℚ) ^ lastPlace (b + 1) 9 * 10 ^ 8 ≤ 2 ^ 24 * unit := by
      rw [← hnext] at hbits
      refine le_trans ?_ hbits
      rwa [zpow_add₀ (by norm_num), zpow_natCast] at hfirst
    rw [hvalue, Binary.Format.midpoint, hunit]
    rw [Binary.Format.value_succ, hunit] at hhigh
    linarith

theorem exists_near_shortest (tie : Tie) {code : Nat} (hcode : 0 < code)
    (hfinite : code < Binary.single.infinity) :
    ∃ digits, 0 < digits ∧ digits ≤ 9 ∧ Near code digits (shortest tie code) := by
  have hnine : ∃ d, nearest? tie code 9 = some d := by
    have hlower := read_lower_nine hcode hfinite
    rcases nearest?_eq tie code 9 with h | h
    · exact ⟨_, h.trans (if_pos hlower)⟩
    · rw [h, firstRead, if_pos hlower]
      split
      · exact ⟨_, rfl⟩
      · exact ⟨_, rfl⟩
  obtain ⟨d, hd⟩ := hnine
  cases hsearch : (List.range' 1 9).findSome? (nearest? tie code) with
  | none =>
    rw [List.findSome?_eq_none_iff] at hsearch
    cases hd.symm.trans (hsearch 9 (by decide))
  | some e =>
    obtain ⟨digits, hmem, hdigits⟩ := List.exists_of_findSome?_eq_some hsearch
    obtain ⟨hpos, hnine⟩ := List.mem_range'_1.mp hmem
    have hshortest : shortest tie code = e := by rw [shortest, hsearch, Option.getD_some]
    exact ⟨digits, hpos, by omega, hshortest ▸ near_of_nearest? hcode hpos hdigits⟩

/-- A shortest decimal has nine digits at most, and the exponent of a single precision number of so
many digits. -/
theorem shortest_bounds (tie : Tie) {code : Nat} (hcode : 0 < code)
    (hfinite : code < Binary.single.infinity) :
    |(shortest tie code).value - Binary.single.value code| ≤ 10 ^ (shortest tie code).exponent ∧
      (shortest tie code).coefficient ≤ 10 ^ 9 ∧ (shortest tie code).exponent.natAbs ≤ 53 := by
  obtain ⟨digits, hpos, hnine, hnear⟩ := exists_near_shortest tie hcode hfinite
  obtain ⟨hsmall, hlarge⟩ := lastPlace_bounds hcode hfinite hpos
  have hlow := hnear.low
  have hhigh := hnear.high
  exact ⟨hnear.distance, hnear.coefficient.trans (Nat.pow_le_pow_right (by decide) hnine), by omega⟩

theorem read_zero (exponent : Int) : read ⟨0, exponent⟩ = 0 := by
  unfold read Decimal.clamp Decimal.ratio
  dsimp only
  split <;> simp

theorem coefficient_shortest (tie : Tie) {code : Nat}
    (hfinite : code < Binary.single.infinity) (hzero : code ≠ 0) :
    (shortest tie code).coefficient ≠ 0 := by
  have hread := read_shortest tie hfinite
  cases hshortest : shortest tie code with
  | mk coefficient exponent =>
    rw [hshortest] at hread
    rintro rfl
    exact hzero (hread.symm.trans (read_zero exponent))

end Single
end PadScript
