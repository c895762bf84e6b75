import Mathlib.Tactic
import PadScript.Proofs.NearestCode
import PadScript.Single.Shortest

/-!
# Shortest decimals read back

Whatever the search for a short decimal does, the decimal that it gives for a finite magnitude is
read as this magnitude.
-/
namespace PadScript

namespace Decimal

def value (d : Decimal) : ℚ := d.coefficient * 10 ^ d.exponent

theorem ratio_den_pos (d : Decimal) : 0 < d.ratio.2 := by
  unfold ratio
  rw [Nat.pow_eq, Nat.pow_eq]
  split <;> positivity

theorem ratio_value (d : Decimal) : (d.ratio.1 : ℚ) / d.ratio.2 = d.value := by
  unfold ratio value
  split
  · next h =>
    obtain ⟨n, hn⟩ := Int.eq_ofNat_of_zero_le h
    simp [hn]
  · next h =>
    obtain ⟨n, hn⟩ := Int.eq_ofNat_of_zero_le (show 0 ≤ -d.exponent by omega)
    obtain hneg : d.exponent = -n := by omega
    simp [hneg, div_eq_mul_inv]

theorem clamp_eq_self {d : Decimal} (hlow : -1000 ≤ d.exponent) (hhigh : d.exponent ≤ 1000) :
    d.clamp = d := by
  have hexponent : max (-(1000 + (d.coefficient.log2 : Int)))
      (min (1000 + (d.coefficient.log2 : Int)) d.exponent) = d.exponent := by
    omega
  unfold clamp
  dsimp only
  rw [hexponent]

end Decimal

namespace Single

theorem exists_read {d : Decimal} (hlow : -1000 ≤ d.exponent) (hhigh : d.exponent ≤ 1000) :
    ∃ num den : Nat, 0 < den ∧ (num : ℚ) / den = d.value ∧
      read d = Binary.single.round num den := by
  refine ⟨d.ratio.1, d.ratio.2, d.ratio_den_pos, d.ratio_value, ?_⟩
  unfold read
  rw [Decimal.clamp_eq_self hlow hhigh]

theorem read_of_value {d : Decimal} {code : Nat} (hlow : -1000 ≤ d.exponent)
    (hhigh : d.exponent ≤ 1000) (hfinite : code < Binary.single.infinity)
    (h : d.value = Binary.single.value code) : read d = code := by
  obtain ⟨num, den, hden, hvalue, hread⟩ := exists_read hlow hhigh
  rw [hread]
  exact Binary.Format.round_of_value hfinite hden (hvalue.trans h)

/-- Zeros may be moved from the exponent to the coefficient. -/
theorem read_mul_pow {d : Decimal} (hlow : 0 ≤ d.exponent) (hhigh : d.exponent ≤ 1000) :
    read ⟨d.coefficient * 10 ^ d.exponent.toNat, 0⟩ = read d := by
  unfold read
  rw [Decimal.clamp_eq_self (by omega) hhigh, Decimal.clamp_eq_self (by simp) (by simp)]
  simp [Decimal.ratio, hlow]

theorem exact_value (code : Nat) : (exact code).value = Binary.single.value code := by
  unfold exact Decimal.value Binary.Format.value
  dsimp only
  split
  · next h =>
    obtain ⟨n, hn⟩ := Int.eq_ofNat_of_zero_le h
    simp [hn]
  · next h =>
    obtain ⟨n, hn⟩ := Int.eq_ofNat_of_zero_le (show 0 ≤ -(Binary.single.scale code).2 by omega)
    obtain hneg : (Binary.single.scale code).2 = -n := by omega
    have hten : (10 : ℚ) ^ n = 5 ^ n * 2 ^ n := by rw [← mul_pow]; norm_num
    simp only [hneg, neg_neg, Int.toNat_natCast, Nat.pow_eq, Nat.cast_mul, Nat.cast_pow,
      Nat.cast_ofNat, zpow_neg, zpow_natCast, hten, mul_inv]
    field_simp

theorem scale_bounds {code : Nat} (hfinite : code < Binary.single.infinity) :
    (Binary.single.scale code).1 < 2 ^ 24 ∧ -149 ≤ (Binary.single.scale code).2 ∧
      (Binary.single.scale code).2 ≤ 104 := by
  have hinfinity : Binary.single.infinity = 255 * 2 ^ 23 := by decide
  have hlowest : Binary.single.lowest = -149 := by decide
  rw [hinfinity] at hfinite
  rcases Nat.lt_or_ge code (2 ^ 23) with hcode | hcode
  · rw [Binary.Format.scale_of_lt hcode, hlowest]
    dsimp only
    omega
  · rw [Binary.Format.scale_of_le hcode, hlowest]
    simp only [Binary.single]
    omega

theorem exact_exponent {code : Nat} (hfinite : code < Binary.single.infinity) :
    -149 ≤ (exact code).exponent ∧ (exact code).exponent ≤ 0 := by
  obtain ⟨-, hlow, -⟩ := scale_bounds hfinite
  unfold exact
  dsimp only
  split
  · exact ⟨by simp, le_rfl⟩
  · exact ⟨hlow, by dsimp only; omega⟩

theorem read_shortest (tie : Tie) {code : Nat} (hfinite : code < Binary.single.infinity) :
    read (shortest tie code) = code := by
  unfold shortest
  cases h : (List.range' 1 9).findSome? (nearest? tie code) with
  | some d =>
    obtain ⟨digits, -, hdigits⟩ := List.exists_of_findSome?_eq_some h
    exact read_of_nearest? hdigits
  | none =>
    obtain ⟨hlow, hhigh⟩ := exact_exponent hfinite
    exact read_of_value (by simp; omega) (by simp; omega) hfinite (exact_value code)

end Single
end PadScript
