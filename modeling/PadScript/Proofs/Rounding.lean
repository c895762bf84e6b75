import Mathlib.Tactic
import PadScript.Binary

/-!
# Values of codes

The exact arithmetic on natural numbers is compared with rational numbers: logarithms of quotients,
and the numbers that the codes of a binary format denote.
-/
namespace PadScript.Binary

theorem shift_den_pos {num den : Nat} (hden : 0 < den) (power : Int) :
    0 < (shift num den power).2 := by
  unfold shift
  rw [Nat.pow_eq, Nat.pow_eq]
  split
  · positivity
  · exact hden

theorem shift_value (num den : Nat) (power : Int) :
    ((shift num den power).1 : ℚ) / (shift num den power).2 = num / den / 2 ^ power := by
  unfold shift
  split
  · next h =>
    obtain ⟨n, rfl⟩ := Int.eq_ofNat_of_zero_le h
    simp [div_div]
  · next h =>
    obtain ⟨n, hn⟩ := Int.eq_ofNat_of_zero_le (show 0 ≤ -power by omega)
    obtain rfl : power = -n := by omega
    simp [mul_div_right_comm]

theorem shift_lt_iff {num den : Nat} (hden : 0 < den) (power : Int) :
    (shift num den power).1 < (shift num den power).2 ↔ (num : ℚ) / den < 2 ^ power := by
  have hpos : (0 : ℚ) < (shift num den power).2 := by exact_mod_cast shift_den_pos hden power
  rw [← div_lt_one (show (0 : ℚ) < 2 ^ power by positivity), ← shift_value, div_lt_one hpos,
    Nat.cast_lt]

theorem log2_bounds {n : Nat} (hn : 0 < n) :
    (2 : ℚ) ^ (n.log2 : Int) ≤ n ∧ (n : ℚ) < 2 ^ ((n.log2 : Int) + 1) := by
  have hlow := Nat.log2_self_le hn.ne'
  have hhigh := Nat.lt_log2_self (n := n)
  constructor
  · rw [zpow_natCast]
    exact_mod_cast hlow
  · rw [← Nat.cast_succ, zpow_natCast]
    exact_mod_cast hhigh

/-- The logarithms of numerator and denominator leave two powers of two to choose from. -/
theorem quotient_bounds {num den : Nat} (hnum : 0 < num) (hden : 0 < den) :
    (2 : ℚ) ^ ((num.log2 : Int) - den.log2 - 1) ≤ num / den ∧
      (num : ℚ) / den < 2 ^ ((num.log2 : Int) - den.log2 + 1) := by
  obtain ⟨hnumLow, hnumHigh⟩ := log2_bounds hnum
  obtain ⟨hdenLow, hdenHigh⟩ := log2_bounds hden
  have hpos : (0 : ℚ) < den := by exact_mod_cast hden
  constructor
  · rw [le_div_iff₀ hpos]
    calc (2 : ℚ) ^ ((num.log2 : Int) - den.log2 - 1) * den
        ≤ 2 ^ ((num.log2 : Int) - den.log2 - 1) * 2 ^ ((den.log2 : Int) + 1) := by gcongr
      _ = 2 ^ (num.log2 : Int) := by rw [← zpow_add₀ two_ne_zero]; congr 1; omega
      _ ≤ num := hnumLow
  · rw [div_lt_iff₀ hpos]
    calc (num : ℚ) < 2 ^ ((num.log2 : Int) + 1) := hnumHigh
      _ = 2 ^ ((num.log2 : Int) - den.log2 + 1) * 2 ^ (den.log2 : Int) := by
        rw [← zpow_add₀ two_ne_zero]; congr 1; omega
      _ ≤ 2 ^ ((num.log2 : Int) - den.log2 + 1) * den := by gcongr

theorem floorLog2_spec {num den : Nat} (hnum : 0 < num) (hden : 0 < den) :
    (2 : ℚ) ^ floorLog2 num den ≤ num / den ∧ (num : ℚ) / den < 2 ^ (floorLog2 num den + 1) := by
  obtain ⟨hlow, hhigh⟩ := quotient_bounds hnum hden
  unfold floorLog2
  dsimp only
  split
  · next h =>
    rw [sub_add_cancel]
    exact ⟨hlow, (shift_lt_iff hden _).mp h⟩
  · next h =>
    rw [shift_lt_iff hden, not_lt] at h
    exact ⟨h, hhigh⟩

theorem floorLog2_eq {num den : Nat} (hnum : 0 < num) (hden : 0 < den) {e : Int}
    (hlow : (2 : ℚ) ^ e ≤ num / den) (hhigh : (num : ℚ) / den < 2 ^ (e + 1)) :
    floorLog2 num den = e := by
  obtain ⟨hlow', hhigh'⟩ := floorLog2_spec hnum hden
  have hle := (zpow_lt_zpow_iff_right₀ (one_lt_two (α := ℚ))).mp (hlow.trans_lt hhigh')
  have hge := (zpow_lt_zpow_iff_right₀ (one_lt_two (α := ℚ))).mp (hlow'.trans_lt hhigh)
  omega

theorem floorLog2_lt {num den : Nat} (hnum : 0 < num) (hden : 0 < den) {e : Int}
    (hhigh : (num : ℚ) / den < 2 ^ e) : floorLog2 num den < e :=
  (zpow_lt_zpow_iff_right₀ (one_lt_two (α := ℚ))).mp
    ((floorLog2_spec hnum hden).1.trans_lt hhigh)

namespace Format

/-- The number that a finite code denotes. -/
def value (f : Format) (code : Nat) : ℚ := (f.scale code).1 * 2 ^ (f.scale code).2

theorem scale_of_lt {f : Format} {code : Nat} (h : code < 2 ^ f.fractionBits) :
    f.scale code = (code, f.lowest) := if_pos h

theorem scale_of_le {f : Format} {code : Nat} (h : 2 ^ f.fractionBits ≤ code) :
    f.scale code = (2 ^ f.fractionBits + code % 2 ^ f.fractionBits,
      f.lowest + (code / 2 ^ f.fractionBits - 1 : Nat)) := if_neg h.not_gt

theorem code_of_scale (f : Format) (code : Nat) :
    ((f.scale code).2 - f.lowest).toNat * 2 ^ f.fractionBits + (f.scale code).1 = code := by
  rcases Nat.lt_or_ge code (2 ^ f.fractionBits) with h | h
  · simp [scale_of_lt h]
  · rw [scale_of_le h]
    obtain ⟨k, hk⟩ := Nat.exists_eq_add_of_le' ((Nat.one_le_div_iff (by positivity)).mpr h)
    have hdiv := Nat.div_add_mod code (2 ^ f.fractionBits)
    rw [hk] at hdiv ⊢
    simp only [Nat.add_sub_cancel, add_sub_cancel_left, Int.toNat_natCast]
    linarith

end Format
end PadScript.Binary
