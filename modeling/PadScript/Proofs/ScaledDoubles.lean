import PadScript.Json.Single
import PadScript.Proofs.NearestCode

/-!
# Decimals computed in double precision

A coefficient is multiplied by a power of ten, or divided by one, and both steps are rounded. The
result is off by little more than one unit in the last place, and by nothing where the numbers at
hand have few bits.
-/
namespace PadScript

namespace Json.Number

open Binary (double)

theorem lt_infinity {code : Nat} (h : double.value code ≤ 2 ^ (250 : Int)) :
    code < double.infinity := by
  have hscale : double.scale double.infinity = (2 ^ 52, 972) := by decide +kernel
  refine double.value_strictMono.lt_iff_lt.mp (h.trans_lt ?_)
  rw [Binary.Format.value, hscale]
  calc (2 : ℚ) ^ (250 : Int) < 2 ^ (972 : Int) := zpow_lt_zpow_right₀ one_lt_two (by decide)
    _ ≤ (2 ^ 52 : Nat) * 2 ^ (972 : Int) := le_mul_of_one_le_left (by positivity) (by norm_num)

theorem lowest_double : double.lowest = -1074 := by decide +kernel

theorem value_round_of_bits {num den n : Nat} {k : Int} (hden : 0 < den) (hn : n < 2 ^ 53)
    (hk : -1074 ≤ k) (hlarge : (num : ℚ) / den ≤ 2 ^ (250 : Int))
    (h : (num : ℚ) / den = n * 2 ^ k) : double.value (double.round num den) = num / den := by
  obtain ⟨code, hcode⟩ := Binary.Format.exists_code_eq (f := double) (n := n) (k := k)
    (by simpa [Binary.double] using hn) (lowest_double ▸ hk)
  have hfinite : code < double.infinity := lt_infinity (by rwa [hcode, ← h])
  rw [Binary.Format.round_of_value hfinite hden (h.trans hcode.symm), hcode, h]

theorem round_lt_infinity {num den : Nat} (hden : 0 < den)
    (hlarge : (num : ℚ) / den ≤ 2 ^ (250 : Int)) : double.round num den < double.infinity := by
  obtain ⟨b, hb⟩ := Binary.Format.exists_code_eq (f := double) (n := 1) (k := 250)
    (by decide) (by rw [lowest_double]; norm_num)
  rw [Nat.cast_one, one_mul] at hb
  exact (Binary.Format.round_le_of_le hden (hlarge.trans hb.ge)).trans_lt (lt_infinity hb.le)

theorem abs_value_round_sub_le {num den : Nat} (hden : 0 < den)
    (hsmall : (2 : ℚ) ^ (-250 : Int) ≤ num / den) (hlarge : (num : ℚ) / den ≤ 2 ^ (250 : Int)) :
    |double.value (double.round num den) - num / den| ≤ num / den / 2 ^ 53 := by
  refine double.abs_value_round_sub_le hden (le_trans ?_ hsmall) (round_lt_infinity hden hlarge)
  rw [lowest_double]
  exact zpow_le_zpow_right₀ one_le_two (by decide)

def tenValue (p : Nat) : ℚ := double.value (double.round (Nat.pow 10 p) 1)

theorem abs_tenValue_sub_le {p : Nat} (hp : p ≤ 53) :
    |tenValue p - 10 ^ p| ≤ 10 ^ p / 2 ^ 53 := by
  have hquotient : ((Nat.pow 10 p : Nat) : ℚ) / (1 : Nat) = 10 ^ p := by simp
  have hone : (1 : ℚ) ≤ 10 ^ p := one_le_pow₀ (by norm_num)
  have hlarge : (10 : ℚ) ^ p ≤ 10 ^ 53 := pow_le_pow_right₀ (by norm_num) hp
  have hsmall : (2 : ℚ) ^ (-250 : Int) ≤ (Nat.pow 10 p : Nat) / (1 : Nat) := by
    rw [hquotient]
    exact (zpow_le_one_of_nonpos₀ one_le_two (by decide)).trans hone
  have h := abs_value_round_sub_le one_pos hsmall (hquotient ▸ hlarge.trans (by norm_num))
  rwa [hquotient] at h

theorem tenValue_of_le {p : Nat} (hp : p ≤ 22) : tenValue p = 10 ^ p := by
  have hquotient : ((Nat.pow 10 p : Nat) : ℚ) / (1 : Nat) = 10 ^ p := by simp
  have hlarge : (10 : ℚ) ^ p ≤ 10 ^ 53 := pow_le_pow_right₀ (by norm_num) (by omega)
  have hbits : 5 ^ p < 2 ^ 53 :=
    (Nat.pow_le_pow_right (by decide) hp).trans_lt (by norm_num : 5 ^ 22 < 2 ^ 53)
  have hten : (10 : ℚ) ^ p = (5 ^ p : Nat) * 2 ^ (p : Int) := by
    rw [zpow_natCast, Nat.cast_pow, Nat.cast_ofNat, ← mul_pow]
    norm_num
  have h := value_round_of_bits one_pos hbits (by omega)
    (hquotient ▸ hlarge.trans (by norm_num)) (hquotient.trans hten)
  rwa [hquotient] at h

theorem tenValue_bounds {p : Nat} (hp : p ≤ 53) :
    (1 : ℚ) / 2 ≤ tenValue p ∧ tenValue p ≤ 2 * 10 ^ 53 := by
  have hone : (1 : ℚ) ≤ 10 ^ p := one_le_pow₀ (by norm_num)
  have hlarge : (10 : ℚ) ^ p ≤ 10 ^ 53 := pow_le_pow_right₀ (by norm_num) hp
  obtain ⟨hlow, hhigh⟩ := abs_le.mp (abs_tenValue_sub_le hp)
  constructor <;> linarith

/-- The two steps, before the second rounding. -/
def product (d : Nat) (power : Int) : ℚ :=
  if 0 ≤ power then d * tenValue power.natAbs else d / tenValue power.natAbs

theorem product_bounds {d : Nat} {power : Int} (hd : 0 < d) (hd' : d < 2 ^ 53)
    (hpower : power.natAbs ≤ 53) :
    (2 : ℚ) ^ (-250 : Int) ≤ product d power ∧ product d power ≤ 2 ^ (250 : Int) := by
  obtain ⟨hlow, hhigh⟩ := tenValue_bounds hpower
  have hone : (1 : ℚ) ≤ d := by exact_mod_cast hd
  have hbits : (d : ℚ) ≤ 2 ^ 53 := by exact_mod_cast hd'.le
  unfold product
  split
  · constructor
    · calc (2 : ℚ) ^ (-250 : Int) ≤ 1 * (1 / 2) := by norm_num
        _ ≤ d * tenValue power.natAbs := by gcongr
    · calc d * tenValue power.natAbs ≤ 2 ^ 53 * (2 * 10 ^ 53) := by gcongr
        _ ≤ 2 ^ (250 : Int) := by norm_num
  · constructor
    · calc (2 : ℚ) ^ (-250 : Int) ≤ 1 / (2 * 10 ^ 53) := by norm_num
        _ ≤ d / tenValue power.natAbs := by gcongr
    · calc d / tenValue power.natAbs ≤ 2 ^ 53 / (1 / 2) := by gcongr
        _ ≤ 2 ^ (250 : Int) := by norm_num

theorem exists_scaled (steps : Nat) {d : Nat} {power : Int} (hd : 0 < d) (hd' : d < 2 ^ 53)
    (hpower : power.natAbs ≤ 53) : ∃ num den : Nat, 0 < den ∧
      (num : ℚ) / den = product d power ∧
      scaled? steps (double.round d 1) power = some (double.round num den) := by
  obtain ⟨hsmall, hlarge⟩ := product_bounds hd hd' hpower
  have hquotient : (d : ℚ) / (1 : Nat) = d := by simp
  have hbits : (d : ℚ) ≤ 2 ^ 53 := by exact_mod_cast hd'.le
  have hexact : double.value (double.round d 1) = d := by
    have h := value_round_of_bits one_pos hd' (k := 0) (by decide)
      (hquotient ▸ hbits.trans (by norm_num)) (by rw [hquotient, zpow_zero, mul_one])
    rwa [hquotient] at h
  have hstep : power.natAbs ≤ largestStep := hpower.trans (by decide)
  unfold scaled?
  unfold product at hsmall hlarge ⊢
  split at hlarge
  · next hsign =>
    obtain ⟨num, den, hden, hvalue, hmul⟩ := double.exists_mul (double.round d 1)
      (double.round (Nat.pow 10 power.natAbs) 1)
    rw [hexact] at hvalue
    have hfinite : double.round num den < double.infinity := by
      refine round_lt_infinity hden ?_
      rw [hvalue]
      exact hlarge
    refine ⟨num, den, hden, ?_, ?_⟩
    · rw [if_pos hsign, hvalue]
      rfl
    · simp only [hstep, if_true, hsign, hmul, Binary.Format.isFinite, hfinite, decide_true]
  · next hsign =>
    have hten : (0 : ℚ) < double.value (double.round (Nat.pow 10 power.natAbs) 1) :=
      lt_of_lt_of_le (by norm_num) (tenValue_bounds hpower).1
    obtain ⟨num, den, hden, hvalue, hdiv⟩ := double.exists_div (double.round d 1) hten
    rw [hexact] at hvalue
    refine ⟨num, den, hden, ?_, ?_⟩
    · rw [if_neg hsign, hvalue]
      rfl
    · simp only [hstep, if_true, hsign, if_false, hdiv]

theorem decimal_eq (d : Nat) (power : Int) : (d * 10 ^ power : ℚ) =
    if 0 ≤ power then (d * 10 ^ power.natAbs : ℚ) else d / 10 ^ power.natAbs := by
  split
  · next hsign =>
    obtain ⟨p, rfl⟩ := Int.eq_ofNat_of_zero_le hsign
    simp
  · next hsign =>
    obtain ⟨p, hp⟩ := Int.eq_ofNat_of_zero_le (show 0 ≤ -power by omega)
    obtain rfl : power = -p := by omega
    simp [div_eq_mul_inv]

theorem abs_product_sub_le {d : Nat} {power : Int} (hpower : power.natAbs ≤ 53) :
    |product d power - d * 10 ^ power| ≤ d * 10 ^ power / (2 ^ 53 - 1) := by
  obtain ⟨hlow, hhigh⟩ := abs_le.mp (abs_tenValue_sub_le hpower)
  have hten : (0 : ℚ) < 10 ^ power.natAbs := by positivity
  have hd : (0 : ℚ) ≤ d := by positivity
  obtain ⟨t, ht⟩ : ∃ t, tenValue power.natAbs = t := ⟨_, rfl⟩
  obtain ⟨ten, hten'⟩ : ∃ ten, (10 : ℚ) ^ power.natAbs = ten := ⟨_, rfl⟩
  rw [decimal_eq, product, ht, hten']
  rw [ht, hten'] at hlow hhigh
  rw [hten'] at hten
  have htpos : 0 < t := by linarith
  split
  · rw [abs_le]
    constructor <;> nlinarith
  · have hdifference : (d : ℚ) / t - d / ten = d / ten * ((ten - t) / t) := by
      field_simp
    have hrelative : |(ten - t) / t| ≤ 1 / (2 ^ 53 - 1) := by
      rw [abs_le, le_div_iff₀ htpos, div_le_iff₀ htpos]
      constructor <;> linarith
    rw [hdifference, abs_mul, abs_of_nonneg (by positivity)]
    calc (d : ℚ) / ten * |(ten - t) / t| ≤ d / ten * (1 / (2 ^ 53 - 1)) := by gcongr
      _ = d / ten / (2 ^ 53 - 1) := by ring

/-- What is computed is off by little more than a unit in the last place. -/
theorem exists_near (steps : Nat) {d : Nat} {power : Int} (hd : 0 < d) (hd' : d < 2 ^ 53)
    (hpower : power.natAbs ≤ 53) :
    ∃ code, scaled? steps (double.round d 1) power = some code ∧
      2 ^ 55 * |double.value code - d * 10 ^ power| < 9 * (d * 10 ^ power) := by
  obtain ⟨num, den, hden, hvalue, hscaled⟩ := exists_scaled steps hd hd' hpower
  refine ⟨_, hscaled, ?_⟩
  obtain ⟨hsmall, hlarge⟩ := product_bounds hd hd' hpower
  have hsecond := abs_value_round_sub_le hden (hvalue ▸ hsmall) (hvalue ▸ hlarge)
  have hfirst := abs_product_sub_le (d := d) hpower
  rw [hvalue] at hsecond
  have hpos : (0 : ℚ) < d * 10 ^ power := by positivity
  obtain ⟨v, hv⟩ : ∃ v, (d * 10 ^ power : ℚ) = v := ⟨_, rfl⟩
  rw [hv] at hfirst hpos ⊢
  obtain ⟨hlow, hhigh⟩ := abs_le.mp hfirst
  have htriangle := abs_sub_le (double.value (double.round num den)) (product d power) v
  have hwide : product d power ≤ v + v / (2 ^ 53 - 1) := by linarith
  have htotal : |double.value (double.round num den) - v| ≤
      (v + v / (2 ^ 53 - 1)) / 2 ^ 53 + v / (2 ^ 53 - 1) := by linarith
  linarith

/-- Where the numbers at hand have few bits, nothing is rounded. -/
theorem exists_exact (steps : Nat) {d n : Nat} {power k : Int} (hd : 0 < d) (hd' : d < 2 ^ 53)
    (hpower : power.natAbs ≤ 22) (hn : n < 2 ^ 53) (hk : -1074 ≤ k)
    (h : (d * 10 ^ power : ℚ) = n * 2 ^ k) :
    ∃ code, scaled? steps (double.round d 1) power = some code ∧
      double.value code = d * 10 ^ power := by
  obtain ⟨num, den, hden, hvalue, hscaled⟩ := exists_scaled steps hd hd' (hpower.trans (by decide))
  obtain ⟨-, hlarge⟩ := product_bounds hd hd' (hpower.trans (by decide))
  have hproduct : product d power = d * 10 ^ power := by
    rw [decimal_eq, product, tenValue_of_le hpower]
  rw [hproduct] at hvalue hlarge
  refine ⟨_, hscaled, ?_⟩
  rw [value_round_of_bits hden hn hk (hvalue ▸ hlarge) (hvalue.trans h), hvalue]

end Json.Number
end PadScript
