import Mathlib.Tactic

/-!
# Multiples of powers of five and of two keep apart

A decimal with few digits is either equal to a binary number with few bits or a good part of the
precision away from it. How close multiples of two numbers come is told by the fractions that
enclose their quotient: those of small denominators are found by taking mediants, and no other
fraction of a small denominator comes closer.
-/
namespace PadScript

/-- Two fractions, each as denominator and numerator. -/
structure Fence where
  below : Nat × Nat
  above : Nat × Nat
  deriving DecidableEq

namespace Fence

variable {five two limit : Nat}

/-- Neighbouring fractions that enclose the quotient `five / two`. -/
structure Encloses (five two : Nat) (w : Fence) : Prop where
  neighbours : w.below.1 * w.above.2 = w.above.1 * w.below.2 + 1
  le : w.below.2 * two ≤ w.below.1 * five
  lt : w.above.1 * five < w.above.2 * two

/-- Mediants take the place of one fraction or the other until the next denominator is beyond the
limit. -/
def narrow (five two limit : Nat) : (steps : Nat) → Fence → Fence
  | 0, w => w
  | steps + 1, w =>
    let mediant := (w.below.1 + w.above.1, w.below.2 + w.above.2)
    if limit ≤ mediant.1 then w
    else if mediant.2 * two ≤ mediant.1 * five then narrow five two limit steps ⟨mediant, w.above⟩
    else narrow five two limit steps ⟨w.below, mediant⟩

theorem Encloses.narrow {w : Fence} (h : w.Encloses five two) (steps : Nat) :
    (narrow five two limit steps w).Encloses five two := by
  induction steps generalizing w with
  | zero => exact h
  | succ steps ih =>
    unfold Fence.narrow
    dsimp only
    split
    · exact h
    · split
      · next hle => exact ih ⟨by linarith [h.neighbours], hle, h.lt⟩
      · next hlt => exact ih ⟨by linarith [h.neighbours], h.le, not_le.mp hlt⟩

def whole : Fence := ⟨(1, 0), (0, 1)⟩

theorem encloses_whole (htwo : 0 < two) : whole.Encloses five two :=
  ⟨rfl, by simp [whole], by simpa [whole] using htwo⟩

/-- How far multiples of the two numbers are apart. -/
def gap (five two : Nat) (pair : Nat × Nat) : Int := pair.1 * five - pair.2 * two

/-- Within a fence, a fraction of a small denominator is one of the ends, or farther from the
quotient than both. -/
theorem Encloses.apart {w : Fence} (h : w.Encloses five two) {a b : Nat} (ha : 0 < a)
    (hsmall : a < w.below.1 + w.above.1) :
    (∃ x, (a, b) = (x * w.below.1, x * w.below.2)) ∨
      (∃ x, (a, b) = (x * w.above.1, x * w.above.2)) ∨
      gap five two w.below - gap five two w.above ≤ |gap five two (a, b)| := by
  obtain ⟨⟨q, p⟩, q', p'⟩ := w
  obtain ⟨hneighbours, hle, hlt⟩ := h
  dsimp only at hneighbours hle hlt hsmall
  have hdet : (q * p' : Int) = q' * p + 1 := by exact_mod_cast hneighbours
  have hbelow : (0 : Int) ≤ q * five - p * two := by
    have : (p * two : Int) ≤ q * five := by exact_mod_cast hle
    linarith
  have habove : (q' * five - p' * two : Int) < 0 := by
    have : (q' * five : Int) < p' * two := by exact_mod_cast hlt
    linarith
  -- the coordinates along the two ends
  obtain ⟨x, hx⟩ : ∃ x : Int, x = a * p' - b * q' := ⟨_, rfl⟩
  obtain ⟨y, hy⟩ : ∃ y : Int, y = b * q - a * p := ⟨_, rfl⟩
  have hfirst : (a : Int) = x * q + y * q' := by rw [hx, hy]; linear_combination a * -hdet
  have hsecond : (b : Int) = x * p + y * p' := by rw [hx, hy]; linear_combination b * -hdet
  have hgap : gap five two (a, b) = x * (q * five - p * two) + y * (q' * five - p' * two) := by
    rw [gap, hfirst, hsecond]
    ring
  have hpos : (0 : Int) < a := by exact_mod_cast ha
  have hq : (0 : Int) ≤ q := by positivity
  have hq' : (0 : Int) ≤ q' := by positivity
  rw [hgap]
  simp only [gap]
  rcases lt_trichotomy y 0 with hy | rfl | hy
  · rcases le_or_gt x 0 with hx | hx
    · have hxq : x * q ≤ 0 := mul_nonpos_of_nonpos_of_nonneg hx hq
      have hyq : y * q' ≤ 0 := mul_nonpos_of_nonpos_of_nonneg hy.le hq'
      linarith
    · -- the gaps of the two ends add up
      have hfirst : 0 ≤ (x - 1) * (q * five - p * two) := mul_nonneg (by omega) hbelow
      have hsecond : 0 ≤ (y + 1) * (q' * five - p' * two) :=
        mul_nonneg_of_nonpos_of_nonpos (by omega) habove.le
      refine .inr (.inr (le_trans ?_ (le_abs_self _)))
      linarith
  · have hx : 0 ≤ x := by
      by_contra hneg
      have hxq : x * q ≤ 0 := mul_nonpos_of_nonpos_of_nonneg (not_le.mp hneg).le hq
      linarith
    obtain ⟨n, rfl⟩ := Int.eq_ofNat_of_zero_le hx
    rw [zero_mul, add_zero] at hfirst hsecond
    exact .inl ⟨n, Prod.ext (by exact_mod_cast hfirst) (by exact_mod_cast hsecond)⟩
  · rcases lt_trichotomy x 0 with hx | rfl | hx
    · have hfirst : 0 ≤ (-x - 1) * (q * five - p * two) := mul_nonneg (by omega) hbelow
      have hsecond : (y - 1) * (q' * five - p' * two) ≤ 0 :=
        mul_nonpos_of_nonneg_of_nonpos (by omega) habove.le
      refine .inr (.inr (le_trans ?_ (neg_le_abs _)))
      linarith
    · obtain ⟨n, rfl⟩ := Int.eq_ofNat_of_zero_le hy.le
      rw [zero_mul, zero_add] at hfirst hsecond
      exact .inr (.inl ⟨n, Prod.ext (by exact_mod_cast hfirst) (by exact_mod_cast hsecond)⟩)
    · -- both ends take part, so that the denominator is beyond the limit
      have hlimit : (a : Int) < q + q' := by exact_mod_cast hsmall
      have hxq : 0 ≤ (x - 1) * q := mul_nonneg (by omega) hq
      have hyq : 0 ≤ (y - 1) * q' := mul_nonneg (by omega) hq'
      linarith

/-- The multiples are apart by more than five parts in 2 ^ 54. -/
def Far (five two : Nat) (pair : Nat × Nat) : Prop :=
  5 * (pair.1 * five : Nat) ≤ 2 ^ 54 * |gap five two pair|

instance (pair : Nat × Nat) : Decidable (Far five two pair) :=
  inferInstanceAs (Decidable (_ ≤ _))

theorem gap_mul (x : Nat) (pair : Nat × Nat) :
    gap five two (x * pair.1, x * pair.2) = x * gap five two pair := by
  simp only [gap]
  push_cast
  ring

theorem Far.mul {pair : Nat × Nat} (h : Far five two pair) (x : Nat) :
    Far five two (x * pair.1, x * pair.2) := by
  unfold Far at h ⊢
  rw [gap_mul, abs_mul, Nat.abs_cast]
  push_cast at h ⊢
  nlinarith

def close (five two : Nat) (w : Fence) : List (Nat × Nat) :=
  [w.below, w.above].filter fun pair => ¬ Far five two pair

/-- Below the limit, all pairs are far but for the close ends themselves. -/
def Guards (five two limit : Nat) (w : Fence) : Prop :=
  limit ≤ w.below.1 + w.above.1 ∧
  5 * (limit * five : Nat) ≤ 2 ^ 54 * (gap five two w.below - gap five two w.above) ∧
  ∀ pair ∈ w.close five two, limit ≤ 2 * pair.1

instance (w : Fence) : Decidable (w.Guards five two limit) :=
  inferInstanceAs (Decidable (_ ∧ _ ∧ _))

theorem Guards.far_or_close {w : Fence} (h : w.Guards five two limit)
    (hencloses : w.Encloses five two) {a b : Nat} (ha : 0 < a) (hsmall : a < limit) :
    Far five two (a, b) ∨ (a, b) ∈ w.close five two := by
  obtain ⟨hlimit, hwidth, honce⟩ := h
  -- a multiple of an end is as far as the end, or else the end itself
  have hend : ∀ pair ∈ [w.below, w.above], ∀ x, (a, b) = (x * pair.1, x * pair.2) →
      Far five two (a, b) ∨ (a, b) ∈ w.close five two := by
    intro pair hpair x hx
    obtain ⟨rfl, rfl⟩ := Prod.mk.inj hx
    by_cases hfar : Far five two pair
    · exact .inl (hfar.mul x)
    · have hclose : pair ∈ w.close five two := List.mem_filter.mpr ⟨hpair, by simpa using hfar⟩
      have hdouble := honce pair hclose
      have hx : x = 1 := by
        have hpos : 0 < x := Nat.pos_of_mul_pos_right ha
        have htwo : x < 2 := by
          by_contra hlarge
          have := Nat.mul_le_mul_right pair.1 (not_lt.mp hlarge)
          omega
        omega
      rw [hx, one_mul, one_mul]
      exact .inr hclose
  rcases hencloses.apart ha (hsmall.trans_le hlimit) (b := b) with ⟨x, hx⟩ | ⟨x, hx⟩ | hgap
  · exact hend w.below (by simp) x hx
  · exact hend w.above (by simp) x hx
  · refine .inl ?_
    unfold Far
    have hless : (5 * (a * five : Nat) : Int) ≤ 5 * (limit * five : Nat) := by
      exact_mod_cast Nat.mul_le_mul_left 5 (Nat.mul_le_mul_right five hsmall.le)
    linarith

end Fence

/-- The largest power of two that is not above a power of five. -/
def binade (e : Nat) : Nat := 2 ^ (5 ^ e).log2

/-- The fractions of at most 25 bits on both sides of a power of five, divided by its binade. -/
def fiveFence (e : Nat) : Fence := Fence.narrow (5 ^ e) (binade e) (2 ^ 25) 500 .whole

/-- The pairs of at most 25 bits that come close to one another as multiples of a power of five
and of its binade. -/
def closePairs (e : Nat) : List (Nat × Nat) :=
  if e < 12 then [] else (fiveFence e).close (5 ^ e) (binade e)

theorem guards_fiveFence :
    ∀ e ∈ List.range' 12 42, (fiveFence e).Guards (5 ^ e) (binade e) (2 ^ 25) := by
  decide +kernel

example : closePairs 15 = [(28874659, 51291698)] := by decide +kernel

theorem far_or_close {e a b : Nat} (he : e ≤ 53) (ha : 0 < a) (hsmall : a < 2 ^ 25) :
    Fence.gap (5 ^ e) (binade e) (a, b) = 0 ∨ Fence.Far (5 ^ e) (binade e) (a, b) ∨
      (a, b) ∈ closePairs e := by
  rcases Nat.lt_or_ge e 12 with hfew | hmany
  · -- a gap is at least one, which is much for a small power
    by_cases hgap : Fence.gap (5 ^ e) (binade e) (a, b) = 0
    · exact .inl hgap
    · refine .inr (.inl ?_)
      have hone : 1 ≤ |Fence.gap (5 ^ e) (binade e) (a, b)| := Int.one_le_abs hgap
      have hpower : 5 ^ e ≤ 5 ^ 11 := Nat.pow_le_pow_right (by decide) (by omega)
      have hproduct : 5 * (a * 5 ^ e) ≤ 5 * (2 ^ 25 * 5 ^ 11) :=
        Nat.mul_le_mul_left 5 (Nat.mul_le_mul hsmall.le hpower)
      unfold Fence.Far
      have hcast : (5 * (a * 5 ^ e : Nat) : Int) ≤ 5 * (2 ^ 25 * 5 ^ 11) := by
        exact_mod_cast hproduct
      dsimp only
      linarith
  · have hguards := guards_fiveFence e (List.mem_range'_1.mpr ⟨hmany, by omega⟩)
    have hencloses : (fiveFence e).Encloses (5 ^ e) (binade e) :=
      (Fence.encloses_whole (by unfold binade; positivity)).narrow 500
    rw [closePairs, if_neg (by omega)]
    exact .inr (hguards.far_or_close hencloses ha hsmall)

/-- A multiple of a power of five and one of a power of two, both of at most 25 bits, are equal, or
apart, or come from a close pair. -/
theorem five_pow_apart {e a b : Nat} (r : Int) (he : e ≤ 53) (ha : 0 < a) (ha' : a < 2 ^ 25)
    (hb' : b < 2 ^ 25) :
    (a * 5 ^ e : ℚ) = b * 2 ^ r ∨ 5 * (a * 5 ^ e : ℚ) ≤ 2 ^ 54 * |(a * 5 ^ e : ℚ) - b * 2 ^ r| ∨
      ∃ i j, (a * 2 ^ i, b * 2 ^ j) ∈ closePairs e := by
  -- a gap of whole multiples is one of rational numbers, scaled
  have hscaled : ∀ i j : Nat, (r + i : Int) = (5 ^ e).log2 + j →
      ((Fence.gap (5 ^ e) (binade e) (a * 2 ^ i, b * 2 ^ j) : Int) : ℚ) =
        2 ^ i * (a * 5 ^ e - b * 2 ^ r) := by
    intro i j hij
    have hpower : (2 : ℚ) ^ r * 2 ^ i = 2 ^ (5 ^ e).log2 * 2 ^ j := by
      rw [← zpow_natCast, ← zpow_natCast, ← zpow_natCast, ← zpow_add₀ two_ne_zero,
        ← zpow_add₀ two_ne_zero, hij]
    simp only [Fence.gap, binade]
    push_cast
    linear_combination (b : ℚ) * hpower
  have happly : ∀ i j : Nat, (r + i : Int) = (5 ^ e).log2 + j → a * 2 ^ i < 2 ^ 25 →
      (a * 5 ^ e : ℚ) = b * 2 ^ r ∨ 5 * (a * 5 ^ e : ℚ) ≤ 2 ^ 54 * |(a * 5 ^ e : ℚ) - b * 2 ^ r| ∨
        ∃ i j, (a * 2 ^ i, b * 2 ^ j) ∈ closePairs e := by
    intro i j hij hsmall
    have hpos : (0 : ℚ) < 2 ^ i := by positivity
    have hgap := hscaled i j hij
    rcases far_or_close he (show 0 < a * 2 ^ i by positivity) hsmall (b := b * 2 ^ j) with
      hzero | hfar | hclose
    · rw [hzero, Int.cast_zero, eq_comm, mul_eq_zero, or_iff_right hpos.ne', sub_eq_zero] at hgap
      exact .inl hgap
    · have hcast : (5 * (a * 2 ^ i * 5 ^ e) : ℚ) ≤
          2 ^ 54 * |((Fence.gap (5 ^ e) (binade e) (a * 2 ^ i, b * 2 ^ j) : Int) : ℚ)| := by
        exact_mod_cast hfar
      rw [hgap, abs_mul, abs_of_pos hpos] at hcast
      refine .inr (.inl (le_of_mul_le_mul_left ?_ hpos))
      linarith
    · exact .inr (.inr ⟨i, j, hclose⟩)
  rcases le_or_gt ((5 ^ e).log2 : Int) r with hle | hlt
  · obtain ⟨j, hj⟩ := Int.eq_ofNat_of_zero_le (sub_nonneg.mpr hle)
    exact happly 0 j (by omega) (by simpa using ha')
  · obtain ⟨i, hi⟩ := Int.eq_ofNat_of_zero_le (sub_nonneg.mpr hlt.le)
    by_cases hsmall : a * 2 ^ i < 2 ^ 25
    · exact happly i 0 (by omega) hsmall
    · -- the first multiple is the larger one by far
      have hpower : (2 : ℚ) ^ r * 2 ^ i = 2 ^ (5 ^ e).log2 := by
        rw [← zpow_natCast, ← zpow_natCast, ← zpow_add₀ two_ne_zero]
        congr 1
        omega
      have hbinade : (2 : ℚ) ^ (5 ^ e).log2 ≤ 5 ^ e := by
        exact_mod_cast Nat.log2_self_le (show 5 ^ e ≠ 0 by positivity)
      have hlarge : (2 : ℚ) ^ 25 ≤ a * 2 ^ i := by exact_mod_cast not_lt.mp hsmall
      have hbits : (b : ℚ) ≤ 2 ^ 25 - 1 := by
        rw [le_sub_iff_add_le]
        exact_mod_cast hb'
      have hpos : (0 : ℚ) < 2 ^ i := by positivity
      have hsecond : b * (2 : ℚ) ^ r * 2 ^ i ≤ (2 ^ 25 - 1) * 5 ^ e := by
        rw [mul_assoc, hpower]
        exact mul_le_mul hbits hbinade (by positivity) (by norm_num)
      have hfirst : (2 : ℚ) ^ 25 * 5 ^ e ≤ a * 5 ^ e * 2 ^ i := by
        calc (2 : ℚ) ^ 25 * 5 ^ e ≤ a * 2 ^ i * 5 ^ e := by gcongr
          _ = a * 5 ^ e * 2 ^ i := by ring
      have hless : (b : ℚ) * 2 ^ r * 2 ^ 25 ≤ (2 ^ 25 - 1) * (a * 5 ^ e) := by
        refine le_of_mul_le_mul_right ?_ hpos
        linarith
      refine .inr (.inl ?_)
      have habs := le_abs_self ((a * 5 ^ e : ℚ) - b * 2 ^ r)
      have hnonneg : (0 : ℚ) ≤ a * 5 ^ e := by positivity
      linarith

/-- The coefficients, up to powers of two, of the decimals that come close to a binary number. -/
def closeCoefficients (exponent : Int) : List Nat :=
  (closePairs exponent.natAbs).map fun pair => if 0 ≤ exponent then pair.1 else pair.2

theorem apart_of_scaled {x y v m c : ℚ} (hc : 0 < c)
    (hx : x = c * v ∧ y = c * m ∨ x = c * m ∧ y = c * v)
    (h : x = y ∨ 5 * x ≤ 2 ^ 54 * |x - y|) : v = m ∨ 9 * v ≤ 2 ^ 55 * |v - m| := by
  rcases h with h | h
  · refine .inl (mul_left_cancel₀ hc.ne' ?_)
    rcases hx with ⟨rfl, rfl⟩ | ⟨rfl, rfl⟩
    · exact h
    · exact h.symm
  · refine .inr (le_of_mul_le_mul_left ?_ hc)
    rcases hx with ⟨rfl, rfl⟩ | ⟨rfl, rfl⟩
    · rw [← mul_sub, abs_mul, abs_of_pos hc] at h
      have := abs_nonneg (v - m)
      nlinarith
    · rw [← mul_sub, abs_mul, abs_of_pos hc, abs_sub_comm] at h
      have := le_abs_self (v - m)
      nlinarith [abs_nonneg (v - m)]

/-- A decimal and a binary number are multiples of a power of five and of a power of two, on a scale
of their own; which is which depends on the sign of the decimal exponent. -/
theorem exists_scale (d n : Nat) (exponent k : Int) : ∃ c > (0 : ℚ), ∃ r : Int,
    (0 ≤ exponent ∧ (d * 5 ^ exponent.natAbs : ℚ) = c * (d * 10 ^ exponent) ∧
      (n * 2 ^ r : ℚ) = c * (n * 2 ^ k)) ∨
    (exponent < 0 ∧ (n * 5 ^ exponent.natAbs : ℚ) = c * (n * 2 ^ k) ∧
      (d * 2 ^ r : ℚ) = c * (d * 10 ^ exponent)) := by
  rcases le_or_gt 0 exponent with hsign | hsign
  · obtain ⟨e, rfl⟩ := Int.eq_ofNat_of_zero_le hsign
    have hten : (10 : ℚ) ^ (e : Int) = 5 ^ e * 2 ^ (e : Int) := by
      rw [zpow_natCast, zpow_natCast, ← mul_pow]
      norm_num
    refine ⟨2 ^ (-(e : Int)), by positivity, k - e, .inl ⟨hsign, ?_, ?_⟩⟩
    · rw [hten, zpow_neg, Int.natAbs_natCast]
      field_simp
    · rw [sub_eq_add_neg, zpow_add₀ two_ne_zero]
      ring
  · obtain ⟨e, he⟩ := Int.eq_ofNat_of_zero_le (show 0 ≤ -exponent by omega)
    obtain rfl : exponent = -e := by omega
    have hten : (10 : ℚ) ^ (-(e : Int)) = (5 ^ e)⁻¹ * 2 ^ (-(e : Int)) := by
      rw [zpow_neg, zpow_neg, zpow_natCast, zpow_natCast, ← mul_inv, ← mul_pow]
      norm_num
    refine ⟨5 ^ e * 2 ^ (-k), by positivity, -k - e, .inr ⟨hsign, ?_, ?_⟩⟩
    · rw [Int.natAbs_neg, Int.natAbs_natCast, zpow_neg]
      field_simp
    · rw [hten, sub_eq_add_neg, zpow_add₀ two_ne_zero]
      field_simp

theorem decimal_apart {d n : Nat} {exponent : Int} (k : Int) (hexponent : exponent.natAbs ≤ 53)
    (hd : 0 < d) (hd' : d < 2 ^ 25) (hn : 0 < n) (hn' : n < 2 ^ 25) :
    (d * 10 ^ exponent : ℚ) = n * 2 ^ k ∨
      9 * (d * 10 ^ exponent : ℚ) ≤ 2 ^ 55 * |(d * 10 ^ exponent : ℚ) - n * 2 ^ k| ∨
      ∃ i, d * 2 ^ i ∈ closeCoefficients exponent := by
  obtain ⟨c, hc, r, ⟨hsign, hdecimal, hbinary⟩ | ⟨hsign, hbinary, hdecimal⟩⟩ :=
    exists_scale d n exponent k
  · rcases five_pow_apart r hexponent hd hd' hn' with h | h | ⟨i, j, hclose⟩
    · exact (apart_of_scaled hc (.inl ⟨hdecimal, hbinary⟩) (.inl h)).imp_right .inl
    · exact (apart_of_scaled hc (.inl ⟨hdecimal, hbinary⟩) (.inr h)).imp_right .inl
    · exact .inr (.inr ⟨i, List.mem_map.mpr ⟨_, hclose, if_pos hsign⟩⟩)
  · rcases five_pow_apart r hexponent hn hn' hd' with h | h | ⟨i, j, hclose⟩
    · exact (apart_of_scaled hc (.inr ⟨hbinary, hdecimal⟩) (.inl h)).imp_right .inl
    · exact (apart_of_scaled hc (.inr ⟨hbinary, hdecimal⟩) (.inr h)).imp_right .inl
    · exact .inr (.inr ⟨j, List.mem_map.mpr ⟨_, hclose, if_neg (not_le.mpr hsign)⟩⟩)

theorem five_pow_dvd {a b e : Nat} {r : Int} (h : (a * 5 ^ e : ℚ) = b * 2 ^ r) : 5 ^ e ∣ b := by
  have hpower : (2 : ℚ) ^ r * 2 ^ (-r).toNat = 2 ^ r.toNat := by
    rw [← zpow_natCast, ← zpow_natCast, ← zpow_add₀ two_ne_zero]
    congr 1
    omega
  have hwhole : a * 2 ^ (-r).toNat * 5 ^ e = b * 2 ^ r.toNat := by
    have : (a * 2 ^ (-r).toNat * 5 ^ e : ℚ) = b * 2 ^ r.toNat := by
      rw [← hpower]
      linear_combination (2 : ℚ) ^ (-r).toNat * h
    exact_mod_cast this
  have hcoprime : Nat.Coprime (5 ^ e) (2 ^ r.toNat) := Nat.Coprime.pow _ _ (by decide)
  exact hcoprime.dvd_of_dvd_mul_right (hwhole ▸ Dvd.intro_left _ rfl)

theorem exponent_of_eq {d n : Nat} {exponent k : Int} (hd : 0 < d) (hd' : d < 5 ^ 23) (hn : 0 < n)
    (hn' : n < 5 ^ 23) (h : (d * 10 ^ exponent : ℚ) = n * 2 ^ k) : exponent.natAbs ≤ 22 := by
  by_contra hlarge
  have hpower : 5 ^ 23 ≤ 5 ^ exponent.natAbs := Nat.pow_le_pow_right (by decide) (by omega)
  obtain ⟨c, hc, r, ⟨-, hdecimal, hbinary⟩ | ⟨-, hbinary, hdecimal⟩⟩ :=
    exists_scale d n exponent k
  · have hdvd : 5 ^ exponent.natAbs ∣ n := five_pow_dvd (by rw [hdecimal, h, hbinary])
    have := Nat.le_of_dvd hn hdvd
    omega
  · have hdvd : 5 ^ exponent.natAbs ∣ d := five_pow_dvd (by rw [hdecimal, h, hbinary])
    have := Nat.le_of_dvd hd hdvd
    omega

end PadScript
