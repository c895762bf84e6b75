import PadScript.Proofs.Rounding

/-!
# Rounding goes to the nearest code

The values of the codes ascend, and a quotient between two of them is rounded to the one on its
side of their midpoint. From this follow the error of a rounding and that representable numbers
are not passed over.
-/
namespace PadScript.Binary.Format

variable {f : Format} {code num den : Nat}

theorem fraction_lt (f : Format) (code : Nat) :
    (f.scale code).1 < 2 * 2 ^ f.fractionBits := by
  rcases Nat.lt_or_ge code (2 ^ f.fractionBits) with h | h
  · rw [scale_of_lt h]
    omega
  · have hrest := Nat.mod_lt code (show 0 < 2 ^ f.fractionBits by positivity)
    rw [scale_of_le h]
    omega

theorem lowest_le (f : Format) (code : Nat) : f.lowest ≤ (f.scale code).2 := by
  rcases Nat.lt_or_ge code (2 ^ f.fractionBits) with h | h
  · rw [scale_of_lt h]
  · rw [scale_of_le h]
    omega

theorem le_fraction (h : f.lowest < (f.scale code).2) :
    2 ^ f.fractionBits ≤ (f.scale code).1 := by
  rcases Nat.lt_or_ge code (2 ^ f.fractionBits) with hcode | hcode
  · rw [scale_of_lt hcode] at h
    exact absurd h (lt_irrefl _)
  · rw [scale_of_le hcode]
    exact Nat.le_add_right _ _

theorem value_of_parts (f : Format) {j m : Nat} (hm : m ≤ 2 * 2 ^ f.fractionBits)
    (hj : j = 0 ∨ 2 ^ f.fractionBits ≤ m) :
    f.value (j * 2 ^ f.fractionBits + m) = m * 2 ^ (f.lowest + j) := by
  obtain ⟨u, hu⟩ : ∃ u, 2 ^ f.fractionBits = u := ⟨_, rfl⟩
  have hpos : 0 < u := hu ▸ by positivity
  unfold value
  rw [hu] at hm hj ⊢
  rcases Nat.lt_or_ge m u with hless | hless
  · -- only the first binade has such codes
    obtain rfl := hj.resolve_right (not_le.mpr hless)
    rw [scale_of_lt (by rw [hu]; omega)]
    simp
  obtain ⟨r, rfl⟩ := Nat.exists_eq_add_of_le hless
  rcases Nat.lt_or_ge r u with hr | hr
  · have hdiv : (j * u + (u + r)) / u = j + 1 := by
      rw [← add_assoc, ← Nat.succ_mul, add_comm, Nat.add_mul_div_right _ _ hpos,
        Nat.div_eq_of_lt hr, zero_add]
    have hmod : (j * u + (u + r)) % u = r := by
      rw [← add_assoc, ← Nat.succ_mul, add_comm, Nat.add_mul_mod_self_right, Nat.mod_eq_of_lt hr]
    rw [scale_of_le (by rw [hu]; omega), hu, hdiv, hmod, Nat.add_sub_cancel]
  · -- the next power of two
    obtain rfl : r = u := by omega
    have hcode : j * r + (r + r) = (j + 2) * r := by ring
    rw [hcode, scale_of_le (by rw [hu]; exact Nat.le_mul_of_pos_left r (by omega)), hu,
      Nat.mul_div_cancel _ hpos, Nat.mul_mod_left]
    have hexponent : f.lowest + ((j + 2 - 1 : Nat) : Int) = f.lowest + j + 1 := by omega
    rw [hexponent, zpow_add_one₀ two_ne_zero]
    push_cast
    ring

/-- Within a binade, and up to the next one, the values are evenly spaced. -/
theorem value_succ (f : Format) (code : Nat) :
    f.value (code + 1) = f.value code + 2 ^ (f.scale code).2 := by
  have hcode := code_of_scale f code
  obtain ⟨j, hj⟩ : ∃ j, ((f.scale code).2 - f.lowest).toNat = j := ⟨_, rfl⟩
  have hq : (f.scale code).2 = f.lowest + j := by
    have := f.lowest_le code
    omega
  have hleading : j = 0 ∨ 2 ^ f.fractionBits ≤ (f.scale code).1 := by
    rcases Nat.eq_zero_or_pos j with hzero | hpos
    · exact .inl hzero
    · exact .inr (le_fraction (by omega))
  have hnext := f.value_of_parts (m := (f.scale code).1 + 1) (f.fraction_lt code)
    (hleading.imp_right Nat.le_succ_of_le)
  rw [hj] at hcode
  rw [← add_assoc, hcode, ← hq] at hnext
  rw [hnext, value]
  push_cast
  ring

theorem value_strictMono (f : Format) : StrictMono f.value :=
  strictMono_nat_of_lt_succ fun code => by
    rw [value_succ]
    exact lt_add_of_pos_right _ (by positivity)

theorem value_zero (f : Format) : f.value 0 = 0 := by
  rw [value, scale_of_lt (by positivity)]
  simp

theorem mul_le_value (f : Format) (code : Nat) : code * (2 : ℚ) ^ f.lowest ≤ f.value code := by
  induction code with
  | zero => simp [value_zero]
  | succ code ih =>
    have hunit : (2 : ℚ) ^ f.lowest ≤ 2 ^ (f.scale code).2 :=
      zpow_le_zpow_right₀ one_le_two (f.lowest_le code)
    rw [value_succ]
    push_cast
    linarith

theorem exists_code_le (f : Format) {v : ℚ} (hv : 0 ≤ v) :
    ∃ code, f.value code ≤ v ∧ v < f.value (code + 1) := by
  have hunit : (0 : ℚ) < 2 ^ f.lowest := by positivity
  have habove : ∃ code, v < f.value code := by
    obtain ⟨n, hn⟩ := exists_nat_gt (v / 2 ^ f.lowest)
    exact ⟨n, ((div_lt_iff₀ hunit).mp hn).trans_le (f.mul_le_value n)⟩
  obtain ⟨code, hcode⟩ : ∃ code, Nat.find habove = code + 1 := by
    refine Nat.exists_eq_succ_of_ne_zero fun hzero => ?_
    have hlt := Nat.find_spec habove
    rw [hzero, value_zero] at hlt
    exact absurd hlt (not_lt.mpr hv)
  refine ⟨code, not_lt.mp (Nat.find_min habove (by omega)), ?_⟩
  rw [← hcode]
  exact Nat.find_spec habove

def midpoint (f : Format) (code : Nat) : ℚ := f.value code + 2 ^ (f.scale code).2 / 2

theorem midpoint_lt (f : Format) (code : Nat) : f.midpoint code < f.value (code + 1) := by
  rw [midpoint, value_succ]
  exact add_lt_add_right (half_lt_self (by positivity)) _

theorem value_lt_midpoint (f : Format) (code : Nat) : f.value code < f.midpoint code :=
  lt_add_of_pos_right _ (by positivity)

theorem midpoint_eq (f : Format) (code : Nat) : f.midpoint code =
    (2 * (f.scale code).1 + 1 : Nat) * 2 ^ ((f.scale code).2 - 1) := by
  rw [midpoint, value, zpow_sub_one₀ two_ne_zero]
  push_cast
  ring

theorem power_of_between (hnum : 0 < num) (hden : 0 < den) (hlow : f.value code ≤ num / den)
    (hhigh : (num : ℚ) / den < f.value (code + 1)) :
    max f.lowest (floorLog2 num den - f.fractionBits) = (f.scale code).2 := by
  obtain ⟨q, hq⟩ : ∃ q, (f.scale code).2 = q := ⟨_, rfl⟩
  have hlowest := f.lowest_le code
  have htwo : ((2 ^ f.fractionBits : Nat) : ℚ) = 2 ^ (f.fractionBits : Int) := by
    rw [zpow_natCast, Nat.cast_pow, Nat.cast_two]
  have hbelow : (num : ℚ) / den < 2 ^ (f.fractionBits + q + 1) := by
    have hm : ((f.scale code).1 : ℚ) + 1 ≤ 2 * (2 ^ f.fractionBits : Nat) := by
      exact_mod_cast f.fraction_lt code
    calc (num : ℚ) / den < f.value (code + 1) := hhigh
      _ = ((f.scale code).1 + 1) * 2 ^ q := by rw [value_succ, value, hq]; ring
      _ ≤ 2 * (2 ^ f.fractionBits : Nat) * 2 ^ q := by gcongr
      _ = 2 ^ (f.fractionBits + q + 1) := by
        rw [htwo, zpow_add_one₀ two_ne_zero, zpow_add₀ two_ne_zero]; ring
  rw [hq] at hlowest ⊢
  rcases hlowest.eq_or_lt with hfirst | habove
  · have := floorLog2_lt hnum hden hbelow
    omega
  · have hm : ((2 ^ f.fractionBits : Nat) : ℚ) ≤ (f.scale code).1 := by
      exact_mod_cast le_fraction (hq ▸ habove)
    have hleading : (2 : ℚ) ^ (f.fractionBits + q) ≤ num / den := by
      refine le_trans ?_ hlow
      rw [value, hq, zpow_add₀ two_ne_zero, ← htwo]
      gcongr
    rw [floorLog2_eq hnum hden hleading hbelow]
    omega

theorem round_eq_halfEven (hnum : 0 < num) (hden : 0 < den) (hlow : f.value code ≤ num / den)
    (hhigh : (num : ℚ) / den < f.value (code + 1)) :
    f.round num den = min f.infinity (((f.scale code).2 - f.lowest).toNat * 2 ^ f.fractionBits +
      halfEven (shift num den (f.scale code).2).1 (shift num den (f.scale code).2).2) := by
  unfold round
  rw [if_neg hnum.ne']
  dsimp only
  rw [power_of_between hnum hden hlow hhigh, Nat.pow_eq]

end PadScript.Binary.Format

namespace PadScript.Binary

theorem floor_of_between {num den n : Nat} (hden : 0 < den) (hlow : (n : ℚ) ≤ num / den)
    (hhigh : (num : ℚ) / den < n + 1) : num / den = n := by
  have hpos : (0 : ℚ) < den := by exact_mod_cast hden
  rw [le_div_iff₀ hpos] at hlow
  rw [div_lt_iff₀ hpos] at hhigh
  exact Nat.div_eq_of_lt_le (by exact_mod_cast hlow) (by exact_mod_cast hhigh)

theorem halfEven_of_lt {num den n : Nat} (hden : 0 < den) (hlow : (n : ℚ) ≤ num / den)
    (hhalf : (num : ℚ) / den < n + 1 / 2) : halfEven num den = n := by
  have hpos : (0 : ℚ) < den := by exact_mod_cast hden
  have hfloor := floor_of_between hden hlow (hhalf.trans (by linarith))
  have hdivision := Nat.div_add_mod num den
  have htwice : 2 * (num % den) < den := by
    rw [div_lt_iff₀ hpos] at hhalf
    have hnat : 2 * num < 2 * n * den + den := by
      have : (2 : ℚ) * num < 2 * n * den + den := by linarith
      exact_mod_cast this
    rw [hfloor] at hdivision
    nlinarith
  simp [halfEven, hfloor, htwice]

theorem halfEven_of_gt {num den n : Nat} (hden : 0 < den)
    (hhalf : (n : ℚ) + 1 / 2 < num / den) (hhigh : (num : ℚ) / den < n + 1) :
    halfEven num den = n + 1 := by
  have hpos : (0 : ℚ) < den := by exact_mod_cast hden
  have hfloor := floor_of_between hden (by linarith) hhigh
  have hdivision := Nat.div_add_mod num den
  have htwice : den < 2 * (num % den) := by
    rw [lt_div_iff₀ hpos] at hhalf
    have hnat : 2 * n * den + den < 2 * num := by
      have : (2 : ℚ) * n * den + den < 2 * num := by linarith
      exact_mod_cast this
    rw [hfloor] at hdivision
    nlinarith
  have hnot : ¬ (2 * (num % den) < den ∨ 2 * (num % den) = den ∧ n % 2 = 0) := by omega
  simp [halfEven, hfloor, hnot]

theorem halfEven_of_half {num den n : Nat} (hden : 0 < den)
    (hhalf : (num : ℚ) / den = n + 1 / 2) : halfEven num den = n + n % 2 := by
  have hpos : (0 : ℚ) < den := by exact_mod_cast hden
  have hlow : (n : ℚ) ≤ num / den := by
    rw [hhalf]
    linarith
  have hhigh : (num : ℚ) / den < n + 1 := by
    rw [hhalf]
    linarith
  have hfloor := floor_of_between hden hlow hhigh
  have hdivision := Nat.div_add_mod num den
  have htwice : 2 * (num % den) = den := by
    rw [div_eq_iff hpos.ne'] at hhalf
    have hnat : 2 * num = 2 * n * den + den := by
      have : (2 : ℚ) * num = 2 * n * den + den := by linarith
      exact_mod_cast this
    rw [hfloor] at hdivision
    nlinarith
  unfold halfEven
  dsimp only
  rw [hfloor, htwice]
  split <;> omega

end PadScript.Binary

namespace PadScript.Binary.Format

variable {f : Format} {code num den : Nat}

/-- Up to the midpoint a quotient is rounded down to the code below, and beyond it up; on the
midpoint itself to the one whose fraction is even. -/
theorem round_of_between (hden : 0 < den) (hlow : f.value code ≤ num / den)
    (hhigh : (num : ℚ) / den < f.value (code + 1)) :
    ((num : ℚ) / den < f.midpoint code → f.round num den = min f.infinity code) ∧
    (f.midpoint code < num / den → f.round num den = min f.infinity (code + 1)) ∧
    ((num : ℚ) / den = f.midpoint code →
      f.round num den = min f.infinity (code + (f.scale code).1 % 2)) := by
  rcases Nat.eq_zero_or_pos num with rfl | hnum
  · have hcode : code = 0 := by
      rw [Nat.cast_zero, zero_div, ← f.value_zero, f.value_strictMono.le_iff_le] at hlow
      omega
    subst hcode
    have hmid : (0 : ℚ) < f.midpoint 0 := f.value_zero ▸ f.value_lt_midpoint 0
    rw [Nat.cast_zero, zero_div]
    exact ⟨fun _ => by simp, fun h => absurd hmid h.asymm, fun h => absurd h hmid.ne⟩
  · have hparts := code_of_scale f code
    obtain ⟨q, hq⟩ : ∃ q, (f.scale code).2 = q := ⟨_, rfl⟩
    obtain ⟨m, hm⟩ : ∃ m, (f.scale code).1 = m := ⟨_, rfl⟩
    have hpos : (0 : ℚ) < 2 ^ q := by positivity
    have hround := round_eq_halfEven hnum hden hlow hhigh
    have hshift := shift_value num den q
    have hden' : 0 < (shift num den q).2 := shift_den_pos hden q
    rw [midpoint, value, hq, hm]
    rw [value, hq, hm, ← le_div_iff₀ hpos, ← hshift] at hlow
    rw [value_succ, value, hq, hm, ← add_one_mul, ← div_lt_iff₀ hpos, ← hshift] at hhigh
    rw [hq] at hround
    rw [hq, hm] at hparts
    refine ⟨fun hmid => ?_, fun hmid => ?_, fun hmid => ?_⟩
    · have hhalf : ((shift num den q).1 : ℚ) / (shift num den q).2 < m + 1 / 2 := by
        rw [hshift, div_lt_iff₀ hpos]
        linarith
      rw [hround, halfEven_of_lt hden' hlow hhalf, hparts]
    · have hhalf : (m : ℚ) + 1 / 2 < ((shift num den q).1 : ℚ) / (shift num den q).2 := by
        rw [hshift, lt_div_iff₀ hpos]
        linarith
      rw [hround, halfEven_of_gt hden' hhalf hhigh, ← add_assoc, hparts]
    · have hhalf : ((shift num den q).1 : ℚ) / (shift num den q).2 = m + 1 / 2 := by
        rw [hshift, div_eq_iff hpos.ne', hmid]
        ring
      rw [hround, halfEven_of_half hden' hhalf, ← add_assoc, hparts]

theorem round_congr {num' den' : Nat} (hden : 0 < den) (hden' : 0 < den')
    (h : (num : ℚ) / den = num' / den') : f.round num den = f.round num' den' := by
  obtain ⟨code, hlow, hhigh⟩ := f.exists_code_le (v := (num : ℚ) / den) (by positivity)
  obtain ⟨hdown, hup, htie⟩ := round_of_between hden hlow hhigh
  rw [h] at hlow hhigh
  obtain ⟨hdown', hup', htie'⟩ := round_of_between hden' hlow hhigh
  rw [h] at hdown hup htie
  rcases lt_trichotomy ((num' : ℚ) / den') (f.midpoint code) with hmid | hmid | hmid
  · rw [hdown hmid, hdown' hmid]
  · rw [htie hmid, htie' hmid]
  · rw [hup hmid, hup' hmid]

theorem round_mem (hden : 0 < den) (hlow : f.value code ≤ num / den)
    (hhigh : (num : ℚ) / den < f.value (code + 1)) :
    f.round num den = min f.infinity code ∧ (num : ℚ) / den ≤ f.midpoint code ∨
      f.round num den = min f.infinity (code + 1) ∧ f.midpoint code ≤ num / den := by
  obtain ⟨hdown, hup, htie⟩ := round_of_between hden hlow hhigh
  rcases lt_trichotomy ((num : ℚ) / den) (f.midpoint code) with hmid | hmid | hmid
  · exact .inl ⟨hdown hmid, hmid.le⟩
  · rcases Nat.mod_two_eq_zero_or_one (f.scale code).1 with hparity | hparity
    · exact .inl ⟨by rw [htie hmid, hparity, add_zero], hmid.le⟩
    · exact .inr ⟨by rw [htie hmid, hparity], hmid.ge⟩
  · exact .inr ⟨hup hmid, hmid.le⟩

theorem between_of_round (hden : 0 < den) (hfinite : code < f.infinity)
    (h : f.round num den = code) :
    (num : ℚ) / den ≤ f.midpoint code ∧ ∀ b, b + 1 = code → f.midpoint b ≤ num / den := by
  obtain ⟨c, hlow, hhigh⟩ := f.exists_code_le (v := (num : ℚ) / den) (by positivity)
  rcases round_mem hden hlow hhigh with ⟨hround, hmid⟩ | ⟨hround, hmid⟩
  · obtain rfl : c = code := by omega
    refine ⟨hmid, fun b hb => ?_⟩
    subst hb
    exact (f.midpoint_lt b).le.trans hlow
  · obtain rfl : c + 1 = code := by omega
    refine ⟨hhigh.le.trans (f.value_lt_midpoint _).le, fun b hb => ?_⟩
    obtain rfl := Nat.succ.inj hb
    exact hmid

/-- What lies between the midpoints on both sides of a code is rounded to it. -/
theorem round_of_near (hden : 0 < den) (hfinite : code < f.infinity)
    (hhigh : (num : ℚ) / den < f.midpoint code)
    (hlow : ∀ b, b + 1 = code → f.midpoint b < num / den) : f.round num den = code := by
  rcases le_or_gt (f.value code) (num / den) with hvalue | hvalue
  · rw [(round_of_between hden hvalue (hhigh.trans (f.midpoint_lt code))).1 hhigh]
    exact Nat.min_eq_right hfinite.le
  · cases code with
    | zero =>
      rw [value_zero] at hvalue
      exact absurd hvalue (not_lt.mpr (by positivity))
    | succ b =>
      have hmid := hlow b rfl
      rw [(round_of_between hden ((f.value_lt_midpoint b).trans hmid).le hvalue).2.1 hmid]
      exact Nat.min_eq_right hfinite.le

theorem round_of_value (hfinite : code < f.infinity) (hden : 0 < den)
    (h : (num : ℚ) / den = f.value code) : f.round num den = code := by
  refine round_of_near hden hfinite ?_ fun b hb => ?_
  · exact h ▸ f.value_lt_midpoint code
  · subst hb
    exact h ▸ f.midpoint_lt b

theorem round_le_of_le {b : Nat} (hden : 0 < den) (h : (num : ℚ) / den ≤ f.value b) :
    f.round num den ≤ b := by
  obtain ⟨c, hlow, hhigh⟩ := f.exists_code_le (v := (num : ℚ) / den) (by positivity)
  have hc : c ≤ b := f.value_strictMono.le_iff_le.mp (hlow.trans h)
  rcases round_mem hden hlow hhigh with ⟨hround, -⟩ | ⟨hround, hmid⟩
  · omega
  · have hlt : c < b :=
      f.value_strictMono.lt_iff_lt.mp (((f.value_lt_midpoint c).trans_le hmid).trans_le h)
    omega

/-- A rounding to a finite code, of a quotient that is not below the numbers with a leading bit, is
off by half a unit in the last place at most. -/
theorem abs_value_round_sub_le (hden : 0 < den)
    (hleading : (2 : ℚ) ^ (f.lowest + f.fractionBits) ≤ num / den)
    (hfinite : f.round num den < f.infinity) :
    |f.value (f.round num den) - num / den| ≤ num / den / 2 ^ (f.fractionBits + 1) := by
  obtain ⟨c, hlow, hhigh⟩ := f.exists_code_le (v := (num : ℚ) / den) (by positivity)
  obtain ⟨q, hq⟩ : ∃ q, (f.scale c).2 = q := ⟨_, rfl⟩
  have hfirst : f.value (2 ^ f.fractionBits) = 2 ^ (f.lowest + f.fractionBits) := by
    have h := f.value_of_parts (j := 0) (m := 2 ^ f.fractionBits) (by omega) (.inl rfl)
    rw [Nat.zero_mul, Nat.zero_add] at h
    rw [h, Nat.cast_zero, add_zero, zpow_add₀ two_ne_zero, zpow_natCast]
    push_cast
    ring
  have hcode : 2 ^ f.fractionBits ≤ c := by
    rw [← hfirst] at hleading
    exact Nat.lt_succ_iff.mp (f.value_strictMono.lt_iff_lt.mp (hleading.trans_lt hhigh))
  have hvalue : (2 : ℚ) ^ f.fractionBits * 2 ^ q ≤ f.value c := by
    rw [value, hq]
    gcongr
    rw [scale_of_le hcode]
    exact_mod_cast Nat.le_add_right _ _
  have hhalf : (2 : ℚ) ^ q / 2 ≤ num / den / 2 ^ (f.fractionBits + 1) := by
    rw [le_div_iff₀ (by positivity), pow_succ]
    linarith
  refine le_trans ?_ hhalf
  have hmidpoint : f.midpoint c = f.value c + 2 ^ q / 2 := by rw [midpoint, hq]
  have hnext : f.value (c + 1) = f.value c + 2 ^ q := by rw [value_succ, hq]
  rcases round_mem hden hlow hhigh with ⟨hround, hmid⟩ | ⟨hround, hmid⟩
  · have hc : f.round num den = c := by omega
    rw [hc, abs_le]
    constructor <;> linarith
  · have hc : f.round num den = c + 1 := by omega
    rw [hc, abs_le]
    constructor <;> linarith

theorem exists_code_eq {n : Nat} {k : Int} (hn : n < 2 * 2 ^ f.fractionBits) (hk : f.lowest ≤ k) :
    ∃ code, f.value code = n * 2 ^ k := by
  obtain ⟨c, hlow, hhigh⟩ := f.exists_code_le (v := n * (2 : ℚ) ^ k) (by positivity)
  obtain ⟨q, hq⟩ : ∃ q, (f.scale c).2 = q := ⟨_, rfl⟩
  obtain ⟨m, hm⟩ : ∃ m, (f.scale c).1 = m := ⟨_, rfl⟩
  have hqk : q ≤ k := by
    rcases (hq ▸ f.lowest_le c : f.lowest ≤ q).eq_or_lt with hfirst | habove
    · exact hfirst ▸ hk
    · have hleading : ((2 ^ f.fractionBits : Nat) : ℚ) ≤ m := by
        exact_mod_cast hm ▸ le_fraction (hq ▸ habove)
      have hbits : (n : ℚ) < 2 * (2 ^ f.fractionBits : Nat) := by exact_mod_cast hn
      rw [value, hq, hm] at hlow
      by_contra hlarge
      have hstep : (2 : ℚ) * 2 ^ k ≤ 2 ^ q := by
        rw [mul_comm, ← zpow_add_one₀ two_ne_zero]
        exact zpow_le_zpow_right₀ one_le_two (by omega)
      have hpos : (0 : ℚ) < 2 ^ k := by positivity
      have : ((2 ^ f.fractionBits : Nat) : ℚ) * (2 * 2 ^ k) ≤ n * 2 ^ k :=
        (mul_le_mul hleading hstep (by positivity) (by positivity)).trans hlow
      nlinarith
  obtain ⟨i, hi⟩ := Int.eq_ofNat_of_zero_le (sub_nonneg.mpr hqk)
  have hpos : (0 : ℚ) < 2 ^ q := by positivity
  have hsame : (n : ℚ) * 2 ^ k = (n * 2 ^ i : Nat) * 2 ^ q := by
    have hsum : k = i + q := by omega
    rw [hsum, zpow_add₀ two_ne_zero, zpow_natCast]
    push_cast
    ring
  rw [value_succ, value, hq, hm, ← add_one_mul, hsame, mul_lt_mul_iff_left₀ hpos] at hhigh
  rw [value, hq, hm, hsame, mul_le_mul_iff_left₀ hpos] at hlow
  have hfraction : m = n * 2 ^ i := by
    have hle : m ≤ n * 2 ^ i := by exact_mod_cast hlow
    have hlt : n * 2 ^ i < m + 1 := by exact_mod_cast hhigh
    omega
  exact ⟨c, by rw [hsame, value, hq, hm, hfraction]⟩

theorem ratio_den_pos (f : Format) (code : Nat) : 0 < (f.ratio code).2 := by
  unfold ratio
  dsimp only
  split
  · exact one_pos
  · exact Nat.pow_pos two_pos

theorem ratio_value (f : Format) (code : Nat) :
    ((f.ratio code).1 : ℚ) / (f.ratio code).2 = f.value code := by
  unfold ratio value
  dsimp only
  split
  · next h =>
    obtain ⟨n, hn⟩ := Int.eq_ofNat_of_zero_le h
    simp [hn]
  · next h =>
    obtain ⟨n, hn⟩ := Int.eq_ofNat_of_zero_le (show 0 ≤ -(f.scale code).2 by omega)
    obtain hneg : (f.scale code).2 = -n := by omega
    simp [hneg, div_eq_mul_inv]

theorem exists_mul (f : Format) (a b : Nat) : ∃ num den : Nat, 0 < den ∧
    (num : ℚ) / den = f.value a * f.value b ∧ f.mul a b = f.round num den := by
  refine ⟨(f.ratio a).1 * (f.ratio b).1, (f.ratio a).2 * (f.ratio b).2,
    Nat.mul_pos (f.ratio_den_pos a) (f.ratio_den_pos b), ?_, rfl⟩
  rw [Nat.cast_mul, Nat.cast_mul, ← ratio_value, ← ratio_value, div_mul_div_comm]

theorem exists_div (f : Format) (a : Nat) {b : Nat} (hb : 0 < f.value b) : ∃ num den : Nat,
    0 < den ∧ (num : ℚ) / den = f.value a / f.value b ∧ f.div a b = f.round num den := by
  have hnum : 0 < (f.ratio b).1 := by
    rw [← ratio_value] at hb
    by_contra hzero
    rw [Nat.eq_zero_of_not_pos hzero, Nat.cast_zero, zero_div] at hb
    exact lt_irrefl _ hb
  refine ⟨(f.ratio a).1 * (f.ratio b).2, (f.ratio a).2 * (f.ratio b).1,
    Nat.mul_pos (f.ratio_den_pos a) hnum, ?_, rfl⟩
  rw [Nat.cast_mul, Nat.cast_mul, ← ratio_value, ← ratio_value, div_div_div_eq]

end PadScript.Binary.Format
