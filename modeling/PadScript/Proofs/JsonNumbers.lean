import PadScript.Proofs.PowersApart
import PadScript.Proofs.ScaledDoubles
import PadScript.Proofs.ShortestNear

/-!
# Numbers in JSON read back

Reading by way of double precision rounds up to three times, and for some decimals the last bit is
not the right one. The shortest decimal of a single precision number is not among these: it stays
away from the midpoints on both sides of the number by more than what double precision loses, or
lies on one of them and nothing is lost. The few decimals that come closer are read one by one.
-/
namespace PadScript

open Binary (single double)

theorem Single.ofRatio_eq_ofDecimal {num den : Nat} {d : Decimal} (negative : Bool)
    (h : single.round num den = read d) : ofRatio negative num den = ofDecimal negative d := by
  have hmagnitude : (ofRatio negative num den).magnitude = (ofDecimal negative d).magnitude :=
    Fin.ext h
  exact congrArg (Single.mk negative) hmagnitude

namespace Json

namespace Number

theorem ofWord?_of_scaled {word magnitude : Nat} {power : Int} (negative : Bool)
    (h : scaled? power.natAbs (double.round word 1) power = some magnitude) :
    ofWord? negative word power =
      some (Single.ofRatio negative (double.ratio magnitude).1 (double.ratio magnitude).2) := by
  rw [ofWord?, h]
  rfl

theorem ofWord?_sign (negative : Bool) (word : Nat) (power : Int) :
    ofWord? negative word power =
      (ofWord? false word power).map fun x => ⟨negative, x.magnitude⟩ := by
  rw [ofWord?, ofWord?, Option.map_map]
  rfl

/-- What has many digits is as near to a number as its last place, and the midpoints are not. -/
theorem apart_of_long {v x u : ℚ} {m : Nat} (hu : 0 < u) (hm : m < 2 ^ 24)
    (hx : x = (2 * m : Nat) * u ∨ x = (2 * m + 2 : Nat) * u) (hv : |v - x| ≤ v / 2 ^ 25) :
    9 * v ≤ 2 ^ 55 * |v - (2 * m + 1 : Nat) * u| := by
  have hbits : (m + 1 : ℚ) * u ≤ 2 ^ 24 * u := by
    have : (m + 1 : ℚ) ≤ 2 ^ 24 := by exact_mod_cast hm
    gcongr
  obtain ⟨hlow, hhigh⟩ := abs_le.mp hv
  rcases hx with rfl | rfl
  · have habs := neg_le_abs (v - (2 * m + 1 : Nat) * u)
    push_cast at *
    linarith
  · have habs := le_abs_self (v - (2 * m + 1 : Nat) * u)
    push_cast at *
    linarith

/-- A decimal near a magnitude lies on one of the midpoints beside it, or away from it, or has few
digits and comes close. -/
theorem midpoint_apart {d : Decimal} {b code : Nat} (hb : b = code ∨ b + 1 = code)
    (hexponent : d.exponent.natAbs ≤ 53) (hd : 0 < d.coefficient)
    (hnear : |d.value - single.value code| ≤ 10 ^ d.exponent) :
    d.value = single.midpoint b ∨ 9 * d.value ≤ 2 ^ 55 * |d.value - single.midpoint b| ∨
      d.coefficient < 2 ^ 25 ∧ ∃ i, d.coefficient * 2 ^ i ∈ closeCoefficients d.exponent := by
  obtain ⟨m, hm⟩ : ∃ m, (single.scale b).1 = m := ⟨_, rfl⟩
  obtain ⟨k, hk⟩ : ∃ k, (single.scale b).2 - 1 = k := ⟨_, rfl⟩
  have hfraction : m < 2 ^ 24 := hm ▸ single.fraction_lt b
  have hvalue : single.value b = (2 * m : Nat) * 2 ^ k := by
    rw [Binary.Format.value, hm, ← hk, zpow_sub_one₀ two_ne_zero]
    push_cast
    ring
  have hunit : (2 : ℚ) ^ (single.scale b).2 = 2 * 2 ^ k := by
    rw [← hk, zpow_sub_one₀ two_ne_zero]
    ring
  rw [Binary.Format.midpoint_eq, hm, hk]
  rcases Nat.lt_or_ge d.coefficient (2 ^ 25) with hfew | hmany
  · rcases decimal_apart k hexponent hd hfew (n := 2 * m + 1) (by omega) (by omega) with
      h | h | h
    · exact .inl h
    · exact .inr (.inl h)
    · exact .inr (.inr ⟨hfew, h⟩)
  · have hten : (0 : ℚ) < 10 ^ d.exponent := by positivity
    have hlast : (10 : ℚ) ^ d.exponent ≤ d.value / 2 ^ 25 := by
      have hcoefficient : (2 : ℚ) ^ 25 ≤ d.coefficient := by exact_mod_cast hmany
      rw [le_div_iff₀ (by positivity), Decimal.value, mul_comm]
      gcongr
    refine .inr (.inl (apart_of_long (by positivity) hfraction ?_ (hnear.trans hlast)))
    rcases hb with rfl | rfl
    · exact .inl hvalue
    · refine .inr ?_
      rw [Binary.Format.value_succ, hvalue, hunit]
      push_cast
      ring

theorem close_read_back : ∀ e ∈ List.range' 12 42, ∀ power ∈ [(e : Int), -e],
    ∀ c ∈ closeCoefficients power, c < 2 ^ 27 ∧
      ∀ i ∈ List.range 27, 2 ^ i ∣ c → c / 2 ^ i < 2 ^ 25 →
      ofWord? false (c / 2 ^ i) power = some (Single.ofDecimal false ⟨c / 2 ^ i, power⟩) := by
  decide +kernel

theorem ofWord?_of_close (negative : Bool) {d : Decimal} {i : Nat}
    (hexponent : d.exponent.natAbs ≤ 53) (hd : 0 < d.coefficient) (hfew : d.coefficient < 2 ^ 25)
    (hclose : d.coefficient * 2 ^ i ∈ closeCoefficients d.exponent) :
    ofWord? negative d.coefficient d.exponent = some (Single.ofDecimal negative d) := by
  have hlarge : 12 ≤ d.exponent.natAbs := by
    by_contra hsmall
    rw [closeCoefficients, closePairs, if_pos (not_le.mp hsmall)] at hclose
    cases hclose
  have hpower : d.exponent ∈ [(d.exponent.natAbs : Int), -d.exponent.natAbs] := by
    simp only [List.mem_cons, List.not_mem_nil]
    omega
  obtain ⟨hbound, hread⟩ := close_read_back d.exponent.natAbs
    (List.mem_range'_1.mpr ⟨hlarge, by omega⟩) d.exponent hpower _ hclose
  have hi : i < 27 := by
    refine (Nat.pow_lt_pow_iff_right (by decide : 1 < 2)).mp (lt_of_le_of_lt ?_ hbound)
    exact Nat.le_mul_of_pos_left _ hd
  have hread := hread i (List.mem_range.mpr hi) (Dvd.intro_left _ rfl)
  rw [Nat.mul_div_cancel _ (by positivity)] at hread
  rw [ofWord?_sign, hread hfew]
  rfl

/-- Where nothing is rounded before the last step, a decimal is read as in a script. -/
theorem ofWord?_of_exact (negative : Bool) {d : Decimal} {word n : Nat} {power k : Int}
    (hd : -1000 ≤ d.exponent) (hd' : d.exponent ≤ 1000) (hword : 0 < word) (hword' : word < 2 ^ 53)
    (hpower : power.natAbs ≤ 22) (hn : n < 2 ^ 53) (hk : -1074 ≤ k)
    (hbits : d.value = n * 2 ^ k) (h : d.value = word * 10 ^ power) :
    ofWord? negative word power = some (Single.ofDecimal negative d) := by
  obtain ⟨num, den, hden, hvalue, hread⟩ := Single.exists_read hd hd'
  obtain ⟨code, hscaled, hcode⟩ :=
    exists_exact power.natAbs hword hword' hpower hn hk (h.symm.trans hbits)
  rw [ofWord?_of_scaled negative hscaled, Single.ofRatio_eq_ofDecimal (d := d)]
  rw [hread]
  refine Binary.Format.round_congr (double.ratio_den_pos code) hden ?_
  rw [double.ratio_value, hcode, hvalue, h]

theorem ofWord?_shortest (negative : Bool) {code : Nat} (hcode : 0 < code)
    (hfinite : code < single.infinity) :
    ofWord? negative (Single.shortest .even code).coefficient
      (Single.shortest .even code).exponent =
        some (Single.ofDecimal negative (Single.shortest .even code)) := by
  have hback := Single.read_shortest .even hfinite
  have hd := Nat.pos_of_ne_zero (Single.coefficient_shortest .even hfinite hcode.ne')
  obtain ⟨hnear, hdigits, hexponent⟩ := Single.shortest_bounds .even hcode hfinite
  obtain ⟨d, hshortest⟩ : ∃ d, Single.shortest .even code = d := ⟨_, rfl⟩
  rw [hshortest] at hback hd hnear hdigits hexponent ⊢
  obtain ⟨num, den, hden, hvalue, hread⟩ :=
    Single.exists_read (d := d) (by omega) (by omega)
  have hbetween := Binary.Format.between_of_round hden hfinite (hread.symm.trans hback)
  rw [hvalue] at hbetween
  by_cases hclose : d.coefficient < 2 ^ 25 ∧
      ∃ i, d.coefficient * 2 ^ i ∈ closeCoefficients d.exponent
  · obtain ⟨hfew, i, hclose⟩ := hclose
    exact ofWord?_of_close negative hexponent hd hfew hclose
  by_cases htie : ∃ b, (b = code ∨ b + 1 = code) ∧ d.value = single.midpoint b
  · -- the decimal is a binary number of few bits itself
    obtain ⟨b, -, hb⟩ := htie
    have hfraction := single.fraction_lt b
    have hlowest := single.lowest_le b
    rw [show single.lowest = -149 by decide] at hlowest
    have hn : 2 * (single.scale b).1 + 1 < 2 ^ 25 := by
      simp only [single] at hfraction ⊢
      omega
    rw [Binary.Format.midpoint_eq] at hb
    have hsmall := exponent_of_eq hd (hdigits.trans_lt (by norm_num)) (Nat.succ_pos _)
      (hn.trans (by norm_num)) hb
    exact ofWord?_of_exact negative (by omega) (by omega) hd (hdigits.trans_lt (by norm_num)) hsmall
      (hn.trans (by norm_num)) (by omega) hb rfl
  · -- what is computed lies on the same side of the midpoints
    obtain ⟨y, hscaled, hy⟩ :=
      exists_near d.exponent.natAbs hd (hdigits.trans_lt (by norm_num)) hexponent
    have hside : ∀ b, b = code ∨ b + 1 = code →
        |double.value y - d.value| < |d.value - single.midpoint b| := by
      intro b hb
      rcases midpoint_apart hb hexponent hd hnear with h | h | h
      · exact absurd ⟨b, hb, h⟩ htie
      · rw [← Decimal.value] at hy
        linarith
      · exact absurd h hclose
    rw [ofWord?_of_scaled negative hscaled, Single.ofRatio_eq_ofDecimal (d := d)]
    rw [hback]
    refine Binary.Format.round_of_near (double.ratio_den_pos y) hfinite ?_ fun b hb => ?_
    all_goals rw [double.ratio_value]
    · have h := hside code (.inl rfl)
      rw [abs_of_nonpos (sub_nonpos.mpr hbetween.1)] at h
      have := le_abs_self (double.value y - d.value)
      linarith
    · have h := hside b (.inr hb)
      rw [abs_of_nonneg (sub_nonneg.mpr (hbetween.2 b hb))] at h
      have := neg_le_abs (double.value y - d.value)
      linarith

-- Other decimals may lose the last bit: this one is above a midpoint by less than doubles tell.
example : ofWord? false 167772170000000001 (-10) = some (Single.ofDecimal false ⟨16777216, 0⟩) ∧
    Single.ofDecimal false ⟨167772170000000001, -10⟩ = .ofDecimal false ⟨16777218, 0⟩ := by
  decide +kernel

theorem le_ofDigitChars (cs : List Char) (word : Nat) : word ≤ Nat.ofDigitChars 10 cs word := by
  rw [Nat.ofDigitChars_eq_ofDigitChars_zero]
  exact (Nat.le_mul_of_pos_left word (by positivity)).trans (Nat.le_add_right _ _)

theorem absorb_of_lt {cs : List Char} {word : Nat}
    (h : Nat.ofDigitChars 10 cs word < UInt64.size) :
    absorb word cs = (Nat.ofDigitChars 10 cs word, []) := by
  induction cs generalizing word with
  | nil => rfl
  | cons c cs ih =>
    rw [Nat.ofDigitChars_cons, Nat.mul_comm] at h ⊢
    have hnext := (le_ofDigitChars cs _).trans_lt h
    rw [absorb, if_pos hnext, ih h]

/-- A number that is not written as an integer is read from the word that its digits make. -/
theorem single?_of_word {n : Number} {word : Nat} {power : Int} (hinteger : n.isInteger = false)
    (hword : Nat.ofDigitChars 10 (n.whole ++ n.fraction) 0 = word) (hroom : word < UInt64.size)
    (hsmall : (n.exponent.getD 0).natAbs ≤ largestExponent)
    (hpower : n.exponent.getD 0 - n.fraction.length = power) :
    n.single? = ofWord? n.negative word power := by
  rw [Nat.ofDigitChars_append] at hword
  have hwhole : absorb 0 n.whole = (Nat.ofDigitChars 10 n.whole 0, []) :=
    absorb_of_lt ((le_ofDigitChars n.fraction _).trans_lt (hword ▸ hroom))
  have hfraction : absorb (Nat.ofDigitChars 10 n.whole 0) n.fraction = (word, []) := by
    rw [absorb_of_lt (hword ▸ hroom), hword]
  have hplace : (([] : List Char).length : Int) -
      (n.fraction.length - ([] : List Char).length : Nat) + n.exponent.getD 0 = power := by
    rw [← hpower]
    simp only [List.length_nil]
    omega
  unfold single?
  rw [hwhole]
  dsimp only
  rw [hinteger, Bool.false_and, if_neg Bool.false_ne_true, hfraction]
  dsimp only
  rw [if_neg (not_lt.mpr hsmall), hplace]

theorem ofDigitChars_plain (digits : List Char) (places : Nat) :
    Nat.ofDigitChars 10 ((if digits.length - places = 0 then ['0']
      else digits.take (digits.length - places)) ++
        (List.replicate (places - digits.length) '0' ++ digits.drop (digits.length - places))) 0 =
      Nat.ofDigitChars 10 digits 0 := by
  have hzero : Nat.ofDigitChars 10 ['0'] 0 = 0 := rfl
  split
  · next hsplit =>
    rw [hsplit, List.drop_zero, Nat.ofDigitChars_append, Nat.ofDigitChars_append,
      Nat.ofDigitChars_replicate_zero, hzero, mul_zero]
  · next hsplit =>
    have hfill : places - digits.length = 0 := by omega
    rw [hfill, List.replicate_zero, List.nil_append, List.take_append_drop]

theorem length_plain (digits : List Char) (places : Nat) :
    (List.replicate (places - digits.length) '0' ++
      digits.drop (digits.length - places)).length = places := by
  rw [List.length_append, List.length_replicate, List.length_drop]
  omega

theorem single?_ofFinite (negative : Bool) {code : Nat} (hcode : 0 < code)
    (hfinite : code < single.infinity) :
    (ofFinite negative code).single? =
      some (Single.ofDecimal negative (Single.shortest .even code)) := by
  have hdecimal := ofWord?_shortest negative hcode hfinite
  have hd := Nat.pos_of_ne_zero (Single.coefficient_shortest .even hfinite hcode.ne')
  obtain ⟨-, hdigits, hexponent⟩ := Single.shortest_bounds .even hcode hfinite
  unfold ofFinite
  obtain ⟨d, hshortest⟩ : ∃ d, Single.shortest .even code = d := ⟨_, rfl⟩
  rw [hshortest] at hdecimal hd hdigits hexponent ⊢
  have hvalue : Nat.ofDigitChars 10 (Text.decimal d.coefficient) 0 = d.coefficient :=
    Nat.ofDigitChars_ten_toDigits
  obtain ⟨l, hlength, hlow, hhigh⟩ := Text.exists_length_decimal hd
  obtain ⟨digits, hd'⟩ : ∃ digits, Text.decimal d.coefficient = digits := ⟨_, rfl⟩
  have hl : l ≤ 9 := (Nat.pow_le_pow_iff_right (by decide : 1 < 10)).mp (hlow.trans hdigits)
  have hroom : d.coefficient < UInt64.size := hdigits.trans_lt (by decide)
  dsimp only
  rw [hd'] at hvalue hlength ⊢
  split
  · next htop =>
    split
    · next hsign =>
      -- zeros and a fraction of zero follow the digits: a tenth of an integer, which is exact
      obtain ⟨e, he⟩ := Int.eq_ofNat_of_zero_le hsign
      have htop : e + l ≤ 12 := by omega
      have hinteger : d.coefficient * 10 ^ e < 10 ^ 13 := by
        calc d.coefficient * 10 ^ e < 10 ^ (l + 1) * 10 ^ e :=
              Nat.mul_lt_mul_of_pos_right hhigh (by positivity)
          _ = 10 ^ (l + 1 + e) := (pow_add _ _ _).symm
          _ ≤ 10 ^ 13 := Nat.pow_le_pow_right (by decide) (by omega)
      have hten : d.value = d.coefficient * 10 ^ e := by rw [Decimal.value, he, zpow_natCast]
      have hexact : ofWord? negative (d.coefficient * 10 ^ e * 10) (-1) =
          some (Single.ofDecimal negative d) := by
        refine ofWord?_of_exact negative (n := d.coefficient * 10 ^ e) (k := 0) (by omega)
          (by omega) (by positivity) (by omega) (by decide) (by omega) (by decide) ?_ ?_
        · rw [hten]
          simp
        · rw [hten]
          push_cast
          ring
      rw [← hexact]
      refine single?_of_word ?_ ?_ ?_ ?_ ?_
      · rfl
      · rw [Nat.ofDigitChars_append, Nat.ofDigitChars_append, Nat.ofDigitChars_replicate_zero,
          hvalue, he, Int.toNat_natCast, Nat.ofDigitChars_cons, Nat.ofDigitChars_nil,
          mul_comm (10 ^ e)]
        simp [mul_comm]
      · exact (Nat.mul_lt_mul_of_pos_right hinteger (by decide)).trans (by decide)
      · simp
      · rfl
    · next hsign =>
      rw [← hdecimal]
      obtain ⟨places, hplaces⟩ : ∃ places, (-d.exponent).toNat = places := ⟨_, rfl⟩
      have hfraction := length_plain digits places
      rw [hplaces]
      refine single?_of_word ?_ ?_ hroom ?_ ?_
      · rw [isInteger, Bool.and_eq_false_iff, List.isEmpty_eq_false_iff_exists_mem,
          ← List.length_pos_iff_exists_mem, hfraction]
        omega
      · rw [ofDigitChars_plain, hvalue]
      · simp
      · rw [hfraction, Option.getD_none]
        omega
  · -- one digit before the point
    rw [← hdecimal]
    refine single?_of_word ?_ ?_ hroom ?_ ?_
    · simp [isInteger]
    · rw [List.take_append_drop, hvalue]
    · simp only [Option.getD_some, largestExponent]
      omega
    · simp only [Option.getD_some, List.length_drop]
      omega

end Number

/-- The JSON text of a finite number is read as the number, the sign of zero included. -/
theorem single?_ofSingle {x : Single} (h : x.isFinite) : single? (ofSingle x) = some x := by
  obtain ⟨negative, magnitude, hmagnitude⟩ := x
  have hfinite : magnitude < single.infinity := by
    rw [Single.infinity_eq]
    simpa [Single.isFinite] using h
  unfold ofSingle
  rw [h]
  rcases Nat.eq_zero_or_pos magnitude with rfl | hpos
  · have hzero : ∀ sign, Number.single? ⟨sign, ['0'], ['0'], none⟩ = some ⟨sign, 0⟩ := by
      decide +kernel
    exact hzero negative
  · have hback := Single.read_shortest .even hfinite
    have hzero : Single.isZero ⟨negative, magnitude, hmagnitude⟩ = false := by
      simp [Single.isZero, hpos.ne']
    rw [hzero]
    simp only [single?, Bool.not_true, if_false, Bool.false_eq_true]
    rw [Number.single?_ofFinite negative hpos hfinite]
    simp only [Single.ofDecimal, hback]

end Json
end PadScript
