import PadScript.Proofs.NumberGrammar
import PadScript.Proofs.ShortestNear

/-!
# Numbers in scripts read back

A finite number that is written in the notation of scripts denotes itself, the sign of zero
included, and is read as itself.
-/
namespace PadScript

namespace Text

theorem isDigit_of_mem_zeros {n : Nat} {c : Char} (h : c ∈ List.replicate n '0') : c.isDigit := by
  obtain rfl := List.eq_of_mem_replicate h
  rfl

end Text

namespace Decimal

/-- The digits before and after the point. -/
structure Point (d : Decimal) (whole fraction : List Char) : Prop where
  text : d.positional = whole ++ '.' :: fraction
  nonempty : whole ≠ []
  before : ∀ c ∈ whole, c.isDigit
  after : ∀ c ∈ fraction, c.isDigit
  coefficient : Nat.ofDigitChars 10 (whole ++ fraction) 0 = d.coefficient
  exponent : d.exponent = -fraction.length

theorem positional_of_nonneg {d : Decimal} (h : 0 ≤ d.exponent) :
    d.positional = Text.decimal d.coefficient ++ List.replicate d.exponent.toNat '0' := by
  unfold positional
  dsimp only
  rw [if_pos h]

theorem exists_point {d : Decimal} (h : d.exponent < 0) :
    ∃ whole fraction, d.Point whole fraction := by
  have hdigits : ∀ c ∈ Text.decimal d.coefficient, c.isDigit := fun _ => Text.isDigit_of_mem_decimal
  have hvalue : Nat.ofDigitChars 10 (Text.decimal d.coefficient) 0 = d.coefficient :=
    Nat.ofDigitChars_ten_toDigits
  obtain ⟨digits, hd⟩ : ∃ digits, Text.decimal d.coefficient = digits := ⟨_, rfl⟩
  obtain ⟨places, hplaces⟩ : ∃ places, (-d.exponent).toNat = places := ⟨_, rfl⟩
  have hpositional : d.positional = if places < digits.length then
      digits.take (digits.length - places) ++ '.' :: digits.drop (digits.length - places)
      else '0' :: '.' :: List.replicate (places - digits.length) '0' ++ digits := by
    unfold positional
    dsimp only
    rw [if_neg (by omega), hd, hplaces]
  rw [hd] at hdigits hvalue
  by_cases hfew : places < digits.length
  · -- the point stands among the digits
    rw [if_pos hfew] at hpositional
    refine ⟨_, _, hpositional, ?_, ?_, ?_, ?_, ?_⟩
    · rw [ne_eq, List.take_eq_nil_iff, not_or]
      refine ⟨by omega, fun hnil => ?_⟩
      simp [hnil] at hfew
    · exact fun c hc => hdigits c (List.mem_of_mem_take hc)
    · exact fun c hc => hdigits c (List.mem_of_mem_drop hc)
    · rw [List.take_append_drop, hvalue]
    · rw [List.length_drop]
      omega
  · -- the point stands before the digits, zeros between them
    rw [if_neg hfew] at hpositional
    refine ⟨['0'], List.replicate (places - digits.length) '0' ++ digits, hpositional,
      by simp, by simp, ?_, ?_, ?_⟩
    · intro c hc
      rcases List.mem_append.mp hc with hc | hc
      · exact Text.isDigit_of_mem_zeros hc
      · exact hdigits c hc
    · have hzero : Nat.ofDigitChars 10 ['0'] 0 = 0 := rfl
      rw [Nat.ofDigitChars_append, Nat.ofDigitChars_append, Nat.ofDigitChars_replicate_zero,
        hzero, mul_zero, hvalue]
    · rw [List.length_append, List.length_replicate]
      omega

theorem digits_of_nonneg {d : Decimal} (h : 0 ≤ d.exponent) :
    ∀ c ∈ d.positional, c.isDigit := by
  intro c hc
  rw [positional_of_nonneg h] at hc
  rcases List.mem_append.mp hc with hc | hc
  · exact Text.isDigit_of_mem_decimal hc
  · exact Text.isDigit_of_mem_zeros hc

theorem ofDigitChars_positional {d : Decimal} (h : 0 ≤ d.exponent) :
    Nat.ofDigitChars 10 d.positional 0 = d.coefficient * 10 ^ d.exponent.toNat := by
  rw [positional_of_nonneg h, Nat.ofDigitChars_append, Nat.ofDigitChars_replicate_zero,
    Text.decimal, Nat.ofDigitChars_ten_toDigits, Nat.mul_comm]

theorem exists_head (d : Decimal) : ∃ c rest, d.positional = c :: rest ∧ c.isDigit := by
  by_cases h : 0 ≤ d.exponent
  · have hdigits := digits_of_nonneg h
    cases hp : d.positional with
    | nil => simp [positional_of_nonneg h, Text.decimal_ne_nil] at hp
    | cons c rest => exact ⟨c, rest, rfl, hdigits c (by simp [hp])⟩
  · obtain ⟨whole, fraction, hpoint⟩ := exists_point (not_le.mp h)
    cases whole with
    | nil => exact absurd rfl hpoint.nonempty
    | cons c rest => exact ⟨c, _, hpoint.text, hpoint.before c (by simp)⟩

end Decimal

namespace Single

/-- Positional notation spells the same number, without zeros in the exponent. -/
theorem spells_positional (d : Decimal) :
    Spells (if 0 ≤ d.exponent then ⟨d.coefficient * 10 ^ d.exponent.toNat, 0⟩ else d)
      d.positional := by
  split
  · next h =>
    obtain ⟨c, rest, hcons, -⟩ := d.exists_head
    have hdigits : Text.Digits (d.coefficient * 10 ^ d.exponent.toNat) d.positional :=
      ⟨by simp [hcons], Decimal.digits_of_nonneg h, Decimal.ofDigitChars_positional h⟩
    rw [← List.append_nil d.positional]
    exact .whole hdigits .missing
  · next h =>
    obtain ⟨whole, fraction, hpoint⟩ := Decimal.exists_point (not_le.mp h)
    have hdigits : Text.Digits d.coefficient (whole ++ fraction) :=
      ⟨List.append_ne_nil_of_left_ne_nil hpoint.nonempty _,
        List.forall_mem_append.mpr ⟨hpoint.before, hpoint.after⟩, hpoint.coefficient⟩
    have hvalue : d = ⟨d.coefficient, 0 - fraction.length⟩ := by
      rw [zero_sub, ← hpoint.exponent]
    rw [hpoint.text, ← List.append_nil fraction, hvalue]
    exact .point hdigits .missing

theorem exists_toText {x : Single} (h : x.isFinite) :
    ∃ d : Decimal, read d = x.magnitude.val ∧ d.exponent ≤ 1000 ∧
      x.toText.toList = (if x.negative then ['-'] else []) ++ d.positional := by
  have hnan := isNaN_of_isFinite h
  have hsign : (if x.negative then "-" else "").toList = if x.negative then ['-'] else [] := by
    cases x.negative <;> rfl
  by_cases hzero : x.isZero
  · refine ⟨⟨0, 0⟩, ?_, by simp, ?_⟩
    · have : x.magnitude.val = 0 := by simpa [isZero] using hzero
      rw [this]
      decide
    · simp [toText, hnan, h, hzero, hsign, Decimal.positional, Text.decimal]
  · have hfinite : x.magnitude.val < Binary.single.infinity := by
      rw [infinity_eq]
      simpa [isFinite] using h
    have hpos : 0 < x.magnitude.val := Nat.pos_of_ne_zero (by simpa [isZero] using hzero)
    obtain ⟨-, -, hexponent⟩ := shortest_bounds .up hpos hfinite
    refine ⟨shortest .up x.magnitude.val, read_shortest .up hfinite, by omega, ?_⟩
    simp [toText, hnan, h, hzero, hsign]

theorem ofDecimal_of_read {x : Single} {d : Decimal} (h : read d = x.magnitude.val) :
    ofDecimal x.negative d = x := by
  obtain ⟨negative, magnitude⟩ := x
  exact congrArg (Single.mk negative) (Fin.ext h)

theorem denotes_toText {x : Single} (h : x.isFinite) : Denotes x x.toText.toList := by
  obtain ⟨d, hread, hexponent, htext⟩ := exists_toText h
  have hread' : read (if 0 ≤ d.exponent then ⟨d.coefficient * 10 ^ d.exponent.toNat, 0⟩ else d) =
      x.magnitude.val := by
    split
    · next hnonneg => rw [read_mul_pow hnonneg hexponent, hread]
    · exact hread
  have hsign : Sign x.negative (if x.negative then ['-'] else []) := by
    cases x.negative with
    | true => exact .minus
    | false => exact .missing
  have hdenotes := Denotes.number hsign (spells_positional d)
  rwa [ofDecimal_of_read hread', ← htext] at hdenotes

/-- A finite number that is written is read as itself. -/
theorem ofText?_toText {x : Single} (h : x.isFinite) : ofText? x.toText = some x := by
  rw [← String.ofList_toList (s := x.toText)]
  exact (ofText?_eq_some_iff h).mpr (denotes_toText h)

end Single
end PadScript
