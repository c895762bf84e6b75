import PadScript.Text

/-!
# Decimal numbers

A coefficient times a power of ten, and its positional notation.
-/
namespace PadScript

structure Decimal where
  coefficient : Nat
  exponent : Int
  deriving DecidableEq, Repr

namespace Decimal

def ratio (d : Decimal) : Nat × Nat :=
  if 0 ≤ d.exponent then (d.coefficient * Nat.pow 10 d.exponent.toNat, 1)
  else (d.coefficient, Nat.pow 10 (-d.exponent).toNat)

/-- The exponent is moved to within a thousand digits of the coefficient's length. A number that
this changes lies far outside the range of every format here, and stays there. -/
def clamp (d : Decimal) : Decimal :=
  let limit : Int := 1000 + d.coefficient.log2
  ⟨d.coefficient, max (-limit) (min limit d.exponent)⟩

/-- Plain positional digits, with a point only where a fraction follows. -/
def positional (d : Decimal) : List Char :=
  let digits := Text.decimal d.coefficient
  if 0 ≤ d.exponent then digits ++ List.replicate d.exponent.toNat '0'
  else
    let places := (-d.exponent).toNat
    if places < digits.length then
      digits.take (digits.length - places) ++ '.' :: digits.drop (digits.length - places)
    else '0' :: '.' :: List.replicate (places - digits.length) '0' ++ digits

/-- The exponent of the largest power of ten not above `num / den`, for a quotient above zero. -/
def floorLog10 (num den : Nat) : Int :=
  if den ≤ num then (Text.decimal (num / den)).length - 1
  else -((Text.decimal ((den - 1) / num)).length : Int)

example : (⟨123, -2⟩ : Decimal).positional = "1.23".toList := by decide
example : (⟨5, -3⟩ : Decimal).positional = "0.005".toList := by decide
example : floorLog10 1 10 = -1 ∧ floorLog10 1 11 = -2 ∧ floorLog10 99 1 = 1 := by decide

end Decimal
end PadScript
