/-!
# Binary floating point magnitudes

A magnitude of a binary format is kept as its code, the bits without the sign: codes are ordered
as the values are. `Format.round` gives the code nearest to a quotient of natural numbers, a tie
going to the even code; everything is exact arithmetic on natural numbers.
-/
namespace PadScript.Binary

/-- A format is given by the widths of its fields. -/
structure Format where
  fractionBits : Nat
  exponentBits : Nat
  deriving DecidableEq, Repr

def single : Format := ⟨23, 8⟩

def double : Format := ⟨52, 11⟩

/-- The quotient rounded to the nearest natural number, a tie to the even one. -/
def halfEven (num den : Nat) : Nat :=
  let floor := num / den
  let twice := 2 * (num % den)
  if twice < den ∨ (twice = den ∧ floor % 2 = 0) then floor else floor + 1

/-- The quotient `num / den`, divided by `2 ^ power`. -/
def shift (num den : Nat) (power : Int) : Nat × Nat :=
  if 0 ≤ power then (num, den * Nat.pow 2 power.toNat) else (num * Nat.pow 2 (-power).toNat, den)

/-- The exponent of the largest power of two not above `num / den`. -/
def floorLog2 (num den : Nat) : Int :=
  let guess : Int := num.log2 - den.log2
  let scaled := shift num den guess
  if scaled.1 < scaled.2 then guess - 1 else guess

namespace Format

/-- The exponent of the spacing of the smallest magnitudes. -/
def lowest (f : Format) : Int := 2 - Nat.pow 2 (f.exponentBits - 1) - f.fractionBits

/-- The code of infinity; the codes above it are no numbers. -/
def infinity (f : Format) : Nat := (Nat.pow 2 f.exponentBits - 1) * Nat.pow 2 f.fractionBits

/-- A finite code denotes `m * 2 ^ q`. -/
def scale (f : Format) (code : Nat) : Nat × Int :=
  let unit := Nat.pow 2 f.fractionBits
  if code < unit then (code, f.lowest)
  else (unit + code % unit, f.lowest + (code / unit - 1 : Nat))

def ratio (f : Format) (code : Nat) : Nat × Nat :=
  let (m, q) := f.scale code
  if 0 ≤ q then (m * Nat.pow 2 q.toNat, 1) else (m, Nat.pow 2 (-q).toNat)

/-- The code nearest to `num / den`; what lies half a unit beyond the largest number, or more,
is infinite. -/
def round (f : Format) (num den : Nat) : Nat :=
  if num = 0 then 0
  else
    let power := max f.lowest (floorLog2 num den - f.fractionBits)
    let scaled := shift num den power
    let below := (power - f.lowest).toNat * Nat.pow 2 f.fractionBits
    min f.infinity (below + halfEven scaled.1 scaled.2)

def isFinite (f : Format) (code : Nat) : Bool := code < f.infinity

def mul (f : Format) (a b : Nat) : Nat :=
  let (x, u) := f.ratio a
  let (y, v) := f.ratio b
  f.round (x * y) (u * v)

def div (f : Format) (a b : Nat) : Nat :=
  let (x, u) := f.ratio a
  let (y, v) := f.ratio b
  f.round (x * v) (u * y)

theorem round_le_infinity (f : Format) (num den : Nat) : f.round num den ≤ f.infinity := by
  unfold round
  split
  · exact Nat.zero_le _
  · exact Nat.min_le_left _ _

@[simp] theorem round_zero (f : Format) (den : Nat) : f.round 0 den = 0 := by simp [round]

end Format

example : single.round 1 10 = 0x3DCCCCCD := by decide
example : single.round 16777217 1 = 0x4B800000 ∧ single.round 16777219 1 = 0x4B800002 := by decide
example : single.ratio 0x42B40000 = (11796480, 131072) := by decide
example : single.round (2 ^ 128) 1 = single.infinity := by decide
example : double.round 1 3 = 0x3FD5555555555555 := by decide

end PadScript.Binary
