import PadScript.Decimal
import PadScript.Single.Basic

/-!
# Shortest decimals

`Single.ofDecimal` reads a decimal number to the nearest single precision number, and `shortest`
finds, for a finite magnitude, a decimal with the fewest digits that reads back to it, the nearest
of those; which way an exact tie goes is a parameter. A decimal is only taken after it has been
read back, and the exact expansion stands in where no short one is found, so that
`read (shortest tie code) = code` whatever the search does.
-/
namespace PadScript.Single

def read (d : Decimal) : Nat :=
  let (num, den) := d.clamp.ratio
  Binary.single.round num den

theorem read_lt (d : Decimal) : read d < 2147483648 :=
  Nat.lt_of_le_of_lt (Binary.single.round_le_infinity _ _) (by decide)

def ofDecimal (negative : Bool) (d : Decimal) : Single := ⟨negative, read d, read_lt d⟩

/-- Where a value lies halfway between the two decimals next to it. -/
inductive Tie
  | up
  | even
  deriving DecidableEq, Repr

/-- The decimal with `digits` digits that is nearest to a finite magnitude among those that read
back to it. -/
def nearest? (tie : Tie) (code digits : Nat) : Option Decimal :=
  let (num, den) := Binary.single.ratio code
  let place := Decimal.floorLog10 num den - (digits - 1 : Nat)
  let (a, b) := if 0 ≤ place then (num, den * Nat.pow 10 place.toNat)
    else (num * Nat.pow 10 (-place).toNat, den)
  let low := a / b
  let below : Decimal := ⟨low, place⟩
  let above : Decimal :=
    if low + 1 = Nat.pow 10 digits then ⟨1, place + digits⟩ else ⟨low + 1, place⟩
  let preferAbove := b < 2 * (a % b) ||
    (2 * (a % b) == b && (tie = .up || low % 2 == 1))
  let (first, second) := if preferAbove then (above, below) else (below, above)
  if read first = code then some first
  else if read second = code then some second
  else none

def exact (code : Nat) : Decimal :=
  let (m, q) := Binary.single.scale code
  if 0 ≤ q then ⟨m * Nat.pow 2 q.toNat, 0⟩ else ⟨m * Nat.pow 5 (-q).toNat, q⟩

/-- The shortest decimal that reads back to a finite magnitude other than zero. -/
def shortest (tie : Tie) (code : Nat) : Decimal :=
  ((List.range' 1 9).findSome? (nearest? tie code)).getD (exact code)

theorem read_of_nearest? {tie : Tie} {code digits : Nat} {d : Decimal}
    (h : nearest? tie code digits = some d) : read d = code := by
  unfold nearest? at h
  grind

example : shortest .up 0x3DCCCCCD = ⟨1, -1⟩ := by decide +kernel
example : shortest .up 1 = ⟨1, -45⟩ ∧ shortest .even 1 = ⟨1, -45⟩ := by decide +kernel
example : shortest .up 0x7F7FFFFF = ⟨34028235, 31⟩ := by decide +kernel
example : shortest .up 0x4A000001 = ⟨20971523, -1⟩ := by decide +kernel

end PadScript.Single
