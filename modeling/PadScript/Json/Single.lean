import PadScript.Json.Basic
import PadScript.Single.Shortest

/-!
# Single precision numbers in JSON

A number is written as the shortest decimal that rounds to it, in plain notation where the first
digit stands for 10⁻⁶ to 10¹². It is read by way of double precision: the digits are gathered in a
64-bit word and scaled by a power of ten, each step rounded on its own, so that the last bit need
not be that of the exact decimal. Integers of at most 64 bits are rounded at once.
-/
namespace PadScript.Json

namespace Number

/-- A finite number other than zero; of two shortest decimals equally near, the even one is
written. -/
def ofFinite (negative : Bool) (magnitude : Nat) : Number :=
  let d := Single.shortest .even magnitude
  let digits := Text.decimal d.coefficient
  let top := d.exponent + digits.length - 1
  if -6 ≤ top ∧ top ≤ 12 then
    if 0 ≤ d.exponent then
      ⟨negative, digits ++ List.replicate d.exponent.toNat '0', ['0'], none⟩
    else
      let places := (-d.exponent).toNat
      let split := digits.length - places
      let whole := if split = 0 then ['0'] else digits.take split
      ⟨negative, whole, List.replicate (places - digits.length) '0' ++ digits.drop split, none⟩
  else ⟨negative, digits.take 1, digits.drop 1, some top⟩

/-- Digits are appended to a word for as long as it has room; the others are left over. -/
def absorb (word : Nat) : List Char → Nat × List Char
  | [] => (word, [])
  | c :: r =>
    let next := word * 10 + (c.toNat - '0'.toNat)
    if next < UInt64.size then absorb next r else (word, c :: r)

def largestStep : Nat := 308

/-- A double precision magnitude times a power of ten. Powers below the largest step are applied
one step after the other; nothing is too large for the format. -/
def scaled? : (steps : Nat) → (magnitude : Nat) → (power : Int) → Option Nat
  | steps, magnitude, power =>
    let format := Binary.double
    if power.natAbs ≤ largestStep then
      let ten := format.round (Nat.pow 10 power.natAbs) 1
      if 0 ≤ power then
        let product := format.mul magnitude ten
        if format.isFinite product then some product else none
      else some (format.div magnitude ten)
    else if magnitude = 0 then some 0
    else if 0 ≤ power then none
    else match steps with
      | 0 => some 0
      | steps + 1 =>
        scaled? steps (format.div magnitude (format.round (Nat.pow 10 largestStep) 1))
          (power + largestStep)

/-- The number that a word times a power of ten is read as. -/
def ofWord? (negative : Bool) (word : Nat) (power : Int) : Option Single :=
  (scaled? power.natAbs (Binary.double.round word 1) power).map fun magnitude =>
    let (num, den) := Binary.double.ratio magnitude
    Single.ofRatio negative num den

/-- Exponents beyond 32 bits are not computed with. -/
def largestExponent : Nat := 0x7FFFFFFF

def single? (n : Number) : Option Single :=
  let (word, left) := absorb 0 n.whole
  if n.isInteger && left.isEmpty then
    if n.negative && 0x8000000000000000 < word then ofWord? true word 0
    else some (Single.ofRatio n.negative word 1)
  else
    let (word, unread) := absorb word n.fraction
    let place : Int := left.length - (n.fraction.length - unread.length : Nat)
    let exponent := n.exponent.getD 0
    if largestExponent < exponent.natAbs then
      if word ≠ 0 ∧ 0 < exponent then none else some { Single.zero with negative := n.negative }
    else ofWord? n.negative word (place + exponent)

end Number

/-- Infinities and what is no number are written as null. -/
def ofSingle (x : Single) : Json :=
  if !x.isFinite then null
  else if x.isZero then number ⟨x.negative, ['0'], ['0'], none⟩
  else number (.ofFinite x.negative x.magnitude.val)

def single? : Json → Option Single
  | number n => n.single?
  | _ => none

end PadScript.Json
