import PadScript.Binary

/-!
# Single precision numbers

A number of the binary32 format as a sign and a magnitude code. Two comparisons matter: equality
of the type tells all values apart, and `Single.numEq` compares as numbers, so that the two zeros
agree and a NaN agrees with nothing.
-/
namespace PadScript

structure Single where
  negative : Bool
  magnitude : Fin 2147483648
  deriving DecidableEq, Repr

namespace Single

def zero : Single := ⟨false, 0⟩

instance : Inhabited Single := ⟨zero⟩

def infinity : Nat := 0x7F800000

def isNaN (x : Single) : Bool := infinity < x.magnitude.val

def isFinite (x : Single) : Bool := x.magnitude.val < infinity

def isZero (x : Single) : Bool := x.magnitude.val == 0

/-- Equality of the numbers that two values denote. -/
def numEq (x y : Single) : Bool :=
  !x.isNaN && !y.isNaN && ((x.isZero && y.isZero) || x = y)

/-- Anything but a finite number becomes zero. -/
def finiteOrZero (x : Single) : Single := if x.isFinite then x else zero

/-- The value whose sign is the highest bit and whose magnitude are the other 31. -/
def ofBits (bits : UInt32) : Single :=
  ⟨2147483648 ≤ bits.toNat, Fin.ofNat 2147483648 bits.toNat⟩

def toBits (x : Single) : UInt32 :=
  UInt32.ofNat (x.magnitude.val + if x.negative then 2147483648 else 0)

def ofRatio (negative : Bool) (num den : Nat) : Single :=
  ⟨negative, Binary.single.round num den,
    Nat.lt_of_le_of_lt (Binary.single.round_le_infinity num den) (by decide)⟩

theorem infinity_eq : Binary.single.infinity = infinity := by decide

theorem numEq_self {x : Single} (h : x.isNaN = false) : x.numEq x := by simp [numEq, h]

theorem numEq_comm (x y : Single) : x.numEq y = y.numEq x := by
  simp only [numEq, Bool.and_comm, eq_comm]

theorem numEq_trans {x y z : Single} (h : x.numEq y) (k : y.numEq z) : x.numEq z := by
  simp only [numEq, Bool.and_eq_true, Bool.or_eq_true, decide_eq_true_eq] at *
  obtain ⟨⟨hx, -⟩, hxy⟩ := h
  obtain ⟨⟨-, hz⟩, hyz⟩ := k
  refine ⟨⟨hx, hz⟩, ?_⟩
  rcases hxy with ⟨h1, h2⟩ | rfl
  · rcases hyz with ⟨-, h3⟩ | rfl
    · exact Or.inl ⟨h1, h3⟩
    · exact Or.inl ⟨h1, h2⟩
  · exact hyz

theorem isFinite_finiteOrZero (x : Single) : x.finiteOrZero.isFinite := by
  unfold finiteOrZero
  split
  · assumption
  · decide

theorem finiteOrZero_of_isFinite {x : Single} (h : x.isFinite) : x.finiteOrZero = x := by
  simp [finiteOrZero, h]

theorem isNaN_of_isFinite {x : Single} (h : x.isFinite) : x.isNaN = false := by
  simp only [isFinite, isNaN, decide_eq_true_eq, decide_eq_false_iff_not] at *
  omega

theorem ofBits_toBits (x : Single) : ofBits x.toBits = x := by
  obtain ⟨s, m, hm⟩ := x
  cases s
  · have h : m % 4294967296 = m := Nat.mod_eq_of_lt (by omega)
    simp [ofBits, toBits, UInt32.toNat_ofNat', h, Fin.ofNat, Nat.mod_eq_of_lt hm, hm]
  · have h : (m + 2147483648) % 4294967296 = m + 2147483648 := Nat.mod_eq_of_lt (by omega)
    simp [ofBits, toBits, UInt32.toNat_ofNat', h, Fin.ofNat, Nat.mod_eq_of_lt hm]

example : zero.numEq ⟨true, 0⟩ ∧ zero ≠ ⟨true, 0⟩ := by decide
example : (ofBits 0x7FC00000).numEq (ofBits 0x7FC00000) = false := by decide

end Single
end PadScript
