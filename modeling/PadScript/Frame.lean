/-!
# Frame numbers

Frames are numbered from one by 64-bit words. The neighbours of a frame number stay within the
words: zero is its own predecessor and the largest word its own successor.
-/
namespace PadScript

abbrev Frame := UInt64

namespace Frame

def largest : Frame := 0xFFFFFFFFFFFFFFFF

def next (f : Frame) : Frame := if f = largest then f else f + 1

def previous (f : Frame) : Frame := if f = 0 then f else f - 1

/-- The frame `count` frames later, which has to lie below the largest word. -/
def later? (f : Frame) (count : UInt64) : Option Frame :=
  if f.toNat + count.toNat < largest.toNat then some (f + count) else none

theorem toNat_le_largest (f : Frame) : f.toNat ≤ largest.toNat := by
  have := f.toNat_lt
  simp only [largest, UInt64.reduceToNat]
  omega

theorem toNat_next {f : Frame} (h : f.toNat < largest.toNat) : f.next.toNat = f.toNat + 1 := by
  have hne : f ≠ largest := by rintro rfl; omega
  have := toNat_le_largest f
  simp only [largest, UInt64.reduceToNat] at h
  rw [next, if_neg hne, UInt64.toNat_add, UInt64.toNat_one, Nat.mod_eq_of_lt (by omega)]

theorem later?_eq_some {f g : Frame} {count : UInt64} (h : f.later? count = some g) :
    g.toNat = f.toNat + count.toNat ∧ g.toNat < largest.toNat := by
  simp only [later?, Option.ite_none_right_eq_some, Option.some.injEq] at h
  obtain ⟨hlt, rfl⟩ := h
  have : (f + count).toNat = f.toNat + count.toNat := by
    simp only [largest, UInt64.reduceToNat] at hlt
    rw [UInt64.toNat_add, Nat.mod_eq_of_lt (by omega)]
  exact ⟨this, this ▸ hlt⟩

end Frame
end PadScript
