import PadScript.Controller
import PadScript.Frame

/-!
# Segments

A segment is a run of consecutive frames with the same input and the same settings.
-/
namespace PadScript

/-- A line of a script; lines count from one. -/
structure Location where
  file : String
  line : UInt64
  deriving DecidableEq, Repr, Inhabited

def Location.text (l : Location) : String := l.file ++ ":" ++ toString l.line.toNat

def standardRate : UInt32 := 60

/-- The frames `first` to `last`, both included. -/
structure Segment where
  first : Frame
  last : Frame
  source : Location
  rate : UInt32 := standardRate
  skipMovies : Bool := false
  marker : Option String := none
  input : Controller := {}
  deriving DecidableEq, Repr, Inhabited

namespace Segment

/-- A segment without frames that starts at `first`, with the standard settings. -/
def fresh (first : Frame) (source : Location) : Segment :=
  { first, last := first.previous, source }

/-- The segment without frames that follows `s`: settings and axes stay, buttons are released. -/
def successor (s : Segment) (source : Location) : Segment :=
  { s with first := s.last.next, source, input := { s.input with buttons := .empty } }

/-- The number of frames; the full range of words counts one less than it has. -/
def frameCount (s : Segment) : Nat :=
  if s.last < s.first then 0 else min (s.last.toNat - s.first.toNat + 1) Frame.largest.toNat

def isEmpty (s : Segment) : Bool := s.frameCount == 0

def contains (s : Segment) (f : Frame) : Bool := s.first ≤ f && f ≤ s.last

theorem isEmpty_iff {s : Segment} : s.isEmpty ↔ s.last < s.first := by
  have h : Frame.largest.toNat ≠ 0 := by decide
  simp only [isEmpty, frameCount, beq_iff_eq]
  split
  · simp [*]
  · simp only [*, iff_false]
    omega

theorem frameCount_eq {s : Segment} (hf : 1 ≤ s.first.toNat) (h : s.first.toNat ≤ s.last.toNat) :
    s.frameCount = s.last.toNat + 1 - s.first.toNat := by
  have hl := Frame.toNat_le_largest s.last
  have hn : ¬ s.last < s.first := by
    rw [UInt64.lt_iff_toNat_lt]
    omega
  rw [frameCount, if_neg hn]
  omega

end Segment
end PadScript
