import PadScript.Segment

/-!
# Segment stores

The segments of a script in playing order, looked up by frame and expanded frame by frame.
-/
namespace PadScript

structure Store where
  segments : List Segment
  deriving DecidableEq, Repr, Inhabited

namespace Store

def empty : Store := ⟨[]⟩

def size (s : Store) : Nat := s.segments.length

def isEmpty (s : Store) : Bool := s.segments.isEmpty

def get? (s : Store) (i : Nat) : Option Segment := s.segments[i]?

/-- The last frame of the last segment. -/
def frameCount (s : Store) : Frame := (s.segments.getLast?.map Segment.last).getD 0

/-- One controller state for every frame of every segment. -/
def expand (s : Store) : List Controller :=
  s.segments.flatMap fun seg => List.replicate seg.frameCount seg.input

/-- Halving search in the `size` places from `base`, of which the first ones satisfy `p` and the
later ones do not: the place after the last one that does. -/
def bisect (p : Nat → Bool) (base size : Nat) : Nat :=
  if size ≤ 1 then (if size = 1 ∧ p base then base + 1 else base)
  else
    let middle := base + size / 2
    bisect p (if p middle then middle else base) (size - size / 2)
termination_by size

def indexAt? (s : Store) (f : Frame) : Option Nat :=
  let endsBefore (i : Nat) : Bool := (s.get? i).any fun seg => seg.last < f
  let i := bisect endsBefore 0 s.size
  if (s.get? i).any (·.contains f) then some i else none

def markerAt (s : Store) (f : Frame) : Option String :=
  ((s.indexAt? f).bind s.get?).bind Segment.marker

theorem contains_of_indexAt? {s : Store} {f : Frame} {i : Nat} (h : s.indexAt? f = some i) :
    ∃ seg, s.get? i = some seg ∧ seg.contains f := by
  simp only [indexAt?, Option.ite_none_right_eq_some, Option.some.injEq] at h
  obtain ⟨hany, rfl⟩ := h
  exact Option.any_eq_true_iff_get _ _ |>.1 hany |> fun ⟨hs, hc⟩ =>
    ⟨_, (Option.some_get hs).symm, hc⟩

end Store
end PadScript
