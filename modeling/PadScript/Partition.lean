import PadScript.Store

/-!
# Partitions

A store is sound when its segments cover the frames from one on without gap or overlap. `check`
reports the first segment that breaks this.
-/
namespace PadScript

inductive PartitionError
  | badStart (found : Frame)
  | emptySegment (source : Location)
  | notContiguous (source : Location) (expected found : Frame)
  deriving DecidableEq, Repr

def PartitionError.message : PartitionError → String
  | badStart found => "first segment starts at frame " ++ toString found.toNat ++ ", expected 1"
  | emptySegment source => "segment from " ++ source.text ++ " covers no frames"
  | notContiguous source expected found =>
    "segment from " ++ source.text ++ " starts at frame " ++ toString found.toNat ++
      ", expected " ++ toString expected.toNat

namespace Partition

/-- The segments continue a partition whose next frame is `expected`. -/
def checkFrom (expected : Frame) : List Segment → Except PartitionError Unit
  | [] => .ok ()
  | s :: rest =>
    if s.isEmpty then .error (.emptySegment s.source)
    else if s.first ≠ expected then
      .error (if expected = 1 then .badStart s.first else .notContiguous s.source expected s.first)
    else checkFrom s.last.next rest

def check (store : Store) : Except PartitionError Unit := checkFrom 1 store.segments

/-- The segments cover exactly the frames from `next` on, counted without bound. -/
inductive From : Nat → List Segment → Prop
  | nil (next : Nat) : From next []
  | cons {next : Nat} {s : Segment} {rest : List Segment}
      (start : s.first.toNat = next)
      (filled : s.first.toNat ≤ s.last.toNat)
      (following : From (s.last.toNat + 1) rest) :
      From next (s :: rest)

end Partition

/-- The segments cover the frames from one on, each exactly once. -/
def Store.IsPartition (store : Store) : Prop := Partition.From 1 store.segments

end PadScript
