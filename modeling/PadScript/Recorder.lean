import PadScript.Store

/-!
# Recording

`Recorder.record` packs live input into segments, one for each run of frames with the same
buttons and the same numbers on the axes.
-/
namespace PadScript

/-- `captured` holds the latest segment first. -/
structure Recorder where
  captured : List Segment := []
  recording : Bool := false
  deriving DecidableEq, Repr, Inhabited

namespace Recorder

def sourceName : String := "recording"

def start (_ : Recorder) : Recorder := { recording := true }

/-- The captured segments are handed over, and nothing is kept. -/
def stop (r : Recorder) : Store × Recorder := (⟨r.captured.reverse⟩, {})

/-- The input is held for one frame more. -/
def capture (captured : List Segment) (input : Controller) : List Segment :=
  match captured with
  | [] => [{ first := 1, last := 1, source := ⟨sourceName, 1⟩, input }]
  | s :: earlier =>
    if s.input.numEq input then { s with last := s.last + 1 } :: earlier
    else
      let frame := s.last + 1
      { first := frame, last := frame, source := ⟨sourceName, frame⟩, input } :: s :: earlier

/-- Input counts only while recording; axes without a finite number are recorded as zero. -/
def record (r : Recorder) (input : Controller) : Recorder :=
  if r.recording then { r with captured := capture r.captured input.finite } else r

def frameCount (r : Recorder) : Frame := (r.captured.head?.map Segment.last).getD 0

def recordAll (inputs : List Controller) : Store :=
  (inputs.foldl record (start {})).stop.1

end Recorder
end PadScript
